import DescriptorExchange.Proofs.Requester.InstanceIds

/-!
The allocator against the sets it keeps. What it has answered so far tells which ids of a terminus are held
and which one it handed out last; these two say what it answers next. So the free ids are handed out in a
circle, and what is asked for one terminus has no effect on what another one gets.
-/
namespace DescriptorExchange

namespace InstanceIds

/-- What the allocator is asked. -/
inductive Action where
  | allocate (tid : TerminusId)
  | release (tid : TerminusId) (iid : InstanceId)

def Action.tid : Action → TerminusId
  | .allocate tid => tid
  | .release tid _ => tid

/-- What it was asked and what it answered. -/
inductive Answer where
  | allocated (tid : TerminusId) (result : Except InstanceIdError InstanceId)
  | released (tid : TerminusId) (iid : InstanceId) (result : Except InstanceIdError Unit)

def Answer.tid : Answer → TerminusId
  | .allocated tid _ => tid
  | .released tid _ _ => tid

def act (ids : InstanceIds) : Action → InstanceIds × Answer
  | .allocate tid =>
    match ids.allocate tid with
    | .ok (later, iid) => (later, .allocated tid (.ok iid))
    | .error cause => (ids, .allocated tid (.error cause))
  | .release tid iid =>
    match ids.release tid iid with
    | .ok later => (later, .released tid iid (.ok ()))
    | .error cause => (ids, .released tid iid (.error cause))

/-- Does what is asked, in order, and gives the answers. -/
def actAll (ids : InstanceIds) : List Action → InstanceIds × List Answer
  | [] => (ids, [])
  | action :: rest =>
    let (ids, answer) := ids.act action
    let (ids, answers) := ids.actAll rest
    (ids, answer :: answers)

variable {ids other : InstanceIds} {tid : TerminusId} {iid : InstanceId}

/-- The ids that are held for a terminus, and the one that was handed out for it last. -/
structure Holding where
  held : Finset InstanceId
  last : Option InstanceId

namespace Holding

def fresh : Holding := ⟨∅, none⟩

/-- Takes note of what the allocator has answered. -/
def note (tid : TerminusId) (h : Holding) : Answer → Holding
  | .allocated asked (.ok iid) => if asked = tid then ⟨insert iid h.held, some iid⟩ else h
  | .released asked iid (.ok ()) => if asked = tid then { h with held := h.held.erase iid } else h
  | _ => h

/-- What is held for a terminus once the allocator has given these answers. -/
def after (answers : List Answer) (tid : TerminusId) : Holding := answers.foldl (note tid) fresh

/-- Where the search for a free id starts. -/
def start (h : Holding) : Nat :=
  match h.last with
  | none => 0
  | some iid => iid.value.toNat + 1

/-- The id that comes a number of places behind the start, in the circle of all ids. -/
def place (h : Holding) (k : Nat) : InstanceId := ⟨UInt8.ofNat ((h.start + k) % InstanceId.count)⟩

/-- Of the ids that are not held, this is the first one in the circle. -/
def FirstFree (h : Holding) (iid : InstanceId) : Prop :=
  iid ∉ h.held ∧ ∃ k < InstanceId.count, iid = h.place k ∧ ∀ j < k, h.place j ∈ h.held

theorem toNat_place (h : Holding) (k : Nat) :
    (h.place k).value.toNat = (h.start + k) % InstanceId.count := by
  have hlt : (h.start + k) % InstanceId.count < InstanceId.count := Nat.mod_lt _ (by decide)
  exact UInt8.toNat_ofNat_of_lt (hlt.trans (by decide))

theorem note_of_ne {h : Holding} {answer : Answer} (hne : answer.tid ≠ tid) :
    h.note tid answer = h := by
  cases answer with
  | allocated asked result =>
    cases result with
    | ok iid => exact if_neg hne
    | error cause => rfl
  | released asked iid result =>
    cases result with
    | ok _ => exact if_neg hne
    | error cause => rfl

end Holding

theorem pool_empty (tid : TerminusId) : InstanceIds.empty.pool tid = .empty := by
  simp [InstanceIds.empty, pool]

theorem act_tid (ids : InstanceIds) (action : Action) : (ids.act action).2.tid = action.tid := by
  cases action with
  | allocate tid =>
    simp only [act]
    split <;> rfl
  | release tid iid =>
    simp only [act]
    split <;> rfl

/-- What is asked for one terminus leaves the pools of the others as they are. -/
theorem act_pool_of_ne {action : Action} (hne : action.tid ≠ tid) :
    (ids.act action).1.pool tid = ids.pool tid := by
  cases action with
  | allocate asked =>
    simp only [act, allocate]
    cases (ids.pool asked).allocate with
    | none => rfl
    | some taken => exact (pool_setPool ..).trans (if_neg (Ne.symm hne))
  | release asked iid =>
    simp only [act, release]
    cases (ids.pool asked).release iid with
    | none => rfl
    | some p => exact (pool_setPool ..).trans (if_neg (Ne.symm hne))

/-- Only the pool of the terminus it is for decides what an action does. -/
theorem act_congr {action : Action} (hpool : ids.pool action.tid = other.pool action.tid) :
    (ids.act action).2 = (other.act action).2 ∧
      (ids.act action).1.pool action.tid = (other.act action).1.pool action.tid := by
  cases action with
  | allocate asked =>
    replace hpool : ids.pool asked = other.pool asked := hpool
    simp only [act, allocate, hpool, Action.tid]
    cases (other.pool asked).allocate with
    | none => exact ⟨rfl, hpool⟩
    | some taken => simp [pool_setPool]
  | release asked iid =>
    replace hpool : ids.pool asked = other.pool asked := hpool
    simp only [act, release, hpool, Action.tid]
    cases (other.pool asked).release iid with
    | none => exact ⟨rfl, hpool⟩
    | some p => simp [pool_setPool]

/-- The answers for one terminus are those it would get if nothing were asked for any other. -/
theorem actAll_filter (actions : List Action) (hpool : ids.pool tid = other.pool tid) :
    (ids.actAll actions).2.filter (·.tid = tid) =
      (other.actAll (actions.filter (·.tid = tid))).2 := by
  induction actions generalizing ids other with
  | nil => rfl
  | cons action rest ih =>
    by_cases hsame : action.tid = tid
    · obtain ⟨hanswer, hlater⟩ := act_congr (hsame.symm ▸ hpool)
      simp only [actAll, hsame, decide_true, List.filter_cons_of_pos, act_tid]
      rw [hanswer, ih (hsame ▸ hlater)]
    · simp only [actAll, hsame, decide_false, Bool.false_eq_true, not_false_eq_true,
        List.filter_cons_of_neg, act_tid]
      exact ih ((act_pool_of_ne hsame).trans hpool)

/-- A pool is in step with what has been answered: the bits of its mask are those of the ids that are held,
and it searches from where the circle starts. -/
structure InStep (p : InstancePool) (h : Holding) : Prop where
  mem : ∀ {iid : InstanceId}, iid ∈ h.held ↔ p.Holds iid
  next : p.next.toNat = h.start % InstanceId.count

namespace InStep

variable {p q : InstancePool} {h : Holding}

theorem empty : InStep .empty .fresh where
  mem := by simp [Holding.fresh, InstancePool.empty, InstancePool.Holds]
  next := rfl

theorem allocate (hs : InStep p h) (hallocate : p.allocate = some (q, iid)) :
    InStep q ⟨insert iid h.held, some iid⟩ := by
  obtain ⟨-, -, hholds, hnext, -⟩ := InstancePool.allocate_eq_some hallocate
  refine ⟨fun {jid} => ?_, hnext⟩
  rw [Finset.mem_insert, hholds, hs.mem, or_comm]

theorem release (hs : InStep p h) (hheld : p.Holds iid) :
    ∃ q, p.release iid = some q ∧ InStep q { h with held := h.held.erase iid } := by
  obtain ⟨q, hrelease, hnext, hholds⟩ := InstancePool.release_of_holds hheld
  refine ⟨q, hrelease, fun {jid} => ?_, hnext ▸ hs.next⟩
  rw [Finset.mem_erase, hholds, hs.mem, and_comm]

/-- The circle of the ids is the order in which the pool tries them. -/
theorem place_eq (hs : InStep p h) (k : Nat) : h.place k = p.candidate k := by
  rw [← InstanceId.toNat_inj, Holding.toNat_place, InstancePool.toNat_candidate, hs.next,
    Nat.mod_add_mod]

theorem firstFree (hs : InStep p h) (hallocate : p.allocate = some (q, iid)) : h.FirstFree iid := by
  obtain ⟨-, hfree, -, -, k, hk, hat, hbefore⟩ := InstancePool.allocate_eq_some hallocate
  refine ⟨mt hs.mem.mp hfree, k, hk, hat.trans (hs.place_eq k).symm, fun j hj => ?_⟩
  rw [hs.place_eq, hs.mem]
  exact hbefore j hj

theorem allocate_eq_none_iff (hs : InStep p h) :
    p.allocate = none ↔ ∀ iid : InstanceId, iid.isValid → iid ∈ h.held := by
  simp only [InstancePool.allocate_eq_none_iff, hs.mem]

/-- An answer that is taken note of keeps the pool of its terminus in step. -/
theorem act (hs : InStep (ids.pool tid) h) (action : Action) :
    InStep ((ids.act action).1.pool tid) (h.note tid (ids.act action).2) := by
  by_cases hsame : action.tid = tid
  · cases action with
    | allocate asked =>
      obtain rfl : asked = tid := hsame
      simp only [InstanceIds.act, InstanceIds.allocate]
      cases hallocate : (ids.pool asked).allocate with
      | none => exact hs
      | some taken =>
        simp only [pool_setPool, Holding.note, if_true]
        exact hs.allocate hallocate
    | release asked iid =>
      obtain rfl : asked = tid := hsame
      simp only [InstanceIds.act, InstanceIds.release]
      by_cases hheld : (ids.pool asked).Holds iid
      · obtain ⟨q, hrelease, hlater⟩ := hs.release hheld
        simp only [hrelease, pool_setPool, Holding.note, if_true]
        exact hlater
      · simp only [InstancePool.release_of_not_holds hheld]
        exact hs
  · rw [act_pool_of_ne hsame, Holding.note_of_ne (act_tid ids action ▸ hsame)]
    exact hs

theorem actAll (hs : InStep (ids.pool tid) h) (actions : List Action) :
    InStep ((ids.actAll actions).1.pool tid) ((ids.actAll actions).2.foldl (Holding.note tid) h) := by
  induction actions generalizing ids h with
  | nil => exact hs
  | cons action rest ih => exact ih (hs.act action)

end InStep

/-- After any actions: an id is handed out for a terminus unless all are held for it, and it is the first
free one behind the one handed out last; an id can be given back just if it is held, and otherwise nothing
changes; the number in use is the number held; and what is answered for one terminus does not depend on
what is asked for others. -/
theorem allocator_keeps_sets (actions : List Action) (tid : TerminusId) :
    let ids := (empty.actAll actions).1
    let own := Holding.after (empty.actAll actions).2 tid
    (ids.allocate tid = .error (.exhausted tid) ↔ ∀ iid : InstanceId, iid.isValid → iid ∈ own.held) ∧
    ((∃ iid : InstanceId, iid.isValid ∧ iid ∉ own.held) →
      ∃ later iid, ids.allocate tid = .ok (later, iid) ∧ iid.isValid ∧ own.FirstFree iid) ∧
    (∀ iid, (∃ later, ids.release tid iid = .ok later) ↔ iid ∈ own.held) ∧
    (∀ iid, iid ∉ own.held →
      ids.act (.release tid iid) = (ids, .released tid iid (.error (.notAllocated tid iid)))) ∧
    ids.inUse tid = own.held.card ∧
    (empty.actAll actions).2.filter (·.tid = tid) =
      (empty.actAll (actions.filter (·.tid = tid))).2 := by
  intro ids own
  have hempty : InStep (InstanceIds.empty.pool tid) .fresh := by
    rw [pool_empty]
    exact .empty
  have hs : InStep (ids.pool tid) own := hempty.actAll actions
  refine ⟨?_, ?_, ?_, ?_, InstancePool.count_eq_card hs.mem, actAll_filter actions rfl⟩
  · rw [← hs.allocate_eq_none_iff]
    simp only [allocate]
    cases (ids.pool tid).allocate with
    | none => simp
    | some taken => simp
  · rintro ⟨iid, hvalid, hfree⟩
    cases hallocate : (ids.pool tid).allocate with
    | none => exact absurd (hs.allocate_eq_none_iff.mp hallocate iid hvalid) hfree
    | some taken =>
      obtain ⟨hvalid, -⟩ := InstancePool.allocate_eq_some hallocate
      exact ⟨ids.setPool tid taken.1, taken.2, by simp only [allocate, hallocate], hvalid,
        hs.firstFree hallocate⟩
  · intro iid
    rw [hs.mem]
    constructor
    · rintro ⟨later, hrelease⟩
      by_contra hfree
      simp [release, InstancePool.release_of_not_holds hfree] at hrelease
    · intro hheld
      obtain ⟨later, hrelease, -⟩ := release_of_held hheld
      exact ⟨later, hrelease⟩
  · intro iid hfree
    have hfree : ¬ (ids.pool tid).Holds iid := mt hs.mem.mpr hfree
    simp only [act, release, InstancePool.release_of_not_holds hfree]

end InstanceIds
end DescriptorExchange
