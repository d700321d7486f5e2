import DescriptorExchange.Proofs.Requester.Allocation
import DescriptorExchange.Proofs.Splits
import Mathlib.Data.List.Induction

/-!
How soon an id that was given back is handed out again. The free ids are not handed out in the order they
were given back, but in the order the circle comes to them. An id that is handed out goes to the end of the
circle, and it stays behind every id that is free from then on. So an id is not handed out again as long as
some other one has been free since; but one that was held meanwhile may have been passed by, and then the id
comes before it although it was given back later.
-/
namespace DescriptorExchange.InstanceIds

variable {ids : InstanceIds} {tid : TerminusId} {iid jid other : InstanceId} {own : Holding}
  {answers : List Answer} {answer : Answer}

namespace Holding

/-- There is such an id, and it is not held. -/
def Free (own : Holding) (iid : InstanceId) : Prop := iid.isValid ∧ iid ∉ own.held

/-- How many places behind the start an id stands. -/
def distance (own : Holding) (iid : InstanceId) : Nat :=
  (iid.value.toNat + InstanceId.count - own.start % InstanceId.count) % InstanceId.count

/-- The circle comes to an id before it comes to another. -/
def Ahead (own : Holding) (jid iid : InstanceId) : Prop := own.distance jid < own.distance iid

theorem isValid_place (own : Holding) (k : Nat) : (own.place k).isValid := by
  apply decide_eq_true
  rw [toNat_place]
  exact Nat.mod_lt _ (by decide)

theorem distance_place {k : Nat} (hk : k < InstanceId.count) : own.distance (own.place k) = k := by
  unfold distance
  rw [toNat_place]
  unfold InstanceId.count at *
  omega

theorem place_distance (own : Holding) (hvalid : iid.isValid) : own.place (own.distance iid) = iid := by
  have hlt : iid.value.toNat < InstanceId.count := of_decide_eq_true hvalid
  apply InstanceId.toNat_inj.mp
  rw [toNat_place]
  unfold distance InstanceId.count at *
  omega

theorem distance_inj (hiid : iid.isValid) (hjid : jid.isValid)
    (heq : own.distance iid = own.distance jid) : iid = jid := by
  rw [← own.place_distance hiid, heq, own.place_distance hjid]

theorem FirstFree.free (hfirst : own.FirstFree iid) : own.Free iid := by
  obtain ⟨hfree, k, -, hplace, -⟩ := hfirst
  exact ⟨hplace ▸ own.isValid_place k, hfree⟩

/-- No free id is nearer to the start. -/
theorem FirstFree.distance_le (hfirst : own.FirstFree iid) (hfree : own.Free jid) :
    own.distance iid ≤ own.distance jid := by
  obtain ⟨-, k, hk, rfl, hbefore⟩ := hfirst
  rw [distance_place hk]
  by_contra hnearer
  have hheld := hbefore (own.distance jid) (by omega)
  rw [own.place_distance hfree.1] at hheld
  exact hfree.2 hheld

theorem FirstFree.ahead (hfirst : own.FirstFree other) (hfree : own.Free iid) (hne : other ≠ iid) :
    own.Ahead other iid := by
  have hle := hfirst.distance_le hfree
  have hdistance : own.distance other ≠ own.distance iid := by
    intro heq
    exact hne (distance_inj hfirst.free.1 hfree.1 heq)
  exact lt_of_le_of_ne hle hdistance

/-- A free id is passed over just if the circle comes to another free one before. -/
theorem FirstFree.ne_iff (hfirst : own.FirstFree other) (hfree : own.Free iid) :
    other ≠ iid ↔ ∃ jid, own.Free jid ∧ own.Ahead jid iid := by
  constructor
  · intro hne
    exact ⟨other, hfirst.free, hfirst.ahead hfree hne⟩
  · rintro ⟨jid, hjid, hahead⟩ rfl
    have hle := hfirst.distance_le hjid
    unfold Ahead at hahead
    omega

/-- The id that was handed out last is at the end of the circle. -/
theorem ahead_of_last (hlast : own.last = some iid) (hiid : iid.isValid) (hjid : jid.isValid)
    (hne : jid ≠ iid) : own.Ahead jid iid := by
  have hi : iid.value.toNat < InstanceId.count := of_decide_eq_true hiid
  have hj : jid.value.toNat < InstanceId.count := of_decide_eq_true hjid
  have hvalue : jid.value.toNat ≠ iid.value.toNat := mt InstanceId.toNat_inj.mp hne
  have hstart : own.start = iid.value.toNat + 1 := by simp only [start, hlast]
  unfold Ahead distance
  rw [hstart]
  unfold InstanceId.count at *
  omega

/-- Handing out an id turns the circle. What comes after that id keeps its order. -/
theorem Ahead.handOut (hahead : own.Ahead jid iid) (hbefore : own.Ahead other jid) :
    Ahead ⟨insert other own.held, some other⟩ jid iid := by
  unfold Ahead distance start InstanceId.count at *
  dsimp only at *
  omega

end Holding

/-- An id was free when another one was handed out for the terminus, and it has not been handed out since. -/
def FreeSince (answers : List Answer) (tid : TerminusId) (iid jid : InstanceId) : Prop :=
  ∃ before since, answers = before ++ .allocated tid (.ok iid) :: since ∧
    jid ∉ (Holding.after before tid).held ∧ .allocated tid (.ok jid) ∉ since

theorem FreeSince.of_concat (h : FreeSince (answers ++ [answer]) tid iid jid) :
    (answer = .allocated tid (.ok iid) ∧ jid ∉ (Holding.after answers tid).held) ∨
      (FreeSince answers tid iid jid ∧ answer ≠ .allocated tid (.ok jid)) := by
  obtain ⟨before, since, hsplit, hfree, hsince⟩ := h
  rcases Splits.concat_eq_iff.mp hsplit with ⟨rfl, hanswer, -⟩ | ⟨rest, hrest, rfl⟩
  · exact .inl ⟨hanswer, hfree⟩
  · rw [List.mem_append, List.mem_singleton, not_or] at hsince
    exact .inr ⟨⟨before, rest, hrest, hfree, hsince.1⟩, Ne.symm hsince.2⟩

theorem actAll_concat (ids : InstanceIds) (actions : List Action) (action : Action) :
    ids.actAll (actions ++ [action]) =
      (((ids.actAll actions).1.act action).1,
        (ids.actAll actions).2 ++ [((ids.actAll actions).1.act action).2]) := by
  induction actions generalizing ids with
  | nil => rfl
  | cons first rest ih => simp only [List.cons_append, actAll, ih]

theorem Holding.after_concat (answers : List Answer) (answer : Answer) (tid : TerminusId) :
    after (answers ++ [answer]) tid = (after answers tid).note tid answer := by
  simp only [after, List.foldl_append, List.foldl_cons, List.foldl_nil]

/-- After any actions the pool of a terminus is in step with the answers. -/
theorem inStep_after (actions : List Action) (tid : TerminusId) :
    InStep ((empty.actAll actions).1.pool tid) (Holding.after (empty.actAll actions).2 tid) := by
  have hempty : InStep (InstanceIds.empty.pool tid) .fresh := by
    rw [pool_empty]
    exact .empty
  exact hempty.actAll actions

section answers

variable {action : Action}

/-- What is handed out was the first free id. -/
theorem InStep.firstFree_of_allocated (hs : InStep (ids.pool tid) own)
    (h : (ids.act action).2 = .allocated tid (.ok iid)) : own.FirstFree iid := by
  cases action with
  | allocate asked =>
    simp only [InstanceIds.act, InstanceIds.allocate] at h
    cases hallocate : (ids.pool asked).allocate with
    | none => simp [hallocate] at h
    | some taken =>
      simp only [hallocate, Answer.allocated.injEq, Except.ok.injEq] at h
      obtain ⟨rfl, rfl⟩ := h
      exact hs.firstFree hallocate
  | release asked jid =>
    simp only [InstanceIds.act] at h
    split at h <;> cases h

/-- What could be given back was held. -/
theorem InStep.held_of_released (hs : InStep (ids.pool tid) own)
    (h : (ids.act action).2 = .released tid iid (.ok ())) : iid ∈ own.held := by
  cases action with
  | allocate asked =>
    simp only [InstanceIds.act] at h
    split at h <;> cases h
  | release asked jid =>
    simp only [InstanceIds.act, InstanceIds.release] at h
    by_cases hheld : (ids.pool asked).Holds jid
    · obtain ⟨q, hrelease, -⟩ := InstancePool.release_of_holds hheld
      simp only [hrelease, Answer.released.injEq, and_true] at h
      obtain ⟨rfl, rfl⟩ := h
      exact hs.mem.mpr hheld
    · simp [InstancePool.release_of_not_holds hheld] at h

/-- As long as an id is free, one is handed out. -/
theorem InStep.allocate_of_free (hs : InStep (ids.pool tid) own) (hfree : own.Free iid) :
    ∃ later next, ids.allocate tid = .ok (later, next) ∧ own.FirstFree next := by
  cases hallocate : (ids.pool tid).allocate with
  | none => exact absurd (hs.allocate_eq_none_iff.mp hallocate iid hfree.1) hfree.2
  | some taken =>
    refine ⟨ids.setPool tid taken.1, taken.2, ?_, hs.firstFree hallocate⟩
    simp only [InstanceIds.allocate, hallocate]

/-- An id that is free and is not handed out stays free, and what it is ahead of stays behind it. -/
theorem InStep.ahead_note (hs : InStep (ids.pool tid) own) (hjid : own.Free jid)
    (hahead : own.Ahead jid iid) (hne : (ids.act action).2 ≠ .allocated tid (.ok jid)) :
    jid ∉ (own.note tid (ids.act action).2).held ∧
      (own.note tid (ids.act action).2).Ahead jid iid := by
  by_cases hother : (ids.act action).2.tid = tid
  swap
  · rw [Holding.note_of_ne hother]
    exact ⟨hjid.2, hahead⟩
  cases hanswer : (ids.act action).2 with
  | allocated asked result =>
    obtain rfl : asked = tid := by simpa [hanswer, Answer.tid] using hother
    cases result with
    | error cause => exact ⟨hjid.2, hahead⟩
    | ok other =>
      have hfirst := hs.firstFree_of_allocated hanswer
      have hnew : other ≠ jid := by
        intro heq
        exact hne (heq ▸ hanswer)
      have hbefore : own.Ahead other jid := hfirst.ahead hjid hnew
      rw [Holding.note, if_pos rfl]
      constructor
      · rw [Finset.mem_insert, not_or]
        exact ⟨hnew.symm, hjid.2⟩
      · exact hahead.handOut hbefore
  | released asked other result =>
    obtain rfl : asked = tid := by simpa [hanswer, Answer.tid] using hother
    cases result with
    | error cause => exact ⟨hjid.2, hahead⟩
    | ok done =>
      rw [Holding.note, if_pos rfl]
      constructor
      · exact fun hheld => hjid.2 (Finset.mem_of_mem_erase hheld)
      · exact hahead

end answers

/-- An id that was given back last is free. -/
theorem free_of_released {actions : List Action}
    (h : ((empty.actAll actions).2.filter (·.tid = tid)).getLast? =
      some (.released tid iid (.ok ()))) :
    (Holding.after (empty.actAll actions).2 tid).Free iid := by
  induction actions using List.reverseRecOn with
  | nil => simp [actAll] at h
  | append_singleton actions action ih =>
    rw [actAll_concat] at h ⊢
    rw [Holding.after_concat]
    rw [List.filter_append] at h
    by_cases hsame : ((empty.actAll actions).1.act action).2.tid = tid
    · have hs := inStep_after actions tid
      have hanswer : ((empty.actAll actions).1.act action).2 = .released tid iid (.ok ()) := by
        simpa [hsame] using h
      have hvalid := (hs.mem.mp (hs.held_of_released hanswer)).isValid
      rw [hanswer, Holding.note, if_pos rfl]
      exact ⟨hvalid, Finset.notMem_erase iid _⟩
    · rw [Holding.note_of_ne hsame]
      apply ih
      simpa [hsame] using h

/-- An id that has been free since another one was handed out is free still, and the circle comes to it
before it comes to the other. -/
theorem ahead_of_freeSince {actions : List Action} (hjid : jid.isValid) (hne : jid ≠ iid)
    (h : FreeSince (empty.actAll actions).2 tid iid jid) :
    jid ∉ (Holding.after (empty.actAll actions).2 tid).held ∧
      (Holding.after (empty.actAll actions).2 tid).Ahead jid iid := by
  induction actions using List.reverseRecOn with
  | nil =>
    obtain ⟨before, since, hsplit, -⟩ := h
    simp [actAll] at hsplit
  | append_singleton actions action ih =>
    have hs := inStep_after actions tid
    rw [actAll_concat] at h ⊢
    rw [Holding.after_concat]
    -- The last answer hands the id out, so that it goes to the end of the circle, or the order stood before.
    rcases h.of_concat with ⟨hanswer, hfree⟩ | ⟨hsince, hanswer⟩
    · have hiid := (hs.firstFree_of_allocated hanswer).free.1
      rw [hanswer, Holding.note, if_pos rfl]
      constructor
      · rw [Finset.mem_insert, not_or]
        exact ⟨hne, hfree⟩
      · exact Holding.ahead_of_last rfl hiid hjid hne
    · obtain ⟨hfree, hahead⟩ := ih hsince
      exact hs.ahead_note ⟨hjid, hfree⟩ hahead hanswer

/-- After any actions, when an id has just been given back for a terminus: the next id handed out for it is
that one unless the circle comes to another free id before. It never is if it was the one handed out last and
another one is free, nor if another one has been free ever since it was handed out. -/
theorem released_id_next_iff {actions : List Action} {tid : TerminusId} {iid : InstanceId}
    (hreleased : ((empty.actAll actions).2.filter (·.tid = tid)).getLast? =
      some (.released tid iid (.ok ()))) :
    let ids := (empty.actAll actions).1
    let own := Holding.after (empty.actAll actions).2 tid
    ∃ later next, ids.allocate tid = .ok (later, next) ∧
      (next ≠ iid ↔ ∃ jid, own.Free jid ∧ own.Ahead jid iid) ∧
      (own.last = some iid → (∃ jid, own.Free jid ∧ jid ≠ iid) → next ≠ iid) ∧
      ((∃ jid : InstanceId, jid.isValid ∧ jid ≠ iid ∧
        FreeSince (empty.actAll actions).2 tid iid jid) → next ≠ iid) := by
  intro ids own
  have hs : InStep (ids.pool tid) own := inStep_after actions tid
  have hfree : own.Free iid := free_of_released hreleased
  obtain ⟨later, next, hallocate, hfirst⟩ := hs.allocate_of_free hfree
  have hnext := hfirst.ne_iff hfree
  refine ⟨later, next, hallocate, hnext, ?_, ?_⟩
  · rintro hlast ⟨jid, hjid, hne⟩
    exact hnext.mpr ⟨jid, hjid, Holding.ahead_of_last hlast hfree.1 hjid.1 hne⟩
  · rintro ⟨jid, hjid, hne, hsince⟩
    obtain ⟨hstill, hahead⟩ := ahead_of_freeSince hjid hne hsince
    exact hnext.mpr ⟨jid, ⟨hjid, hstill⟩, hahead⟩

/-- All ids are handed out, 5 and 3 are given back, and 3 is handed out again and given back. Since 5 has been
free meanwhile, 3 is not handed out next. -/
theorem released_id_next_iff_again :
    let actions : List Action := List.replicate 32 (.allocate ⟨1⟩) ++
      [.release ⟨1⟩ ⟨5⟩, .release ⟨1⟩ ⟨3⟩, .allocate ⟨1⟩, .release ⟨1⟩ ⟨3⟩]
    let answers := (empty.actAll actions).2
    (answers.filter (·.tid = ⟨1⟩)).getLast? = some (.released ⟨1⟩ ⟨3⟩ (.ok ())) ∧
      FreeSince answers ⟨1⟩ ⟨3⟩ ⟨5⟩ ∧
      ∃ later next, (empty.actAll actions).1.allocate ⟨1⟩ = .ok (later, next) ∧ next ≠ ⟨3⟩ := by
  intro actions answers
  have hreleased : (answers.filter (·.tid = ⟨1⟩)).getLast? =
      some (.released ⟨1⟩ ⟨3⟩ (.ok ())) := by rfl
  have hsince : FreeSince answers ⟨1⟩ ⟨3⟩ ⟨5⟩ := by
    refine ⟨(empty.actAll (actions.take 34)).2, [.released ⟨1⟩ ⟨3⟩ (.ok ())], by rfl, ?_, by simp⟩
    decide +kernel
  obtain ⟨later, next, hallocate, -, -, hnext⟩ := released_id_next_iff hreleased
  exact ⟨hreleased, hsince, later, next, hallocate, hnext ⟨⟨5⟩, by decide, by decide, hsince⟩⟩

/-- All ids are handed out, 5 is given back and then 3. The circle begins anew, so 3 is handed out next, though
5 is free and was given back before it. -/
theorem released_last_handed_out_first :
    let actions : List Action :=
      List.replicate 32 (.allocate ⟨1⟩) ++ [.release ⟨1⟩ ⟨5⟩, .release ⟨1⟩ ⟨3⟩]
    let answers := (empty.actAll actions).2
    (answers.filter (·.tid = ⟨1⟩)).getLast? = some (.released ⟨1⟩ ⟨3⟩ (.ok ())) ∧
      (Holding.after answers ⟨1⟩).Free ⟨5⟩ ∧
      ∃ later, (empty.actAll actions).1.allocate ⟨1⟩ = .ok (later, ⟨3⟩) := by
  intro actions answers
  refine ⟨by rfl, ⟨by decide, by decide +kernel⟩, ?_⟩
  have hnext : ((empty.actAll actions).1.allocate ⟨1⟩).toOption.map Prod.snd = some ⟨3⟩ := by
    decide +kernel
  cases hallocate : (empty.actAll actions).1.allocate ⟨1⟩ with
  | error cause => simp [hallocate, Except.toOption] at hnext
  | ok taken =>
    obtain ⟨later, next⟩ := taken
    obtain rfl : next = ⟨3⟩ := by simpa [hallocate, Except.toOption] using hnext
    exact ⟨later, rfl⟩

end DescriptorExchange.InstanceIds
