import DescriptorExchange.Proofs.Requester.Allocation
import DescriptorExchange.Proofs.Requester.Outstanding
import Mathlib.Data.List.Induction

/-!
Any number of calls of one requester over a transport of which nothing is known: an attempt ends in a
response, in a failure, or because its time is over, whatever the attempts before it ended in. The steps of
the calls come in any order. What a call has done is one of a few courses: attempts that ran out of time,
all with the same message, and then one that ends it. The instance ids in use are those of the calls that
have not returned.
-/
namespace DescriptorExchange

namespace Requester

variable {r : Requester} {id : CallId} {call : Call} {q : Query}

/-- The calls for a terminus that have not ended. -/
def outstanding (r : Requester) (tid : TerminusId) : List (CallId × Call) :=
  r.calls.toList.filter (·.2.query.tid = tid)

/-- The ids in use are those of the outstanding calls. -/
structure Exact (r : Requester) : Prop extends r.Sound where
  kept : ∀ {tid : TerminusId} {iid : InstanceId}, r.ids.Held tid iid →
    ∃ (id : CallId) (call : Call), r.calls[id]? = some call ∧ call.query.tid = tid ∧ call.iid = iid

namespace Exact

theorem start (policy : RetryPolicy) : (start policy).Exact where
  toSound := .start policy
  kept h := by
    rw [InstanceIds.Held, Requester.start, InstanceIds.pool_empty] at h
    simp [InstancePool.empty, InstancePool.Holds] at h

theorem begin {ids : InstanceIds} {iid : InstanceId} (hr : r.Exact)
    (hallocate : r.ids.allocate q.tid = .ok (ids, iid)) :
    ({ r with ids, calls := r.calls.insert r.nextCall ⟨q, iid, 1⟩, nextCall := r.nextCall + 1 } :
      Requester).Exact where
  toSound := hr.toSound.begin hallocate
  kept := by
    intro tid jid h
    obtain ⟨-, -, hheld⟩ := InstanceIds.allocate_eq_ok hallocate
    rcases (hheld _ _).mp h with hold | ⟨rfl, rfl⟩
    · obtain ⟨id, call, hcall, hsame⟩ := hr.kept hold
      have hne : id ≠ r.nextCall := Nat.ne_of_lt (hr.numbered hcall)
      exact ⟨id, call, (Entries.getElem?_insert_of_ne hne).trans hcall, hsame⟩
    · exact ⟨r.nextCall, ⟨q, jid, 1⟩, Std.ExtTreeMap.getElem?_insert_self, rfl, rfl⟩

theorem close (hr : r.Exact) (hcall : r.calls[id]? = some call) : (r.close id call).Exact := by
  obtain ⟨later, hrelease, hheld⟩ := InstanceIds.release_of_held (hr.held hcall)
  have hids : (r.close id call).ids = later := by
    show (r.ids.release call.query.tid call.iid).toOption.getD r.ids = later
    rw [hrelease]
    rfl
  refine ⟨hr.toSound.close hcall, fun {tid iid} h => ?_⟩
  rw [hids, hheld] at h
  obtain ⟨hold, hother⟩ := h
  obtain ⟨other, rival, hrival, rfl, rfl⟩ := hr.kept hold
  have hne : other ≠ id := by
    rintro rfl
    obtain rfl := Option.some.inj (hrival.symm.trans hcall)
    simp at hother
  exact ⟨other, rival, (Entries.getElem?_erase_of_ne hne).trans hrival, rfl, rfl⟩

theorem retry (hr : r.Exact) (hcall : r.calls[id]? = some call) :
    ({ r with calls := r.calls.insert id { call with attempt := call.attempt + 1 } } :
      Requester).Exact where
  toSound := hr.toSound.retry hcall
  kept h := by
    obtain ⟨other, rival, hrival, htid, hiid⟩ := hr.kept h
    by_cases hsame : other = id
    · subst hsame
      obtain rfl := Option.some.inj (hrival.symm.trans hcall)
      exact ⟨other, _, Std.ExtTreeMap.getElem?_insert_self, htid, hiid⟩
    · exact ⟨other, rival, (Entries.getElem?_insert_of_ne hsame).trans hrival, htid, hiid⟩

theorem mem_outstanding {tid : TerminusId} {entry : CallId × Call} :
    entry ∈ r.outstanding tid ↔ r.calls[entry.1]? = some entry.2 ∧ entry.2.query.tid = tid := by
  rw [outstanding, List.mem_filter, Std.ExtTreeMap.mem_toList_iff_getElem?_eq_some, decide_eq_true_iff]

theorem nodup_outstanding (r : Requester) (tid : TerminusId) : (r.outstanding tid).Nodup := by
  apply List.Nodup.filter
  apply List.Pairwise.imp _ r.calls.distinct_keys_toList
  rintro a b hne rfl
  exact hne Std.ReflCmp.compare_self

/-- As many ids of a terminus are in use as calls for it are outstanding. -/
theorem inUse_eq (hr : r.Exact) (tid : TerminusId) : r.ids.inUse tid = (r.outstanding tid).length := by
  have hdistinct : ((r.outstanding tid).map (·.2.iid)).Nodup := by
    apply (nodup_outstanding r tid).map_on
    rintro ⟨id, call⟩ hid ⟨other, rival⟩ hother hsame
    obtain ⟨hcall, htid⟩ := mem_outstanding.mp hid
    obtain ⟨hrival, htid'⟩ := mem_outstanding.mp hother
    by_cases heq : id = other
    · subst heq
      exact congrArg (Prod.mk id) (Option.some.inj (hcall.symm.trans hrival))
    · exact absurd hsame (hr.apart hcall hrival heq (htid.trans htid'.symm))
  have hmem {iid : InstanceId} : iid ∈ ((r.outstanding tid).map (·.2.iid)).toFinset ↔
      (r.ids.pool tid).Holds iid := by
    rw [List.mem_toFinset, List.mem_map]
    constructor
    · rintro ⟨⟨other, call⟩, hother, rfl⟩
      obtain ⟨hcall, rfl⟩ := mem_outstanding.mp hother
      exact hr.held hcall
    · intro hheld
      obtain ⟨other, call, hcall, htid, hiid⟩ := hr.kept hheld
      exact ⟨(other, call), mem_outstanding.mpr ⟨hcall, htid⟩, hiid⟩
  rw [InstanceIds.inUse, InstancePool.count_eq_card hmem, List.toFinset_card_of_nodup hdistinct,
    List.length_map]

/-- A call gets no instance id just if as many are outstanding as there are ids. -/
theorem allocate_cases (hr : r.Exact) (tid : TerminusId) :
    ((r.outstanding tid).length = InstanceId.count ∧ r.ids.allocate tid = .error (.exhausted tid)) ∨
    ((r.outstanding tid).length ≠ InstanceId.count ∧ ∃ taken, r.ids.allocate tid = .ok taken) := by
  have hnone : (r.ids.pool tid).allocate = none ↔ (r.outstanding tid).length = InstanceId.count := by
    rw [InstancePool.allocate_eq_none_iff_count, ← hr.inUse_eq tid]
    rfl
  unfold InstanceIds.allocate
  cases hallocate : (r.ids.pool tid).allocate with
  | none => exact .inl ⟨hnone.mp hallocate, rfl⟩
  | some taken =>
    refine .inr ⟨fun hfull => ?_, _, rfl⟩
    cases hallocate.symm.trans (hnone.mpr hfull)

end Exact
end Requester

/-- What calls do, in the order in which they do it. -/
inductive CallRecord where
  /-- A call returns without an instance id, and without having sent anything. -/
  | refused (q : Query) (cause : RequestError)
  | begun (id : CallId) (q : Query)
  /-- A call gives its message to the transport. -/
  | sent (id : CallId) (frame : Frame)
  /-- The attempt made with it has ended. -/
  | ended (id : CallId) (result : AttemptResult)
  | returned (id : CallId) (answer : Except RequestError Bytes)
  deriving DecidableEq, Repr

def CallRecord.call? : CallRecord → Option CallId
  | .refused _ _ => none
  | .begun id _ => some id
  | .sent id _ => some id
  | .ended id _ => some id
  | .returned id _ => some id

/-- Where an outstanding call of a dispatch stands. -/
inductive AttemptStage where
  /-- Its next attempt is to be made, with this message. -/
  | due (frame : Frame)
  | underway

structure Dispatch where
  requester : Requester
  stages : Std.ExtTreeMap CallId AttemptStage
  log : List CallRecord

/-- What may happen next. -/
inductive DispatchEvent where
  | submit (q : Query)
  | attempt (id : CallId)
  /-- The attempt of a call has ended, and the call takes notice. -/
  | conclude (id : CallId) (result : AttemptResult)

namespace Dispatch

variable {d e : Dispatch} {policy : RetryPolicy} {event : DispatchEvent} {id other : CallId} {call : Call}
  {q : Query} {iid : InstanceId} {stage : AttemptStage} {frame : Frame} {result : AttemptResult}

def start (policy : RetryPolicy) : Dispatch := { requester := .start policy, stages := ∅, log := [] }

/-- What an event does. One that does not fit the stage of its call does nothing. -/
def after (d : Dispatch) : DispatchEvent → Dispatch
  | .submit q =>
    match d.requester.submit q with
    | .ok (requester, id, frame) =>
      { requester, stages := d.stages.insert id (.due frame), log := d.log ++ [.begun id q] }
    | .error cause => { d with log := d.log ++ [.refused q cause] }
  | .attempt id =>
    match d.stages[id]? with
    | some (.due frame) =>
      { d with stages := d.stages.insert id .underway, log := d.log ++ [.sent id frame] }
    | _ => d
  | .conclude id result =>
    match d.stages[id]? with
    | some .underway =>
      match d.requester.resolve id result with
      | (requester, .again frame) =>
        { requester, stages := d.stages.insert id (.due frame), log := d.log ++ [.ended id result] }
      | (requester, .finished answer) =>
        { requester, stages := d.stages.erase id
          log := d.log ++ [.ended id result, .returned id answer] }
      | (_, .unknown) => d
    | _ => d

def afterAll (d : Dispatch) (events : List DispatchEvent) : Dispatch := events.foldl after d

/-- What an event changes: nothing, a call is refused or begins, it makes an attempt, or the end of its
attempt has it make another one or return. -/
inductive Changes (d : Dispatch) : DispatchEvent → Dispatch → Prop
  | none {event : DispatchEvent} : Changes d event d
  | refused {q : Query} {cause : RequestError} :
      Changes d (.submit q) { d with log := d.log ++ [.refused q cause] }
  | begun {q : Query} {ids : InstanceIds} {iid : InstanceId}
      (hallocate : d.requester.ids.allocate q.tid = .ok (ids, iid)) :
      Changes d (.submit q)
        { requester := { d.requester with
            ids, calls := d.requester.calls.insert d.requester.nextCall ⟨q, iid, 1⟩
            nextCall := d.requester.nextCall + 1 }
          stages := d.stages.insert d.requester.nextCall (.due (q.frame iid))
          log := d.log ++ [.begun d.requester.nextCall q] }
  | sends {id : CallId} {frame : Frame} (hdue : d.stages[id]? = some (.due frame)) :
      Changes d (.attempt id)
        { d with stages := d.stages.insert id .underway, log := d.log ++ [.sent id frame] }
  | again {id : CallId} {call : Call} {result : AttemptResult}
      (hcall : d.requester.calls[id]? = some call) (hunderway : d.stages[id]? = some .underway)
      (hmore : call.conclude d.requester.policy result = .none) :
      Changes d (.conclude id result)
        { requester := { d.requester with
            calls := d.requester.calls.insert id { call with attempt := call.attempt + 1 } }
          stages := d.stages.insert id (.due call.frame)
          log := d.log ++ [.ended id result] }
  | returns {id : CallId} {call : Call} {result : AttemptResult} {answer : Except RequestError Bytes}
      (hcall : d.requester.calls[id]? = some call) (hunderway : d.stages[id]? = some .underway)
      (hanswer : call.conclude d.requester.policy result = some answer) :
      Changes d (.conclude id result)
        { requester := d.requester.close id call
          stages := d.stages.erase id
          log := d.log ++ [.ended id result, .returned id answer] }

/-- Every event changes a dispatch in one of these ways. -/
theorem after_changes (d : Dispatch) (event : DispatchEvent) : d.Changes event (d.after event) := by
  cases event with
  | submit q =>
    simp only [after]
    split
    next requester id frame hsubmit =>
      obtain ⟨ids, iid, hallocate, rfl, rfl, rfl⟩ := Requester.submit_eq_ok hsubmit
      exact .begun hallocate
    next => exact .refused
  | attempt id =>
    simp only [after]
    split
    next frame hdue => exact .sends hdue
    next => exact .none
  | conclude id result =>
    simp only [after]
    split
    next hunderway =>
      cases hcall : d.requester.calls[id]? with
      | none =>
        rw [Requester.resolve, hcall]
        exact .none
      | some call =>
        rcases Requester.resolve_of_call hcall with ⟨answer, hanswer, heq⟩ | ⟨hmore, heq⟩
        · rw [heq]
          exact .returns hcall hunderway hanswer
        · rw [heq]
          exact .again hcall hunderway hmore
    next => exact .none

/-- What one call has done. -/
def recordsOf (d : Dispatch) (id : CallId) : List CallRecord := d.log.filter (·.call? = some id)

/-- Attempts of a call with one message that all ran out of time. -/
def timeouts (id : CallId) (frame : Frame) (k : Nat) : List CallRecord :=
  (List.replicate k [.sent id frame, .ended id .timedOut]).flatten

theorem timeouts_succ (id : CallId) (frame : Frame) (k : Nat) :
    timeouts id frame (k + 1) = timeouts id frame k ++ [.sent id frame, .ended id .timedOut] := by
  simp [timeouts, List.replicate_succ']

theorem not_mem_timeouts_returned {k : Nat} {answer : Except RequestError Bytes} :
    .returned other answer ∉ timeouts id frame k := by
  simp [timeouts]

/-- What a call returns after the attempt that ends it. -/
inductive Verdict (policy : RetryPolicy) (q : Query) : AttemptResult → Except RequestError Bytes → Prop
  | payload {response : Message} (hcommand : response.header.command = q.command)
      (htype : response.header.type = q.type) :
      Verdict policy q (.answered response) (.ok response.payload)
  | mismatch {response : Message}
      (hother : ¬ (response.header.command = q.command ∧ response.header.type = q.type)) :
      Verdict policy q (.answered response) (.error (.mismatch q.command response.header.command))
  | failure {cause : TransportError} : Verdict policy q (.failed cause) (.error (.transport cause))
  | timeout : Verdict policy q .timedOut (.error (.timeout q.eid (UInt8.ofNat policy.attempts)))

/-- What a call has done, by where it stands. Every attempt is made with its one message, and all before
the current one ran out of time; there are no more of them than the policy allows. A call that has returned
did so after the first attempt that did not run out of time, or after the last one it may make. -/
inductive Course (policy : RetryPolicy) (id : CallId) (call : Call) :
    Option AttemptStage → List CallRecord → Prop
  | due {k : Nat} (hattempt : call.attempt = k + 1) (hk : k < policy.attempts) :
      Course policy id call (some (.due call.frame))
        (.begun id call.query :: timeouts id call.frame k)
  | underway {k : Nat} (hattempt : call.attempt = k + 1) (hk : k < policy.attempts) :
      Course policy id call (some .underway)
        (.begun id call.query :: timeouts id call.frame k ++ [.sent id call.frame])
  | returned {k : Nat} {result : AttemptResult} {answer : Except RequestError Bytes}
      (hattempt : call.attempt = k + 1) (hk : k < policy.attempts)
      (hlast : result = .timedOut → k + 1 = policy.attempts)
      (hanswer : Verdict policy call.query result answer) :
      Course policy id call none (.begun id call.query :: timeouts id call.frame k ++
        [.sent id call.frame, .ended id result, .returned id answer])

theorem Course.begun_mem {stage : Option AttemptStage} {records : List CallRecord}
    (h : Course policy id call stage records) : .begun id call.query ∈ records := by
  cases h <;> exact List.mem_cons_self

/-- An outstanding call has not returned. -/
theorem Course.not_returned {records : List CallRecord} (h : Course policy id call (some stage) records)
    (answer : Except RequestError Bytes) : .returned id answer ∉ records := by
  cases h with
  | due => simp [not_mem_timeouts_returned]
  | underway => simp [not_mem_timeouts_returned]

theorem attempts_pos (policy : RetryPolicy) : 0 < policy.attempts := by
  unfold RetryPolicy.attempts
  omega

/-- Another attempt follows only one that ran out of time, as long as there are any left. -/
theorem timedOut_of_conclude (h : call.conclude policy result = none) :
    result = .timedOut ∧ call.attempt < policy.attempts := by
  cases result with
  | answered response => simp [Call.conclude] at h
  | failed cause => simp [Call.conclude] at h
  | timedOut =>
    simp only [Call.conclude] at h
    split_ifs at h with hleft
    exact ⟨rfl, hleft⟩

/-- A call that ran out of time returns after its last attempt only. -/
theorem verdict_of_conclude {answer : Except RequestError Bytes}
    (h : call.conclude policy result = some answer) :
    Verdict policy call.query result answer ∧
      (result = .timedOut → policy.attempts ≤ call.attempt) := by
  cases result with
  | answered response =>
    obtain rfl := Option.some.inj h
    refine ⟨?_, fun hlate => by cases hlate⟩
    unfold Call.accept
    split_ifs with hsame
    · exact .payload hsame.1 hsame.2
    · exact .mismatch hsame
  | failed cause =>
    obtain rfl := Option.some.inj h
    exact ⟨.failure, fun hlate => by cases hlate⟩
  | timedOut =>
    simp only [Call.conclude] at h
    split_ifs at h with hleft
    obtain rfl := Option.some.inj h
    exact ⟨.timeout, fun _ => Nat.le_of_not_lt hleft⟩

/-- A call that has begun has done what its stage says, and it is outstanding just if it has one. -/
def Accounted (policy : RetryPolicy) (d : Dispatch) (id : CallId) : Prop :=
  ∃ call, Course policy id call d.stages[id]? (d.recordsOf id) ∧
    d.requester.calls[id]? = d.stages[id]?.map fun _ => call

structure Sound (policy : RetryPolicy) (d : Dispatch) : Prop where
  policy_eq : d.requester.policy = policy
  exact : d.requester.Exact
  accounted : ∀ {id : CallId}, id < d.requester.nextCall → Accounted policy d id
  fresh : ∀ {id : CallId}, d.requester.nextCall ≤ id → d.stages[id]? = none ∧ d.recordsOf id = []

theorem Sound.start (policy : RetryPolicy) : Sound policy (start policy) where
  policy_eq := rfl
  exact := .start policy
  accounted h := absurd h (Nat.not_lt_zero _)
  fresh _ := ⟨by simp [Dispatch.start], rfl⟩

theorem Sound.lt_of_staged (h : Sound policy d) (hstage : d.stages[id]? = some stage) :
    id < d.requester.nextCall := by
  by_contra hfresh
  cases (h.fresh (Nat.le_of_not_lt hfresh)).1.symm.trans hstage

/-- The call that has a stage, and what it has done. -/
theorem Sound.staged (h : Sound policy d) (hstage : d.stages[id]? = some stage) :
    ∃ call, d.requester.calls[id]? = some call ∧
      Course policy id call (some stage) (d.recordsOf id) := by
  obtain ⟨call, hcourse, hcall⟩ := h.accounted (h.lt_of_staged hstage)
  rw [hstage] at hcourse hcall
  exact ⟨call, hcall, hcourse⟩

/-- Records of one call are not records of another. -/
theorem recordsOf_append {records : List CallRecord} (hlog : e.log = d.log ++ records)
    (hown : ∀ record ∈ records, record.call? = some id) (other : CallId) :
    e.recordsOf other = if other = id then d.recordsOf other ++ records else d.recordsOf other := by
  rw [recordsOf, hlog, List.filter_append, recordsOf]
  split_ifs with hother
  · have hall : records.filter (·.call? = some other) = records := by
      apply List.filter_eq_self.mpr
      intro record hrecord
      rw [hother, hown record hrecord, decide_eq_true_iff]
    rw [hall]
  · have hnone : records.filter (·.call? = some other) = [] := by
      apply List.filter_eq_nil_iff.mpr
      intro record hrecord
      rw [hown record hrecord, decide_eq_true_iff]
      exact fun heq => hother (Option.some.inj heq).symm
    rw [hnone, List.append_nil]

/-- A dispatch stays sound when one call goes on along its course and the others stay as they are. -/
theorem Sound.aside {records : List CallRecord} (h : Sound policy d) (call : Call)
    (hpolicy : e.requester.policy = d.requester.policy) (hexact : e.requester.Exact)
    (hnext : ∀ other, other ≠ id → (other < e.requester.nextCall ↔ other < d.requester.nextCall))
    (hcalls : ∀ other, other ≠ id → e.requester.calls[other]? = d.requester.calls[other]?)
    (hstages : ∀ other, other ≠ id → e.stages[other]? = d.stages[other]?)
    (hlog : e.log = d.log ++ records) (hown : ∀ record ∈ records, record.call? = some id)
    (hid : id < e.requester.nextCall)
    (hcourse : Course policy id call e.stages[id]? (d.recordsOf id ++ records))
    (hcall : e.requester.calls[id]? = e.stages[id]?.map fun _ => call) : Sound policy e where
  policy_eq := hpolicy.trans h.policy_eq
  exact := hexact
  accounted := by
    intro other hlt
    unfold Accounted
    rw [recordsOf_append hlog hown]
    split_ifs with hother
    · exact ⟨call, hother ▸ hcourse, hother ▸ hcall⟩
    · rw [hstages other hother, hcalls other hother]
      exact h.accounted ((hnext other hother).mp hlt)
  fresh := by
    intro other hle
    have hother : other ≠ id := by
      rintro rfl
      exact Nat.not_lt.mpr hle hid
    rw [hstages other hother, recordsOf_append hlog hown, if_neg hother]
    exact h.fresh (Nat.le_of_not_lt (mt (hnext other hother).mpr (Nat.not_lt.mpr hle)))

theorem Sound.refused (h : Sound policy d) (q : Query) (cause : RequestError) :
    Sound policy { d with log := d.log ++ [.refused q cause] } := by
  have hrecords (id : CallId) :
      recordsOf { d with log := d.log ++ [.refused q cause] } id = d.recordsOf id := by
    simp [recordsOf, CallRecord.call?]
  refine ⟨h.policy_eq, h.exact, fun {id} hlt => ?_, fun {id} hle => ?_⟩
  · unfold Accounted
    rw [hrecords]
    exact h.accounted hlt
  · rw [hrecords]
    exact h.fresh hle

theorem Sound.begun {ids : InstanceIds} (h : Sound policy d)
    (hallocate : d.requester.ids.allocate q.tid = .ok (ids, iid)) :
    Sound policy
      { requester := { d.requester with
          ids, calls := d.requester.calls.insert d.requester.nextCall ⟨q, iid, 1⟩
          nextCall := d.requester.nextCall + 1 }
        stages := d.stages.insert d.requester.nextCall (.due (q.frame iid))
        log := d.log ++ [.begun d.requester.nextCall q] } := by
  refine h.aside ⟨q, iid, 1⟩ rfl (h.exact.begin hallocate) (fun other hother => ?_)
    (fun _ => Entries.getElem?_insert_of_ne) (fun _ => Entries.getElem?_insert_of_ne) rfl
    (fun record hrecord => List.mem_singleton.mp hrecord ▸ rfl) (Nat.lt_succ_self _) ?_ ?_
  · show other < d.requester.nextCall + 1 ↔ other < d.requester.nextCall
    exact Nat.lt_succ_iff.trans (Nat.le_iff_lt_or_eq.trans (or_iff_left hother))
  · rw [(h.fresh (Nat.le_refl _)).2, Std.ExtTreeMap.getElem?_insert_self]
    exact .due rfl (attempts_pos policy)
  · rw [Std.ExtTreeMap.getElem?_insert_self, Std.ExtTreeMap.getElem?_insert_self]
    rfl

theorem Sound.sends (h : Sound policy d) (hdue : d.stages[id]? = some (.due frame)) :
    Sound policy
      { d with stages := d.stages.insert id .underway, log := d.log ++ [.sent id frame] } := by
  obtain ⟨call, hcall, hcourse⟩ := h.staged hdue
  refine h.aside call rfl h.exact (fun _ _ => Iff.rfl) (fun _ _ => rfl)
    (fun _ => Entries.getElem?_insert_of_ne) rfl
    (fun record hrecord => List.mem_singleton.mp hrecord ▸ rfl) (h.lt_of_staged hdue) ?_ ?_
  · rw [Std.ExtTreeMap.getElem?_insert_self]
    generalize d.recordsOf id = records at hcourse ⊢
    cases hcourse with
    | due hattempt hk => exact .underway hattempt hk
  · rw [Std.ExtTreeMap.getElem?_insert_self]
    exact hcall

theorem Sound.again (h : Sound policy d) (hcall : d.requester.calls[id]? = some call)
    (hunderway : d.stages[id]? = some .underway)
    (hmore : call.conclude d.requester.policy result = none) :
    Sound policy
      { requester := { d.requester with
          calls := d.requester.calls.insert id { call with attempt := call.attempt + 1 } }
        stages := d.stages.insert id (.due call.frame)
        log := d.log ++ [.ended id result] } := by
  obtain ⟨call', hcall', hcourse⟩ := h.staged hunderway
  obtain rfl := Option.some.inj (hcall'.symm.trans hcall)
  rw [h.policy_eq] at hmore
  obtain ⟨rfl, hleft⟩ := timedOut_of_conclude hmore
  refine h.aside { call' with attempt := call'.attempt + 1 } rfl (h.exact.retry hcall)
    (fun _ _ => Iff.rfl) (fun _ => Entries.getElem?_insert_of_ne)
    (fun _ => Entries.getElem?_insert_of_ne) rfl
    (fun record hrecord => List.mem_singleton.mp hrecord ▸ rfl) (h.lt_of_staged hunderway) ?_ ?_
  · rw [Std.ExtTreeMap.getElem?_insert_self]
    generalize d.recordsOf id = records at hcourse ⊢
    cases hcourse with
    | @underway k hattempt hk =>
      have hrounds : .begun id call'.query :: timeouts id call'.frame k ++
          [.sent id call'.frame] ++ [.ended id .timedOut] =
          .begun id call'.query :: timeouts id call'.frame (k + 1) := by
        simp [timeouts_succ]
      rw [hrounds]
      exact .due (congrArg Nat.succ hattempt) (hattempt ▸ hleft)
  · rw [Std.ExtTreeMap.getElem?_insert_self, Std.ExtTreeMap.getElem?_insert_self]
    rfl

theorem Sound.returns {answer : Except RequestError Bytes} (h : Sound policy d)
    (hcall : d.requester.calls[id]? = some call) (hunderway : d.stages[id]? = some .underway)
    (hanswer : call.conclude d.requester.policy result = some answer) :
    Sound policy
      { requester := d.requester.close id call
        stages := d.stages.erase id
        log := d.log ++ [.ended id result, .returned id answer] } := by
  obtain ⟨call', hcall', hcourse⟩ := h.staged hunderway
  obtain rfl := Option.some.inj (hcall'.symm.trans hcall)
  rw [h.policy_eq] at hanswer
  obtain ⟨hverdict, hlate⟩ := verdict_of_conclude hanswer
  refine h.aside call' rfl (h.exact.close hcall) (fun _ _ => Iff.rfl)
    (fun _ => Entries.getElem?_erase_of_ne) (fun _ => Entries.getElem?_erase_of_ne) rfl ?_
    (h.lt_of_staged hunderway) ?_ ?_
  · simp [CallRecord.call?]
  · rw [Std.ExtTreeMap.getElem?_erase_self]
    generalize d.recordsOf id = records at hcourse ⊢
    cases hcourse with
    | @underway k hattempt hk =>
      rw [List.append_assoc]
      refine .returned hattempt hk (fun hout => ?_) hverdict
      exact Nat.le_antisymm hk (hattempt ▸ hlate hout)
  · rw [Std.ExtTreeMap.getElem?_erase_self]
    exact Std.ExtTreeMap.getElem?_erase_self

theorem Sound.changes (h : Sound policy d) (hchanges : d.Changes event e) : Sound policy e := by
  cases hchanges with
  | none => exact h
  | refused => exact h.refused _ _
  | begun hallocate => exact h.begun hallocate
  | sends hdue => exact h.sends hdue
  | again hcall hunderway hmore => exact h.again hcall hunderway hmore
  | returns hcall hunderway hanswer => exact h.returns hcall hunderway hanswer

/-- A dispatch is sound after any events. -/
theorem sound_afterAll (policy : RetryPolicy) (events : List DispatchEvent) :
    Sound policy ((Dispatch.start policy).afterAll events) := by
  induction events using List.reverseRecOn with
  | nil => exact .start policy
  | append_singleton events event ih =>
    rw [afterAll, List.foldl_append]
    exact ih.changes (after_changes _ event)

theorem mem_recordsOf {record : CallRecord} :
    record ∈ d.recordsOf id ↔ record ∈ d.log ∧ record.call? = some id := by
  rw [recordsOf, List.mem_filter, decide_eq_true_iff]

/-- A call is accounted for, or it has done nothing. -/
theorem Sound.accounted_or (h : Sound policy d) (id : CallId) :
    Accounted policy d id ∨ (d.recordsOf id = [] ∧ d.requester.calls[id]? = none) := by
  by_cases hlt : id < d.requester.nextCall
  · exact .inl (h.accounted hlt)
  · refine .inr ⟨(h.fresh (Nat.le_of_not_lt hlt)).2, ?_⟩
    apply Option.eq_none_iff_forall_ne_some.mpr
    intro call hcall
    exact hlt (h.exact.numbered hcall)

/-- A call is refused just if as many calls for its terminus are outstanding as there are instance ids. -/
theorem Sound.submit (h : Sound policy d) (q : Query) :
    if (d.requester.outstanding q.tid).length = InstanceId.count then
      d.after (.submit q) = { d with log := d.log ++ [.refused q (.instanceId (.exhausted q.tid))] }
    else ∃ id iid, (d.after (.submit q)).log = d.log ++ [.begun id q] ∧
      (d.after (.submit q)).stages[id]? = some (.due (q.frame iid)) ∧ d.recordsOf id = [] := by
  rcases h.exact.allocate_cases q.tid with ⟨hfull, hallocate⟩ | ⟨hroom, ⟨ids, iid⟩, hallocate⟩
  · have hsubmit : d.requester.submit q = .error (.instanceId (.exhausted q.tid)) := by
      rw [Requester.submit, hallocate]
      rfl
    rw [if_pos hfull, after, hsubmit]
  · have hsubmit : d.requester.submit q = .ok ({ d.requester with
        ids, calls := d.requester.calls.insert d.requester.nextCall ⟨q, iid, 1⟩
        nextCall := d.requester.nextCall + 1 }, d.requester.nextCall, q.frame iid) := by
      rw [Requester.submit, hallocate]
      rfl
    rw [if_neg hroom, after, hsubmit]
    exact ⟨_, iid, rfl, Std.ExtTreeMap.getElem?_insert_self, (h.fresh (Nat.le_refl _)).2⟩

/-- An attempt that ends is recorded, and the call of it returns or is to make another one. -/
theorem Sound.conclude (h : Sound policy d) (hunderway : d.stages[id]? = some .underway)
    (result : AttemptResult) :
    let next := d.after (.conclude id result)
    (∃ answer, next.log = d.log ++ [.ended id result, .returned id answer] ∧ next.stages[id]? = none) ∨
    ∃ frame, next.log = d.log ++ [.ended id result] ∧ next.stages[id]? = some (.due frame) := by
  obtain ⟨call, hcall, -⟩ := h.staged hunderway
  simp only [after, hunderway]
  rcases @Requester.resolve_of_call _ _ _ result hcall with ⟨answer, -, heq⟩ | ⟨-, heq⟩
  · rw [heq]
    exact .inl ⟨answer, rfl, Std.ExtTreeMap.getElem?_erase_self⟩
  · rw [heq]
    exact .inr ⟨call.frame, rfl, Std.ExtTreeMap.getElem?_insert_self⟩

/-- When every call has returned no instance id is in use. -/
theorem Sound.inUse_of_returned (h : Sound policy d)
    (hreturned : ∀ id q, .begun id q ∈ d.log → ∃ answer, .returned id answer ∈ d.log)
    (tid : TerminusId) : d.requester.ids.inUse tid = 0 := by
  rw [h.exact.inUse_eq, List.length_eq_zero_iff]
  apply List.eq_nil_iff_forall_not_mem.mpr
  rintro ⟨id, held⟩ hentry
  obtain ⟨hheld, -⟩ := Requester.Exact.mem_outstanding.mp hentry
  obtain ⟨call, hcourse, hcall⟩ := h.accounted (h.exact.numbered hheld)
  cases hstage : d.stages[id]? with
  | none =>
    rw [hstage] at hcall
    cases hheld.symm.trans hcall
  | some stage =>
    rw [hstage] at hcourse
    obtain ⟨answer, hanswer⟩ := hreturned id call.query (mem_recordsOf.mp hcourse.begun_mem).1
    exact hcourse.not_returned answer (mem_recordsOf.mpr ⟨hanswer, rfl⟩)

/-- Whatever calls are made of a requester, in whatever order they go on and however their attempts end:
those outstanding for one terminus have different instance ids; one made while all ids are out is refused;
every other one follows its course, in which each event does what its stage calls for; and when all have
returned no instance id is in use. -/
theorem requester_discipline (policy : RetryPolicy) (events : List DispatchEvent) :
    let d := (Dispatch.start policy).afterAll events
    (∀ (id other : CallId) (call rival : Call), d.requester.calls[id]? = some call →
      d.requester.calls[other]? = some rival → id ≠ other → call.query.tid = rival.query.tid →
        call.iid ≠ rival.iid) ∧
    (∀ q, if (d.requester.outstanding q.tid).length = InstanceId.count then
        d.after (.submit q) = { d with log := d.log ++ [.refused q (.instanceId (.exhausted q.tid))] }
      else ∃ id iid, (d.after (.submit q)).log = d.log ++ [.begun id q] ∧
        (d.after (.submit q)).stages[id]? = some (.due (q.frame iid)) ∧ d.recordsOf id = []) ∧
    (∀ id, Accounted policy d id ∨ (d.recordsOf id = [] ∧ d.requester.calls[id]? = none)) ∧
    (∀ id frame, d.stages[id]? = some (.due frame) →
      (d.after (.attempt id)).log = d.log ++ [.sent id frame] ∧
      (d.after (.attempt id)).stages[id]? = some .underway) ∧
    (∀ id result, d.stages[id]? = some .underway →
      let next := d.after (.conclude id result)
      (∃ answer, next.log = d.log ++ [.ended id result, .returned id answer] ∧
        next.stages[id]? = none) ∨
      ∃ frame, next.log = d.log ++ [.ended id result] ∧ next.stages[id]? = some (.due frame)) ∧
    ((∀ id q, .begun id q ∈ d.log → ∃ answer, .returned id answer ∈ d.log) →
      ∀ tid, d.requester.ids.inUse tid = 0) := by
  intro d
  have h : Sound policy d := sound_afterAll policy events
  refine ⟨?_, h.submit, h.accounted_or, ?_, ?_, h.inUse_of_returned⟩
  · intro id other call rival
    exact h.exact.apart
  · intro id frame hdue
    rw [after, hdue]
    exact ⟨rfl, Std.ExtTreeMap.getElem?_insert_self⟩
  · intro id result hunderway
    exact h.conclude hunderway result

def severalAttempts : List DispatchEvent :=
  let q : Query := { tid := ⟨5⟩, eid := ⟨9⟩, type := .platform, command := 0x11, payload := [1] }
  [.submit q, .attempt 0, .conclude 0 .timedOut, .attempt 0,
    .conclude 0 (.answered { header := (q.frame ⟨0⟩).message.header.response, payload := [0, 7] })]

theorem requester_discipline_severalAttempts :
    ((start .standard).afterAll severalAttempts).log.getLast? = some (.returned 0 (.ok [0, 7])) ∧
    ∀ tid, ((start .standard).afterAll severalAttempts).requester.ids.inUse tid = 0 := by
  have hlast : ((start .standard).afterAll severalAttempts).log.getLast? =
      some (.returned 0 (.ok [0, 7])) := by
    decide +kernel
  refine ⟨hlast, (requester_discipline .standard severalAttempts).2.2.2.2.2 fun id q hbegun => ?_⟩
  have honly : ∀ record ∈ ((start .standard).afterAll severalAttempts).log,
      record.call? = some 0 := by
    decide +kernel
  obtain rfl : id = 0 := Option.some.inj (honly _ hbegun)
  exact ⟨_, List.mem_of_getLast? hlast⟩

end Dispatch
end DescriptorExchange
