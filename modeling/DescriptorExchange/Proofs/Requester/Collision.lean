import DescriptorExchange.Coordinator
import DescriptorExchange.Proofs.Requester.Line

/-!
When requests collide. Instance ids are handed out by terminus, but a connection tells requests apart by
endpoint. So two calls for one terminus never go by the same key, while calls for two termini at one
endpoint may, and then the later attempt is refused as busy.
-/
namespace DescriptorExchange

/-- Requests have one key just if they go to one endpoint with one instance id. -/
theorem Call.key_eq_iff {call rival : Call} : call.frame.key = rival.frame.key ↔
    call.query.eid = rival.query.eid ∧ call.iid = rival.iid :=
  RequestKey.mk.injEq .. ▸ Iff.rfl

/-- Only an attempt that was refused as busy lets a call return so. -/
theorem Call.failed_of_conclude {policy : RetryPolicy} {call : Call} {result : AttemptResult}
    {cause : TransportError} (h : call.conclude policy result = some (.error (.transport cause))) :
    result = .failed cause := by
  cases result with
  | answered response =>
    simp only [conclude, accept, Option.some.injEq] at h
    split_ifs at h
    cases h
  | failed e =>
    simp only [conclude, Option.some.injEq, Except.error.injEq, RequestError.transport.injEq] at h
    rw [h]
  | timedOut =>
    simp only [conclude] at h
    split_ifs at h
    cases h

namespace Line

variable {l m : Line} {event : LineEvent} {events : List LineEvent} {policy : RetryPolicy}
  {id other : CallId} {call rival : Call} {eid : EndpointId} {iid : InstanceId}

/-- Another call waits for an answer of this endpoint under this instance id, and it is a call for another
terminus. -/
def Collides (l : Line) (id : CallId) (eid : EndpointId) (iid : InstanceId) : Prop :=
  ∃ call other rival ticket, l.requester.calls[id]? = some call ∧ l.Waits other rival ticket ∧
    other ≠ id ∧ call.query.eid = eid ∧ rival.query.eid = eid ∧ call.iid = iid ∧ rival.iid = iid ∧
    rival.query.tid ≠ call.query.tid

theorem Sound.tid_ne (h : l.Sound) (hcall : l.requester.calls[id]? = some call)
    (hrival : l.requester.calls[other]? = some rival) (hne : id ≠ other)
    (hkey : call.frame.key = rival.frame.key) : call.query.tid ≠ rival.query.tid :=
  fun htid => h.requester.apart hcall hrival hne htid (Call.key_eq_iff.mp hkey).2

theorem Sound.collides (h : l.Sound) (hcall : l.requester.calls[id]? = some call)
    (hdue : l.stages[id]? = some .due) (hkey : call.frame.key ∈ l.connection.pending) :
    l.Collides id call.query.eid call.iid := by
  obtain ⟨ticket, hticket⟩ :=
    Option.isSome_iff_exists.mp (Std.ExtTreeMap.mem_iff_isSome_getElem?.mp hkey)
  obtain ⟨other, rival, hrival, hsame⟩ := h.pending hticket
  have hne : other ≠ id := by
    rintro rfl
    cases hdue.symm.trans hrival.2
  obtain ⟨heid, hiid⟩ := Call.key_eq_iff.mp hsame
  exact ⟨call, other, rival, ticket, hcall, hrival, hne, rfl, heid, rfl, hiid,
    h.tid_ne hrival.1 hcall hne hsame⟩

/-- One of the events is an attempt of the call that came upon a collision. -/
def Refused (policy : RetryPolicy) (events : List LineEvent) (id : CallId) (eid : EndpointId)
    (iid : InstanceId) : Prop :=
  ∃ before later, events = before ++ .attempt id :: later ∧
    ((start policy).afterAll before).Collides id eid iid

theorem Refused.concat (h : Refused policy events id eid iid) (event : LineEvent) :
    Refused policy (events ++ [event]) id eid iid := by
  obtain ⟨before, later, rfl, hcollides⟩ := h
  exact ⟨before, later ++ [event], by simp, hcollides⟩

/-- Calls ask what was submitted, and what was refused as busy came upon a collision. -/
structure Explained (policy : RetryPolicy) (events : List LineEvent) (l : Line) : Prop where
  asked : ∀ {id : CallId} {call : Call}, l.requester.calls[id]? = some call →
    .submit call.query ∈ events
  ended : ∀ {id : CallId} {eid : EndpointId} {iid : InstanceId},
    l.stages[id]? = some (.ended (.failed (.busy eid iid))) → Refused policy events id eid iid
  returned : ∀ {id : CallId} {eid : EndpointId} {iid : InstanceId},
    (id, .error (.transport (.busy eid iid))) ∈ l.returned → Refused policy events id eid iid

theorem Explained.asked_changes (h : Explained policy events l) (hchanges : l.Changes event m)
    (hcall : m.requester.calls[id]? = some call) : .submit call.query ∈ events ++ [event] := by
  have hold {id : CallId} {call : Call} (hcall : l.requester.calls[id]? = some call) :
      .submit call.query ∈ events ++ [event] := List.mem_append_left _ (h.asked hcall)
  cases hchanges with
  | begun =>
    replace hcall := (Entries.getElem?_insert ..).symm.trans hcall
    split_ifs at hcall
    · obtain rfl := Option.some.inj hcall
      exact List.mem_append_right _ (List.mem_singleton_self _)
    · exact hold hcall
  | again hbefore =>
    replace hcall := (Entries.getElem?_insert ..).symm.trans hcall
    split_ifs at hcall
    · obtain rfl := Option.some.inj hcall
      have hasked := h.asked hbefore
      exact List.mem_append_left _ hasked
    · exact hold hcall
  | returns =>
    replace hcall := (Entries.getElem?_erase ..).symm.trans hcall
    split_ifs at hcall
    exact hold hcall
  | none => exact hold hcall
  | busy => exact hold hcall
  | closed => exact hold hcall
  | waits => exact hold hcall
  | ends => exact hold hcall
  | traffic => exact hold hcall

/-- A call that ends as busy does so at once, at an attempt that came upon a collision. -/
theorem Explained.ended_changes (hsound : ((start policy).afterAll events).Sound)
    (h : Explained policy events ((start policy).afterAll events))
    (hchanges : ((start policy).afterAll events).Changes event m)
    (hended : m.stages[id]? = some (.ended (.failed (.busy eid iid)))) :
    Refused policy (events ++ [event]) id eid iid := by
  -- The stage is new, or the call had it before.
  have hinsert {stages : Std.ExtTreeMap CallId Stage} {other : CallId} {stage : Stage}
      (h : (stages.insert other stage)[id]? = some (Stage.ended (.failed (.busy eid iid)))) :
      (other = id ∧ stage = Stage.ended (.failed (.busy eid iid))) ∨
        stages[id]? = some (Stage.ended (.failed (.busy eid iid))) := by
    rw [Entries.getElem?_insert] at h
    split_ifs at h with hsame
    · exact .inl ⟨hsame.symm, Option.some.inj h⟩
    · exact .inr h
  cases hchanges with
  | none => exact (h.ended hended).concat _
  | traffic => exact (h.ended hended).concat _
  | busy hcall hdue hkey =>
    rcases hinsert hended with ⟨rfl, hstage⟩ | hold
    · obtain ⟨rfl, rfl⟩ : _ = eid ∧ _ = iid := by simpa using hstage
      exact ⟨events, [], rfl, hsound.collides hcall hdue hkey⟩
    · exact (h.ended hold).concat _
  | ends hwaits hresult =>
    rcases hinsert hended with ⟨rfl, hstage⟩ | hold
    · cases hresult _ (Stage.ended.inj hstage)
    · exact (h.ended hold).concat _
  | begun | closed | waits | again =>
    rcases hinsert hended with ⟨rfl, hstage⟩ | hold
    · simp at hstage
    · exact (h.ended hold).concat _
  | returns =>
    replace hended := (Entries.getElem?_erase ..).symm.trans hended
    split_ifs at hended
    exact (h.ended hended).concat _

theorem Explained.returned_changes (h : Explained policy events l) (hchanges : l.Changes event m)
    (hreturned : (id, .error (.transport (.busy eid iid))) ∈ m.returned) :
    Refused policy (events ++ [event]) id eid iid := by
  cases hchanges with
  | returns hcall hended hanswer =>
    rcases List.mem_append.mp hreturned with hold | hnew
    · exact (h.returned hold).concat _
    · obtain ⟨rfl, rfl⟩ := Prod.mk.inj (List.mem_singleton.mp hnew)
      rw [Call.failed_of_conclude hanswer] at hended
      exact (h.ended hended).concat _
  | none | begun | busy | closed | waits | ends | again | traffic =>
    exact (h.returned hreturned).concat _

theorem explained_afterAll (policy : RetryPolicy) (events : List LineEvent) :
    Explained policy events ((start policy).afterAll events) := by
  induction events using List.reverseRecOn with
  | nil =>
    constructor
    · intro id call hcall
      simp [afterAll, start, Requester.start] at hcall
    · intro id eid iid hended
      simp [afterAll, start] at hended
    · intro id eid iid hreturned
      simp [afterAll, start] at hreturned
  | append_singleton events event ih =>
    have hchanges := after_changes ((start policy).afterAll events) event
    have hstep : (start policy).afterAll (events ++ [event]) =
        ((start policy).afterAll events).after event := by
      simp [afterAll]
    rw [hstep]
    constructor
    · exact ih.asked_changes hchanges
    · exact ih.ended_changes (sound_afterAll policy events) hchanges
    · exact ih.returned_changes hchanges

/-- Outstanding calls for one terminus never share a key, and a call is refused as busy only because of
another one for another terminus at the same endpoint. So no call is refused so at an endpoint that is
asked for one terminus only. -/
theorem busy_across_termini (policy : RetryPolicy) (events : List LineEvent) :
    (∀ (id other : CallId) (call rival : Call),
      ((start policy).afterAll events).requester.calls[id]? = some call →
      ((start policy).afterAll events).requester.calls[other]? = some rival →
      id ≠ other → call.frame.key = rival.frame.key → call.query.tid ≠ rival.query.tid) ∧
    (∀ (id : CallId) (eid : EndpointId) (iid : InstanceId),
      (id, .error (.transport (.busy eid iid))) ∈ ((start policy).afterAll events).returned →
      ∃ before later, events = before ++ .attempt id :: later ∧
        ((start policy).afterAll before).Collides id eid iid) ∧
    (∀ (eid : EndpointId) (tid : TerminusId),
      (∀ q, .submit q ∈ events → q.eid = eid → q.tid = tid) → ∀ (id : CallId) (iid : InstanceId),
      (id, .error (.transport (.busy eid iid))) ∉ ((start policy).afterAll events).returned) := by
  have hexplained := explained_afterAll policy events
  refine ⟨fun id other call rival => (sound_afterAll policy events).tid_ne,
    fun id eid iid => hexplained.returned, fun eid tid hsole id iid hreturned => ?_⟩
  obtain ⟨before, later, rfl, call, other, rival, ticket, hcall, hrival, -, heid, heid', -, -, hne⟩ :=
    hexplained.returned hreturned
  -- Both calls were submitted before the attempt.
  have hsame {id : CallId} {call : Call} (heid : call.query.eid = eid)
      (hcall : ((start policy).afterAll before).requester.calls[id]? = some call) :
      call.query.tid = tid :=
    hsole _ (List.mem_append_left _ ((explained_afterAll policy before).asked hcall)) heid
  exact hne ((hsame heid' hrival.1).trans (hsame heid hcall).symm)

/-- The host is told of a change while sensors of another terminus are read, one of them at the endpoint of
the host. -/
def noticeAndReadings : List LineEvent :=
  let coordinator := Coordinator.start default true
  let host := coordinator.exchange.settings.hostEndpoint
  [.submit (coordinator.hostQuery PlatformEvent.command []),
    .submit (SurveyTarget.query ⟨⟨⟨5⟩, 100⟩, host, []⟩),
    .submit (SurveyTarget.query ⟨⟨⟨5⟩, 101⟩, ⟨10⟩, []⟩),
    .attempt 0, .attempt 2, .attempt 1, .takeNotice 1]

/-- The notice waits under the instance id that the reading has for its own terminus. -/
theorem reading_meets_notice :
    ((start .standard).afterAll noticeAndReadings).returned =
      [(1, .error (.transport (.busy ⟨9⟩ ⟨0⟩)))] := by
  decide +kernel

theorem busy_across_termini_reading :
    (∃ call rival : Call,
      ((start .standard).afterAll (noticeAndReadings.take 6)).requester.calls[0]? = some call ∧
      ((start .standard).afterAll (noticeAndReadings.take 6)).requester.calls[1]? = some rival ∧
      call.frame.key = rival.frame.key ∧ call.query.tid ≠ rival.query.tid) ∧
    (∃ before later, noticeAndReadings = before ++ .attempt 1 :: later ∧
      ((start .standard).afterAll before).Collides 1 ⟨9⟩ ⟨0⟩) ∧
    (∀ (id : CallId) (iid : InstanceId),
      (id, .error (.transport (.busy ⟨10⟩ iid))) ∉
        ((start .standard).afterAll noticeAndReadings).returned) := by
  obtain ⟨call, hcall⟩ : ∃ call : Call,
      ((start .standard).afterAll (noticeAndReadings.take 6)).requester.calls[0]? = some call :=
    Option.isSome_iff_exists.mp (by decide +kernel)
  obtain ⟨rival, hrival⟩ : ∃ rival : Call,
      ((start .standard).afterAll (noticeAndReadings.take 6)).requester.calls[1]? = some rival :=
    Option.isSome_iff_exists.mp (by decide +kernel)
  have hkeys :
      ((start .standard).afterAll (noticeAndReadings.take 6)).requester.calls[0]?.map
          (fun call => call.frame.key) =
        ((start .standard).afterAll (noticeAndReadings.take 6)).requester.calls[1]?.map
          (fun call => call.frame.key) := by
    decide +kernel
  rw [hcall, hrival] at hkeys
  have hkey : call.frame.key = rival.frame.key := Option.some.inj hkeys
  refine ⟨⟨call, rival, hcall, hrival, hkey, ?_⟩, ?_, ?_⟩
  · exact (busy_across_termini .standard _).1 0 1 call rival hcall hrival (by decide) hkey
  · exact (busy_across_termini .standard noticeAndReadings).2.1 1 ⟨9⟩ ⟨0⟩ (by decide +kernel)
  · apply (busy_across_termini .standard noticeAndReadings).2.2 ⟨10⟩ ⟨5⟩
    intro q hq heid
    simp only [noticeAndReadings, List.mem_cons, LineEvent.submit.injEq, reduceCtorEq, or_false,
      List.not_mem_nil] at hq
    rcases hq with rfl | rfl | rfl
    · exact absurd heid (by decide)
    · rfl
    · rfl

end Line
end DescriptorExchange
