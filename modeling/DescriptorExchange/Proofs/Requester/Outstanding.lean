import DescriptorExchange.Proofs.Entries
import DescriptorExchange.Proofs.Requester.InstanceIds
import DescriptorExchange.Requester

/-!
Calls that are outstanding at the same time. Each holds its instance id from its first attempt to its
end, so two calls to one terminus never go by the same id.
-/
namespace DescriptorExchange.Requester

variable {r s : Requester} {id other : CallId} {call rival : Call} {q : Query} {f : Frame}

/-- The outstanding calls hold their ids, and those to one terminus hold different ones. -/
structure Sound (r : Requester) : Prop where
  numbered : ∀ {id : CallId} {call : Call}, r.calls[id]? = some call → id < r.nextCall
  held : ∀ {id : CallId} {call : Call}, r.calls[id]? = some call →
    r.ids.Held call.query.tid call.iid
  apart : ∀ {id other : CallId} {call rival : Call}, r.calls[id]? = some call →
    r.calls[other]? = some rival → id ≠ other → call.query.tid = rival.query.tid →
      call.iid ≠ rival.iid

theorem Sound.start (policy : RetryPolicy) : (start policy).Sound where
  numbered h := by simp [Requester.start] at h
  held h := by simp [Requester.start] at h
  apart h := by simp [Requester.start] at h

/-- A call that begins takes the next number and an instance id. -/
theorem submit_eq_ok (h : r.submit q = .ok (s, id, f)) :
    ∃ ids iid, r.ids.allocate q.tid = .ok (ids, iid) ∧ id = r.nextCall ∧ f = q.frame iid ∧
      s = { r with
        ids, calls := r.calls.insert r.nextCall ⟨q, iid, 1⟩, nextCall := r.nextCall + 1 } := by
  unfold submit at h
  cases hallocate : r.ids.allocate q.tid with
  | error e => simp [hallocate, Except.mapError, bind, Except.bind] at h
  | ok taken =>
    obtain ⟨ids, iid⟩ := taken
    simp only [hallocate, Except.mapError, bind, Except.bind, pure, Except.pure, Except.ok.injEq,
      Prod.mk.injEq] at h
    obtain ⟨rfl, rfl, rfl⟩ := h
    exact ⟨ids, iid, rfl, rfl, rfl, rfl⟩

/-- After an attempt a call ends and gives its id back, or it goes on as it is. -/
theorem resolve_of_call {result : AttemptResult} (hcall : r.calls[id]? = some call) :
    (∃ answer, call.conclude r.policy result = some answer ∧
      r.resolve id result = (r.close id call, .finished answer)) ∨
    (call.conclude r.policy result = none ∧ r.resolve id result =
      ({ r with calls := r.calls.insert id { call with attempt := call.attempt + 1 } },
        .again call.frame)) := by
  unfold resolve
  rw [hcall]
  cases hconclude : call.conclude r.policy result with
  | some answer => exact .inl ⟨answer, rfl, by simp only [hconclude]⟩
  | none => exact .inr ⟨rfl, by simp only [hconclude]; rfl⟩

theorem Sound.begin {ids : InstanceIds} {iid : InstanceId} (hr : r.Sound)
    (hallocate : r.ids.allocate q.tid = .ok (ids, iid)) :
    ({ r with ids, calls := r.calls.insert r.nextCall ⟨q, iid, 1⟩, nextCall := r.nextCall + 1 } :
      Requester).Sound := by
  obtain ⟨-, hfree, hheld⟩ := InstanceIds.allocate_eq_ok hallocate
  -- An older call to the same terminus holds its id, so the new one is another.
  have hnew {id : CallId} {call : Call} (hcall : r.calls[id]? = some call)
      (htid : call.query.tid = q.tid) : call.iid ≠ iid := by
    intro heq
    exact hfree (heq ▸ htid ▸ hr.held hcall)
  constructor
  · intro id call hcall
    rw [Entries.getElem?_insert] at hcall
    split_ifs at hcall with hid
    · exact hid ▸ Nat.lt_succ_self _
    · exact Nat.lt_succ_of_lt (hr.numbered hcall)
  · intro id call hcall
    rw [Entries.getElem?_insert] at hcall
    split_ifs at hcall with hid
    · obtain rfl := Option.some.inj hcall
      exact (hheld q.tid iid).mpr (.inr ⟨rfl, rfl⟩)
    · exact (hheld _ _).mpr (.inl (hr.held hcall))
  · intro id other call rival hcall hrival hne htid
    rw [Entries.getElem?_insert] at hcall hrival
    split_ifs at hcall hrival with hid hother hother
    · exact absurd (hid.trans hother.symm) hne
    · obtain rfl := Option.some.inj hcall
      exact (hnew hrival htid.symm).symm
    · obtain rfl := Option.some.inj hrival
      exact hnew hcall htid
    · exact hr.apart hcall hrival hne htid

theorem Sound.close (hr : r.Sound) (hcall : r.calls[id]? = some call) : (r.close id call).Sound := by
  obtain ⟨later, hrelease, hkept⟩ := InstanceIds.release_of_held (hr.held hcall)
  have hids : (r.close id call).ids = later := by
    show (r.ids.release call.query.tid call.iid).toOption.getD r.ids = later
    rw [hrelease]
    rfl
  have hlive {other : CallId} {rival : Call} (hrival : (r.close id call).calls[other]? = some rival) :
      other ≠ id ∧ r.calls[other]? = some rival := by
    have herased := (Entries.getElem?_erase r.calls id other).symm.trans hrival
    split_ifs at herased with hother
    exact ⟨hother, herased⟩
  constructor
  · intro other rival hrival
    exact hr.numbered (hlive hrival).2
  · intro other rival hrival
    obtain ⟨hne, hold⟩ := hlive hrival
    rw [hids]
    refine (hkept _ _).mpr ⟨hr.held hold, ?_⟩
    by_cases htid : rival.query.tid = call.query.tid
    · exact .inr (hr.apart hold hcall hne htid)
    · exact .inl htid
  · intro a b u v hu hv
    exact hr.apart (hlive hu).2 (hlive hv).2

theorem Sound.retry (hr : r.Sound) (hcall : r.calls[id]? = some call) :
    ({ r with calls := r.calls.insert id { call with attempt := call.attempt + 1 } } :
      Requester).Sound := by
  -- A call keeps its query and its id from one attempt to the next.
  have hsame {other : CallId} {rival : Call} (hrival : (r.calls.insert id
      { call with attempt := call.attempt + 1 })[other]? = some rival) :
      ∃ old, r.calls[other]? = some old ∧ rival.query = old.query ∧ rival.iid = old.iid := by
    rw [Entries.getElem?_insert] at hrival
    split_ifs at hrival with hother
    · obtain rfl := Option.some.inj hrival
      exact ⟨call, hother ▸ hcall, rfl, rfl⟩
    · exact ⟨rival, hrival, rfl, rfl⟩
  constructor
  · intro other rival hrival
    obtain ⟨old, hold, -, -⟩ := hsame hrival
    exact hr.numbered hold
  · intro other rival hrival
    obtain ⟨old, hold, hquery, hiid⟩ := hsame hrival
    rw [hquery, hiid]
    exact hr.held hold
  · intro a b u v hu hv hne htid
    obtain ⟨old, hold, hquery, hiid⟩ := hsame hu
    obtain ⟨old', hold', hquery', hiid'⟩ := hsame hv
    rw [hiid, hiid']
    exact hr.apart hold hold' hne (by rw [← hquery, ← hquery', htid])

end DescriptorExchange.Requester
