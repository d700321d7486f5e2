import DescriptorExchange.Proofs.Exchange.Agenda

/-!
Reports of changed records. A fetch names the records that the host has reported, and each of them
is asked for after the report, before its cycle completes. The one exception is the record whose
answer is outstanding when the report comes in: it is not asked for again, although the answer may
still be the old one.
-/
namespace DescriptorExchange.Exchange

/-- The record a call asks the host for. -/
def requested (x : Exchange) : Call → List FetchRequest
  | .request => match x.nextRequest.2 with
    | .ok (some asked) => [asked]
    | _ => []
  | _ => []

/-- The records a run asks the host for, in the order of the requests. -/
def requests (x : Exchange) : List Call → List FetchRequest
  | [] => []
  | call :: rest => x.requested call ++ match x.call? call with
    | none => []
    | some y => y.requests rest

/-- The record that has been asked for and not answered yet. -/
def outstanding? (x : Exchange) : Option RecordHandle := x.cycle.bind Cycle.inFlight

/-- Whenever the cycle that a fetch begins or joins completes, a record has been asked for since. -/
def AsksAfter (x : Exchange) (handles : List RecordHandle) (h : RecordHandle) : Prop :=
  ∀ id calls y answer z notice, (x.beginFetch handles).2 = some id →
    (x.beginFetch handles).1.run? calls = some y →
    y.receive id answer = (z, .ok (.complete notice)) →
    ⟨id, h⟩ ∈ (x.beginFetch handles).1.requests calls

/-- The running cycle goes on with all it had still to ask for, but for what has been asked, or it
has ended. A cycle that has begun since has a number that no cycle had before. -/
structure Proceeds (x y : Exchange) (asked : List FetchRequest) : Prop where
  next : x.nextCycle ≤ y.nextCycle
  cycle : ∀ d, y.cycle = some d → (x.nextCycle ≤ d.id ∧ d.id < y.nextCycle) ∨
    ∃ c, x.cycle = some c ∧ d.id = c.id ∧ ∀ k ∈ c.queue, k ∈ d.queue ∨ ⟨c.id, k⟩ ∈ asked

/-- No cycle has a number that is still to be given out. -/
def Numbered (x : Exchange) : Prop := ∀ c, x.cycle = some c → c.id < x.nextCycle

/-- While a cycle runs, a record is among those it has still to ask for. -/
structure Due (x : Exchange) (id : CycleId) (h : RecordHandle) : Prop where
  begun : id < x.nextCycle
  queued : ∀ c, x.cycle = some c → c.id = id → h ∈ c.queue

variable {x y z : Exchange} {id : CycleId} {h : RecordHandle} {asked : List FetchRequest}

namespace Proceeds

theorem of_idle (hnext : y.nextCycle = x.nextCycle) (hy : y.cycle = none) : Proceeds x y asked :=
  ⟨Nat.le_of_eq hnext.symm, fun d hd => by simp [hy] at hd⟩

theorem of_longer {c d : Cycle} (hnext : y.nextCycle = x.nextCycle) (hc : x.cycle = some c)
    (hy : y.cycle = some d) (hid : d.id = c.id)
    (hqueue : ∀ k ∈ c.queue, k ∈ d.queue ∨ ⟨c.id, k⟩ ∈ asked) : Proceeds x y asked := by
  refine ⟨Nat.le_of_eq hnext.symm, fun e he => .inr ⟨c, hc, ?_⟩⟩
  obtain rfl := Option.some.inj (hy.symm.trans he)
  exact ⟨hid, hqueue⟩

theorem refl (x : Exchange) : Proceeds x x asked :=
  ⟨Nat.le_refl _, fun d hd => .inr ⟨d, hd, rfl, fun _ hk => .inl hk⟩⟩

theorem trans (hxy : Proceeds x y []) (hyz : Proceeds y z []) : Proceeds x z [] := by
  refine ⟨Nat.le_trans hxy.next hyz.next, fun e he => ?_⟩
  rcases hyz.cycle e he with ⟨hle, hlt⟩ | ⟨d, hd, hed, hde⟩
  · exact .inl ⟨Nat.le_trans hxy.next hle, hlt⟩
  · rcases hxy.cycle d hd with ⟨hle, hlt⟩ | ⟨c, hc, hdc, hcd⟩
    · exact .inl (hed ▸ ⟨hle, Nat.lt_of_lt_of_le hlt hyz.next⟩)
    · refine .inr ⟨c, hc, hed.trans hdc, fun k hk => ?_⟩
      have hkept := (hcd k hk).resolve_right (by simp)
      exact .inl ((hde k hkept).resolve_right (by simp))

theorem numbered (h : Proceeds x y asked) (hx : x.Numbered) : y.Numbered := by
  intro d hd
  rcases h.cycle d hd with ⟨-, hlt⟩ | ⟨c, hc, hid, -⟩
  · exact hlt
  · exact hid ▸ Nat.lt_of_lt_of_le (hx c hc) h.next

/-- What is due stays so unless it has been asked for. -/
theorem due (hxy : Proceeds x y asked) (hx : x.Due id h) : y.Due id h ∨ ⟨id, h⟩ ∈ asked := by
  by_cases hasked : ⟨id, h⟩ ∈ asked
  · exact .inr hasked
  refine .inl ⟨Nat.lt_of_lt_of_le hx.begun hxy.next, fun d hd hid => ?_⟩
  rcases hxy.cycle d hd with ⟨hle, -⟩ | ⟨c, hc, hdc, hqueue⟩
  · exact absurd hx.begun (Nat.not_lt.mpr (hid ▸ hle))
  · obtain rfl : c.id = id := hdc.symm.trans hid
    exact (hqueue h (hx.queued c hc rfl)).resolve_right hasked

end Proceeds

theorem Undisturbed.proceeds (hxy : Undisturbed x y) : Proceeds x y asked := by
  have hnext : y.nextCycle = x.nextCycle := congrArg Prod.fst hxy.fixed
  refine ⟨Nat.le_of_eq hnext.symm, fun d hd => ?_⟩
  obtain ⟨c, hc, hagenda⟩ := hxy.of_cycle_eq_some hd
  simp only [Cycle.agenda, Prod.mk.injEq] at hagenda
  exact .inr ⟨c, hc, hagenda.1.symm, fun k hk => .inl (hagenda.2.2.1 ▸ hk)⟩

theorem startCycle_proceeds (x : Exchange) (mode : FetchMode) (queue : List RecordHandle) :
    Proceeds x (x.startCycle mode queue).1 [] := by
  refine ⟨Nat.le_succ _, fun d hd => .inl ?_⟩
  obtain rfl := Option.some.inj hd
  exact ⟨Nat.le_refl _, Nat.lt_succ_self x.nextCycle⟩

theorem beginResync_proceeds (x : Exchange) : Proceeds x x.beginResync.1 [] :=
  (x.startCycle_proceeds .chain [RecordHandle.terminator]).trans x.beginResync_undisturbed.proceeds

theorem beginFetch_proceeds (x : Exchange) (handles : List RecordHandle) :
    Proceeds x (x.beginFetch handles).1 [] := by
  rcases x.beginFetch_cases handles with ⟨c, hc, heq⟩ | ⟨-, heq⟩ | ⟨-, phase, heq⟩
  · rw [heq]
    exact .of_longer rfl hc rfl rfl fun k hk => .inl (List.mem_append_left _ hk)
  · rw [heq]
    exact .refl x
  · rw [heq]
    have hstarted := x.startCycle_proceeds .listed (handles.filter (· ≠ RecordHandle.terminator))
    exact ⟨hstarted.next, hstarted.cycle⟩

theorem nextRequest_proceeds (x : Exchange) :
    Proceeds x x.nextRequest.1 (x.requested .request) := by
  rcases x.nextRequest_cases with heq | heq | ⟨c, handle, rest, phase, hc, -, hqueue, heq⟩
  · rw [heq]
    exact .refl x
  · rw [heq]
    exact .of_idle rfl rfl
  · have hasked : x.requested .request = [⟨c.id, handle⟩] := by simp [requested, heq]
    rw [hasked, heq]
    refine .of_longer rfl hc rfl rfl fun k hk => ?_
    rw [hqueue, List.mem_cons] at hk
    exact hk.symm.imp_right fun hk => by simp [hk]

theorem noted_proceeds (x : Exchange) (record : Bytes) : Proceeds x (x.noted record) [] := by
  unfold noted
  split
  · exact .refl x
  · refine ⟨Nat.le_refl _, fun d hd => ?_⟩
    obtain ⟨c, hc, rfl⟩ := Option.map_eq_some_iff.mp hd
    exact .inr ⟨c, hc, rfl, fun k hk => .inl hk⟩

theorem advance_proceeds {next : RecordHandle} {result : Except ExchangeError FetchOutcome}
    (h : x.advance next = (y, result)) : Proceeds x y [] := by
  rcases advance_cases h with ⟨-, rfl, -⟩ | ⟨c, hc, ⟨rfl, -⟩ | ⟨rfl, -⟩ | ⟨rfl, -⟩⟩
  · exact .refl _
  · exact .of_idle rfl rfl
  · exact .of_idle rfl rfl
  · exact .of_longer rfl hc rfl (c.follow_id next) fun k hk => .inl (Cycle.mem_follow hk)

/-- Importing the record of an answer. -/
theorem answered_proceeds {c : Cycle} (hc : x.cycle = some c) (record : Bytes) :
    Proceeds x ((x.answered c).importRecord record).1 [] := by
  have hanswered : Proceeds x (x.answered c) [] :=
    .of_longer rfl hc rfl rfl fun _ hk => .inl hk
  exact (hanswered.trans (noted_proceeds _ record)).trans
    (importRecord_undisturbed _ record).proceeds

theorem receive_proceeds {cycle : CycleId} {answer : Except RequestError Bytes}
    {result : Except ExchangeError FetchOutcome} (h : x.receive cycle answer = (y, result)) :
    Proceeds x y [] := by
  rcases receive_cases h with ⟨rfl, -⟩ | ⟨c, handle, hc, -, -, ⟨e, -, rfl, -⟩ |
    ⟨record, next, -, ⟨z, e, himport, rfl, -⟩ | ⟨z, himport, hadvance⟩⟩⟩
  · exact Undisturbed.proceeds ⟨rfl, rfl⟩
  · exact .of_idle rfl rfl
  all_goals
    have hz := answered_proceeds hc record
    rw [himport] at hz
  · exact hz.trans (.of_idle rfl rfl)
  · exact hz.trans (advance_proceeds hadvance)

/-- What one call does to the numbers of cycles and to what is due. -/
theorem call?_proceeds {call : Call} (h : x.call? call = some y) :
    Proceeds x y (x.requested call) := by
  cases call with
  | request =>
    obtain rfl := Option.some.inj h
    exact nextRequest_proceeds x
  | resync =>
    obtain rfl := Option.some.inj h
    exact beginResync_proceeds x
  | fetch handles =>
    obtain rfl := Option.some.inj h
    exact beginFetch_proceeds x handles
  | receive cycle answer =>
    obtain ⟨result, hreceive, -⟩ := call?_receive h
    exact receive_proceeds hreceive
  | forget handles =>
    obtain rfl := Option.some.inj h
    exact (forget_aside x handles).undisturbed.proceeds
  | hostDown =>
    obtain rfl := Option.some.inj h
    exact x.invalidateTermini_aside.undisturbed.proceeds
  | link up =>
    obtain rfl := Option.some.inj h
    exact ⟨Nat.le_refl _, fun d hd => .inr ⟨d, hd, rfl, fun _ hk => .inl hk⟩⟩

/-- A run leaves due what is due, unless it asks for it. -/
theorem run?_due {calls : List Call} (hx : x.Due id h) (hrun : x.run? calls = some y) :
    y.Due id h ∨ ⟨id, h⟩ ∈ x.requests calls := by
  induction calls generalizing x with
  | nil =>
    obtain rfl := Option.some.inj hrun
    exact .inl hx
  | cons call rest ih =>
    obtain ⟨mid, hcall, hrest⟩ := Option.bind_eq_some_iff.mp hrun
    simp only [requests, hcall, List.mem_append]
    rcases (call?_proceeds hcall).due hx with hmid | hasked
    · exact (ih hmid hrest).imp_right .inr
    · exact .inr (.inl hasked)

theorem run?_numbered {settings : ExchangeSettings} {names : EntityNames} {r : Repository}
    {t : Containment} {calls : List Call} (hrun : (start settings names r t).run? calls = some x) :
    x.Numbered :=
  run?_induction (p := Numbered) (fun _ _ _ hp (_ : True) hcall => (call?_proceeds hcall).numbered hp)
    (fun _ _ => trivial) (fun c hc => by simp [start] at hc) hrun

/-- A cycle in which something is due does not complete. -/
theorem not_complete_of_due {answer : Except RequestError Bytes} {notice : Option ChangeNotice}
    (hx : x.Due id h) : x.receive id answer ≠ (y, .ok (.complete notice)) := by
  intro hreceive
  obtain ⟨c, record, next, z, hc, hid, himport, hadvance⟩ := receive_complete hreceive
  obtain ⟨d, hd, hempty, -⟩ := advance_complete hadvance
  have hz := answered_proceeds hc record
  rw [himport] at hz
  rcases hz.cycle d hd with ⟨hle, hlt⟩ | ⟨c', hc', -, hqueue⟩
  · have hnext : z.nextCycle = x.nextCycle := by
      have hfixed := (importRecord_undisturbed (x.answered c) record).fixed
      rw [himport] at hfixed
      refine (congrArg Prod.fst hfixed).trans ?_
      unfold noted
      split <;> rfl
    exact absurd (Nat.lt_of_le_of_lt hle hlt) (hnext ▸ Nat.lt_irrefl _)
  · obtain rfl := Option.some.inj (hc.symm.trans hc')
    have hmem := (hqueue h (hx.queued c hc hid)).resolve_right (by simp)
    have hleft : h ∈ (d.follow next).queue := Cycle.mem_follow hmem
    simp [hempty] at hleft

/-- What a fetch names is due from then on, but for what is outstanding. -/
theorem beginFetch_queues {handles : List RecordHandle} (hx : x.Numbered) (hmem : h ∈ handles)
    (hne : h ≠ RecordHandle.terminator) (hfree : x.outstanding? ≠ some h)
    (hid : (x.beginFetch handles).2 = some id) : (x.beginFetch handles).1.Due id h := by
  have hwanted : h ∈ handles.filter (· ≠ RecordHandle.terminator) := by simp [hmem, hne]
  rcases x.beginFetch_cases handles with ⟨c, hc, heq⟩ | ⟨-, heq⟩ | ⟨hc, phase, heq⟩
  · simp only [heq, Option.some.injEq] at hid ⊢
    refine ⟨hid ▸ hx c hc, fun d hd _ => ?_⟩
    obtain rfl := Option.some.inj hd
    have hflight : c.inFlight ≠ some h := by simpa [outstanding?, hc] using hfree
    simp only [List.mem_append, List.mem_filter, decide_eq_true_eq]
    by_cases hqueued : h ∈ c.queue
    · exact .inl hqueued
    · exact .inr ⟨by simpa using hwanted, hqueued, hflight⟩
  · simp [heq] at hid
  · simp only [heq, Option.some.injEq] at hid ⊢
    refine ⟨hid ▸ Nat.lt_succ_self _, fun d hd _ => ?_⟩
    obtain rfl := Option.some.inj hd
    exact hwanted

/-- A reported record is asked for after the report, unless its answer is outstanding then. -/
theorem fetch_asks_after {settings : ExchangeSettings} {names : EntityNames} {r : Repository}
    {t : Containment} {earlier : List Call} {handles : List RecordHandle}
    (hrun : (start settings names r t).run? earlier = some x) (hmem : h ∈ handles)
    (hne : h ≠ RecordHandle.terminator) (hfree : x.outstanding? ≠ some h) :
    x.AsksAfter handles h := by
  intro id calls y answer z notice hid hcalls hcomplete
  have hdue := beginFetch_queues (run?_numbered hrun) hmem hne hfree hid
  exact (run?_due hdue hcalls).resolve_left fun hdue => not_complete_of_due hdue hcomplete

/-- A report of two records comes in while one of them is outstanding: the other one is asked for. -/
theorem fetch_asks_after_second :
    ∃ x, (start .standard ⟨[]⟩ default default).run? [.fetch [5], .request] = some x ∧
      (6 : RecordHandle) ∈ [5, 6] ∧ (6 : RecordHandle) ≠ RecordHandle.terminator ∧
      x.outstanding? ≠ some 6 ∧ x.AsksAfter [5, 6] 6 := by
  have hrun : (start .standard ⟨[]⟩ default default).run? [.fetch [5], .request] = some _ := rfl
  refine ⟨_, hrun, by decide, by decide, by decide, ?_⟩
  exact fetch_asks_after hrun (by decide) (by decide) (by decide)

/-- A record that is reported while it is outstanding is not asked for again. -/
theorem fetch_passes_over_outstanding :
    let sensor : StateSensor := ⟨3, 1, ⟨1, 1, 1⟩, 0, false, []⟩
    let answer := RecordResponse.single RecordHandle.terminator (encodeRecord 5 sensor)
    ∃ x, (start .standard ⟨[]⟩ default default).run? [.fetch [5], .request] = some x ∧
      (5 : RecordHandle) ∈ [5] ∧ (5 : RecordHandle) ≠ RecordHandle.terminator ∧
      ((x.beginFetch [5]).1.receive 0 (.ok answer.encode)).2 =
        .ok (.complete (some ⟨[0x01000000], [], []⟩)) ∧
      ¬ x.AsksAfter [5] 5 := by
  intro sensor answer
  have hrun : (start .standard ⟨[]⟩ default default).run? [.fetch [5], .request] = some _ := rfl
  refine ⟨_, hrun, by decide, by decide, by decide +kernel, fun hasks => ?_⟩
  have hnone := hasks 0 [] _ (.ok answer.encode) _ (some ⟨[0x01000000], [], []⟩) rfl rfl
    (Prod.ext rfl (by decide +kernel))
  simp [requests] at hnone

end DescriptorExchange.Exchange
