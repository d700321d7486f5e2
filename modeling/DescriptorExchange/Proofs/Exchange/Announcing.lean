import DescriptorExchange.Proofs.Exchange.Difference
import DescriptorExchange.Proofs.Exchange.Publishing
import DescriptorExchange.Proofs.Exchange.Reports

/-!
What the host hears of changes over a run of many cycles. Each cycle that completes compares the
repository with what it was when that cycle began. A change is announced if the call that makes it
belongs to such a cycle; what is changed for a cycle that fails or is replaced by another one, or
outside of any cycle, is not made up for later.
-/
namespace DescriptorExchange

variable {h : RecordHandle}

namespace ChangeNotice

variable {n : ChangeNotice} {before after : Repository} {handles : List RecordHandle}

/-- The notice says that something happened to the record under a handle. -/
def Lists (n : ChangeNotice) (h : RecordHandle) : Prop :=
  h ∈ n.added ∨ h ∈ n.modified ∨ h ∈ n.deleted

instance (n : ChangeNotice) (h : RecordHandle) : Decidable (n.Lists h) :=
  inferInstanceAs (Decidable (_ ∨ _ ∨ _))

theorem lists_between (hmem : h ∈ handles) (hdiff : before.bytes? h ≠ after.bytes? h) :
    (between before after handles).Lists h := by
  have hdiff := mt Repository.difference_eq_same.mp hdiff
  simp only [Lists, between, List.mem_filter, hmem, true_and, decide_eq_true_eq]
  cases hd : before.difference after h <;> simp_all

theorem not_isEmpty_of_lists (hlists : n.Lists h) : n.isEmpty = false := by
  simp only [isEmpty, Bool.and_eq_false_iff, List.isEmpty_eq_false_iff]
  rcases hlists with hmem | hmem | hmem
  · exact .inl (.inl (List.ne_nil_of_mem hmem))
  · exact .inl (.inr (List.ne_nil_of_mem hmem))
  · exact .inr (List.ne_nil_of_mem hmem)

end ChangeNotice

namespace Exchange

variable {x y z : Exchange} {call : Call} {calls later : List Call} {id : CycleId}
  {b : Option Bytes}

/-- A cycle that completes lists a record that has changed, if it had noted it. -/
theorem completion_lists {c : Cycle}
    (hnoted : h ∉ c.touched → x.repository.bytes? h = c.before.bytes? h)
    (hdiff : x.completed.repository.bytes? h ≠ c.before.bytes? h) :
    ∃ n ∈ x.completion? c, n.Lists h := by
  let compared := (c.touched.insertMany (fixedRecords x.settings x.settings.fixups x.repository)).toList
  let notice := ChangeNotice.between c.before x.completed.repository compared
  have hcompletion : x.completion? c = if notice.isEmpty then none else some notice := rfl
  have hmem : h ∈ compared := by
    by_contra hh
    obtain ⟨hout, hget⟩ := completed_get? hh
    exact hdiff ((congrArg (Option.map Record.bytes) hget).trans (hnoted hout))
  have hlists : notice.Lists h := ChangeNotice.lists_between hmem (Ne.symm hdiff)
  refine ⟨notice, ?_, hlists⟩
  rw [hcompletion, ChangeNotice.not_isEmpty_of_lists hlists]
  rfl

/-- The notice that a call returns. -/
def noticed (x : Exchange) : Call → Option ChangeNotice
  | .receive cycle answer => match (x.receive cycle answer).2 with
    | .ok (.complete notice) => notice
    | _ => none
  | _ => none

/-- The call returns a notice that lists the handle. -/
def Announces (x : Exchange) (call : Call) (h : RecordHandle) : Prop :=
  ∃ n ∈ x.noticed call, n.Lists h

/-- The notices that a run returns, in the order of its calls. -/
def announced (x : Exchange) : List Call → List ChangeNotice
  | [] => []
  | call :: rest => (x.noticed call).toList ++ match x.call? call with
    | none => []
    | some y => y.announced rest

/-- A notice that a call announces a handle with is among those of the run. -/
theorem mem_announced (hx : x.ComesTo calls y (call :: later))
    (hy : y.Announces call h) : ∃ n ∈ x.announced calls, n.Lists h := by
  obtain ⟨n, hn, hlists⟩ := hy
  refine ⟨n, ?_, hlists⟩
  induction calls generalizing x with
  | nil =>
    obtain ⟨done, heq, -⟩ := hx
    simp at heq
  | cons first rest ih =>
    rw [announced, List.mem_append, Option.mem_toList]
    rcases hx.cases with ⟨rfl, heq⟩ | ⟨mid, hcall, hmid⟩
    · obtain ⟨rfl, rfl⟩ := List.cons.inj heq
      exact .inl hn
    · rw [hcall]
      exact .inr (ih hmid)

/-- The cycle that a call works for: the one it begins, or the one it has an answer for. -/
def cycleOf? (x : Exchange) : Call → Option CycleId
  | .resync => some x.nextCycle
  | .receive cycle _ => some cycle
  | _ => none

/-- The call completes the cycle. -/
def Concludes (x : Exchange) (call : Call) (id : CycleId) : Prop :=
  ∃ answer notice, call = .receive id answer ∧ (x.receive id answer).2 = .ok (.complete notice)

/-- The cycle completes in the run. -/
def Ends (x : Exchange) (calls : List Call) (id : CycleId) : Prop :=
  ∃ u call later, x.ComesTo calls u (call :: later) ∧ u.Concludes call id

/-- The call changes the record under the handle, and it works for no cycle that completes in what
is left of the run. -/
def Strays (x : Exchange) (call : Call) (later : List Call) (h : RecordHandle) : Prop :=
  ∃ y, x.call? call = some y ∧ y.repository.bytes? h ≠ x.repository.bytes? h ∧
    ∀ id ∈ x.cycleOf? call, ¬ x.Ends (call :: later) id

theorem Announces.concludes (hx : x.Announces call h) : ∃ id, x.Concludes call id := by
  obtain ⟨n, hn, -⟩ := hx
  unfold noticed at hn
  split at hn
  next cycle answer =>
    split at hn
    next notice hcomplete => exact ⟨cycle, answer, notice, rfl, hcomplete⟩
    next => simp at hn
  next => simp at hn

theorem Concludes.ends (hx : x.Concludes call id) (later : List Call) :
    x.Ends (call :: later) id := ⟨x, call, later, .refl x _, hx⟩

theorem ends_cons (hcall : x.call? call = some y) :
    x.Ends (call :: later) id ↔ x.Concludes call id ∨ y.Ends later id := by
  constructor
  · rintro ⟨u, next, left, hu, hends⟩
    rcases hu.cases with ⟨rfl, heq⟩ | ⟨mid, hcall', hu⟩
    · obtain ⟨rfl, rfl⟩ := List.cons.inj heq
      exact .inl hends
    · obtain rfl := Option.some.inj (hcall.symm.trans hcall')
      exact .inr ⟨u, next, left, hu, hends⟩
  · rintro (hends | ⟨u, next, left, hu, hends⟩)
    · exact hends.ends later
    · exact ⟨u, next, left, hu.step hcall, hends⟩

/-- A cycle that has begun and does not run any more. -/
structure Past (x : Exchange) (id : CycleId) : Prop where
  begun : id < x.nextCycle
  ended : ∀ c, x.cycle = some c → c.id ≠ id

theorem Past.call? (hx : x.Past id) (hcall : x.call? call = some y) : y.Past id := by
  have hproceeds := call?_proceeds hcall
  refine ⟨Nat.lt_of_lt_of_le hx.begun hproceeds.next, fun d hd hid => ?_⟩
  rcases hproceeds.cycle d hd with ⟨hle, -⟩ | ⟨c, hc, hdc, -⟩
  · exact absurd hx.begun (Nat.not_lt.mpr (hid ▸ hle))
  · exact hx.ended c hc (hdc.symm.trans hid)

theorem Past.not_concludes (hx : x.Past id) : ¬ x.Concludes call id := by
  rintro ⟨answer, notice, rfl, hresult⟩
  have hnone : x.awaited? id = none := by
    rw [Option.eq_none_iff_forall_ne_some]
    intro handle hawaited
    obtain ⟨c, hc, hid, -⟩ := awaited?_eq_some.mp hawaited
    exact hx.ended c hc hid
  simp [receive_of_stray hnone] at hresult

theorem Past.run? (hx : x.Past id) (hrun : x.run? calls = some y) : y.Past id :=
  run?_induction (p := (Past · id)) (fun _ _ _ hp (_ : True) hcall => hp.call? hcall)
    (fun _ _ => trivial) hx hrun

/-- A cycle that is past does not complete. -/
theorem Past.not_ends (hx : x.Past id) : ¬ x.Ends calls id := by
  rintro ⟨u, call, later, ⟨done, -, hrun⟩, hends⟩
  exact (hx.run? hrun).not_concludes hends

/-- What a call means for the running cycle. Of the repository it changes only what the cycle notes,
unless the call works for no cycle. -/
inductive Turns (x : Exchange) (call : Call) (y : Exchange) : Prop
  /-- No cycle runs before or after the call. -/
  | rests (hx : x.cycle = none) (hy : y.cycle = none)
      (hof : y.repository = x.repository ∨ x.cycleOf? call = none)
  /-- A cycle begins, in place of one that has been running perhaps. -/
  | begins (d : Cycle) (hy : y.cycle = some d) (hid : d.id = x.nextCycle)
      (hbefore : d.before = x.repository)
      (hnoted : ∀ h, h ∉ d.touched → y.repository.get? h = x.repository.get? h)
      (hof : y.repository = x.repository ∨ x.cycleOf? call = some d.id)
      (hopen : ∀ id, ¬ x.Concludes call id)
  | proceeds (c d : Cycle) (hx : x.cycle = some c) (hy : y.cycle = some d) (hid : d.id = c.id)
      (hbefore : d.before = c.before) (htouched : ∀ h ∈ c.touched, h ∈ d.touched)
      (hnoted : x.cycleOf? call = none ∨
        ∀ h, h ∉ d.touched → y.repository.get? h = x.repository.get? h)
      (hof : y.repository = x.repository ∨ ∀ id ∈ x.cycleOf? call, id = c.id)
      (hopen : ∀ id, ¬ x.Concludes call id)
  | fails (c : Cycle) (hx : x.cycle = some c) (hy : y.cycle = none)
      (hof : y.repository = x.repository ∨ ∀ id ∈ x.cycleOf? call, id = c.id)
      (hopen : ∀ id, ¬ x.Concludes call id)
  /-- The cycle completes and lists what it has noted and changed. -/
  | completes (c : Cycle) (hx : x.cycle = some c) (hy : y.cycle = none)
      (hends : x.Concludes call c.id)
      (hlists : ∀ h, (h ∉ c.touched → x.repository.bytes? h = c.before.bytes? h) →
        y.repository.bytes? h ≠ c.before.bytes? h → x.Announces call h)

namespace Turns

/-- A call that leaves the repository and what the cycle has noted alone. -/
theorem of_same (hrepository : y.repository = x.repository) (hcycle : y.cycle = x.cycle)
    (hopen : ∀ id, ¬ x.Concludes call id) : x.Turns call y := by
  cases hc : x.cycle with
  | none => exact .rests hc (hcycle.trans hc) (.inl hrepository)
  | some c =>
    exact .proceeds c c hc (hcycle.trans hc) rfl rfl (fun _ => id)
      (.inr fun _ _ => by rw [hrepository]) (.inl hrepository) hopen

/-- A call outside of any cycle. -/
theorem of_outside (hof : x.cycleOf? call = none) (hcycle : y.cycle = x.cycle)
    (hopen : ∀ id, ¬ x.Concludes call id) : x.Turns call y := by
  cases hc : x.cycle with
  | none => exact .rests hc (hcycle.trans hc) (.inr hof)
  | some c =>
    exact .proceeds c c hc (hcycle.trans hc) rfl rfl (fun _ => id) (.inl hof)
      (.inr fun id hid => by simp [hof] at hid) hopen

end Turns

theorem not_concludes_receive {cycle : CycleId} {answer : Except RequestError Bytes}
    {result : Except ExchangeError FetchOutcome} (h : x.receive cycle answer = (y, result))
    (hresult : ∀ notice, result ≠ .ok (.complete notice)) (id : CycleId) :
    ¬ x.Concludes (.receive cycle answer) id := by
  rintro ⟨answer', notice, heq, hcomplete⟩
  obtain ⟨rfl, rfl⟩ := Call.receive.inj heq
  rw [h] at hcomplete
  exact hresult notice hcomplete

theorem receive_turns {cycle : CycleId} {answer : Except RequestError Bytes}
    {result : Except ExchangeError FetchOutcome} (h : x.receive cycle answer = (y, result))
    (hfatal : ∀ e, result ≠ .error (.fatal e)) : x.Turns (.receive cycle answer) y := by
  rcases receive_cases h with ⟨rfl, rfl⟩ | ⟨c, handle, hc, rfl, -, ⟨e, -, rfl, rfl⟩ |
    ⟨record, next, -, ⟨z, e, -, -, he⟩ | ⟨z, himport, hadvance⟩⟩⟩
  · exact .of_same rfl rfl (not_concludes_receive h (by simp))
  · exact .fails c hc rfl (.inl rfl) (not_concludes_receive h (by simp))
  · exact absurd he (hfatal e)
  have hof : ∀ id ∈ x.cycleOf? (.receive c.id answer), id = c.id := by simp [cycleOf?]
  obtain ⟨d, hd, -⟩ := importRecord_cycle (x := x.answered c) (c := { c with inFlight := none }) rfl
    record
  rw [himport] at hd
  obtain ⟨c', hc', hid, hbefore, htouched, hget⟩ := (importRecord_accounts himport).cycle d hd
  obtain rfl := Option.some.inj hc'
  rcases advance_cases hadvance with ⟨hnone, -⟩ | ⟨d', hd', hcases⟩
  · exact absurd (hd.symm.trans hnone) (by simp)
  obtain rfl := Option.some.inj (hd.symm.trans hd')
  rcases hcases with ⟨rfl, rfl⟩ | ⟨rfl, rfl⟩ | ⟨rfl, rfl⟩
  · exact .fails c hc rfl (.inr hof) (not_concludes_receive h (by simp))
  · refine .completes c hc rfl ⟨answer, _, rfl, by rw [h]⟩ fun k hnoted hdiff => ?_
    have hbefore : (d.follow next).before = c.before := (d.follow_before next).trans hbefore
    have hkept (hout : k ∉ (d.follow next).touched) :
        z.repository.bytes? k = (d.follow next).before.bytes? k := by
      rw [d.follow_touched] at hout
      rw [hbefore, ← hnoted fun hk => hout (htouched k hk)]
      exact congrArg (Option.map Record.bytes) (hget k List.not_mem_nil hout)
    obtain ⟨n, hn, hlists⟩ := completion_lists (x := { z with cycle := some (d.follow next) }) hkept
      (by rwa [hbefore])
    exact ⟨n, by simpa only [noticed, h] using hn, hlists⟩
  · refine .proceeds c (d.follow next) hc rfl ((d.follow_id next).trans hid)
      ((d.follow_before next).trans hbefore) (fun k hk => ?_) (.inr fun k hk => ?_) (.inr hof)
      (not_concludes_receive h (by simp))
    · rw [d.follow_touched]
      exact htouched k hk
    · rw [d.follow_touched] at hk
      exact hget k List.not_mem_nil hk

theorem call?_turns (hcall : x.call? call = some y) : x.Turns call y := by
  have hopen (hcall : ∀ cycle answer, call ≠ .receive cycle answer) (id : CycleId) :
      ¬ x.Concludes call id := fun ⟨answer, _, heq, _⟩ => hcall id answer heq
  cases call with
  | resync =>
    obtain rfl := Option.some.inj hcall
    obtain ⟨d, hd, -⟩ := x.beginResync_undisturbed.cycle_eq_some rfl
    obtain ⟨c, hc, hid, hbefore, -, hget⟩ := x.beginResync_accounts.cycle d hd
    obtain rfl := Option.some.inj hc
    exact .begins d hd hid hbefore (fun k hk => hget k List.not_mem_nil hk)
      (.inr (congrArg some hid.symm)) (hopen (by simp))
  | fetch handles =>
    obtain rfl := Option.some.inj hcall
    have hopen := hopen (by simp)
    rcases x.beginFetch_cases handles with ⟨c, hc, heq⟩ | ⟨-, heq⟩ | ⟨-, phase, heq⟩
    · rw [heq]
      exact .proceeds c _ hc rfl rfl rfl (fun _ => id) (.inl rfl) (.inl rfl) hopen
    · rw [heq]
      exact .of_same rfl rfl hopen
    · rw [heq]
      exact .begins _ rfl rfl rfl (fun _ _ => rfl) (.inl rfl) hopen
  | request =>
    obtain rfl := Option.some.inj hcall
    have hopen := hopen (by simp)
    rcases x.nextRequest_cases with heq | heq | ⟨c, handle, rest, phase, hc, -, -, heq⟩
    · rw [heq]
      exact .of_same rfl rfl hopen
    · rw [heq]
      cases hc : x.cycle with
      | none => exact .rests hc rfl (.inl rfl)
      | some c => exact .fails c hc rfl (.inl rfl) hopen
    · rw [heq]
      exact .proceeds c _ hc rfl rfl rfl (fun _ => id) (.inl rfl) (.inl rfl) hopen
  | receive cycle answer =>
    obtain ⟨result, hreceive, hfatal⟩ := call?_receive hcall
    exact receive_turns hreceive hfatal
  | forget handles =>
    obtain rfl := Option.some.inj hcall
    exact .of_outside rfl (forget_aside x handles).cycle (hopen (by simp))
  | hostDown =>
    obtain rfl := Option.some.inj hcall
    exact .of_outside rfl x.invalidateTermini_aside.cycle (hopen (by simp))
  | link up =>
    obtain rfl := Option.some.inj hcall
    exact .of_same rfl rfl (hopen (by simp))

/-- No cycle runs once one has completed. -/
theorem Concludes.idle (hx : x.Concludes call id) (hcall : x.call? call = some y) :
    y.cycle = none := by
  cases call?_turns hcall with
  | rests _ hy | fails _ _ hy | completes _ _ hy => exact hy
  | begins d hy hid hbefore hnoted hof hopen => exact absurd hx (hopen id)
  | proceeds c d hc hy hid hbefore htouched hnoted hof hopen => exact absurd hx (hopen id)

/-- What is left of a run will neither lose nor hide the content that is due under a handle between
cycles: it is what the repository had when the running cycle began, if that one completes, and what
the repository has otherwise. -/
structure Owes (x : Exchange) (calls : List Call) (h : RecordHandle) (b : Option Bytes) : Prop where
  numbered : x.Numbered
  noted : ∀ c, x.cycle = some c → h ∉ c.touched →
    x.repository.bytes? h = c.before.bytes? h
  ending : ∀ c, x.cycle = some c → x.Ends calls c.id → c.before.bytes? h = b
  other : (∀ c, x.cycle = some c → ¬ x.Ends calls c.id) → x.repository.bytes? h = b

/-- A call that does not stray leaves the record as it is, unless its cycle completes. -/
theorem bytes?_of_kept (hcall : x.call? call = some y) (hkept : ¬ x.Strays call later h)
    (hof : y.repository = x.repository ∨ ∀ id ∈ x.cycleOf? call, ¬ x.Ends (call :: later) id) :
    y.repository.bytes? h = x.repository.bytes? h := by
  rcases hof with hsame | hof
  · rw [hsame]
  · by_contra hdiff
    exact hkept ⟨y, hcall, hdiff, hof⟩

/-- A call that neither announces the handle nor strays leaves what is due. -/
theorem Owes.call? (hx : x.Owes (call :: later) h b) (hcall : x.call? call = some y)
    (hquiet : ¬ x.Announces call h) (hkept : ¬ x.Strays call later h) : y.Owes later h b := by
  have hproceeds := call?_proceeds hcall
  have hstill := bytes?_of_kept hcall hkept
  have hnumbered := hproceeds.numbered hx.numbered
  -- a cycle that does not run any more does not complete later
  have hover {c : Cycle} (hopen : ∀ id, ¬ x.Concludes call id) (hc : x.cycle = some c)
      (hy : ∀ d, y.cycle = some d → d.id ≠ c.id) : ¬ x.Ends (call :: later) c.id := by
    have hpast : y.Past c.id := ⟨Nat.lt_of_lt_of_le (hx.numbered c hc) hproceeds.next, hy⟩
    rw [ends_cons hcall, not_or]
    exact ⟨hopen c.id, hpast.not_ends⟩
  have hvain {c : Cycle} (hc : x.cycle = some c) (hnot : ¬ x.Ends (call :: later) c.id)
      (hof : y.repository = x.repository ∨ ∀ id ∈ x.cycleOf? call, id = c.id) :
      y.repository.bytes? h = b := by
    have hother : x.repository.bytes? h = b := hx.other fun c' hc' => by
      obtain rfl := Option.some.inj (hc.symm.trans hc')
      exact hnot
    refine (hstill (hof.imp_right fun hown id hid => ?_)).trans hother
    rw [hown id hid]
    exact hnot
  cases call?_turns hcall with
  | rests hidle hy hof =>
    have hother : x.repository.bytes? h = b := hx.other fun c hc => by simp [hidle] at hc
    refine ⟨hnumbered, fun d hd => by simp [hy] at hd, fun d hd => by simp [hy] at hd, fun _ => ?_⟩
    exact (hstill (hof.imp_right fun hnone id hid => by simp [hnone] at hid)).trans hother
  | begins d hy hid hbefore hnoted hof hopen =>
    have hother : x.repository.bytes? h = b := hx.other fun c hc => hover hopen hc fun d' hd' => by
      obtain rfl := Option.some.inj (hy.symm.trans hd')
      exact hid ▸ (Nat.ne_of_lt (hx.numbered c hc)).symm
    refine ⟨hnumbered, fun d' hd' hout => ?_, fun d' hd' _ => ?_, fun hnot => ?_⟩
    · obtain rfl := Option.some.inj (hy.symm.trans hd')
      rw [hbefore]
      exact congrArg (Option.map Record.bytes) (hnoted h hout)
    · obtain rfl := Option.some.inj (hy.symm.trans hd')
      rw [hbefore, hother]
    · refine (hstill (hof.imp_right fun hsome id hid hends => ?_)).trans hother
      obtain rfl : d.id = id := Option.some.inj (hsome.symm.trans hid)
      exact ((ends_cons hcall).mp hends).elim (hopen d.id) (hnot d hy)
  | proceeds c d hc hy hid hbefore htouched hnoted hof hopen =>
    refine ⟨hnumbered, fun d' hd' hout => ?_, fun d' hd' hends => ?_, fun hnot => ?_⟩
    · obtain rfl := Option.some.inj (hy.symm.trans hd')
      rw [hbefore, ← hx.noted c hc fun hmem => hout (htouched h hmem)]
      rcases hnoted with hnone | hget
      · exact hstill (.inr fun id hid => by simp [hnone] at hid)
      · exact congrArg (Option.map Record.bytes) (hget h hout)
    · obtain rfl := Option.some.inj (hy.symm.trans hd')
      rw [hbefore]
      exact hx.ending c hc ((ends_cons hcall).mpr (.inr (hid ▸ hends)))
    · have hnot : ¬ x.Ends (call :: later) c.id := by
        rw [ends_cons hcall, not_or]
        exact ⟨hopen c.id, hid ▸ hnot d hy⟩
      exact hvain hc hnot hof
  | fails c hc hy hof hopen =>
    have hnot := hover hopen hc fun d hd => by simp [hy] at hd
    exact ⟨hnumbered, fun d hd => by simp [hy] at hd, fun d hd => by simp [hy] at hd,
      fun _ => hvain hc hnot hof⟩
  | completes c hc hy hends hlists =>
    refine ⟨hnumbered, fun d hd => by simp [hy] at hd, fun d hd => by simp [hy] at hd, fun _ => ?_⟩
    rw [← hx.ending c hc (hends.ends later)]
    by_contra hdiff
    exact hquiet (hlists h (hx.noted c hc) hdiff)

/-- Nothing is announced of the handle, and no call strays from it. -/
def Quiet (x : Exchange) (calls : List Call) (h : RecordHandle) : Prop :=
  ∀ u call later, x.ComesTo calls u (call :: later) → ¬ u.Announces call h ∧ ¬ u.Strays call later h

/-- In a quiet run that begins between cycles the record is the same whenever no cycle runs. -/
theorem bytes?_of_quiet (hx : x.Numbered) (hidle : x.cycle = none) (hquiet : x.Quiet calls h)
    (hy : x.ComesTo calls y later) (hyidle : y.cycle = none) :
    y.repository.bytes? h = x.repository.bytes? h := by
  suffices howes : y.Owes later h (x.repository.bytes? h) from
    howes.other fun c hc => by simp [hyidle] at hc
  have hstart : x.Owes calls h (x.repository.bytes? h) :=
    ⟨hx, fun c hc => by simp [hidle] at hc, fun c hc => by simp [hidle] at hc, fun _ => rfl⟩
  clear hidle hx
  generalize x.repository.bytes? h = b at hstart ⊢
  induction calls generalizing x with
  | nil =>
    obtain ⟨done, heq, hrun⟩ := hy
    obtain ⟨rfl, rfl⟩ := List.nil_eq_append_iff.mp heq
    obtain rfl := Option.some.inj hrun
    exact hstart
  | cons call calls ih =>
    rcases hy.cases with ⟨rfl, rfl⟩ | ⟨mid, hcall, hmid⟩
    · exact hstart
    · obtain ⟨hnothing, hkept⟩ := hquiet x call calls (.refl x _)
      exact ih (fun u next later hu => hquiet u next later (hu.step hcall)) hmid
        (hstart.call? hcall hnothing hkept)

/-- A notice of the run lists the handle, and from then on the record is what it is in the end
whenever no cycle runs. -/
def Reported (x : Exchange) (calls : List Call) (h : RecordHandle) (b : Option Bytes) : Prop :=
  ∃ u call later v, x.ComesTo calls u (call :: later) ∧ u.call? call = some v ∧ u.Announces call h ∧
    ∀ w left, v.ComesTo later w left → w.cycle = none → w.repository.bytes? h = b

/-- A call changes the record outside of the cycles that complete, and no notice lists the handle
from then on. -/
def Unreported (x : Exchange) (calls : List Call) (h : RecordHandle) : Prop :=
  ∃ u call later v, x.ComesTo calls u (call :: later) ∧ u.call? call = some v ∧
    u.Strays call later h ∧ ∀ w next left, v.ComesTo later w (next :: left) → ¬ w.Announces next h

/-- Between cycles, what has become of a record since the start has been reported, or it has been
changed outside of the cycles that complete since it was reported. -/
theorem reported_or_unreported {settings : ExchangeSettings} {names : EntityNames} {r : Repository}
    {t : Containment} (hrun : (start settings names r t).run? calls = some x)
    (hidle : x.cycle = none) (hchanged : x.repository.bytes? h ≠ r.bytes? h) :
    (start settings names r t).Reported calls h (x.repository.bytes? h) ∨
      (start settings names r t).Unreported calls h := by
  rcases ComesTo.none_or_last (E := fun u call later => u.Announces call h ∨ u.Strays call later h)
    hrun with hnone | ⟨u, call, later, v, hu, hcall, hlater, hlast, hnone⟩
  · have hstart : (start settings names r t).run? [] = some (start settings names r t) := rfl
    exact absurd (bytes?_of_quiet (run?_numbered hstart) rfl
      (fun u call later hu => not_or.mp (hnone u call later hu)) (.last hrun) hidle) hchanged
  have hquiet : v.Quiet later h := fun w next left hw => not_or.mp (hnone w next left hw)
  rcases hlast with hannounces | hstrays
  · obtain ⟨done, -, hdone⟩ := id hu
    obtain ⟨id, hconcludes⟩ := hannounces.concludes
    have hv : v.Numbered := (call?_proceeds hcall).numbered (run?_numbered hdone)
    have hvidle : v.cycle = none := hconcludes.idle hcall
    have hend : x.repository.bytes? h = v.repository.bytes? h :=
      bytes?_of_quiet hv hvidle hquiet (.last hlater) hidle
    refine .inl ⟨u, call, later, v, hu, hcall, hannounces, fun w left hw hwidle => ?_⟩
    exact (bytes?_of_quiet hv hvidle hquiet hw hwidle).trans hend.symm
  · exact .inr ⟨u, call, later, v, hu, hcall, hstrays,
      fun w next left hw => (hquiet w next left hw).1⟩

/-- Whenever a cycle completes, every record that has changed since the start has been reported, and
has been the same since whenever no cycle was running, unless it has been changed outside of the
cycles that complete. -/
theorem changes_announced {settings : ExchangeSettings} {names : EntityNames} {r : Repository}
    {t : Containment} {answer : Except RequestError Bytes} {notice : Option ChangeNotice}
    (hrun : (start settings names r t).run? calls = some x)
    (hcomplete : x.receive id answer = (y, .ok (.complete notice)))
    (hchanged : y.repository.bytes? h ≠ r.bytes? h) :
    (start settings names r t).Reported (calls ++ [.receive id answer]) h (y.repository.bytes? h) ∨
      (start settings names r t).Unreported (calls ++ [.receive id answer]) h := by
  have hcall : x.call? (.receive id answer) = some y := call?_of_receive hcomplete
  have hidle : y.cycle = none :=
    Concludes.idle ⟨answer, notice, rfl, congrArg Prod.snd hcomplete⟩ hcall
  refine reported_or_unreported (run?_append hrun ?_) hidle hchanged
  rw [run?, hcall]
  rfl

/-- The host reports a sensor, and its record is announced when the cycle completes. -/
theorem changes_announced_sensor :
    let started := start .standard ⟨[]⟩ default default
    let x := (started.beginFetch [5]).1.nextRequest.1
    let answer := .receive 0 (.ok (sensorAnswer 5 RecordHandle.terminator))
    let answered := x.receive 0 (.ok (sensorAnswer 5 RecordHandle.terminator))
    started.run? [.fetch [5], .request] = some x ∧
      answered.2 = .ok (.complete (some ⟨[0x01000000], [], []⟩)) ∧
      answered.1.repository.bytes? 0x01000000 ≠ (default : Repository).bytes? 0x01000000 ∧
      (started.Reported [.fetch [5], .request, answer] 0x01000000
          (answered.1.repository.bytes? 0x01000000) ∨
        started.Unreported [.fetch [5], .request, answer] 0x01000000) := by
  intro started x answer answered
  have hrun : started.run? [.fetch [5], .request] = some x := rfl
  have hcomplete : answered.2 = .ok (.complete (some ⟨[0x01000000], [], []⟩)) := by decide +kernel
  have hchanged : answered.1.repository.bytes? 0x01000000 ≠
      (default : Repository).bytes? 0x01000000 := by decide +kernel
  exact ⟨hrun, hcomplete, hchanged, changes_announced hrun (Prod.ext rfl hcomplete) hchanged⟩

/-- One sensor is stored by a cycle that fails. The next cycle completes with another sensor, and
none of the notices lists the first one. -/
theorem changes_unannounced_after_failure :
    let seeded := (Containment.empty.addRoot ⟨11521, 1, 0⟩ .own).1
    let started := start Configuration.standard.settings ⟨[]⟩ (.empty .localDefault .hostDefault) seeded
    let calls : List Call := [.resync, .request, .receive 0 (.ok (sensorAnswer 5 6)), .request,
      .receive 0 (.error (.timeout ⟨9⟩ 3)), .fetch [7], .request]
    let answer := sensorAnswer 7 RecordHandle.terminator
    Configuration.standard.seed = .ok (.empty .localDefault .hostDefault, seeded) ∧
    ∃ x, started.run? calls = some x ∧
      (x.receive 1 (.ok answer)).2 = .ok (.complete (some ⟨[0x01000001], [], []⟩)) ∧
      (x.receive 1 (.ok answer)).1.repository.bytes? 0x01000000 ≠
        (Repository.empty .localDefault .hostDefault).bytes? 0x01000000 ∧
      ∀ u call later, started.ComesTo (calls ++ [.receive 1 (.ok answer)]) u (call :: later) →
        ¬ u.Announces call 0x01000000 := by
  intro seeded started calls answer
  have hrun : (started.run? calls).any (fun x =>
      (x.receive 1 (.ok answer)).2 = .ok (.complete (some ⟨[0x01000001], [], []⟩)) ∧
      (x.receive 1 (.ok answer)).1.repository.bytes? 0x01000000 ≠
        (Repository.empty .localDefault .hostDefault).bytes? 0x01000000) = true := by
    decide +kernel
  have hsilent : ∀ n ∈ started.announced (calls ++ [.receive 1 (.ok answer)]),
      ¬ n.Lists 0x01000000 := by
    decide +kernel
  obtain ⟨x, hx, hfacts⟩ := (Option.any_eq_true _ _).mp hrun
  obtain ⟨hcomplete, hchanged⟩ := of_decide_eq_true hfacts
  refine ⟨rfl, x, hx, hcomplete, hchanged, fun u call later hu hannounces => ?_⟩
  obtain ⟨n, hn, hlists⟩ := mem_announced hu hannounces
  exact hsilent n hn hlists

end Exchange
end DescriptorExchange
