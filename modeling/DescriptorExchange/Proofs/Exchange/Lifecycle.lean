import DescriptorExchange.Proofs.Exchange.Correlation

/-!
The life of a cycle. The phase, the counters and the running cycle are changed in different places,
and still fit together after every call: each cycle that has begun is completed, aborted or running,
the phase says whether one runs, and one that runs has something to ask for or to wait for.
-/
namespace DescriptorExchange

namespace Mark

/-- The number of the next cycle counts the cycles that have been seen to begin. -/
theorem Moves.length_begun {p q : Standpoint} {seen : List Mark} (h : Moves p seen q) :
    q.1 = p.1 + (seen.filterMap begun?).length := by
  induction h with
  | rest p => rfl
  | begin next running => rfl
  | ask next id => rfl
  | answer next id => rfl
  | stop next id waits => rfl
  | trans hpq hqr ihpq ihqr =>
    rw [List.filterMap_append, List.length_append, ihqr, ihpq, Nat.add_assoc]

end Mark

/-- The phases in which a cycle runs. -/
def Phase.Running (phase : Phase) : Prop :=
  phase = .awaitingFirstRecord ∨ ∃ handle, phase = .fetchingRecord handle

/-- The phases in which none does. -/
def Phase.Resting (phase : Phase) : Prop :=
  phase = .idle ∨ ∃ e, phase = .aborted e ∧ e ≠ .hostDown

theorem Phase.Resting.not_running {phase : Phase} (h : phase.Resting) : ¬ phase.Running := by
  rintro (hfirst | ⟨handle, hfetching⟩)
  · simp [Resting, hfirst] at h
  · simp [Resting, hfetching] at h

theorem Cycle.pending_ne_nil {c : Cycle} :
    c.pending ≠ [] ↔ (∃ handle, c.inFlight = some handle) ∨ c.queue ≠ [] := by
  cases hflight : c.inFlight <;> simp [pending, hflight]

namespace Exchange

open Mark

variable {x y : Exchange}

/-- The phase, and how many cycles have been completed and how many aborted. -/
def ledger (x : Exchange) : Phase × Nat × Nat := (x.phase, x.counts.completed, x.counts.aborted)

theorem ledger_eq_iff {phase : Phase} {completed aborted : Nat} :
    x.ledger = (phase, completed, aborted) ↔
      x.phase = phase ∧ x.counts.completed = completed ∧ x.counts.aborted = aborted := by
  simp only [ledger, Prod.mk.injEq]

theorem mergeChild_ledger (x : Exchange) (node : NodeId) (parent : Entity) (kind : UInt8)
    (child : Entity) : (x.mergeChild node parent kind child).1.ledger = x.ledger :=
  mergeChild_induction (p := fun y => y.ledger = x.ledger) rfl
    (fun _ placement _ => by cases placement <;> rfl) (fun _ _ _ _ _ _ hy => hy) fun _ _ hy => hy

theorem merge_ledger (x : Exchange) (h : RecordHandle) (a : Association) :
    (x.merge h a).1.ledger = x.ledger :=
  merge_induction (p := fun y => y.ledger = x.ledger) rfl rfl
    (fun node parent y child hy => (mergeChild_ledger y node parent a.kind child).trans hy)
    fun _ _ hy => hy

theorem unmerge_ledger (x : Exchange) (k : RecordHandle) (child : Entity) :
    (x.unmerge k child).1.ledger = x.ledger := by
  obtain ⟨tree, repository, notices, h⟩ := x.unmerge_eq k child
  rw [h]
  rfl

theorem retractMerges_ledger (x : Exchange) : x.retractMerges.1.ledger = x.ledger :=
  retractImports_induction (p := fun y => y.ledger = x.ledger)
    (fun _ _ k _ y child hy => (unmerge_ledger y k child).trans hy) rfl

theorem dropImport_ledger (x : Exchange) (h : RecordHandle) :
    (x.dropImport h).1.ledger = x.ledger := by
  simp only [dropImport]
  split
  next => rfl
  next k _ =>
    rcases dropStored_cases { x with imports := x.imports.erase h } k with
      ⟨-, heq⟩ | ⟨termini, sensor, heq⟩
    · rw [heq]
      rfl
    · rw [heq]
      rfl
  next parent children k _ =>
    have hundone :
        (unmergeAll k children { x with imports := x.imports.erase h }).1.ledger = x.ledger :=
      unmergeAll_induction (p := fun y => y.ledger = x.ledger)
        (fun y child hy => (unmerge_ledger y k child).trans hy) children rfl
    split
    next heq => simpa [heq] using hundone
    next heq => simpa [heq] using hundone

theorem forget_ledger (x : Exchange) (handles : List RecordHandle) :
    (x.forget handles).1.ledger = x.ledger := by
  have hdropped : (dropImports handles x).1.ledger = x.ledger :=
    dropImports_induction (p := fun y => y.ledger = x.ledger)
      (fun y h hy => (dropImport_ledger y h).trans hy) handles rfl
  unfold forget
  split
  next heq => simpa [heq] using hdropped
  next y touched sensors heq =>
    rw [heq] at hdropped
    cases sensors <;> exact hdropped

theorem classify_ledger (x : Exchange) (header : RecordHeader) (record : Bytes) :
    (x.classify header record).1.ledger = x.ledger := by
  rcases classify_uniform header record with hskip | ⟨⟨_, a⟩, -, hmerge⟩ | ⟨note, -, hstore⟩
  · rw [hskip]
    rfl
  · rw [hmerge]
    exact merge_ledger x header.handle a
  · rw [hstore]
    unfold store
    split <;> rfl

theorem importRecord_ledger (x : Exchange) (record : Bytes) :
    (x.importRecord record).1.ledger = x.ledger := by
  rcases x.importRecord_cases record with ⟨e, -, heq⟩ | ⟨header, body, -, hcases⟩
  · rw [heq]
    rfl
  have hforget : ((x.see header.handle).forget [header.handle]).1.ledger = x.ledger :=
    forget_ledger (x.see header.handle) [header.handle]
  rcases hcases with ⟨-, heq⟩ | ⟨-, ⟨y, e, hfails, heq⟩ | ⟨y, touched, hforgot, heq⟩⟩
  · rw [heq]
    exact classify_ledger (x.see header.handle) header record
  · rw [heq]
    rwa [hfails] at hforget
  · rw [heq]
    rw [hforgot] at hforget
    exact (classify_ledger (y.touch touched.toList) header record).trans hforget

/-- A resync counts the cycle it cuts short as aborted. -/
theorem beginResync_ledger (x : Exchange) :
    x.beginResync.1.ledger = (.awaitingFirstRecord, x.counts.completed,
      x.counts.aborted + if x.isBusy then 1 else 0) := by
  have hretracted :=
    congrArg Prod.snd (retractMerges_ledger (x.startCycle .chain [RecordHandle.terminator]).1)
  exact Prod.ext rfl hretracted

/-- A cycle runs and is counted neither as completed nor as aborted. -/
structure Open (x : Exchange) : Prop where
  accounted : x.nextCycle = x.counts.completed + x.counts.aborted + 1
  phase : x.phase.Running

/-- What phase, counters and running cycle have to do with one another. -/
structure InStep (x : Exchange) : Prop where
  accounted : x.nextCycle = x.counts.completed + x.counts.aborted + if x.isBusy then 1 else 0
  running : ∀ c, x.cycle = some c → x.phase.Running ∧ c.pending ≠ []
  resting : x.cycle = none → x.phase.Resting

theorem Open.congr (h : Open x) (hnext : y.nextCycle = x.nextCycle) (hledger : y.ledger = x.ledger) :
    Open y := by
  obtain ⟨hphase, hcompleted, haborted⟩ := ledger_eq_iff.mp hledger
  exact ⟨by rw [hnext, hcompleted, haborted, h.accounted], hphase ▸ h.phase⟩

theorem Open.inStep {c : Cycle} (h : Open x) (hc : x.cycle = some c) (hleft : c.pending ≠ []) :
    InStep x where
  accounted := by
    rw [isBusy, hc]
    exact h.accounted
  running d hd := by
    obtain rfl := Option.some.inj (hc.symm.trans hd)
    exact ⟨h.phase, hleft⟩
  resting hnone := by simp [hc] at hnone

/-- However a cycle is aborted, everything is in step. A host that went down leaves no cause. -/
theorem Open.abort (h : Open x) (e : ExchangeError) : InStep (x.abort e) where
  accounted := h.accounted
  running c hc := by simp [Exchange.abort] at hc
  resting _ := by
    by_cases hdown : e = .hostDown
    · exact .inl (if_pos hdown)
    · exact .inr ⟨e, if_neg hdown, hdown⟩

theorem Open.completed (h : Open x) : InStep x.completed where
  accounted := by
    show x.nextCycle = x.counts.completed + 1 + x.counts.aborted
    rw [h.accounted, Nat.add_right_comm]
  running d hd := by simp [Exchange.completed] at hd
  resting _ := .inl rfl

/-- Going on after a record leaves something to ask for or ends the cycle. -/
theorem Open.advance {c : Cycle} (h : Open x) (hc : x.cycle = some c) (next : RecordHandle) :
    InStep (x.advance next).1 := by
  rw [advance_eq hc]
  split_ifs with hloop hempty
  · exact h.abort (.chainLoop next)
  · have hfollowed : Open { x with cycle := some (c.follow next) } := h.congr rfl rfl
    exact hfollowed.completed
  · have hfollowed : Open { x with cycle := some (c.follow next) } := h.congr rfl rfl
    have hleft : (c.follow next).queue ≠ [] := fun hnil => hempty (by rw [hnil]; rfl)
    exact hfollowed.inStep rfl (Cycle.pending_ne_nil.mpr (.inr hleft))

namespace InStep

/-- While a cycle runs it is open. -/
theorem isOpen {c : Cycle} (h : InStep x) (hc : x.cycle = some c) : Open x := by
  have haccounted := h.accounted
  rw [isBusy, hc] at haccounted
  exact ⟨haccounted, (h.running c hc).1⟩

theorem start (settings : ExchangeSettings) (names : EntityNames) (repository : Repository)
    (tree : Containment) : InStep (start settings names repository tree) :=
  ⟨rfl, fun c hc => by simp [Exchange.start] at hc, fun _ => .inl rfl⟩

theorem undisturbed (h : InStep x) (hxy : Undisturbed x y) (hledger : y.ledger = x.ledger) :
    InStep y := by
  have hnext : y.nextCycle = x.nextCycle := congrArg Prod.fst hxy.fixed
  cases hy : y.cycle with
  | some d =>
    obtain ⟨c, hc, hagenda⟩ := hxy.of_cycle_eq_some hy
    have hpending : d.pending = c.pending :=
      congrArg (fun a => a.2.2.2.1.toList ++ a.2.2.1) hagenda.symm
    exact ((h.isOpen hc).congr hnext hledger).inStep hy (hpending ▸ (h.running c hc).2)
  | none =>
    have hx : x.cycle = none := by
      have hagenda := hxy.agenda
      rwa [hy, Option.map_none, eq_comm, Option.map_eq_none_iff] at hagenda
    obtain ⟨hphase, hcompleted, haborted⟩ := ledger_eq_iff.mp hledger
    have haccounted := h.accounted
    refine ⟨?_, fun d hd => by simp [hy] at hd, fun _ => hphase ▸ h.resting hx⟩
    rw [isBusy, hx] at haccounted
    rw [isBusy, hy, hnext, hcompleted, haborted, haccounted]

theorem beginResync (h : InStep x) : InStep x.beginResync.1 := by
  have hundisturbed := x.beginResync_undisturbed
  obtain ⟨c, hc, hagenda⟩ := hundisturbed.cycle_eq_some rfl
  have hqueue : c.queue = [RecordHandle.terminator] := congrArg (fun a => a.2.2.1) hagenda
  obtain ⟨hphase, hcompleted, haborted⟩ := ledger_eq_iff.mp x.beginResync_ledger
  have hopen : Open x.beginResync.1 := by
    refine ⟨?_, .inl hphase⟩
    have hnext : x.beginResync.1.nextCycle = x.nextCycle + 1 :=
      congrArg Prod.fst hundisturbed.fixed
    rw [hnext, hcompleted, haborted, h.accounted, Nat.add_assoc x.counts.completed]
  exact hopen.inStep hc (Cycle.pending_ne_nil.mpr (.inr (by simp [hqueue])))

theorem beginFetch (h : InStep x) (handles : List RecordHandle) :
    InStep (x.beginFetch handles).1 := by
  unfold Exchange.beginFetch
  cases hc : x.cycle with
  | some c =>
    have hjoined {queue : List RecordHandle} (hleft : c.queue ≠ [] → queue ≠ []) :
        InStep { x with cycle := some { c with queue } } := by
      have hopen : Open { x with cycle := some { c with queue } } := (h.isOpen hc).congr rfl rfl
      have hpending := Cycle.pending_ne_nil.mp (h.running c hc).2
      exact hopen.inStep rfl (Cycle.pending_ne_nil.mpr (hpending.imp_right hleft))
    exact hjoined fun hqueue => by simp [hqueue]
  | none =>
    dsimp only
    generalize handles.filter (· ≠ RecordHandle.terminator) = wanted
    cases wanted with
    | nil => exact h
    | cons first rest =>
      have haccounted := h.accounted
      rw [isBusy, hc] at haccounted
      have hopen : Open { (x.startCycle .listed (first :: rest)).1 with
          phase := .fetchingRecord first } := by
        refine ⟨?_, .inr ⟨first, rfl⟩⟩
        show x.nextCycle + 1 =
          x.counts.completed + (x.counts.aborted + if x.cycle.isSome then 1 else 0) + 1
        rw [haccounted, hc]
        rfl
      exact hopen.inStep rfl (Cycle.pending_ne_nil.mpr (.inr (by simp)))

theorem nextRequest (h : InStep x) : InStep x.nextRequest.1 := by
  unfold Exchange.nextRequest
  cases hc : x.cycle with
  | none => exact h
  | some c =>
    have hopen := h.isOpen hc
    dsimp only
    split_ifs with hup
    · split
      next handle rest hflight hqueue =>
        have hasked (phase : Phase) (hphase : phase.Running) : InStep { x with
            cycle := some { c with
              queue := rest, inFlight := some handle, seen := c.seen.insert handle }
            phase } := by
          have hopen' : Open { x with
              cycle := some { c with
                queue := rest, inFlight := some handle, seen := c.seen.insert handle }
              phase } := ⟨hopen.accounted, hphase⟩
          exact hopen'.inStep rfl (Cycle.pending_ne_nil.mpr (.inl ⟨handle, rfl⟩))
        refine hasked _ ?_
        split_ifs
        · exact hopen.phase
        · exact .inr ⟨handle, rfl⟩
      next => exact h
    · exact hopen.abort .hostDown

theorem receive (h : InStep x) (cycle : CycleId) (answer : Except RequestError Bytes) :
    InStep (x.receive cycle answer).1 := by
  obtain ⟨y, result, hreceive⟩ : ∃ y result, x.receive cycle answer = (y, result) := ⟨_, _, rfl⟩
  rw [hreceive]
  rcases receive_cases hreceive with ⟨rfl, -⟩ | ⟨c, handle, hc, -, -, hcases⟩
  · exact h.undisturbed ⟨rfl, rfl⟩ rfl
  have hanswered : Open (x.answered c) := (h.isOpen hc).congr rfl rfl
  have himported (record : Bytes) : Open ((x.answered c).importRecord record).1 := by
    have hfixed := (importRecord_undisturbed (x.answered c) record).standpoint_eq
    rw [standpoint_noted] at hfixed
    exact hanswered.congr (congrArg Prod.fst hfixed) (importRecord_ledger _ record)
  rcases hcases with ⟨e, -, rfl, -⟩ | ⟨record, next, -, ⟨z, e, himport, rfl, -⟩ | ⟨z, himport, hadvance⟩⟩
  · exact hanswered.abort e
  · have hz := himported record
    rw [himport] at hz
    exact hz.abort (.fatal e)
  · have hz := himported record
    obtain ⟨d, hd, -⟩ := importRecord_cycle (x := x.answered c) rfl record
    rw [himport] at hz hd
    have hy := hz.advance hd next
    rwa [hadvance] at hy

/-- Every call keeps phase, counters and cycle in step. -/
theorem after (h : InStep x) (call : Call) : InStep (x.after call) := by
  cases call with
  | resync => exact h.beginResync
  | fetch handles => exact h.beginFetch handles
  | request => exact h.nextRequest
  | receive cycle answer => exact h.receive cycle answer
  | forget handles =>
    exact h.undisturbed (forget_aside x handles).undisturbed (forget_ledger x handles)
  | hostDown =>
    have hledger : x.invalidateTermini.1.ledger = x.ledger := by rw [invalidateTermini_fst]; rfl
    exact h.undisturbed x.invalidateTermini_aside.undisturbed hledger
  | link up => exact ⟨h.accounted, h.running, h.resting⟩

/-- A cycle that runs and awaits no answer has something to ask for. -/
theorem asks {c : Cycle} (h : InStep x) (hc : x.cycle = some c) (hflight : c.inFlight = none) :
    c.queue ≠ [] ∧ x.nextRequest.2 ≠ .ok none := by
  have hqueue : c.queue ≠ [] := by
    have hpending := Cycle.pending_ne_nil.mp (h.running c hc).2
    simpa [hflight] using hpending
  refine ⟨hqueue, ?_⟩
  obtain ⟨handle, rest, hcons⟩ := List.exists_cons_of_ne_nil hqueue
  cases hup : x.hostUp with
  | true =>
    obtain ⟨phase, heq⟩ := nextRequest_of_queue hup hc hflight hcons
    simp [heq]
  | false => simp [Exchange.nextRequest, hc, hup]

end InStep

/-- After any calls each cycle that has begun is completed, aborted or the one that runs. One runs
just if the phase says so; otherwise the exchange is idle or was aborted, and not because the host
went down. A cycle that runs awaits an answer, or has something to ask for and asks for it when it is
called on. -/
theorem cycles_in_step (settings : ExchangeSettings) (names : EntityNames) (repository : Repository)
    (tree : Containment) (calls : List Call) :
    let x := start settings names repository tree
    let y := x.afterAll calls
    ((x.history calls).filterMap begun?).length =
        y.counts.completed + y.counts.aborted + (if y.isBusy then 1 else 0) ∧
      (y.isBusy = true ↔ y.phase = .awaitingFirstRecord ∨ ∃ handle, y.phase = .fetchingRecord handle) ∧
      (y.isBusy = false ↔ y.phase = .idle ∨ ∃ e, y.phase = .aborted e ∧ e ≠ .hostDown) ∧
      ∀ c, y.cycle = some c → (∃ handle, c.inFlight = some handle) ∨
        (c.queue ≠ [] ∧ y.nextRequest.2 ≠ .ok none) := by
  intro x y
  have hy : InStep y :=
    afterAll_induction (p := InStep) (fun _ call hp (_ : True) => hp.after call)
      (fun _ _ => trivial) (InStep.start settings names repository tree)
  have hbegun : y.nextCycle = ((x.history calls).filterMap begun?).length := by
    have hmoves : y.nextCycle = x.nextCycle + _ := (afterAll_moves calls x).length_begun
    exact hmoves.trans (Nat.zero_add _)
  have hphase : (y.isBusy = true → y.phase.Running) ∧ (y.isBusy = false → y.phase.Resting) := by
    unfold isBusy
    cases hc : y.cycle with
    | none => exact ⟨by simp, fun _ => hy.resting hc⟩
    | some c => exact ⟨fun _ => (hy.running c hc).1, by simp⟩
  refine ⟨hbegun.symm.trans hy.accounted, ⟨hphase.1, fun hruns => ?_⟩, ⟨hphase.2, fun hrests => ?_⟩,
    fun c hc => ?_⟩
  · by_contra hidle
    exact (hphase.2 (Bool.eq_false_iff.mpr hidle)).not_running hruns
  · by_contra hbusy
    exact Phase.Resting.not_running hrests (hphase.1 (Bool.not_eq_false _ ▸ hbusy))
  · cases hflight : c.inFlight with
    | some handle => exact .inl ⟨handle, rfl⟩
    | none => exact .inr (hy.asks hc hflight)

end Exchange
end DescriptorExchange
