import DescriptorExchange.Coordinator
import DescriptorExchange.Proofs.Exchange.Correlation
import Mathlib.Logic.Relation

/-!
No cycle is left alone. Items are posted, requests end and the coordinator goes on in any order, and
as long as somebody holds it a running cycle is attended to: either its one request is outstanding or
the answer to it waits in the inbox, or a step waits there that will make the next request.
-/
namespace DescriptorExchange

/-- The cycle whose request an item answers. -/
def Posting.answers? : Posting → Option CycleId
  | .response cycle _ => some cycle
  | _ => none

/-- What others than the coordinator post. -/
def Posting.isOutside : Posting → Bool
  | .step | .response .. => false
  | _ => true

namespace Coordinator

variable {c d : Coordinator} {x : Exchange} {p : Posting} {cycle : Cycle}

/-- The requests of a cycle that are outstanding or have an answer in the inbox. -/
def underway (c : Coordinator) (id : CycleId) : Nat :=
  c.fetches.count id + (c.inbox.filterMap Posting.answers?).count id

theorem underway_post (c : Coordinator) (p : Posting) (id : CycleId) :
    ({ c with inbox := c.inbox ++ [p] } : Coordinator).underway id =
      c.underway id + if p.answers? = some id then 1 else 0 := by
  cases hp : p.answers? <;> simp [underway, hp, List.count_singleton, Nat.add_assoc]

theorem underway_cons (c : Coordinator) (p : Posting) (id : CycleId) :
    ({ c with inbox := p :: c.inbox } : Coordinator).underway id =
      c.underway id + if p.answers? = some id then 1 else 0 := by
  cases hp : p.answers? <;> simp [underway, hp, List.count_cons, Nat.add_assoc]

/-- As long as somebody holds the coordinator, a step can be posted. -/
theorem schedule_of_held (hheld : c.held = true) :
    c.schedule = { c with inbox := c.inbox ++ [.step] } := by
  simp [schedule, live, hheld]

/-- What can happen next. -/
inductive Happens : Coordinator → Coordinator → Prop
  | posted {c d : Coordinator} {p : Posting} (houtside : p.isOutside) (h : c.post? p = some d) :
      Happens c d
  | processed {c d : Coordinator} {effects : List Effect} (h : c.process = some (d, effects)) :
      Happens c d
  | fetched {c : Coordinator} {id : CycleId} (hid : id ∈ c.fetches)
      (answer : Except RequestError Bytes) :
      Happens c (c.fetched id answer)
  /-- The link to the host is shared with others. -/
  | linked (c : Coordinator) (up : Bool) : Happens c { c with exchange := c.exchange.setLink up }
  | released (c : Coordinator) : Happens c c.release

/-- A cycle waits for its one request, or it has something to ask for and a step is to come. -/
def Attends (c : Coordinator) (cycle : Cycle) : Prop :=
  (cycle.inFlight.isSome ∧ c.underway cycle.id = 1) ∨
    (cycle.inFlight = none ∧ c.underway cycle.id = 0 ∧ cycle.queue ≠ [] ∧ Posting.step ∈ c.inbox)

/-- The running cycle is attended to, and no request belongs to a cycle that has not begun. -/
structure Attended (c : Coordinator) : Prop where
  begun : ∀ id, 0 < c.underway id → id < c.exchange.nextCycle
  running : ∀ cycle, c.exchange.cycle = some cycle →
    cycle.id < c.exchange.nextCycle ∧ c.Attends cycle

namespace Attended

/-- The exchange is as it was, and so is what is under way. -/
theorem of_same (h : c.Attended) (hexchange : d.exchange = c.exchange)
    (hunder : ∀ id, d.underway id = c.underway id)
    (hstep : Posting.step ∈ c.inbox → Posting.step ∈ d.inbox) : d.Attended := by
  refine ⟨fun id hid => hexchange ▸ h.begun id (hunder id ▸ hid), fun cycle hc => ?_⟩
  obtain ⟨hlt, hattends⟩ := h.running cycle (hexchange ▸ hc)
  refine ⟨hexchange ▸ hlt, hattends.imp ?_ ?_⟩
  · rintro ⟨hsome, hone⟩
    exact ⟨hsome, (hunder _).trans hone⟩
  · rintro ⟨hnone, hzero, hleft, hin⟩
    exact ⟨hnone, (hunder _).trans hzero, hleft, hstep hin⟩

/-- Nothing is asked for and the cycle goes on as it would have, but may have more to ask for. -/
theorem replace (h : c.Attended) (hnext : x.nextCycle = c.exchange.nextCycle)
    (hcycle : ∀ cycle, x.cycle = some cycle → ∃ before, c.exchange.cycle = some before ∧
      cycle.id = before.id ∧ cycle.inFlight = before.inFlight ∧
      (before.queue ≠ [] → cycle.queue ≠ [])) :
    Attended { c with exchange := x } := by
  refine ⟨fun id hid => hnext.symm ▸ h.begun id hid, fun cycle hc => ?_⟩
  obtain ⟨before, hbefore, hid, hflight, hqueue⟩ := hcycle cycle hc
  obtain ⟨hlt, hattends⟩ := h.running before hbefore
  refine ⟨hnext.symm ▸ hid ▸ hlt, ?_⟩
  rcases hattends with ⟨hsome, hone⟩ | ⟨hnone, hzero, hleft, hstep⟩
  · exact .inl ⟨hflight ▸ hsome, hid ▸ hone⟩
  · exact .inr ⟨hflight.trans hnone, hid ▸ hzero, hqueue hleft, hstep⟩

/-- The cycle has ended. -/
theorem ended (h : c.Attended) (hnext : x.nextCycle = c.exchange.nextCycle) (hcycle : x.cycle = none) :
    Attended { c with exchange := x } :=
  h.replace hnext fun cycle hc => by simp [hcycle] at hc

/-- A cycle has begun, under a number of its own, and a step is to come. -/
theorem begins (h : c.Attended) (hheld : c.held = true)
    (hnext : x.nextCycle = c.exchange.nextCycle + 1) (hcycle : x.cycle = some cycle)
    (hid : cycle.id = c.exchange.nextCycle) (hflight : cycle.inFlight = none)
    (hqueue : cycle.queue ≠ []) : Attended (schedule { c with exchange := x }) := by
  have hheld : ({ c with exchange := x } : Coordinator).held = true := hheld
  rw [schedule_of_held hheld]
  have hunder (id : CycleId) : ({ c with exchange := x, inbox := c.inbox ++ [.step] } :
      Coordinator).underway id = c.underway id := underway_post c .step id
  refine ⟨fun id hunderway => ?_, fun other hother => ?_⟩
  · rw [hunder] at hunderway
    exact hnext.symm ▸ Nat.lt_succ_of_lt (h.begun id hunderway)
  · obtain rfl := Option.some.inj (hcycle.symm.trans hother)
    have hnew : c.underway cycle.id = 0 := by
      by_contra hne
      exact Nat.lt_irrefl _ (hid ▸ h.begun cycle.id (Nat.pos_of_ne_zero hne))
    refine ⟨?_, .inr ⟨hflight, (hunder _).trans hnew, hqueue, by simp⟩⟩
    rw [hid, hnext]
    exact Nat.lt_succ_self _

/-- An item that answers nothing is posted. -/
theorem post (h : c.Attended) (hanswer : p.answers? = none) :
    Attended { c with inbox := c.inbox ++ [p] } := by
  refine h.of_same rfl (fun id => ?_) fun hin => List.mem_append_left _ hin
  rw [underway_post, hanswer]
  rfl

theorem schedule (h : c.Attended) : c.schedule.Attended := by
  unfold Coordinator.schedule
  split_ifs
  · exact h.post rfl
  · exact h

/-- An item that is neither a step nor an answer is taken out of the inbox. -/
theorem of_cons (h : Attended { c with inbox := p :: c.inbox }) (hstep : p ≠ .step)
    (hanswer : p.answers? = none) : c.Attended := by
  refine h.of_same rfl (fun id => ?_) fun hin => (List.mem_cons.mp hin).resolve_left hstep.symm
  rw [underway_cons, hanswer]
  rfl

/-- The next request is made. A step that makes none was not needed. -/
theorem makeRequest (h : Attended { c with inbox := .step :: c.inbox }) (hheld : c.held = true) :
    c.makeRequest.1.Attended := by
  have hunder (id : CycleId) : ({ c with inbox := .step :: c.inbox } : Coordinator).underway id =
      c.underway id := underway_cons c .step id
  rcases c.exchange.nextRequest_cases with
    heq | heq | ⟨cycle, handle, rest, phase, hc, hflight, hqueue, heq⟩
  · have hmade : c.makeRequest.1 = c := by simp only [Coordinator.makeRequest, heq]
    rw [hmade]
    refine ⟨fun id hid => h.begun id (hunder id ▸ hid), fun cycle hc => ?_⟩
    obtain ⟨hlt, ⟨hsome, hone⟩ | ⟨hnone, -, hleft, -⟩⟩ := h.running cycle hc
    · exact ⟨hlt, .inl ⟨hsome, (hunder _).symm.trans hone⟩⟩
    · -- A cycle that waits for nothing and has something left makes a request or ends.
      obtain ⟨handle, rest, hqueue⟩ := List.exists_cons_of_ne_nil hleft
      cases hup : c.exchange.hostUp with
      | true =>
        obtain ⟨phase, hasks⟩ := Exchange.nextRequest_of_queue hup hc hnone hqueue
        simp [heq] at hasks
      | false => simp [Exchange.nextRequest, hc, hup] at heq
  · have hmade : c.makeRequest.1 = { c with exchange := c.exchange.abort .hostDown } := by
      simp only [Coordinator.makeRequest, heq]
    rw [hmade]
    exact ⟨fun id hid => h.begun id (hunder id ▸ hid), fun cycle hc => by simp [Exchange.abort] at hc⟩
  · obtain ⟨asked, hasked⟩ : ∃ asked : Cycle, asked = { cycle with
        queue := rest, inFlight := some handle, seen := cycle.seen.insert handle } := ⟨_, rfl⟩
    rw [← hasked] at heq
    have hmade : c.makeRequest.1 = { c with
        exchange := { c.exchange with cycle := some asked, phase }
        fetches := c.fetches ++ [cycle.id] } := by
      simp only [Coordinator.makeRequest, heq, live, hheld, Bool.true_or, if_true]
    obtain ⟨hlt, ⟨hsome, -⟩ | ⟨-, hzero, -⟩⟩ := h.running cycle hc
    · simp [hflight] at hsome
    have hcount (id : CycleId) : c.makeRequest.1.underway id =
        c.underway id + if cycle.id = id then 1 else 0 := by
      rw [hmade]
      simp only [underway, List.count_append, List.count_singleton, beq_iff_eq]
      omega
    have hone : c.makeRequest.1.underway cycle.id = 1 := by
      rw [hcount, if_pos rfl, ← hunder, hzero]
    rw [hmade] at hcount hone ⊢
    refine ⟨fun id hid => ?_, fun other hother => ?_⟩
    · rw [hcount] at hid
      by_cases hsame : cycle.id = id
      · exact hsame ▸ hlt
      · rw [if_neg hsame, Nat.add_zero, ← hunder] at hid
        exact h.begun id hid
    · obtain rfl := Option.some.inj hother
      have hid : asked.id = cycle.id := by rw [hasked]
      exact ⟨hid ▸ hlt, .inl ⟨by rw [hasked]; rfl, hid ▸ hone⟩⟩

/-- An answer that belongs to nothing is taken out of the inbox. The request of the running cycle, if
there is one, is still on its way. -/
theorem of_stray {id : CycleId} {answer : Except RequestError Bytes}
    (h : Attended { c with inbox := .response id answer :: c.inbox })
    (hstray : c.exchange.awaited? id = none) : c.Attended := by
  have hunder (i : CycleId) : ({ c with inbox := .response id answer :: c.inbox } :
      Coordinator).underway i = c.underway i + if some id = some i then 1 else 0 :=
    underway_cons c (.response id answer) i
  refine ⟨fun i hi => h.begun i (hunder i ▸ Nat.lt_of_lt_of_le hi (Nat.le_add_right _ _)),
    fun cycle hc => ?_⟩
  obtain ⟨hlt, hattends⟩ := h.running cycle hc
  have hother : some id ≠ some cycle.id := by
    intro heq
    obtain rfl := Option.some.inj heq
    rcases hattends with ⟨hsome, -⟩ | ⟨-, hzero, -⟩
    · obtain ⟨handle, hflight⟩ := Option.isSome_iff_exists.mp hsome
      have hawaited := Exchange.awaited?_eq_some.mpr ⟨cycle, hc, rfl, hflight⟩
      simp [hstray] at hawaited
    · simp [hunder] at hzero
  have hsame := hunder cycle.id
  rw [if_neg hother, Nat.add_zero] at hsame
  refine ⟨hlt, hattends.imp ?_ ?_⟩
  · rintro ⟨hsome, hone⟩
    exact ⟨hsome, hsame.symm.trans hone⟩
  · rintro ⟨hnone, hzero, hleft, hin⟩
    exact ⟨hnone, hsame.symm.trans hzero, hleft, (List.mem_cons.mp hin).resolve_left (by simp)⟩

/-- The answer to the one request of the running cycle is taken out of the inbox. -/
theorem of_awaited {answer : Except RequestError Bytes}
    (h : Attended { c with inbox := .response cycle.id answer :: c.inbox })
    (hc : c.exchange.cycle = some cycle) (hflight : cycle.inFlight.isSome) :
    cycle.id < c.exchange.nextCycle ∧ c.underway cycle.id = 0 ∧
      ∀ id, 0 < c.underway id → id < c.exchange.nextCycle := by
  have hunder (i : CycleId) : ({ c with inbox := .response cycle.id answer :: c.inbox } :
      Coordinator).underway i = c.underway i + if some cycle.id = some i then 1 else 0 :=
    underway_cons c (.response cycle.id answer) i
  obtain ⟨hlt, ⟨-, hone⟩ | ⟨hnone, -⟩⟩ := h.running cycle hc
  · rw [hunder, if_pos rfl] at hone
    refine ⟨hlt, Nat.succ.inj hone, fun i hi => h.begun i ?_⟩
    exact hunder i ▸ Nat.lt_of_lt_of_le hi (Nat.le_add_right _ _)
  · simp [hnone] at hflight

theorem takeResponse {id : CycleId} {answer : Except RequestError Bytes}
    (h : Attended { c with inbox := .response id answer :: c.inbox }) (hheld : c.held = true) :
    (c.takeResponse id answer).1.Attended := by
  obtain ⟨x, result, hreceive⟩ : ∃ x result, c.exchange.receive id answer = (x, result) :=
    ⟨_, _, rfl⟩
  cases hawaited : c.exchange.awaited? id with
  | none =>
    have hstray := Exchange.receive_of_stray hawaited answer
    simp only [Coordinator.takeResponse, hstray]
    exact (h.of_stray hawaited).replace rfl fun cycle hc => ⟨cycle, hc, rfl, rfl, fun hq => hq⟩
  | some handle =>
    obtain ⟨cycle, hc, rfl, hflight⟩ := Exchange.awaited?_eq_some.mp hawaited
    obtain ⟨hlt, hzero, hbegun⟩ := h.of_awaited hc (by rw [hflight]; rfl)
    obtain ⟨hnext, ⟨hnone, hproceed⟩ | ⟨rfl, left, hleft, hid, hidle, hqueue⟩⟩ :=
      Exchange.receive_goes_on hc hflight hreceive
    · have hended (state : RunState) : Attended { c with exchange := x, state } :=
        ⟨fun i hi => hnext.symm ▸ hbegun i hi, fun cycle hc => by simp [hnone] at hc⟩
      simp only [Coordinator.takeResponse, hreceive]
      rcases result with e | ⟨- | notice | -⟩
      · exact hended _
      · exact absurd rfl hproceed
      · exact hended c.state
      · exact hended c.state
    · -- The step for the next request is posted.
      have hheld : ({ c with exchange := x } : Coordinator).held = true := hheld
      simp only [Coordinator.takeResponse, hreceive]
      rw [schedule_of_held hheld]
      have hposted (i : CycleId) : ({ c with exchange := x, inbox := c.inbox ++ [.step] } :
          Coordinator).underway i = c.underway i := underway_post c .step i
      refine ⟨fun i hi => hnext.symm ▸ hbegun i (hposted i ▸ hi), fun other hother => ?_⟩
      obtain rfl := Option.some.inj (hleft.symm.trans hother)
      rw [hnext, hid]
      refine ⟨hlt, .inr ⟨hidle, ?_, hqueue, by simp⟩⟩
      rw [hposted, hid, hzero]

/-- A resync supersedes what is running. -/
theorem resync (h : c.Attended) (hheld : c.held = true) (hx : x.nextCycle = c.exchange.nextCycle) :
    Attended (Coordinator.schedule { c with exchange := x.beginResync.1 }) := by
  have hundisturbed := Exchange.beginResync_undisturbed x
  obtain ⟨cycle, hcycle, hagenda⟩ := hundisturbed.cycle_eq_some rfl
  simp only [Cycle.agenda, Prod.mk.injEq] at hagenda
  obtain ⟨hid, -, hqueue, hflight, -⟩ := hagenda
  have hnext : x.beginResync.1.nextCycle = c.exchange.nextCycle + 1 :=
    (congrArg Prod.fst hundisturbed.fixed).trans (congrArg (· + 1) hx)
  exact h.begins hheld hnext hcycle (hid.trans hx) hflight (by simp [hqueue])

theorem fetch (h : c.Attended) (hheld : c.held = true) (handles : List RecordHandle) :
    (c.perform (.fetch handles)).1.Attended := by
  rcases c.exchange.beginFetch_cases handles with ⟨cycle, hc, heq⟩ | ⟨-, heq⟩ | ⟨hc, phase, heq⟩
  · have hjoined : Attended { c with exchange := (c.exchange.beginFetch handles).1 } := by
      rw [heq]
      refine h.replace rfl fun joined hjoined => ?_
      obtain rfl := Option.some.inj hjoined
      exact ⟨cycle, hc, rfl, rfl, fun hqueue => by simp [hqueue]⟩
    rw [heq] at hjoined
    simp only [Coordinator.perform, heq]
    exact hjoined.schedule
  · simp only [Coordinator.perform, heq]
    exact h
  · have hwanted : handles.filter (· ≠ RecordHandle.terminator) ≠ [] := by
      intro hnone
      have hnothing : c.exchange.beginFetch handles = (c.exchange, none) := by
        unfold Exchange.beginFetch
        rw [hc]
        dsimp only
        rw [hnone]
      simp [hnothing] at heq
    simp only [Coordinator.perform, heq]
    exact h.begins hheld rfl rfl rfl rfl hwanted

theorem perform (h : Attended { c with inbox := p :: c.inbox }) (hheld : c.held = true) :
    (c.perform p).1.Attended := by
  have hsame {x : Exchange} (hx : c.Attended) (haside : x.nextCycle = c.exchange.nextCycle)
      (hcycle : x.cycle = c.exchange.cycle) : Attended { c with exchange := x } :=
    hx.replace haside fun cycle hc => ⟨cycle, hcycle ▸ hc, rfl, rfl, fun hq => hq⟩
  cases p with
  | resync => exact (h.of_cons (by simp) rfl).resync hheld rfl
  | fetch handles => exact (h.of_cons (by simp) rfl).fetch hheld handles
  | delete handles =>
    have haside := Exchange.forget_aside c.exchange handles
    exact hsame (h.of_cons (by simp) rfl) (congrArg Prod.fst haside.fixed) haside.cycle
  | hostDown =>
    have haside := Exchange.invalidateTermini_aside (c.exchange.setLink false)
    exact hsame (h.of_cons (by simp) rfl) (congrArg Prod.fst haside.fixed) haside.cycle
  | hostUp => exact (h.of_cons (by simp) rfl).resync hheld rfl
  | step => exact h.makeRequest hheld
  | response id answer => exact h.takeResponse hheld
  | serve ticket request => exact h.of_cons (by simp) rfl
  | stop =>
    have hleft := h.of_cons (by simp) rfl
    exact ⟨hleft.begun, hleft.running⟩

/-- The request of a cycle ends, and its answer takes its place. -/
theorem fetched {id : CycleId} (h : c.Attended) (hrunning : c.state = .running)
    (hid : id ∈ c.fetches) (answer : Except RequestError Bytes) : (c.fetched id answer).Attended := by
  have hfetched : c.fetched id answer = { c with
      inbox := c.inbox ++ [.response id answer], fetches := c.fetches.erase id } := by
    simp [Coordinator.fetched, post?, hrunning]
  rw [hfetched]
  refine h.of_same rfl (fun i => ?_) fun hin => List.mem_append_left _ hin
  have hpos : 0 < c.fetches.count id := List.count_pos_iff.mpr hid
  simp only [underway, List.filterMap_append, List.count_append, List.count_erase,
    List.filterMap_cons, List.filterMap_nil, Posting.answers?, List.count_singleton, beq_iff_eq]
  by_cases hi : id = i
  · subst hi
    simp only [if_true]
    omega
  · simp only [hi, if_false]
    omega

theorem perform_held (c : Coordinator) (p : Posting) : (c.perform p).1.held = c.held := by
  have hschedule (c : Coordinator) : (Coordinator.schedule c).held = c.held := by
    unfold Coordinator.schedule
    split_ifs <;> rfl
  cases p with
  | resync => exact hschedule _
  | hostUp => exact hschedule _
  | fetch handles =>
    simp only [Coordinator.perform]
    split
    · exact hschedule _
    · rfl
  | step =>
    simp only [Coordinator.perform, Coordinator.makeRequest]
    split
    · rfl
    · rfl
    · split_ifs <;> rfl
  | response id answer =>
    simp only [Coordinator.perform, Coordinator.takeResponse]
    split
    · rfl
    · exact hschedule _
    · rfl
    · rfl
  | delete handles => rfl
  | hostDown => rfl
  | serve ticket request => rfl
  | stop => rfl

/-- Whatever happens, a coordinator that still runs and is held attends to its cycle. -/
theorem happens (hstep : Happens c d) (h : c.state = .running → c.held = true → c.Attended)
    (hrunning : d.state = .running) (hheld : d.held = true) : d.Attended := by
  cases hstep with
  | @posted _ p houtside hpost =>
    unfold post? at hpost
    split_ifs at hpost with hstate
    obtain rfl := Option.some.inj hpost
    have hanswer : p.answers? = none := by
      cases p <;> simp [Posting.isOutside, Posting.answers?] at houtside ⊢
    exact (h hstate hheld).post hanswer
  | processed hprocess =>
    unfold process at hprocess
    split at hprocess
    next p rest hstate hinbox =>
      have hd : (Coordinator.perform { c with inbox := rest } p).1 = d :=
        congrArg Prod.fst (Option.some.inj hprocess)
      have hheld : c.held = true := by rwa [← hd, perform_held] at hheld
      have hc : { c with inbox := p :: rest } = c := by rw [← hinbox]
      have hbefore : Attended { c with inbox := p :: rest } := hc.symm ▸ h hstate hheld
      rw [← hd]
      exact Attended.perform hbefore hheld
    next =>
      split_ifs at hprocess
      obtain ⟨rfl, -⟩ := Prod.mk.inj (Option.some.inj hprocess)
      simp at hrunning
    next => simp at hprocess
  | @fetched id hid answer =>
    obtain ⟨hstate, hheld⟩ : c.state = .running ∧ c.held = true := by
      unfold Coordinator.fetched post? at hrunning hheld
      split_ifs at hrunning hheld with hstate
      · exact ⟨hstate, hheld⟩
      · exact ⟨hrunning, hheld⟩
    exact (h hstate hheld).fetched hstate hid answer
  | linked up =>
    exact (h hrunning hheld).replace rfl fun cycle hc => ⟨cycle, hc, rfl, rfl, fun hq => hq⟩
  | released => simp [release] at hheld

end Attended

/-- While the coordinator runs and somebody holds it, a running cycle is attended to, whatever has
happened since it was started over an exchange without a cycle. -/
theorem running_cycle_attended {surveys : Bool} (hidle : x.isBusy = false)
    (hrun : Relation.ReflTransGen Happens (start x surveys) c) (hrunning : c.state = .running)
    (hheld : c.held = true) (hc : c.exchange.cycle = some cycle) :
    (cycle.inFlight.isSome ∧ c.underway cycle.id = 1) ∨
      (cycle.inFlight = none ∧ c.underway cycle.id = 0 ∧ cycle.queue ≠ [] ∧
        Posting.step ∈ c.inbox) := by
  have hattended : c.state = .running → c.held = true → c.Attended := by
    clear hrunning hheld hc
    induction hrun with
    | refl =>
      have hnone : x.cycle = none := by simpa [Exchange.isBusy] using hidle
      exact fun _ _ => ⟨fun id hid => by simp [start, underway] at hid,
        fun cycle hc => by simp [start, hnone] at hc⟩
    | tail _ hstep ih => exact Attended.happens hstep ih
  exact ((hattended hrunning hheld).running cycle hc).2

/-- A resync supersedes one whose request is outstanding. The old request is left to itself, and a step
is to come for the new cycle. -/
theorem running_cycle_attended_superseded :
    let begun := start (Exchange.start .standard ⟨[]⟩ default default) false
    ∃ c cycle, Relation.ReflTransGen Happens begun c ∧ c.state = .running ∧ c.held = true ∧
      c.exchange.cycle = some cycle ∧ c.fetches = [0] ∧ cycle.id = 1 ∧
      ((cycle.inFlight.isSome ∧ c.underway cycle.id = 1) ∨
        (cycle.inFlight = none ∧ c.underway cycle.id = 0 ∧ cycle.queue ≠ [] ∧
          Posting.step ∈ c.inbox)) := by
  intro begun
  have hresync (c : Coordinator) (hstate : c.state = .running) :
      Happens c { c with inbox := c.inbox ++ [.resync] } :=
    .posted (p := .resync) rfl (by simp [post?, hstate])
  have hprocess (c : Coordinator) (p : Posting) (rest : List Posting) (hstate : c.state = .running)
      (hinbox : c.inbox = p :: rest) : Happens c (perform { c with inbox := rest } p).1 := by
    have hnext : c.process = some (perform { c with inbox := rest } p) := by
      simp only [process, hstate, hinbox]
    exact .processed hnext
  let first := (perform begun .resync).1
  let asked := (perform { first with inbox := [] } .step).1
  let second := (perform asked .resync).1
  have hrun : Relation.ReflTransGen Happens begun second :=
    .head (hresync begun rfl) (.head (hprocess _ .resync [] rfl rfl)
      (.head (hprocess first .step [] rfl rfl) (.head (hresync asked rfl)
        (.single (hprocess _ .resync [] rfl rfl)))))
  have hsecond : second.exchange.cycle.map (·.id) = some 1 := by decide +kernel
  obtain ⟨cycle, hc, hid⟩ := Option.map_eq_some_iff.mp hsecond
  exact ⟨second, cycle, hrun, rfl, rfl, hc, rfl, hid, running_cycle_attended rfl hrun rfl rfl hc⟩

end Coordinator
end DescriptorExchange
