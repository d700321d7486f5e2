import DescriptorExchange.Proofs.Exchange.Agenda

/-!
Requests and answers, as an observer of the calls sees them. The calls may come in any order, with
any answers, and go on after an error. Cycles that begin have ascending numbers, the requests of a
cycle and the answers taken for it alternate, and an answer is taken only while the last thing seen
is a request of its cycle. Every other answer is dropped.
-/
namespace DescriptorExchange

/-- What is seen of the cycles. -/
inductive Mark where
  | begun (cycle : CycleId)
  | asked (cycle : CycleId)
  | taken (cycle : CycleId)
  /-- The running cycle is complete, or has been aborted. -/
  | ended
  deriving DecidableEq

namespace Mark

def begun? : Mark → Option CycleId
  | begun cycle => some cycle
  | _ => none

/-- The requests and answers of one cycle. -/
def turns (cycle : CycleId) (seen : List Mark) : List Mark :=
  seen.filter fun m => m = asked cycle ∨ m = taken cycle

/-- Requests and answers of one cycle take turns, and a request comes first. -/
def Alternate (cycle : CycleId) (turns : List Mark) : Prop :=
  ∀ k m, turns[k]? = some m → m = if k % 2 = 0 then asked cycle else taken cycle

/-- What a cycle shows next: a request, or an answer if it awaits one. -/
def due (cycle : CycleId) : Bool → Mark
  | false => asked cycle
  | true => taken cycle

/-- The number of the next cycle, and the running cycle with whether an answer is awaited. -/
abbrev Standpoint := CycleId × Option (CycleId × Bool)

/-- How calls move the cycles on, and what is seen of it. -/
inductive Moves : Standpoint → List Mark → Standpoint → Prop
  | rest (p : Standpoint) : Moves p [] p
  | begin (next : CycleId) (running : Option (CycleId × Bool)) :
      Moves (next, running) [begun next] (next + 1, some (next, false))
  | ask (next id : CycleId) : Moves (next, some (id, false)) [asked id] (next, some (id, true))
  | answer (next id : CycleId) :
      Moves (next, some (id, true)) [taken id] (next, some (id, false))
  | stop (next id : CycleId) (waits : Bool) : Moves (next, some (id, waits)) [ended] (next, none)
  | trans {p q r : Standpoint} {seen more : List Mark} (hpq : Moves p seen q)
      (hqr : Moves q more r) : Moves p (seen ++ more) r

/-- What has been seen fits to where the cycles stand. -/
structure Fits (p : Standpoint) (seen : List Mark) : Prop where
  ascending : (seen.filterMap begun?).Pairwise (· < ·)
  begun_lt : ∀ id ∈ seen.filterMap begun?, id < p.1
  running_lt : ∀ id waits, p.2 = some (id, waits) → id < p.1
  unborn : ∀ id, p.1 ≤ id → turns id seen = []
  alternate : ∀ id, Alternate id (turns id seen)
  parity : ∀ id waits, p.2 = some (id, waits) →
    (turns id seen).length % 2 = if waits then 1 else 0
  last : ∀ id, seen.getLast? = some (asked id) ↔ p.2 = some (id, true)

theorem alternate_append {cycle : CycleId} {l : List Mark} {m : Mark} (hl : Alternate cycle l)
    (hm : m = if l.length % 2 = 0 then asked cycle else taken cycle) :
    Alternate cycle (l ++ [m]) := by
  intro k n hk
  rw [List.getElem?_append] at hk
  split_ifs at hk with hlt
  · exact hl k n hk
  · obtain ⟨hzero, rfl⟩ : k - l.length = 0 ∧ m = n := by
      rw [List.getElem?_singleton] at hk
      split_ifs at hk with hzero
      exact ⟨hzero, Option.some.inj hk⟩
    obtain rfl : k = l.length := by omega
    exact hm

theorem turns_append (cycle : CycleId) (seen more : List Mark) :
    turns cycle (seen ++ more) = turns cycle seen ++ turns cycle more := List.filter_append ..

namespace Fits

variable {next id : CycleId} {running : Option (CycleId × Bool)} {waits : Bool} {seen : List Mark}

/-- Where nothing has been seen no cycle has begun. -/
theorem nil : Fits (0, none) [] where
  ascending := .nil
  begun_lt := by simp
  running_lt := by simp
  unborn _ _ := rfl
  alternate _ k m hk := by simp [turns] at hk
  parity := by simp
  last := by simp

theorem begin (h : Fits (next, running) seen) :
    Fits (next + 1, some (next, false)) (seen ++ [begun next]) where
  ascending := by
    rw [List.filterMap_append]
    exact List.pairwise_append.mpr ⟨h.ascending, List.pairwise_singleton .., by
      simpa [begun?] using h.begun_lt⟩
  begun_lt id hid := by
    rw [List.filterMap_append, List.mem_append] at hid
    rcases hid with hid | hid
    · exact Nat.lt_succ_of_lt (h.begun_lt id hid)
    · obtain rfl : id = next := by simpa [begun?] using hid
      exact Nat.lt_succ_self id
  running_lt id waits hrun := by
    obtain ⟨rfl, -⟩ := Prod.mk.inj (Option.some.inj hrun)
    exact Nat.lt_succ_self _
  unborn id hle := by
    rw [turns_append, h.unborn id (Nat.le_of_succ_le hle)]
    rfl
  alternate id := by
    rw [turns_append]
    exact (List.append_nil (turns id seen)).symm ▸ h.alternate id
  parity id waits hrun := by
    obtain ⟨rfl, rfl⟩ := Prod.mk.inj (Option.some.inj hrun)
    rw [turns_append, h.unborn next (Nat.le_refl _)]
    rfl
  last id := by simp

/-- A request while none is outstanding, or the answer to the one that is. -/
theorem turn (h : Fits (next, some (id, waits)) seen) :
    Fits (next, some (id, !waits)) (seen ++ [due id waits]) := by
  have hturns (i : CycleId) : turns i [due id waits] = if i = id then [due id waits] else [] := by
    by_cases hi : i = id
    · cases waits <;> simp [turns, due, hi]
    · cases waits <;> simp [turns, due, hi, Ne.symm hi]
  have hbegun : (seen ++ [due id waits]).filterMap begun? = seen.filterMap begun? := by
    cases waits <;> simp [due, begun?]
  have hlt : id < next := h.running_lt id waits rfl
  refine ⟨hbegun ▸ h.ascending, hbegun ▸ h.begun_lt, fun i w hrun => ?_, fun i hle => ?_,
    fun i => ?_, fun i w hrun => ?_, fun i => ?_⟩
  · obtain ⟨rfl, -⟩ := Prod.mk.inj (Option.some.inj hrun)
    exact hlt
  · have hne : i ≠ id := fun heq => Nat.not_lt.mpr hle (heq ▸ hlt)
    rw [turns_append, h.unborn i hle, hturns, if_neg hne]
    rfl
  · rw [turns_append, hturns]
    split_ifs with hi
    · obtain rfl := hi
      refine alternate_append (h.alternate i) ?_
      rw [h.parity i waits rfl]
      cases waits <;> rfl
    · rw [List.append_nil]
      exact h.alternate i
  · obtain ⟨rfl, rfl⟩ := Prod.mk.inj (Option.some.inj hrun)
    have hparity := h.parity id waits rfl
    rw [turns_append, hturns, if_pos rfl, List.length_append, List.length_singleton]
    cases waits <;> simp at hparity ⊢ <;> omega
  · cases waits <;> simp [due]

theorem stop (h : Fits (next, some (id, waits)) seen) : Fits (next, none) (seen ++ [ended]) where
  ascending := by simpa [List.filterMap_append, List.filterMap_cons, begun?] using h.ascending
  begun_lt := by simpa [List.filterMap_append, List.filterMap_cons, begun?] using h.begun_lt
  running_lt := by simp
  unborn i hle := by
    rw [turns_append, h.unborn i hle]
    rfl
  alternate i := by
    rw [turns_append]
    exact (List.append_nil (turns i seen)).symm ▸ h.alternate i
  parity := by simp
  last i := by simp

/-- Whatever moves the cycles on, what has been seen still fits. -/
theorem moves {p q : Standpoint} {more : List Mark} (hm : Moves p more q) {seen : List Mark}
    (h : Fits p seen) : Fits q (seen ++ more) := by
  induction hm generalizing seen with
  | rest p => simpa using h
  | begin next running => exact h.begin
  | ask next id => exact h.turn
  | answer next id => exact h.turn
  | stop next id waits => exact h.stop
  | trans hpq hqr ihpq ihqr =>
    rw [← List.append_assoc]
    exact ihqr (ihpq h)

end Fits
end Mark

namespace Exchange

open Mark

variable {x y : Exchange}

/-- What is seen of a call. -/
def marks (x : Exchange) : Call → List Mark
  | .resync => [begun x.beginResync.2]
  | .fetch handles => if x.isBusy then [] else ((x.beginFetch handles).2.map begun).toList
  | .request => match x.nextRequest.2 with
    | .ok asks => (asks.map fun f => asked f.cycle).toList
    | .error _ => [ended]
  | .receive cycle answer => match (x.receive cycle answer).2 with
    | .ok .stale => []
    | .ok .proceed => [taken cycle]
    | .ok (.complete _) => [taken cycle, ended]
    | .error _ => [taken cycle, ended]
  | .forget _ => []
  | .hostDown => []
  | .link _ => []

/-- What is seen of a sequence of calls, oldest first. -/
def history (x : Exchange) : List Call → List Mark
  | [] => []
  | call :: rest => x.marks call ++ (x.after call).history rest

def standpoint (x : Exchange) : Standpoint :=
  (x.nextCycle, x.cycle.map fun c => (c.id, c.inFlight.isSome))

theorem Undisturbed.standpoint_eq (h : Undisturbed x y) : y.standpoint = x.standpoint := by
  have hnext : y.nextCycle = x.nextCycle := congrArg Prod.fst h.fixed
  have hrunning := congrArg (Option.map fun a => (a.1, a.2.2.2.1.isSome)) h.agenda
  rw [Option.map_map, Option.map_map] at hrunning
  exact Prod.ext hnext hrunning

theorem standpoint_of_cycle {c : Cycle} (hc : x.cycle = some c) :
    x.standpoint = (x.nextCycle, some (c.id, c.inFlight.isSome)) := by
  rw [standpoint, hc]
  rfl

theorem standpoint_noted (x : Exchange) (record : Bytes) :
    (x.noted record).standpoint = x.standpoint := by
  unfold noted
  split
  · rfl
  · exact Prod.ext rfl (Option.map_map ..)

/-- Going on after a record ends the cycle or leaves it to ask for the next. -/
theorem advance_moves {c : Cycle} {next : RecordHandle}
    {result : Except ExchangeError FetchOutcome} (hc : x.cycle = some c)
    (h : x.advance next = (y, result)) :
    (result = .ok .proceed ∧ y.standpoint = x.standpoint) ∨
      (((∃ e, result = .error e) ∨ ∃ notice, result = .ok (.complete notice)) ∧
        y.standpoint = (x.nextCycle, none)) := by
  rcases advance_cases h with ⟨hnone, -⟩ | ⟨d, hd, ⟨rfl, rfl⟩ | ⟨rfl, rfl⟩ | ⟨rfl, rfl⟩⟩
  · simp [hnone] at hc
  · exact .inr ⟨.inl ⟨_, rfl⟩, rfl⟩
  · exact .inr ⟨.inr ⟨_, rfl⟩, rfl⟩
  · have hflight : (d.follow next).inFlight = d.inFlight := by
      unfold Cycle.follow
      split_ifs <;> rfl
    refine .inl ⟨rfl, ?_⟩
    rw [standpoint_of_cycle hd, standpoint_of_cycle rfl, Cycle.follow_id, hflight]

/-- An answer is dropped, or it is taken for the outstanding request of its cycle. -/
theorem receive_moves (x : Exchange) (cycle : CycleId) (answer : Except RequestError Bytes) :
    Moves x.standpoint (x.marks (.receive cycle answer)) (x.receive cycle answer).1.standpoint := by
  obtain ⟨y, result, h⟩ : ∃ y result, x.receive cycle answer = (y, result) := ⟨_, _, rfl⟩
  simp only [marks, h]
  rcases receive_cases h with ⟨rfl, rfl⟩ | ⟨c, handle, hc, rfl, hflight, hcases⟩
  · exact .rest x.standpoint
  have hbefore : x.standpoint = (x.nextCycle, some (c.id, true)) := by
    rw [standpoint_of_cycle hc, hflight]
    rfl
  have hanswer : Moves x.standpoint [taken c.id] (x.nextCycle, some (c.id, false)) :=
    hbefore ▸ .answer x.nextCycle c.id
  have hstop : Moves x.standpoint [taken c.id, ended] (x.nextCycle, none) :=
    hanswer.trans (.stop x.nextCycle c.id false)
  rcases hcases with ⟨e, -, rfl, rfl⟩ | ⟨record, next, -, hcases⟩
  · exact hstop
  have himported (z : Exchange) (hz : (((x.answered c).importRecord record).1 = z)) :
      z.standpoint = (x.nextCycle, some (c.id, false)) := by
    rw [← hz, (importRecord_undisturbed (x.answered c) record).standpoint_eq, standpoint_noted]
    rfl
  rcases hcases with ⟨z, e, himport, rfl, rfl⟩ | ⟨z, himport, hadvance⟩
  · have hz := himported z (congrArg Prod.fst himport)
    have hnext : z.nextCycle = x.nextCycle := congrArg Prod.fst hz
    have hafter : (z.abort (.fatal e)).standpoint = (x.nextCycle, none) := hnext ▸ rfl
    exact hafter ▸ hstop
  · have hz := himported z (congrArg Prod.fst himport)
    have hnext : z.nextCycle = x.nextCycle := congrArg Prod.fst hz
    obtain ⟨d, hd⟩ : ∃ d, z.cycle = some d := by
      obtain ⟨d, hd, -⟩ := importRecord_cycle (x := x.answered c) rfl record
      rw [himport] at hd
      exact ⟨d, hd⟩
    rcases advance_moves hd hadvance with ⟨rfl, hy⟩ | ⟨⟨e, rfl⟩ | ⟨notice, rfl⟩, hy⟩
    · rw [hy, hz]
      exact hanswer
    · rw [hy, hnext]
      exact hstop
    · rw [hy, hnext]
      exact hstop

/-- The answer to the outstanding request ends the cycle, or leaves it with something to ask for. -/
theorem receive_goes_on {c : Cycle} {handle : RecordHandle}
    {answer : Except RequestError Bytes} {result : Except ExchangeError FetchOutcome}
    (hc : x.cycle = some c) (hflight : c.inFlight = some handle)
    (h : x.receive c.id answer = (y, result)) :
    y.nextCycle = x.nextCycle ∧ ((y.cycle = none ∧ result ≠ .ok .proceed) ∨
      (result = .ok .proceed ∧
        ∃ d, y.cycle = some d ∧ d.id = c.id ∧ d.inFlight = none ∧ d.queue ≠ [])) := by
  have himported (record : Bytes) : ((x.answered c).importRecord record).1.nextCycle = x.nextCycle := by
    have hstandpoint := (importRecord_undisturbed (x.answered c) record).standpoint_eq
    exact congrArg Prod.fst (hstandpoint.trans (standpoint_noted _ record))
  rcases receive_of_inFlight hc hflight h with
    ⟨e, -, rfl, rfl⟩ | ⟨record, next, -, ⟨z, e, himport, rfl, rfl⟩ | ⟨z, himport, hadvance⟩⟩
  · exact ⟨rfl, .inl ⟨rfl, by simp⟩⟩
  · have hnext := himported record
    rw [himport] at hnext
    exact ⟨hnext, .inl ⟨rfl, by simp⟩⟩
  · have hnext := himported record
    obtain ⟨d, hd, hid, -, -, hnone, -⟩ := importRecord_cycle (x := x.answered c) rfl record
    rw [himport] at hnext hd
    rw [advance_eq hd] at hadvance
    have hidle : (d.follow next).inFlight = none := by
      unfold Cycle.follow
      split_ifs <;> exact hnone
    split_ifs at hadvance with hloop hempty
    · obtain ⟨rfl, rfl⟩ := Prod.mk.inj hadvance
      exact ⟨hnext, .inl ⟨rfl, by simp⟩⟩
    · obtain ⟨rfl, rfl⟩ := Prod.mk.inj hadvance
      exact ⟨hnext, .inl ⟨rfl, by simp⟩⟩
    · obtain ⟨rfl, rfl⟩ := Prod.mk.inj hadvance
      refine ⟨hnext, .inr ⟨rfl, d.follow next, rfl, (d.follow_id next).trans hid, hidle, ?_⟩⟩
      exact fun hqueue => hempty (by rw [hqueue]; rfl)

/-- An awaited answer is not dropped. -/
theorem receive_ne_stale {cycle : CycleId} {handle : RecordHandle}
    (hawaited : x.awaited? cycle = some handle) (answer : Except RequestError Bytes) :
    (x.receive cycle answer).2 ≠ .ok .stale := by
  obtain ⟨c, hc, rfl, hflight⟩ := awaited?_eq_some.mp hawaited
  intro hstale
  have hreceive : x.receive c.id answer = ((x.receive c.id answer).1, .ok .stale) :=
    Prod.ext rfl hstale
  rcases receive_of_inFlight hc hflight hreceive with
    ⟨e, -, -, hresult⟩ | ⟨record, next, -, ⟨z, e, -, -, hresult⟩ | ⟨z, himport, hadvance⟩⟩
  · simp at hresult
  · simp at hresult
  · obtain ⟨d, hd, -⟩ := importRecord_cycle (x := x.answered c) rfl record
    rw [himport] at hd
    rcases advance_moves hd hadvance with ⟨hresult, -⟩ | ⟨⟨e, hresult⟩ | ⟨notice, hresult⟩, -⟩
    · simp at hresult
    · simp at hresult
    · simp at hresult

/-- Every call moves the cycles on as what is seen of it says. -/
theorem after_moves (x : Exchange) (call : Call) :
    Moves x.standpoint (x.marks call) (x.after call).standpoint := by
  cases call with
  | resync =>
    have hafter := (beginResync_undisturbed x).standpoint_eq
    rw [after, hafter]
    exact .begin x.nextCycle _
  | fetch handles =>
    rcases x.beginFetch_cases handles with
      ⟨c, hc, heq⟩ | ⟨hc, heq⟩ | ⟨hc, phase, heq⟩
    · have hafter : (x.after (.fetch handles)).standpoint = x.standpoint := by
        rw [after, heq, standpoint_of_cycle hc]
        rfl
      rw [hafter, marks, if_pos (by simp [isBusy, hc])]
      exact .rest x.standpoint
    · rw [after, marks, heq, if_neg (by simp [isBusy, hc])]
      exact .rest x.standpoint
    · rw [after, marks, heq, if_neg (by simp [isBusy, hc])]
      exact .begin x.nextCycle _
  | request =>
    rw [after, marks]
    rcases x.nextRequest_cases with heq | heq | ⟨c, handle, rest, phase, hc, hflight, -, heq⟩
    · rw [heq]
      exact .rest x.standpoint
    · -- A cycle was running: without one nothing would have been asked of the link.
      obtain ⟨c, hc⟩ : ∃ c, x.cycle = some c := by
        cases hc : x.cycle with
        | none => simp [nextRequest, hc] at heq
        | some c => exact ⟨c, rfl⟩
      rw [heq, standpoint_of_cycle hc]
      exact .stop x.nextCycle c.id _
    · rw [heq, standpoint_of_cycle hc, hflight]
      exact .ask x.nextCycle c.id
  | receive cycle answer => exact receive_moves x cycle answer
  | forget handles =>
    rw [after, (forget_aside x handles).undisturbed.standpoint_eq]
    exact .rest x.standpoint
  | hostDown =>
    rw [after, x.invalidateTermini_aside.undisturbed.standpoint_eq]
    exact .rest x.standpoint
  | link up => exact .rest x.standpoint

/-- And so does every sequence of calls. -/
theorem afterAll_moves (calls : List Call) (x : Exchange) :
    Moves x.standpoint (x.history calls) (x.afterAll calls).standpoint := by
  induction calls generalizing x with
  | nil => exact .rest x.standpoint
  | cons call rest ih => exact (x.after_moves call).trans (ih (x.after call))

/-- Cycles begin with ascending numbers. Within a cycle requests and answers alternate, and a
request comes first. After any calls an answer is taken just if the last thing seen is a request of
its cycle, and any other answer changes nothing but the count of dropped answers. -/
theorem requests_and_answers_alternate (settings : ExchangeSettings) (names : EntityNames)
    (repository : Repository) (tree : Containment) (calls : List Call) :
    let x := start settings names repository tree
    ((x.history calls).filterMap begun?).Pairwise (· < ·) ∧
      (∀ cycle, Alternate cycle (turns cycle (x.history calls))) ∧
      ∀ cycle answer,
        let y := x.afterAll calls
        if (x.history calls).getLast? = some (asked cycle) then
          (y.receive cycle answer).2 ≠ .ok .stale
        else
          y.receive cycle answer = ({ y with counts.stale := y.counts.stale + 1 }, .ok .stale) := by
  intro x
  have hfits : Fits (x.afterAll calls).standpoint (x.history calls) :=
    Fits.nil.moves (afterAll_moves calls x)
  refine ⟨hfits.ascending, hfits.alternate, fun cycle answer => ?_⟩
  intro y
  have hlast : (x.history calls).getLast? = some (asked cycle) ↔ (y.awaited? cycle).isSome := by
    rw [hfits.last, Option.isSome_iff_exists]
    simp only [awaited?_eq_some, standpoint, Option.map_eq_some_iff, Prod.mk.injEq,
      Option.isSome_iff_exists]
    grind
  split_ifs with hseen
  · obtain ⟨handle, hawaited⟩ := Option.isSome_iff_exists.mp (hlast.mp hseen)
    exact receive_ne_stale hawaited answer
  · exact receive_of_stray (by simpa [hlast] using hseen) answer

end Exchange
end DescriptorExchange
