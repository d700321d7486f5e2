import DescriptorExchange.Proofs.Exchange.Steps

/-!
Runs of the exchange: what can be asked of it from outside, and the state after a sequence of
calls. A fatal error ends a run, for nothing is asked of the exchange after it. A withdrawal that
fails does not. Against a host that does not change a cycle goes on in one way only, but for the
answers that are dropped.
-/
namespace DescriptorExchange.Exchange

inductive Call where
  | resync
  | fetch (handles : List RecordHandle)
  | request
  | receive (cycle : CycleId) (answer : Except RequestError Bytes)
  | forget (handles : List RecordHandle)
  | hostDown
  | link (up : Bool)

/-- Calls that only begin cycles and carry them on. -/
def Call.runsCycles : Call → Bool
  | forget _ | hostDown => false
  | _ => true

/-- The exchange after a call, unless the call ends in a fatal error. -/
def call? (x : Exchange) : Call → Option Exchange
  | .resync => some x.beginResync.1
  | .fetch handles => some (x.beginFetch handles).1
  | .request => some x.nextRequest.1
  | .receive cycle answer => match x.receive cycle answer with
    | (_, .error (.fatal _)) => none
    | (y, _) => some y
  | .forget handles => some (x.forget handles).1
  | .hostDown => some x.invalidateTermini.1
  | .link up => some (x.setLink up)

def run? (x : Exchange) : List Call → Option Exchange
  | [] => some x
  | call :: rest => (x.call? call).bind fun y => y.run? rest

/-- The exchange after a call, also after one that ends in a fatal error. -/
def after (x : Exchange) : Call → Exchange
  | .resync => x.beginResync.1
  | .fetch handles => (x.beginFetch handles).1
  | .request => x.nextRequest.1
  | .receive cycle answer => (x.receive cycle answer).1
  | .forget handles => (x.forget handles).1
  | .hostDown => x.invalidateTermini.1
  | .link up => x.setLink up

/-- The exchange after a sequence of calls, whatever becomes of them. -/
def afterAll (x : Exchange) (calls : List Call) : Exchange := calls.foldl after x

theorem call?_receive {x y : Exchange} {cycle : CycleId} {answer : Except RequestError Bytes}
    (h : x.call? (.receive cycle answer) = some y) :
    ∃ result, x.receive cycle answer = (y, result) ∧ ∀ e, result ≠ .error (.fatal e) := by
  simp only [call?] at h
  split at h
  next => simp at h
  next z result hno heq =>
    obtain rfl := Option.some.inj h
    exact ⟨result, heq, fun e he => hno e he⟩

theorem call?_of_receive {x y : Exchange} {cycle : CycleId} {answer : Except RequestError Bytes}
    {outcome : FetchOutcome} (h : x.receive cycle answer = (y, .ok outcome)) :
    x.call? (.receive cycle answer) = some y := by
  simp only [call?, h]

theorem after_of_call? {x y : Exchange} {call : Call} (h : x.call? call = some y) :
    x.after call = y := by
  cases call with
  | receive cycle answer =>
    obtain ⟨result, hreceive, -⟩ := call?_receive h
    exact congrArg Prod.fst hreceive
  | _ => exact Option.some.inj h

theorem run?_append {calls later : List Call} {x y z : Exchange} (hxy : x.run? calls = some y)
    (hyz : y.run? later = some z) :
    x.run? (calls ++ later) = some z := by
  induction calls generalizing x with
  | nil =>
    obtain rfl := Option.some.inj hxy
    exact hyz
  | cons call rest ih =>
    obtain ⟨mid, hcall, hrest⟩ := Option.bind_eq_some_iff.mp hxy
    exact Option.bind_eq_some_iff.mpr ⟨mid, hcall, ih hrest⟩

/-- What every call preserves, every run preserves. -/
theorem run?_induction {p : Exchange → Prop} {allowed : Call → Prop}
    (hstep : ∀ x y call, p x → allowed call → x.call? call = some y → p y) {calls : List Call}
    (hcalls : ∀ call ∈ calls, allowed call) {x y : Exchange} (hx : p x)
    (hrun : x.run? calls = some y) :
    p y := by
  induction calls generalizing x with
  | nil =>
    obtain rfl := Option.some.inj hrun
    exact hx
  | cons call rest ih =>
    obtain ⟨mid, hcall, hrest⟩ := Option.bind_eq_some_iff.mp hrun
    have hmid := hstep x mid call hx (hcalls call (by simp)) hcall
    exact ih (fun c hc => hcalls c (by simp [hc])) hmid hrest

/-- What every call preserves, every sequence of calls preserves. -/
theorem afterAll_induction {p : Exchange → Prop} {allowed : Call → Prop}
    (hstep : ∀ x call, p x → allowed call → p (x.after call)) {calls : List Call}
    (hcalls : ∀ call ∈ calls, allowed call) {x : Exchange} (hx : p x) : p (x.afterAll calls) := by
  induction calls generalizing x with
  | nil => exact hx
  | cons call rest ih =>
    have hfirst := hstep x call hx (hcalls call (by simp))
    exact ih (fun c hc => hcalls c (by simp [hc])) hfirst

@[simp] theorem afterAll_nil (x : Exchange) : x.afterAll [] = x := rfl

theorem afterAll_concat (x : Exchange) (calls : List Call) (call : Call) :
    x.afterAll (calls ++ [call]) = (x.afterAll calls).after call := List.foldl_append

theorem afterAll_split (x : Exchange) (done later : List Call) (call : Call) :
    x.afterAll (done ++ call :: later) = ((x.afterAll done).after call).afterAll later :=
  List.foldl_append

/-- The run comes to a state with some of its calls left. -/
def ComesTo (x : Exchange) (calls : List Call) (y : Exchange) (left : List Call) : Prop :=
  ∃ done, calls = done ++ left ∧ x.run? done = some y

namespace ComesTo

variable {x y z : Exchange} {calls left later : List Call} {call : Call}

theorem refl (x : Exchange) (calls : List Call) : x.ComesTo calls x calls := ⟨[], rfl, rfl⟩

theorem step (h : y.ComesTo calls z left) (hcall : x.call? call = some y) :
    x.ComesTo (call :: calls) z left := by
  obtain ⟨done, rfl, hrun⟩ := h
  exact ⟨call :: done, rfl, by rw [run?, hcall]; exact hrun⟩

theorem last (hrun : x.run? calls = some y) : x.ComesTo calls y [] :=
  ⟨calls, (List.append_nil calls).symm, hrun⟩

theorem append (h : x.ComesTo calls z left) (later : List Call) :
    x.ComesTo (calls ++ later) z (left ++ later) := by
  obtain ⟨done, rfl, hrun⟩ := h
  exact ⟨done, List.append_assoc .., hrun⟩

/-- A state that a run comes to after its first call. -/
theorem cases (h : x.ComesTo (call :: calls) z left) :
    (z = x ∧ left = call :: calls) ∨ ∃ y, x.call? call = some y ∧ y.ComesTo calls z left := by
  obtain ⟨done, heq, hrun⟩ := h
  cases done with
  | nil =>
    obtain rfl := Option.some.inj hrun
    exact .inl ⟨rfl, heq.symm⟩
  | cons first rest =>
    obtain ⟨rfl, rfl⟩ := List.cons.inj heq
    obtain ⟨y, hcall, hrest⟩ := Option.bind_eq_some_iff.mp hrun
    exact .inr ⟨y, hcall, rest, rfl, hrest⟩

/-- A run in which something happens has a call at which it happens last. -/
theorem none_or_last {E : Exchange → Call → List Call → Prop} (hrun : x.run? calls = some y) :
    (∀ u call later, x.ComesTo calls u (call :: later) → ¬ E u call later) ∨
      ∃ u call later v, x.ComesTo calls u (call :: later) ∧ u.call? call = some v ∧
        v.run? later = some y ∧ E u call later ∧
        ∀ w next left, v.ComesTo later w (next :: left) → ¬ E w next left := by
  induction calls generalizing x with
  | nil =>
    refine .inl fun u call later hu => ?_
    obtain ⟨done, heq, -⟩ := hu
    simp at heq
  | cons first rest ih =>
    obtain ⟨mid, hcall, hrest⟩ := Option.bind_eq_some_iff.mp hrun
    rcases ih hrest with hnone | ⟨u, call, later, v, hu, hlast⟩
    · by_cases hfirst : E x first rest
      · exact .inr ⟨x, first, rest, mid, .refl x _, hcall, hrest, hfirst, hnone⟩
      · refine .inl fun u call later hu => ?_
        rcases hu.cases with ⟨rfl, heq⟩ | ⟨mid', hcall', hu⟩
        · obtain ⟨rfl, rfl⟩ := List.cons.inj heq
          exact hfirst
        · obtain rfl := Option.some.inj (hcall.symm.trans hcall')
          exact hnone u call later hu
    · exact .inr ⟨u, call, later, v, hu.step hcall, hlast⟩

end ComesTo

/-- The record that an answer for a cycle would be taken for. -/
def awaited? (x : Exchange) (cycle : CycleId) : Option RecordHandle :=
  x.cycle.bind fun c => if c.id = cycle then c.inFlight else none

theorem awaited?_eq_some {x : Exchange} {cycle : CycleId} {handle : RecordHandle} :
    x.awaited? cycle = some handle ↔
      ∃ c, x.cycle = some c ∧ c.id = cycle ∧ c.inFlight = some handle := by
  unfold awaited?
  rw [Option.bind_eq_some_iff]
  refine exists_congr fun c => and_congr_right fun _ => ?_
  split_ifs with hid <;> simp [hid]

theorem awaited?_of_cycle {x : Exchange} {c : Cycle} {cycle : CycleId} {handle : RecordHandle}
    (hc : x.cycle = some c) :
    x.awaited? cycle = some handle ↔ c.id = cycle ∧ c.inFlight = some handle := by
  simp only [awaited?_eq_some, hc, Option.some.injEq, exists_eq_left']

/-- At most one answer is awaited. -/
theorem awaited?_unique {x : Exchange} {cycle other : CycleId} {handle handle' : RecordHandle}
    (h : x.awaited? cycle = some handle) (h' : x.awaited? other = some handle') :
    cycle = other ∧ handle = handle' := by
  obtain ⟨c, hc, rfl, hflight⟩ := awaited?_eq_some.mp h
  obtain ⟨rfl, hflight'⟩ := (awaited?_of_cycle hc).mp h'
  exact ⟨rfl, Option.some.inj (hflight.symm.trans hflight')⟩

/-- An answer that is not awaited is dropped. -/
theorem receive_of_stray {x : Exchange} {cycle : CycleId} (h : x.awaited? cycle = none)
    (answer : Except RequestError Bytes) :
    x.receive cycle answer = ({ x with counts.stale := x.counts.stale + 1 }, .ok .stale) := by
  have hreceive : x.receive cycle answer = ((x.receive cycle answer).1, _) := rfl
  rcases receive_cases hreceive with ⟨hy, hresult⟩ | ⟨c, handle, hc, hid, hflight, -⟩
  · exact Prod.ext hy hresult
  · simp [awaited?_eq_some.mpr ⟨c, hc, hid, hflight⟩] at h

/-- The handle that a record carries in its header. -/
def ownHandle? (record : Bytes) : Option RecordHandle :=
  (RecordHeader.split record).toOption.map fun found => found.1.handle

/-- The handle of the record that an awaited answer brings. -/
def brought? (x : Exchange) (cycle : CycleId) (answer : Except RequestError Bytes) :
    Option RecordHandle := do
  let handle ← x.awaited? cycle
  let (record, _) ← (readAnswer handle answer).toOption
  ownHandle? record

/-- What an answer brings is read off its record. -/
theorem brought?_of_awaited {x : Exchange} {cycle : CycleId} {handle : RecordHandle}
    (hawaited : x.awaited? cycle = some handle) (answer : Except RequestError Bytes) :
    x.brought? cycle answer =
      (readAnswer handle answer).toOption.bind fun read => ownHandle? read.1 := by
  simp only [brought?, hawaited]
  rfl

/-- The running cycle completes against a host that always answers a request for a record in the
same way. Whatever answers it does not await are dropped. -/
inductive Completes (host : RecordHandle → Except RequestError Bytes) :
    Exchange → Exchange → Option ChangeNotice → Prop
  | request {x w y : Exchange} {asked : Option FetchRequest} {notice : Option ChangeNotice}
      (hrequest : x.nextRequest = (w, .ok asked)) (hrest : Completes host w y notice) :
      Completes host x y notice
  | receive {x w y : Exchange} {cycle : CycleId} {answer : Except RequestError Bytes}
      {outcome : FetchOutcome} {notice : Option ChangeNotice}
      (hanswer : ∀ handle, x.awaited? cycle = some handle → answer = host handle)
      (hreceive : x.receive cycle answer = (w, .ok outcome)) (hgoes : ∀ n, outcome ≠ .complete n)
      (hrest : Completes host w y notice) : Completes host x y notice
  | complete {x y : Exchange} {cycle : CycleId} {answer : Except RequestError Bytes}
      {notice : Option ChangeNotice}
      (hanswer : ∀ handle, x.awaited? cycle = some handle → answer = host handle)
      (hreceive : x.receive cycle answer = (y, .ok (.complete notice))) : Completes host x y notice

/-- The exchange with another count of dropped answers. -/
def withStale (x : Exchange) (stale : Nat) : Exchange :=
  { x with counts.stale := stale }

@[simp] theorem withStale_cycle (x : Exchange) (k : Nat) : (x.withStale k).cycle = x.cycle := rfl

@[simp] theorem withStale_hostUp (x : Exchange) (k : Nat) : (x.withStale k).hostUp = x.hostUp := rfl

/-- An answer that is not awaited is dropped. -/
theorem dropped_or_awaited {x y : Exchange} {cycle : CycleId} {answer : Except RequestError Bytes}
    {result : Except ExchangeError FetchOutcome} (h : x.receive cycle answer = (y, result)) :
    (y = x.withStale (x.counts.stale + 1) ∧ result = .ok .stale) ∨
      ∃ handle, x.awaited? cycle = some handle := by
  rcases receive_cases h with hdropped | ⟨c, handle, hc, hid, hflight, -⟩
  · exact .inl hdropped
  · exact .inr ⟨handle, awaited?_eq_some.mpr ⟨c, hc, hid, hflight⟩⟩

/-- An awaited answer that does not fail has a record that is imported, and the cycle goes on. -/
theorem receive_of_awaited {x y : Exchange} {cycle : CycleId} {handle : RecordHandle}
    {answer : Except RequestError Bytes} {outcome : FetchOutcome}
    (hawaited : x.awaited? cycle = some handle)
    (h : x.receive cycle answer = (y, .ok outcome)) :
    ∃ c record next z, x.cycle = some c ∧ readAnswer handle answer = .ok (record, next) ∧
      (x.answered c).importRecord record = (z, .ok ()) ∧ z.advance next = (y, .ok outcome) := by
  obtain ⟨c, hc, rfl, hflight⟩ := awaited?_eq_some.mp hawaited
  unfold receive at h
  simp only [hc, hflight, ne_eq, not_true_eq_false, if_false] at h
  cases hread : readAnswer handle answer with
  | error e => simp [hread] at h
  | ok read =>
    obtain ⟨record, next⟩ := read
    simp only [hread] at h
    split at h
    next => simp at h
    next z himport => exact ⟨c, record, next, z, hc, rfl, himport, h⟩

/-- Nothing is asked for while an answer is outstanding. -/
theorem nextRequest_of_inFlight {x y : Exchange} {c : Cycle} {handle : RecordHandle}
    {asked : Option FetchRequest} (hc : x.cycle = some c) (hflight : c.inFlight = some handle)
    (h : x.nextRequest = (y, .ok asked)) : y = x := by
  unfold nextRequest at h
  simp only [hc, hflight] at h
  split_ifs at h
  · exact (Prod.mk.inj h).1.symm
  · simp at h

/-- The first of the queue is asked for. -/
theorem nextRequest_of_queue {x : Exchange} {c : Cycle} {handle : RecordHandle}
    {rest : List RecordHandle} (hup : x.hostUp = true) (hc : x.cycle = some c) (hflight : c.inFlight = none)
    (hqueue : c.queue = handle :: rest) : ∃ phase, x.nextRequest =
      ({ x with
          cycle := some { c with
            queue := rest, inFlight := some handle, seen := c.seen.insert handle }
          phase },
        .ok (some ⟨c.id, handle⟩)) := by
  unfold nextRequest
  rw [hc]
  dsimp only
  rw [if_pos hup]
  simp only [hflight, hqueue]
  exact ⟨_, rfl⟩

/-- What is asked for does not depend on how many answers have been dropped. -/
theorem nextRequest_withStale (x : Exchange) (k : Nat) :
    (x.withStale k).nextRequest = (x.nextRequest.1.withStale k, x.nextRequest.2) := by
  unfold nextRequest
  rw [withStale_cycle, withStale_hostUp]
  cases x.cycle with
  | none => rfl
  | some c =>
    dsimp only
    split_ifs
    · split <;> rfl
    · rfl

namespace Completes

variable {host : RecordHandle → Except RequestError Bytes} {x y : Exchange}
  {notice : Option ChangeNotice}

/-- A cycle that completes asks for records, drops answers and takes those of the host to what it has asked
for, until one of them completes it. -/
@[elab_as_elim]
theorem answers_induction {motive : ∀ x y notice, Completes host x y notice → Prop}
    (request : ∀ {x w y asked notice} (h : Completes host x y notice)
      (hrest : Completes host w y notice), x.nextRequest = (w, .ok asked) →
      motive w y notice hrest → motive x y notice h)
    (drop : ∀ {x y notice k} (h : Completes host x y notice)
      (hrest : Completes host (x.withStale k) y notice),
      motive (x.withStale k) y notice hrest → motive x y notice h)
    (receive : ∀ {x w y cycle handle outcome notice} (h : Completes host x y notice)
      (hrest : Completes host w y notice), x.awaited? cycle = some handle →
      x.receive cycle (host handle) = (w, .ok outcome) → (∀ n, outcome ≠ .complete n) →
      motive w y notice hrest → motive x y notice h)
    (complete : ∀ {x y cycle handle notice} (h : Completes host x y notice),
      x.awaited? cycle = some handle →
      x.receive cycle (host handle) = (y, .ok (.complete notice)) → motive x y notice h)
    (h : Completes host x y notice) : motive x y notice h := by
  induction h with
  | request hrequest hrest ih => exact request (.request hrequest hrest) hrest hrequest ih
  | receive hanswer hreceive hgoes hrest ih =>
    have h := Completes.receive hanswer hreceive hgoes hrest
    rcases dropped_or_awaited hreceive with ⟨rfl, -⟩ | ⟨handle, hawaited⟩
    · exact drop h hrest ih
    · exact receive h hrest hawaited (hanswer handle hawaited ▸ hreceive) hgoes ih
  | complete hanswer hreceive =>
    have h := Completes.complete hanswer hreceive
    rcases dropped_or_awaited hreceive with ⟨-, hstale⟩ | ⟨handle, hawaited⟩
    · simp at hstale
    · exact complete h hawaited (hanswer handle hawaited ▸ hreceive)

/-- A cycle that awaits no answer and completes goes on from its next request. -/
theorem of_idle {c : Cycle} (h : Completes host x y notice) (hc : x.cycle = some c)
    (hflight : c.inFlight = none) :
    ∃ k, Completes host (x.nextRequest.1.withStale k) y notice := by
  have hnone {x : Exchange} (hc : x.cycle = some c) (cycle : CycleId) :
      x.awaited? cycle = none := by
    simp [awaited?, hc, hflight]
  induction h using answers_induction with
  | @request x w _ _ _ _ hrest hrequest =>
    rw [hrequest]
    exact ⟨w.counts.stale, hrest⟩
  | drop _ _ ih =>
    obtain ⟨k, hk⟩ := ih hc
    rw [nextRequest_withStale] at hk
    exact ⟨k, hk⟩
  | receive _ _ hawaited => simp [hnone hc] at hawaited
  | complete _ hawaited => simp [hnone hc] at hawaited

/-- A cycle that awaits an answer and completes goes on from the answer of the host. -/
theorem of_awaited {id : CycleId} {handle : RecordHandle} (h : Completes host x y notice)
    (hawaited : x.awaited? id = some handle) :
    ∃ k w outcome, (x.withStale k).receive id (host handle) = (w, .ok outcome) ∧
      (outcome = .complete notice ∧ w = y ∨
        (∀ n, outcome ≠ .complete n) ∧ Completes host w y notice) := by
  induction h using answers_induction with
  | request _ _ hrequest ih =>
    obtain ⟨c, hc, rfl, hflight⟩ := awaited?_eq_some.mp hawaited
    obtain rfl := nextRequest_of_inFlight hc hflight hrequest
    exact ih hawaited
  | drop _ _ ih => exact ih hawaited
  | @receive x w _ _ _ outcome _ _ hrest hother hreceive hgoes =>
    obtain ⟨rfl, rfl⟩ := awaited?_unique hother hawaited
    exact ⟨x.counts.stale, w, outcome, hreceive, .inr ⟨hgoes, hrest⟩⟩
  | @complete x y _ _ notice _ hother hreceive =>
    obtain ⟨rfl, rfl⟩ := awaited?_unique hother hawaited
    exact ⟨x.counts.stale, y, .complete notice, hreceive, .inl ⟨rfl, rfl⟩⟩

end Completes
end DescriptorExchange.Exchange
