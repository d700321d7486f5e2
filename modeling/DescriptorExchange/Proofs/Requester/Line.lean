import DescriptorExchange.Proofs.Connection.Waiting
import DescriptorExchange.Proofs.Requester.Outstanding
import Mathlib.Data.List.Induction

/-!
Any number of calls of one requester over one connection, with their steps in any order: a call begins
and makes an attempt, which is refused at once or waits; a waiting attempt ends with what the connection
has for it or because its time is over; then the call takes notice, and makes another attempt or returns.
Whatever else the connection does comes in between.
-/
namespace DescriptorExchange

/-- Where an outstanding call stands. -/
inductive Stage where
  /-- Its next attempt is to begin. -/
  | due
  | waiting (ticket : Ticket)
  /-- Its attempt has ended, and the call has not taken notice. -/
  | ended (result : AttemptResult)

structure Line where
  requester : Requester
  connection : Connection
  /-- Where the outstanding calls stand. -/
  stages : Std.ExtTreeMap CallId Stage
  nextTicket : Ticket
  /-- What calls have returned, in the order in which they did. -/
  returned : List (CallId × Except RequestError Bytes)

/-- What may happen next. -/
inductive LineEvent where
  | submit (q : Query)
  | attempt (id : CallId)
  /-- A waiting attempt ends with what the connection has for it. -/
  | pickUp (id : CallId)
  /-- The time of a waiting attempt is over. -/
  | expire (id : CallId)
  | takeNotice (id : CallId)
  | traffic (t : Connection.Traffic)

namespace Line

variable {l : Line} {id other : CallId} {call rival : Call} {ticket : Ticket} {stage : Stage}

def start (policy : RetryPolicy) : Line :=
  { requester := .start policy, connection := .fresh, stages := ∅, nextTicket := 0, returned := [] }

/-- The result of an attempt by what the connection ends it with. -/
def resultOf : Except TransportError Message → AttemptResult
  | .ok response => .answered response
  | .error cause => .failed cause

/-- A waiting attempt ends. -/
def endAttempt (l : Line) (id : CallId) (ticket : Ticket) (result : AttemptResult) : Line :=
  { l with connection := l.connection.finish ticket, stages := l.stages.insert id (.ended result) }

/-- A call makes an attempt with its message. -/
def makeAttempt (l : Line) (id : CallId) (call : Call) : Line :=
  match l.connection.request l.nextTicket call.frame with
  | (connection, .ok _) =>
    { l with
      connection
      stages := l.stages.insert id (.waiting l.nextTicket)
      nextTicket := l.nextTicket + 1 }
  | (connection, .error cause) =>
    { l with connection, stages := l.stages.insert id (.ended (.failed cause)) }

/-- A call takes notice of how its attempt ended. -/
def conclude (l : Line) (id : CallId) (result : AttemptResult) : Line :=
  match l.requester.resolve id result with
  | (requester, .again _) => { l with requester, stages := l.stages.insert id .due }
  | (requester, .finished answer) =>
    { l with requester, stages := l.stages.erase id, returned := l.returned ++ [(id, answer)] }
  | (_, .unknown) => l

/-- What an event does. One that does not fit the stage of its call does nothing. -/
def after (l : Line) : LineEvent → Line
  | .submit q =>
    match l.requester.submit q with
    | .ok (requester, id, _) => { l with requester, stages := l.stages.insert id .due }
    | .error _ => l
  | .attempt id =>
    match l.requester.calls[id]?, l.stages[id]? with
    | some call, some .due => l.makeAttempt id call
    | _, _ => l
  | .pickUp id =>
    match l.stages[id]? with
    | some (.waiting ticket) =>
      match l.connection.outcome? ticket with
      | some outcome => l.endAttempt id ticket (resultOf outcome)
      | none => l
    | _ => l
  | .expire id =>
    match l.stages[id]? with
    | some (.waiting ticket) => l.endAttempt id ticket .timedOut
    | _ => l
  | .takeNotice id =>
    match l.stages[id]? with
    | some (.ended result) => l.conclude id result
    | _ => l
  | .traffic t => { l with connection := l.connection.carry t }

def afterAll (l : Line) (events : List LineEvent) : Line := events.foldl after l

/-- What an event changes: nothing, a call begins, an attempt is refused or begins to wait or ends, a call
goes on to its next attempt, a call returns, or the connection does something else. -/
inductive Changes (l : Line) : LineEvent → Line → Prop
  | none {event : LineEvent} : Changes l event l
  | begun {q : Query} {ids : InstanceIds} {iid : InstanceId}
      (hallocate : l.requester.ids.allocate q.tid = .ok (ids, iid)) :
      Changes l (.submit q)
        { l with
          requester := { l.requester with
            ids, calls := l.requester.calls.insert l.requester.nextCall ⟨q, iid, 1⟩
            nextCall := l.requester.nextCall + 1 }
          stages := l.stages.insert l.requester.nextCall .due }
  | busy {id : CallId} {call : Call} (hcall : l.requester.calls[id]? = some call)
      (hdue : l.stages[id]? = some .due) (hkey : call.frame.key ∈ l.connection.pending) :
      Changes l (.attempt id)
        { l with stages := l.stages.insert id (.ended (.failed (.busy call.query.eid call.iid))) }
  | closed {id : CallId} (hdue : l.stages[id]? = some .due) :
      Changes l (.attempt id) { l with stages := l.stages.insert id (.ended (.failed .closed)) }
  | waits {id : CallId} {call : Call} {d : Connection}
      (hcall : l.requester.calls[id]? = some call) (hdue : l.stages[id]? = some .due)
      (hwaiting : d.waiting = l.connection.waiting.insert l.nextTicket call.frame.key)
      (hpending : ∀ key other, d.pending[key]? = some other →
        l.connection.pending[key]? = some other ∨ (key = call.frame.key ∧ other = l.nextTicket)) :
      Changes l (.attempt id)
        { l with
          connection := d
          stages := l.stages.insert id (.waiting l.nextTicket)
          nextTicket := l.nextTicket + 1 }
  | ends {event : LineEvent} {id : CallId} {ticket : Ticket} {result : AttemptResult}
      (hwaits : l.stages[id]? = some (.waiting ticket))
      (hresult : ∀ cause, result = .failed cause → cause = .closed) :
      Changes l event (l.endAttempt id ticket result)
  | again {id : CallId} {call : Call} {result : AttemptResult}
      (hcall : l.requester.calls[id]? = some call)
      (hended : l.stages[id]? = some (.ended result)) :
      Changes l (.takeNotice id)
        { l with
          requester := { l.requester with
            calls := l.requester.calls.insert id { call with attempt := call.attempt + 1 } }
          stages := l.stages.insert id .due }
  | returns {id : CallId} {call : Call} {result : AttemptResult} {answer : Except RequestError Bytes}
      (hcall : l.requester.calls[id]? = some call)
      (hended : l.stages[id]? = some (.ended result))
      (hanswer : call.conclude l.requester.policy result = some answer) :
      Changes l (.takeNotice id)
        { l with
          requester := l.requester.close id call
          stages := l.stages.erase id
          returned := l.returned ++ [(id, answer)] }
  | traffic {t : Connection.Traffic} :
      Changes l (.traffic t) { l with connection := l.connection.carry t }

theorem resultOf_failed {cause : TransportError} {outcome : Except TransportError Message}
    (houtcome : l.connection.outcome? ticket = some outcome) (h : resultOf outcome = .failed cause) :
    cause = .closed := by
  cases outcome with
  | ok response => cases h
  | error e =>
    obtain rfl := AttemptResult.failed.inj h
    exact Connection.outcome_error houtcome

theorem makeAttempt_changes (hcall : l.requester.calls[id]? = some call)
    (hdue : l.stages[id]? = some .due) : l.Changes (.attempt id) (l.makeAttempt id call) := by
  unfold makeAttempt
  rcases l.connection.request_cases l.nextTicket call.frame with ⟨hkey, heq⟩ | ⟨-, -, heq⟩ |
    ⟨-, d, bytes, heq, hwaiting, hpending⟩
  · rw [heq]
    exact .busy hcall hdue hkey
  · rw [heq]
    exact .closed hdue
  · rw [heq]
    exact .waits hcall hdue hwaiting hpending

theorem conclude_changes {result : AttemptResult} (hended : l.stages[id]? = some (.ended result)) :
    l.Changes (.takeNotice id) (l.conclude id result) := by
  unfold conclude
  cases hcall : l.requester.calls[id]? with
  | none =>
    rw [Requester.resolve, hcall]
    exact .none
  | some call =>
    rcases Requester.resolve_of_call hcall with ⟨answer, hanswer, heq⟩ | ⟨-, heq⟩
    · rw [heq]
      exact .returns hcall hended hanswer
    · rw [heq]
      exact .again hcall hended

/-- Every event changes a line in one of these ways. -/
theorem after_changes (l : Line) (event : LineEvent) : l.Changes event (l.after event) := by
  cases event with
  | submit q =>
    simp only [after]
    split
    next r id f hsubmit =>
      obtain ⟨ids, iid, hallocate, rfl, -, rfl⟩ := Requester.submit_eq_ok hsubmit
      exact .begun hallocate
    next => exact .none
  | attempt id =>
    simp only [after]
    split
    next call hcall hdue => exact makeAttempt_changes hcall hdue
    next => exact .none
  | pickUp id =>
    simp only [after]
    split
    next ticket hwaits =>
      split
      next outcome houtcome => exact .ends hwaits fun cause => resultOf_failed houtcome
      next => exact .none
    next => exact .none
  | expire id =>
    simp only [after]
    split
    next ticket hwaits => exact .ends hwaits fun cause h => by cases h
    next => exact .none
  | takeNotice id =>
    simp only [after]
    split
    next result hended => exact conclude_changes hended
    next => exact .none
  | traffic t => exact .traffic

/-- What is so at the start and kept by every change is so after any events. -/
theorem afterAll_induction {P : Line → Prop} (policy : RetryPolicy) (hstart : P (start policy))
    (hstep : ∀ l m event, P l → l.Changes event m → P m) (events : List LineEvent) :
    P ((start policy).afterAll events) := by
  induction events using List.reverseRecOn with
  | nil => exact hstart
  | append_singleton events event ih =>
    rw [afterAll, List.foldl_append]
    exact hstep _ _ event ih (after_changes _ event)

/-- A call waits with a ticket for the answer to its attempt. -/
def Waits (l : Line) (id : CallId) (call : Call) (ticket : Ticket) : Prop :=
  l.requester.calls[id]? = some call ∧ l.stages[id]? = some (.waiting ticket)

/-- Calls with a stage are outstanding. One that waits is registered under its key, with a ticket of its
own, and nothing is pending but for calls that wait. -/
structure Sound (l : Line) : Prop where
  requester : l.requester.Sound
  outstanding : ∀ {id : CallId} {stage : Stage}, l.stages[id]? = some stage →
    ∃ call, l.requester.calls[id]? = some call
  registered : ∀ {id : CallId} {call : Call} {ticket : Ticket}, l.Waits id call ticket →
    ticket < l.nextTicket ∧ l.connection.waiting[ticket]? = some call.frame.key
  apart : ∀ {id other : CallId} {call rival : Call} {ticket : Ticket}, l.Waits id call ticket →
    l.Waits other rival ticket → id = other
  pending : ∀ {key : RequestKey} {ticket : Ticket}, l.connection.pending[key]? = some ticket →
    ∃ id call, l.Waits id call ticket ∧ call.frame.key = key

variable {m : Line} {event : LineEvent}

/-- As long as the same calls wait and the connection registers nothing, a line stays sound. -/
theorem Sound.congr (h : l.Sound) (hrequester : m.requester.Sound)
    (houtstanding : ∀ {id : CallId} {stage : Stage}, m.stages[id]? = some stage →
      ∃ call, m.requester.calls[id]? = some call)
    (hwaits : ∀ id call ticket, m.Waits id call ticket ↔ l.Waits id call ticket)
    (hquiet : l.connection.Quiet m.connection) (htickets : m.nextTicket = l.nextTicket) :
    m.Sound where
  requester := hrequester
  outstanding := houtstanding
  registered hcall := by
    rw [htickets, hquiet.waiting]
    exact h.registered ((hwaits _ _ _).mp hcall)
  apart hcall hrival := h.apart ((hwaits _ _ _).mp hcall) ((hwaits _ _ _).mp hrival)
  pending hkey := by
    obtain ⟨id, call, hcall, heq⟩ := h.pending (hquiet.pending hkey)
    exact ⟨id, call, (hwaits _ _ _).mpr hcall, heq⟩

/-- A line stays sound when something happens to one call, which waits neither before nor after it. -/
theorem Sound.aside (id : CallId) (h : l.Sound) (hrequester : m.requester.Sound)
    (hcalls : ∀ other, other ≠ id → m.requester.calls[other]? = l.requester.calls[other]?)
    (hstages : ∀ other, other ≠ id → m.stages[other]? = l.stages[other]?)
    (hbefore : ∀ ticket, l.stages[id]? ≠ some (.waiting ticket))
    (hafter : ∀ stage, m.stages[id]? = some stage →
      (∃ call, m.requester.calls[id]? = some call) ∧ ∀ ticket, stage ≠ .waiting ticket)
    (hconnection : m.connection = l.connection) (htickets : m.nextTicket = l.nextTicket) :
    m.Sound := by
  apply h.congr hrequester
  · intro other stage hstage
    by_cases hother : other = id
    · subst hother
      exact (hafter stage hstage).1
    · rw [hcalls other hother]
      exact h.outstanding (hstages other hother ▸ hstage)
  · intro other call ticket
    by_cases hother : other = id
    · subst hother
      apply iff_of_false
      · intro hwaits
        exact (hafter _ hwaits.2).2 ticket rfl
      · intro hwaits
        exact hbefore ticket hwaits.2
    · unfold Waits
      rw [hcalls other hother, hstages other hother]
  · exact .of_eq (by rw [hconnection]) (by rw [hconnection])
  · exact htickets

theorem Sound.start (policy : RetryPolicy) : (start policy).Sound where
  requester := .start policy
  outstanding h := by simp [Line.start] at h
  registered h := by simp [Line.start, Waits] at h
  apart h := by simp [Line.start, Waits] at h
  pending h := by simp [Line.start, Connection.fresh] at h

/-- A call that does not wait comes to a stage in which it does not wait. -/
theorem Sound.restage (h : l.Sound) (hcall : l.requester.calls[id]? = some call)
    (hbefore : ∀ ticket, l.stages[id]? ≠ some (.waiting ticket))
    (hstage : ∀ ticket, stage ≠ .waiting ticket) :
    ({ l with stages := l.stages.insert id stage } : Line).Sound := by
  apply h.aside id
  · exact h.requester
  · exact fun _ _ => rfl
  · exact fun other => Entries.getElem?_insert_of_ne
  · exact hbefore
  · intro s hs
    obtain rfl := Option.some.inj (Std.ExtTreeMap.getElem?_insert_self.symm.trans hs)
    exact ⟨⟨call, hcall⟩, hstage⟩
  · rfl
  · rfl

theorem Sound.begun {q : Query} {ids : InstanceIds} {iid : InstanceId} (h : l.Sound)
    (hallocate : l.requester.ids.allocate q.tid = .ok (ids, iid)) :
    ({ l with
      requester := { l.requester with
        ids, calls := l.requester.calls.insert l.requester.nextCall ⟨q, iid, 1⟩
        nextCall := l.requester.nextCall + 1 }
      stages := l.stages.insert l.requester.nextCall .due } : Line).Sound := by
  apply h.aside l.requester.nextCall
  · exact h.requester.begin hallocate
  · exact fun other => Entries.getElem?_insert_of_ne
  · exact fun other => Entries.getElem?_insert_of_ne
  · intro ticket hticket
    obtain ⟨call, hcall⟩ := h.outstanding hticket
    exact Nat.lt_irrefl _ (h.requester.numbered hcall)
  · intro s hs
    obtain rfl := Option.some.inj (Std.ExtTreeMap.getElem?_insert_self.symm.trans hs)
    exact ⟨⟨_, Std.ExtTreeMap.getElem?_insert_self⟩, fun ticket h => by cases h⟩
  · rfl
  · rfl

theorem Sound.again {result : AttemptResult} (h : l.Sound)
    (hcall : l.requester.calls[id]? = some call) (hended : l.stages[id]? = some (.ended result)) :
    ({ l with
      requester := { l.requester with
        calls := l.requester.calls.insert id { call with attempt := call.attempt + 1 } }
      stages := l.stages.insert id .due } : Line).Sound := by
  apply h.aside id
  · exact h.requester.retry hcall
  · exact fun other => Entries.getElem?_insert_of_ne
  · exact fun other => Entries.getElem?_insert_of_ne
  · simp [hended]
  · intro s hs
    obtain rfl := Option.some.inj (Std.ExtTreeMap.getElem?_insert_self.symm.trans hs)
    exact ⟨⟨_, Std.ExtTreeMap.getElem?_insert_self⟩, fun ticket h => by cases h⟩
  · rfl
  · rfl

theorem Sound.returns {result : AttemptResult} (h : l.Sound)
    (hcall : l.requester.calls[id]? = some call) (hended : l.stages[id]? = some (.ended result))
    (returned : List (CallId × Except RequestError Bytes)) :
    ({ l with requester := l.requester.close id call, stages := l.stages.erase id, returned } :
      Line).Sound := by
  apply h.aside id
  · exact h.requester.close hcall
  · exact fun other => Entries.getElem?_erase_of_ne
  · exact fun other => Entries.getElem?_erase_of_ne
  · simp [hended]
  · intro s hs
    simp at hs
  · rfl
  · rfl

/-- A call that comes to a stage waits then if that is what the stage says; no other call is affected. -/
theorem waits_restaged (hrequester : m.requester = l.requester)
    (hstages : m.stages = l.stages.insert id stage) (hcall : l.requester.calls[id]? = some call) :
    m.Waits other rival ticket ↔
      (other = id ∧ rival = call ∧ stage = .waiting ticket) ∨
        (other ≠ id ∧ l.Waits other rival ticket) := by
  unfold Waits
  rw [hrequester, hstages, Entries.getElem?_insert]
  by_cases hother : other = id
  · subst hother
    simp [hcall, eq_comm]
  · simp [hother]

theorem Sound.outstanding_restaged {s : Stage} (h : l.Sound)
    (hcall : l.requester.calls[id]? = some call)
    (hs : (l.stages.insert id stage)[other]? = some s) :
    ∃ rival, l.requester.calls[other]? = some rival := by
  by_cases hother : other = id
  · exact ⟨call, hother ▸ hcall⟩
  · exact h.outstanding ((Entries.getElem?_insert_of_ne hother).symm.trans hs)

/-- An attempt that begins to wait has a ticket and a key that no other has. -/
theorem Sound.waits {d : Connection} (h : l.Sound) (hcall : l.requester.calls[id]? = some call)
    (hdue : l.stages[id]? = some .due)
    (hwaiting : d.waiting = l.connection.waiting.insert l.nextTicket call.frame.key)
    (hpending : ∀ key other, d.pending[key]? = some other →
      l.connection.pending[key]? = some other ∨ (key = call.frame.key ∧ other = l.nextTicket)) :
    ({ l with
      connection := d
      stages := l.stages.insert id (.waiting l.nextTicket)
      nextTicket := l.nextTicket + 1 } : Line).Sound := by
  set m : Line := { l with
    connection := d
    stages := l.stages.insert id (.waiting l.nextTicket)
    nextTicket := l.nextTicket + 1 } with hm
  have hwaits {other : CallId} {rival : Call} {ticket : Ticket} : m.Waits other rival ticket ↔
      (other = id ∧ rival = call ∧ Stage.waiting l.nextTicket = .waiting ticket) ∨
        (other ≠ id ∧ l.Waits other rival ticket) :=
    waits_restaged rfl rfl hcall
  constructor
  · exact h.requester
  · intro other stage
    exact h.outstanding_restaged hcall
  · intro other rival ticket hrival
    show ticket < l.nextTicket + 1 ∧ d.waiting[ticket]? = some rival.frame.key
    rw [hwaiting, Entries.getElem?_insert]
    rcases hwaits.mp hrival with ⟨rfl, rfl, hticket⟩ | ⟨-, hold⟩
    · obtain rfl := Stage.waiting.inj hticket
      exact ⟨Nat.lt_succ_self _, if_pos rfl⟩
    · obtain ⟨hlt, hkey⟩ := h.registered hold
      exact ⟨Nat.lt_succ_of_lt hlt, (if_neg (Nat.ne_of_lt hlt)).trans hkey⟩
  · intro a b u v ticket ha hb
    -- The new ticket is larger than those of the calls that waited before.
    have hfresh {id : CallId} {call : Call} (hold : l.Waits id call ticket) :
        Stage.waiting l.nextTicket ≠ .waiting ticket := by
      intro hticket
      exact Nat.ne_of_gt (h.registered hold).1 (Stage.waiting.inj hticket)
    rcases hwaits.mp ha with ⟨rfl, -, hticket⟩ | ⟨-, hold⟩
    · rcases hwaits.mp hb with ⟨rfl, -, -⟩ | ⟨-, hold⟩
      · rfl
      · exact absurd hticket (hfresh hold)
    · rcases hwaits.mp hb with ⟨-, -, hticket⟩ | ⟨-, hold'⟩
      · exact absurd hticket (hfresh hold)
      · exact h.apart hold hold'
  · intro key ticket hkey
    rcases hpending key ticket hkey with hold | ⟨rfl, rfl⟩
    · obtain ⟨other, rival, hrival, heq⟩ := h.pending hold
      have hother : other ≠ id := by
        rintro rfl
        cases hdue.symm.trans hrival.2
      exact ⟨other, rival, hwaits.mpr (.inr ⟨hother, hrival⟩), heq⟩
    · exact ⟨id, call, hwaits.mpr (.inl ⟨rfl, rfl, rfl⟩), rfl⟩

/-- An attempt that ends frees the key it waited under, and no other. -/
theorem Sound.ends {result : AttemptResult} (h : l.Sound)
    (hwaits : l.stages[id]? = some (.waiting ticket)) : (l.endAttempt id ticket result).Sound := by
  obtain ⟨call, hcall⟩ := h.outstanding hwaits
  have hself : l.Waits id call ticket := ⟨hcall, hwaits⟩
  obtain ⟨hwaiting, hpending⟩ := Connection.finish_of_waiting (h.registered hself).2
  have hother {other : CallId} {rival : Call} {t : Ticket} :
      (l.endAttempt id ticket result).Waits other rival t ↔ other ≠ id ∧ l.Waits other rival t :=
    (waits_restaged (l := l) (m := l.endAttempt id ticket result) rfl rfl hcall).trans (by simp)
  constructor
  · exact h.requester
  · intro other stage
    exact h.outstanding_restaged hcall
  · intro other rival t hrival
    obtain ⟨hne, hold⟩ := hother.mp hrival
    obtain ⟨hlt, hkey⟩ := h.registered hold
    have ht : t ≠ ticket := by
      rintro rfl
      exact hne (h.apart hold hself)
    show t < l.nextTicket ∧ (l.connection.finish ticket).waiting[t]? = some rival.frame.key
    rw [hwaiting, Entries.getElem?_erase_of_ne ht]
    exact ⟨hlt, hkey⟩
  · intro a b u v t ha hb
    exact h.apart (hother.mp ha).2 (hother.mp hb).2
  · intro key t hkey
    replace hkey : (l.connection.finish ticket).pending[key]? = some t := hkey
    rw [hpending, Entries.getElem?_erase] at hkey
    split_ifs at hkey with hsame
    obtain ⟨other, rival, hrival, heq⟩ := h.pending hkey
    have hne : other ≠ id := by
      rintro rfl
      obtain rfl := Option.some.inj (hrival.1.symm.trans hcall)
      exact hsame heq.symm
    exact ⟨other, rival, hother.mpr ⟨hne, hrival⟩, heq⟩

theorem Sound.changes (h : l.Sound) (hchanges : l.Changes event m) : m.Sound := by
  cases hchanges with
  | none => exact h
  | begun hallocate => exact h.begun hallocate
  | busy hcall hdue => exact h.restage hcall (by simp [hdue]) (fun ticket h => by cases h)
  | closed hdue =>
    obtain ⟨call, hcall⟩ := h.outstanding hdue
    exact h.restage hcall (by simp [hdue]) (fun ticket h => by cases h)
  | waits hcall hdue hwaiting hpending => exact h.waits hcall hdue hwaiting hpending
  | ends hwaits => exact h.ends hwaits
  | again hcall hended => exact h.again hcall hended
  | returns hcall hended => exact h.returns hcall hended _
  | traffic =>
    exact h.congr h.requester h.outstanding (fun _ _ _ => Iff.rfl) (.carry _ _) rfl

/-- A line is sound after any events. -/
theorem sound_afterAll (policy : RetryPolicy) (events : List LineEvent) :
    ((Line.start policy).afterAll events).Sound :=
  afterAll_induction policy (.start policy) (fun _ _ _ h hchanges => h.changes hchanges) events

end Line
end DescriptorExchange
