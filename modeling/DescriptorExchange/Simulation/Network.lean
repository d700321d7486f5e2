import DescriptorExchange.Requester
import DescriptorExchange.Simulation.Host

/-!
Requests over a simulated network. A message that is sent is answered before time moves on or never; time is a
number of milliseconds that moves on only when the earliest outstanding attempt is to end. Attempts that end
at the same time end in the order in which they began.
-/
namespace DescriptorExchange

/-- Something that messages are sent to. -/
class FarSide (ω : Type) where
  /-- Sends a message. None if it will not be answered. -/
  send : Frame → ω → ω × Option AttemptResult
  /-- The answer to a message is not waited for any longer. -/
  giveUp : Frame → ω → ω
  /-- Whether answers are there even for those who do not wait at all. -/
  prompt : Bool

structure Network (ω : Type) where
  requester : Requester
  far : ω
  clock : Nat
  /-- Attempts that will not be answered, each with the time it ends at, in the order they began. -/
  timers : List (Nat × CallId)

/-- Where a call stands. -/
inductive Asked where
  | waiting (id : CallId)
  | done (result : Except RequestError Bytes)

namespace Network

variable {ω : Type} [FarSide ω]

def start (policy : RetryPolicy) (far : ω) : Network ω :=
  { requester := .start policy, far, clock := 0, timers := [] }

/-- What an attempt gets in time: where answers are not prompt, they come too late for an attempt that may not
take any time. -/
def inTime (n : Network ω) : Option AttemptResult → Option AttemptResult
  | some (.answered m) =>
    if n.requester.policy.timeout = 0 ∧ ¬ FarSide.prompt ω then none else some (.answered m)
  | result => result

/-- Makes attempts until one has to wait or the call ends. The first argument bounds the number of
attempts. -/
def attempt : Nat → CallId → Frame → Network ω → Network ω × Asked
  | 0, id, _, n => (n, .waiting id)
  | bound + 1, id, frame, n =>
    let (far, answer) := FarSide.send frame n.far
    let answer := n.inTime answer
    match answer, n.requester.policy.timeout with
    | none, wait + 1 => ({ n with far, timers := n.timers ++ [(n.clock + (wait + 1), id)] }, .waiting id)
    | _, _ =>
      let far := if answer.isNone then FarSide.giveUp frame far else far
      match n.requester.resolve id (answer.getD .timedOut) with
      | (requester, .again frame) => attempt bound id frame { n with far, requester }
      | (requester, .finished result) => ({ n with far, requester }, .done result)
      | (requester, .unknown) => ({ n with far, requester }, .waiting id)

/-- Begins a call. -/
def ask (q : Query) (n : Network ω) : Network ω × Asked :=
  match n.requester.submit q with
  | .error e => (n, .done (.error e))
  | .ok (requester, id, frame) => attempt requester.policy.attempts id frame { n with requester }

/-- The current attempt of a call ends without an answer. -/
def expire (id : CallId) (n : Network ω) : Network ω × Asked :=
  match n.requester.calls[id]? with
  | none => (n, .waiting id)
  | some call =>
    let n := { n with far := FarSide.giveUp call.frame n.far }
    match n.requester.resolve id .timedOut with
    | (requester, .again frame) => attempt requester.policy.attempts id frame { n with requester }
    | (requester, .finished result) => ({ n with requester }, .done result)
    | (_, .unknown) => (n, .waiting id)

/-- The time at which the next attempt ends. -/
def nextDeadline? (n : Network ω) : Option Nat := (n.timers.map Prod.fst).min?

/-- Moves time on and takes out the attempts that end then. -/
def advance (time : Nat) (n : Network ω) : Network ω × List CallId :=
  let (due, later) := n.timers.partition fun timer => timer.1 ≤ time
  ({ n with clock := time, timers := later }, due.map Prod.snd)

def expireAll : List CallId → Network ω → Network ω × List (CallId × Except RequestError Bytes)
  | [], n => (n, [])
  | id :: rest, n =>
    let (n, asked) := n.expire id
    let (n, more) := expireAll rest n
    match asked with
    | .done result => (n, (id, result) :: more)
    | .waiting _ => (n, more)

/-- Lets time pass until no attempt is outstanding or a call has ended. Gives the calls that ended. The first
argument bounds the number of times at which attempts end. -/
def waitFor (id : CallId) : Nat → Network ω → Network ω × List (CallId × Except RequestError Bytes)
  | 0, n => (n, [])
  | bound + 1, n =>
    match n.nextDeadline? with
    | none => (n, [])
    | some time =>
      let (n, due) := n.advance time
      let (n, ended) := n.expireAll due
      if (ended.lookup id).isSome then (n, ended)
      else
        let (n, more) := waitFor id bound n
        (n, ended ++ more)

def askAll : List Query → Network ω → Network ω × List Asked
  | [], n => (n, [])
  | q :: rest, n =>
    let (n, asked) := n.ask q
    let (n, more) := askAll rest n
    (n, asked :: more)

/-- Waits for calls one after another. Gives the result of each, with the ids its terminus has in use when it
is picked up. -/
def collect (ended : List (CallId × Except RequestError Bytes)) :
    List (Query × Asked) → Network ω → Network ω × List (Except RequestError Bytes × Nat)
  | [], n => (n, [])
  | (q, .done result) :: rest, n =>
    let (m, more) := collect ended rest n
    (m, (result, n.requester.ids.inUse q.tid) :: more)
  | (q, .waiting id) :: rest, n =>
    let (n, ended) := match ended.lookup id with
      | some _ => (n, ended)
      | none =>
        let (n, late) := n.waitFor id (n.timers.length * n.requester.policy.attempts)
        (n, ended ++ late)
    let (m, more) := collect ended rest n
    match ended.lookup id with
    | some result => (m, (result, n.requester.ids.inUse q.tid) :: more)
    | none => (m, more)

/-- Begins calls one after another and then waits for them in that order. -/
def callAll (queries : List Query) (n : Network ω) : Network ω × List (Except RequestError Bytes × Nat) :=
  let (n, asked) := n.askAll queries
  n.collect [] (queries.zip asked)

end Network

/-- What a scripted host does with a request. -/
inductive Reply where
  | body (bytes : Bytes)
  /-- An empty answer to another command. -/
  | wrongCommand (command : UInt8)
  /-- An empty answer of another type. -/
  | wrongType (type : MessageType)
  | hang
  | fail (cause : TransportError)
  deriving Repr, Inhabited

/-- The answer to a message, if there is one. -/
def Reply.answer (m : Message) : Reply → Option AttemptResult
  | .body bytes => some (.answered { header := m.header.response, payload := bytes })
  | .wrongCommand command =>
    some (.answered { header := { m.header.response with command }, payload := [] })
  | .wrongType type => some (.answered { header := { m.header.response with type }, payload := [] })
  | .hang => none
  | .fail cause => some (.failed cause)

/-- Answers messages one after another as written down, and not at all after that. -/
structure ReplyScript where
  replies : List Reply
  /-- Messages received. -/
  received : List Frame

instance : FarSide ReplyScript where
  send frame s :=
    let received := s.received ++ [frame]
    match s.replies with
    | [] => ({ s with received }, none)
    | reply :: rest => ({ replies := rest, received }, reply.answer frame.message)
  giveUp _ s := s
  prompt := true

end DescriptorExchange
