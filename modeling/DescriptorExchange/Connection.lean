import Std.Data.ExtTreeMap
import DescriptorExchange.Message.Frame

/-!
One connection that carries requests in both directions. A request waits under its endpoint and instance
id until a response with the same two arrives; the response is handed over and the entry removed. When a
request finishes, by picking up its response or by being given up, whatever waits under its endpoint and
instance id is removed. A request that waits for nothing any more ends as closed. Frames with the request
bit are requests of the other side; they queue up until they are taken, and while the queue is full nothing
behind them is looked at. A frame that cannot be read or written closes the connection.
-/
namespace DescriptorExchange

structure RequestKey where
  eid : EndpointId
  iid : InstanceId
  deriving DecidableEq, Repr, Inhabited

/-- By endpoint first, by instance id second. -/
def RequestKey.order : RequestKey → RequestKey → Ordering :=
  compareLex (compareOn fun k => k.eid.value) (compareOn fun k => k.iid.value)

instance : Std.TransCmp RequestKey.order := by unfold RequestKey.order; infer_instance

instance : Std.LawfulEqCmp RequestKey.order where
  compare_self := by intro k; simp [RequestKey.order, compareLex, compareOn]
  eq_of_compare := by
    intro a b h
    obtain ⟨⟨e⟩, ⟨i⟩⟩ := a
    obtain ⟨⟨f⟩, ⟨j⟩⟩ := b
    simpa [RequestKey.order, compareLex, compareOn] using h

/-- What a response to a request carries. -/
def Frame.key (f : Frame) : RequestKey := { eid := f.eid, iid := f.message.header.instanceId }

/-- Names a request on one connection. -/
abbrev Ticket := Nat

structure Connection where
  closed : Bool
  /-- Requests that have not finished, with what their responses carry. -/
  waiting : Std.ExtTreeMap Ticket RequestKey
  /-- Requests whose responses have not arrived. -/
  pending : Std.ExtTreeMap RequestKey Ticket RequestKey.order
  /-- Responses that have not been picked up. -/
  answers : Std.ExtTreeMap Ticket Message
  /-- Bytes received of a frame that is not complete. -/
  buffer : Bytes
  /-- Frames received that have not been looked at. -/
  backlog : List Frame
  /-- Whether nothing can follow what has been received. -/
  exhausted : Bool
  /-- Requests of the other side that have not been taken. -/
  inbound : List Frame
  /-- Whether requests of the other side are taken. -/
  serving : Bool

namespace Connection

def fresh : Connection :=
  { closed := false, waiting := ∅, pending := ∅, answers := ∅, buffer := [], backlog := [], exhausted := false
    inbound := [], serving := true }

instance : Inhabited Connection := ⟨fresh⟩

/-- Requests of the other side that may queue up. -/
def queueLimit : Nat := 32

/-- Everything that waits stops waiting. Requests that have queued up can still be taken. -/
def close (c : Connection) : Connection :=
  { c with closed := true, pending := ∅, buffer := [], backlog := [], exhausted := true }

/-- Writes a frame. Gives the bytes written; a frame that is too long closes the connection. -/
def send (c : Connection) (f : Frame) : Connection × Except TransportError Bytes :=
  if c.closed then (c, .error .closed)
  else match f.encode with
    | .ok bytes => (c, .ok bytes)
    | .error _ => (c.close, .ok [])

/-- Registers a request and writes it. One whose endpoint and instance id are waited for already is
refused. -/
def request (c : Connection) (ticket : Ticket) (f : Frame) : Connection × Except TransportError Bytes :=
  if f.key ∈ c.pending then (c, .error (.busy f.eid f.key.iid))
  else if c.closed then (c, .error .closed)
  else { c with
      waiting := c.waiting.insert ticket f.key
      pending := c.pending.insert f.key ticket }.send f

/-- Takes a response of the other side. It goes to the request that waits for it; one that nothing waits for
is dropped. -/
def arrive (c : Connection) (f : Frame) : Connection :=
  match c.pending[f.key]? with
  | none => c
  | some ticket => { c with pending := c.pending.erase f.key, answers := c.answers.insert ticket f.message }

/-- Looks at frames in order, up to a request that the queue has no room for. Behind the last frame of an
exhausted stream the connection closes. -/
def lookAt : List Frame → Connection → Connection
  | [], c => if c.exhausted then c.close else { c with backlog := [] }
  | f :: rest, c =>
    if f.message.header.request then
      if !c.serving then lookAt rest c
      else if c.inbound.length < queueLimit then lookAt rest { c with inbound := c.inbound ++ [f] }
      else { c with backlog := f :: rest }
    else lookAt rest (c.arrive f)

/-- Goes on with the frames that have been received. -/
def advance (c : Connection) : Connection := if c.closed then c else lookAt c.backlog c

/-- Takes bytes of the other side, without looking at them. -/
def append (c : Connection) (bytes : Bytes) : Connection :=
  if c.exhausted then c
  else
    let (frames, left) := Frame.collect (c.buffer ++ bytes)
    let c := { c with backlog := c.backlog ++ frames }
    match left with
    | .ok buffer => { c with buffer }
    | .error _ => { c with buffer := [], exhausted := true }

/-- The other side sends nothing more. -/
def finishInput (c : Connection) : Connection := { c with buffer := [], exhausted := true }

/-- Takes bytes of the other side and looks at the frames in them. -/
def receive (c : Connection) (bytes : Bytes) : Connection := (c.append bytes).advance

/-- Takes the requests of the other side that have queued up. -/
def takeInbound (c : Connection) : Connection × List Frame := ({ c with inbound := [] }, c.inbound)

/-- Takes one request of the other side, which leaves room for another. -/
def takeNext? (c : Connection) : Option (Connection × Frame) :=
  match c.inbound with
  | [] => none
  | f :: rest => some ({ c with inbound := rest }.advance, f)

/-- Closes the connection from this side. A request that has been looked at and waits for room is queued. -/
def shutdown (c : Connection) : Connection :=
  let held := if c.serving then c.backlog.take 1 else []
  { c with inbound := c.inbound ++ held }.close

/-- What a request ends with, once it can end. -/
def outcome? (c : Connection) (ticket : Ticket) : Option (Except TransportError Message) :=
  match c.waiting[ticket]? with
  | none => none
  | some key =>
    match c.answers[ticket]? with
    | some response => some (.ok response)
    | none => if c.pending[key]? = some ticket then none else some (.error .closed)

/-- Ends a request, whether it is answered or given up. -/
def finish (c : Connection) (ticket : Ticket) : Connection :=
  match c.waiting[ticket]? with
  | none => c
  | some key =>
    { c with
      waiting := c.waiting.erase ticket
      pending := c.pending.erase key
      answers := c.answers.erase ticket }

/-- Requests that can end, with what they end with, in the order of their tickets. -/
def ending (c : Connection) : List (Ticket × Except TransportError Message) :=
  c.waiting.toList.filterMap fun entry => (c.outcome? entry.1).map fun r => (entry.1, r)

/-- Ends every request that can end, round by round: a request that ends can leave another one with nothing
to wait for, which ends in the next round. The first argument bounds the number of rounds. -/
def settleWithin : Nat → Connection → Connection × List (Ticket × Except TransportError Message)
  | 0, c => (c, [])
  | rounds + 1, c =>
    if c.ending.isEmpty then (c, [])
    else
      let (d, more) := settleWithin rounds (c.ending.foldl (fun c entry => c.finish entry.1) c)
      (d, c.ending ++ more)

/-- Ends every request that can end. Every round but the last ends one. -/
def settle (c : Connection) : Connection × List (Ticket × Except TransportError Message) :=
  settleWithin c.waiting.size c

end Connection
end DescriptorExchange
