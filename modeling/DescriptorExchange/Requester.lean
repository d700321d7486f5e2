import Std.Data.ExtTreeMap
import DescriptorExchange.Message.Frame

/-!
Requests to termini. A call holds one instance id from its first attempt to its end; an attempt that is
not answered in time is followed by another with the same message, until the policy's number of attempts
is used up. Calls are independent of each other but for the ids they hold.
-/
namespace DescriptorExchange

structure RetryPolicy where
  /-- Milliseconds to wait for an answer. -/
  timeout : Nat
  /-- Attempts after the first one. -/
  retries : UInt8
  deriving DecidableEq, Repr

namespace RetryPolicy

def standard : RetryPolicy := { timeout := 2000, retries := 2 }

instance : Inhabited RetryPolicy := ⟨standard⟩

/-- Attempts are counted in a byte. -/
def attempts (p : RetryPolicy) : Nat := min (p.retries.toNat + 1) 255

end RetryPolicy

/-- What is asked of a terminus. -/
structure Query where
  tid : TerminusId
  eid : EndpointId
  type : MessageType
  command : UInt8
  payload : Bytes
  deriving DecidableEq, Repr, Inhabited

/-- The message that asks it. -/
def Query.frame (q : Query) (iid : InstanceId) : Frame :=
  { eid := q.eid, message := { header := .forRequest iid q.type q.command, payload := q.payload } }

/-- How one attempt ended. -/
inductive AttemptResult where
  | answered (response : Message)
  | failed (cause : TransportError)
  | timedOut
  deriving DecidableEq, Repr, Inhabited

structure Call where
  query : Query
  /-- Held until the call ends. -/
  iid : InstanceId
  /-- Attempts begun. -/
  attempt : Nat
  deriving DecidableEq, Repr, Inhabited

namespace Call

def frame (c : Call) : Frame := c.query.frame c.iid

/-- A response has to be one to this command. -/
def accept (c : Call) (response : Message) : Except RequestError Bytes :=
  if response.header.command = c.query.command ∧ response.header.type = c.query.type then
    .ok response.payload
  else .error (.mismatch c.query.command response.header.command)

/-- The end of a call after an attempt, or none when another attempt is due. -/
def conclude (policy : RetryPolicy) (c : Call) : AttemptResult → Option (Except RequestError Bytes)
  | .answered response => some (c.accept response)
  | .failed cause => some (.error (.transport cause))
  | .timedOut =>
    if c.attempt < policy.attempts then none
    else some (.error (.timeout c.query.eid (UInt8.ofNat policy.attempts)))

end Call

abbrev CallId := Nat

structure Requester where
  policy : RetryPolicy
  ids : InstanceIds
  /-- Calls that have not ended. -/
  calls : Std.ExtTreeMap CallId Call
  nextCall : CallId

/-- What follows an attempt. -/
inductive CallStep where
  /-- The message is to be sent again. -/
  | again (frame : Frame)
  | finished (result : Except RequestError Bytes)
  /-- There is no such call. -/
  | unknown
  deriving Repr

namespace Requester

def start (policy : RetryPolicy) : Requester :=
  { policy, ids := .empty, calls := ∅, nextCall := 0 }

instance : Inhabited Requester := ⟨start default⟩

/-- Begins a call. Its message is to be sent; without a free instance id there is none. -/
def submit (r : Requester) (q : Query) : Except RequestError (Requester × CallId × Frame) := do
  let (ids, iid) ← (r.ids.allocate q.tid).mapError .instanceId
  let call : Call := { query := q, iid, attempt := 1 }
  return ({ r with ids, calls := r.calls.insert r.nextCall call, nextCall := r.nextCall + 1 },
    r.nextCall, call.frame)

/-- Ends a call and gives its instance id back. -/
def close (r : Requester) (id : CallId) (call : Call) : Requester :=
  { r with
    calls := r.calls.erase id
    ids := (r.ids.release call.query.tid call.iid).toOption.getD r.ids }

/-- Takes the result of the current attempt of a call. -/
def resolve (r : Requester) (id : CallId) (result : AttemptResult) : Requester × CallStep :=
  match r.calls[id]? with
  | none => (r, .unknown)
  | some call =>
    match call.conclude r.policy result with
    | some result => (r.close id call, .finished result)
    | none =>
      let next := { call with attempt := call.attempt + 1 }
      ({ r with calls := r.calls.insert id next }, .again next.frame)

end Requester
end DescriptorExchange
