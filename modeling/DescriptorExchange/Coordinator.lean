import DescriptorExchange.Exchange.Cycle
import DescriptorExchange.Message.SensorReadings
import DescriptorExchange.Requester

/-!
The coordinator runs the exchange. Everything that is to be done with the exchange is posted to its inbox
and done one item after another. A request to the host is made outside; its answer is posted like anything
else, so that the host can be served while a request is outstanding. The coordinator goes on as long as
somebody can post: whoever holds it, or an outstanding request of its own.
-/
namespace DescriptorExchange

/-- An item of the inbox. -/
inductive Posting where
  | resync
  | fetch (handles : List RecordHandle)
  | delete (handles : List RecordHandle)
  | hostDown
  /-- The host is back; a cycle over its whole repository begins. -/
  | hostUp
  /-- Makes the next request of the running cycle. -/
  | step
  | response (cycle : CycleId) (answer : Except RequestError Bytes)
  /-- A request of the host, whose answer goes to a ticket. -/
  | serve (ticket : Nat) (request : RecordRequest)
  | stop

/-- What observers are told. -/
inductive ExchangeEvent where
  | completed (cycle : CycleId) (notice : Option ChangeNotice)
  | aborted (cause : ExchangeError)
  /-- After a cycle, sensors that answered and present states that were accepted. -/
  | surveyed (cycle : CycleId) (read applied : Nat)

/-- A sensor to be read, and the state sets it had when the survey began. -/
structure SurveyTarget where
  key : SensorKey
  eid : EndpointId
  setIds : List UInt16
  deriving DecidableEq, Repr

def SurveyTarget.query (t : SurveyTarget) : Query :=
  { tid := t.key.tid, eid := t.eid, type := .platform, command := ReadingsRequest.command
    payload := (ReadingsRequest.plain t.key.sensorId).encode }

/-- What the coordinator wants done outside. -/
inductive Effect where
  /-- Ask the host for a record and post the answer. -/
  | fetch (cycle : CycleId) (query : Query)
  /-- Tell the host about a change; the answer does not matter. -/
  | announce (query : Query)
  /-- Read sensors one after another and report what came of it. -/
  | survey (cycle : CycleId) (targets : List SurveyTarget)
  | reply (ticket : Nat) (response : RecordResponse)
  | report (event : ExchangeEvent)

inductive RunState where
  | running
  | stopped
  /-- Ended by a fatal error. -/
  | failed (cause : ExchangeError)
  deriving DecidableEq, Repr, Inhabited

structure Coordinator where
  exchange : Exchange
  inbox : List Posting
  /-- Cycles whose requests are outstanding. -/
  fetches : List CycleId
  /-- Whether anyone but its own requests can post. -/
  held : Bool
  /-- Whether sensors are read after a cycle. -/
  surveys : Bool
  state : RunState

namespace Coordinator

def start (exchange : Exchange) (surveys : Bool) : Coordinator :=
  { exchange, inbox := [], fetches := [], held := true, surveys, state := .running }

/-- Whether anyone can post. -/
def live (c : Coordinator) : Bool := c.held || !c.fetches.isEmpty

/-- Posts an item; none once the coordinator has stopped. -/
def post? (c : Coordinator) (p : Posting) : Option Coordinator :=
  if c.state = .running then some { c with inbox := c.inbox ++ [p] } else none

/-- Said when an item cannot be posted. -/
def stoppedMessage : String := "exchange driver stopped"

/-- Posts a step, if anyone can post. -/
def schedule (c : Coordinator) : Coordinator :=
  if c.live then { c with inbox := c.inbox ++ [.step] } else c

def hostQuery (c : Coordinator) (command : UInt8) (payload : Bytes) : Query :=
  { tid := c.exchange.settings.hostTid, eid := c.exchange.settings.hostEndpoint, type := .platform
    command, payload }

/-- Makes the next request of the running cycle. -/
def makeRequest (c : Coordinator) : Coordinator × List Effect :=
  match c.exchange.nextRequest with
  | (exchange, .error e) => ({ c with exchange }, [.report (.aborted e)])
  | (exchange, .ok none) => ({ c with exchange }, [])
  | (exchange, .ok (some f)) =>
    let asked := { c with exchange }
    if asked.live then
      ({ asked with fetches := asked.fetches ++ [f.cycle] },
        [.fetch f.cycle (asked.hostQuery RecordRequest.command f.body.encode)])
    else (asked, [])

/-- The announcement of a change, unless it does not fit an event. -/
def announcement (c : Coordinator) (notice : Option ChangeNotice) : List Effect :=
  match notice with
  | none => []
  | some n =>
    match n.toEvent c.exchange.settings.ownTid with
    | .ok event => [.announce (c.hostQuery PlatformEvent.command event.encode)]
    | .error _ => []

/-- The endpoint of a sensor is the one of its terminus, or the host's when that is not known. -/
def surveyTargets (c : Coordinator) : List SurveyTarget :=
  c.exchange.sensors.toList.map fun (key, sensor) =>
    { key, eid := (c.exchange.termini.endpoint? key.tid).getD c.exchange.settings.hostEndpoint
      setIds := sensor.setIds }

/-- The survey after a cycle, while the host is up and there are sensors to read. -/
def survey (c : Coordinator) (cycle : CycleId) : List Effect :=
  if c.surveys ∧ c.exchange.hostUp ∧ ¬ c.exchange.sensors.isEmpty then [.survey cycle c.surveyTargets]
  else []

def takeResponse (c : Coordinator) (cycle : CycleId) (answer : Except RequestError Bytes) :
    Coordinator × List Effect :=
  match c.exchange.receive cycle answer with
  | (exchange, .error e) =>
    ({ c with exchange, state := if e.isFatal then .failed e else c.state }, [.report (.aborted e)])
  | (exchange, .ok .proceed) => ({ c with exchange }.schedule, [])
  | (exchange, .ok .stale) => ({ c with exchange }, [])
  | (exchange, .ok (.complete notice)) =>
    let done := { c with exchange }
    (done, done.announcement notice ++ [.report (.completed cycle notice)] ++ done.survey cycle)

/-- Does what one item asks for. -/
def perform (c : Coordinator) : Posting → Coordinator × List Effect
  | .resync => ({ c with exchange := c.exchange.beginResync.1 }.schedule, [])
  | .fetch handles =>
    match c.exchange.beginFetch handles with
    | (exchange, some _) => ({ c with exchange }.schedule, [])
    | (exchange, none) => ({ c with exchange }, [])
  | .delete handles => ({ c with exchange := (c.exchange.forget handles).1 }, [])
  | .hostDown => ({ c with exchange := (c.exchange.setLink false).invalidateTermini.1 }, [])
  | .hostUp => ({ c with exchange := (c.exchange.setLink true).beginResync.1 }.schedule, [])
  | .step => c.makeRequest
  | .response cycle answer => c.takeResponse cycle answer
  | .serve ticket request => (c, [.reply ticket (c.exchange.serve request)])
  | .stop => ({ c with state := .stopped }, [])

/-- Takes the first item of the inbox. None when there is nothing to do now; with an empty inbox and nobody
to post, the coordinator stops. -/
def process (c : Coordinator) : Option (Coordinator × List Effect) :=
  match c.state, c.inbox with
  | .running, p :: rest => some ({ c with inbox := rest }.perform p)
  | .running, [] => if c.live then none else some ({ c with state := .stopped }, [])
  | _, _ => none

/-- The request of a cycle came to its end; the answer is posted. -/
def fetched (c : Coordinator) (cycle : CycleId) (answer : Except RequestError Bytes) : Coordinator :=
  let posted := (c.post? (.response cycle answer)).getD c
  { posted with fetches := posted.fetches.erase cycle }

/-- Nobody holds the coordinator any more. -/
def release (c : Coordinator) : Coordinator := { c with held := false }

/-- Present states of the enabled offsets of a reading that the index accepts. -/
def acceptReadings (c : Coordinator) (t : SurveyTarget) (readings : List Reading) : List StateChange :=
  ((readings.take 256).zipIdx.filter fun (r, _) => r.isEnabled).filterMap fun (r, offset) =>
    (c.exchange.sensors.accept t.setIds t.key (UInt8.ofNat offset) r.present).toOption

end Coordinator
end DescriptorExchange
