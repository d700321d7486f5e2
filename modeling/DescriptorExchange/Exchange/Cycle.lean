import DescriptorExchange.Exchange.Import
import DescriptorExchange.Message.RecordTransfer

/-!
Cycles of the exchange. A cycle asks for one record at a time: either it follows the host's chain from
the first record on, or it asks for listed records only. Answers that do not belong to the outstanding
request of the running cycle are dropped. A cycle that has nothing left to ask for completes: container
fix-ups are applied, the sensor index is published, and the difference to the repository at its start is
the result.
-/
namespace DescriptorExchange

/-- A record to be asked for on behalf of a cycle. -/
structure FetchRequest where
  cycle : CycleId
  handle : RecordHandle
  deriving DecidableEq, Repr, Inhabited

def FetchRequest.body (f : FetchRequest) : RecordRequest := .whole f.handle

/-- What an answer led to. -/
inductive FetchOutcome where
  /-- Another record has to be asked for. -/
  | proceed
  /-- The cycle is complete, with what it changed if it changed anything. -/
  | complete (notice : Option ChangeNotice)
  /-- The answer belonged to nothing and was dropped. -/
  | stale
  deriving DecidableEq, Repr, Inhabited

namespace Exchange

/-- Begins a cycle. One that is running is aborted. -/
def startCycle (x : Exchange) (mode : FetchMode) (queue : List RecordHandle) : Exchange × CycleId :=
  let cycle : Cycle :=
    { id := x.nextCycle, mode, queue, inFlight := none, seen := ∅, parentFound := false, touched := ∅
      before := x.repository }
  ({ x with
      cycle := some cycle
      nextCycle := x.nextCycle + 1
      counts.aborted := x.counts.aborted + if x.cycle.isSome then 1 else 0 }, x.nextCycle)

/-- Begins a cycle over the whole repository of the host. Everything earlier imports brought in is taken
back first; the controller's own records and nodes stay. -/
def beginResync (x : Exchange) : Exchange × CycleId :=
  let (x, id) := x.startCycle .chain [RecordHandle.terminator]
  let (x, retracted) := x.retractMerges
  let (repository, removed) := x.repository.removeRange x.settings.hostRange
  (({ x with repository, termini := ∅, phase := .awaitingFirstRecord }.touch retracted).touch
    (removed.map Prod.fst), id)

/-- Fetches listed records. They join the running cycle, leaving out what it is about to ask for
anyway; without one they begin a cycle, unless there is nothing to fetch. -/
def beginFetch (x : Exchange) (handles : List RecordHandle) : Exchange × Option CycleId :=
  let wanted := handles.filter (· ≠ RecordHandle.terminator)
  match x.cycle with
  | some c =>
    let fresh := wanted.filter fun h => h ∉ c.queue ∧ c.inFlight ≠ some h
    ({ x with cycle := some { c with queue := c.queue ++ fresh } }, some c.id)
  | none =>
    match wanted with
    | [] => (x, none)
    | first :: _ =>
      let (x, id) := x.startCycle .listed wanted
      ({ x with phase := .fetchingRecord first }, some id)

/-- Ends the running cycle with an error. A host that went down leaves no trace of it. -/
def abort (x : Exchange) (e : ExchangeError) : Exchange :=
  { x with
    cycle := none
    counts.aborted := x.counts.aborted + 1
    phase := if e = .hostDown then .idle else .aborted e }

/-- The next record to ask for: none while nothing runs, an answer is outstanding, or nothing is left. A
host that is down ends the cycle. -/
def nextRequest (x : Exchange) : Exchange × Except ExchangeError (Option FetchRequest) :=
  match x.cycle with
  | none => (x, .ok none)
  | some c =>
    if x.hostUp then
      match c.inFlight, c.queue with
      | none, handle :: rest =>
        let asked := { c with queue := rest, inFlight := some handle, seen := c.seen.insert handle }
        let phase := if handle = RecordHandle.terminator then x.phase else .fetchingRecord handle
        ({ x with cycle := some asked, phase }, .ok (some { cycle := c.id, handle }))
      | _, _ => (x, .ok none)
    else (x.abort .hostDown, .error .hostDown)

/-- The record in an answer and the handle after it. -/
def readAnswer (handle : RecordHandle) (answer : Except RequestError Bytes) :
    Except ExchangeError (Bytes × RecordHandle) := do
  let body ← answer.mapError (.transport handle)
  let response ← (RecordResponse.decode body).mapError (.decode handle)
  if ¬ response.completion.isSuccess then
    throw (.completion handle response.completion)
  let record ← response.record.mapError (.decode handle)
  return (record, response.next)

/-- Copies a container id as a fix-up says. Merged children are listed in the controller's own records, so
these are searched after the records of the host. Gives the record if it changed. -/
def applyFixup (settings : ExchangeSettings) (f : ContainerFixup) (r : Repository) :
    Repository × Except RepositoryError (Option RecordHandle) :=
  let container := (r.findContainer? f.entityType f.entityNumber settings.hostRange).or
    (r.findContainer? f.entityType f.entityNumber settings.ownRange)
  match container with
  | some container => r.setEffecterContainer f.effecterId container
  | none => (r, .ok none)

/-- Applies fix-ups one after another. Gives the records that changed. -/
def applyFixups (settings : ExchangeSettings) : List ContainerFixup → Repository →
    Repository × Except RepositoryError (List RecordHandle)
  | [], r => (r, .ok [])
  | f :: rest, r =>
    match applyFixup settings f r with
    | (r, .error cause) => (r, .error cause)
    | (r, .ok changed) =>
      let (r, more) := applyFixups settings rest r
      (r, more.map fun more => changed.toList ++ more)

/-- Completes the running cycle, unless a fix-up fails. -/
def finish (x : Exchange) (c : Cycle) : Exchange × Except ExchangeError (Option ChangeNotice) :=
  match applyFixups x.settings x.settings.fixups x.repository with
  | (repository, .error cause) => ({ x with repository }.abort (.fatal cause), .error (.fatal cause))
  | (repository, .ok fixed) =>
    let published := { x with repository }.publishSensors
    let notice := ChangeNotice.between c.before repository (c.touched.insertMany fixed).toList
    ({ published with
        cycle := none
        phase := .idle
        counts.completed := published.counts.completed + 1 },
      .ok (if notice.isEmpty then none else some notice))

/-- Goes on after an imported record: along the chain if the cycle follows it, or to completion. -/
def advance (x : Exchange) (next : RecordHandle) : Exchange × Except ExchangeError FetchOutcome :=
  match x.cycle with
  | none => (x, .ok .stale)
  | some c =>
    let follows := c.mode = .chain ∧ next ≠ RecordHandle.terminator
    if follows ∧ next ∈ c.seen then (x.abort (.chainLoop next), .error (.chainLoop next))
    else
      let c := if follows then { c with seen := c.seen.insert next, queue := c.queue ++ [next] } else c
      let x := { x with cycle := some c }
      if c.queue.isEmpty then
        let (x, notice) := x.finish c
        (x, notice.map .complete)
      else (x, .ok .proceed)

/-- Takes the answer to the outstanding request of a cycle. Records imported before a failure stay. -/
def receive (x : Exchange) (cycle : CycleId) (answer : Except RequestError Bytes) :
    Exchange × Except ExchangeError FetchOutcome :=
  let dropped := { x with counts.stale := x.counts.stale + 1 }
  match x.cycle with
  | none => (dropped, .ok .stale)
  | some c =>
    match c.inFlight with
    | none => (dropped, .ok .stale)
    | some handle =>
      if c.id ≠ cycle then (dropped, .ok .stale)
      else
        let answered := { x with cycle := some { c with inFlight := none } }
        match readAnswer handle answer with
        | .error e => (answered.abort e, .error e)
        | .ok (record, next) =>
          match answered.importRecord record with
          | (x, .error e) => (x.abort (.fatal e), .error (.fatal e))
          | (x, .ok ()) => x.advance next

def setLink (x : Exchange) (up : Bool) : Exchange := { x with hostUp := up }

/-- Marks termini as out of reach one after another, in the map and in their locator records. -/
def invalidateEach : List UInt16 → Exchange → Exchange × Except RepositoryError (List RecordHandle)
  | [], x => (x, .ok [])
  | terminusHandle :: rest, x =>
    let termini := x.termini.modify terminusHandle fun t => { t with valid := false }
    match x.repository.setLocatorValidity terminusHandle false with
    | (repository, .error cause) => ({ x with repository, termini }, .error cause)
    | (repository, .ok changed) =>
      let (x, more) := invalidateEach rest { x with repository, termini }
      (x, more.map fun more => changed ++ more)

/-- Marks all termini of the host as out of reach. Gives the records that changed. -/
def invalidateTermini (x : Exchange) : Exchange × Except RepositoryError (List RecordHandle) :=
  invalidateEach x.termini.keys x

/-- Answers a request of the host for a record of the repository. -/
def serve (x : Exchange) (request : RecordRequest) : RecordResponse :=
  match x.repository.getWithNext? request.handle with
  | some (_, record, next) => .single next record.bytes
  | none => .refusal .invalidRecordHandle

end Exchange
end DescriptorExchange
