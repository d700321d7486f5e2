import Std.Data.ExtTreeSet
import DescriptorExchange.Containment
import DescriptorExchange.Exchange.Change
import DescriptorExchange.RequestError
import DescriptorExchange.Sensors

/-!
The state of the exchange with the host. It owns the repository and the containment tree and knows
where each record of the host ended up. While a cycle runs it also knows which records are still to be
fetched, which one has been asked for, and what the repository was when the cycle began.
-/
namespace DescriptorExchange

/-- Copies the container that the host gives for an entity into a state effecter of the controller. -/
structure ContainerFixup where
  effecterId : UInt16
  entityType : UInt16
  entityNumber : UInt16
  deriving DecidableEq, Repr, Inhabited

structure ExchangeSettings where
  hostTid : TerminusId
  hostEndpoint : EndpointId
  /-- Written into the events sent to the host. -/
  ownTid : TerminusId
  ownRange : HandleRange
  hostRange : HandleRange
  inventoryRoot : String
  fixups : List ContainerFixup
  deriving DecidableEq, Repr

def ExchangeSettings.standard : ExchangeSettings :=
  { hostTid := ⟨1⟩, hostEndpoint := ⟨9⟩, ownTid := ⟨1⟩, ownRange := .localDefault, hostRange := .hostDefault
    inventoryRoot := "/xyz/openbmc_project/inventory", fixups := [] }

instance : Inhabited ExchangeSettings := ⟨.standard⟩

inductive ExchangeError where
  | hostDown
  /-- The request for a record was not answered. -/
  | transport (handle : RecordHandle) (cause : RequestError)
  /-- The answer could not be read. -/
  | decode (handle : RecordHandle) (cause : WireError)
  /-- The host refused. -/
  | completion (handle : RecordHandle) (code : CompletionCode)
  /-- The chain of records comes back to a handle it has been at. -/
  | chainLoop (handle : RecordHandle)
  /-- The repository failed, and nothing can go on. -/
  | fatal (cause : RepositoryError)
  deriving DecidableEq, Repr, Inhabited

namespace ExchangeError

def isFatal : ExchangeError → Bool
  | fatal _ => true
  | _ => false

def fetchText (handle : RecordHandle) : String := "GetPDR for " ++ Hexadecimal.short handle.toNat

def message : ExchangeError → String
  | hostDown => "host down"
  | transport handle cause => fetchText handle ++ " failed: " ++ cause.message
  | decode handle cause => fetchText handle ++ ": " ++ cause.message
  | completion handle code => fetchText handle ++ " completed with " ++ code.text
  | chainLoop handle => "record chain loops back to " ++ Hexadecimal.short handle.toNat
  | fatal cause => "repository failure: " ++ cause.message

end ExchangeError

inductive Phase where
  | idle
  /-- A cycle over the whole repository has not seen its first record yet. -/
  | awaitingFirstRecord
  | fetchingRecord (handle : RecordHandle)
  /-- The last cycle failed; otherwise as idle. -/
  | aborted (cause : ExchangeError)
  deriving DecidableEq, Repr, Inhabited

/-- Where a record of the host ended up. -/
inductive Import where
  | stored (handle : RecordHandle)
  /-- An association: the children it contributed under a parent, and the record that lists them. -/
  | merged (parent : Entity) (children : List Entity) (handle : RecordHandle)
  deriving DecidableEq, Repr, Inhabited

inductive FetchMode where
  /-- Each answer names the next record. -/
  | chain
  /-- Only the records asked for. -/
  | listed
  deriving DecidableEq, Repr, Inhabited

abbrev CycleId := Nat

abbrev HandleSet := Std.ExtTreeSet RecordHandle

structure Cycle where
  id : CycleId
  mode : FetchMode
  /-- Records still to be asked for. -/
  queue : List RecordHandle
  /-- The record asked for and not answered yet. -/
  inFlight : Option RecordHandle
  /-- Handles asked for, named as next, or found in a record. -/
  seen : HandleSet
  /-- Whether an association of this cycle has found its parent. -/
  parentFound : Bool
  /-- Records that may have changed since the cycle began. -/
  touched : HandleSet
  /-- The repository when the cycle began. -/
  before : Repository

structure ExchangeCounts where
  completed : Nat
  aborted : Nat
  stored : Nat
  merged : Nat
  skipped : Nat
  stale : Nat
  deriving DecidableEq, Repr, Inhabited

structure Exchange where
  settings : ExchangeSettings
  names : EntityNames
  repository : Repository
  tree : Containment
  termini : Termini
  /-- Where each record of the host ended up, by its handle there. -/
  imports : Std.ExtTreeMap RecordHandle Import
  /-- The published sensor index. -/
  sensors : SensorIndex
  hostUp : Bool
  phase : Phase
  cycle : Option Cycle
  nextCycle : CycleId
  counts : ExchangeCounts
  /-- What the inventory has been told, oldest first. -/
  notices : List InventoryNotice

namespace Exchange

/-- An exchange that has not begun, over the controller's own records and topology. -/
def start (settings : ExchangeSettings) (names : EntityNames) (repository : Repository) (tree : Containment) :
    Exchange :=
  { settings, names, repository, tree, termini := ∅, imports := ∅, sensors := ∅, hostUp := true
    phase := .idle, cycle := none, nextCycle := 0, counts := ⟨0, 0, 0, 0, 0, 0⟩, notices := [] }

instance : Inhabited Exchange := ⟨start default default default default⟩

def isBusy (x : Exchange) : Bool := x.cycle.isSome

/-- Records the running cycle has still to ask for. -/
def remaining (x : Exchange) : Nat := (x.cycle.map fun c => c.queue.length).getD 0

/-- Changes the running cycle, if there is one. -/
def mapCycle (x : Exchange) (f : Cycle → Cycle) : Exchange := { x with cycle := x.cycle.map f }

/-- Notes records that the running cycle may have changed. -/
def touch (x : Exchange) (handles : List RecordHandle) : Exchange :=
  x.mapCycle fun c => { c with touched := c.touched.insertMany handles }

def skip (x : Exchange) : Exchange := { x with counts.skipped := x.counts.skipped + 1 }

/-- The inventory path of a node. -/
def path? (x : Exchange) (id : NodeId) : Option String :=
  x.tree.path? x.names x.settings.inventoryRoot id

/-- Builds the sensor index from the sensor records of the host and publishes it. -/
def publishSensors (x : Exchange) : Exchange :=
  let records := (x.repository.ofType .stateSensor).filter fun entry =>
    x.settings.hostRange.contains entry.1
  { x with sensors :=
      SensorIndex.build (records.map fun entry => entry.2.bytes) x.termini x.settings.hostTid }

end Exchange
end DescriptorExchange
