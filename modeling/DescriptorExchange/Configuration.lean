import DescriptorExchange.Exchange.State
import DescriptorExchange.Requester
import DescriptorExchange.Text.Path
import DescriptorExchange.Text.Quotation
import DescriptorExchange.Toml.Shape
import DescriptorExchange.Toml.Text

/-!
The configuration file. Everything in it has a default, so that an empty file describes a working setup for
one host. The two handle ranges must not overlap, and every key of the name table must be an entity type.
-/
namespace DescriptorExchange

/-- An entity of the controller's own topology; one without a parent is a root. -/
structure TopologyEntry where
  entity : Entity
  parent : Option Entity
  logical : Bool
  deriving DecidableEq, Repr, Inhabited

def TopologyEntry.kind (t : TopologyEntry) : UInt8 :=
  if t.logical then Association.logical else Association.physical

structure Configuration where
  settings : ExchangeSettings
  /-- Whether the first connection begins a cycle. -/
  fetchOnStart : Bool
  policy : RetryPolicy
  socket : String
  /-- Milliseconds between attempts to connect. -/
  reconnect : Nat
  /-- Parents before their children. -/
  topology : List TopologyEntry
  /-- Names by entity type, as they are written, in the order of their keys. -/
  nameTable : List (String × String)
  deriving DecidableEq, Repr

inductive ConfigurationError where
  /-- There is no file, or it is not text. -/
  | unreadable
  | malformed
  | rangesOverlap (own host : HandleRange)
  | notEntityType (key : String)
  | unknownParent (entity parent : Entity)
  | topology (cause : ContainmentError)
  | repository (cause : RepositoryError)
  deriving DecidableEq, Repr

namespace ConfigurationError

def listText (e : Entity) : String := s!"[{e.type}, {e.number}, {e.container}]"

def message : ConfigurationError → String
  | unreadable => "the configuration cannot be read"
  | malformed => "the configuration is malformed"
  | rangesOverlap own host => "handle ranges overlap: local " ++ own.text ++ ", host " ++ host.text
  | notEntityType key => "entity_names key " ++ Quotation.quoted key ++ " is not an entity type"
  | unknownParent entity parent =>
    "topology entity " ++ listText entity ++ " names unknown parent " ++ listText parent
  | topology cause => "topology: " ++ cause.message
  | repository cause => "topology: " ++ cause.message

end ConfigurationError

namespace Configuration

def standard : Configuration :=
  { settings := .standard, fetchOnStart := true, policy := .standard, socket := "/run/pdrx/mctp.sock"
    reconnect := 1000, topology := [⟨⟨11521, 1, 0⟩, none, false⟩], nameTable := [] }

/-- Whether a configuration says what an empty file says. Its socket may be written in another way. -/
def isStandard (c : Configuration) : Bool :=
  Path.same c.socket standard.socket && decide ({ c with socket := standard.socket } = standard)

open Toml Toml.Shape

def entityShape : Shape Entity := fun v => (triple number16 v).map fun (type, number, container) =>
  { type, number, container }

/-- Ranges may have other fields besides. -/
def rangeShape : Shape HandleRange := fun v => do
  let [first, last] ← fields false ["start", "end"] v | none
  return { first := ← required number32 first, last := ← required number32 last }

def fixupShape : Shape ContainerFixup := fun v => do
  let [effecter, type, number] ← fields true ["effecter_id", "entity_type", "entity_instance"] v | none
  return { effecterId := ← required number16 effecter, entityType := ← required number16 type
           entityNumber := ← required number16 number }

def entryShape : Shape TopologyEntry := fun v => do
  let [entity, parent, logical] ← fields true ["entity", "parent", "logical"] v | none
  return { entity := ← required entityShape entity
           parent := ← orElse (fun v => (entityShape v).map some) none parent
           logical := ← orElse flag false logical }

def hostShape (c : Configuration) : Shape Configuration := fun v => do
  let [eid, tid] ← fields true ["eid", "tid"] v | none
  let eid ← orElse number8 c.settings.hostEndpoint.value eid
  let tid ← orElse number8 c.settings.hostTid.value tid
  return { c with settings.hostEndpoint := ⟨eid⟩, settings.hostTid := ⟨tid⟩ }

def ownShape (c : Configuration) : Shape Configuration := fun v => do
  let [tid] ← fields true ["tid"] v | none
  let tid ← orElse number8 c.settings.ownTid.value tid
  return { c with settings.ownTid := ⟨tid⟩ }

def exchangeShape (c : Configuration) : Shape Configuration := fun v => do
  let names := ["local_range", "host_range", "inventory_root", "fetch_on_start", "container_fixups"]
  let [own, host, root, fetch, fixups] ← fields true names v | none
  let s := c.settings
  return { c with
    settings.ownRange := ← orElse rangeShape s.ownRange own
    settings.hostRange := ← orElse rangeShape s.hostRange host
    settings.inventoryRoot := ← orElse text s.inventoryRoot root
    settings.fixups := ← orElse (list fixupShape) s.fixups fixups
    fetchOnStart := ← orElse flag c.fetchOnStart fetch }

def requesterShape (c : Configuration) : Shape Configuration := fun v => do
  let [timeout, retries] ← fields true ["response_timeout_ms", "retries"] v | none
  return { c with
    policy.timeout := ← orElse (natBelow UInt64.size) c.policy.timeout timeout
    policy.retries := ← orElse number8 c.policy.retries retries }

def transportShape (c : Configuration) : Shape Configuration := fun v => do
  let [socket, reconnect] ← fields true ["socket", "reconnect_ms"] v | none
  return { c with
    socket := ← orElse text c.socket socket
    reconnect := ← orElse (natBelow UInt64.size) c.reconnect reconnect }

def sortByKey (entries : List (String × String)) : List (String × String) :=
  entries.mergeSort fun a b => a.1 ≤ b.1

def shape : Shape Configuration := fun v => do
  let names := ["host", "bmc", "exchange", "requester", "transport", "topology", "entity_names"]
  let [host, own, exchange, requester, transport, topology, nameTable] ← fields true names v | none
  let c ← orElse (hostShape standard) standard host
  let c ← orElse (ownShape c) c own
  let c ← orElse (exchangeShape c) c exchange
  let c ← orElse (requesterShape c) c requester
  let c ← orElse (transportShape c) c transport
  return { c with
    topology := ← orElse (list entryShape) c.topology topology
    nameTable := sortByKey (← orElse (mapOf text) c.nameTable nameTable) }

/-- An entity type in decimal digits, which a plus sign and zeros may come before. -/
def entityType? (key : String) : Option UInt16 := do
  let written := match key.toList with
    | '+' :: rest => rest
    | cs => cs
  if written.isEmpty ∨ ¬ written.all Char.isDigit then none
  else
    let n := written.foldl (fun n c => n * 10 + (c.toNat - '0'.toNat)) 0
    if n < 65536 then some (UInt16.ofNat n) else none

/-- The names the table gives; of two keys for one type the later one in their order holds. -/
def names (c : Configuration) : Except ConfigurationError EntityNames := do
  let overrides ← c.nameTable.mapM fun (key, name) =>
    match entityType? key with
    | some type => .ok (type, name)
    | none => .error (.notEntityType key)
  return ⟨overrides⟩

def check (c : Configuration) : Except ConfigurationError Unit := do
  if c.settings.ownRange.overlaps c.settings.hostRange then
    throw (.rangesOverlap c.settings.ownRange c.settings.hostRange)
  let _ ← c.names

/-- Reads the contents of a configuration file, if there is one. -/
def load (contents : Option Bytes) : Except ConfigurationError Configuration := do
  let some bytes := contents | throw .unreadable
  let some text := String.fromUTF8? ⟨bytes.toArray⟩ | throw .unreadable
  let some c := (parse? text).bind shape | throw .malformed
  c.check
  return c

/-- Builds the controller's own topology entity by entity. A parent has to come before its children. -/
def plant : List TopologyEntry → Repository × Containment → Except ConfigurationError (Repository × Containment)
  | [], own => .ok own
  | t :: rest, (r, tree) =>
    match t.parent with
    | none => plant rest (r, (tree.addRoot t.entity .own).1)
    | some parent =>
      match tree.findExact? parent with
      | none => .error (.unknownParent t.entity parent)
      | some id =>
        match tree.attach id t.entity .own with
        | .error e => .error (.topology e)
        | .ok (tree, _) =>
          match r.associate parent t.kind t.entity with
          | .error e => .error (.repository e)
          | .ok (r, _) => plant rest (r, tree)

/-- The repository and the tree that records of the host are merged into. -/
def seed (c : Configuration) : Except ConfigurationError (Repository × Containment) :=
  plant c.topology (.empty c.settings.ownRange c.settings.hostRange, .empty)

/-- The exchange a configuration describes, not begun. -/
def exchange (c : Configuration) : Except ConfigurationError Exchange := do
  let (repository, tree) ← c.seed
  return .start c.settings (← c.names) repository tree

end Configuration
end DescriptorExchange
