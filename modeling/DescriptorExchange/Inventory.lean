import DescriptorExchange.Record.Entity

/-!
How entities appear in the inventory: each type has a name, and an entity's path is the names and
numbers of its ancestors and itself under a common root.
-/
namespace DescriptorExchange

/-- Names of the standard entity types. -/
def standardNames : List (UInt16 × String) :=
  [(29, "fan"), (45, "chassis"), (60, "board"), (64, "motherboard"), (66, "dimm"), (67, "dcm"),
    (120, "powersupply"), (135, "cpu"), (136, "core"), (144, "slot"), (145, "connector"),
    (11521, "system")]

/-- Names that take precedence over the standard ones; of two for one type the later holds. -/
structure EntityNames where
  overrides : List (UInt16 × String)
  deriving DecidableEq, Repr, Inhabited

namespace EntityNames

def standard : EntityNames := ⟨[]⟩

def name (names : EntityNames) (type : UInt16) : String :=
  match (names.overrides.reverse ++ standardNames).lookup type with
  | some name => name
  | none => s!"entity{type}"

def segment (names : EntityNames) (e : Entity) : String := names.name e.type ++ s!"{e.number}"

/-- The root without slashes at its end, then one segment for each entity, outermost first. -/
def path (names : EntityNames) (root : String) (lineage : List Entity) : String :=
  let trimmed := String.ofList (root.toList.reverse.dropWhile (· = '/')).reverse
  lineage.foldl (fun path e => path ++ "/" ++ names.segment e) trimmed

end EntityNames

/-- What the inventory is told. -/
inductive InventoryNotice where
  | attached (path : String) (entity : Entity)
  /-- The node left the topology, and everything below it went too. -/
  | detached (path : String) (entity : Entity)
  deriving DecidableEq, Repr, Inhabited

end DescriptorExchange
