import Std.Data.ExtTreeMap
import DescriptorExchange.Identifiers
import DescriptorExchange.Inventory

/-!
The containment tree: which entity sits inside which. Nodes carry ids that are handed out once and
never again, so an id kept across changes names the same node or nothing. An entity may be attached in
one place only.
-/
namespace DescriptorExchange

/-- A place in the order of creation. Unbounded here: fewer than 2^32 nodes are assumed to be created, beyond
which ids of 32 bits would come again. -/
abbrev NodeId := Nat

structure Node where
  entity : Entity
  origin : Origin
  /-- None for a root. -/
  parent : Option NodeId
  /-- In the order they were attached. -/
  children : List NodeId
  deriving DecidableEq, Repr, Inhabited

structure Containment where
  nodes : Std.ExtTreeMap NodeId Node
  /-- Ids handed out so far. -/
  issued : Nat
  /-- Number of nodes, counted as they come and go. -/
  live : Nat

/-- Where an entity ended up: in a node of its own, or in one that was there already. -/
inductive Placement where
  | created (id : NodeId)
  | present (id : NodeId)
  deriving DecidableEq, Repr, Inhabited

def Placement.id : Placement → NodeId
  | created id => id
  | present id => id

inductive ContainmentError where
  | unknownNode (id : NodeId)
  /-- The entity lives under another parent, or is a root. -/
  | attachedElsewhere (entity : Entity) (parent : Option NodeId)
  deriving DecidableEq, Repr, Inhabited

namespace ContainmentError

def nodeText (id : NodeId) : String := s!"NodeId({id})"

def entityText (e : Entity) : String :=
  "Entity \x7b " ++ s!"entity_type: {e.type}, instance_number: {e.number}, container_id: {e.container}"
    ++ " \x7d"

def message : ContainmentError → String
  | unknownNode id => "unknown node " ++ nodeText id
  | attachedElsewhere entity parent =>
    "entity " ++ entityText entity ++ " already attached under " ++
      match parent with
      | some id => "Some(" ++ nodeText id ++ ")"
      | none => "None"

end ContainmentError

namespace Containment

def empty : Containment := ⟨∅, 0, 0⟩

instance : Inhabited Containment := ⟨empty⟩

def node? (t : Containment) (id : NodeId) : Option Node := t.nodes[id]?

def size (t : Containment) : Nat := t.live

def entity? (t : Containment) (id : NodeId) : Option Entity := (t.node? id).map Node.entity

def origin? (t : Containment) (id : NodeId) : Option Origin := (t.node? id).map Node.origin

def parent? (t : Containment) (id : NodeId) : Option NodeId := (t.node? id).bind Node.parent

/-- The first node, in the order of creation, that satisfies a condition. -/
def find? (t : Containment) (p : Node → Bool) : Option NodeId :=
  (t.nodes.toList.find? fun entry => p entry.2).map Prod.fst

/-- The first node that holds exactly this entity. -/
def findExact? (t : Containment) (e : Entity) : Option NodeId := t.find? fun n => n.entity = e

/-- The first node that holds an entity of this type and number, in any container. -/
def findUnit? (t : Containment) (e : Entity) : Option NodeId := t.find? fun n => n.entity.sameUnit e

def push (t : Containment) (n : Node) : Containment :=
  { nodes := t.nodes.insert t.issued n, issued := t.issued + 1, live := t.live + 1 }

/-- Adds a root, unless one holds the entity already. -/
def addRoot (t : Containment) (e : Entity) (origin : Origin) : Containment × Placement :=
  match t.find? fun n => n.parent = none && n.entity = e with
  | some id => (t, .present id)
  | none => (t.push { entity := e, origin, parent := none, children := [] }, .created t.issued)

/-- Attaches an entity under a node. One that is a child of it already stays as it is; one that lives
anywhere else is refused. -/
def attach (t : Containment) (parent : NodeId) (e : Entity) (origin : Origin) :
    Except ContainmentError (Containment × Placement) :=
  match t.node? parent with
  | none => .error (.unknownNode parent)
  | some above =>
    match above.children.find? fun c => t.entity? c = some e with
    | some child => .ok (t, .present child)
    | none =>
      match t.findExact? e with
      | some elsewhere => .error (.attachedElsewhere e (t.parent? elsewhere))
      | none =>
        let linked := { above with children := above.children ++ [t.issued] }
        let grown := t.push { entity := e, origin, parent := some parent, children := [] }
        .ok ({ grown with nodes := grown.nodes.insert parent linked }, .created t.issued)

/-- A node and what lies below it down to a given depth, parents before children. -/
def below (t : Containment) : Nat → NodeId → List NodeId
  | 0, _ => []
  | depth + 1, id =>
    match t.node? id with
    | none => []
    | some n => id :: n.children.flatMap (t.below depth)

/-- A node and everything below it, parents before children and siblings in attach order. No path is
longer than the number of nodes. -/
def subtree (t : Containment) (id : NodeId) : List NodeId := t.below t.nodes.size id

/-- Takes a child out of the list of its parent. -/
def unlink (t : Containment) (child : NodeId) : Containment :=
  match t.parent? child with
  | none => t
  | some parent =>
    match t.node? parent with
    | none => t
    | some above =>
      { t with nodes := t.nodes.insert parent { above with children := above.children.filter (· ≠ child) } }

/-- Takes out a node alone, if there is one. -/
def erase (t : Containment) (id : NodeId) : Containment :=
  match t.node? id with
  | none => t
  | some _ => { t with nodes := t.nodes.erase id, live := t.live - 1 }

/-- Removes a node with everything below it. The removed entities come parents before children. -/
def detach (t : Containment) (id : NodeId) : Containment × List Entity :=
  let gone := t.subtree id
  (gone.foldl erase (t.unlink id), gone.filterMap t.entity?)

/-- The entities from a node up to its root, within a given number of steps. -/
def upward (t : Containment) : Nat → NodeId → Option (List Entity)
  | 0, _ => none
  | steps + 1, id => do
    let n ← t.node? id
    match n.parent with
    | none => return [n.entity]
    | some parent => return n.entity :: (← t.upward steps parent)

/-- The entities from the root of a node down to it. -/
def lineage? (t : Containment) (id : NodeId) : Option (List Entity) :=
  (t.upward t.nodes.size id).map List.reverse

/-- The inventory path of a node. -/
def path? (t : Containment) (names : EntityNames) (root : String) (id : NodeId) : Option String :=
  (t.lineage? id).map (names.path root)

end Containment
end DescriptorExchange
