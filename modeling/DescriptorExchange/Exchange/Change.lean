import DescriptorExchange.Message.PlatformEvent
import DescriptorExchange.Message.RepositoryChange
import DescriptorExchange.Repository

/-!
What a cycle changed, and how the host is told. Handles are sorted into added, modified and deleted by
comparing the repository with what it was; the announcement lists them in that order, in change records
of at most 255 entries.
-/
namespace DescriptorExchange

structure ChangeNotice where
  added : List RecordHandle
  modified : List RecordHandle
  deleted : List RecordHandle
  deriving DecidableEq, Repr, Inhabited

/-- How one handle differs between two repositories. -/
inductive Difference where
  | added
  | modified
  | deleted
  | same
  deriving DecidableEq, Repr

/-- Compares presence and bytes. -/
def Repository.difference (before after : Repository) (handle : RecordHandle) : Difference :=
  match before.get? handle, after.get? handle with
  | none, none => .same
  | none, some _ => .added
  | some _, none => .deleted
  | some old, some new => if old.bytes = new.bytes then .same else .modified

namespace ChangeNotice

/-- Sorts handles by how they differ, keeping their order. -/
def between (before after : Repository) (handles : List RecordHandle) : ChangeNotice :=
  let which (d : Difference) := handles.filter fun h => before.difference after h = d
  { added := which .added, modified := which .modified, deleted := which .deleted }

def isEmpty (n : ChangeNotice) : Bool := n.added.isEmpty && n.modified.isEmpty && n.deleted.isEmpty

/-- The most entries one change record can carry. -/
def maxEntries : Nat := 255

/-- Cuts a list into pieces of a given length, the last of which may be shorter. The first argument
bounds the number of pieces. -/
def pieces {α : Type} (size : Nat) : Nat → List α → List (List α)
  | 0, _ => []
  | _ + 1, [] => []
  | bound + 1, a :: rest => (a :: rest).take size :: pieces size bound ((a :: rest).drop size)

def recordsOf (operation : ChangeOperation) (handles : List RecordHandle) : List ChangeRecord :=
  (pieces maxEntries handles.length handles).map fun entries => { operation, entries }

def toChange (n : ChangeNotice) : RepositoryChange :=
  { format := .recordHandles
    records := recordsOf .added n.added ++ recordsOf .modified n.modified ++ recordsOf .deleted n.deleted }

/-- The event that announces the change. Fails on more change records than an event can count. -/
def toEvent (n : ChangeNotice) (tid : TerminusId) : Except WireError PlatformEvent :=
  n.toChange.encode.map (PlatformEvent.make tid .repositoryChange)

end ChangeNotice
end DescriptorExchange
