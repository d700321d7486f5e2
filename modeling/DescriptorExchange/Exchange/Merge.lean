import DescriptorExchange.Exchange.State

/-!
Merging association records of the host into the topology, and taking a merge back. The children of a
merged record become nodes of the tree and are listed in the controller's own association records.
Taking a merge back removes what it added: a node that came from the host goes with everything below
it, while a node of the controller stays and only loses the listing.
-/
namespace DescriptorExchange.Exchange

/-- The node an association is merged under. The first one of a cycle finds it by type and number, for
the host numbers its root relative to where it is attached; later ones have to name it exactly. -/
def parentNode? (x : Exchange) (container : Entity) : Option NodeId :=
  match x.cycle with
  | some c => if c.parentFound then x.tree.findExact? container else x.tree.findUnit? container
  | none => x.tree.findExact? container

/-- Attaches a child to a node and lists it in the record of the parent. Gives the record if the child
is new to the tree or to the record; a child that lives elsewhere is passed over. -/
def mergeChild (x : Exchange) (node : NodeId) (parent : Entity) (kind : UInt8) (child : Entity) :
    Exchange × Except RepositoryError (Option RecordHandle) :=
  match x.tree.attach node child .host with
  | .error _ => (x, .ok none)
  | .ok (tree, placement) =>
    let grown := { x with tree }
    let (grown, created) := match placement with
      | .present _ => (grown, false)
      | .created id =>
        let notice := (grown.path? id).map fun path => InventoryNotice.attached path child
        ({ grown with notices := grown.notices ++ notice.toList }, true)
    match grown.repository.associate parent kind child with
    | .error e => (grown, .error e)
    | .ok (repository, handle, changed) =>
      let listed := { grown with repository }
      (if changed then listed.touch [handle] else listed,
        .ok (if created ∨ changed then some handle else none))

/-- Merges children one after another. Gives those that were new, each with its record; the first
failure ends it and leaves what was done. -/
def mergeChildren (node : NodeId) (parent : Entity) (kind : UInt8) :
    List Entity → Exchange → Exchange × Except RepositoryError (List (Entity × RecordHandle))
  | [], x => (x, .ok [])
  | child :: rest, x =>
    match x.mergeChild node parent kind child with
    | (x, .error e) => (x, .error e)
    | (x, .ok record) =>
      match mergeChildren node parent kind rest x with
      | (x, .error e) => (x, .error e)
      | (x, .ok more) => (x, .ok ((record.map fun handle => (child, handle)).toList ++ more))

/-- Merges an association record. One whose parent is not in the tree is skipped. -/
def merge (x : Exchange) (hostHandle : RecordHandle) (a : Association) :
    Exchange × Except RepositoryError Unit :=
  match x.parentNode? a.container with
  | none => (x.skip, .ok ())
  | some node =>
    match x.tree.entity? node with
    | none => (x.skip, .ok ())
    | some parent =>
      match mergeChildren node parent a.kind a.children (x.mapCycle fun c => { c with parentFound := true }) with
      | (x, .error e) => (x, .error e)
      | (x, .ok new) =>
        let counted := { x with counts.merged := x.counts.merged + 1 }
        match new.getLast? with
        | none => (counted, .ok ())
        | some (_, handle) =>
          ({ counted with imports :=
              counted.imports.insert hostHandle (.merged parent (new.map Prod.fst) handle) }, .ok ())

/-- Strips entities one after another from the association records of a range. -/
def stripAll (range : HandleRange) : List Entity → Repository →
    Repository × Except RepositoryError (List RecordHandle)
  | [], r => (r, .ok [])
  | e :: rest, r =>
    match r.strip e range with
    | (r, .error cause) => (r, .error cause)
    | (r, .ok touched) =>
      let (r, more) := stripAll range rest r
      (r, more.map fun more => touched ++ more)

/-- Takes back the merge of a child that a record lists. Gives the records that changed or went. -/
def unmerge (x : Exchange) (record : RecordHandle) (child : Entity) :
    Exchange × Except RepositoryError (List RecordHandle) :=
  match x.tree.findExact? child with
  | none => (x, .ok [])
  | some id =>
    if x.tree.origin? id = some .host then
      let notice := (x.path? id).map fun path => InventoryNotice.detached path child
      let (tree, gone) := x.tree.detach id
      let (repository, touched) := stripAll x.settings.ownRange gone x.repository
      ({ x with tree, repository, notices := x.notices ++ notice.toList }, touched)
    else if (x.repository.get? record).isNone then (x, .ok [])
    else
      match x.repository.removeChild record child with
      | .error e => (x, .error e)
      | .ok (repository, changed) => ({ x with repository }, .ok (if changed then [record] else []))

/-- Takes back the merges of several children; the first failure ends it and leaves what was done. -/
def unmergeAll (record : RecordHandle) :
    List Entity → Exchange → Exchange × Except RepositoryError (List RecordHandle)
  | [], x => (x, .ok [])
  | child :: rest, x =>
    match x.unmerge record child with
    | (x, .error e) => (x, .error e)
    | (x, .ok touched) =>
      match unmergeAll record rest x with
      | (x, .error e) => (x, .error e)
      | (x, .ok more) => (x, .ok (touched ++ more))

/-- Takes back the merge of each child, passing over those that fail. -/
def retractChildren (record : RecordHandle) :
    List Entity → Exchange → Exchange × List RecordHandle
  | [], x => (x, [])
  | child :: rest, x =>
    let (x, result) := x.unmerge record child
    let (x, more) := retractChildren record rest x
    (x, (result.toOption.getD []) ++ more)

def retractImports : List Import → Exchange → Exchange × List RecordHandle
  | [], x => (x, [])
  | .stored _ :: rest, x => retractImports rest x
  | .merged _ children record :: rest, x =>
    let (x, touched) := retractChildren record children x
    let (x, more) := retractImports rest x
    (x, touched ++ more)

/-- Takes back every merge and forgets all imports. -/
def retractMerges (x : Exchange) : Exchange × List RecordHandle :=
  retractImports (x.imports.toList.map Prod.snd) { x with imports := ∅ }

end DescriptorExchange.Exchange
