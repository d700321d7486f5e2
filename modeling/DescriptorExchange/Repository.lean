import Std.Data.ExtTreeMap
import DescriptorExchange.Record.Association
import DescriptorExchange.Record.StateEffecter
import DescriptorExchange.Record.TerminusLocator

/-!
The record repository. Records are kept by handle. Two ranges of handles divide it: one for the records
the controller generates, one for those imported from the host. Storing a record writes its handle into
its header, so the two never differ. An operation on one record that fails leaves the repository as it
was; one that goes through several records ends at the first failure.
-/
namespace DescriptorExchange

structure Record where
  type : RecordType
  origin : Origin
  /-- The encoded record, header included. -/
  bytes : Bytes
  deriving DecidableEq, Repr, Inhabited

structure Repository where
  ownRange : HandleRange
  hostRange : HandleRange
  records : Std.ExtTreeMap RecordHandle Record

inductive RepositoryError where
  | noFreeHandle (range : HandleRange)
  | malformed (cause : WireError)
  | unknownHandle (handle : RecordHandle)
  /-- The association record lists as many children as one record can. -/
  | associationFull (handle : RecordHandle)
  deriving DecidableEq, Repr, Inhabited

def RepositoryError.message : RepositoryError → String
  | noFreeHandle range => "no free record handle in " ++ range.text
  | malformed cause => "malformed record: " ++ cause.message
  | unknownHandle handle => "no record with handle " ++ Hexadecimal.short handle.toNat
  | associationFull handle =>
    "association record " ++ Hexadecimal.short handle.toNat ++ " cannot hold more children"

namespace Repository

def empty (ownRange hostRange : HandleRange) : Repository := { ownRange, hostRange, records := ∅ }

instance : Inhabited Repository := ⟨empty .localDefault .hostDefault⟩

def range (r : Repository) : Origin → HandleRange
  | .own => r.ownRange
  | .host => r.hostRange

/-- All records in the order of their handles. -/
def toList (r : Repository) : List (RecordHandle × Record) := r.records.toList

def get? (r : Repository) (handle : RecordHandle) : Option Record := r.records[handle]?

def inRange (r : Repository) (range : HandleRange) : List (RecordHandle × Record) :=
  r.toList.filter fun entry => range.contains entry.1

def ofType (r : Repository) (type : RecordType) : List (RecordHandle × Record) :=
  r.toList.filter fun entry => entry.2.type = type

/-- The highest handle in use in a range. -/
def lastHandle? (r : Repository) (range : HandleRange) : Option RecordHandle :=
  (r.inRange range).getLast?.map Prod.fst

/-- A record and the handle of the one after it. The terminator asks for the first record, and comes
after the last one. -/
def getWithNext? (r : Repository) (handle : RecordHandle) : Option (RecordHandle × Record × RecordHandle) := do
  let (found, record) ←
    if handle = RecordHandle.terminator then r.toList.head?
    else (r.get? handle).map fun record => (handle, record)
  let after := r.toList.find? fun entry => found < entry.1
  return (found, record, (after.map Prod.fst).getD RecordHandle.terminator)

/-- The first handle without a record among a number of consecutive ones, not going past `last`. -/
def firstFree? (r : Repository) (last : RecordHandle) : Nat → RecordHandle → Option RecordHandle
  | 0, _ => none
  | tries + 1, handle =>
    if handle ∉ r.records then some handle
    else if handle = last then none
    else r.firstFree? last tries (handle + 1)

/-- The handle after the last one in use, or the lowest free one when that is the end of the range. -/
def nextFree? (r : Repository) (range : HandleRange) : Option RecordHandle :=
  match r.lastHandle? range with
  | none => some range.first
  | some last =>
    if last < range.last then some (last + 1)
    else r.firstFree? range.last (r.records.size + 1) range.first

/-- Stores a record and returns its handle. A host record keeps its own handle when that lies in the
host range and is free, so handles stay the same from one import to the next; all other records take
the next free handle of their range. -/
def insert (r : Repository) (origin : Origin) (bytes : Bytes) :
    Except RepositoryError (Repository × RecordHandle) := do
  let (header, _) ← (RecordHeader.split bytes).mapError .malformed
  let range := r.range origin
  let keeps := origin = .host ∧ range.contains header.handle ∧ header.handle ∉ r.records
  let handle ←
    if keeps then pure header.handle
    else match r.nextFree? range with
      | some handle => pure handle
      | none => throw (.noFreeHandle range)
  let bytes ← (setRecordHandle handle bytes).mapError .malformed
  return ({ r with records := r.records.insert handle { type := header.type, origin, bytes } }, handle)

def erase (r : Repository) (handle : RecordHandle) : Repository :=
  { r with records := r.records.erase handle }

/-- Removes the listed records and returns them in the order of their handles. Handles without a record
are passed over. -/
def removeAll (r : Repository) (handles : List RecordHandle) : Repository × List (RecordHandle × Record) :=
  (handles.foldl erase r, r.toList.filter fun entry => entry.1 ∈ handles)

/-- Removes every record in a range and returns them. -/
def removeRange (r : Repository) (range : HandleRange) : Repository × List (RecordHandle × Record) :=
  r.removeAll ((r.inRange range).map Prod.fst)

/-! Association records -/

/-- The association records of a range that can be read, with their headers. -/
def associations (r : Repository) (range : HandleRange) :
    List (RecordHandle × RecordHeader × Association) :=
  (r.inRange range).filterMap fun (handle, record) =>
    if record.type = .entityAssociation then
      (decodeRecord Association record.bytes).toOption.map fun decoded => (handle, decoded)
    else none

/-- The first association record of a range with this container and kind. -/
def findAssociation? (r : Repository) (parent : Entity) (kind : UInt8) (range : HandleRange) :
    Option RecordHandle :=
  ((r.associations range).find? fun (_, _, a) => a.container = parent && a.kind = kind).map Prod.fst

/-- Writes an edited association in place of a record, under the change number it had. -/
def putAssociation (r : Repository) (handle : RecordHandle) (changeNumber : UInt16) (a : Association) :
    Repository :=
  match r.get? handle with
  | none => r
  | some record =>
    let bytes := encodeRecordAs handle changeNumber a
    { r with records := r.records.insert handle { record with bytes } }

def association (r : Repository) (handle : RecordHandle) :
    Except RepositoryError (RecordHeader × Association) :=
  match r.get? handle with
  | none => .error (.unknownHandle handle)
  | some record => (decodeRecord Association record.bytes).mapError .malformed

/-- Appends a child to an association record; says whether it was not listed yet. -/
def addChild (r : Repository) (handle : RecordHandle) (child : Entity) :
    Except RepositoryError (Repository × Bool) := do
  let (header, a) ← r.association handle
  if child ∈ a.children then return (r, false)
  if a.children.length = Association.maxChildren then throw (.associationFull handle)
  return (r.putAssociation handle header.changeNumber { a with children := a.children ++ [child] }, true)

/-- An association record without one of its children. A record left without any goes away. -/
def dropChild (r : Repository) (handle : RecordHandle) (header : RecordHeader) (a : Association)
    (child : Entity) : Repository :=
  let left := a.children.filter (· ≠ child)
  if left.isEmpty then r.erase handle
  else r.putAssociation handle header.changeNumber { a with children := left }

/-- Takes a child out of an association record; says whether it was listed. -/
def removeChild (r : Repository) (handle : RecordHandle) (child : Entity) :
    Except RepositoryError (Repository × Bool) := do
  let (header, a) ← r.association handle
  if child ∈ a.children then return (r.dropChild handle header a child, true)
  else return (r, false)

/-- The association records of a range that name an entity as their container or as a child. -/
def naming (r : Repository) (e : Entity) (range : HandleRange) :
    List (RecordHandle × RecordHeader × Association) :=
  (r.associations range).filter fun (_, _, a) => a.container = e ∨ e ∈ a.children

/-- Takes an entity out of one record after another: those said to have it as their container go away, the
others are read again and lose it as a child. -/
def stripEach (e : Entity) : List (RecordHandle × Bool) → Repository →
    Repository × Except RepositoryError (List RecordHandle)
  | [], r => (r, .ok [])
  | (handle, isContainer) :: rest, r =>
    if isContainer then
      let (r, touched) := stripEach e rest (r.erase handle)
      (r, touched.map fun touched => handle :: touched)
    else
      match r.removeChild handle e with
      | .error cause => (r, .error cause)
      | .ok (r, changed) =>
        let (r, touched) := stripEach e rest r
        (r, touched.map fun touched => if changed then handle :: touched else touched)

/-- Removes an entity from every association record of a range. Returns the handles of the records that
changed or went. -/
def strip (r : Repository) (e : Entity) (range : HandleRange) :
    Repository × Except RepositoryError (List RecordHandle) :=
  stripEach e ((r.naming e range).map fun (handle, _, a) => (handle, a.container = e)) r

/-- Stores a new record of the controller's own that lists one child. -/
def createAssociation (r : Repository) (parent : Entity) (kind : UInt8) (child : Entity) :
    Except RepositoryError (Repository × RecordHandle) :=
  let a : Association := { containerId := child.container, kind, container := parent, children := [child] }
  r.insert .own (encodeRecord RecordHandle.terminator a)

/-- Lists a child under its parent in the controller's own association records, in the record of that
parent and kind or in a new one. Returns the record and whether anything changed. -/
def associate (r : Repository) (parent : Entity) (kind : UInt8) (child : Entity) :
    Except RepositoryError (Repository × RecordHandle × Bool) :=
  match r.findAssociation? parent kind r.ownRange with
  | some handle => (r.addChild handle child).map fun (r, changed) => (r, handle, changed)
  | none => (r.createAssociation parent kind child).map fun (r, handle) => (r, handle, true)

/-- The container the association records of a range give for an entity, as a child first and as a
container second, in the first record that names it. -/
def findContainer? (r : Repository) (type number : UInt16) (range : HandleRange) : Option UInt16 :=
  let named (e : Entity) : Bool := e.type = type && e.number = number
  (r.associations range).findSome? fun (_, _, a) =>
    ((a.children ++ [a.container]).find? named).map Entity.container

/-! Records that are changed in place -/

/-- Sets the container of the entity of one of the controller's own state effecters. Returns the handle
of the record if it changed. -/
def setEffecterContainer (r : Repository) (effecterId container : UInt16) :
    Repository × Except RepositoryError (Option RecordHandle) :=
  let isIt (entry : RecordHandle × Record) : Bool :=
    entry.2.type = .stateEffecter && match decodeRecord StateEffecter entry.2.bytes with
      | .ok (_, e) => e.effecterId = effecterId
      | .error _ => false
  match (r.inRange r.ownRange).find? isIt with
  | none => (r, .ok none)
  | some (handle, record) =>
    match StateEffecter.setContainer container record.bytes with
    | .error cause => (r, .error (.malformed cause))
    | .ok bytes =>
      if bytes = record.bytes then (r, .ok none)
      else ({ r with records := r.records.insert handle { record with bytes } }, .ok (some handle))

/-- Sets the validity of the listed locator records of a terminus, one after another. Records of other kinds
or termini are passed over, and so are those that cannot be read. -/
def validateEach (terminusHandle : UInt16) (valid : Bool) : List (RecordHandle × Record) → Repository →
    Repository × Except RepositoryError (List RecordHandle)
  | [], r => (r, .ok [])
  | (handle, record) :: rest, r =>
    if record.type ≠ .terminusLocator then validateEach terminusHandle valid rest r
    else
      match decodeRecord TerminusLocator record.bytes with
      | .error _ => validateEach terminusHandle valid rest r
      | .ok (_, t) =>
        if t.terminusHandle ≠ terminusHandle ∨ t.valid = valid then
          validateEach terminusHandle valid rest r
        else
          match TerminusLocator.setValidity valid record.bytes with
          | .error cause => (r, .error (.malformed cause))
          | .ok bytes =>
            let marked := { r with records := r.records.insert handle { record with bytes } }
            let (r, changed) := validateEach terminusHandle valid rest marked
            (r, changed.map fun changed => handle :: changed)

/-- Sets the validity of every locator record of a terminus. Returns the handles of those that
changed. -/
def setLocatorValidity (r : Repository) (terminusHandle : UInt16) (valid : Bool) :
    Repository × Except RepositoryError (List RecordHandle) :=
  validateEach terminusHandle valid r.toList r

end Repository
end DescriptorExchange
