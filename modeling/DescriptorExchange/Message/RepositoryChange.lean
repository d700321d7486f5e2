import DescriptorExchange.Wire.Reader

/-!
Event data that announces a change of a record repository: either all of it is to be read again, or
change records list what was added, modified or deleted.
-/
namespace DescriptorExchange

inductive ChangeFormat where
  /-- The whole repository changed; no change records follow. -/
  | wholeRepository
  | recordTypes
  | recordHandles
  deriving DecidableEq, Repr, Inhabited

namespace ChangeFormat

def code : ChangeFormat → UInt8
  | wholeRepository => 0
  | recordTypes => 1
  | recordHandles => 2

def ofCode (code : UInt8) : Except WireError ChangeFormat :=
  if code = 0 then .ok wholeRepository
  else if code = 1 then .ok recordTypes
  else if code = 2 then .ok recordHandles
  else .error (.invalidField "repo_change.format" (UInt32.ofNat code.toNat))

end ChangeFormat

inductive ChangeOperation where
  | refreshAll
  | deleted
  | added
  | modified
  deriving DecidableEq, Repr, Inhabited

namespace ChangeOperation

def code : ChangeOperation → UInt8
  | refreshAll => 0
  | deleted => 1
  | added => 2
  | modified => 3

def ofCode (code : UInt8) : Except WireError ChangeOperation :=
  if code = 0 then .ok refreshAll
  else if code = 1 then .ok deleted
  else if code = 2 then .ok added
  else if code = 3 then .ok modified
  else .error (.invalidField "repo_change.operation" (UInt32.ofNat code.toNat))

end ChangeOperation

structure ChangeRecord where
  operation : ChangeOperation
  /-- Record handles or record types, as the format says. -/
  entries : List UInt32
  deriving DecidableEq, Repr, Inhabited

namespace ChangeRecord

def reader : Reader ChangeRecord := do
  let operation ← ChangeOperation.ofCode (← Reader.byte "repo_change.operation")
  let count ← Reader.byte "repo_change.num_entries"
  let entries ← (Reader.word32 "repo_change.entry").items count.toNat
  return { operation, entries }

/-- Fails on more entries than the one-byte count can tell. -/
def encode (r : ChangeRecord) : Except WireError Bytes := do
  let count ← countByte "repo_change.num_entries" r.entries.length
  return [r.operation.code, count] ++ r.entries.flatMap word32

end ChangeRecord

structure RepositoryChange where
  format : ChangeFormat
  records : List ChangeRecord
  deriving DecidableEq, Repr, Inhabited

namespace RepositoryChange

def reader : Reader RepositoryChange := do
  let format ← ChangeFormat.ofCode (← Reader.byte "repo_change.format")
  let count ← Reader.byte "repo_change.num_change_records"
  let records ← ChangeRecord.reader.items count.toNat
  return { format, records }

def decode (data : Bytes) : Except WireError RepositoryChange := reader.parse data

/-- Fails on more change records, or more entries in one, than a one-byte count can tell. -/
def encode (c : RepositoryChange) : Except WireError Bytes := do
  let count ← countByte "repo_change.num_change_records" c.records.length
  let records ← c.records.mapM ChangeRecord.encode
  return [c.format.code, count] ++ records.flatten

end RepositoryChange
end DescriptorExchange
