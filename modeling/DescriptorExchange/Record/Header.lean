import DescriptorExchange.Identifiers
import DescriptorExchange.Wire.Reader

/-!
The common header of platform descriptor records, and records with a typed body. A record is the
ten-byte header followed by as many body bytes as the header declares; what follows those is ignored.
-/
namespace DescriptorExchange

inductive RecordType where
  | terminusLocator
  | numericSensor
  | stateSensor
  | numericEffecter
  | stateEffecter
  | entityAssociation
  | fruRecordSet
  | oem
  /-- A type without a name. Records of it are passed on untouched. -/
  | other (code : UInt8)
  deriving DecidableEq, Repr, Inhabited

namespace RecordType

/-- The type a code stands for. -/
def mk (code : UInt8) : RecordType :=
  if code = 1 then terminusLocator
  else if code = 2 then numericSensor
  else if code = 4 then stateSensor
  else if code = 9 then numericEffecter
  else if code = 11 then stateEffecter
  else if code = 15 then entityAssociation
  else if code = 20 then fruRecordSet
  else if code = 127 then oem
  else other code

def code : RecordType → UInt8
  | terminusLocator => 1
  | numericSensor => 2
  | stateSensor => 4
  | numericEffecter => 9
  | stateEffecter => 11
  | entityAssociation => 15
  | fruRecordSet => 20
  | oem => 127
  | other code => code

end RecordType

structure RecordHeader where
  handle : RecordHandle
  version : UInt8
  type : RecordType
  changeNumber : UInt16
  /-- Bytes that follow the header. -/
  dataLength : UInt16
  deriving DecidableEq, Repr, Inhabited

namespace RecordHeader

def length : Nat := 10

/-- The header version of every record written here. -/
def currentVersion : UInt8 := 1

def reader : Reader RecordHeader := do
  let handle ← Reader.word32 "pdr.record_handle"
  let version ← Reader.byte "pdr.version"
  let type ← Reader.byte "pdr.type"
  let changeNumber ← Reader.word16 "pdr.record_change_number"
  let dataLength ← Reader.word16 "pdr.data_length"
  return { handle, version, type := .mk type, changeNumber, dataLength }

def decode (record : Bytes) : Except WireError RecordHeader := reader.parse record

def encode (h : RecordHeader) : Bytes :=
  word32 h.handle ++ [h.version, h.type.code] ++ word16 h.changeNumber ++ word16 h.dataLength

/-- The header and the body it declares. -/
def split (record : Bytes) : Except WireError (RecordHeader × Bytes) := do
  let header ← decode record
  let data := record.drop length
  let declared := header.dataLength.toNat
  if data.length < declared then
    throw (.lengthMismatch header.handle declared data.length)
  return (header, data.take declared)

end RecordHeader

/-- Overwrites the bytes at an offset, if the record reaches that far. -/
def overwrite (field : String) (offset : Nat) (value record : Bytes) : Except WireError Bytes :=
  let stop := offset + value.length
  if record.length < stop then .error (.truncated field stop record.length)
  else .ok (record.take offset ++ value ++ record.drop stop)

/-- Replaces the handle in the header of an encoded record. -/
def setRecordHandle (handle : RecordHandle) (record : Bytes) : Except WireError Bytes :=
  overwrite "pdr.record_handle" 0 (word32 handle) record

/-- A body with a record type of its own, which a header can name. -/
class RecordBody (α : Type) where
  type : RecordType
  reader : Reader α
  encode : α → Bytes
  mk_code_type : RecordType.mk type.code = type := by rfl

variable {α : Type} [RecordBody α]

/-- Reads a whole record, checking its declared length and its type. -/
def decodeRecord (α : Type) [RecordBody α] (record : Bytes) : Except WireError (RecordHeader × α) := do
  let (header, body) ← RecordHeader.split record
  let expected := RecordBody.type α
  if header.type ≠ expected then
    throw (.unexpectedType expected.code header.type.code)
  return (header, ← (RecordBody.reader (α := α)).parse body)

/-- Writes a whole record in the current header version. The declared length keeps its low sixteen
bits only. -/
def encodeRecordAs (handle : RecordHandle) (changeNumber : UInt16) (value : α) : Bytes :=
  let body := RecordBody.encode value
  let header : RecordHeader :=
    { handle, version := RecordHeader.currentVersion, type := RecordBody.type α, changeNumber
      dataLength := UInt16.ofNat body.length }
  header.encode ++ body

/-- Writes a whole record as a fresh one, with change number zero. -/
def encodeRecord (handle : RecordHandle) (value : α) : Bytes := encodeRecordAs handle 0 value

end DescriptorExchange
