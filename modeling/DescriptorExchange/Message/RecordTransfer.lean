import DescriptorExchange.Identifiers
import DescriptorExchange.Wire.Reader

/-!
Bodies of the command that transfers records one by one. A request names a record, or asks for the
first; a response carries a part of it and the handle of the record after it.
-/
namespace DescriptorExchange

structure RecordRequest where
  handle : RecordHandle
  transferHandle : UInt32
  operation : UInt8
  /-- The most record bytes the requester accepts. -/
  maxCount : UInt16
  changeNumber : UInt16
  deriving DecidableEq, Repr, Inhabited

namespace RecordRequest

def command : UInt8 := 0x51

/-- Asks for the first or only part. -/
def firstPart : UInt8 := 0x01

/-- Asks for a record in one part. -/
def whole (handle : RecordHandle) : RecordRequest :=
  { handle, transferHandle := 0, operation := firstPart, maxCount := 0xFFFF, changeNumber := 0 }

def encode (r : RecordRequest) : Bytes :=
  word32 r.handle ++ word32 r.transferHandle ++ [r.operation] ++ word16 r.maxCount ++
    word16 r.changeNumber

def reader : Reader RecordRequest := do
  let handle ← Reader.word32 "get_pdr.record_handle"
  let transferHandle ← Reader.word32 "get_pdr.data_transfer_handle"
  let operation ← Reader.byte "get_pdr.transfer_op_flag"
  let maxCount ← Reader.word16 "get_pdr.request_count"
  let changeNumber ← Reader.word16 "get_pdr.record_change_number"
  return { handle, transferHandle, operation, maxCount, changeNumber }

def decode (body : Bytes) : Except WireError RecordRequest := reader.parse body

end RecordRequest

/-- Which part of a record a response carries. -/
inductive TransferPart where
  | first
  | middle
  /-- Followed by a checksum over the whole record. -/
  | last
  | whole
  deriving DecidableEq, Repr, Inhabited

namespace TransferPart

def code : TransferPart → UInt8
  | first => 0x00
  | middle => 0x01
  | last => 0x04
  | whole => 0x05

def ofCode (code : UInt8) : Except WireError TransferPart :=
  if code = 0x00 then .ok first
  else if code = 0x01 then .ok middle
  else if code = 0x04 then .ok last
  else if code = 0x05 then .ok whole
  else .error (.invalidField "get_pdr.transfer_flag" (UInt32.ofNat code.toNat))

end TransferPart

structure RecordResponse where
  completion : CompletionCode
  /-- The handle after this record, the terminator after the last one. -/
  next : RecordHandle
  nextTransferHandle : UInt32
  part : TransferPart
  data : Bytes
  checksum : Option UInt8
  deriving DecidableEq, Repr, Inhabited

namespace RecordResponse

/-- A successful answer that carries a whole record. -/
def single (next : RecordHandle) (record : Bytes) : RecordResponse :=
  { completion := .success, next, nextTransferHandle := 0, part := .whole, data := record
    checksum := none }

/-- An answer that carries nothing but the reason. -/
def refusal (code : CompletionCode) : RecordResponse :=
  { single RecordHandle.terminator [] with completion := code }

/-- A refusal is its completion code alone. -/
def encode (r : RecordResponse) : Bytes :=
  if r.completion.isSuccess then
    [r.completion.value] ++ word32 r.next ++ word32 r.nextTransferHandle ++ [r.part.code] ++
      word16 (UInt16.ofNat r.data.length) ++ r.data ++ r.checksum.toList
  else [r.completion.value]

def reader : Reader RecordResponse := do
  let completion : CompletionCode := ⟨← Reader.byte "get_pdr.completion_code"⟩
  if completion.isSuccess then
    let next ← Reader.word32 "get_pdr.next_record_handle"
    let nextTransferHandle ← Reader.word32 "get_pdr.next_data_transfer_handle"
    let part ← TransferPart.ofCode (← Reader.byte "get_pdr.transfer_flag")
    let count ← Reader.word16 "get_pdr.response_count"
    let data ← Reader.take "get_pdr.record_data" count.toNat
    let checksum ← match part with
      | .last => some <$> Reader.byte "get_pdr.transfer_crc"
      | _ => pure none
    return { completion, next, nextTransferHandle, part, data, checksum }
  else return refusal completion

def decode (body : Bytes) : Except WireError RecordResponse := reader.parse body

/-- The record, if the response carries all of it. -/
def record (r : RecordResponse) : Except WireError Bytes :=
  match r.part with
  | .whole => .ok r.data
  | part => .error (.invalidField "get_pdr.transfer_flag" (UInt32.ofNat part.code.toNat))

end RecordResponse
end DescriptorExchange
