import DescriptorExchange.Identifiers
import DescriptorExchange.Wire.Reader

/-!
The three-byte message header: request and datagram bits with the instance id, header version with
the message type, and the command.
-/
namespace DescriptorExchange

inductive MessageType where
  | base
  | platform
  | bios
  | fru
  | firmwareUpdate
  | oem
  /-- A type without a name. -/
  | other (code : UInt8)
  deriving DecidableEq, Repr, Inhabited

namespace MessageType

/-- The type a code stands for. -/
def mk (code : UInt8) : MessageType :=
  if code = 0x00 then base
  else if code = 0x02 then platform
  else if code = 0x03 then bios
  else if code = 0x04 then fru
  else if code = 0x05 then firmwareUpdate
  else if code = 0x3F then oem
  else other code

def code : MessageType → UInt8
  | base => 0x00
  | platform => 0x02
  | bios => 0x03
  | fru => 0x04
  | firmwareUpdate => 0x05
  | oem => 0x3F
  | other code => code

end MessageType

structure MessageHeader where
  request : Bool
  /-- Set on requests that want no answer. -/
  datagram : Bool
  instanceId : InstanceId
  type : MessageType
  command : UInt8
  deriving DecidableEq, Repr, Inhabited

namespace MessageHeader

def length : Nat := 3

/-- The header of a request that wants an answer. -/
def forRequest (iid : InstanceId) (type : MessageType) (command : UInt8) : MessageHeader :=
  { request := true, datagram := false, instanceId := iid, type, command }

/-- The header of the answer to a request. -/
def response (h : MessageHeader) : MessageHeader := { h with request := false, datagram := false }

/-- Five bits of instance id and six bits of type fit; the header version is zero. -/
def encode (h : MessageHeader) : Bytes :=
  [(if h.request then 128 else 0) + (if h.datagram then 64 else 0) + h.instanceId.value % 32,
    h.type.code % 64, h.command]

def reader : Reader MessageHeader := do
  let first ← Reader.byte "header.instance"
  let second ← Reader.byte "header.type"
  let command ← Reader.byte "header.command"
  let version := second / 64
  if version ≠ 0 then
    throw (.invalidField "header.version" (UInt32.ofNat version.toNat))
  return { request := first / 128 = 1, datagram := first / 64 % 2 = 1
           instanceId := ⟨first % 32⟩, type := .mk (second % 64), command }

/-- The header and the payload after it. -/
def decode (message : Bytes) : Except WireError (MessageHeader × Bytes) := reader.run message

end MessageHeader

/-- A message: header and command body. -/
structure Message where
  header : MessageHeader
  payload : Bytes
  deriving DecidableEq, Repr, Inhabited

end DescriptorExchange
