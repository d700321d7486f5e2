import DescriptorExchange.Record.Header
import DescriptorExchange.Record.StateSet

/-! Terminus locator records: which terminus a handle stands for and how it is reached. -/
namespace DescriptorExchange

inductive Locator where
  | endpoint (eid : EndpointId)
  /-- Any other way of locating, kept as it came. -/
  | other (kind : UInt8) (value : Bytes)
  deriving DecidableEq, Repr, Inhabited

structure TerminusLocator where
  /-- The handle other records use for this terminus. -/
  terminusHandle : UInt16
  /-- Whether the terminus can be reached. -/
  valid : Bool
  tid : TerminusId
  containerId : UInt16
  locator : Locator
  deriving DecidableEq, Repr, Inhabited

namespace TerminusLocator

/-- The locator type of an endpoint id; its value is one byte. -/
def endpointKind : UInt8 := 1

def locatorOf (kind : UInt8) (value : Bytes) : Except WireError Locator :=
  if kind ≠ endpointKind then .ok (.other kind value)
  else match value with
    | [eid] => .ok (.endpoint ⟨eid⟩)
    | _ => .error (.invalidField "terminus_locator.value_size" (UInt32.ofNat value.length))

def reader : Reader TerminusLocator := do
  let terminusHandle ← Reader.word16 "terminus_locator.terminus_handle"
  let validity ← Reader.byte "terminus_locator.validity"
  let tid ← Reader.byte "terminus_locator.tid"
  let containerId ← Reader.word16 "terminus_locator.container_id"
  let kind ← Reader.byte "terminus_locator.type"
  let size ← Reader.byte "terminus_locator.value_size"
  let value ← Reader.take "terminus_locator.value" size.toNat
  let locator ← locatorOf kind value
  return { terminusHandle, valid := validity ≠ 0, tid := ⟨tid⟩, containerId, locator }

def encodeLocator : Locator → Bytes
  | .endpoint eid => [endpointKind, 1, eid.value]
  | .other kind value => [kind, UInt8.ofNat value.length] ++ value

def encode (t : TerminusLocator) : Bytes :=
  word16 t.terminusHandle ++ [flagByte t.valid, t.tid.value] ++ word16 t.containerId ++
    encodeLocator t.locator

instance : RecordBody TerminusLocator := { type := .terminusLocator, reader, encode }

def endpoint? (t : TerminusLocator) : Option EndpointId :=
  match t.locator with
  | .endpoint eid => some eid
  | .other .. => none

/-- The validity byte comes after the terminus handle. -/
def validityOffset : Nat := RecordHeader.length + 2

/-- Replaces the validity in an encoded record. -/
def setValidity (valid : Bool) (record : Bytes) : Except WireError Bytes :=
  overwrite "terminus_locator.validity" validityOffset [flagByte valid] record

end TerminusLocator
end DescriptorExchange
