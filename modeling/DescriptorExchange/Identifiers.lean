import DescriptorExchange.Text.Hexadecimal

/-! Identifiers of termini, endpoints, requests and records, and completion codes. -/
namespace DescriptorExchange

/-- Names a record within one repository. -/
abbrev RecordHandle := UInt32

/-- The handle that ends a chain of records, and that asks for the first one. -/
def RecordHandle.terminator : RecordHandle := 0

structure TerminusId where
  value : UInt8
  deriving DecidableEq, Repr, Inhabited

def TerminusId.text (tid : TerminusId) : String := s!"tid:{tid.value}"

structure EndpointId where
  value : UInt8
  deriving DecidableEq, Repr, Inhabited

def EndpointId.text (eid : EndpointId) : String := s!"eid:{eid.value}"

/-- Ties a response to its request. Only its low five bits travel in a message header. -/
structure InstanceId where
  value : UInt8
  deriving DecidableEq, Repr, Inhabited

namespace InstanceId

def count : Nat := 32

def isValid (iid : InstanceId) : Bool := iid.value.toNat < count

def text (iid : InstanceId) : String := s!"iid:{iid.value}"

end InstanceId

/-- Record handles from `first` to `last`, both included. -/
structure HandleRange where
  first : RecordHandle
  last : RecordHandle
  deriving DecidableEq, Repr, Inhabited

namespace HandleRange

/-- Handles of the records the controller generates itself. -/
def localDefault : HandleRange := ⟨0x00000001, 0x00FFFFFF⟩

/-- Handles of the records imported from the host. -/
def hostDefault : HandleRange := ⟨0x01000000, 0x01FFFFFF⟩

def contains (range : HandleRange) (handle : RecordHandle) : Bool :=
  range.first ≤ handle && handle ≤ range.last

def overlaps (a b : HandleRange) : Bool := a.first ≤ b.last && b.first ≤ a.last

def text (range : HandleRange) : String :=
  Hexadecimal.filled 8 range.first.toNat ++ "..=" ++ Hexadecimal.filled 8 range.last.toNat

end HandleRange

/-- Who produced a record or a node: the controller itself, or the host it was imported from. -/
inductive Origin where
  | own
  | host
  deriving DecidableEq, Repr, Inhabited

/-- The first byte of every response body. -/
structure CompletionCode where
  value : UInt8
  deriving DecidableEq, Repr, Inhabited

namespace CompletionCode

def success : CompletionCode := ⟨0x00⟩
def invalidData : CompletionCode := ⟨0x02⟩
def invalidLength : CompletionCode := ⟨0x03⟩
def notReady : CompletionCode := ⟨0x04⟩
def unsupportedCommand : CompletionCode := ⟨0x05⟩
def invalidSensorId : CompletionCode := ⟨0x80⟩
def invalidStateValue : CompletionCode := ⟨0x81⟩
def invalidRecordHandle : CompletionCode := ⟨0x82⟩

def isSuccess (code : CompletionCode) : Bool := code = success

def text (code : CompletionCode) : String := "cc:" ++ Hexadecimal.filled 2 code.value.toNat

end CompletionCode
end DescriptorExchange
