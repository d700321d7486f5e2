import DescriptorExchange.Identifiers
import DescriptorExchange.Wire.Reader

/-! Bodies of the command that reads a state sensor, one reading for each of its offsets. -/
namespace DescriptorExchange

structure ReadingsRequest where
  sensorId : UInt16
  /-- A bit for each offset whose event state is to be re-armed. -/
  rearm : UInt8
  deriving DecidableEq, Repr, Inhabited

namespace ReadingsRequest

def command : UInt8 := 0x21

/-- Reads without re-arming anything. -/
def plain (sensorId : UInt16) : ReadingsRequest := { sensorId, rearm := 0 }

def encode (r : ReadingsRequest) : Bytes := word16 r.sensorId ++ [r.rearm, 0]

def reader : Reader ReadingsRequest := do
  let sensorId ← Reader.word16 "state_readings.sensor_id"
  let rearm ← Reader.byte "state_readings.sensor_rearm"
  let _ ← Reader.byte "state_readings.reserved"
  return { sensorId, rearm }

def decode (body : Bytes) : Except WireError ReadingsRequest := reader.parse body

end ReadingsRequest

structure Reading where
  operational : UInt8
  present : UInt8
  previous : UInt8
  /-- The state that caused the last event. -/
  event : UInt8
  deriving DecidableEq, Repr, Inhabited

namespace Reading

def enabledState : UInt8 := 0x00

/-- An enabled offset that has been in one state all along. -/
def enabled (state : UInt8) : Reading :=
  { operational := enabledState, present := state, previous := state, event := state }

/-- Whether the present state means anything. -/
def isEnabled (r : Reading) : Bool := r.operational = enabledState

def encode (r : Reading) : Bytes := [r.operational, r.present, r.previous, r.event]

def reader : Reader Reading := do
  let operational ← Reader.byte "state_readings.operational_state"
  let present ← Reader.byte "state_readings.present_state"
  let previous ← Reader.byte "state_readings.previous_state"
  let event ← Reader.byte "state_readings.event_state"
  return { operational, present, previous, event }

end Reading

structure ReadingsResponse where
  completion : CompletionCode
  /-- One for each offset, none on a refusal. -/
  readings : List Reading
  deriving DecidableEq, Repr, Inhabited

namespace ReadingsResponse

/-- Fails on more readings than the one-byte count can tell; a refusal carries none. -/
def encode (r : ReadingsResponse) : Except WireError Bytes :=
  if r.completion.isSuccess then do
    let count ← countByte "state_readings.composite_count" r.readings.length
    return [r.completion.value, count] ++ r.readings.flatMap Reading.encode
  else return [r.completion.value]

def reader : Reader ReadingsResponse := do
  let completion : CompletionCode := ⟨← Reader.byte "state_readings.completion_code"⟩
  if completion.isSuccess then
    let count ← Reader.byte "state_readings.composite_count"
    return { completion, readings := ← Reading.reader.items count.toNat }
  else return { completion, readings := [] }

def decode (body : Bytes) : Except WireError ReadingsResponse := reader.parse body

end ReadingsResponse
end DescriptorExchange
