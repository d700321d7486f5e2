import DescriptorExchange.Wire.Reader

/-! Event data of a sensor. Only changes of state are taken apart. -/
namespace DescriptorExchange

inductive SensorEventData where
  | stateChange (offset state previous : UInt8)
  /-- Any other class of sensor event, kept as it came. -/
  | other (eventClass : UInt8) (raw : Bytes)
  deriving DecidableEq, Repr, Inhabited

structure SensorEvent where
  sensorId : UInt16
  data : SensorEventData
  deriving DecidableEq, Repr, Inhabited

namespace SensorEvent

def stateChangeClass : UInt8 := 0x01

def encode (e : SensorEvent) : Bytes :=
  word16 e.sensorId ++ match e.data with
    | .stateChange offset state previous => [stateChangeClass, offset, state, previous]
    | .other eventClass raw => eventClass :: raw

def reader : Reader SensorEvent := do
  let sensorId ← Reader.word16 "sensor_event.sensor_id"
  let eventClass ← Reader.byte "sensor_event.class"
  if eventClass = stateChangeClass then
    let offset ← Reader.byte "sensor_event.offset"
    let state ← Reader.byte "sensor_event.event_state"
    let previous ← Reader.byte "sensor_event.previous_event_state"
    return { sensorId, data := .stateChange offset state previous }
  else return { sensorId, data := .other eventClass (← Reader.rest) }

def decode (data : Bytes) : Except WireError SensorEvent := reader.parse data

end SensorEvent
end DescriptorExchange
