import DescriptorExchange.Record.Entity
import DescriptorExchange.Record.Header
import DescriptorExchange.Record.StateSet

/-! State sensor records. -/
namespace DescriptorExchange

structure StateSensor where
  terminusHandle : UInt16
  /-- Unique within the terminus. -/
  sensorId : UInt16
  entity : Entity
  init : UInt8
  hasAuxiliaryNames : Bool
  /-- One block for each offset. -/
  possibleStates : List PossibleStates
  deriving DecidableEq, Repr, Inhabited

namespace StateSensor

def reader : Reader StateSensor := do
  let terminusHandle ← Reader.word16 "state_sensor.terminus_handle"
  let sensorId ← Reader.word16 "state_sensor.sensor_id"
  let entity ← Entity.reader
  let init ← Reader.byte "state_sensor.sensor_init"
  let names ← Reader.byte "state_sensor.aux_names"
  let possibleStates ← PossibleStates.listReader "state_sensor.composite_count"
  return { terminusHandle, sensorId, entity, init, hasAuxiliaryNames := names ≠ 0, possibleStates }

def encode (s : StateSensor) : Bytes :=
  word16 s.terminusHandle ++ word16 s.sensorId ++ s.entity.encode ++
    [s.init, flagByte s.hasAuxiliaryNames] ++ PossibleStates.encodeList s.possibleStates

instance : RecordBody StateSensor := { type := .stateSensor, reader, encode }

end StateSensor
end DescriptorExchange
