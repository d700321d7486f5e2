import Std.Data.ExtTreeMap
import DescriptorExchange.Record.StateSensor
import DescriptorExchange.Termini

/-!
The index of state sensors and the check of state changes against it. The index is rebuilt as a whole
from the sensor records; a change is accepted when the sensor is known, has a block at the offset, and
the state is one of the possible states there.
-/
namespace DescriptorExchange

structure SensorKey where
  tid : TerminusId
  sensorId : UInt16
  deriving DecidableEq, Repr, Inhabited

/-- By terminus first, by sensor second. -/
def SensorKey.order : SensorKey → SensorKey → Ordering :=
  compareLex (compareOn fun k => k.tid.value) (compareOn SensorKey.sensorId)

instance : Std.TransCmp SensorKey.order := by unfold SensorKey.order; infer_instance

instance : Std.LawfulEqCmp SensorKey.order where
  compare_self := by intro k; simp [SensorKey.order, compareLex, compareOn]
  eq_of_compare := by
    intro a b h
    obtain ⟨⟨s⟩, i⟩ := a
    obtain ⟨⟨t⟩, j⟩ := b
    simpa [SensorKey.order, compareLex, compareOn] using h

structure Sensor where
  /-- The entity it watches. -/
  entity : Entity
  /-- One block for each offset. -/
  possibleStates : List PossibleStates
  deriving DecidableEq, Repr, Inhabited

def Sensor.setIds (s : Sensor) : List UInt16 := s.possibleStates.map PossibleStates.setId

abbrev SensorIndex := Std.ExtTreeMap SensorKey Sensor SensorKey.order

namespace SensorIndex

/-- The sensor of a record. Its terminus is the one its terminus handle stands for, or a default when
no locator is known. -/
def entryOf (termini : Termini) (fallback : TerminusId) (s : StateSensor) : SensorKey × Sensor :=
  let tid := match termini[s.terminusHandle]? with
    | some terminus => terminus.tid
    | none => fallback
  (⟨tid, s.sensorId⟩, ⟨s.entity, s.possibleStates⟩)

/-- The index of encoded sensor records. Records that cannot be read are passed over; of two records
for one sensor the later holds. -/
def build (records : List Bytes) (termini : Termini) (fallback : TerminusId) : SensorIndex :=
  records.foldl (fun index bytes =>
    match decodeRecord StateSensor bytes with
    | .ok (_, s) =>
      let (key, sensor) := entryOf termini fallback s
      index.insert key sensor
    | .error _ => index) ∅

end SensorIndex

/-- An accepted change of state. -/
structure StateChange where
  key : SensorKey
  entity : Entity
  setId : UInt16
  offset : UInt8
  state : UInt8
  deriving DecidableEq, Repr, Inhabited

inductive ChangeStatus where
  | success
  /-- No such sensor. -/
  | unknownSensor
  /-- The sensor has no such offset, or another state set there. -/
  | invalidOffset
  | invalidState
  deriving DecidableEq, Repr, Inhabited

def ChangeStatus.completion : ChangeStatus → CompletionCode
  | success => .success
  | unknownSensor => .invalidSensorId
  | invalidOffset => .invalidData
  | invalidState => .invalidStateValue

namespace SensorIndex

/-- Checks a change of state against the index, given the state sets the caller takes the sensor to
have. -/
def accept (index : SensorIndex) (setIds : List UInt16) (key : SensorKey) (offset state : UInt8) :
    Except ChangeStatus StateChange :=
  match index[key]? with
  | none => .error .unknownSensor
  | some sensor =>
    match setIds[offset.toNat]?, sensor.possibleStates[offset.toNat]? with
    | some setId, some block =>
      if block.setId ≠ setId then .error .invalidOffset
      else if block.states.contains state then
        .ok { key, entity := sensor.entity, setId, offset, state }
      else .error .invalidState
    | _, _ => .error .invalidOffset

/-- Checks a reported change, taking the state sets from the index. -/
def report (index : SensorIndex) (key : SensorKey) (offset state : UInt8) : Except ChangeStatus StateChange :=
  match index[key]? with
  | none => .error .unknownSensor
  | some sensor => index.accept sensor.setIds key offset state

end SensorIndex
end DescriptorExchange
