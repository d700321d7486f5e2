import DescriptorExchange.Record.Entity
import DescriptorExchange.Record.Header
import DescriptorExchange.Record.StateSet

/-! State effecter records, and the one field of theirs that is replaced in place. -/
namespace DescriptorExchange

structure StateEffecter where
  terminusHandle : UInt16
  /-- Unique within the terminus. -/
  effecterId : UInt16
  entity : Entity
  semanticId : UInt16
  init : UInt8
  hasDescription : Bool
  /-- One block for each offset. -/
  possibleStates : List PossibleStates
  deriving DecidableEq, Repr, Inhabited

namespace StateEffecter

def reader : Reader StateEffecter := do
  let terminusHandle ← Reader.word16 "state_effecter.terminus_handle"
  let effecterId ← Reader.word16 "state_effecter.effecter_id"
  let entity ← Entity.reader
  let semanticId ← Reader.word16 "state_effecter.semantic_id"
  let init ← Reader.byte "state_effecter.effecter_init"
  let description ← Reader.byte "state_effecter.description_pdr"
  let possibleStates ← PossibleStates.listReader "state_effecter.composite_count"
  return { terminusHandle, effecterId, entity, semanticId, init, hasDescription := description ≠ 0
           possibleStates }

def encode (e : StateEffecter) : Bytes :=
  word16 e.terminusHandle ++ word16 e.effecterId ++ e.entity.encode ++ word16 e.semanticId ++
    [e.init, flagByte e.hasDescription] ++ PossibleStates.encodeList e.possibleStates

instance : RecordBody StateEffecter := { type := .stateEffecter, reader, encode }

/-- The container of the entity comes after two handles, the entity type and its number. -/
def containerOffset : Nat := RecordHeader.length + 8

/-- Replaces the container of the entity in an encoded record. -/
def setContainer (container : UInt16) (record : Bytes) : Except WireError Bytes :=
  overwrite "state_effecter.container_id" containerOffset (word16 container) record

end StateEffecter
end DescriptorExchange
