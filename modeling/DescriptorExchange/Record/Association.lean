import DescriptorExchange.Record.Entity
import DescriptorExchange.Record.Header

/-! Entity association records: a container entity and the entities it contains. -/
namespace DescriptorExchange

structure Association where
  /-- Container id the contained entities carry. -/
  containerId : UInt16
  /-- `physical` or `logical`. -/
  kind : UInt8
  container : Entity
  children : List Entity
  deriving DecidableEq, Repr, Inhabited

namespace Association

def physical : UInt8 := 0

def logical : UInt8 := 1

/-- The number of children is a single byte. -/
def maxChildren : Nat := 255

def reader : Reader Association := do
  let containerId ← Reader.word16 "association.container_id"
  let kind ← Reader.byte "association.type"
  let container ← Entity.reader
  let count ← Reader.byte "association.num_children"
  let children ← Entity.reader.items count.toNat
  return { containerId, kind, container, children }

/-- The count keeps its low byte only, so a longer list does not survive the wire. -/
def encode (a : Association) : Bytes :=
  word16 a.containerId ++ [a.kind] ++ a.container.encode ++
    [UInt8.ofNat a.children.length] ++ a.children.flatMap Entity.encode

instance : RecordBody Association := { type := .entityAssociation, reader, encode }

end Association
end DescriptorExchange
