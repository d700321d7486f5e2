import DescriptorExchange.Wire.Reader

/-! Entities: a type, a number among entities of that type, and the container they live in. -/
namespace DescriptorExchange

structure Entity where
  type : UInt16
  number : UInt16
  container : UInt16
  deriving DecidableEq, Repr, Inhabited

namespace Entity

def reader : Reader Entity := do
  let type ← Reader.word16 "entity.type"
  let number ← Reader.word16 "entity.instance_number"
  let container ← Reader.word16 "entity.container_id"
  return { type, number, container }

def encode (e : Entity) : Bytes := word16 e.type ++ word16 e.number ++ word16 e.container

/-- Same type and number, whatever the container. -/
def sameUnit (a b : Entity) : Bool := a.type = b.type && a.number = b.number

@[simp] theorem length_encode (e : Entity) : e.encode.length = 6 := by simp [encode]

end Entity
end DescriptorExchange
