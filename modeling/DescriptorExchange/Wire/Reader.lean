import DescriptorExchange.Wire.Bytes
import DescriptorExchange.Wire.Error

/-!
Field readers: a reader takes its field off the front of the input or names the field that was short.
A reader that fails leaves the caller with the input it had.
-/
namespace DescriptorExchange

abbrev Reader := StateT Bytes (Except WireError)

namespace Reader

/-- Exactly `count` bytes. -/
def take (field : String) (count : Nat) : Reader Bytes := fun input =>
  let front := input.take count
  if front.length = count then .ok (front, input.drop count)
  else .error (.truncated field count input.length)

def number (field : String) (width : Nat) : Reader Nat :=
  return ofLittleEndian (← take field width)

def byte (field : String) : Reader UInt8 := return UInt8.ofNat (← number field 1)

def word16 (field : String) : Reader UInt16 := return UInt16.ofNat (← number field 2)

def word32 (field : String) : Reader UInt32 := return UInt32.ofNat (← number field 4)

/-- Everything left. -/
def rest : Reader Bytes := fun input => .ok (input, [])

/-- The same item a given number of times. -/
def items {α : Type} (item : Reader α) : Nat → Reader (List α)
  | 0 => pure []
  | count + 1 => return (← item) :: (← items item count)

/-- The value at the front of a byte string, whatever follows it. -/
def parse {α : Type} (reader : Reader α) (input : Bytes) : Except WireError α :=
  (reader.run input).map Prod.fst

end Reader
end DescriptorExchange
