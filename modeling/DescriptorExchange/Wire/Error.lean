import DescriptorExchange.Text.Hexadecimal

/-! Why a message body or a record cannot be read or written. -/
namespace DescriptorExchange

inductive WireError where
  /-- The input ended before the named field. -/
  | truncated (field : String) (needed remaining : Nat)
  /-- The header declares more data than the record carries. -/
  | lengthMismatch (handle : UInt32) (declared actual : Nat)
  | unexpectedType (expected found : UInt8)
  /-- A field holds a value outside its domain. -/
  | invalidField (field : String) (value : UInt32)
  deriving DecidableEq, Repr, Inhabited

def WireError.message : WireError → String
  | truncated field needed remaining =>
    s!"truncated input while reading {field}: need {needed} bytes, have {remaining}"
  | lengthMismatch handle declared actual =>
    "record " ++ Hexadecimal.short handle.toNat ++
      s!" declares {declared} data bytes but carries {actual}"
  | unexpectedType expected found => s!"expected PDR type {expected}, found {found}"
  | invalidField field value => s!"invalid {field}: " ++ Hexadecimal.short value.toNat

/-- A list length that has to fit a one-byte count field. -/
def countByte (field : String) (count : Nat) : Except WireError UInt8 :=
  if count ≤ 255 then .ok (UInt8.ofNat count)
  else .error (.invalidField field (UInt32.ofNat (min count 0xFFFFFFFF)))

end DescriptorExchange
