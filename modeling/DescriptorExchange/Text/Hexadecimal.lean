/-!
Numbers as they appear in messages: lower-case hexadecimal after `0x`, either as short as possible or
filled with zeros to a fixed number of digits.
-/
namespace DescriptorExchange.Hexadecimal

def digits (n : Nat) : List Char := Nat.toDigits 16 n

def short (n : Nat) : String := "0x" ++ String.ofList (digits n)

/-- At least `width` digits, filled with zeros on the left. -/
def filled (width n : Nat) : String :=
  "0x" ++ String.ofList (List.replicate (width - (digits n).length) '0' ++ digits n)

end DescriptorExchange.Hexadecimal
