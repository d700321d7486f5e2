import DescriptorExchange.Text.Hexadecimal
import DescriptorExchange.Text.Hidden

/-!
Texts between double quotes, as they appear in messages. The quote and the backslash are escaped, and so are
hidden characters.
-/
namespace DescriptorExchange.Quotation

/-- The code of a character between braces. -/
def coded (c : Char) : String :=
  "\\u\x7b" ++ String.ofList (Hexadecimal.digits c.toNat) ++ "\x7d"

def character (c : Char) : String :=
  if c = '"' then "\\\""
  else if c = '\\' then "\\\\"
  else if c = '\n' then "\\n"
  else if c = '\r' then "\\r"
  else if c = '\t' then "\\t"
  else if c.toNat = 0 then "\\0"
  else if Hidden.isHidden c then coded c
  else String.ofList [c]

def quoted (text : String) : String := "\"" ++ String.join (text.toList.map character) ++ "\""

end DescriptorExchange.Quotation
