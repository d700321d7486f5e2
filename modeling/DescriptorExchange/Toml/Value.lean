/-!
Values of a configuration text. A number may be written that nobody can read, too large or with the wrong
digits; that is found only when it is read, so that it does no harm where it is passed over.
-/
namespace DescriptorExchange.Toml

inductive Value where
  | boolean (b : Bool)
  /-- None if it cannot be read. -/
  | integer (n : Option Int)
  /-- A number with a fraction or an exponent, or one of the special ones; whether it can be read. -/
  | float (isReadable : Bool)
  | time (text : String)
  | text (s : String)
  | array (items : List Value)
  /-- Keys are distinct. -/
  | table (entries : List (String × Value))
  deriving Repr, Inhabited

mutual

/-- Whether all of a value can be read. -/
def Value.isReadable : Value → Bool
  | .integer n => n.isSome
  | .float isReadable => isReadable
  | .array items => areReadable items
  | .table entries => haveReadable entries
  | _ => true

def areReadable : List Value → Bool
  | [] => true
  | v :: rest => v.isReadable && areReadable rest

def haveReadable : List (String × Value) → Bool
  | [] => true
  | (_, v) :: rest => v.isReadable && haveReadable rest

end

end DescriptorExchange.Toml
