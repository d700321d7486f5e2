import DescriptorExchange.Toml.Value

/-!
Reading values into types. A section of named fields may also be given as an array, its fields in their
order and the last ones left out.
-/
namespace DescriptorExchange.Toml

abbrev Shape (α : Type) := Value → Option α

namespace Shape

def natBelow (limit : Nat) : Shape Nat
  | .integer (some (.ofNat n)) => if n < limit then some n else none
  | _ => none

def number8 : Shape UInt8 := fun v => (natBelow 256 v).map UInt8.ofNat

def number16 : Shape UInt16 := fun v => (natBelow 65536 v).map UInt16.ofNat

def number32 : Shape UInt32 := fun v => (natBelow 4294967296 v).map UInt32.ofNat

def flag : Shape Bool
  | .boolean b => some b
  | _ => none

def text : Shape String
  | .text s => some s
  | _ => none

def list {α : Type} (item : Shape α) : Shape (List α)
  | .array items => items.mapM item
  | _ => none

/-- The first three items of an array; what follows them is passed over. -/
def triple {α : Type} (item : Shape α) : Shape (α × α × α)
  | .array (a :: b :: c :: _) => do return (← item a, ← item b, ← item c)
  | _ => none

/-- The key of a time that is read as a table. -/
def timeKey : String := "$__toml_private_datetime"

/-- Named values of one kind. A time is a table of one entry. -/
def mapOf {α : Type} (item : Shape α) : Shape (List (String × α))
  | .table entries => entries.mapM fun (key, v) => (item v).map fun a => (key, a)
  | .time written => (item (.text written)).map fun a => [(timeKey, a)]
  | _ => none

/-- The values of named fields, none for those left out. A closed section has no other fields; in an open one
they have to be readable. -/
def fields (isClosed : Bool) (names : List String) : Shape (List (Option Value))
  | .table entries =>
    let others := entries.filter fun entry => !names.contains entry.1
    if isClosed && !others.isEmpty || others.any fun entry => !entry.2.isReadable then none
    else some (names.map fun name => entries.lookup name)
  | .array items => some (names.zipIdx.map fun (_, index) => items[index]?)
  | _ => none

/-- A field that may be left out. -/
def orElse {α : Type} (shape : Shape α) (fallback : α) : Option Value → Option α
  | none => some fallback
  | some v => shape v

/-- A field that has to be there. -/
def required {α : Type} (shape : Shape α) : Option Value → Option α
  | none => none
  | some v => shape v

end Shape
end DescriptorExchange.Toml
