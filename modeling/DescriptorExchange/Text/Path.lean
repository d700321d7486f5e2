/-!
Paths of files. Two texts are the same path if both or neither start at the root and they name the same parts
in the same order; repeated separators and dots that stand for where one is already name no part.
-/
namespace DescriptorExchange.Path

/-- The parts a path names, in order. A dot counts only at the start of a path that does not start at the
root. -/
def parts (path : String) : List String :=
  match (path.splitOn "/").filter (· ≠ "") with
  | [] => []
  | first :: rest =>
    let rest := rest.filter (· ≠ ".")
    if first = "." ∧ path.startsWith "/" then rest else first :: rest

def same (p q : String) : Bool := p.startsWith "/" == q.startsWith "/" && parts p == parts q

end DescriptorExchange.Path
