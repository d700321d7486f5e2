import DescriptorExchange.Toml.Value

/-!
Building a table from statements. A header opens a table, or appends one to an array of tables; an
assignment puts a value into the table that is open. Nothing is defined twice: a header may open a table
that headers have only passed through before, and a dotted key may put something into any table that has not
been opened. On their way both may pass through the last table of an array of tables.
-/
namespace DescriptorExchange.Toml

/-- How a table came about. -/
inductive Making where
  /-- Passed through on the way to another table. -/
  | implied
  | header
  | dotted
  deriving DecidableEq, Repr

inductive Item where
  | value (v : Value)
  | table (made : Making) (entries : List (String × Item))
  /-- Tables appended one by one, none of them empty-handed: the last one is open. -/
  | series (tables : List (List (String × Item)))
  deriving Repr

abbrev Entries := List (String × Item)

namespace Entries

/-- Puts an item under a key, depending on what is there; none if that is not allowed. -/
def update (key : String) (change : Option Item → Option Item) : Entries → Option Entries
  | [] => (change none).map fun item => [(key, item)]
  | (k, item) :: rest =>
    if k = key then (change (some item)).map fun item => (k, item) :: rest
    else (update key change rest).map ((k, item) :: ·)

/-- Changes the last table of a series. -/
def updateLast (change : Entries → Option Entries) : List Entries → Option (List Entries)
  | [] => none
  | [last] => (change last).map ([·])
  | first :: rest => (updateLast change rest).map (first :: ·)

/-- Opens the table a header names, or appends one to a series. -/
def openTable (series : Bool) : List String → Entries → Option Entries
  | [], _ => none
  | [key], entries => entries.update key fun
    | none => some (if series then .series [[]] else .table .header [])
    | some (.table .implied sub) => if series then none else some (.table .header sub)
    | some (.series tables) => if series then some (.series (tables ++ [[]])) else none
    | some _ => none
  | key :: rest, entries => entries.update key fun
    | none => (openTable series rest []).map (.table .implied)
    | some (.table made sub) => (openTable series rest sub).map (.table made)
    | some (.series tables) => (updateLast (openTable series rest) tables).map .series
    | some (.value _) => none

/-- Puts a value under a dotted key. -/
def put (v : Value) : List String → Entries → Option Entries
  | [], _ => none
  | [key], entries => entries.update key fun
    | none => some (.value v)
    | some _ => none
  | key :: rest, entries => entries.update key fun
    | none => (put v rest []).map (.table .dotted)
    | some (.table .header _) => none
    | some (.table made sub) => (put v rest sub).map (.table made)
    | some (.series tables) => if rest.length = 1 then none else (updateLast (put v rest) tables).map .series
    | some (.value _) => none

/-- Changes the table at the end of a path of headers. -/
def within (change : Entries → Option Entries) : List String → Entries → Option Entries
  | [], entries => change entries
  | key :: rest, entries => entries.update key fun
    | some (.table made sub) => (within change rest sub).map (.table made)
    | some (.series tables) => (updateLast (within change rest) tables).map .series
    | _ => none

end Entries

mutual

/-- The value of a finished item. -/
def Item.toValue : Item → Value
  | .value v => v
  | .table _ entries => .table (valuesOf entries)
  | .series tables => .array (tablesOf tables)

def valuesOf : List (String × Item) → List (String × Value)
  | [] => []
  | (key, item) :: rest => (key, item.toValue) :: valuesOf rest

def tablesOf : List (List (String × Item)) → List Value
  | [] => []
  | entries :: rest => .table (valuesOf entries) :: tablesOf rest

end

inductive Statement where
  | header (series : Bool) (path : List String)
  | assign (key : List String) (v : Value)

/-- The table that statements build, and the path of the table that is open. -/
structure Draft where
  entries : Entries
  current : List String

namespace Draft

def empty : Draft := ⟨[], []⟩

def add (d : Draft) : Statement → Option Draft
  | .header series path => (d.entries.openTable series path).map fun entries => ⟨entries, path⟩
  | .assign key v => (d.entries.within (Entries.put v key) d.current).map fun entries => { d with entries }

/-- The table that a list of statements builds. -/
def ofStatements (statements : List Statement) : Option Value :=
  (statements.foldlM add empty).map fun d => (Item.table .header d.entries).toValue

end Draft
end DescriptorExchange.Toml
