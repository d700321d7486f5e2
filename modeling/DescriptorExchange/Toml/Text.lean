import DescriptorExchange.Toml.Document
import DescriptorExchange.Toml.Quoted

/-!
Reading a configuration text: one statement a line, each a header or an assignment. Values nest up to a
limit.
-/
namespace DescriptorExchange.Toml

def isBareKey (c : Char) : Bool := c.isAlphanum || c = '-' || c = '_'

/-- Characters that no word is cut at. -/
def isWord (c : Char) : Bool := !"=,[]#\r\n\x7b\x7d".toList.contains c && !isBlank c

/-- A bare or quoted key. -/
def simpleKey : Scan String := do
  match ← quoted? false with
  | some key => return key
  | none =>
    let key ← Scan.takeWhile isBareKey
    guard (!key.isEmpty)
    return String.ofList key

/-- The most keys that are joined, and the most arrays and inline tables inside each other. -/
def nestingLimit : Nat := 80

/-- Keys joined by dots, with blanks around each. -/
def dottedKey : Scan (List String) := do
  blanks
  let first ← simpleKey
  blanks
  let more ← Scan.many do
    if ← Scan.accept "." then
      blanks
      let key ← simpleKey
      blanks
      return some key
    else return none
  guard (more.length < nestingLimit)
  return first :: more

/-- A word on the same line, with the blanks before it. A word after blanks begins neither with a dot nor with a
quote. -/
def nextWord : Scan (Option (List Char)) := fun input =>
  let before := input.takeWhile isBlank
  let word := (input.dropWhile isBlank).takeWhile isWord
  match before, word with
  | [], _ | _, [] => some (none, input)
  | before, c :: rest =>
    if c = '.' ∨ c = '"' ∨ c = '\'' then some (none, input)
    else some (some (before ++ c :: rest), input.drop (before.length + word.length))

/-- A value written as bare words on one line. -/
def bareValue : Scan Value := do
  let word ← Scan.takeWhile isWord
  match scalar? (word ++ (← Scan.many nextWord).flatten) with
  | some v => return v
  | none => failure

/-- Items between an opening bracket, read already, and the closing one, with commas between them. -/
def separated {α : Type} (closing : String) (item : Scan α) : Scan (List α) := do
  gap
  if ← Scan.accept closing then return []
  let first ← item
  let more ← Scan.many do
    gap
    let comma ← Scan.accept ","
    if comma then gap
    if ← Scan.accept closing then return none
    guard comma
    some <$> item
  return first :: more

/-- A key, an equals sign and a value, with room around the sign. -/
def assignment (room : Scan Unit) (value : Scan Value) : Scan (List String × Value) := do
  let key ← dottedKey
  room
  Scan.expect "="
  room
  return (key, ← value)

/-- A value with at most a number of arrays and inline tables inside each other. -/
def value : Nat → Scan Value
  | 0 => do
    match ← quoted? true with
    | some s => return .text s
    | none => bareValue
  | nesting + 1 => do
    if ← Scan.accept "[" then return .array (← separated "]" (value nesting))
    else if ← Scan.accept "\x7b" then
      let entries ← separated "\x7d" (assignment gap (value nesting))
      match Draft.ofStatements (entries.map fun (key, v) => .assign key v) with
      | some table => return table
      | none => failure
    else value 0

/-- A header after its opening bracket. -/
def header (series : Bool) : Scan Statement := do
  let path ← dottedKey
  Scan.expect (if series then "]]" else "]")
  return .header series path

/-- The statement of one line, if there is one. -/
def statement : Scan (Option Statement) := do
  blanks
  match ← Scan.peek? with
  | none => return none
  | some '#' => return none
  | some '\n' => return none
  | some '\r' => return none
  | some '[' =>
    if ← Scan.accept "[[" then some <$> header true
    else
      Scan.skip 1
      some <$> header false
  | some _ =>
    let (key, v) ← assignment blanks (value nestingLimit)
    return some (.assign key v)

/-- One line with its end. None at the end of the text. -/
def line : Scan (Option (Option Statement)) := do
  if (← Scan.peek?).isNone then return none
  let s ← statement
  trailing
  guard ((← lineEnd) || (← Scan.peek?).isNone)
  return some s

/-- The table that a text describes; none if the text is not well formed. A byte order mark at the beginning
is passed over. -/
def parse? (text : String) : Option Value := do
  let cs := match text.toList with
    | '\uFEFF' :: rest => rest
    | cs => cs
  let lines ← (Scan.many line).run? cs
  Draft.ofStatements (lines.filterMap id)

end DescriptorExchange.Toml
