import DescriptorExchange.Toml.Scalar
import DescriptorExchange.Toml.Scan

/-!
Quoted texts. Between double quotes a backslash begins an escape; between single quotes everything stands
for itself. Three quotes begin a text of several lines, whose first line end is left out.
-/
namespace DescriptorExchange.Toml

/-- The character with the code given by a number of hexadecimal digits. -/
def coded (count : Nat) : Scan Char := do
  let code ← (List.range count).foldlM (fun code _ => do
    match digit? 16 (← Scan.next) with
    | some d => return code * 16 + d
    | none => failure) 0
  if code.isValidChar then return Char.ofNat code else failure

/-- What a backslash and the following characters stand for. -/
def escape : Scan Char := do
  match ← Scan.next with
  | 'b' => return '\x08'
  | 't' => return '\t'
  | 'n' => return '\n'
  | 'f' => return '\x0C'
  | 'r' => return '\r'
  | 'e' => return '\x1B'
  | '"' => return '"'
  | '\\' => return '\\'
  | 'x' => coded 2
  | 'u' => coded 4
  | 'U' => coded 8
  | _ => failure

def plain (c : Char) : Scan Char := if isControl c then failure else pure c

/-- The rest of a text on one line, after its opening quote. -/
def lineText (quote : Char) (escapes : Bool) : Scan (List Char) := Scan.many do
  let c ← Scan.next
  if c = quote then return none
  else if c = '\\' && escapes then some <$> escape
  else some <$> plain c

/-- A backslash at the end of a line takes away all blanks and line ends that follow. -/
def joinsLines : Scan Bool := fun input =>
  let rest := input.dropWhile isBlank
  if "\n".toList.isPrefixOf rest || "\r\n".toList.isPrefixOf rest then
    (Scan.many do
      let skipped ← Scan.takeWhile isBlank
      return if (← lineEnd) || !skipped.isEmpty then some () else none).map (fun _ => true) input
  else some (false, input)

/-- One piece of a text of several lines. Up to two quotes may stand right before the closing ones. -/
def linesPiece (quote : Char) (escapes : Bool) : Scan (Option (List Char)) := do
  let quotes (count : Nat) : String := String.ofList (List.replicate count quote)
  guard (!(← Scan.startsWith (quotes 6)))
  if ← Scan.startsWith (quotes 4) then
    Scan.skip 1
    return some [quote]
  if ← Scan.accept (quotes 3) then return none
  if ← Scan.accept "\r\n" then return some ['\r', '\n']
  let c ← Scan.next
  if c = '\n' then return some [c]
  if c = '\\' && escapes then
    if ← joinsLines then return some [] else return some [← escape]
  return some [← plain c]

/-- The rest of a text of several lines, after its opening quotes. -/
def linesText (quote : Char) (escapes : Bool) : Scan (List Char) := do
  let _ ← lineEnd
  return (← Scan.many (linesPiece quote escapes)).flatten

/-- A quoted text of either kind; `lines` allows the forms of several lines. -/
def quoted? (lines : Bool) : Scan (Option String) := do
  let read (text : Scan (List Char)) : Scan (Option String) := return some (String.ofList (← text))
  if lines && (← Scan.accept "\"\"\"") then read (linesText '"' true)
  else if lines && (← Scan.accept "'''") then read (linesText '\'' false)
  else if ← Scan.accept "\"" then read (lineText '"' true)
  else if ← Scan.accept "'" then read (lineText '\'' false)
  else return none

end DescriptorExchange.Toml
