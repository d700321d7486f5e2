/-!
Scanners over characters. A scanner takes what it reads off the front of the input, or fails.
-/
namespace DescriptorExchange.Toml

abbrev Scan := StateT (List Char) Option

namespace Scan

def peek? : Scan (Option Char) := fun input => some (input.head?, input)

def next : Scan Char
  | c :: rest => some (c, rest)
  | [] => none

def takeWhile (p : Char → Bool) : Scan (List Char) := fun input =>
  some (input.takeWhile p, input.dropWhile p)

/-- Whether the input begins with a text. -/
def startsWith (text : String) : Scan Bool := fun input => some (text.toList.isPrefixOf input, input)

def skip (count : Nat) : Scan Unit := fun input => some ((), input.drop count)

/-- Reads a text if the input begins with it. -/
def accept (text : String) : Scan Bool := do
  if ← startsWith text then
    skip text.length
    return true
  else return false

def expect (text : String) : Scan Unit := do
  guard (← accept text)

/-- Reads pieces until there is none. A piece that reads nothing ends the input's worth of rounds. -/
def many {α : Type} (piece : Scan (Option α)) : Scan (List α) := fun input =>
  rounds (input.length + 1) input
where
  rounds : Nat → Scan (List α)
    | 0 => failure
    | bound + 1 => do
      match ← piece with
      | none => return []
      | some a => return a :: (← rounds bound)

/-- Runs a scanner over a whole text. -/
def run? {α : Type} (scan : Scan α) (text : List Char) : Option α :=
  match scan text with
  | some (a, []) => some a
  | _ => none

end Scan

/-! Blanks, line ends and comments -/

def isBlank (c : Char) : Bool := c = ' ' || c = '\t'

/-- Control characters that may not occur, not even in a comment; a tab may. -/
def isControl (c : Char) : Bool := (c.toNat < 0x20 && c ≠ '\t') || c.toNat = 0x7F

def blanks : Scan Unit := do
  let _ ← Scan.takeWhile isBlank

/-- Reads a line end if there is one. -/
def lineEnd : Scan Bool := do
  return (← Scan.accept "\n") || (← Scan.accept "\r\n")

/-- Reads blanks, and a comment up to the end of its line. -/
def trailing : Scan Unit := do
  blanks
  if ← Scan.accept "#" then
    let _ ← Scan.takeWhile fun c => !isControl c

/-- Reads blanks, comments and line ends. -/
def gap : Scan Unit := do
  let _ ← Scan.many do
    trailing
    return if ← lineEnd then some () else none

end DescriptorExchange.Toml
