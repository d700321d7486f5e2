import DescriptorExchange.Toml.Value

/-!
Values written as a bare word: booleans, integers, floats, dates and times. A decimal number has no leading
zeros. Underscores may stand between digits. A word that begins like a decimal number and goes on with an
underscore counts as an integer whatever follows, as long as its underscores are well placed.
-/
namespace DescriptorExchange.Toml

def digit? (base : Nat) (c : Char) : Option Nat :=
  let value :=
    if c.isDigit then c.toNat - '0'.toNat
    else if 'a' ≤ c ∧ c ≤ 'f' then c.toNat - 'a'.toNat + 10
    else if 'A' ≤ c ∧ c ≤ 'F' then c.toNat - 'A'.toNat + 10
    else base
  if value < base then some value else none

/-- A number of at least one digit. -/
def number? (base : Nat) : List Char → Option Nat
  | [] => none
  | cs => cs.foldlM (fun n c => (digit? base c).map fun d => n * base + d) 0

/-- What follows a sign, and whether it is negative. -/
def unsigned : List Char → Bool × List Char
  | '-' :: rest => (true, rest)
  | '+' :: rest => (false, rest)
  | cs => (false, cs)

def isUnderscore (c : Char) : Bool := c = '_'

/-- The pieces between underscores. -/
def pieces (cs : List Char) : List (List Char) := cs.splitOnP isUnderscore

def withoutUnderscores (cs : List Char) : List Char := cs.filter (!isUnderscore ·)

/-- Whether every piece after an underscore begins with a digit and every piece before one ends with a digit; a
single character at the front may be a sign. -/
def underscoresFit (digit : Char → Bool) (cs : List Char) : Bool :=
  let parts := pieces cs
  let followed := parts.dropLast
  (parts.length = 1 || parts.all (!·.isEmpty)) && (parts.drop 1).all (fun part => part.head?.any digit) &&
    followed.all fun part => part.length ≤ 1 || part.getLast?.any digit

/-- Integers that fit 128 bits, with or without a sign. -/
def fitsWord (n : Int) : Bool := -Int.ofNat (Nat.pow 2 127) ≤ n && n < Int.ofNat (Nat.pow 2 128)

/-- An integer that may turn out too large. -/
def integerOf (n : Option Int) : Value := .integer (n.filter fitsWord)

def isHexDigit (c : Char) : Bool := (digit? 16 c).isSome

/-- An integer in a base other than ten, after its mark. -/
def radixed? (base : Nat) (cs : List Char) : Option Value :=
  if cs.all (fun c => isUnderscore c || (digit? base c).isSome) && underscoresFit isHexDigit cs then
    some (integerOf ((number? base (withoutUnderscores cs)).map Int.ofNat))
  else none

/-- A decimal integer with its sign, whose digits have been found well placed. -/
def decimal (cs : List Char) : Value :=
  let (negative, rest) := unsigned (withoutUnderscores cs)
  integerOf ((number? 10 rest).map fun n => if negative then -Int.ofNat n else Int.ofNat n)

/-! Floats -/

/-- A number as written in decimal: its digits without a point, and the power of ten they count. -/
structure Scientific where
  digits : Nat
  exponent : Int
  deriving DecidableEq, Repr

/-- The least number that is rounded to infinity in 64 bits: half a unit above the greatest finite one. -/
def overflow : Nat := Nat.pow 2 1024 - Nat.pow 2 970

/-- Whether the number has a finite value in 64 bits. -/
def Scientific.isFinite (x : Scientific) : Bool :=
  let size := (Nat.toDigits 10 x.digits).length + x.exponent
  if x.digits = 0 ∨ size < 300 then true
  else if 320 < size then false
  else if 0 ≤ x.exponent then x.digits * Nat.pow 10 x.exponent.toNat < overflow
  else x.digits < overflow * Nat.pow 10 (-x.exponent).toNat

/-- A text before and after the first character of a kind. -/
def cut (p : Char → Bool) (cs : List Char) : List Char × Option (List Char) :=
  match cs.dropWhile (!p ·) with
  | [] => (cs, none)
  | _ :: rest => (cs.takeWhile (!p ·), some rest)

/-- A whole part, then a fraction or an exponent or both, without sign and underscores. -/
def scientific? (cs : List Char) : Option Scientific := do
  let (mantissa, exponent) := cut (fun c => c = 'e' || c = 'E') cs
  let (whole, fraction) := cut (· = '.') mantissa
  if whole.head? = some '0' ∧ 1 < whole.length then none
  let _ ← number? 10 whole
  let fraction ← match fraction with
    | none => some []
    | some f => (number? 10 f).map fun _ => f
  let (negative, exponent) ← match exponent with
    | none => some (false, 0)
    | some e => (number? 10 (unsigned e).2).map fun n => ((unsigned e).1, n)
  let power : Int := if negative then -Int.ofNat exponent else Int.ofNat exponent
  return { digits := ← number? 10 (whole ++ fraction), exponent := power - fraction.length }

def float? (cs : List Char) : Option Value := do
  if !underscoresFit Char.isDigit cs then none
  let x ← scientific? (withoutUnderscores (unsigned cs).2)
  return .float x.isFinite

/-! Dates and times -/

/-- A number of exactly two digits, in a range. -/
def pair? (low high : Nat) : List Char → Option (Nat × List Char)
  | a :: b :: rest => do
    let n := 10 * (← digit? 10 a) + (← digit? 10 b)
    if low ≤ n ∧ n ≤ high then some (n, rest) else none
  | _ => none

def isLeap (year : Nat) : Bool := year % 4 = 0 && (year % 100 ≠ 0 || year % 400 = 0)

def daysIn (year month : Nat) : Nat :=
  if month = 2 then if isLeap year then 29 else 28
  else if month = 4 ∨ month = 6 ∨ month = 9 ∨ month = 11 then 30
  else 31

/-- A date at the front. -/
def date? (cs : List Char) : Option (List Char) := do
  let (century, rest) ← pair? 0 99 cs
  let (year, rest) ← pair? 0 99 rest
  let '-' :: rest := rest | none
  let (month, rest) ← pair? 1 12 rest
  let '-' :: rest := rest | none
  let (_, rest) ← pair? 1 (daysIn (100 * century + year) month) rest
  return rest

/-- A time of day at the front; seconds and their fraction may be left out. -/
def clock? (cs : List Char) : Option (List Char) := do
  let (_, rest) ← pair? 0 23 cs
  let ':' :: rest := rest | none
  let (_, rest) ← pair? 0 59 rest
  let ':' :: rest := rest | return rest
  let (_, rest) ← pair? 0 60 rest
  let '.' :: rest := rest | return rest
  if (rest.takeWhile Char.isDigit).isEmpty then none else return rest.dropWhile Char.isDigit

/-- Hours and minutes of an offset. -/
def shift? (cs : List Char) : Option (List Char) := do
  let (_, rest) ← pair? 0 23 cs
  let ':' :: rest := rest | none
  let (_, rest) ← pair? 0 59 rest
  return rest

/-- An offset from universal time, or nothing. -/
def isOffset : List Char → Bool
  | [] => true
  | c :: rest =>
    if c = 'Z' ∨ c = 'z' then rest.isEmpty
    else (c = '+' || c = '-') && (shift? rest).any List.isEmpty

def isDate (cs : List Char) : Bool := (date? cs).any List.isEmpty

/-- A date, a time of day, or both with or without an offset. -/
def isTime (cs : List Char) : Bool :=
  match date? cs with
  | none => (clock? cs).any List.isEmpty
  | some [] => true
  | some (delimiter :: rest) =>
    (delimiter = 'T' || delimiter = 't' || delimiter = ' ') && (clock? rest).any isOffset

/-- A word that begins with decimal digits, after its sign if it has one. -/
def decimal? (cs : List Char) : Option Value :=
  let (_, rest) := unsigned cs
  let tail := rest.dropWhile Char.isDigit
  let isPadded := rest.head? = some '0' && 1 < rest.length
  match tail with
  | [] => if rest.isEmpty || isPadded then none else some (decimal cs)
  | c :: _ =>
    if c = '-' || c = ':' then if isTime cs then some (.time (String.ofList cs)) else none
    else if tail.contains ' ' then none
    else if tail.any fun c => c = '.' || c = 'e' || c = 'E' then float? cs
    else if c = '_' && !isPadded && underscoresFit isHexDigit cs then some (decimal cs)
    else none

def scalar? (cs : List Char) : Option Value :=
  if cs = "true".toList then some (.boolean true)
  else if cs = "false".toList then some (.boolean false)
  else if (unsigned cs).2 = "inf".toList ∨ (unsigned cs).2 = "nan".toList then some (.float true)
  else match cs with
    | '0' :: 'x' :: rest => radixed? 16 rest
    | '0' :: 'o' :: rest => radixed? 8 rest
    | '0' :: 'b' :: rest => radixed? 2 rest
    | cs => decimal? cs

end DescriptorExchange.Toml
