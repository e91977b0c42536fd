import Optima.Text.Digit

/-!
Reading numbers from text. Blanks around a number and single underscores between digits are
allowed, and the digits of any script are; the names of infinity and of the undefined number are
read in any case.
-/

namespace Optima.Decimal

open Text (digitValue? isBlank)

/-- The double nearest to `digits * 10 ^ exponent`. Powers of ten out of every double's reach are
not computed. -/
def nearest (digits : Nat) (exponent : Int) : Float :=
  let place := exponent + (Nat.toDigits 10 digits).length
  if digits == 0 || place < -330 then 0.0
  else if 320 < place then 1.0 / 0.0
  else Float.ofScientific digits (exponent < 0) exponent.natAbs

/-- Reads a run of digits of a base, each underscore between two of them skipped. The value so far,
the number of digits read and the rest of the text. -/
def readRun (base : Nat) (value? : Char → Option Nat) (value count : Nat) :
    List Char → Nat × Nat × List Char
  | '_' :: c :: rest =>
    match if 0 < count then value? c else none with
    | some d => readRun base value? (value * base + d) (count + 1) rest
    | none => (value, count, '_' :: c :: rest)
  | c :: rest =>
    match value? c with
    | some d => readRun base value? (value * base + d) (count + 1) rest
    | none => (value, count, c :: rest)
  | [] => (value, count, [])

def readDigits (text : List Char) : Nat × Nat × List Char := readRun 10 digitValue? 0 0 text

def readSign : List Char → Bool × List Char
  | '-' :: rest => (true, rest)
  | '+' :: rest => (false, rest)
  | text => (false, text)

def readExponent : List Char → Option Int
  | [] => some 0
  | mark :: rest =>
    if mark == 'e' || mark == 'E' then
      let (negative, text) := readSign rest
      match readDigits text with
      | (value, _ + 1, []) => some (if negative then -(value : Int) else value)
      | _ => none
    else none

/-- The magnitude of a number without blanks and sign. -/
def readMagnitude? (text : List Char) : Option Float := do
  let lowered := text.map Char.toLower
  if lowered == "inf".toList || lowered == "infinity".toList then return 1.0 / 0.0
  if lowered == "nan".toList then return 0.0 / 0.0
  let (whole, wholeCount, rest) := readDigits text
  let (value, count, rest) := match rest with
    | '.' :: '_' :: after => (whole, 0, '_' :: after)
    | '.' :: after =>
      let (fraction, count, rest) := readDigits after
      (whole * Nat.pow 10 count + fraction, count, rest)
    | _ => (whole, 0, rest)
  guard (0 < wholeCount + count)
  let exponent ← readExponent rest
  return nearest value (exponent - count)

def trimmed (text : String) : List Char :=
  ((text.toList.dropWhile isBlank).reverse.dropWhile isBlank).reverse

def read? (text : String) : Option Float := do
  let (negative, magnitude) := readSign (trimmed text)
  let value ← readMagnitude? magnitude
  return if negative then -value else value

def digitLimit : Nat := 4300

def readInt? (text : String) : Option Int :=
  let (negative, magnitude) := readSign (trimmed text)
  match readDigits magnitude with
  | (value, count + 1, []) =>
    if digitLimit ≤ count then none else some (if negative then -(value : Int) else value)
  | _ => none

def hexValue? (c : Char) : Option Nat :=
  let lowered := c.toLower
  if 'a' ≤ lowered && lowered ≤ 'f' then some (lowered.toNat - 87) else digitValue? c

/-- The natural number that hexadecimal digits behind `0x` denote. -/
def readHex? (text : String) : Option Nat :=
  let digits := match trimmed text with
    | '0' :: 'x' :: '_' :: rest => rest
    | '0' :: 'x' :: rest => rest
    | _ => []
  match readRun 16 hexValue? 0 0 digits with
  | (value, _ + 1, []) => some value
  | _ => none

end Optima.Decimal
