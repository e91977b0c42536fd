import Optima.Fault

/-!
Values as numbers. A value is a number, or a text that denotes one; a whole number may be too large
for a double. Exactly, every number but the undefined one and the infinite ones is a whole number
times a power of two, and that is how numbers of different kinds are compared.
-/

namespace Optima.Datum

/-- A whole number as a double, unless it is beyond the largest one. -/
def wholeToFloat (n : Int) : Except Fault Float :=
  let magnitude := Decimal.nearest n.natAbs 0
  if magnitude.isInf then .error .tooLarge
  else .ok (if n < 0 then -magnitude else magnitude)

def number : Datum → Except Fault Float
  | flag value => .ok (if value then 1.0 else 0.0)
  | whole value => wholeToFloat value
  | real value => .ok value
  | _ => .error .wrongKind

/-- The number that a value is or, if it is a text, denotes. -/
def toFloat : Datum → Except Fault Float
  | text value =>
    match Decimal.read? value with
    | some x => .ok x
    | none => .error .badValue
  | value => value.number

/-- The whole number that a value is; a flag is one or zero. -/
def whole? : Datum → Option Int
  | whole value => some value
  | flag value => some (if value then 1 else 0)
  | _ => none

def integer (value : Datum) : Except Fault Int :=
  match value.whole? with
  | some n => .ok n
  | none => .error .wrongKind

/-- The number that a number is compared with by taking a difference. A vector takes part in
differences with vectors only. -/
def bound : Datum → Except Fault Float
  | vector _ => .error (.mismatch (.operandShape .subtract []))
  | value => value.number

/-- A number in one of its written forms. A text has none of them. -/
def written (form : Float → String) (value : Datum) : Except Fault String :=
  match value with
  | text _ => .error .badValue
  | value => form <$> value.number

/-- What a value holds when it is gone through: the members of a list, the components of a vector,
the characters of a text or the keys of a record. Nothing else can be gone through. -/
def members : Datum → Except Fault (List Datum)
  | list items => .ok items
  | vector components => .ok (components.map real)
  | text value => .ok (value.toList.map fun c => text (String.ofList [c]))
  | record fields => .ok (fields.map fun entry => text entry.1)
  | _ => .error .wrongKind

def length (value : Datum) : Except Fault Nat := List.length <$> value.members

def first : Datum → Except Fault Datum
  | list (item :: _) => .ok item
  | text value =>
    match value.toList with
    | c :: _ => .ok (text (String.ofList [c]))
    | [] => .error .outOfRange
  | list [] => .error .outOfRange
  | vector (x :: _) => .ok (real x)
  | vector [] => .error (.outOfBounds 0 0)
  | record _ => .error (.missingKey (whole 0))
  | _ => .error .wrongKind

/-- An exact number: a finite one is `mantissa * 2 ^ exponent`, with an odd mantissa unless it is
zero. -/
inductive Quantity where
  | undefined
  | infinite (negative : Bool)
  | finite (mantissa exponent : Int)
deriving DecidableEq

namespace Quantity

/-- Moves factors of two from the mantissa into the exponent. -/
def reduced : (fuel : Nat) → Int → Int → Quantity
  | 0, m, e => finite m e
  | fuel + 1, m, e =>
    if m == 0 then finite 0 0
    else if m % 2 == 0 then reduced fuel (m / 2) (e + 1)
    else finite m e

def scaled (m e : Int) : Quantity := reduced (m.natAbs.log2 + 1) m e

def ofFloat (x : Float) : Quantity :=
  match Decimal.Binary.ofFloat? x with
  | some b => scaled (if b.negative then -(b.mantissa : Int) else b.mantissa) b.exponent
  | none => if x.isNaN then undefined else infinite (x < 0.0)

/-- The undefined number differs from itself. -/
def same (p q : Quantity) : Bool := p == q && p != undefined

/-- The order of numbers; the undefined one is neither less nor greater than any. -/
def less : Quantity → Quantity → Bool
  | finite m e, finite n f =>
    m * Int.pow 2 (e - min e f).toNat < n * Int.pow 2 (f - min e f).toNat
  | finite _ _, infinite negative => !negative
  | infinite negative, finite _ _ => negative
  | infinite p, infinite q => p && !q
  | undefined, _ => false
  | _, undefined => false

end Quantity

def quantity? : Datum → Option Quantity
  | real value => some (Quantity.ofFloat value)
  | value => value.whole?.map fun n => Quantity.scaled n 0

def precedingFloat (x : Float) : Float :=
  if x == 0.0 then -5e-324
  else if 0.0 < x then Float.ofBits (x.toBits - 1)
  else Float.ofBits (x.toBits + 1)

/-- The greatest double that is no more than a number, so that a double is at most the one exactly
when it is at most the other. -/
def threshold : Datum → Except Fault Float
  | whole n =>
    let magnitude := Decimal.nearest n.natAbs 0
    let nearest := if n < 0 then -magnitude else magnitude
    let isBelow := (Quantity.scaled n 0).less (Quantity.ofFloat nearest)
    .ok (if isBelow then precedingFloat nearest else nearest)
  | value => value.number

end Optima.Datum
