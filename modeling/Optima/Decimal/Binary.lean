/-!
Doubles as exact fractions. A finite double is a natural mantissa times a power of two, so every
question about its decimal digits is one about natural numbers.
-/

namespace Optima.Decimal

/-- The magnitude `mantissa * 2 ^ exponent` of a finite double and its sign. -/
structure Binary where
  negative : Bool
  mantissa : Nat
  exponent : Int
  /-- The gap to the next double below is half the gap to the one above. -/
  narrowBelow : Bool

namespace Binary

/-- A finite double taken apart; none for an undefined or infinite one. -/
def ofFloat? (x : Float) : Option Binary :=
  let bits := x.toBits
  let negative := bits >>> 63 == 1
  let scale := ((bits >>> 52) &&& 0x7FF).toNat
  let fraction := (bits &&& 0xFFFFFFFFFFFFF).toNat
  if scale == 0x7FF then none
  else if scale == 0 then some ⟨negative, fraction, -1074, false⟩
  else
    some ⟨negative, 0x10000000000000 + fraction, (scale : Int) - 1075, fraction == 0 && 1 < scale⟩

/-- The magnitude is `numerator / denominator`. -/
def numerator (x : Binary) : Nat := x.mantissa * Nat.pow 2 x.exponent.toNat

def denominator (x : Binary) : Nat := Nat.pow 2 (-x.exponent).toNat

end Binary

/-- The quotient rounded to the nearest natural number, halves to the even neighbour. -/
def roundDiv (num den : Nat) : Nat :=
  let whole := num / den
  let rest := 2 * (num % den)
  if rest < den then whole
  else if den < rest then whole + 1
  else if whole % 2 == 0 then whole
  else whole + 1

def digits (n : Nat) : List Char := Nat.toDigits 10 n

/-- Power of ten of the leading decimal digit of a positive fraction. -/
def leadingPlace (num den : Nat) : Int :=
  let guess : Int := (digits num).length - (digits den).length
  if den * Nat.pow 10 guess.toNat ≤ num * Nat.pow 10 (-guess).toNat then guess else guess - 1

end Optima.Decimal
