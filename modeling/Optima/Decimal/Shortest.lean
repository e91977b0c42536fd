import Optima.Decimal.Binary

/-!
The fewest decimal digits that identify a double. Grids of one, two, three digits and so on are
tried in turn; the first that has a point reading back as the double wins, and of two such points
the nearer one.
-/

namespace Optima.Decimal

/-- The number `digits * 10 ^ exponent`. -/
structure Significand where
  digits : Nat
  exponent : Int

namespace Significand

/-- Order of `d.digits * 10 ^ d.exponent` and `n * 2 ^ j`. -/
def compareScaled (d : Significand) (n : Nat) (j : Int) : Ordering :=
  compare (d.digits * Nat.pow 10 d.exponent.toNat * Nat.pow 2 (-j).toNat)
    (n * Nat.pow 2 j.toNat * Nat.pow 10 (-d.exponent).toNat)

/-- The decimal lies among the reals that round to the double; a tie belongs to even mantissas. -/
def readsBack (x : Binary) (d : Significand) : Bool :=
  let least := if x.narrowBelow then 4 * x.mantissa - 1 else 4 * x.mantissa - 2
  let below := d.compareScaled least (x.exponent - 2)
  let above := d.compareScaled (4 * x.mantissa + 2) (x.exponent - 2)
  let closed := x.mantissa % 2 == 0
  (below == .gt || (closed && below == .eq)) && (above == .lt || (closed && above == .eq))

/-- Moves trailing zeros of the digits into the exponent. -/
def strip : Nat → Significand → Significand
  | 0, d => d
  | fuel + 1, d =>
    if d.digits != 0 && d.digits % 10 == 0 then strip fuel ⟨d.digits / 10, d.exponent + 1⟩ else d

/-- The point of the grid `10 ^ grid` that reads back as the double, the nearer one of two. -/
def onGrid? (x : Binary) (grid : Int) : Option Significand :=
  let num := x.numerator * Nat.pow 10 (-grid).toNat
  let den := x.denominator * Nat.pow 10 grid.toNat
  let lower : Significand := ⟨num / den, grid⟩
  let upper : Significand := ⟨num / den + 1, grid⟩
  match readsBack x lower, readsBack x upper with
  | true, true => some (if roundDiv num den == lower.digits then lower else upper)
  | true, false => some lower
  | false, true => some upper
  | false, false => none

/-- The shortest decimal that reads back as a positive double. Seventeen digits always suffice;
the value itself, written out, stands behind them. -/
def shortest (x : Binary) : Significand :=
  let place := leadingPlace x.numerator x.denominator
  match (List.range 17).findSome? fun (n : Nat) => onGrid? x (place - n) with
  | some d => strip 17 d
  | none => ⟨x.numerator * Nat.pow 5 (-x.exponent).toNat, min x.exponent 0⟩

/-- A positive fraction rounded to a number of significant digits, halves to even. -/
def rounded (count : Nat) (num den : Nat) : Significand :=
  let exponent := leadingPlace num den - ((count : Int) - 1)
  let n := roundDiv (num * Nat.pow 10 (-exponent).toNat) (den * Nat.pow 10 exponent.toNat)
  if n == Nat.pow 10 count then ⟨n / 10, exponent + 1⟩ else ⟨n, exponent⟩

end Significand

end Optima.Decimal
