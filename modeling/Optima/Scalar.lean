/-!
The numbers of the library. Everything that measures, averages or optimizes is written once over
`Scalar`, so that one definition runs on doubles and is read over the reals. Comparisons are
Boolean decisions: a double may be undefined, and an undefined number answers no to all of them.
-/

namespace Optima

/-- Arithmetic with decidable comparisons. `root n x` is the `n`-th root of `x`, and `power x n` its
`n`-th power. -/
class Scalar (α : Type) extends
    Add α, Sub α, Mul α, Div α, Neg α, Zero α, One α, OfScientific α where
  natural : Nat → α
  magnitude : α → α
  squareRoot : α → α
  root : Nat → α → α
  power : α → Nat → α
  less : α → α → Bool
  atMost : α → α → Bool
  same : α → α → Bool
  isFinite : α → Bool

instance : Scalar Float where
  zero := 0.0
  one := 1.0
  natural n := Float.ofNat n
  magnitude := Float.abs
  squareRoot := Float.sqrt
  root n x := Float.pow x (1.0 / Float.ofNat n)
  -- The first two powers are exact on every platform. All others are left to its own arithmetic.
  power x n := match n with
    | 0 => 1.0
    | 1 => x
    | n => Float.pow x (Float.ofNat n)
  less x y := x < y
  atMost x y := x ≤ y
  same x y := x == y
  isFinite := Float.isFinite

namespace Scalar

variable {α : Type} [Scalar α]

/-- The only number that differs from itself. -/
@[inline] def isUndefined (x : α) : Bool := !same x x

/-- The first number, unless the second is strictly greater. An undefined second number loses. -/
@[inline] def larger (x y : α) : α := if less x y then y else x

/-- The first number, unless the second is strictly smaller. An undefined second number loses. -/
@[inline] def smaller (x y : α) : α := if less y x then y else x

/-- The greater of two numbers, the second one if they are equal; an undefined one wins. -/
@[inline] def maximum (x y : α) : α := if less y x || isUndefined x then x else y

/-- The lesser of two numbers, the second one if they are equal; an undefined one wins. -/
@[inline] def minimum (x y : α) : α := if less x y || isUndefined x then x else y

/-- Left-to-right sum, starting from zero. -/
def sum (xs : List α) : α := xs.foldl (· + ·) 0

def dot (xs ys : List α) : α := sum (List.zipWith (· * ·) xs ys)

/-- The greatest of a list, undefined as soon as one member is; none for the empty list. -/
def greatest? : List α → Option α
  | [] => none
  | x :: xs => some (xs.foldl maximum x)

def least? : List α → Option α
  | [] => none
  | x :: xs => some (xs.foldl minimum x)

/-- The largest of a list and a default for the empty list, earlier members winning ties. -/
def largestD (fallback : α) : List α → α
  | [] => fallback
  | x :: xs => xs.foldl larger x

end Scalar

end Optima
