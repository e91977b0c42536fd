import Optima.Decimal.Shortest

/-!
How numbers are written. A double has four written forms: with a set number of places, with a set
number of places and an exponent, with a set number of significant digits, and with the fewest
digits that identify it. All of them write the undefined number as `nan` and infinity as `inf`.
-/

namespace Optima.Decimal

def withSign (x : Float) (magnitude : Binary → List Char) : String :=
  match Binary.ofFloat? x with
  | some b =>
    let text := magnitude b
    String.ofList (if b.negative then '-' :: text else text)
  | none => if x.isNaN then "nan" else if x < 0.0 then "-inf" else "inf"

def padded (width n : Nat) : List Char :=
  let text := digits n
  List.replicate (width - text.length) '0' ++ text

/-- Sets the point before the last `places` of the digits of `n`. -/
def pointed (places n : Nat) : List Char :=
  let text := padded (places + 1) n
  let whole := text.length - places
  if places == 0 then text else text.take whole ++ '.' :: text.drop whole

/-- A signed exponent of at least two digits. -/
def exponentText (e : Int) : List Char :=
  'e' :: (if e < 0 then '-' else '+') :: padded 2 e.natAbs

def exponential (text : List Char) (place : Int) : List Char :=
  match text with
  | [] => []
  | [d] => d :: exponentText place
  | d :: rest => d :: '.' :: rest ++ exponentText place

/-- Digits of which the first has the power of ten `place`, written with a point where needed. -/
def positional (text : List Char) (place : Int) : List Char :=
  if place < 0 then '0' :: '.' :: List.replicate (-place - 1).toNat '0' ++ text
  else
    let whole := place.toNat + 1
    if text.length ≤ whole then text ++ List.replicate (whole - text.length) '0'
    else text.take whole ++ '.' :: text.drop whole

def dropTrailingZeros (text : List Char) : List Char :=
  (text.reverse.dropWhile (· == '0')).reverse

/-- A set number of places after the point, halves to even. -/
def fixed (places : Nat) (x : Float) : String :=
  withSign x fun b => pointed places (roundDiv (b.numerator * Nat.pow 10 places) b.denominator)

def scientific (places : Nat) (x : Float) : String :=
  withSign x fun b =>
    if b.mantissa == 0 then exponential (List.replicate (places + 1) '0') 0
    else
      let d := Significand.rounded (places + 1) b.numerator b.denominator
      exponential (digits d.digits) (d.exponent + places)

/-- At most `precision` significant digits without trailing zeros; an exponent is written below
`10 ^ -4` and from `10 ^ precision` on. -/
def general (precision : Nat) (x : Float) : String :=
  withSign x fun b =>
    if b.mantissa == 0 then ['0']
    else
      let d := Significand.rounded precision b.numerator b.denominator
      let place := d.exponent + (precision - 1 : Nat)
      let text := dropTrailingZeros (digits d.digits)
      if place < -4 || (precision : Int) ≤ place then exponential text place
      else positional text place

/-- The fewest digits that identify the number; an exponent is written below `10 ^ -4` and from
`10 ^ 16` on, and a whole number without one ends in `.0`. -/
def shortest (x : Float) : String :=
  withSign x fun b =>
    if b.mantissa == 0 then ['0', '.', '0']
    else
      let d := Significand.shortest b
      let text := digits d.digits
      let place := d.exponent + (text.length - 1 : Nat)
      if place < -4 || 16 ≤ place then exponential text place
      else
        let written := positional text place
        if written.contains '.' then written else written ++ ['.', '0']

def leftAligned (width : Nat) (text : String) : String :=
  text ++ String.ofList (List.replicate (width - text.length) ' ')

end Optima.Decimal
