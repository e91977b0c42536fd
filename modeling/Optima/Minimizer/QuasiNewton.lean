import Optima.Minimizer.LineSearch
import Optima.Solver.Outcome

/-!
Unconstrained minimization of smooth functions. The direction of each step comes from the last few
differences of points and gradients; a search along it fixes the length. When a search fails the
point stays, what was learned is dropped and steepest descent is tried once; a second failure ends
the minimization at the last accepted point.
-/

namespace Optima.QuasiNewton

open LineSearch

/-- A step, the change of the gradient along it, and their inner product. -/
structure Pair where
  step : List Float
  change : List Float
  product : Float

/-- Most pairs that are remembered. -/
def memory : Nat := 10

def negligible : Float := 1e-12

def maxEvaluations : Nat := 15000

/-- Distance from one to the next double. -/
def roundOff : Float := 2.220446049250313e-16

def addMultiple (v : List Float) (s : Float) (w : List Float) : List Float :=
  List.zipWith (fun a b => a + s * b) v w

/-- The remembered curvature applied to a gradient, newest pair first. -/
def applyInverse (scale : Float) : List Pair → List Float → List Float
  | [], q => q.map (scale * ·)
  | p :: rest, q =>
    let a := Scalar.dot p.step q / p.product
    let r := applyInverse scale rest (addMultiple q (-a) p.change)
    let b := Scalar.dot p.change r / p.product
    addMultiple r (a - b) p.step

def direction (pairs : List Pair) (gradient : List Float) : List Float :=
  let scale := match pairs with
    | p :: _ => p.product / Scalar.dot p.change p.change
    | [] => 1.0
  (applyInverse scale pairs gradient).map fun x => -x

/-- Value and gradient at a point. -/
structure Visit where
  point : Vec Float
  value : Float
  gradient : Vec Float

/-- The largest component of the gradient in magnitude; undefined if one component is. -/
def steepness (gradient : Vec Float) : Float :=
  (Scalar.greatest? (gradient.toList.map Float.abs)).getD 0.0

def descend (value : Vec Float → Except Fault Float)
    (gradient : Vec Float → Except Fault (Vec Float)) (first : Bool) (v : Visit)
    (d : List Float) : Except Fault (Nat × Option Probe) := do
  let slope := Scalar.dot v.gradient.toList d
  if 0.0 ≤ slope then return (0, none)
  let length := (Scalar.dot d d).sqrt
  let step := if first then smaller (1.0 / length) longest else 1.0
  let probe (step : Float) : Except Fault Probe := do
    let point : Vec Float := ⟨addMultiple v.point.toList step d⟩
    let f ← value point
    let g ← gradient point
    return ⟨⟨step, f, Scalar.dot g.toList d⟩, point, g⟩
  let (left, found) ← search probe trials (State.initial v.value slope step) step
  return (trials - left, found)

/-- The pairs after an accepted step; a step along which the slope hardly changed teaches
nothing. -/
def learn (pairs : List Pair) (v : Visit) (d : List Float) (p : Probe) : List Pair :=
  let oldSlope := Scalar.dot v.gradient.toList d
  let product := (p.node.slope - oldSlope) * p.node.step
  if product ≤ roundOff * (-oldSlope * p.node.step) then pairs
  else
    let pair : Pair :=
      { step := d.map (p.node.step * ·)
        change := List.zipWith (· - ·) p.gradient.toList v.gradient.toList
        product }
    (pair :: pairs).take memory

/-- Takes steps until the gradient is flat, the decrease is negligible, no step can be found or a
budget is used up. -/
def loop (value : Vec Float → Except Fault Float)
    (gradient : Vec Float → Except Fault (Vec Float)) (flat : Float) :
    (budget : Nat) → (evaluations : Nat) → (first : Bool) → List Pair → Visit →
      Except Fault (Vec Float × Vec Float)
  | 0, _, _, _, v => .ok (v.point, v.gradient)
  | budget + 1, evaluations, first, pairs, v => do
    if steepness v.gradient ≤ flat then return (v.point, v.gradient)
    if maxEvaluations < evaluations then return (v.point, v.gradient)
    let d := direction pairs v.gradient.toList
    let (used, found) ← descend value gradient first v d
    match found with
    | some p => accept budget (evaluations + used) pairs v d p
    | none =>
      if pairs.isEmpty then return (v.point, v.gradient)
      let d := direction [] v.gradient.toList
      let (more, found) ← descend value gradient first v d
      match found with
      | some p => accept budget (evaluations + used + more) [] v d p
      | none => return (v.point, v.gradient)
where
  accept (budget evaluations : Nat) (pairs : List Pair) (v : Visit) (d : List Float)
      (p : Probe) : Except Fault (Vec Float × Vec Float) :=
    let decrease := v.value - p.node.value
    let scale := larger (larger v.value.abs p.node.value.abs) 1.0
    if steepness p.gradient ≤ flat || decrease ≤ negligible * scale then
      .ok (p.point, p.gradient)
    else
      loop value gradient flat budget evaluations false (learn pairs v d p)
        ⟨p.point, p.node.value, p.gradient⟩

def minimizer (settings : Settings Float) : Minimizer Float := fun value gradient start => do
  let f ← value start
  let g ← gradient start
  loop value gradient settings.gradientTolerance settings.maxInnerIterations 1 true [] ⟨start, f, g⟩

end Optima.QuasiNewton
