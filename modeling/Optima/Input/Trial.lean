import Optima.Input.Tensor
import Optima.Solver.Lagrangian

/-!
The augmented Lagrangian taken step by step, with weight, penalty and difference step as given. A
value that is no number is refused only where it is used: a penalty counts for nothing without
constraints, and a step is asked for only where a gradient is not known.
-/

namespace Optima

namespace Datum

mutual

/-- Whether a list holds a text at any level. -/
def holdsText : Datum → Bool
  | text _ => true
  | list items => holdTexts items
  | _ => false

def holdTexts : List Datum → Bool
  | [] => false
  | item :: rest => holdsText item || holdTexts rest

end

/-- The number that a number can be multiplied with, for the product to be added to a number. -/
def addend : Datum → Except Fault Float
  | vector _ => .error (.mismatch (.operandShape .add []))
  | value => value.number

/-- The product with each member of a list of numbers. A list multiplies member by member. -/
def timesArray (value : Datum) (xs : List Float) : Except Fault (List Float) := do
  match value with
  | text _ => throw .noSuchOperation
  | list items =>
    if holdTexts items then throw .noSuchOperation
    let t ← Tensor.ofDatum (list items)
    let shape ← Tensor.commonShape t.shape [xs.length]
    if shape.length != 1 then throw .wrongKind
    return List.zipWith (· * ·) (Tensor.spread shape t.shape t.entries)
      (Tensor.spread shape [xs.length] xs)
  | value =>
    let factor ← value.number
    return xs.map (factor * ·)

end Datum

/-- The sum of two lists of numbers; a single number is added to each of the others. -/
def addedArrays (xs ys : List Float) : Except Fault (List Float) := do
  let shape ← Tensor.commonShape [xs.length] [ys.length]
  return List.zipWith (· + ·) (Tensor.spread shape [xs.length] xs)
    (Tensor.spread shape [ys.length] ys)

/-- Central differences with the step as given, which is not asked for at a point without
components. -/
def differencesGiven (step : Datum) (f : Vec Float → Except Fault Float) (x : Vec Float) :
    Except Fault (Vec Float) := do
  if x.toList.isEmpty then return x
  numericalGradient f (← step.addend) x

/-- Central differences at the entries of an array. A single number has no components to move; where
an array has more levels, a row of several entries has no size, and the function gets the array as a
whole. -/
def arrayDifferences (step : Datum) (f : Vec Float → Except Fault Float) (t : Tensor) :
    Except Fault (Vec Float) := do
  match t.shape with
  | [] => throw .outOfRange
  | [_] => differencesGiven step f ⟨t.entries⟩
  | _ :: inner =>
    if t.entries.isEmpty then return ⟨[]⟩
    if 1 < Tensor.sizeOf inner then throw .badValue
    let _ ← step.addend
    let _ ← Vec.ofTensor t
    throw .wrongKind

def differencesAt (step : Datum) (f : Vec Float → Except Fault Float) (point : Datum) :
    Except Fault (Vec Float) := do
  match point with
  | .vector components => differencesGiven step f ⟨components⟩
  | point => arrayDifferences step f (← Tensor.ofDatum point)

def Constraint.gradientGiven (step : Datum) (c : Constraint Float) (x : Vec Float) :
    Except Fault (Vec Float) :=
  match c.gradient with
  | some gradient => gradient x
  | none => differencesGiven step c.residual x

def isWithin (tolerance : Datum) (violation : Float) : Except Fault Bool := do
  return violation ≤ (← tolerance.threshold)

/-- Whether every constraint is satisfied within a tolerance as given, which is not asked for if
there are none. -/
def Constraint.allWithin (tolerance : Datum) (x : Vec Float) (cs : List (Constraint Float)) :
    Except Fault Bool := do
  match cs with
  | [] => return true
  | c :: _ =>
    let _ ← c.violation x
    allSatisfied (← tolerance.threshold) x cs

/-- A Lagrangian of which weight, step and penalty are as given. -/
structure Trial where
  objective : Vec Float → Except Fault Float
  gradient : Option (Vec Float → Except Fault (Vec Float))
  constraints : List (Constraint Float)
  weight : Datum
  step : Datum
  penalty : Datum
  multipliers : ByRelation Float

namespace Trial

def problem (t : Trial) (weight : Float) : Problem Float where
  objective := t.objective
  gradient := t.gradient
  constraints := t.constraints
  weight := weight

/-- All multipliers are zero in the beginning, and the penalty is one. -/
def start (objective : Vec Float → Except Fault Float)
    (gradient : Option (Vec Float → Except Fault (Vec Float)))
    (constraints : List (Constraint Float)) (weight step : Datum) : Trial :=
  let none : Trial :=
    { objective, gradient, constraints, weight, step, penalty := .real 1.0,
      multipliers := ⟨[], []⟩ }
  { none with multipliers := (Lagrangian.start (none.problem 1.0) 0.0 1.0).multipliers }

def residuals (t : Trial) (x : Vec Float) : Except Fault (ByRelation Float) :=
  (t.problem 1.0).residuals x

def maxViolation (t : Trial) (x : Vec Float) : Except Fault Float := do
  return (← t.residuals x).worst

def withEqualities (t : Trial) (signed : Float) (h : List Float) : Except Fault Float := do
  if h.isEmpty then return signed
  if t.multipliers.equalities.length != h.length then throw .badValue
  return signed + Lagrangian.equalityTerm (← t.penalty.addend) t.multipliers.equalities h

/-- What the inequalities add. A list of penalties gets as far as the shifted multipliers. -/
def inequalityTerm (t : Trial) (g : List Float) : Except Fault Float := do
  let _ ← addedArrays t.multipliers.inequalities (← t.penalty.timesArray g)
  Lagrangian.inequalityTerm (← t.penalty.number) t.multipliers.inequalities g

def value (t : Trial) (x : Vec Float) : Except Fault Float := do
  let own ← t.objective x
  let signed := (← t.weight.number) * own
  let r ← t.residuals x
  let sum ← t.withEqualities signed r.equalities
  if r.inequalities.isEmpty then return sum
  return sum + (← t.inequalityTerm r.inequalities)

def analyticGradient (t : Trial) (objectiveGradient : Vec Float → Except Fault (Vec Float))
    (x : Vec Float) : Except Fault (Vec Float) := do
  let own ← t.weight.timesArray (← objectiveGradient x).toList
  let parts := (t.problem 1.0).parts
  match parts.equalities ++ parts.inequalities with
  | [] => return ⟨own⟩
  | first :: _ =>
    match t.penalty.addend with
    | .ok penalty =>
      let v ← Lagrangian.addEqualities penalty x ⟨own⟩
        (parts.equalities.zip t.multipliers.equalities)
      Lagrangian.addInequalities penalty x v
        (parts.inequalities.zip t.multipliers.inequalities)
    | .error fault =>
      let _ ← first.residual x
      throw fault

/-- The gradient of the value at a point as given: analytic if all gradients are known, else by
differences. -/
def gradientAt (t : Trial) (point : Datum) : Except Fault (Vec Float) := do
  match t.gradient with
  | some objectiveGradient =>
    if (t.problem 1.0).isAnalytic then t.analyticGradient objectiveGradient (← Vec.ofDatum point)
    else differencesAt t.step t.value point
  | none => differencesAt t.step t.value point

/-- Moves the multipliers of the equalities. -/
def movedEqualities (t : Trial) (h : List Float) : Except Fault (List Float) := do
  if h.isEmpty then return t.multipliers.equalities
  addedArrays t.multipliers.equalities (← t.penalty.timesArray h)

def movedInequalities (t : Trial) (g : List Float) : Except Fault (List Float) := do
  if g.isEmpty then return t.multipliers.inequalities
  let moved ← addedArrays t.multipliers.inequalities (← t.penalty.timesArray g)
  return moved.map (Scalar.maximum 0.0)

def update (t : Trial) (x : Vec Float) : Except Fault Trial := do
  let r ← t.residuals x
  let equalities ← t.movedEqualities r.equalities
  return { t with multipliers := ⟨equalities, ← t.movedInequalities r.inequalities⟩ }

/-- Whether some constraint violated by more than the tolerance has a gradient that vanishes. The
limits are as given: the tolerance is asked for with the first constraint, and the other limit with
the first violated one. -/
def isDegenerate (t : Trial) (tolerance minDerivative : Datum) (x : Vec Float) :
    List (Constraint Float) → Except Fault Bool
  | [] => .ok false
  | c :: cs => do
    if ← isWithin tolerance (← c.violation x) then t.isDegenerate tolerance minDerivative x cs
    else
      let v ← c.gradientGiven t.step x
      if ← isWithin minDerivative (Scalar.dot v.toList v.toList) then return true
      else t.isDegenerate tolerance minDerivative x cs

def multipliersInOrder (t : Trial) : List Float :=
  t.multipliers.inOrder (t.constraints.map (·.relation))

end Trial

end Optima
