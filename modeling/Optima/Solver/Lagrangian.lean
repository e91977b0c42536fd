import Optima.Constraint.Basic

/-!
The augmented Lagrangian of a constrained problem. With residuals `h` of the equalities, residuals
`g` of the inequalities, multipliers `l` and `n` and penalty `m` its value is

  weight * f(x) + sum l*h + m/2 * sum h^2 + 1/(2m) * sum (max(0, n + m*g)^2 - n^2)

and the multipliers move to `l + m*h` and `max(0, n + m*g)`. Equalities are always looked at before
inequalities; the caller's order comes back when multipliers are reported.
-/

namespace Optima

inductive Sense where
  | minimize
  | maximize
deriving DecidableEq

/-- What is attached to equalities and what is attached to inequalities, each in caller's order. -/
structure ByRelation (β : Type) where
  equalities : List β
  inequalities : List β

/-- An objective, its gradient if known, and the constraints in the caller's order. The weight is
what the objective counts for in the value that is minimized. -/
structure Problem (α : Type) where
  objective : Vec α → Except Fault α
  gradient : Option (Vec α → Except Fault (Vec α)) := none
  constraints : List (Constraint α) := []
  weight : α

variable {α : Type} [Scalar α]

/-- Objectives are minimized; one to be maximized changes its sign. -/
def Sense.sign : Sense → α
  | minimize => 1
  | maximize => -1

namespace Problem

omit [Scalar α]

def parts (p : Problem α) : ByRelation (Constraint α) where
  equalities := p.constraints.filter (·.isEquality)
  inequalities := p.constraints.filter (!·.isEquality)

def isAnalytic (p : Problem α) : Bool :=
  p.gradient.isSome && p.constraints.all (·.gradient.isSome)

def residuals (p : Problem α) (x : Vec α) : Except Fault (ByRelation α) := do
  let h ← p.parts.equalities.mapM fun c => c.residual x
  let g ← p.parts.inequalities.mapM fun c => c.residual x
  return ⟨h, g⟩

end Problem

namespace ByRelation

omit [Scalar α] in
/-- Puts what is sorted by relation back into the order of the relations. -/
def inOrder : List Relation → ByRelation α → List α
  | [], _ => []
  | .equality :: rest, ⟨x :: xs, ys⟩ => x :: inOrder rest ⟨xs, ys⟩
  | .inequality :: rest, ⟨xs, y :: ys⟩ => y :: inOrder rest ⟨xs, ys⟩
  | _, _ => []

/-- The violation that residuals show: the largest magnitude of the equalities or the largest
residual of the inequalities, and never less than zero. A group with an undefined residual counts
for nothing. -/
def worst (r : ByRelation α) : α :=
  let fromEqualities := match Scalar.greatest? (r.equalities.map Scalar.magnitude) with
    | some v => Scalar.larger 0 v
    | none => 0
  match Scalar.greatest? r.inequalities with
  | some v => Scalar.larger fromEqualities v
  | none => fromEqualities

end ByRelation

def equalityShift (penalty multiplier h : α) : α := multiplier + penalty * h

def inequalityShift (penalty multiplier g : α) : α :=
  Scalar.maximum 0 (multiplier + penalty * g)

/-- A problem with the multipliers and the penalty of the moment. -/
structure Lagrangian (α : Type) where
  problem : Problem α
  /-- Relative step of numerical gradients. -/
  step : α
  multipliers : ByRelation α
  penalty : α

namespace Lagrangian

def start (problem : Problem α) (step penalty : α) : Lagrangian α where
  problem := problem
  step := step
  penalty := penalty
  multipliers :=
    { equalities := List.replicate problem.parts.equalities.length 0
      inequalities := List.replicate problem.parts.inequalities.length 0 }

def equalityTerm (penalty : α) (multipliers h : List α) : α :=
  Scalar.dot multipliers h + 0.5 * penalty * Scalar.dot h h

/-- What the inequalities add to the value. A penalty of zero cannot divide it. -/
def inequalityTerm (penalty : α) (multipliers g : List α) : Except Fault α :=
  let shifted := List.zipWith (inequalityShift penalty) multipliers g
  let divisor := 2.0 * penalty
  if Scalar.same divisor 0 then .error .divisionByZero
  else .ok ((Scalar.dot shifted shifted - Scalar.dot multipliers multipliers) / divisor)

def combine (L : Lagrangian α) (signed : α) (r : ByRelation α) : Except Fault α := do
  let withEqualities :=
    if r.equalities.isEmpty then signed
    else signed + equalityTerm L.penalty L.multipliers.equalities r.equalities
  if r.inequalities.isEmpty then return withEqualities
  return withEqualities +
    (← inequalityTerm L.penalty L.multipliers.inequalities r.inequalities)

def value (L : Lagrangian α) (x : Vec α) : Except Fault α := do
  let signed := L.problem.weight * (← L.problem.objective x)
  L.combine signed (← L.problem.residuals x)

/-- Adds a multiple of a gradient to another gradient of the same dimension. A gradient with a
single component stands beside each component of the other one. -/
def addScaled (v : Vec α) (weight : α) (w : Vec α) : Except Fault (Vec α) :=
  match v.toList, w.toList with
  | xs, [b] => .ok ⟨xs.map fun a => a + weight * b⟩
  | [a], ys => .ok ⟨ys.map fun b => a + weight * b⟩
  | xs, ys =>
    if xs.length == ys.length then .ok ⟨List.zipWith (fun a b => a + weight * b) xs ys⟩
    else .error .badValue

theorem addScaled_eq {v w : Vec α} (h : v.size = w.size) (a : α) :
    addScaled v a w = .ok ⟨List.zipWith (fun b c => b + a * c) v.toList w.toList⟩ := by
  obtain ⟨xs⟩ := v
  obtain ⟨ys⟩ := w
  change xs.length = ys.length at h
  match xs, ys, h with
  | [], [], _ => rfl
  | [_], [_], _ => rfl
  | _ :: _ :: _, _ :: _ :: _, h => exact if_pos (beq_iff_eq.mpr h)

/-- The known gradient of a constraint; asked for only when all gradients are known. -/
def knownGradient (c : Constraint α) (x : Vec α) : Except Fault (Vec α) :=
  match c.gradient with
  | some gradient => gradient x
  | none => .error .wrongKind

def addEqualities (penalty : α) (x : Vec α) (v : Vec α) :
    List (Constraint α × α) → Except Fault (Vec α)
  | [] => .ok v
  | (c, multiplier) :: rest => do
    let weight := equalityShift penalty multiplier (← c.residual x)
    let v ← addScaled v weight (← knownGradient c x)
    addEqualities penalty x v rest

/-- Adds the gradients of those inequalities whose shifted multiplier is positive. -/
def addInequalities (penalty : α) (x : Vec α) (v : Vec α) :
    List (Constraint α × α) → Except Fault (Vec α)
  | [] => .ok v
  | (c, multiplier) :: rest => do
    let weight := Scalar.larger 0 (multiplier + penalty * (← c.residual x))
    if Scalar.less 0 weight then
      let v ← addScaled v weight (← knownGradient c x)
      addInequalities penalty x v rest
    else addInequalities penalty x v rest

def analyticGradient (L : Lagrangian α) (objectiveGradient : Vec α → Except Fault (Vec α))
    (x : Vec α) : Except Fault (Vec α) := do
  let own ← objectiveGradient x
  let v : Vec α := ⟨own.toList.map fun d => L.problem.weight * d⟩
  let v ← addEqualities L.penalty x v
    (L.problem.parts.equalities.zip L.multipliers.equalities)
  addInequalities L.penalty x v
    (L.problem.parts.inequalities.zip L.multipliers.inequalities)

/-- The gradient of the value: analytic if all gradients are known, else by differences. -/
def gradient (L : Lagrangian α) (x : Vec α) : Except Fault (Vec α) :=
  match L.problem.gradient with
  | some objectiveGradient =>
    if L.problem.isAnalytic then L.analyticGradient objectiveGradient x
    else numericalGradient L.value L.step x
  | none => numericalGradient L.value L.step x

def maxViolation (L : Lagrangian α) (x : Vec α) : Except Fault α := do
  return (← L.problem.residuals x).worst

def shifted (L : Lagrangian α) (r : ByRelation α) : ByRelation α where
  equalities := List.zipWith (equalityShift L.penalty) L.multipliers.equalities r.equalities
  inequalities :=
    List.zipWith (inequalityShift L.penalty) L.multipliers.inequalities r.inequalities

def updateMultipliers (L : Lagrangian α) (x : Vec α) : Except Fault (Lagrangian α) := do
  return { L with multipliers := L.shifted (← L.problem.residuals x) }

/-- Whether some constraint violated by more than the tolerance has a gradient that vanishes: its
squared length is no more than `minDerivative`. -/
def hasDegenerateViolation (step tolerance minDerivative : α) (x : Vec α) :
    List (Constraint α) → Except Fault Bool
  | [] => .ok false
  | c :: cs => do
    if Scalar.atMost (← c.violation x) tolerance then
      hasDegenerateViolation step tolerance minDerivative x cs
    else
      let v ← c.gradientAt step x
      if Scalar.atMost (Scalar.dot v.toList v.toList) minDerivative then return true
      else hasDegenerateViolation step tolerance minDerivative x cs

def multipliersInOrder (L : Lagrangian α) : List α :=
  L.multipliers.inOrder (L.problem.constraints.map (·.relation))

end Lagrangian

end Optima
