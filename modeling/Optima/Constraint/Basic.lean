import Optima.Difference

/-!
Constraints on a decision. A constraint is a residual that must vanish, or must not be positive; how
far a decision is from that is its violation.
-/

namespace Optima

/-- An equality asks for a zero residual, an inequality for one that is not positive. -/
inductive Relation where
  | equality
  | inequality
deriving DecidableEq

/-- The relation that a mark stands for: whatever counts as present marks an equality. -/
def Relation.ofMark (mark : Datum) : Relation :=
  if mark.isPresent then .equality else .inequality

def Relation.label : Relation → String
  | equality => "equality"
  | inequality => "inequality"

structure Constraint (α : Type) where
  relation : Relation
  residual : Vec α → Except Fault α
  /-- The gradient of the residual, if it is known. -/
  gradient : Option (Vec α → Except Fault (Vec α)) := none
  /-- The caller's label, kept as given. -/
  name : Datum := .null

variable {α : Type} [Scalar α]

/-- How far a residual is from what its relation asks for. -/
def Relation.violation : Relation → α → α
  | equality, r => Scalar.magnitude r
  | inequality, r => Scalar.larger r 0

namespace Constraint

omit [Scalar α] in
def isEquality (c : Constraint α) : Bool := c.relation == .equality

def violation (c : Constraint α) (x : Vec α) : Except Fault α := do
  return c.relation.violation (← c.residual x)

def isSatisfied (c : Constraint α) (tolerance : α) (x : Vec α) : Except Fault Bool := do
  return Scalar.atMost (← c.violation x) tolerance

/-- The known gradient, or central differences of the residual. -/
def gradientAt (c : Constraint α) (step : α) (x : Vec α) : Except Fault (Vec α) :=
  match c.gradient with
  | some gradient => gradient x
  | none => numericalGradient c.residual step x

def violations (cs : List (Constraint α)) (x : Vec α) : Except Fault (List α) :=
  cs.mapM fun c => c.violation x

/-- The largest violation, zero if there are no constraints. -/
def maxViolation (cs : List (Constraint α)) (x : Vec α) : Except Fault α := do
  return Scalar.largestD 0 (← violations cs x)

/-- Whether every constraint is satisfied; constraints after the first violated one are not
looked at. -/
def allSatisfied (tolerance : α) (x : Vec α) : List (Constraint α) → Except Fault Bool
  | [] => .ok true
  | c :: cs => do
    if ← c.isSatisfied tolerance x then allSatisfied tolerance x cs else return false

end Constraint

end Optima
