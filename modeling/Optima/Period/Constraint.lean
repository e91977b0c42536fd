import Optima.Constraint.Portfolio
import Optima.Period.Trajectory

/-!
Constraints on trajectories. A rule reads every state, the last one, each two consecutive ones, the
whole trajectory or every beginning of it, and gives one residual for each. A rule can be evaluated
on a trajectory, and it can be lowered to constraints on the flat vector of the states.
-/

namespace Optima

/-- Which states a residual reads. -/
inductive PeriodRule (α : Type) where
  | eachPeriod (residual : Nat → Vec α → Except Fault α)
  | terminal (residual : Vec α → Except Fault α)
  | transition (residual : Nat → Vec α → Vec α → Except Fault α)
  | trajectory (residual : List (Vec α) → Except Fault α)
  | cumulative (residual : Nat → List (Vec α) → Except Fault α)

structure PeriodConstraint (α : Type) where
  rule : PeriodRule α
  /-- Whether this is an equality, as the caller marked it. -/
  mark : Datum := .flag false
  /-- The caller's label, kept as given. -/
  name : Datum := .null

variable {α : Type}

def PeriodRule.label : PeriodRule α → String
  | eachPeriod _ => "each_period"
  | terminal _ => "terminal"
  | transition _ => "transition"
  | trajectory _ => "trajectory"
  | cumulative _ => "cumulative"

def PeriodRule.evaluate (t : Trajectory α) : PeriodRule α → Except Fault (List α)
  | eachPeriod residual => t.states.zipIdx.mapM fun (x, i) => residual i x
  | terminal residual => do return [← residual t.last]
  | transition residual =>
    (t.states.zip t.rest).zipIdx.mapM fun ((x, y), i) => residual i x y
  | trajectory residual => do return [← residual t.states]
  | cumulative residual =>
    (List.range t.periods).mapM fun i => residual i (t.states.take (i + 1))

def periodOf (dimension : Int) (z : Vec α) (period : Int) : Vec α :=
  z.between (period * dimension) ((period + 1) * dimension)

theorem periodOf_natCast (dimension : Nat) (z : Vec α) (period : Nat) :
    periodOf dimension z period = z.segment (period * dimension) ((period + 1) * dimension) := by
  have h := z.between_natCast (period * dimension) ((period + 1) * dimension)
  simpa [periodOf] using h

def periodsOf (dimension : Int) (z : Vec α) (count : Nat) : List (Vec α) :=
  (List.range count).map fun (t : Nat) => periodOf dimension z t

/-- The residuals as functions of the flat vector. Extents that are not positive leave rules without
periods to read; the last period is then counted from the end. -/
def PeriodRule.lower (periods dimension : Int) :
    PeriodRule α → List (Vec α → Except Fault α)
  | eachPeriod residual =>
    (List.range periods.toNat).map fun (t : Nat) z => residual t (periodOf dimension z t)
  | terminal residual => [fun z => residual (periodOf dimension z (periods - 1))]
  | transition residual =>
    (List.range (periods - 1).toNat).map fun (t : Nat) z =>
      residual t (periodOf dimension z t) (periodOf dimension z (t + 1))
  | trajectory residual => [fun z => residual (periodsOf dimension z periods.toNat)]
  | cumulative residual =>
    (List.range periods.toNat).map fun (t : Nat) z => residual t (periodsOf dimension z (t + 1))

namespace PeriodConstraint

def relation (c : PeriodConstraint α) : Relation := .ofMark c.mark

def evaluate (c : PeriodConstraint α) (t : Trajectory α) : Except Fault (List α) :=
  c.rule.evaluate t

def lower (periods dimension : Int) (c : PeriodConstraint α) : List (Constraint α) :=
  (c.rule.lower periods dimension).map fun residual =>
    { relation := c.relation, residual, name := c.name }

variable [Scalar α]

def violations (c : PeriodConstraint α) (t : Trajectory α) : Except Fault (List α) := do
  return (← c.evaluate t).map c.relation.violation

def isSatisfied (tolerance : α) (t : Trajectory α) (c : PeriodConstraint α) :
    Except Fault Bool := do
  return (← c.violations t).all fun v => Scalar.atMost v tolerance

/-- Whether every constraint is satisfied; constraints after the first violated one are not
looked at. -/
def allSatisfied (tolerance : α) (t : Trajectory α) :
    List (PeriodConstraint α) → Except Fault Bool
  | [] => .ok true
  | c :: cs => do
    if ← c.isSatisfied tolerance t then allSatisfied tolerance t cs else return false

def budgetEachPeriod : PeriodConstraint α where
  rule := .eachPeriod fun _ x => .ok (budgetResidual x)
  mark := .flag true
  name := .text "budget"

def nonNegativityEachPeriod (dimension : Nat) : List (PeriodConstraint α) :=
  (List.range dimension).map fun (i : Nat) =>
    { rule := .eachPeriod fun _ x => do return -(← x.get i)
      name := .text (indexedName "non_negativity" i) }

/-- The movement between consecutive states stays within the limit. -/
def turnoverLimit (limit : α) : PeriodConstraint α where
  rule := .transition fun _ x y => do return (← y.sub x).gross - limit
  name := .text "turnover_limit"

def averageConstraint (metric : Vec α → Except Fault α) (minimum : α) : PeriodConstraint α where
  rule := .trajectory fun states => do
    let values ← states.mapM metric
    return minimum - Scalar.total values / Scalar.natural values.length
  name := .text "average_constraint"

def cumulativeLimit (metric : Vec α → Except Fault α) (maximum : α) : PeriodConstraint α where
  rule := .cumulative fun _ states => do return Scalar.sum (← states.mapM metric) - maximum
  name := .text "cumulative_limit"

end PeriodConstraint

end Optima
