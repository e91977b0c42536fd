import Optima.Constraint.Item
import Optima.Solver.Outcome

/-!
Plans over several periods. The objective of a plan is the discounted sum of what its periods are
worth. It is optimized as one problem over the flat vector of all states, and the answer is read
back as a trajectory, on which everything that is reported is computed anew.
-/

namespace Optima

/-- What a period is worth: of the state alone, or of the number of the period and the state. Which
of the two is meant can be seen from the number of arguments that must be given, if it is fixed. -/
structure PeriodObjective (α : Type) where
  arguments : Option Nat
  ofState : Vec α → Except Fault α
  ofPeriod : Nat → Vec α → Except Fault α

namespace PeriodObjective

variable {α : Type}

def takesPeriod (o : PeriodObjective α) : Except Fault Bool :=
  match o.arguments with
  | none => .ok false
  | some n => if 2 < n then .error (.misuse .objectiveArguments) else .ok (n == 2)

/-- The objective as a function of period and state. The caller may say which call is meant. -/
def resolve (o : PeriodObjective α) (periodAware : Option Bool) :
    Except Fault (Nat → Vec α → Except Fault α) := do
  let takesPeriod ← match periodAware with
    | some decided => pure decided
    | none => o.takesPeriod
  return if takesPeriod then o.ofPeriod else fun _ x => o.ofState x

end PeriodObjective

structure Plan (α : Type) where
  periods : Nat
  discountRate : α
  settings : Settings α

/-- What the optimization of a plan reports. -/
structure PlanOutcome (α : Type) where
  status : Status
  trajectory : Trajectory α
  /-- What each period is worth, not discounted. -/
  periodObjectives : List α
  totalObjective : α
  iterations : Nat
  /-- Violations of all constraints along the trajectory, in order. -/
  violations : List α
  discountFactor : α

def PlanOutcome.converged {α : Type} (o : PlanOutcome α) : Bool := o.status.isSuccessful

variable {α : Type} [Scalar α]

def PlanOutcome.maxViolation (o : PlanOutcome α) : α := Scalar.largestD 0 o.violations

namespace Plan

def discountFactor (plan : Plan α) : α := 1 / (1 + plan.discountRate)

def weight (plan : Plan α) (period : Nat) : α := Scalar.power plan.discountFactor period

def discounted (plan : Plan α) (values : List α) : α :=
  values.zipIdx.foldl (fun total (value, t) => total + plan.weight t * value) 0

/-- The discounted objective as a function of the flat vector of all states. -/
def total (plan : Plan α) (dimension : Nat) (objective : Nat → Vec α → Except Fault α)
    (z : Vec α) : Except Fault α := do
  let values ← (List.range plan.periods).mapM fun t => objective t (periodOf dimension z t)
  return plan.discounted values

def problem (plan : Plan α) (dimension : Nat) (objective : Nat → Vec α → Except Fault α)
    (constraints : List (PeriodConstraint α)) (sense : Sense) : Problem α where
  objective := plan.total dimension objective
  constraints := constraints.flatMap fun c => c.lower plan.periods dimension
  weight := sense.sign

def readBack (plan : Plan α) (dimension : Nat) (objective : Nat → Vec α → Except Fault α)
    (constraints : List (PeriodConstraint α)) (solved : Outcome α) :
    Except Fault (PlanOutcome α) := do
  let trajectory ← Trajectory.ofFlat solved.solution plan.periods dimension
  let periodObjectives ← trajectory.states.zipIdx.mapM fun (x, t) => objective t x
  let violations ← constraints.mapM fun c => c.violations trajectory
  return { status := solved.status
           trajectory
           periodObjectives
           totalObjective := plan.discounted periodObjectives
           iterations := solved.iterations
           violations := violations.flatten
           discountFactor := plan.discountFactor }

def optimize (plan : Plan α) (minimizer : Minimizer α)
    (objective : Nat → Vec α → Except Fault α) (start : Trajectory α)
    (constraints : List (PeriodConstraint α)) (sense : Sense) :
    Except Fault (PlanOutcome α) := do
  let problem := plan.problem start.dimension objective constraints sense
  let solved ← problem.optimize minimizer plan.settings start.flatten fun _ => false
  plan.readBack start.dimension objective constraints solved

def checkPeriods (plan : Plan α) (t : Trajectory α) : Except Fault Unit :=
  if t.periods == plan.periods then .ok ()
  else .error (.mismatch (.periodCount t.periods plan.periods))

end Plan

end Optima
