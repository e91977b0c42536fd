import Optima.Input.Trajectory
import Optima.Minimizer.QuasiNewton
import Optima.Period.Plan

/-!
Plans as given: extents and settings from named values, a start that is repeated unless a whole
trajectory is given, and a nested list of constraints.
-/

namespace Optima

namespace Plan

def fieldNames : List String :=
  ["number_of_periods", "discount_rate", "max_iterations", "tolerance", "max_inner_iterations"]

def ofFields (fields : List (String × Datum)) : Except Fault (Plan Float) := do
  if fields.any fun entry => !fieldNames.contains entry.1 then throw .wrongKind
  let given := Settings.lookup fields
  let periods ← Check.count (given "number_of_periods") "number_of_periods"
  let rate := (Datum.field? fields "discount_rate").getD (.real 0.0)
  let discountRate ← Check.nonNegative rate "discount_rate"
  let settings ← Settings.uniform (given "max_iterations") (given "tolerance")
    (given "max_inner_iterations")
  return { periods, discountRate, settings }

def start (plan : Plan Float) (state : Vec Float) (trajectory : Datum) :
    Except Fault (Trajectory Float) := do
  match trajectory with
  | .null => Trajectory.repeated state plan.periods
  | states =>
    let t ← Trajectory.ofDatum states
    if t.periods == plan.periods && t.dimension == state.size then return t
    else throw (.mismatch (.startSize t.periods t.dimension plan.periods state.size))

def isSatisfied (plan : Plan Float) (t : Trajectory Float) (constraints : Nested (Item Float))
    (tolerance : Datum) : Except Fault Bool := do
  plan.checkPeriods t
  let constraints ← flattenPeriods constraints
  match tolerance with
  | .null => PeriodConstraint.allSatisfied plan.settings.tolerance t constraints
  | given => PeriodConstraint.allWithin given t constraints

end Plan

/-- Optimizes a plan with a given minimizer. The start is checked before the objective and the
constraints are. -/
def optimizePlanWith (minimizer : Minimizer Float) (plan : Plan Float)
    (objective : PeriodObjective Float) (periodAware : Option Bool) (state trajectory : Datum)
    (constraints : Nested (Item Float)) (sense : Sense) : Except Fault (PlanOutcome Float) := do
  let x ← Check.array state "initial_state"
  let start ← plan.start x trajectory
  let objective ← objective.resolve periodAware
  let constraints ← flattenPeriods constraints
  plan.optimize minimizer objective start constraints sense

def optimizePlan (plan : Plan Float) :=
  optimizePlanWith (QuasiNewton.minimizer plan.settings) plan

def planSatisfied (plan : Plan Float) (trajectory : Datum) (constraints : Nested (Item Float))
    (tolerance : Datum) : Except Fault Bool := do
  let t ← Trajectory.ofDatum trajectory
  plan.isSatisfied t constraints tolerance

end Optima
