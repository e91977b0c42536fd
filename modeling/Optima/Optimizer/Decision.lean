import Optima.Constraint.Item
import Optima.Minimizer.QuasiNewton

/-!
Constrained optimization of a decision, from a start and a nested list of constraints as given.
-/

namespace Optima

/-- Optimizes an objective with a given minimizer. The start is checked before the constraints
are. -/
def optimizeDecisionWith (minimizer : Minimizer Float) (settings : Settings Float)
    (objective : Vec Float → Except Fault Float)
    (gradient : Option (Vec Float → Except Fault (Vec Float))) (start : Datum)
    (constraints : Nested (Item Float)) (sense : Sense) (interrupt : Snapshot Float → Bool) :
    Except Fault (Outcome Float) := do
  let x ← Check.array start "initial_state"
  let constraints ← flattenConstraints constraints
  let problem : Problem Float := { objective, gradient, constraints, weight := sense.sign }
  problem.optimize minimizer settings x interrupt

def optimizeDecision (settings : Settings Float) :=
  optimizeDecisionWith (QuasiNewton.minimizer settings) settings

end Optima
