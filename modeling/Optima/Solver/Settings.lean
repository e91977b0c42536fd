import Optima.Input.Check

/-!
Settings of the solver, with their defaults, and how they are read from named values.
-/

namespace Optima

structure Settings (α : Type) where
  /-- Most multiplier updates. -/
  maxIterations : Nat
  /-- Relative change of the objective that counts as none. -/
  tolerance : α
  /-- Violation that counts as none. -/
  constraintTolerance : α
  /-- Length of the gradient that counts as none. -/
  gradientTolerance : α
  /-- Most steps of the minimizer in one iteration. -/
  maxInnerIterations : Nat
  initialPenalty : α
  /-- Factor on the penalty when the violation stalls. -/
  penaltyIncrease : α
  maxPenalty : α
  /-- Squared length of a constraint's gradient that counts as none. -/
  minDerivative : α
  /-- Relative step of numerical gradients. -/
  differenceStep : α
  recordHistory : Bool

namespace Settings

def defaults : List (String × Datum) :=
  [("max_iterations", .whole 100), ("tolerance", .real 1e-6), ("constraint_tolerance", .real 1e-6),
   ("gradient_tolerance", .real 1e-6), ("max_inner_iterations", .whole 500),
   ("initial_penalty", .real 10.0), ("penalty_increase", .real 10.0), ("max_penalty", .real 1e6),
   ("min_derivative", .real 1e-12), ("finite_difference_step", .real 1e-6),
   ("record_history", .flag false)]

def lookup (fields : List (String × Datum)) (key : String) : Datum :=
  match Datum.field? fields key with
  | some value => value
  | none => (Datum.field? defaults key).getD .null

/-- Settings from named values, checked in a fixed order. Names that no setting has are refused
before anything else. -/
def ofFields (fields : List (String × Datum)) : Except Fault (Settings Float) := do
  if fields.any fun entry => !(defaults.any fun known => known.1 == entry.1) then throw .wrongKind
  let given := lookup fields
  let number key := Check.positive (given key) key
  let maxIterations ← Check.count (given "max_iterations") "max_iterations"
  let tolerance ← number "tolerance"
  let constraintTolerance ← number "constraint_tolerance"
  let gradientTolerance ← number "gradient_tolerance"
  let maxInnerIterations ← Check.count (given "max_inner_iterations") "max_inner_iterations"
  let initialPenalty ← number "initial_penalty"
  let penaltyIncrease ← number "penalty_increase"
  if penaltyIncrease ≤ 1.0 then throw (.misuse (.slowPenalty (given "penalty_increase")))
  let maxPenalty ← number "max_penalty"
  let minDerivative ← number "min_derivative"
  let differenceStep ← number "finite_difference_step"
  return { maxIterations, tolerance, constraintTolerance, gradientTolerance, maxInnerIterations,
           initialPenalty, penaltyIncrease, maxPenalty, minDerivative, differenceStep,
           recordHistory := (given "record_history").isPresent }

/-- The first of several names that a value is given under, renamed to the first of them. -/
def renamed (fields : List (String × Datum)) (name : String) (others : List String) :
    List (String × Datum) :=
  match (name :: others).findSome? (Datum.field? fields) with
  | some value => [(name, value)]
  | none => []

/-- Settings from a loose collection of parameters: two have short names, and names that no
parameter has are ignored. -/
def ofParameters (fields : List (String × Datum)) : Except Fault (Settings Float) :=
  ofFields (renamed fields "max_iterations" ["max_iters"] ++ renamed fields "tolerance" ["tol"] ++
    (["constraint_tolerance", "gradient_tolerance", "max_inner_iterations",
      "record_history"].flatMap fun name => renamed fields name []))

def uniform (maxIterations tolerance maxInnerIterations : Datum) :
    Except Fault (Settings Float) :=
  ofFields [("max_iterations", maxIterations), ("tolerance", tolerance),
    ("constraint_tolerance", tolerance), ("gradient_tolerance", tolerance),
    ("max_inner_iterations", maxInnerIterations)]

def summary (s : Settings Float) : String :=
  s!"ConstrainedOptimizer(max_iterations={s.maxIterations}, " ++
    s!"tolerance={Decimal.general 6 s.tolerance}, " ++
    s!"constraint_tolerance={Decimal.general 6 s.constraintTolerance})"

end Settings

end Optima
