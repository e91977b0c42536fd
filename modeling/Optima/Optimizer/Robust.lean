import Optima.Constraint.Item
import Optima.Input.UncertaintySpec
import Optima.Minimizer.QuasiNewton
import Optima.Robust.Minimax

/-!
Robust optimization of a decision, from an uncertainty set, named settings and a nested list of
constraints as given; also over a box and over a list of points directly.
-/

namespace Optima

def RobustSettings.ofFields (fields : List (String × Datum)) :
    Except Fault (RobustSettings Float) := do
  let given (key : String) (fallback : Datum) : Datum := (Datum.field? fields key).getD fallback
  let samples ← Check.count (given "samples_per_iteration" (.whole 100)) "samples_per_iteration"
  let rounds ← Check.count (given "max_iterations" (.whole 50)) "max_iterations"
  let tolerance := given "tolerance" (.real 1e-6)
  return { rounds
           samples
           tolerance := ← Check.positive tolerance "tolerance"
           solver := ← Settings.uniform (given "solver_iterations" (.whole 100)) tolerance
             (.whole 500) }

structure RobustRequest where
  objective : Vec Float → Vec Float → Except Fault Float
  start : Datum
  constraints : Nested (Item Float)
  sense : Sense

def UncertaintySet.nominalOr (set : UncertaintySet Float) : Datum → Except Fault (Vec Float)
  | .null => .ok set.nominal
  | values => Check.arrayOf set.dimension values "nominal_parameters"

/-- Optimizes the worst case over an uncertainty set with a given minimizer. Seed, start, nominal
parameters and constraints are checked in this order. -/
def optimizeRobustWith [Random.Environment] (minimizer : Minimizer Float)
    (set : UncertaintySet Float) (settings : RobustSettings Float) (seed : Datum)
    (request : RobustRequest) (nominal : Datum) : Except Fault (RobustOutcome Float) := do
  let stream ← Random.Stream.ofDatum seed
  let x ← Check.array request.start "initial_solution"
  let nominal ← set.nominalOr nominal
  let constraints ← flattenConstraints request.constraints
  let problem : RobustProblem Float :=
    { objective := request.objective, constraints, sense := request.sense }
  problem.optimize minimizer settings set.sampleCount nominal x stream

def optimizeRobust [Random.Environment] (set : UncertaintySet Float)
    (settings : RobustSettings Float) :=
  optimizeRobustWith (QuasiNewton.minimizer settings.solver) set settings

def optimizeOverBox [Random.Environment] (nominal deviations : Datum)
    (fields : List (String × Datum)) (seed : Datum) (request : RobustRequest) :
    Except Fault (RobustOutcome Float) := do
  let box ← Box.ofData nominal deviations
  let settings ← RobustSettings.ofFields fields
  optimizeRobust (.box box) settings seed request nominal

/-- The point that an index names. An index out of range is refused before the settings are looked
at, one that is no whole number after them. -/
def nominalPoint (set : PointSet Float) (index : Datum) :
    Except Fault (Except Fault (Vec Float)) := do
  let count := set.points.length
  match index.quantity? with
  | some place =>
    if place == .undefined || place.less (.scaled 0 0) || !place.less (.scaled count 0) then
      throw (.misuse (.nominalIndex index count))
    return do
      let i ← index.integer
      return set.points.getD i.toNat set.first
  | none => throw .wrongKind

/-- Optimizes the worst case over a list of points, one of which is nominal, with a given minimizer.
Every round takes all points. -/
def optimizeOverPointsWith [Random.Environment] (minimizer : Settings Float → Minimizer Float)
    (points nominalIndex : Datum) (fields : List (String × Datum)) (request : RobustRequest) :
    Except Fault (RobustOutcome Float) := do
  let set ← PointSet.ofDatum points
  let nominal ← nominalPoint set nominalIndex
  let settings ← RobustSettings.ofFields
    (("samples_per_iteration", .whole set.points.length) :: fields)
  optimizeRobustWith (minimizer settings.solver) (.finite set) settings .null request
    (.vector (← nominal).toList)

def optimizeOverPoints [Random.Environment] (points nominalIndex : Datum) :=
  optimizeOverPointsWith QuasiNewton.minimizer points nominalIndex

end Optima
