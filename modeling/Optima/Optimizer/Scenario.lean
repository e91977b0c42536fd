import Optima.Input.Generator
import Optima.Input.ScenarioSpec
import Optima.Minimizer.QuasiNewton

/-!
Optimization under scenarios as given: a list of them, scenarios that each have an objective of
their own, or scenarios drawn by a generator.
-/

namespace Optima

/-- Settings in which one tolerance serves for everything, from named values; other names than the
allowed ones are refused. -/
def Settings.ofAllowed (allowed : List String) (fields : List (String × Datum)) :
    Except Fault (Except Fault (Settings Float)) := do
  if fields.any fun entry => !allowed.contains entry.1 then throw .wrongKind
  let given := Settings.lookup fields
  return Settings.uniform (given "max_iterations") (given "tolerance")
    (given "max_inner_iterations")

structure ScenarioRequest where
  objective : Vec Float → Scenario Float → Except Fault Float
  start : Datum
  constraints : Nested (Item Float)
  sense : Sense

/-- The constraints that bind, from a nested list as given. The names of the scenarios are looked at
first. -/
def resolveGiven (outlook : Outlook Float) (constraints : Nested (Item Float)) :
    Except Fault (List (Constraint Float)) := do
  outlook.checkNames
  outlook.resolve (← flattenDecisions constraints)

/-- Optimizes the expected objective with a given minimizer. The start is checked before the
constraints are. -/
def optimizeScenariosWith (minimizer : Minimizer Float) (outlook : Outlook Float)
    (settings : Settings Float) (request : ScenarioRequest) :
    Except Fault (ScenarioOutcome Float) := do
  let x ← Check.array request.start "initial_solution"
  outlook.checkNames
  let constraints ← flattenDecisions request.constraints
  outlook.optimize minimizer settings request.objective x constraints request.sense

def optimizeScenarios (outlook : Outlook Float) (settings : Settings Float) :=
  optimizeScenariosWith (QuasiNewton.minimizer settings) outlook settings

def scenarioSettingNames : List String := ["max_iterations", "tolerance", "max_inner_iterations"]

/-- An outlook and settings: the scenarios are looked at before the values of the settings are. -/
def prepareScenarios (items : List (Scenario Float ⊕ Datum)) (fields : List (String × Datum)) :
    Except Fault (Outlook Float × Settings Float) := do
  let settings ← Settings.ofAllowed scenarioSettingNames fields
  let outlook ← Outlook.ofData items
  return (outlook, ← settings)

structure WeightedObjective where
  name : Label
  probability : Datum
  objective : Vec Float → Except Fault Float

/-- Optimizes over scenarios that each have an objective of their own; the objective of the request
does not matter. -/
def optimizeWeighted (weighted : List WeightedObjective) (fields : List (String × Datum))
    (request : ScenarioRequest) : Except Fault (ScenarioOutcome Float) := do
  let settings ← Settings.ofAllowed ["max_iterations", "tolerance"] fields
  let scenarios ← weighted.mapM fun w => Scenario.ofData w.name w.probability (.record [])
  weighted.forM fun w => w.name.check
  let outlook ← Outlook.ofScenarios scenarios
  let objective (x : Vec Float) (s : Scenario Float) : Except Fault Float :=
    match weighted.find? fun w => w.name.same s.name with
    | some w => w.objective x
    | none => .error (.missingKey s.name.value)
  optimizeScenarios outlook (← settings) { request with objective }

structure SampleSettings where
  count : Nat
  seed : Datum
  /-- The settings of the solver, checked when they are used. -/
  solver : Except Fault (Settings Float)

def SampleSettings.ofFields (fields : List (String × Datum)) : Except Fault SampleSettings := do
  let solver ← Settings.ofAllowed
    ("number_of_samples" :: "seed" :: scenarioSettingNames) fields
  let count := (Datum.field? fields "number_of_samples").getD (.whole 1000)
  return { count := ← Check.count count "number_of_samples"
           seed := (Datum.field? fields "seed").getD .null
           solver }

/-- Optimizes over scenarios that are drawn or given, exactly one of the two, with a minimizer that
may depend on the settings of the solver. -/
def optimizeSampledWith [Random.Environment] (minimizer : Settings Float → Minimizer Float)
    (settings : SampleSettings) (generator : Option Generator)
    (given : Option (List (Scenario Float ⊕ Datum))) (request : ScenarioRequest) :
    Except Fault (ScenarioOutcome Float) := do
  let items ← match generator, given with
    | some g, none => pure ((← g.scenarios settings.count settings.seed).map .inl)
    | none, some items => pure items
    | _, _ => throw (.misuse .scenarioSource)
  let outlook ← Outlook.ofData items
  let solver ← settings.solver
  optimizeScenariosWith (minimizer solver) outlook solver request

def optimizeSampled [Random.Environment] (settings : SampleSettings) :=
  optimizeSampledWith QuasiNewton.minimizer settings

end Optima
