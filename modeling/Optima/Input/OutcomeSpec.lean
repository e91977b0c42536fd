import Optima.Input.ScenarioSpec
import Optima.Input.Spelling
import Optima.Input.Trajectory
import Optima.Input.Vector
import Optima.Solver.Status

/-!
Outcomes from named values. What an outcome is made of is read once, in the order of its fields;
then nothing may be missing and nothing may be left over. A number is looked at only when something
asks for it, so an outcome may hold values that cannot be reported.
-/

namespace Optima

inductive OutcomeKind where
  | decision
  | robust
  | scenario
  | sampled
  | plan
deriving DecidableEq

namespace OutcomeKind

def ofName? : String → Option OutcomeKind
  | "optimization" => some decision
  | "robust" => some robust
  | "scenario" => some scenario
  | "stochastic" => some sampled
  | "multiperiod" => some plan
  | _ => none

def title : OutcomeKind → String
  | decision => "OptimizationResult"
  | robust => "RobustResult"
  | scenario => "ScenarioResult"
  | sampled => "StochasticResult"
  | plan => "MultiPeriodResult"

def required : OutcomeKind → List String
  | decision => ["status", "solution", "objective_value", "iterations"]
  | robust =>
    ["status", "solution", "worst_case_objective", "nominal_objective", "worst_case_parameters",
     "iterations"]
  | scenario | sampled =>
    ["status", "solution", "expected_objective", "scenario_objectives", "objective_variance",
     "iterations", "scenarios"]
  | plan => ["status", "trajectory", "period_objectives", "total_objective", "iterations"]

/-- The values that may be left out, and what holds then. -/
def optional : OutcomeKind → List (String × Datum)
  | decision =>
    [("constraint_violation", .real 0.0), ("multipliers", .list []), ("solve_time", .real 0.0),
     ("history", .list [])]
  | robust => [("number_of_scenarios_evaluated", .whole 0), ("solve_time", .real 0.0)]
  | scenario | sampled => [("minimize", .flag false), ("solve_time", .real 0.0)]
  | plan =>
    [("constraint_violations", .list []), ("discount_factor", .real 1.0), ("solve_time", .real 0.0)]

end OutcomeKind

/-- An outcome: what can be read from its values, and the values themselves. -/
structure GivenOutcome where
  kind : OutcomeKind
  values : List (String × Datum)
  status : Status := .optimal
  solution : Vec Float := ⟨[]⟩
  worstParameters : Vec Float := ⟨[]⟩
  states : List (Vec Float) := []
  objectives : List (Datum × Datum) := []
  scenarios : List (Scenario Float ⊕ Datum) := []
  history : List (List Datum) := []

namespace GivenOutcome

def statusOf : Datum → Except Fault Status
  | .text label =>
    match Status.ofLabel? label with
    | some status => .ok status
    | none => .error .badValue
  | _ => .error .badValue

def objectivesOf (value : Datum) : Except Fault (List (Datum × Datum)) := do
  let pairs ← (← value.members).mapM fun item => do
    let (name, objective) ← item.pair
    return (name, ← objective.decoded)
  return Datum.storeAll Datum.same pairs

def historyOf (value : Datum) : Except Fault (List (List Datum)) := do
  (← (← value.decoded).members).mapM fun row => do
    let snapshot ← row.members
    if snapshot.length == 5 then return snapshot else throw .wrongKind

def read (o : GivenOutcome) (entry : String × Datum) : Except Fault GivenOutcome := do
  let (key, value) := entry
  match key with
  | "status" => return { o with status := ← statusOf value }
  | "solution" => return { o with solution := ← Vec.ofDatum (← value.decoded) }
  | "worst_case_parameters" =>
    return { o with worstParameters := ← Vec.ofDatum (← value.decoded) }
  | "trajectory" => return { o with states := (← Trajectory.ofDatum (← value.decoded)).states }
  | "scenario_objectives" => return { o with objectives := ← objectivesOf value }
  | "scenarios" =>
    return { o with scenarios := ← (← value.members).mapM Scenario.ofDatum }
  | "history" => return { o with history := ← historyOf value }
  | _ => return { o with values := o.values ++ [(key, ← value.decoded)] }

def ofFields (kind : OutcomeKind) (fields : List (String × Datum)) : Except Fault GivenOutcome := do
  let o ← fields.foldlM read { kind, values := [] }
  let known := kind.required ++ kind.optional.map (·.1)
  if !(kind.required.all fun key => fields.any fun entry => entry.1 == key) then throw .wrongKind
  if !(fields.all fun entry => known.contains entry.1) then throw .wrongKind
  return o

/-- A value as given, or what holds if it is left out. -/
def get (o : GivenOutcome) (key : String) : Datum :=
  match Datum.field? o.values key with
  | some value => value
  | none => (Datum.field? o.kind.optional key).getD .null

def maxViolation (o : GivenOutcome) : Except Fault Datum := do
  match ← (o.get "constraint_violations").members with
  | [] => return .real 0.0
  | first :: rest => Datum.largest first rest

/-- The standard deviation of the objective. Only numbers of the machine have a square root. -/
def deviation (o : GivenOutcome) : Except Fault Float :=
  match o.get "objective_variance" with
  | .whole n =>
    if Check.fitsWord n then Float.sqrt <$> (Datum.whole n).number else .error .wrongKind
  | value => Float.sqrt <$> value.number

def standardError (o : GivenOutcome) : Except Fault Float := do
  return (← o.deviation) / Float.sqrt (Float.ofNat o.scenarios.length)

/-- How far a value is from another one. Whole numbers are subtracted exactly. Vectors can be
subtracted, but their difference has no magnitude. -/
def distance (x y : Datum) : Except Fault Datum := do
  match x, y with
  | x, .vector w =>
    let _ ← Vec.subtractedFrom ⟨w⟩ x
    throw .wrongKind
  | .vector v, y =>
    let _ ← Vec.withOperand .subtract Vec.sub ⟨v⟩ y
    throw .wrongKind
  | x, y =>
    match x.whole?, y.whole? with
    | some m, some n => return .whole (m - n).natAbs
    | _, _ => return .real ((← x.number) - (← y.number)).abs

def robustnessCost (o : GivenOutcome) : Except Fault Datum :=
  distance (o.get "nominal_objective") (o.get "worst_case_objective")

/-- The name of the first scenario that no other one is preferred to. -/
def pickScenario (o : GivenOutcome) (preferred : Datum → Datum → Except Fault Bool) :
    Except Fault Datum := do
  match o.objectives with
  | [] => throw .badValue
  | first :: rest =>
    return (← Datum.pickFrom (fun item current => preferred item.2 current.2) first rest).1

def extremeScenario (o : GivenOutcome) (least : Bool) : Except Fault Datum :=
  o.pickScenario fun item current => if least then item.less current else current.less item

def bestScenario (o : GivenOutcome) : Except Fault Datum :=
  o.extremeScenario (o.get "minimize").isPresent

def worstScenario (o : GivenOutcome) : Except Fault Datum :=
  o.extremeScenario !(o.get "minimize").isPresent

def objectiveFor (o : GivenOutcome) (name : Datum) : Except Fault Datum := do
  let _ ← name.key
  match o.objectives.find? fun entry => entry.1.same name with
  | some entry => return entry.2
  | none => throw (.missingKey name)

/-- The scenario with a name as given. What is no scenario has no name to compare with. -/
def scenarioNamed (name : Datum) : List (Scenario Float ⊕ Datum) → Except Fault (Scenario Float)
  | [] => .error (.missingKey name)
  | .inr _ :: _ => .error .noSuchMember
  | .inl s :: rest => if s.name.value.same name then .ok s else scenarioNamed name rest

def confidenceInterval (o : GivenOutcome) (level : Datum) : Except Fault (Float × Float) := do
  let error ← o.standardError
  Statistics.confidenceInterval (o.get "expected_objective") (.real error) level

end GivenOutcome

end Optima
