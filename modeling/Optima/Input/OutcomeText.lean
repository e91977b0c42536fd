import Optima.Input.OutcomeSpec
import Optima.Report

/-!
Outcomes in words. Values are written from left to right and from top to bottom, and the first one
that cannot be written is what is wrong with a report.
-/

namespace Optima.GivenOutcome

def general (o : GivenOutcome) (digits : Nat) (key : String) : Except Fault String :=
  (o.get key).written (Decimal.general digits)

def time (o : GivenOutcome) : Except Fault String := (o.get "solve_time").written Report.seconds

def iterations (o : GivenOutcome) : String := (o.get "iterations").shown

def text (o : GivenOutcome) : Except Fault String := do
  let status := "status=" ++ o.status.label
  match o.kind with
  | .decision =>
    let objective ← o.general 6 "objective_value"
    return o.kind.title ++ "(" ++ status ++ ", objective=" ++ objective ++
      ", iterations=" ++ o.iterations ++ ", time=" ++ (← o.time) ++ "s)"
  | .plan =>
    let total ← o.general 6 "total_objective"
    return Report.short o.kind.title [status, "total_objective=" ++ total,
      "periods=" ++ toString o.states.length, "iterations=" ++ o.iterations]
  | .robust =>
    let worst ← o.general 6 "worst_case_objective"
    let nominal ← o.general 6 "nominal_objective"
    return Report.short o.kind.title [status, "worst_case=" ++ worst, "nominal=" ++ nominal,
      "iterations=" ++ o.iterations]
  | .scenario | .sampled =>
    let expected ← o.general 6 "expected_objective"
    let deviation ← o.deviation
    return Report.short o.kind.title [status, "expected_objective=" ++ expected,
      "std_dev=" ++ Decimal.general 6 deviation,
      "scenarios=" ++ toString o.scenarios.length]

def decisionSummary (o : GivenOutcome) : Except Fault String := do
  let objective ← o.general 10 "objective_value"
  let time ← o.time
  let violation ← (o.get "constraint_violation").written (Decimal.scientific 6)
  return Report.plain "finprox Solve Summary"
    ["Status:           " ++ o.status.label,
     "Objective:        " ++ objective,
     "Iterations:       " ++ o.iterations,
     "Solve time:       " ++ time ++ " s"]
    ["Max violation:    " ++ violation,
     "Dimension:        " ++ toString o.solution.size]

/-- One line for each period, as long as there is a value for it. -/
def periodLines (o : GivenOutcome) : Except Fault (List String) := do
  let values ← (o.get "period_objectives").members
  (o.states.zip values).zipIdx.mapM fun ((state, value), t) => do
    return Report.periodLine t (← value.written (Decimal.general 6)) state.toList

def planSummary (o : GivenOutcome) : Except Fault String := do
  let total ← o.general 10 "total_objective"
  let factor ← o.general 6 "discount_factor"
  let violation ← (← o.maxViolation).written (Decimal.scientific 6)
  return Report.plain "Multi-Period Solution Summary"
    ["Status:           " ++ o.status.label,
     "Total objective:  " ++ total,
     "Discount factor:  " ++ factor,
     "Iterations:       " ++ o.iterations,
     "Max violation:    " ++ violation]
    (← o.periodLines)

def robustSummary (o : GivenOutcome) : Except Fault String := do
  let worst ← o.general 6 "worst_case_objective"
  let nominal ← o.general 6 "nominal_objective"
  let cost ← (← o.robustnessCost).written (Decimal.general 6)
  let time ← o.time
  return Report.repeated "Robust Solution Summary"
    ["Status:               " ++ o.status.label,
     "Worst-case objective: " ++ worst,
     "Nominal objective:    " ++ nominal,
     "Robustness cost:      " ++ cost]
    ["Worst-case params:    " ++ Report.components o.worstParameters.toList,
     "Scenarios evaluated:  " ++ (o.get "number_of_scenarios_evaluated").shown,
     "Iterations:           " ++ o.iterations,
     "Solve time:           " ++ time ++ "s"]

def scenarioSummary (o : GivenOutcome) : Except Fault String := do
  let expected ← o.general 6 "expected_objective"
  let deviation ← o.deviation
  let best ← o.bestScenario
  let worst ← o.worstScenario
  let time ← o.time
  return Report.repeated "Scenario Solution Summary"
    ["Status:              " ++ o.status.label,
     "Expected objective:  " ++ expected,
     "Std deviation:       " ++ Decimal.general 6 deviation,
     "Best scenario:       " ++ best.shown,
     "Worst scenario:      " ++ worst.shown]
    ["Scenarios:           " ++ toString o.scenarios.length,
     "Iterations:          " ++ o.iterations,
     "Solve time:          " ++ time ++ "s"]

def summary (o : GivenOutcome) : Except Fault String :=
  match o.kind with
  | .decision => o.decisionSummary
  | .plan => o.planSummary
  | .robust => o.robustSummary
  | .scenario | .sampled => o.scenarioSummary

def scenarioMember (o : GivenOutcome) (name : String) : Except Fault Datum := do
  match name with
  | "best_scenario" => o.bestScenario
  | "worst_scenario" => o.worstScenario
  | "number_of_scenarios" =>
    if o.kind == .sampled then return .whole o.scenarios.length else throw .noSuchMember
  | "scenario_objectives" =>
    return .record (o.objectives.map fun (key, value) => (key.shown, value))
  | _ => throw .noSuchMember

def planMember (o : GivenOutcome) (name : String) : Except Fault Datum := do
  match name with
  | "trajectory" => return .list (o.states.map fun state => .vector state.toList)
  | "number_of_periods" => return .whole o.states.length
  | "initial_state" => return .vector (o.states.headD ⟨[]⟩).toList
  | "terminal_state" => return .vector (o.states.getLastD ⟨[]⟩).toList
  | "max_violation" => o.maxViolation
  | _ => throw .noSuchMember

def kindMember (o : GivenOutcome) (name : String) : Except Fault Datum := do
  match o.kind, name with
  | .plan, _ => o.planMember name
  | _, "solution" => return .vector o.solution.toList
  | .decision, "snapshots" =>
    return .list (o.history.map fun row => .list (row.take 2 ++ row.drop 4))
  | .robust, "objective_value" => return o.get "worst_case_objective"
  | .robust, "worst_case_parameters" => return .vector o.worstParameters.toList
  | .scenario, _ | .sampled, _ => o.scenarioMember name
  | _, _ => throw .noSuchMember

/-- What an outcome can be asked for: a value as it was given, or something that follows from its
values. -/
def member (o : GivenOutcome) (name : String) : Except Fault Datum := do
  match name with
  | "repr" => return .text (← o.text)
  | "summary" => return .text (← o.summary)
  | "status" => return .text o.status.label
  | "converged" => return .flag o.status.isSuccessful
  | _ =>
    match o.kindMember name with
    | .error .noSuchMember =>
      if (o.kind.required ++ o.kind.optional.map (·.1)).contains name then return o.get name
      else throw .noSuchMember
    | result => result

end Optima.GivenOutcome
