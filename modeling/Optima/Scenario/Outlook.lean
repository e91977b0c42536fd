import Optima.Constraint.Item
import Optima.Scenario.Basic
import Optima.Solver.Outcome
import Optima.Statistics.Weighted

/-!
Decisions under scenarios. The decision is taken before the scenario is known, so what is optimized
is the expected objective over the scenarios that can occur; the others are reported and have no
influence. Constraints that belong to scenarios bind when one of these can occur.
-/

namespace Optima

/-- Scenarios and the weights of those that can occur. -/
structure Outlook (α : Type) where
  scenarios : List (Scenario α)
  weights : List α

/-- What the optimization under scenarios reports. -/
structure ScenarioOutcome (α : Type) where
  status : Status
  solution : Vec α
  expectedObjective : α
  /-- The objective in every scenario, under its name. -/
  objectives : List (Label × α)
  variance : α
  iterations : Nat
  scenarios : List (Scenario α)
  sense : Sense

variable {α : Type}

def ScenarioOutcome.converged (o : ScenarioOutcome α) : Bool := o.status.isSuccessful

variable [Scalar α]

namespace Outlook

omit [Scalar α] in
def probabilities (o : Outlook α) : List α := o.scenarios.map (·.probability)

/-- The outlook of a list of scenarios, of which there is at least one; names are not repeated. -/
def ofScenarios (scenarios : List (Scenario α)) : Except Fault (Outlook α) := do
  if scenarios.isEmpty then throw (.misuse .noScenarios)
  let duplicates := Label.repeated (scenarios.map (·.name))
  if !duplicates.isEmpty then
    duplicates.forM Label.check
    throw (.misuse (.duplicateNames (← Datum.sorted (duplicates.map (·.value)))))
  return { scenarios, weights := ← normalizedWeights (scenarios.map (·.probability)) }

def mask (o : Outlook α) : List Bool := o.probabilities.map isPossible

def totalProbability (o : Outlook α) : α := Scalar.total o.probabilities

def active (o : Outlook α) : List (Scenario α) := possible o.probabilities o.scenarios

omit [Scalar α] in
def checkNames (o : Outlook α) : Except Fault Unit := o.scenarios.forM fun s => s.name.check

def unknownNames (o : Outlook α) (scope : Scope) : List Label :=
  scope.names.filter fun n => !(o.scenarios.any fun s => n.same s.name)

/-- Whether a constraint binds: one of its scenarios can occur. -/
def binds (o : Outlook α) (scope : Scope) : Bool :=
  o.active.any fun s => scope.appliesTo s.name

/-- What a constraint asks of the decision: nothing if it does not bind. -/
def resolveOne (o : Outlook α) : DecisionConstraint α → Except Fault (List (Constraint α))
  | .plain c => .ok [c]
  | .tagged c => do
    c.scope.names.forM Label.check
    match o.unknownNames c.scope with
    | [] => return if o.binds c.scope then [c.toConstraint] else []
    | unknown => throw (.misuse (.unknownNames (unknown.map (·.value))))

def resolve (o : Outlook α) (constraints : List (DecisionConstraint α)) :
    Except Fault (List (Constraint α)) := do
  return (← constraints.mapM o.resolveOne).flatten

def expected (o : Outlook α) (objective : Vec α → Scenario α → Except Fault α) (x : Vec α) :
    Except Fault α :=
  (o.weights.zip o.active).foldlM (fun total (weight, s) => do
    return total + weight * (← objective x s)) 0

def problem (o : Outlook α) (objective : Vec α → Scenario α → Except Fault α)
    (constraints : List (Constraint α)) (sense : Sense) : Problem α where
  objective := o.expected objective
  constraints := constraints
  weight := sense.sign

/-- What is reported about the solution: all scenarios, and statistics of those that can occur. -/
def report (o : Outlook α) (objective : Vec α → Scenario α → Except Fault α) (sense : Sense)
    (solved : Outcome α) : Except Fault (ScenarioOutcome α) := do
  let values ← o.scenarios.mapM fun s => objective solved.solution s
  return { status := solved.status
           solution := solved.solution
           expectedObjective := ← weightedMean values o.probabilities
           objectives := (o.scenarios.map (·.name)).zip values
           variance := ← weightedVariance values o.probabilities
           iterations := solved.iterations
           scenarios := o.scenarios
           sense }

def optimize (o : Outlook α) (minimizer : Minimizer α) (settings : Settings α)
    (objective : Vec α → Scenario α → Except Fault α) (start : Vec α)
    (constraints : List (DecisionConstraint α)) (sense : Sense) :
    Except Fault (ScenarioOutcome α) := do
  let constraints ← o.resolve constraints
  let solved ← (o.problem objective constraints sense).optimize minimizer settings start
    fun _ => false
  o.report objective sense solved

end Outlook

def pickName (preferred : α → α → Bool) : List (Label × α) → Except Fault Label
  | [] => .error .badValue
  | first :: rest =>
    .ok (rest.foldl (fun best entry => if preferred entry.2 best.2 then entry else best) first).1

namespace ScenarioOutcome

def deviation (o : ScenarioOutcome α) : α := Scalar.squareRoot o.variance

def isBetter (o : ScenarioOutcome α) (x y : α) : Bool :=
  match o.sense with
  | .minimize => Scalar.less x y
  | .maximize => Scalar.less y x

def bestScenario (o : ScenarioOutcome α) : Except Fault Label := pickName o.isBetter o.objectives

def worstScenario (o : ScenarioOutcome α) : Except Fault Label :=
  pickName (fun x y => o.isBetter y x) o.objectives

/-- The standard error of the expected objective as a mean over all scenarios. -/
def standardError (o : ScenarioOutcome α) : α :=
  o.deviation / Scalar.squareRoot (Scalar.natural o.scenarios.length)

def interval (o : ScenarioOutcome α) (quantile : α → α) (level : α) : α × α :=
  intervalAround o.expectedObjective o.standardError (errorsAt quantile level)

end ScenarioOutcome

end Optima
