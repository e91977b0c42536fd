import Optima.Constraint.Basic
import Optima.Scenario.Label

/-!
Constraints tagged with scenarios. The decision is taken before the scenario is known, so such a
constraint binds whenever one of its scenarios can occur.
-/

namespace Optima

inductive Scope where
  | all
  | one (name : Label)
  | several (names : List Label)

namespace Scope

def label : Scope → String
  | all => "all"
  | one _ => "in_scenario"
  | several _ => "in_scenarios"

def names : Scope → List Label
  | all => []
  | one name => [name]
  | several names => names

def appliesTo (scope : Scope) (name : Label) : Bool :=
  match scope with
  | all => true
  | scope => scope.names.any name.same

def ofNames (names : List Label) : Except Fault Scope :=
  if names.isEmpty then .error (.misuse .noScenarioNames) else .ok (.several names)

end Scope

structure ScenarioConstraint (α : Type) where
  scope : Scope
  /-- Whether this is an equality, as the caller marked it. -/
  mark : Datum := .flag false
  residual : Vec α → Except Fault α

def ScenarioConstraint.toConstraint {α : Type} (c : ScenarioConstraint α) : Constraint α where
  relation := .ofMark c.mark
  residual := c.residual

end Optima
