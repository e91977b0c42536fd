import Optima.Constraint.Nested
import Optima.Period.Constraint
import Optima.Scenario.Constraint

/-!
What lists of constraints hold, and the three ways to flatten them: for a decision, for a decision
under scenarios, and for a trajectory. The first two refuse a leaf they cannot use by its kind. The
last one goes through whatever has members, and going through a text never ends.
-/

namespace Optima

inductive Item (α : Type) where
  | decision (value : Constraint α)
  | period (value : PeriodConstraint α)
  | scenario (value : ScenarioConstraint α)
  | other (value : Datum)

inductive DecisionConstraint (α : Type) where
  | plain (value : Constraint α)
  | tagged (value : ScenarioConstraint α)

variable {α : Type}

namespace Item

def kindName : Item α → String
  | decision _ => "Constraint"
  | period _ => "PeriodConstraint"
  | scenario _ => "ScenarioConstraint"
  | other value => value.kindName

def asConstraint : Item α → Except Fault (List (Constraint α))
  | decision c => .ok [c]
  | item => .error (.misuse (.unexpected .constraint item.kindName))

def asDecision : Item α → Except Fault (List (DecisionConstraint α))
  | decision c => .ok [.plain c]
  | scenario c => .ok [.tagged c]
  | item => .error (.misuse (.unexpected .scopedConstraint item.kindName))

/-- The members of a number: none if it is zero, and otherwise it has none to go through. -/
def emptyUnlessPresent (value : Datum) : Except Fault (List (PeriodConstraint α)) :=
  if value.isPresent then .error .wrongKind else .ok []

/-- Going through the members of a text: each of them is a text again. -/
def throughText (value : String) : Except Fault (List (PeriodConstraint α)) :=
  if value == "" then .ok [] else .error .endlessNesting

def asPeriod : Item α → Except Fault (List (PeriodConstraint α))
  | period c => .ok [c]
  | other (.text value) => throughText value
  | other (.record fields) => do
    let found ← fields.mapM fun entry => throughText entry.1
    return found.flatten
  | other (.vector components) => do
    let found ← components.mapM fun x => emptyUnlessPresent (.real x)
    return found.flatten
  | other value => emptyUnlessPresent value
  | _ => .error .wrongKind

/-- What a leaf in place of a list holds: nothing if it counts as nothing, texts if it is a text or
a record, numbers if it is a vector; nothing else can be gone through. -/
def standingAlone {γ : Type} (wanted : Ingredient) : Item α → Except Fault (List γ)
  | other value =>
    if value.isPresent then
      match value with
      | .text _ | .record _ => .error (.misuse (.unexpected wanted "str"))
      | .vector _ => .error (.misuse (.unexpected wanted "float"))
      | _ => .error .wrongKind
    else .ok []
  | _ => .error .wrongKind

end Item

def flattenConstraints : Nested (Item α) → Except Fault (List (Constraint α))
  | .group items => Nested.gatherAll Item.asConstraint items
  | .leaf item => item.standingAlone .constraint

/-- The constraints of a nested list, tagged with scenarios or not; a constraint may stand alone. -/
def flattenDecisions : Nested (Item α) → Except Fault (List (DecisionConstraint α))
  | .group items => Nested.gatherAll Item.asDecision items
  | .leaf (.decision c) => .ok [.plain c]
  | .leaf (.scenario c) => .ok [.tagged c]
  | .leaf item => item.standingAlone .scopedConstraint

/-- The constraints of a nested list on trajectories. A constraint cannot stand alone. -/
def flattenPeriods : Nested (Item α) → Except Fault (List (PeriodConstraint α))
  | .leaf (.period _) => .error .wrongKind
  | nested => nested.gather Item.asPeriod

end Optima
