import Optima.Scalar
import Optima.Scenario.Label

/-!
Scenarios: named values of the uncertain parameters, each with a probability. Scenarios that are
drawn rather than given are equally likely and are numbered, whatever form the draws have.
-/

namespace Optima

structure Scenario (α : Type) where
  name : Label
  probability : α
  /-- Names and values of the parameters, in the order given. -/
  parameters : List (String × α)

namespace Scenario

variable {α : Type}

def get? (s : Scenario α) (key : String) : Option α :=
  (s.parameters.find? fun entry => entry.1 == key).map (·.2)

def parameterNames (s : Scenario α) : List String := s.parameters.map (·.1)

def values (s : Scenario α) : List α := s.parameters.map (·.2)

end Scenario

/-- What a draw may be: a scenario, named values, or values without names. -/
inductive Draft (α : Type) where
  | scenario (value : Scenario α)
  | mapping (entries : List (String × α))
  | values (items : List α)

def numbered (label : String) (i : Nat) : String := label ++ toString i

def numberedParameters {α : Type} (label : String) (values : List α) : List (String × α) :=
  values.zipIdx.map fun (value, j) => (numbered label j, value)

def Draft.parameters {α : Type} : Draft α → List (String × α)
  | scenario s => s.parameters
  | mapping entries => entries
  | values items => numberedParameters "param_" items

/-- Equally likely scenarios from draws: every draw keeps its parameters and gets a new name. -/
def Scenario.ofDrafts {α : Type} [Scalar α] (drafts : List (Draft α)) : List (Scenario α) :=
  let probability : α := 1 / Scalar.natural drafts.length
  drafts.zipIdx.map fun (draft, i) =>
    { name := .ofText (numbered "scenario_" i), probability, parameters := draft.parameters }

end Optima
