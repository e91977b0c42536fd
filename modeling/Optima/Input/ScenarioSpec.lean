import Optima.Input.Check
import Optima.Scenario.Outlook
import Optima.Statistics.NormalQuantile

/-!
Scenarios, their statistics and confidence levels as given. Values that describe no scenario stay
what they are, to be refused where scenarios are used.
-/

namespace Optima

namespace Datum

/-- Stores a value under a key: the place is that of the first entry with the key, and so is the key
as it was given. -/
def store {β κ : Type} (same : κ → κ → Bool) (entries : List (κ × β)) (key : κ) (value : β) :
    List (κ × β) :=
  if entries.any fun entry => same entry.1 key then
    entries.map fun entry => if same entry.1 key then (entry.1, value) else entry
  else entries ++ [(key, value)]

def storeAll {β κ : Type} (same : κ → κ → Bool) (entries : List (κ × β)) : List (κ × β) :=
  entries.foldl (fun kept entry => store same kept entry.1 entry.2) []

def pair (item : Datum) : Except Fault (Datum × Datum) := do
  match ← item.members with
  | [key, value] =>
    let _ ← key.key
    return (key, value)
  | _ => throw .badValue

def entries : Datum → Except Fault (List (Datum × Datum))
  | record fields => .ok (fields.map fun (key, value) => (text key, value))
  | value => do return storeAll same (← (← value.members).mapM pair)

end Datum

namespace Scenario

def checked (name : Label) (probability : Float) (parameters : List (String × Float)) :
    Except Fault (Scenario Float) :=
  if probability.isFinite && 0.0 ≤ probability && probability ≤ 1.0 then
    .ok { name, probability, parameters }
  else .error (.misuse (.probability (.real probability)))

/-- Parameters from named values. Names are texts, whatever was given for them. -/
def parametersOf (value : Datum) : Except Fault (List (String × Float)) := do
  let numbers ← (← value.entries).mapM fun (key, value) => do
    return (key.shown, ← value.toFloat)
  return Datum.storeAll (· == ·) numbers

def ofData (name : Label) (probability parameters : Datum) : Except Fault (Scenario Float) := do
  let probability ← probability.toFloat
  checked name probability (← parametersOf parameters)

/-- The scenario that a record with a probability describes; other values describe none. -/
def ofDatum (value : Datum) : Except Fault (Scenario Float ⊕ Datum) := do
  match value with
  | .record fields =>
    match Datum.field? fields "probability" with
    | some probability =>
      let name := (Datum.field? fields "name").getD (.text "")
      let parameters := (Datum.field? fields "parameters").getD (.record [])
      return .inl (← ofData ⟨name⟩ probability parameters)
    | none => return .inr value
  | _ => return .inr value

def withProbability (s : Scenario Float) (probability : Datum) : Except Fault (Scenario Float) := do
  checked s.name (← probability.toFloat) s.parameters

def item? (s : Scenario Float) (key : Datum) : Except Fault (Option Float) := do
  match ← key.key with
  | .text name => return s.get? name
  | _ => return none

def item (s : Scenario Float) (key : Datum) : Except Fault Float := do
  match ← s.item? key with
  | some value => return value
  | none => throw (.missingKey key)

def itemOr (s : Scenario Float) (key fallback : Datum) : Except Fault Datum := do
  match ← s.item? key with
  | some value => return .real value
  | none => return fallback

def array (s : Scenario Float) (keys : Datum) : Except Fault (List Float) := do
  match keys with
  | .null => return s.values
  | keys => (← keys.members).mapM s.item

def all : List (Scenario Float ⊕ Datum) → Except Fault (List (Scenario Float))
  | [] => .ok []
  | .inl s :: rest => do return s :: (← all rest)
  | .inr other :: _ => .error (.misuse (.unexpected .scenario other.kindName))

end Scenario

def Outlook.ofData (items : List (Scenario Float ⊕ Datum)) : Except Fault (Outlook Float) := do
  Outlook.ofScenarios (← Scenario.all items)

namespace Statistics

def weights (probabilities : Datum) : Except Fault (Tensor × List Float) := do
  let p ← Tensor.ofDatum probabilities
  return (p, ← normalizedWeights p.entries)

/-- A statistic of values and probabilities, which must have one shape. -/
def paired (statistic : List Float → List Float → Except Fault Float)
    (values probabilities : Datum) : Except Fault Float := do
  let v ← Tensor.ofDatum values
  if v.shape != (← Tensor.shapeOf probabilities) then
    throw (.mismatch (.unpairedValues v.entries.length (← probabilities.length)))
  statistic v.entries (← Tensor.entriesOf probabilities)

def level (value : Datum) : Except Fault Float := do
  if (← (Datum.whole 0).less value) && (← value.less (.whole 1)) then value.number
  else throw (.misuse (.confidenceLevel value))

def estimateOf : Datum → Except Fault Float
  | .text _ => .error .noSuchOperation
  | value => value.bound

/-- The confidence interval of an estimate with a normal error. The level is looked at first and the
estimate last. -/
def confidenceInterval (estimate standardError atLevel : Datum) : Except Fault (Float × Float) := do
  let errors := errorsAt NormalQuantile.quantile (← level atLevel)
  let standardError ← standardError.bound
  return intervalAround (← estimateOf estimate) standardError errors

end Statistics

end Optima
