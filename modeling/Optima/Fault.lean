import Optima.Datum

/-!
What can be wrong with a request. Difficulty of a problem is never a fault, only misuse is: values
of the wrong shape or kind, numbers out of range, names that nothing answers to. Each cause is a
constructor; the wording is in one place.
-/

namespace Optima

inductive Pairing where
  | add
  | subtract
  | dot
  | multiply
  | distance

def Pairing.phrase : Pairing → String
  | add => "add"
  | subtract => "subtract"
  | dot => "dot"
  | multiply => "multiply"
  | distance => "measure distance between"

inductive Ingredient where
  | constraint
  | scopedConstraint
  | scenario
  | uncertaintySet

def Ingredient.phrase : Ingredient → String
  | constraint => "Constraint"
  | scopedConstraint => "Constraint or ScenarioConstraint"
  | scenario => "Scenario"
  | uncertaintySet => "UncertaintySet"

inductive Mismatch where
  | notFlat (name : String) (shape : List Nat)
  | notMatrix (name : String) (shape : List Nat)
  | wrongShape (name : String) (expected : List Datum) (got : List Nat)
  | wrongSize (name : String) (got : Nat) (expected : Datum)
  | operandShape (op : Pairing) (shape : List Nat)
  | operandSize (op : Pairing) (left right : Nat)
  | flatSize (got : Nat) (periods dimension : Datum)
  | periodSize (period got expected : Nat)
  | startSize (periods dimension expectedPeriods expectedDimension : Nat)
  | periodCount (got expected : Nat)
  | unequalPoints (dimension : Nat)
  | raggedObservations
  | observationShape (shape : List Nat)
  | unpairedValues (values probabilities : Nat)

inductive Misuse where
  | empty (name : String)
  | notFinite (name : String)
  | notPositive (name : String) (got : Datum)
  | negative (name : String) (got : Datum)
  | notCount (name : String) (got : Datum)
  | unexpected (wanted : Ingredient) (kind : String)
  | basisIndex (index dimension : Datum)
  | crossedBounds (minimum maximum : Datum)
  | slowPenalty (got : Datum)
  | noPeriods
  | objectiveArguments
  | negativeDeviations
  | asymmetricCovariance
  | indefiniteCovariance
  | noPoints
  | nominalIndex (index : Datum) (points : Nat)
  | negativeSpread
  | crossedRanges
  | noObservations
  | probabilityList
  | totalProbability
  | confidenceLevel (got : Datum)
  | probability (got : Datum)
  | noScenarioNames
  | noSpread
  | noScenarios
  | duplicateNames (names : List Datum)
  | unknownNames (names : List Datum)
  | scenarioSource

inductive Fault where
  | mismatch (cause : Mismatch)
  | misuse (cause : Misuse)
  /-- A key that nothing is stored under. -/
  | missingKey (key : Datum)
  /-- A component of a vector that does not exist. -/
  | outOfBounds (index : Int) (size : Nat)
  /-- A member of a sequence that does not exist. -/
  | outOfRange
  | wrongKind
  | badValue
  | tooLarge
  | divisionByZero
  /-- Taking a text apart gives texts again, without end. -/
  | endlessNesting
  /-- Something is asked for that a value does not have. -/
  | noSuchMember
  /-- Arithmetic between an array and a text. -/
  | noSuchOperation
  /-- A list that does not fit into memory. -/
  | listTooLong
  /-- An array that does not fit into memory. -/
  | arrayTooLarge

/-- Items in parentheses; a single one keeps its comma. -/
def tupleText : List String → String
  | [item] => "(" ++ item ++ ",)"
  | items => "(" ++ ", ".intercalate items ++ ")"

def shapeText (shape : List Nat) : String := tupleText (shape.map toString)

def Mismatch.message : Mismatch → String
  | notFlat name shape => s!"{name} must be 1-D, got shape {shapeText shape}"
  | notMatrix name shape => s!"{name} must be 2-D, got shape {shapeText shape}"
  | wrongShape name expected got =>
    s!"{name} must have shape {tupleText (expected.map Datum.literal)}, got {shapeText got}"
  | wrongSize name got expected => s!"{name} has {got} elements, expected {expected.shown}"
  | operandShape op shape => s!"cannot {op.phrase} with operand of shape {shapeText shape}"
  | operandSize op left right =>
    s!"cannot {op.phrase} vectors of dimension {left} and {right}"
  | flatSize got periods dimension =>
    s!"flat vector has {got} elements, expected {periods.shown} x {dimension.shown}"
  | periodSize period got expected =>
    s!"period {period} has dimension {got}, expected {expected}"
  | startSize periods dimension expectedPeriods expectedDimension =>
    s!"initial_trajectory is {periods} x {dimension}, " ++
      s!"expected {expectedPeriods} x {expectedDimension}"
  | periodCount got expected => s!"trajectory has {got} periods, expected {expected}"
  | unequalPoints dimension => s!"all points must have dimension {dimension}"
  | raggedObservations => "historical observations must all have the same length"
  | observationShape shape => s!"historical data must be 2-D, got shape {shapeText shape}"
  | unpairedValues values probabilities =>
    s!"{values} values but {probabilities} probabilities"

def namesText (names : List Datum) : String := Text.bracketed (names.map Datum.literal)

def Misuse.message : Misuse → String
  | empty name => s!"{name} must not be empty"
  | notFinite name => s!"{name} contains NaN or infinite values"
  | notPositive name got => s!"{name} must be positive, got {got.shown}"
  | negative name got => s!"{name} must be non-negative, got {got.shown}"
  | notCount name got => s!"{name} must be a positive integer, got {got.shown}"
  | unexpected wanted kind => s!"expected {wanted.phrase}, got {kind}"
  | basisIndex index dimension =>
    s!"basis index {index.shown} out of range for dimension {dimension.shown}"
  | crossedBounds minimum maximum =>
    s!"minimum {minimum.shown} exceeds maximum {maximum.shown}"
  | slowPenalty got => s!"penalty_increase must exceed 1, got {got.shown}"
  | noPeriods => "trajectory must contain at least one period"
  | objectiveArguments => "objective must take (x) or (t, x)"
  | negativeDeviations => "deviations must be non-negative"
  | asymmetricCovariance => "covariance must be symmetric"
  | indefiniteCovariance => "covariance must be positive definite"
  | noPoints => "discrete uncertainty set requires at least one point"
  | nominalIndex index points => s!"nominal_index {index.shown} out of range for {points} points"
  | negativeSpread => "standard deviations must be non-negative"
  | crossedRanges => "lower bounds must not exceed upper bounds"
  | noObservations => "historical data must contain at least one observation"
  | probabilityList => "probabilities must be finite and non-negative"
  | totalProbability => "total scenario probability must be positive"
  | confidenceLevel got => s!"confidence_level must be in (0,1), got {got.shown}"
  | probability got => s!"Probability must be in [0,1], got {got.shown}"
  | noScenarioNames => "in_scenarios requires at least one scenario name"
  | noSpread => "normal scenarios need standard_deviation or covariance"
  | noScenarios => "at least one scenario is required"
  | duplicateNames names => s!"duplicate scenario names: {namesText names}"
  | unknownNames names => s!"constraint refers to unknown scenarios: {namesText names}"
  | scenarioSource => "provide exactly one of scenario_generator or scenarios"

def Fault.message? : Fault → Option String
  | mismatch cause => some ("Dimension mismatch: " ++ cause.message)
  | misuse cause => some ("Invalid input: " ++ cause.message)
  | missingKey key => some key.literal
  | outOfBounds index size =>
    some s!"index {index} is out of bounds for axis 0 with size {size}"
  | _ => none

end Optima
