import Optima.Constraint.Item
import Optima.Formula

/-!
Constraints described by records. A record names the sort of the constraint and gives its residual
as a formula, or names a family of portfolio constraints with its arguments. A list describes a list
of constraints; whatever describes none stays what it is, to be refused where it is used. A bound
that is no number is refused only when a residual is compared with it.
-/

namespace Optima

/-- A result that is computed and then refused. -/
def refusedAfter {β : Type} (result : Except Fault β) (fault : Fault) : Except Fault β := do
  let _ ← result
  throw fault

def Constraint.refusing {α : Type} (fault : Fault) (c : Constraint α) : Constraint α :=
  { c with residual := fun x => refusedAfter (c.residual x) fault }

def PeriodRule.refusing {α : Type} (fault : Fault) : PeriodRule α → PeriodRule α
  | eachPeriod residual => eachPeriod fun t x => refusedAfter (residual t x) fault
  | terminal residual => terminal fun x => refusedAfter (residual x) fault
  | transition residual => transition fun t x y => refusedAfter (residual t x y) fault
  | trajectory residual => trajectory fun states => refusedAfter (residual states) fault
  | cumulative residual => cumulative fun t states => refusedAfter (residual t states) fault

namespace ConstraintSpec

def residualOf (f : Formula) : Vec Float → Except Fault Float := fun x => f.eval { x }

def gradientOf (value : Datum) : Vec Float → Except Fault (Vec Float) :=
  match value.members with
  | .ok items =>
    let formulas := items.map Formula.ofDatum
    fun x => do return ⟨← formulas.mapM fun f => f.eval { x }⟩
  | .error fault => fun _ => .error fault

def gradient? : Option Datum → Option (Vec Float → Except Fault (Vec Float))
  | none | some .null => none
  | some value => some (gradientOf value)

/-- A field of a description; one that is left out is nothing. -/
def get (fields : List (String × Datum)) (key : String) : Datum :=
  (Datum.field? fields key).getD .null

def formula (fields : List (String × Datum)) (key : String) : Formula :=
  Formula.ofDatum (get fields key)

/-- The mark of an equality; without one a constraint is an inequality. -/
def markOf (fields : List (String × Datum)) : Datum :=
  (Datum.field? fields "is_equality").getD (.flag false)

def arguments (fields : List (String × Datum)) : Except Fault (List Datum) := do
  match Datum.field? fields "args" with
  | some value => (← value.decoded).members
  | none => return []

def extent (value : Datum) : Except Fault Nat := Int.toNat <$> value.integer

def group (cs : List (Constraint Float)) : Nested (Item Float) :=
  .group (cs.map fun c => .leaf (.decision c))

def single (c : Constraint Float) : Nested (Item Float) := .leaf (.decision c)

def bounded (bound : Datum) (make : Float → List (Constraint Float)) : List (Constraint Float) :=
  match bound.bound with
  | .ok b => make b
  | .error fault => (make 0.0).map (·.refusing fault)

def boundedOne (bound : Datum) (make : Float → Constraint Float) : Constraint Float :=
  match bound.bound with
  | .ok b => make b
  | .error fault => (make 0.0).refusing fault

def boundedRule (bound : Datum) (make : Float → PeriodConstraint Float) :
    PeriodConstraint Float :=
  match bound.bound with
  | .ok b => make b
  | .error fault => { make 0.0 with rule := (make 0.0).rule.refusing fault }

def families : List String :=
  ["budget", "non_negativity", "position_limit", "position_minimum", "box_constraints",
   "target_return", "leverage_limit"]

def family (name : String) (args : List Datum) : Except Fault (Nested (Item Float)) := do
  match name, args with
  | "budget", [] => return single .budget
  | "non_negativity", [n] => return group (Constraint.nonNegativity (← extent n))
  | "position_limit", [maximum, n] =>
    let n ← extent n
    return group (bounded maximum (Constraint.positionLimit · n))
  | "position_minimum", [minimum, n] =>
    let n ← extent n
    return group (bounded minimum (Constraint.positionMinimum · n))
  | "box_constraints", [minimum, maximum, n] =>
    if ← maximum.less minimum then throw (.misuse (.crossedBounds minimum maximum))
    let n ← extent n
    match minimum.bound, maximum.bound with
    | .ok low, .ok high => return group (Constraint.box low high n)
    | _, _ =>
      return group (bounded minimum (Constraint.positionMinimum · n) ++
        bounded maximum (Constraint.positionLimit · n))
  | "target_return", [returns, target] =>
    let returns ← Vec.ofDatum returns
    return single (boundedOne target (Constraint.targetReturn returns ·))
  | "leverage_limit", [maximum] => return single (boundedOne maximum Constraint.leverageLimit)
  | name, _ => throw (if families.contains name then .wrongKind else .noSuchMember)

def decision (sort : Datum) (fields : List (String × Datum)) :
    Except Fault (Nested (Item Float)) := do
  let described (relation : Relation) : Nested (Item Float) :=
    single
      { relation
        residual := residualOf (formula fields "f")
        gradient := gradient? (Datum.field? fields "grad")
        name := get fields "name" }
  match sort with
  | .text "equality" => return described .equality
  | .text "inequality" => return described .inequality
  | .text name => family name (← arguments fields)
  | _ => throw .wrongKind

def period (sort : Datum) (fields : List (String × Datum)) :
    Except Fault (Nested (Item Float)) := do
  let f := formula fields "f"
  let mark := markOf fields
  let leaf (c : PeriodConstraint Float) : Nested (Item Float) := .leaf (.period c)
  match sort with
  | .text "each_period" =>
    return leaf { rule := .eachPeriod fun t x => f.eval { x, period := t }, mark }
  | .text "terminal" => return leaf { rule := .terminal (residualOf f), mark }
  | .text "transition" =>
    return leaf { rule := .transition fun t x y => f.eval { x, y, period := t }, mark }
  | .text "trajectory" =>
    return leaf { rule := .trajectory fun states => f.eval { states }, mark }
  | .text "cumulative" =>
    return leaf { rule := .cumulative fun t states => f.eval { states, period := t }, mark }
  | .text "average_constraint" =>
    let bound ← (get fields "bound").decoded
    return leaf (boundedRule bound (PeriodConstraint.averageConstraint (residualOf f)))
  | .text "cumulative_limit" =>
    let bound ← (get fields "bound").decoded
    return leaf (boundedRule bound (PeriodConstraint.cumulativeLimit (residualOf f)))
  | .text name =>
    match name, ← arguments fields with
    | "budget_each_period", [] => return leaf .budgetEachPeriod
    | "non_negativity_each_period", [n] =>
      return .group ((PeriodConstraint.nonNegativityEachPeriod (← extent n)).map leaf)
    | "turnover_limit", [limit] =>
      return leaf (boundedRule limit PeriodConstraint.turnoverLimit)
    | "budget_each_period", _ | "non_negativity_each_period", _ | "turnover_limit", _ =>
      throw .wrongKind
    | _, _ => throw .noSuchMember
  | _ => throw .wrongKind

def scopeOf (sort names : Datum) : Except Fault Scope := do
  match sort with
  | .text "all" => return .all
  | .text "in_scenario" => return .one ⟨names⟩
  | .text "in_scenarios" => Scope.ofNames ((← names.members).map Label.mk)
  | .text _ => throw .noSuchMember
  | _ => throw .wrongKind

def scenario (sort : Datum) (fields : List (String × Datum)) :
    Except Fault (ScenarioConstraint Float) := do
  return { scope := ← scopeOf sort (get fields "names")
           mark := markOf fields
           residual := residualOf (formula fields "f") }

mutual

def read : Datum → Except Fault (Nested (Item Float))
  | .list items => do return .group (← readAll items)
  | .record fields =>
    match Datum.field? fields "c", Datum.field? fields "pc", Datum.field? fields "sc" with
    | some sort, _, _ => decision sort fields
    | _, some sort, _ => period sort fields
    | _, _, some sort => do return .leaf (.scenario (← scenario sort fields))
    | _, _, _ => .ok (.leaf (.other (.record fields)))
  | value => .ok (.leaf (.other value))

def readAll : List Datum → Except Fault (List (Nested (Item Float)))
  | [] => .ok []
  | item :: rest => do
    let first ← read item
    return first :: (← readAll rest)

end

end ConstraintSpec

end Optima
