import Optima.Datum.Order
import Optima.Input.Tensor
import Optima.Period.Constraint

/-!
Trajectories as given: a list of states, a flat array with its extents, or one state and a number of
periods. Also constraints on trajectories with extents and tolerances as given. Extents that are no
whole numbers are refused where periods are counted.
-/

namespace Optima

namespace Datum

/-- The product of two values, as far as it can be a count: numbers multiply, while a text or a list
is repeated by a whole number and a vector is scaled, which never makes it a count. -/
def product? (a b : Datum) : Except Fault (Option Quantity) := do
  match a, b with
  | text _, n | list _, n | n, text _ | n, list _ =>
    let _ ← n.integer
    return none
  | vector _, n | n, vector _ =>
    let _ ← n.number
    return none
  | a, b =>
    match a.whole?, b.whole? with
    | some m, some n => return some (Quantity.scaled (m * n) 0)
    | _, _ => return some (Quantity.ofFloat ((← a.number) * (← b.number)))

end Datum

namespace Trajectory

def ofDatum (states : Datum) : Except Fault (Trajectory Float) := do
  ofStates (← (← states.members).mapM Vec.ofDatum)

/-- The trajectory whose states are given one after the other, in an array of any shape. The extents
must multiply to the number of entries before they are looked at one by one. -/
def ofArray (flat periods dimension : Datum) : Except Fault (Trajectory Float) := do
  let t ← Tensor.ofDatum flat
  let size := t.entries.length
  let fits := match ← periods.product? dimension with
    | some q => q.same (.scaled size 0)
    | none => false
  if !fits then throw (.mismatch (.flatSize size periods dimension))
  let p ← Tensor.extentOf periods
  let d ← Tensor.extentOf dimension
  if p < 0 || d < 0 then throw .badValue
  ofFlat ⟨t.entries⟩ p.toNat d.toNat

/-- One state in every period; a negative number of periods is none. The states must fit into
memory, and their number into a machine word. -/
def repeated (state : Vec Float) (periods : Int) : Except Fault (Trajectory Float) :=
  if periods < -0x8000000000000000 || 0x8000000000000000 ≤ periods then .error .tooLarge
  else if Tensor.memoryLimit ≤ periods.toNat then .error .listTooLong
  else constant state periods.toNat

def ofState (state periods : Datum) : Except Fault (Trajectory Float) := do
  let v ← Vec.ofDatum state
  repeated v (← periods.integer)

def item (t : Trajectory Float) (index : Datum) : Except Fault (Vec Float) := do
  t.get (← index.integer)

end Trajectory

namespace PeriodConstraint

/-- Whether a constraint is satisfied within a tolerance as given, which is not asked for if there
is nothing to compare. -/
def isWithin (tolerance : Datum) (t : Trajectory Float) (c : PeriodConstraint Float) :
    Except Fault Bool := do
  match ← c.violations t with
  | [] => return true
  | _ => c.isSatisfied (← tolerance.threshold) t

def allWithin (tolerance : Datum) (t : Trajectory Float) :
    List (PeriodConstraint Float) → Except Fault Bool
  | [] => .ok true
  | c :: cs => do
    if ← c.isWithin tolerance t then allWithin tolerance t cs else return false

/-- The constraints on the flat vector with extents as given. Rules for every period count them when
they are lowered, the others when they are evaluated; so is the dimension. -/
def lowerGiven (c : PeriodConstraint Float) (periods dimension : Datum) :
    Except Fault (List (Constraint Float)) := do
  match periods.whole?, dimension.whole?, c.rule with
  | some p, some d, _ => return c.lower p d
  | some p, none, .trajectory _ =>
    return if p ≤ 0 then c.lower p 0 else (c.lower p 0).map refused
  | some p, none, _ => return (c.lower p 0).map refused
  | none, _, .terminal _ | none, _, .trajectory _ => return (c.lower 0 0).map refused
  | none, _, _ => throw .wrongKind
where
  refused (c : Constraint Float) : Constraint Float :=
    { c with residual := fun _ => .error .wrongKind }

end PeriodConstraint

end Optima
