import Optima.Input.Check
import Optima.Input.Seed
import Optima.Input.Spelling
import Optima.Random.Normal
import Optima.Uncertainty.Set

/-!
Uncertainty sets as given: their ingredients are checked in a fixed order and reported under their
names. Also how a set is shown, and samples whose size and seed are as given.
-/

namespace Optima

def Box.ofData (nominal deviations : Datum) : Except Fault (Box Float) := do
  let nominal ← Check.array nominal "nominal"
  let deviations ← Check.arrayOf nominal.size deviations "deviations"
  Box.ofVectors nominal deviations

def Ellipsoid.ofData (nominal covariance radius : Datum) : Except Fault (Ellipsoid Float) := do
  let nominal ← Check.array nominal "nominal"
  let covariance ← Check.squareMatrix nominal.size covariance "covariance"
  if !isSymmetric covariance then throw (.misuse .asymmetricCovariance)
  let radius ← Check.positive radius "radius"
  match Triangular.factor? covariance with
  | some factor => return { nominal, covariance, radius, factor }
  | none => throw (.misuse .indefiniteCovariance)

def PointSet.furtherPoint (dimension : Nat) (item : Datum × Nat) : Except Fault (Vec Float) :=
  match Check.arrayOf dimension item.1 s!"points[{item.2}]" with
  | .error (.mismatch _) => .error (.mismatch (.unequalPoints dimension))
  | result => result

/-- A finite set from the list of its points. A record is looked up by the first index. -/
def PointSet.ofDatum (points : Datum) : Except Fault (PointSet Float) := do
  match ← points.members with
  | [] => throw (.misuse .noPoints)
  | _ :: rest =>
    let first ← points.first
    let first ← Check.array first "points[0]"
    PointSet.ofPoints (first :: (← (rest.zipIdx 1).mapM (furtherPoint first.size)))

namespace UncertaintySet

/-- The set that a record with a kind describes; other values describe none. -/
def described (value : Datum) : Except Fault (UncertaintySet Float ⊕ Datum) := do
  match value with
  | .record fields =>
    match Datum.field? fields "kind" with
    | some kind =>
      let fields ← Datum.decodedFields fields
      let given (key : String) : Datum := (Datum.field? fields key).getD .null
      match kind with
      | .text "box" => return .inl (box (← Box.ofData (given "nominal") (given "deviations")))
      | .text "ellipsoid" =>
        let radius := (Datum.field? fields "radius").getD (.real 1.0)
        return .inl (ellipsoid (← Ellipsoid.ofData (given "nominal") (given "covariance") radius))
      | .text "discrete" => return .inl (finite (← PointSet.ofDatum (given "points")))
      | _ => return .inr value
    | none => return .inr value
  | _ => return .inr value

/-- The set that a value describes. Anything that describes none is refused. -/
def ofDatum (value : Datum) : Except Fault (UncertaintySet Float) := do
  match ← described value with
  | .inl set => return set
  | .inr other => throw (.misuse (.unexpected .uncertaintySet other.kindName))

def point (s : UncertaintySet Float) (p : Datum) : Except Fault (Vec Float) :=
  Check.arrayOf s.dimension p "point"

def text : UncertaintySet Float → String
  | box b => s!"BoxUncertaintySet(dimension={b.dimension})"
  | ellipsoid e =>
    s!"EllipsoidalUncertaintySet(dimension={e.dimension}, " ++
      s!"radius={Decimal.general 6 e.radius})"
  | finite s =>
    s!"DiscreteUncertaintySet(points={s.points.length}, dimension={s.first.size})"

/-- The distance of a point as given. A difference that is not finite cannot be measured. -/
def distanceGiven (s : UncertaintySet Float) (p : Datum) : Except Fault Float := do
  match s with
  | ellipsoid e =>
    let p ← s.point p
    if !(List.zipWith (fun x y => (x - y).isFinite) p.toList e.nominal.toList).all id then
      throw .badValue
    return e.distance p
  | _ => throw .noSuchMember

/-- Whether a point as given is inside. The square of the radius must be a number of its own. -/
def containsGiven (s : UncertaintySet Float) (p : Datum) : Except Fault Bool := do
  match s with
  | ellipsoid e =>
    let _ ← s.distanceGiven p
    if (e.radius * e.radius).isInf then throw .tooLarge
  | _ => pure ()
  return s.contains (← s.point p)

/-- Whether all points are inside; points after the first one outside are not looked at. -/
def containsAll (s : UncertaintySet Float) : List (Vec Float) → Except Fault Bool
  | [] => .ok true
  | p :: rest => do
    if ← s.containsGiven (.vector p.toList) then s.containsAll rest else return false

/-- What stands against drawing points, as many as given, after the listed ones: intervals that are
too wide or whose width has a sign, and numbers of points that nothing can hold. -/
def checkSample (s : UncertaintySet Float) (count : Datum) (n : Nat) : Except Fault Unit := do
  match s with
  | box b =>
    if b.listed.length < n then
      if !b.isMeasurable then throw .tooLarge
      if Check.hasSign (List.zipWith (· - ·) b.upper.toList b.lower.toList) then throw .badValue
      let remaining := match count with
        | .real _ => count
        | _ => .whole (n - b.listed.length)
      let _ ← Tensor.shapeGiven (.list [remaining, .whole b.dimension])
  | ellipsoid e =>
    let _ ← Tensor.shapeWith [n, e.dimension]
  | finite _ => pure ()

def sampleCount (s : UncertaintySet Float) (n : Nat) : Draw Random.Stream (List (Vec Float)) := do
  s.checkSample (.whole n) n
  s.sample Random.source n

/-- Points of the set, as many as given. A finite set gives its points whatever is asked for. -/
def sampleGiven (s : UncertaintySet Float) (count : Datum) :
    Draw Random.Stream (List (Vec Float)) := do
  match s with
  | finite set => return set.points
  | s =>
    let n ← Check.count count "number_of_samples"
    s.checkSample count n
    s.sample Random.source n

/-- Points of the set from a stream of its own. The number of points is checked before the seed. -/
def sampleSeeded [Random.Environment] (s : UncertaintySet Float) (count seed : Datum) :
    Except Fault (List (Vec Float)) := do
  match s with
  | finite set => return set.points
  | s =>
    let _ ← Check.count count "number_of_samples"
    let (points, _) ← s.sampleGiven count (← Random.Stream.ofDatum seed)
    return points

end UncertaintySet

end Optima
