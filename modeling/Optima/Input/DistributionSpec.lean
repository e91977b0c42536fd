import Optima.Input.Check
import Optima.Input.Seed
import Optima.Random.Normal
import Optima.Scenario.Basic
import Optima.Scenario.Distribution

/-!
Distributions as given, and scenarios drawn from them. What a distribution is made of is checked in
a fixed order; sizes and seeds are checked when a sample is drawn. A sample is an array: its last
level is a draw, and the levels before it are the size that was asked for.
-/

namespace Optima

namespace Distribution

def covarianceOf (dimension : Nat) (value : Datum) : Except Fault (List (List Float)) := do
  let covariance ← Check.squareMatrix dimension value "covariance"
  if isSymmetric covariance then return covariance
  else throw (.misuse .asymmetricCovariance)

/-- Standard deviations: ones if none are given, a single number for all, or one for each. A single
number is taken as it is. -/
def spreadOf (dimension : Nat) (value : Datum) : Except Fault (Vec Float) := do
  match value with
  | .null => return Vec.ones dimension
  | .list _ | .vector _ | .record _ => Check.arrayOf dimension value "standard_deviation"
  | single => return ⟨List.replicate dimension (← single.toFloat)⟩

/-- A normal distribution; a covariance takes precedence over standard deviations. -/
def ofMoments (mean deviations covariance : Datum) : Except Fault (Distribution Float) := do
  let mean ← Check.array mean "mean"
  match covariance with
  | .null =>
    let deviations ← spreadOf mean.size deviations
    if deviations.toList.any (· < 0.0) then throw (.misuse .negativeSpread)
    return normal mean deviations
  | matrix => return correlated mean (← covarianceOf mean.size matrix)

def ofBounds (low high : Datum) : Except Fault (Distribution Float) := do
  let low ← Check.array low "lower_bounds"
  let high ← Check.arrayOf low.size high "upper_bounds"
  if (List.zipWith (fun l h => decide (h < l)) low.toList high.toList).any id then
    throw (.misuse .crossedRanges)
  return uniform low high

/-- The distribution of past observations: rows of one length, or single numbers. -/
def ofObservations (observations : Datum) : Except Fault (Distribution Float) := do
  let t ← match Tensor.ofDatum observations with
    | .error .badValue => throw (.mismatch .raggedObservations)
    | result => result
  let (count, columns) ← match t.shape with
    | [n] => pure (n, 1)
    | [n, d] => pure (n, d)
    | shape => throw (.mismatch (.observationShape shape))
  match Tensor.rows columns count t.entries with
  | [] => throw (.misuse .noObservations)
  | first :: rest =>
    if !t.entries.all Float.isFinite then throw (.misuse (.notFinite "historical data"))
    return empirical ⟨first⟩ (rest.map fun row => ⟨row⟩)

def ofFields (fields : List (String × Datum)) : Except Fault (Distribution Float) :=
  let given (key : String) : Datum := (Datum.field? fields key).getD .null
  match given "kind" with
  | .text "normal" => ofMoments (given "mean") (given "std") (given "cov")
  | .text "uniform" => ofBounds (given "low") (given "high")
  | .text "empirical" => ofObservations (given "observations")
  | _ => .error .wrongKind

def deviations : Distribution Float → Except Fault (List Float)
  | normal _ deviations => .ok deviations.toList
  | correlated _ covariance => .ok (deviationsOf covariance)
  | _ => .error .noSuchMember

def observationCount : Distribution Float → Except Fault Nat
  | empirical _ rest => .ok (rest.length + 1)
  | _ => .error .noSuchMember

/-- What stands against any draw: standard deviations and widths with a sign, be it that of a zero,
and widths that are not finite. -/
def checkDraws (d : Distribution Float) : Except Fault Unit := do
  if !d.isMeasurable then throw .tooLarge
  let widths := match d with
    | normal _ deviations => deviations.toList
    | uniform low high => List.zipWith (· - ·) high.toList low.toList
    | _ => []
  if Check.hasSign widths then throw .badValue

/-- The levels of a sample before its last one. Correlated draws may come in any arrangement, others
come one after the other. -/
def arrangement (d : Distribution Float) (size : Datum) : Except Fault (List Nat) := do
  match d, size with
  | correlated _ _, .null => return []
  | correlated _ _, .list items => Tensor.shapeGiven (.list items)
  | correlated _ _, .vector [] | correlated _ _, .text "" => return []
  | correlated _ _, .vector _ => throw .wrongKind
  | d, size =>
    let _ ← Tensor.shapeGiven (.list [size, .whole d.dimension])
    Tensor.shapeGiven size

/-- Draws, as many as given, from the stream of a seed. Observations ask for a positive number. -/
def sampleGiven [Random.Environment] (d : Distribution Float) (size seed : Datum) :
    Except Fault Tensor := do
  if let empirical _ _ := d then
    let _ ← Check.count size "size"
  let stream ← Random.Stream.ofDatum seed
  d.checkDraws
  let levels ← d.arrangement size
  let (rows, _) ←
    d.sample Random.Environment.correlation Random.source (Tensor.sizeOf levels) stream
  return ⟨levels ++ [d.dimension], rows.flatMap Vec.toList⟩

end Distribution

namespace Scenario

def ofDistribution [Random.Environment] (d : Distribution Float) (count seed : Datum) :
    Except Fault (List (Scenario Float)) := do
  let n ← Check.count count "number_of_scenarios"
  let t ← d.sampleGiven (.whole n) seed
  return ofDrafts ((Tensor.rows d.dimension n t.entries).map Draft.values)

/-- Scenarios from a normal distribution, whose spread must be given for each parameter. -/
def ofNormal [Random.Environment] (mean deviations covariance count seed : Datum) :
    Except Fault (List (Scenario Float)) := do
  let mean ← Check.array mean "mean"
  match covariance, deviations with
  | .null, .null => throw (.misuse .noSpread)
  | .null, deviations =>
    let deviations ← Check.arrayOf mean.size deviations "standard_deviation"
    let d ← Distribution.ofMoments (.vector mean.toList) (.vector deviations.toList) .null
    ofDistribution d count seed
  | covariance, _ =>
    ofDistribution (← Distribution.ofMoments (.vector mean.toList) .null covariance) count seed

end Scenario

end Optima
