import Optima.Random.Source
import Optima.Vec

/-!
Boxes: a nominal point and how far each coordinate may deviate from it. Boxes with few dimensions
are sampled at all their corners first, and inside only when more points are asked for.
-/

namespace Optima

/-- How far a point may be outside of a set and still count as a member. -/
def membershipTolerance {α : Type} [Scalar α] : α := 1e-10

/-- The highest dimension in which all corners of a box are listed. -/
def maxCornerDimension : Nat := 10

structure Box (α : Type) [Scalar α] where
  nominal : Vec α
  deviations : Vec α
  aligned : deviations.size = nominal.size
  nonNegative : ∀ d ∈ deviations.toList, Scalar.less d 0 = false

namespace Box

variable {α : Type} [Scalar α]

/-- The box around a point; the deviations must fit it and must not be negative. -/
def ofVectors (nominal deviations : Vec α) : Except Fault (Box α) :=
  if aligned : deviations.size = nominal.size then
    if nonNegative : ∀ d ∈ deviations.toList, Scalar.less d 0 = false then
      .ok { nominal, deviations, aligned, nonNegative }
    else .error (.misuse .negativeDeviations)
  else .error (.mismatch (.wrongSize "deviations" deviations.size (.whole nominal.size)))

def dimension (box : Box α) : Nat := box.nominal.size

def lower (box : Box α) : Vec α :=
  ⟨List.zipWith (· - ·) box.nominal.toList box.deviations.toList⟩

def upper (box : Box α) : Vec α :=
  ⟨List.zipWith (· + ·) box.nominal.toList box.deviations.toList⟩

def contains (box : Box α) (p : Vec α) : Bool :=
  (List.zipWith (fun x l => Scalar.atMost (l - membershipTolerance) x)
    p.toList box.lower.toList).all id &&
  (List.zipWith (fun x u => Scalar.atMost x (u + membershipTolerance))
    p.toList box.upper.toList).all id

/-- Every choice of the lesser or the greater end of each interval, the lesser ones first. -/
def choices : List (α × α) → List (List α)
  | [] => [[]]
  | (least, most) :: rest =>
    (choices rest).map (least :: ·) ++ (choices rest).map (most :: ·)

def corners (box : Box α) : List (Vec α) :=
  (choices (box.lower.toList.zip box.upper.toList)).map fun p => ⟨p⟩

/-- A number between two ends, from one of the unit interval. -/
def between (least most u : α) : α := least + (most - least) * u

def interior {σ : Type} (source : Source σ α) (box : Box α) : Draw σ (Vec α) := do
  let p ← Draw.each (fun (ends : α × α) => do
    return between ends.1 ends.2 (← Draw.ofStep source.unit))
    (box.lower.toList.zip box.upper.toList)
  return ⟨p⟩

def listed (box : Box α) : List (Vec α) :=
  if box.dimension ≤ maxCornerDimension then box.corners else []

/-- Intervals that are too wide to measure cannot be drawn from. -/
def isMeasurable (box : Box α) : Bool :=
  (List.zipWith (fun l u => Scalar.isFinite (u - l)) box.lower.toList box.upper.toList).all id

/-- The listed corners and, if more points are asked for, points inside. -/
def sample {σ : Type} (source : Source σ α) (box : Box α) (count : Nat) :
    Draw σ (List (Vec α)) := do
  let corners := box.listed
  let remaining := count - corners.length
  if 0 < remaining && !box.isMeasurable then throw .tooLarge
  return corners ++ (← Draw.many (box.interior source) remaining)

end Box

end Optima
