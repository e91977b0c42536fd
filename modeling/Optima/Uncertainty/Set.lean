import Optima.Uncertainty.Ellipsoid

/-!
Sets of uncertain parameters: boxes, ellipsoids and finite lists of points.
-/

namespace Optima

/-- A finite set of points of one dimension; the first one is nominal. -/
structure PointSet (α : Type) where
  first : Vec α
  rest : List (Vec α)
  uniform : ∀ v ∈ rest, v.size = first.size

namespace PointSet

variable {α : Type}

def points (s : PointSet α) : List (Vec α) := s.first :: s.rest

def ofPoints : List (Vec α) → Except Fault (PointSet α)
  | [] => .error (.misuse .noPoints)
  | first :: rest =>
    if uniform : ∀ v ∈ rest, v.size = first.size then .ok { first, rest, uniform }
    else .error (.mismatch (.unequalPoints first.size))

def contains [Scalar α] (s : PointSet α) (p : Vec α) : Bool :=
  s.points.any fun q =>
    (List.zipWith (fun x y => Scalar.atMost (Scalar.magnitude (x - y)) membershipTolerance)
      q.toList p.toList).all id

end PointSet

inductive UncertaintySet (α : Type) [Scalar α] where
  | box (value : Box α)
  | ellipsoid (value : Ellipsoid α)
  | finite (value : PointSet α)

namespace UncertaintySet

variable {α : Type} [Scalar α]

def nominal : UncertaintySet α → Vec α
  | box b => b.nominal
  | ellipsoid e => e.nominal
  | finite s => s.first

def dimension (s : UncertaintySet α) : Nat := s.nominal.size

def contains (s : UncertaintySet α) (p : Vec α) : Bool :=
  match s with
  | box b => b.contains p
  | ellipsoid e => e.contains p
  | finite s => s.contains p

/-- Points of the set. How many there are is up to the set: a box lists its corners in any case, and
a finite set gives all its points. -/
def sample {σ : Type} (source : Source σ α) (s : UncertaintySet α) (count : Nat) :
    Draw σ (List (Vec α)) :=
  match s with
  | box b => b.sample source count
  | ellipsoid e => e.sample source count
  | finite s => pure s.points

end UncertaintySet

end Optima
