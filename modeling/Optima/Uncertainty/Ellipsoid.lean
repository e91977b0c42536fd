import Optima.Triangular
import Optima.Uncertainty.Box

/-!
Ellipsoids: the points whose distance from a nominal point, measured by a covariance matrix, is at
most a radius. Distances are computed by solving with the triangular factor of the matrix, and
points are drawn by applying it to points of the unit ball.
-/

namespace Optima

structure Ellipsoid (α : Type) where
  nominal : Vec α
  covariance : List (List α)
  radius : α
  /-- The triangular factor of the covariance. -/
  factor : Triangular α

namespace Ellipsoid

variable {α : Type} [Scalar α]

omit [Scalar α] in
def dimension (e : Ellipsoid α) : Nat := e.nominal.size

def distance (e : Ellipsoid α) (p : Vec α) : α :=
  let y := e.factor.solve (List.zipWith (· - ·) p.toList e.nominal.toList)
  Scalar.squareRoot (Scalar.dot y y)

def contains (e : Ellipsoid α) (p : Vec α) : Bool :=
  let d := e.distance p
  Scalar.atMost (d * d) (e.radius * e.radius * (1 + membershipTolerance) + membershipTolerance)

/-- A point of the unit ball: a direction of any length, and how far to go along it. -/
def ballPoint (direction : List α) (u : α) : List α :=
  let length := Scalar.squareRoot (Scalar.dot direction direction)
  let reach := Scalar.root direction.length u
  direction.map fun x => x / length * reach

def stretch (e : Ellipsoid α) (ball : List α) : Vec α :=
  ⟨List.zipWith (· + ·) e.nominal.toList (e.factor.apply (ball.map (e.radius * ·)))⟩

/-- As many points of the ellipsoid as asked for. All directions are drawn before the numbers that
say how far to go. -/
def sample {σ : Type} (source : Source σ α) (e : Ellipsoid α) (count : Nat) :
    Draw σ (List (Vec α)) := do
  let directions ← Draw.many (Draw.many (Draw.ofStep source.normal) e.dimension) count
  let units ← Draw.many (Draw.ofStep source.unit) count
  return List.zipWith (fun direction u => e.stretch (ballPoint direction u)) directions units

end Ellipsoid

end Optima
