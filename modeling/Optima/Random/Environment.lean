import Optima.Random.Stream
import Optima.Triangular

/-!
What random numbers depend on apart from a seed. Without a seed a stream may begin anywhere, and
numbers with a covariance are made from independent ones in a way that the covariance leaves open.
Whatever samples is written over both, so that a law about samples holds for any choice.
-/

namespace Optima

/-- Makes numbers with a covariance out of independent ones: the component with a given number. -/
abbrev Correlation (α : Type) := (covariance : List (List α)) → (independent : List α) → Nat → α

namespace Random

class Environment where
  /-- The stream that is taken if no seed is given. -/
  unseeded : Stream
  correlation : Correlation Float

/-- An environment for runs that can be repeated. Numbers are correlated by the triangular factor of
their covariance. -/
instance (priority := low) repeatable : Environment where
  unseeded := .ofSeed [0]
  correlation covariance independent i :=
    ((Triangular.factor covariance).apply independent).getD i 0.0

end Random

end Optima
