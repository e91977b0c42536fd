import Optima.Robust.Worst
import Optima.Solver.Outcome

/-!
The worst case over a list of points as a problem of its own. The decision gets one more component,
a bound on the objective at every point; the bound is what is optimized.
-/

namespace Optima

variable {α : Type} [Scalar α]

def boundOf (dimension : Nat) (z : Vec α) : Except Fault α := z.get dimension

def decisionOf (dimension : Nat) (z : Vec α) : Vec α := z.segment 0 dimension

def Constraint.lift (dimension : Nat) (c : Constraint α) : Constraint α where
  relation := c.relation
  residual z := c.residual (decisionOf dimension z)
  name := c.name

def boundAt (dimension : Nat) (sense : Sense) (objective : Vec α → Vec α → Except Fault α)
    (p : Vec α) : Constraint α where
  relation := .inequality
  residual z := do
    let value ← objective (decisionOf dimension z) p
    return sense.sign * (value - (← boundOf dimension z))

/-- Optimizes the bound over lifted decisions. -/
def epigraph (dimension : Nat) (sense : Sense) (objective : Vec α → Vec α → Except Fault α)
    (constraints : List (Constraint α)) (points : List (Vec α)) : Problem α where
  objective := boundOf dimension
  constraints := constraints.map (Constraint.lift dimension) ++
    points.map (boundAt dimension sense objective)
  weight := sense.sign

def liftedStart (sense : Sense) (objective : Vec α → Vec α → Except Fault α)
    (points : List (Vec α)) (x : Vec α) : Except Fault (Vec α) := do
  let (bound, _) ← worstCase sense objective x points
  return ⟨x.toList ++ [bound]⟩

end Optima
