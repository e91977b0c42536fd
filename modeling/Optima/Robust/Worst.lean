import Optima.Solver.Lagrangian

/-!
The worst case of a decision over a list of points: the largest value when minimizing, the smallest
when maximizing. An undefined value is worse than all others, and of equal values the first counts.
-/

namespace Optima

variable {α : Type} [Scalar α]

def Sense.isWorse (sense : Sense) (x y : α) : Bool :=
  match sense with
  | .minimize => Scalar.less y x
  | .maximize => Scalar.less x y

/-- The worse of two cases, the first one unless the second is strictly worse. -/
def Sense.worseCase (sense : Sense) (current challenger : α × Vec α) : α × Vec α :=
  if !Scalar.isUndefined current.1 &&
      (Scalar.isUndefined challenger.1 || sense.isWorse challenger.1 current.1) then challenger
  else current

def casesAt (objective : Vec α → Vec α → Except Fault α) (x : Vec α) (points : List (Vec α)) :
    Except Fault (List (α × Vec α)) :=
  points.mapM fun p => do return (← objective x p, p)

/-- The worst value of an objective at a decision, and the first point that attains it. -/
def worstCase (sense : Sense) (objective : Vec α → Vec α → Except Fault α) (x : Vec α)
    (points : List (Vec α)) : Except Fault (α × Vec α) := do
  match ← casesAt objective x points with
  | [] => throw .badValue
  | first :: rest => return rest.foldl sense.worseCase first

end Optima
