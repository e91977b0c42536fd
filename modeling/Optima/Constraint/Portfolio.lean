import Optima.Constraint.Basic

/-!
The constraints of portfolios: a budget, bounds on single positions, a return to reach and a limit
on gross exposure. Families have one member per component, named with its index.
-/

namespace Optima

variable {α : Type} [Scalar α]

def budgetResidual (x : Vec α) : α := x.sum - 1

def indexedName (family : String) (i : Nat) : String := family ++ "[" ++ toString i ++ "]"

namespace Constraint

def budget : Constraint α where
  relation := .equality
  residual x := .ok (budgetResidual x)
  gradient := some fun x => .ok (Vec.ones x.size)
  name := .text "budget"

/-- The unit vector of component `i`, in the dimension of `x`. -/
def axis (i : Nat) (x : Vec α) : Except Fault (Vec α) := Vec.basis x.size i

def downAxis (i : Nat) (x : Vec α) : Except Fault (Vec α) := do return (← axis i x).neg

def nonNegativity (dimension : Nat) : List (Constraint α) :=
  (List.range dimension).map fun (i : Nat) =>
    { relation := .inequality
      residual := fun x => do return -(← x.get i)
      gradient := some (downAxis i)
      name := .text (indexedName "non_negativity" i) }

def positionLimit (maximum : α) (dimension : Nat) : List (Constraint α) :=
  (List.range dimension).map fun (i : Nat) =>
    { relation := .inequality
      residual := fun x => do return (← x.get i) - maximum
      gradient := some (axis i)
      name := .text (indexedName "position_limit" i) }

def positionMinimum (minimum : α) (dimension : Nat) : List (Constraint α) :=
  (List.range dimension).map fun (i : Nat) =>
    { relation := .inequality
      residual := fun x => do return minimum - (← x.get i)
      gradient := some (downAxis i)
      name := .text (indexedName "position_minimum" i) }

def box (minimum maximum : α) (dimension : Nat) : List (Constraint α) :=
  positionMinimum minimum dimension ++ positionLimit maximum dimension

def targetReturn (returns : Vec α) (target : α) : Constraint α where
  relation := .inequality
  residual x := do return target - (← x.dot returns)
  gradient := some fun _ => .ok returns.neg
  name := .text "target_return"

/-- The magnitudes of the components sum to no more than the maximum. -/
def leverageLimit (maximum : α) : Constraint α where
  relation := .inequality
  residual x := .ok (x.gross - maximum)
  name := .text "leverage_limit"

end Constraint

end Optima
