import Optima.Difference
import Optima.Proofs.Success

/-!
The working copy of central differences. Whenever a coordinate is moved, the working copy is the
point itself, since each coordinate is put back before the next one is moved. So the quotients are
those of the point, and they can be looked at one by one.
-/

namespace Optima

variable {α : Type}

theorem Vec.set_set (v : Vec α) (i : Nat) (x y : α) : (v.set i x).set i y = v.set i y :=
  congrArg mk (List.set_set x)

theorem Vec.set_eq_self {v : Vec α} {i : Nat} {x : α} (h : v.toList[i]? = some x) :
    v.set i x = v := by
  obtain ⟨hi, rfl⟩ := List.getElem?_eq_some_iff.mp h
  exact congrArg mk (List.set_getElem_self hi)

variable [Scalar α] {f : Vec α → Except Fault α} {step : α} {point : Vec α}

/-- The difference quotient along a coordinate, as far as the point itself is concerned. -/
def partialDifference (f : Vec α → Except Fault α) (step : α) (point : Vec α) (i : Nat) (x : α) :
    Except Fault α := do
  let h := differenceStep step x
  let forward ← f (point.set i (x + h))
  let backward ← f (point.set i (x - h))
  let gap := 2.0 * h
  if Scalar.same gap 0 && !Scalar.less 1 (Scalar.magnitude x) then throw .divisionByZero
  return (forward - backward) / gap

/-- A difference quotient leaves the working copy as it was. -/
theorem differenceAlong_eq {i : Nat} {x : α} (h : point.toList[i]? = some x) :
    differenceAlong f step point i x =
      (do return (← partialDifference f step point i x, point)) := by
  have hback : point.set i x = point := Vec.set_eq_self h
  simp only [differenceAlong, partialDifference, Vec.set_set, hback, bind_assoc]
  refine bind_congr fun forward => bind_congr fun backward => ?_
  split <;> rfl

/-- All coordinates are moved from the point itself. -/
theorem differencesAlong_eq {coordinates : List (α × Nat)}
    (h : ∀ entry ∈ coordinates, point.toList[entry.2]? = some entry.1) :
    differencesAlong f step coordinates point =
      coordinates.mapM fun entry => partialDifference f step point entry.2 entry.1 := by
  induction coordinates with
  | nil => rfl
  | cons entry rest ih =>
      obtain ⟨hentry, hrest⟩ := List.forall_mem_cons.mp h
      rw [differencesAlong, differenceAlong_eq hentry, List.mapM_cons, bind_assoc]
      simp only [pure_bind, ih hrest]

/-- The gradient is made of difference quotients of the point itself. -/
theorem numericalGradient_eq :
    numericalGradient f step point = Vec.mk <$>
      point.toList.zipIdx.mapM fun entry => partialDifference f step point entry.2 entry.1 := by
  have hcoordinates : ∀ entry ∈ point.toList.zipIdx, point.toList[entry.2]? = some entry.1 :=
    fun entry hentry => List.mem_zipIdx_iff_getElem?.mp hentry
  rw [numericalGradient, differencesAlong_eq hcoordinates]
  rfl

end Optima
