import Optima.Proofs.Solver.Returns
import Optima.Proofs.Vector.Coordinates

/-!
Central differences in exact arithmetic. A difference quotient looks at a function in two points for
each coordinate, which differ from the given point in this coordinate only. If the function is a
parabola along each axis, the quotient is the slope of the parabola, whatever the step. Quadratic
functions are such, and so are the residuals of affine constraints.
-/

namespace Optima

open Matrix

variable {n : ℕ} {x : Fin n → ℝ} {step : ℝ}

/-- Along each axis through a point a function is a parabola, with the given
slope at the point. -/
def ParabolicAt (s : (Fin n → ℝ) → ℝ) (x slope : Fin n → ℝ) : Prop :=
  ∃ curvature : Fin n → ℝ, ∀ i t,
    s (Function.update x i (x i + t)) = s x + slope i * t + curvature i * t ^ 2

namespace ParabolicAt

theorem add {s s' : (Fin n → ℝ) → ℝ} {slope slope' : Fin n → ℝ} (h : ParabolicAt s x slope)
    (h' : ParabolicAt s' x slope') : ParabolicAt (fun y => s y + s' y) x (slope + slope') := by
  obtain ⟨curvature, hs⟩ := h
  obtain ⟨curvature', hs'⟩ := h'
  refine ⟨curvature + curvature', fun i t => ?_⟩
  simp only [hs, hs', Pi.add_apply]
  ring

theorem const_mul {s : (Fin n → ℝ) → ℝ} {slope : Fin n → ℝ} (h : ParabolicAt s x slope) (a : ℝ) :
    ParabolicAt (fun y => a * s y) x (a • slope) := by
  obtain ⟨curvature, hs⟩ := h
  refine ⟨a • curvature, fun i t => ?_⟩
  simp only [hs, Pi.smul_apply, smul_eq_mul]
  ring

theorem sum_map {β : Type} {s : β → (Fin n → ℝ) → ℝ} {slope : β → Fin n → ℝ} {members : List β}
    (h : ∀ e ∈ members, ParabolicAt (s e) x (slope e)) :
    ParabolicAt (fun y => (members.map fun e => s e y).sum) x (members.map slope).sum := by
  induction members with
  | nil => exact ⟨0, by simp⟩
  | cons e rest ih =>
      obtain ⟨he, hrest⟩ := List.forall_mem_cons.mp h
      simp only [List.map_cons, List.sum_cons]
      exact he.add (ih hrest)

end ParabolicAt

structure Affine (n : ℕ) where
  normal : Fin n → ℝ
  offset : ℝ

/-- A quadratic function. The matrix need not be symmetric. -/
structure Quadratic (n : ℕ) where
  matrix : Matrix (Fin n) (Fin n) ℝ
  linear : Fin n → ℝ
  constant : ℝ

def Affine.value (a : Affine n) (x : Fin n → ℝ) : ℝ := a.normal ⬝ᵥ x + a.offset

def Quadratic.value (q : Quadratic n) (x : Fin n → ℝ) : ℝ :=
  x ⬝ᵥ q.matrix *ᵥ x + q.linear ⬝ᵥ x + q.constant

def Quadratic.slope (q : Quadratic n) (x : Fin n → ℝ) : Fin n → ℝ :=
  (q.matrix + q.matrixᵀ) *ᵥ x + q.linear

theorem update_add_eq (x : Fin n → ℝ) (i : Fin n) (t : ℝ) :
    Function.update x i (x i + t) = x + Pi.single i t := by
  funext j
  rw [Function.update_apply, Pi.add_apply, Pi.single_apply]
  split
  · next h => rw [h]
  · rw [add_zero]

theorem Affine.value_add (a : Affine n) (x d : Fin n → ℝ) :
    a.value (x + d) = a.value x + a.normal ⬝ᵥ d := by
  rw [value, value, dotProduct_add]
  ring

theorem Affine.parabolicAt (a : Affine n) (x : Fin n → ℝ) : ParabolicAt a.value x a.normal := by
  refine ⟨0, fun i t => ?_⟩
  rw [update_add_eq, a.value_add, dotProduct_single, Pi.zero_apply, zero_mul, add_zero]

/-- Central differences see no third derivative, so quadratic functions are all they need to be
exact. -/
theorem Quadratic.parabolicAt (q : Quadratic n) (x : Fin n → ℝ) :
    ParabolicAt q.value x (q.slope x) := by
  refine ⟨fun i => q.matrix i i, fun i t => ?_⟩
  -- The matrix and its transpose meet the step from both sides.
  have hleft : Pi.single i t ⬝ᵥ q.matrix *ᵥ x = (q.matrix *ᵥ x) i * t := by
    rw [single_dotProduct, mul_comm]
  have hright : x ⬝ᵥ q.matrix *ᵥ Pi.single i t = (q.matrixᵀ *ᵥ x) i * t := by
    rw [dotProduct_mulVec, dotProduct_single, mulVec_transpose]
  have hboth : Pi.single i t ⬝ᵥ q.matrix *ᵥ Pi.single i t = q.matrix i i * t ^ 2 := by
    rw [single_dotProduct, mulVec_single]
    simp only [Pi.smul_apply, MulOpposite.smul_eq_mul_unop, MulOpposite.unop_op, Matrix.col_apply]
    ring
  rw [update_add_eq, value, mulVec_add, dotProduct_add, add_dotProduct, add_dotProduct, hleft,
    hright, hboth, dotProduct_add, dotProduct_single, value, slope, add_mulVec, Pi.add_apply,
    Pi.add_apply]
  ring

namespace Exact

theorem differenceStep_eq (step c : ℝ) : differenceStep step c = step * max 1 |c| := by
  rw [differenceStep, larger_eq]
  rfl

/-- A difference quotient is made of two values, as far apart as twice the step. -/
theorem partialDifference_ofFn {f : Vec ℝ → Except Fault ℝ} {i : Fin n} {forward backward : ℝ}
    (hstep : 0 < step)
    (hforward : f (Vec.ofFn (Function.update x i (x i + step * max 1 |x i|))) = .ok forward)
    (hbackward : f (Vec.ofFn (Function.update x i (x i - step * max 1 |x i|))) = .ok backward) :
    partialDifference f step (Vec.ofFn x) i (x i) =
      .ok ((forward - backward) / (2 * (step * max 1 |x i|))) := by
  have hgap := double_ne_zero (differenceStep_pos hstep (x i))
  rw [differenceStep_eq] at hgap
  simp only [partialDifference, Vec.set_ofFn, differenceStep_eq, bind_eq_ok, hgap]
  refine ⟨forward, hforward, backward, hbackward, ?_⟩
  norm_num [pure, Except.pure]

end Exact

/-- The difference quotients are taken one coordinate after the other. -/
theorem numericalGradient_ofFn (f : Vec ℝ → Except Fault ℝ) (step : ℝ) (x : Fin n → ℝ) :
    numericalGradient f step (Vec.ofFn x) = Vec.mk <$> (List.finRange n).mapM fun i : Fin n =>
      partialDifference f step (Vec.ofFn x) i (x i) := by
  have hcoordinates : (Vec.ofFn x).toList.zipIdx =
      (List.finRange n).map fun i => (x i, (i : ℕ)) := by
    apply List.ext_getElem
    · simp [Vec.ofFn]
    · intro i _ _
      simp [Vec.ofFn]
  rw [numericalGradient_eq, hcoordinates, List.mapM_map]
  rfl

/-- Nothing of a function matters but its values in two points for each coordinate. -/
theorem numericalGradient_local {f g : Vec ℝ → Except Fault ℝ}
    (h : ∀ i, f (Vec.ofFn (Function.update x i (x i + step * max 1 |x i|))) =
        g (Vec.ofFn (Function.update x i (x i + step * max 1 |x i|))) ∧
      f (Vec.ofFn (Function.update x i (x i - step * max 1 |x i|))) =
        g (Vec.ofFn (Function.update x i (x i - step * max 1 |x i|)))) :
    numericalGradient f step (Vec.ofFn x) = numericalGradient g step (Vec.ofFn x) := by
  have hslopes : (fun i : Fin n => partialDifference f step (Vec.ofFn x) i (x i)) =
      fun i : Fin n => partialDifference g step (Vec.ofFn x) i (x i) := by
    funext i
    simp only [partialDifference, Vec.set_ofFn, Exact.differenceStep_eq, (h i).1, (h i).2]
  rw [numericalGradient_ofFn, numericalGradient_ofFn, hslopes]

/-- The slope of a parabola is the quotient of a difference around the point. -/
theorem numericalGradient_of_parabolic {f : Vec ℝ → Except Fault ℝ} {s : (Fin n → ℝ) → ℝ}
    {slope : Fin n → ℝ} (hstep : 0 < step) (hf : ∀ y, f (Vec.ofFn y) = .ok (s y))
    (hs : ParabolicAt s x slope) :
    numericalGradient f step (Vec.ofFn x) = .ok (Vec.ofFn slope) := by
  obtain ⟨curvature, haxis⟩ := hs
  have hquotient (i : Fin n) :
      partialDifference f step (Vec.ofFn x) i (x i) = .ok (slope i) := by
    have hpos : 0 < step * max 1 |x i| :=
      mul_pos hstep (zero_lt_one.trans_le (le_max_left _ _))
    rw [Exact.partialDifference_ofFn hstep (hf _) (hf _), sub_eq_add_neg (x i), haxis, haxis]
    apply congrArg Except.ok
    field_simp
    ring
  rw [numericalGradient_ofFn, mapM_eq_map fun i _ => hquotient i, ← List.ofFn_eq_map]
  rfl

namespace Constraint

/-- At the points of a dimension the residual is affine, and its gradient is the
one that is given for it. -/
structure IsAffine (c : Constraint ℝ) (a : Affine n) : Prop where
  residual (y : Fin n → ℝ) : c.residual (Vec.ofFn y) = .ok (a.value y)
  gradient (y : Fin n → ℝ) : Lagrangian.knownGradient c (Vec.ofFn y) = .ok (Vec.ofFn a.normal)

namespace IsAffine

variable {c : Constraint ℝ} {a : Affine n}

theorem exists_gradient (h : c.IsAffine a) : ∃ gradient, c.gradient = some gradient ∧
    ∀ y : Fin n → ℝ, gradient (Vec.ofFn y) = .ok (Vec.ofFn a.normal) := by
  have hknown := h.gradient
  unfold Lagrangian.knownGradient at hknown
  cases hgradient : c.gradient with
  | some gradient =>
      rw [hgradient] at hknown
      exact ⟨gradient, rfl, hknown⟩
  | none =>
      rw [hgradient] at hknown
      cases hknown 0

/-- A known gradient is used as it is, whatever the step. -/
theorem gradientAt_eq (h : c.IsAffine a) (step : ℝ) (x : Fin n → ℝ) :
    c.gradientAt step (Vec.ofFn x) = .ok (Vec.ofFn a.normal) := by
  obtain ⟨gradient, hgradient, hknown⟩ := h.exists_gradient
  rw [gradientAt, hgradient]
  exact hknown x

/-- The differences of an affine residual are the gradient that would be given for it. -/
theorem numericalGradient_eq (h : c.IsAffine a) (hstep : 0 < step) (x : Fin n → ℝ) :
    numericalGradient c.residual step (Vec.ofFn x) = .ok (Vec.ofFn a.normal) :=
  numericalGradient_of_parabolic hstep h.residual (a.parabolicAt x)

end IsAffine

end Constraint

end Optima
