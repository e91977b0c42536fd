import Mathlib
import Optima.Proofs.Scalar.Real
import Optima.Proofs.Solver.CallerOrder

/-!
The value of the augmented Lagrangian in exact arithmetic. The two groups are summed in one pass
over the constraints: with `m` the multiplier before and `s` the multiplier after an update, a
constraint of either relation with residual `r` adds

  s * r - (s - m)^2 / (2 * penalty).
-/

namespace Optima.Lagrangian

open Entry

noncomputable def term (penalty : ℝ) (e : Entry ℝ) : ℝ :=
  shift penalty e * e.residual - (shift penalty e - e.multiplier) ^ 2 / (2.0 * penalty)

theorem term_eq (penalty : ℝ) (e : Entry ℝ) :
    term penalty e =
      shift penalty e * e.residual - (shift penalty e - e.multiplier) ^ 2 / (2 * penalty) := by
  norm_num [term]

theorem shift_equality {penalty : ℝ} {e : Entry ℝ} (h : e.constraint.relation = .equality) :
    shift penalty e = e.multiplier + penalty * e.residual :=
  shift_of_equality h

theorem shift_inequality {penalty : ℝ} {e : Entry ℝ} (h : e.constraint.relation = .inequality) :
    shift penalty e = max 0 (e.multiplier + penalty * e.residual) := by
  rw [shift_of_inequality h]
  exact Exact.maximum_eq _ _

theorem term_equality {penalty : ℝ} (hpenalty : penalty ≠ 0) {e : Entry ℝ}
    (h : e.constraint.relation = .equality) :
    term penalty e = e.multiplier * e.residual + 0.5 * penalty * (e.residual * e.residual) := by
  rw [term_eq, shift_equality h]
  field_simp
  ring

/-- Completing the square: the term depends on the residual through the shifted multiplier only. -/
theorem term_inequality {penalty : ℝ} (hpenalty : penalty ≠ 0) {e : Entry ℝ}
    (h : e.constraint.relation = .inequality) :
    term penalty e =
      (shift penalty e * shift penalty e - e.multiplier * e.multiplier) / (2 * penalty) := by
  rw [term_eq, shift_inequality h]
  rcases le_total (e.multiplier + penalty * e.residual) 0 with hle | hle
  · rw [max_eq_left hle]
    ring
  · rw [max_eq_right hle]
    field_simp
    ring

private theorem equalityTerm_eq {penalty : ℝ} (hpenalty : penalty ≠ 0) (group : List (Entry ℝ))
    (h : ∀ e ∈ group, e.constraint.relation = .equality) :
    equalityTerm penalty (group.map (·.multiplier)) (group.map (·.residual)) =
      (group.map (term penalty)).sum := by
  have hterm : group.map (term penalty) =
      group.map fun e => e.multiplier * e.residual + 0.5 * penalty * (e.residual * e.residual) :=
    List.map_congr_left fun e he => term_equality hpenalty (h e he)
  unfold equalityTerm
  rw [hterm, List.sum_map_add, List.sum_map_mul_left, Exact.dot_map, Exact.dot_map]

private theorem inequalityTerm_eq {penalty : ℝ} (hpenalty : penalty ≠ 0) (group : List (Entry ℝ))
    (h : ∀ e ∈ group, e.constraint.relation = .inequality) :
    inequalityTerm penalty (group.map (·.multiplier)) (group.map (·.residual)) =
      .ok (group.map (term penalty)).sum := by
  have hshifted : List.zipWith (inequalityShift penalty) (group.map (·.multiplier))
      (group.map (·.residual)) = group.map (shift penalty) := by
    rw [List.zipWith_map, List.zipWith_self]
    exact List.map_congr_left fun e he => (shift_of_inequality (h e he)).symm
  have hdivisor : Scalar.same (2.0 * penalty) 0 = false := by
    rw [← Bool.not_eq_true, Exact.same_iff]
    exact mul_ne_zero (by norm_num) hpenalty
  have hterm : group.map (term penalty) = group.map fun e =>
      (shift penalty e * shift penalty e - e.multiplier * e.multiplier) * (2 * penalty)⁻¹ :=
    List.map_congr_left fun e he => term_inequality hpenalty (h e he)
  simp only [inequalityTerm, hshifted, hdivisor, Bool.false_eq_true, if_false, Exact.dot_map]
  rw [hterm, List.sum_map_mul_right, Exact.sum_map_sub, div_eq_mul_inv]
  norm_num

/-- The value is the signed objective and what the constraints add to it, one
after the other in the caller's order. -/
theorem Lists.value_eq {L : Lagrangian ℝ} {x : Vec ℝ} {entries : List (Entry ℝ)}
    (h : L.Lists x entries) (hpenalty : L.penalty ≠ 0) {f : ℝ}
    (hobjective : L.problem.objective x = .ok f) :
    L.value x = .ok (L.problem.weight * f + (entries.map (term L.penalty)).sum) := by
  have hequalities := equalityTerm_eq hpenalty (entries.filter (·.isEquality))
    fun e he => relation_of_mem_equalities he
  have hinequalities := inequalityTerm_eq hpenalty (entries.filter (!·.isEquality))
    fun e he => relation_of_mem_inequalities he
  simp only [value, bind_eq_ok]
  refine ⟨f, hobjective, _, h.residuals_eq, ?_⟩
  simp only [combine, h.multipliers, sorted, hinequalities, hequalities]
  rw [← sum_sorted (term L.penalty) entries, ← add_assoc]
  -- A group without members adds nothing, so it does not matter that it is passed over.
  generalize entries.filter (·.isEquality) = equalities
  generalize entries.filter (!·.isEquality) = inequalities
  cases inequalities with
  | nil => cases equalities <;> simp [pure, Except.pure]
  | cons _ _ => cases equalities <;> simp [bind, Except.bind, pure, Except.pure]

end Optima.Lagrangian
