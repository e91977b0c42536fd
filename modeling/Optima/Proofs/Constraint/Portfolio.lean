import Optima.Proofs.Difference
import Optima.Proofs.Constraint.Violation
import Optima.Constraint.Portfolio

/-!
The constraints of portfolios in exact arithmetic. All but the limit on gross exposure are affine,
and the gradients they come with are their normals: a step changes the residual by the inner product
with the gradient, and central differences find the same gradient. Within a tolerance that is not
negative, a list of them is satisfied where each component lies within its bound.
-/

namespace Optima

open Matrix

variable {n : ℕ}

namespace Affine

/-- What component `i` lacks to reach the minimum. -/
def floor (minimum : ℝ) (i : Fin n) : Affine n := ⟨-Pi.single i 1, minimum⟩

/-- What component `i` has beyond the maximum. -/
def ceiling (maximum : ℝ) (i : Fin n) : Affine n := ⟨Pi.single i 1, -maximum⟩

theorem floor_value (minimum : ℝ) (i : Fin n) (y : Fin n → ℝ) :
    (floor minimum i).value y = minimum - y i := by
  rw [value, floor, neg_dotProduct, single_one_dotProduct]
  ring

theorem ceiling_value (maximum : ℝ) (i : Fin n) (y : Fin n → ℝ) :
    (ceiling maximum i).value y = y i - maximum := by
  rw [value, ceiling, single_one_dotProduct]
  ring

end Affine

namespace Constraint

section Satisfied

variable {tolerance : ℝ} {v : Vec ℝ} {cs : List (Constraint ℝ)}

/-- A list is satisfied where none of its violations exceeds the tolerance. -/
theorem allSatisfied_eq {violations : List ℝ}
    (h : List.Forall₂ (fun c amount => c.violation v = .ok amount) cs violations) :
    allSatisfied tolerance v cs = .ok (decide (∀ amount ∈ violations, amount ≤ tolerance)) := by
  induction h with
  | nil => exact congrArg Except.ok (decide_eq_true (by simp)).symm
  | @cons c amount cs violations hc _ ih =>
      have hfirst : c.isSatisfied tolerance v = .ok (decide (amount ≤ tolerance)) := by
        rw [isSatisfied, hc]
        rfl
      rw [allSatisfied, hfirst, ih]
      by_cases hwithin : amount ≤ tolerance
      · simp [hwithin, bind, Except.bind]
      · simp [hwithin, bind, Except.bind, pure, Except.pure]

/-- Inequalities that are affine at the points of a dimension, in order. -/
def AreHalfSpaces (cs : List (Constraint ℝ)) (as : List (Affine n)) : Prop :=
  List.Forall₂ (fun c a => c.relation = .inequality ∧ c.IsAffine a) cs as

/-- Each member of a family of half spaces has the gradient of its half space. -/
theorem AreHalfSpaces.isAffine {as : List (Affine n)} (h : AreHalfSpaces cs as) {c : Constraint ℝ}
    (hc : c ∈ cs) : ∃ a : Affine n, c.IsAffine a := by
  induction h with
  | nil => cases hc
  | @cons first a rest as hfirst _ ih =>
      rcases List.mem_cons.mp hc with rfl | hc
      · exact ⟨a, hfirst.2⟩
      · exact ih hc

/-- An inequality that holds is not violated at all, and zero is within every
tolerance as well as the negative residual is. -/
theorem AreHalfSpaces.allSatisfied_eq {as : List (Affine n)} (h : AreHalfSpaces cs as)
    (htolerance : 0 ≤ tolerance) {x : Fin n → ℝ} {within : Prop} [Decidable within]
    (hwithin : (∀ a ∈ as, a.value x ≤ tolerance) ↔ within) :
    allSatisfied tolerance (Vec.ofFn x) cs = .ok (decide within) := by
  have hviolations : List.Forall₂ (fun c amount => c.violation (Vec.ofFn x) = .ok amount) cs
      (as.map fun a => max (a.value x) 0) := by
    rw [List.forall₂_map_right_iff]
    refine List.Forall₂.imp ?_ h
    rintro c a ⟨hrelation, haffine⟩
    refine violation_eq_ok.mpr ⟨_, haffine.residual x, ?_⟩
    rw [hrelation]
    exact Exact.larger_eq _ _
  rw [Constraint.allSatisfied_eq hviolations]
  refine congrArg Except.ok (decide_eq_decide.mpr (Iff.trans ?_ hwithin))
  simp [htolerance]

end Satisfied

theorem axis_ofFn (i : Fin n) (y : Fin n → ℝ) :
    axis (i : ℕ) (Vec.ofFn y) = .ok (Vec.ofFn (Pi.single i 1)) := by
  rw [axis, Vec.size_ofFn, Vec.basis_eq_ofFn]

theorem downAxis_ofFn (i : Fin n) (y : Fin n → ℝ) :
    downAxis (i : ℕ) (Vec.ofFn y) = .ok (Vec.ofFn (-Pi.single i 1)) := by
  rw [downAxis, axis_ofFn, ← Vec.neg_ofFn]
  rfl

theorem budget_isAffine : (budget : Constraint ℝ).IsAffine (⟨fun _ => 1, -1⟩ : Affine n) where
  residual y := by
    have hvalue : budgetResidual (Vec.ofFn y) = (⟨fun _ => 1, -1⟩ : Affine n).value y := by
      rw [budgetResidual, Vec.sum_ofFn, Affine.value]
      simp only [dotProduct, one_mul]
      ring
    exact congrArg Except.ok hvalue
  gradient y := by
    change Except.ok (Vec.ones (Vec.ofFn y).size) = _
    rw [Vec.ones, Vec.size_ofFn, Vec.replicate_eq_ofFn]

theorem targetReturn_isAffine (returns : Fin n → ℝ) (target : ℝ) :
    (targetReturn (Vec.ofFn returns) target).IsAffine (⟨-returns, target⟩ : Affine n) where
  residual y := by
    have hvalue : (⟨-returns, target⟩ : Affine n).value y = target - y ⬝ᵥ returns := by
      rw [Affine.value, neg_dotProduct, dotProduct_comm]
      ring
    simp only [targetReturn, Vec.dot_ofFn, hvalue]
    rfl
  gradient y := congrArg Except.ok (Vec.neg_ofFn returns)

/-- A family with one member for each component. -/
theorem areHalfSpaces_range {member : ℕ → Constraint ℝ} {a : Fin n → Affine n}
    (h : ∀ i : Fin n, (member i).relation = .inequality ∧ (member i).IsAffine (a i)) :
    AreHalfSpaces ((List.range n).map member) ((List.finRange n).map a) := by
  rw [AreHalfSpaces, ← List.map_coe_finRange_eq_range, List.map_map, List.forall₂_map_left_iff,
    List.forall₂_map_right_iff, List.forall₂_same]
  exact fun i _ => h i

theorem nonNegativity_areHalfSpaces :
    AreHalfSpaces (nonNegativity n) ((List.finRange n).map (Affine.floor 0)) := by
  refine areHalfSpaces_range fun i => ⟨rfl, fun y => ?_, downAxis_ofFn i⟩
  simp only [Vec.get_ofFn, Affine.floor_value, zero_sub]
  rfl

theorem positionLimit_areHalfSpaces (maximum : ℝ) :
    AreHalfSpaces (positionLimit maximum n) ((List.finRange n).map (Affine.ceiling maximum)) := by
  refine areHalfSpaces_range fun i => ⟨rfl, fun y => ?_, axis_ofFn i⟩
  simp only [Vec.get_ofFn, Affine.ceiling_value]
  rfl

theorem positionMinimum_areHalfSpaces (minimum : ℝ) :
    AreHalfSpaces (positionMinimum minimum n) ((List.finRange n).map (Affine.floor minimum)) := by
  refine areHalfSpaces_range fun i => ⟨rfl, fun y => ?_, downAxis_ofFn i⟩
  simp only [Vec.get_ofFn, Affine.floor_value]
  rfl

theorem box_areHalfSpaces (minimum maximum : ℝ) :
    AreHalfSpaces (box minimum maximum n)
      ((List.finRange n).map (Affine.floor minimum) ++
        (List.finRange n).map (Affine.ceiling maximum)) :=
  List.rel_append (positionMinimum_areHalfSpaces minimum) (positionLimit_areHalfSpaces maximum)

section Sets

variable {tolerance : ℝ} (htolerance : 0 ≤ tolerance) (x : Fin n → ℝ)

/-- An equality holds on both sides: neither a shortfall nor an excess may go beyond the tolerance.
-/
theorem budget_allSatisfied :
    allSatisfied tolerance (Vec.ofFn x) [budget] = .ok (decide (|∑ i, x i - 1| ≤ tolerance)) := by
  have hviolation : (budget : Constraint ℝ).violation (Vec.ofFn x) = .ok |∑ i, x i - 1| := by
    rw [← Vec.sum_ofFn]
    rfl
  rw [allSatisfied_eq (.cons hviolation .nil)]
  simp only [List.forall_mem_singleton]

theorem forall_floor_iff (minimum : ℝ) :
    (∀ a ∈ (List.finRange n).map (Affine.floor minimum), a.value x ≤ tolerance) ↔
      ∀ i, minimum - tolerance ≤ x i := by
  rw [List.forall_mem_map]
  simp only [List.mem_finRange, forall_true_left, Affine.floor_value, sub_le_comm]

theorem forall_ceiling_iff (maximum : ℝ) :
    (∀ a ∈ (List.finRange n).map (Affine.ceiling maximum), a.value x ≤ tolerance) ↔
      ∀ i, x i ≤ maximum + tolerance := by
  rw [List.forall_mem_map]
  simp only [List.mem_finRange, forall_true_left, Affine.ceiling_value, sub_le_iff_le_add']

include htolerance

theorem leverageLimit_allSatisfied (maximum : ℝ) :
    allSatisfied tolerance (Vec.ofFn x) [leverageLimit maximum] =
      .ok (decide (∑ i, |x i| ≤ maximum + tolerance)) := by
  have hviolation : (leverageLimit maximum).violation (Vec.ofFn x) =
      .ok (max (∑ i, |x i| - maximum) 0) := by
    rw [← Vec.gross_ofFn, ← Exact.larger_eq]
    rfl
  rw [allSatisfied_eq (.cons hviolation .nil)]
  simp only [List.forall_mem_singleton, max_le_iff, htolerance, and_true, sub_le_iff_le_add']

theorem targetReturn_allSatisfied (returns : Fin n → ℝ) (target : ℝ) :
    allSatisfied tolerance (Vec.ofFn x) [targetReturn (Vec.ofFn returns) target] =
      .ok (decide (target - tolerance ≤ x ⬝ᵥ returns)) := by
  have hhalf : AreHalfSpaces [targetReturn (Vec.ofFn returns) target] [⟨-returns, target⟩] :=
    .cons ⟨rfl, targetReturn_isAffine returns target⟩ .nil
  apply hhalf.allSatisfied_eq htolerance
  rw [List.forall_mem_singleton, Affine.value, neg_dotProduct, dotProduct_comm, neg_add_eq_sub,
    sub_le_comm]

theorem nonNegativity_allSatisfied :
    allSatisfied tolerance (Vec.ofFn x) (nonNegativity n) =
      .ok (decide (∀ i, -tolerance ≤ x i)) := by
  apply nonNegativity_areHalfSpaces.allSatisfied_eq htolerance
  simp only [forall_floor_iff, zero_sub]

theorem positionLimit_allSatisfied (maximum : ℝ) :
    allSatisfied tolerance (Vec.ofFn x) (positionLimit maximum n) =
      .ok (decide (∀ i, x i ≤ maximum + tolerance)) :=
  (positionLimit_areHalfSpaces maximum).allSatisfied_eq htolerance (forall_ceiling_iff x maximum)

theorem positionMinimum_allSatisfied (minimum : ℝ) :
    allSatisfied tolerance (Vec.ofFn x) (positionMinimum minimum n) =
      .ok (decide (∀ i, minimum - tolerance ≤ x i)) :=
  (positionMinimum_areHalfSpaces minimum).allSatisfied_eq htolerance (forall_floor_iff x minimum)

theorem box_allSatisfied (minimum maximum : ℝ) :
    allSatisfied tolerance (Vec.ofFn x) (box minimum maximum n) =
      .ok (decide (∀ i, minimum - tolerance ≤ x i ∧ x i ≤ maximum + tolerance)) := by
  apply (box_areHalfSpaces minimum maximum).allSatisfied_eq htolerance
  rw [List.forall_mem_append, forall_floor_iff, forall_ceiling_iff, forall_and]

end Sets

/-- The same constraint where its gradient is not known, so that differences of
the residual are taken. -/
def withoutGradient (c : Constraint ℝ) : Constraint ℝ := { c with gradient := none }

/-- The known gradient is the one that differences find, and it tells how the
residual changes. -/
theorem IsAffine.gradient_exact {c : Constraint ℝ} {a : Affine n} (h : c.IsAffine a) {step : ℝ}
    (hstep : 0 < step) (x : Fin n → ℝ) :
    ∃ slope : Fin n → ℝ, ∃ r, c.gradient.isSome = true ∧
      c.gradientAt step (Vec.ofFn x) = .ok (Vec.ofFn slope) ∧
      c.withoutGradient.gradientAt step (Vec.ofFn x) = .ok (Vec.ofFn slope) ∧
      c.residual (Vec.ofFn x) = .ok r ∧
      ∀ d, c.residual (Vec.ofFn (x + d)) = .ok (r + slope ⬝ᵥ d) := by
  obtain ⟨gradient, hgradient, -⟩ := h.exists_gradient
  refine ⟨a.normal, a.value x, by rw [hgradient, Option.isSome_some], h.gradientAt_eq step x,
    h.numericalGradient_eq hstep x, h.residual x, fun d => ?_⟩
  rw [h.residual, a.value_add]

end Constraint

open Constraint in
/-- The gradients of the affine constraints of portfolios are exact, and each list
is satisfied on the set that it is named for, up to the tolerance. -/
theorem portfolio_constraints_exact (x returns : Fin n → ℝ) (minimum maximum target : ℝ)
    {step tolerance : ℝ} (hstep : 0 < step) (htolerance : 0 ≤ tolerance) :
    (∀ c ∈ budget :: targetReturn (Vec.ofFn returns) target :: (nonNegativity n ++
        positionLimit maximum n ++ positionMinimum minimum n ++ box minimum maximum n),
      ∃ slope : Fin n → ℝ, ∃ r, c.gradient.isSome = true ∧
        c.gradientAt step (Vec.ofFn x) = .ok (Vec.ofFn slope) ∧
        c.withoutGradient.gradientAt step (Vec.ofFn x) = .ok (Vec.ofFn slope) ∧
        c.residual (Vec.ofFn x) = .ok r ∧
        ∀ d, c.residual (Vec.ofFn (x + d)) = .ok (r + slope ⬝ᵥ d)) ∧
    allSatisfied tolerance (Vec.ofFn x) [budget] =
      .ok (decide (|∑ i, x i - 1| ≤ tolerance)) ∧
    allSatisfied tolerance (Vec.ofFn x) (nonNegativity n) =
      .ok (decide (∀ i, -tolerance ≤ x i)) ∧
    allSatisfied tolerance (Vec.ofFn x) (positionLimit maximum n) =
      .ok (decide (∀ i, x i ≤ maximum + tolerance)) ∧
    allSatisfied tolerance (Vec.ofFn x) (positionMinimum minimum n) =
      .ok (decide (∀ i, minimum - tolerance ≤ x i)) ∧
    allSatisfied tolerance (Vec.ofFn x) (box minimum maximum n) =
      .ok (decide (∀ i, minimum - tolerance ≤ x i ∧ x i ≤ maximum + tolerance)) ∧
    allSatisfied tolerance (Vec.ofFn x) [targetReturn (Vec.ofFn returns) target] =
      .ok (decide (target - tolerance ≤ x ⬝ᵥ returns)) ∧
    allSatisfied tolerance (Vec.ofFn x) [leverageLimit maximum] =
      .ok (decide (∑ i, |x i| ≤ maximum + tolerance)) := by
  have hfamilies := List.rel_append (List.rel_append (List.rel_append
    (nonNegativity_areHalfSpaces (n := n)) (positionLimit_areHalfSpaces maximum))
    (positionMinimum_areHalfSpaces minimum)) (box_areHalfSpaces minimum maximum)
  refine ⟨fun c hc => ?_, budget_allSatisfied x, nonNegativity_allSatisfied htolerance x,
    positionLimit_allSatisfied htolerance x maximum,
    positionMinimum_allSatisfied htolerance x minimum,
    box_allSatisfied htolerance x minimum maximum,
    targetReturn_allSatisfied htolerance x returns target,
    leverageLimit_allSatisfied htolerance x maximum⟩
  rcases List.mem_cons.mp hc with rfl | hc
  · exact budget_isAffine.gradient_exact hstep x
  rcases List.mem_cons.mp hc with rfl | hc
  · exact (targetReturn_isAffine returns target).gradient_exact hstep x
  · obtain ⟨a, ha⟩ := AreHalfSpaces.isAffine hfamilies hc
    exact ha.gradient_exact hstep x

open Constraint in
/-- The positions sum to a tenth too much and one exceeds its limit by a tenth,
both of which the tolerance allows; their gross exposure is out of its reach. -/
theorem tilted_portfolio_within_tolerance :
    (0 : ℝ) < 2⁻¹ ∧ (0 : ℝ) ≤ 1 / 10 ∧
      (∀ c ∈ positionLimit (1 / 2 : ℝ) 2, ∃ slope : Fin 2 → ℝ,
        c.gradientAt 2⁻¹ (Vec.ofFn ![3 / 5, 1 / 2]) = .ok (Vec.ofFn slope) ∧
        c.withoutGradient.gradientAt 2⁻¹ (Vec.ofFn ![3 / 5, 1 / 2]) = .ok (Vec.ofFn slope)) ∧
      allSatisfied (1 / 10 : ℝ) (Vec.ofFn ![3 / 5, 1 / 2]) [budget] = .ok true ∧
      allSatisfied (1 / 10 : ℝ) (Vec.ofFn ![3 / 5, 1 / 2]) (box 0 (1 / 2) 2) = .ok true ∧
      allSatisfied (1 / 10 : ℝ) (Vec.ofFn ![3 / 5, 1 / 2]) [leverageLimit (1 / 2)] =
        .ok false := by
  have hstep : (0 : ℝ) < 2⁻¹ := by norm_num
  have htolerance : (0 : ℝ) ≤ 1 / 10 := by norm_num
  obtain ⟨hgradients, hbudget, -, -, -, hbox, -, hleverage⟩ :=
    portfolio_constraints_exact ![3 / 5, 1 / 2] ![1, 2] 0 (1 / 2) 1 hstep htolerance
  refine ⟨hstep, htolerance, fun c hc => ?_, hbudget.trans ?_, hbox.trans ?_, hleverage.trans ?_⟩
  · obtain ⟨slope, -, -, hknown, hdifferences, -⟩ := hgradients c (by
      simp only [List.mem_cons, List.mem_append, hc, true_or, or_true])
    exact ⟨slope, hknown, hdifferences⟩
  · refine congrArg Except.ok (decide_eq_true ?_)
    norm_num [Fin.sum_univ_two, abs_le]
  · refine congrArg Except.ok (decide_eq_true ?_)
    norm_num [Fin.forall_fin_two]
  · refine congrArg Except.ok (decide_eq_false ?_)
    norm_num [Fin.sum_univ_two, abs_of_pos]

end Optima
