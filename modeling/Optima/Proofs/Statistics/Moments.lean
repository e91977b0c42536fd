import Mathlib.Algebra.Order.BigOperators.Group.List
import Mathlib.Data.Set.Finite.Lattice
import Optima.Proofs.Statistics.Weights
import Optima.Proofs.Success

/-!
Laws of weighted statistics in exact arithmetic. The mean and the variance are quotients of moments:
sums of a quantity over all values, each of which counts with its probability, divided by the total
of the probabilities. Values that cannot occur add nothing to a moment, so it does not matter that
they are left out.
-/

namespace Optima

/-- A value that stands beside a positive probability. -/
def Occurs (probabilities values : List ℝ) (v : ℝ) : Prop :=
  ∃ p, 0 < p ∧ (p, v) ∈ probabilities.zip values

noncomputable def moment (probabilities values : List ℝ) (f : ℝ → ℝ) : ℝ :=
  ((probabilities.zip values).map fun e => e.1 * f e.2).sum

section Moments

variable {probabilities values : List ℝ} {f g : ℝ → ℝ}

theorem moment_add : moment probabilities values (fun v => f v + g v) =
    moment probabilities values f + moment probabilities values g := by
  unfold moment
  rw [← List.sum_map_add]
  simp only [mul_add]

theorem moment_mul (c : ℝ) :
    moment probabilities values (fun v => c * f v) = c * moment probabilities values f := by
  unfold moment
  rw [← List.sum_map_mul_left]
  simp only [mul_left_comm]

theorem moment_const (hlength : values.length = probabilities.length) (c : ℝ) :
    moment probabilities values (fun _ => c) = c * probabilities.sum := by
  have hprobabilities : (probabilities.zip values).map Prod.fst = probabilities :=
    List.map_fst_zip hlength.ge
  unfold moment
  rw [List.sum_map_mul_right, hprobabilities, mul_comm]

section Nonneg

variable (hprobabilities : ∀ p ∈ probabilities, 0 ≤ p)
  (hf : ∀ v, Occurs probabilities values v → 0 ≤ f v)

include hprobabilities hf

theorem moment_member_nonneg {e : ℝ × ℝ} (he : e ∈ probabilities.zip values) : 0 ≤ e.1 * f e.2 := by
  rcases (hprobabilities e.1 (List.of_mem_zip he).1).eq_or_lt with hzero | hpos
  · rw [← hzero, zero_mul]
  · exact mul_nonneg hpos.le (hf e.2 ⟨e.1, hpos, he⟩)

theorem moment_nonneg : 0 ≤ moment probabilities values f := by
  apply List.sum_nonneg
  rw [List.forall_mem_map]
  exact fun e he => moment_member_nonneg hprobabilities hf he

/-- A moment vanishes if the quantity does for all values that can occur. -/
theorem moment_eq_zero_iff :
    moment probabilities values f = 0 ↔ ∀ v, Occurs probabilities values v → f v = 0 := by
  constructor
  · rintro hmoment v ⟨p, hp, hmember⟩
    have hmembers : ∀ x ∈ (probabilities.zip values).map fun e => e.1 * f e.2, 0 ≤ x := by
      rw [List.forall_mem_map]
      exact fun e he => moment_member_nonneg hprobabilities hf he
    have hproduct : p * f v = 0 :=
      List.all_zero_of_le_zero_le_of_sum_eq_zero hmembers hmoment
        (List.mem_map.mpr ⟨(p, v), hmember, rfl⟩)
    exact (mul_eq_zero.mp hproduct).resolve_left hp.ne'
  · intro hzero
    apply List.sum_eq_zero
    rw [List.forall_mem_map]
    intro e he
    rcases (hprobabilities e.1 (List.of_mem_zip he).1).eq_or_lt with hnone | hpos
    · rw [← hnone, zero_mul]
    · rw [hzero e.2 ⟨e.1, hpos, he⟩, mul_zero]

end Nonneg

end Moments

theorem possible_map_values {α β γ : Type} [Scalar α] (probabilities : List α) (values : List β)
    (f : β → γ) :
    possible probabilities (values.map f) = (possible probabilities values).map f := by
  unfold possible
  rw [List.zip_map_right, List.filter_map, List.map_map, List.map_map]
  rfl

/-- Of pairs, those with a positive probability are kept on both sides. -/
theorem filter_isPossible_eq {α β : Type} [Scalar α] {probabilities : List α} {values : List β}
    (hlength : values.length = probabilities.length) :
    probabilities.filter isPossible =
      ((probabilities.zip values).filter fun e => isPossible e.1).map Prod.fst := by
  have hfirst : (probabilities.zip values).map Prod.fst = probabilities :=
    List.map_fst_zip hlength.ge
  conv_lhs => rw [← hfirst, List.filter_map]
  rfl

theorem mem_possible {probabilities values : List ℝ} {v : ℝ} :
    v ∈ possible probabilities values ↔ Occurs probabilities values v := by
  simp only [possible, List.mem_map, List.mem_filter, Exact.isPossible_iff, Occurs]
  constructor
  · rintro ⟨⟨p, w⟩, ⟨hmember, hp⟩, rfl⟩
    exact ⟨p, hp, hmember⟩
  · rintro ⟨p, hp, hmember⟩
    exact ⟨(p, v), ⟨hmember, hp⟩, rfl⟩

/-- A single positive probability leaves a single value that can occur. -/
theorem subsingleton_of_length_one {probabilities values : List ℝ}
    (hlength : values.length = probabilities.length)
    (hone : (probabilities.filter (0 < ·)).length = 1) :
    {v | Occurs probabilities values v}.Subsingleton := by
  have hpossible : (possible probabilities values).length = 1 := by
    change (probabilities.filter isPossible).length = 1 at hone
    rw [filter_isPossible_eq hlength, List.length_map] at hone
    rwa [possible, List.length_map]
  obtain ⟨u, hu⟩ := List.length_eq_one_iff.mp hpossible
  intro v hv w hw
  have hv' := mem_possible.mpr hv
  have hw' := mem_possible.mpr hw
  rw [hu, List.mem_singleton] at hv' hw'
  rw [hv', hw']

section Weighted

variable {probabilities values weights : List ℝ}
  (hlength : values.length = probabilities.length)
  (hweights : normalizedWeights probabilities = .ok weights)

include hlength hweights

/-- A weighted sum over what can occur is a moment divided by the total. -/
theorem sum_weights (f : ℝ → ℝ) :
    (List.zipWith (fun w v => w * f v) weights (possible probabilities values)).sum =
      moment probabilities values f / probabilities.sum := by
  obtain ⟨hnonneg, -, rfl⟩ := Exact.normalizedWeights_eq_ok.mp hweights
  have himpossible : ∀ e ∈ probabilities.zip values, isPossible e.1 = false →
      e.1 / probabilities.sum * f e.2 = 0 := by
    intro e he hnone
    rw [Exact.eq_zero_of_not_isPossible (hnonneg e.1 (List.of_mem_zip he).1) hnone, zero_div,
      zero_mul]
  rw [possible, filter_isPossible_eq hlength, List.map_map, List.zipWith_map, List.zipWith_self]
  refine (sum_filter_eq himpossible).trans ?_
  rw [moment, div_eq_mul_inv, ← List.sum_map_mul_right]
  refine congrArg List.sum (List.map_congr_left ?_)
  intro e _
  ring

theorem weightsFor_map (f : ℝ → ℝ) : weightsFor (values.map f) probabilities = .ok weights := by
  rw [weightsFor, List.length_map, hlength, beq_self_eq_true]
  exact hweights

/-- Values without probability add nothing to either sum. -/
theorem meanOf_possible (f : ℝ → ℝ) :
    meanOf weights (possible probabilities (values.map f)) =
      moment probabilities values f / probabilities.sum := by
  rw [meanOf, possible_map_values, List.zipWith_map_right, Exact.total_eq,
    sum_weights hlength hweights]

theorem weightedMean_eq (f : ℝ → ℝ) :
    weightedMean (values.map f) probabilities =
      .ok (moment probabilities values f / probabilities.sum) := by
  simp only [weightedMean, weightsFor_map hlength hweights, bind_eq_ok, pure_eq_ok]
  exact ⟨weights, rfl, meanOf_possible hlength hweights f⟩

theorem weightedVariance_eq (f : ℝ → ℝ) :
    weightedVariance (values.map f) probabilities =
      .ok (moment probabilities values
        (fun v => (f v - moment probabilities values f / probabilities.sum) ^ 2) /
          probabilities.sum) := by
  simp only [weightedVariance, weightsFor_map hlength hweights, bind_eq_ok, pure_eq_ok]
  refine ⟨weights, rfl, ?_⟩
  simp only [varianceOf, meanOf_possible hlength hweights, mul_assoc, ← sq]
  rw [possible_map_values, List.zipWith_map_right, Exact.total_eq, sum_weights hlength hweights]

omit hlength in
/-- The weights are positive shares, one for each positive probability. -/
theorem weights_shares :
    List.Forall₂ (fun p w => 0 < w ∧ w * probabilities.sum = p) (probabilities.filter (0 < ·))
      weights ∧ weights.sum = 1 := by
  obtain ⟨hnonneg, htotal, rfl⟩ := Exact.normalizedWeights_eq_ok.mp hweights
  constructor
  · change List.Forall₂ _ (probabilities.filter isPossible) _
    rw [List.forall₂_map_right_iff, List.forall₂_same]
    intro p hp
    have hpos : 0 < p := (Exact.isPossible_iff p).mp (List.mem_filter.mp hp).2
    exact ⟨div_pos hpos htotal, div_mul_cancel₀ p htotal.ne'⟩
  · have hkept : ((probabilities.filter isPossible).map (· / probabilities.sum)).sum =
        (probabilities.map (· / probabilities.sum)).sum :=
      sum_filter_eq fun p hp hnone => by
        rw [Exact.eq_zero_of_not_isPossible (hnonneg p hp) hnone, zero_div]
    simp only [div_eq_mul_inv] at hkept ⊢
    rw [hkept, List.sum_map_mul_right, List.map_id', mul_inv_cancel₀ htotal.ne']

/-- The mean is between the least and the greatest value that can occur. -/
theorem mean_between :
    ∃ least greatest, IsLeast {v | Occurs probabilities values v} least ∧
      IsGreatest {v | Occurs probabilities values v} greatest ∧
      least ≤ moment probabilities values (fun v => v) / probabilities.sum ∧
      moment probabilities values (fun v => v) / probabilities.sum ≤ greatest := by
  obtain ⟨hnonneg, htotal, -⟩ := Exact.normalizedWeights_eq_ok.mp hweights
  have hfinite : {v | Occurs probabilities values v}.Finite := by
    refine values.finite_toSet.subset ?_
    rintro v ⟨p, -, hmember⟩
    exact (List.of_mem_zip hmember).2
  have hnonempty : {v | Occurs probabilities values v}.Nonempty := by
    rw [Set.nonempty_iff_ne_empty]
    intro hempty
    have hone : moment probabilities values (fun _ => 1) = 0 := by
      rw [moment_eq_zero_iff hnonneg fun _ _ => zero_le_one]
      intro v hv
      have hnone : v ∈ (∅ : Set ℝ) := hempty ▸ hv
      exact hnone.elim
    rw [moment_const hlength, one_mul] at hone
    exact htotal.ne' hone
  obtain ⟨least, hleast, hlower⟩ := Set.exists_min_image _ id hfinite hnonempty
  obtain ⟨greatest, hgreatest, hupper⟩ := Set.exists_max_image _ id hfinite hnonempty
  refine ⟨least, greatest, ⟨hleast, hlower⟩, ⟨hgreatest, hupper⟩, ?_, ?_⟩
  · rw [le_div_iff₀ htotal, ← moment_const hlength]
    have hrest := moment_nonneg (f := fun v => v + -least) hnonneg fun v hv => by
      linarith [hlower v hv, id_eq v, id_eq least]
    rw [moment_add, moment_const hlength] at hrest
    rw [moment_const hlength]
    linarith
  · rw [div_le_iff₀ htotal]
    have hrest := moment_nonneg (f := fun v => greatest + -1 * v) hnonneg fun v hv => by
      linarith [hupper v hv, id_eq v, id_eq greatest]
    rw [moment_add, moment_mul, moment_const hlength] at hrest
    linarith

/-- The mean squared deviation vanishes if no two different values can occur. -/
theorem deviation_eq_zero_iff {mean : ℝ}
    (hmean : mean = moment probabilities values (fun v => v) / probabilities.sum) :
    moment probabilities values (fun v => (v - mean) ^ 2) / probabilities.sum = 0 ↔
      {v | Occurs probabilities values v}.Subsingleton := by
  obtain ⟨hnonneg, htotal, -⟩ := Exact.normalizedWeights_eq_ok.mp hweights
  rw [div_eq_zero_iff, or_iff_left htotal.ne', moment_eq_zero_iff hnonneg fun _ _ => sq_nonneg _]
  constructor
  · intro hzero v hv w hw
    have hv' := sub_eq_zero.mp (pow_eq_zero_iff two_ne_zero |>.mp (hzero v hv))
    have hw' := sub_eq_zero.mp (pow_eq_zero_iff two_ne_zero |>.mp (hzero w hw))
    rw [hv', hw']
  · intro hsingle v hv
    have hshift : moment probabilities values (fun w => w + -v) = 0 := by
      have hall : ∀ w, Occurs probabilities values w → w + -v = 0 := by
        intro w hw
        rw [hsingle hw hv, add_neg_cancel]
      rw [moment_eq_zero_iff hnonneg fun w hw => (hall w hw).ge]
      exact hall
    rw [moment_add, moment_const hlength] at hshift
    have hsame : mean = v := by
      rw [hmean, div_eq_iff htotal.ne']
      linarith
    rw [hsame, sub_self, sq, mul_zero]

theorem moment_affine (a b : ℝ) :
    moment probabilities values (fun v => a * v + b) / probabilities.sum =
      a * (moment probabilities values (fun v => v) / probabilities.sum) + b := by
  obtain ⟨-, htotal, -⟩ := Exact.normalizedWeights_eq_ok.mp hweights
  rw [moment_add, moment_mul, moment_const hlength]
  field_simp

/-- The mean squared deviation is the mean square less the square of the mean. -/
theorem moment_deviation {mean : ℝ}
    (hmean : mean = moment probabilities values (fun v => v) / probabilities.sum) :
    moment probabilities values (fun v => (v - mean) ^ 2) / probabilities.sum =
      moment probabilities values (fun v => v ^ 2) / probabilities.sum - mean ^ 2 := by
  obtain ⟨-, htotal, -⟩ := Exact.normalizedWeights_eq_ok.mp hweights
  have hexpanded (v : ℝ) : (v - mean) ^ 2 = v ^ 2 + (-(2 * mean) * v + mean ^ 2) := by ring
  have hfirst : moment probabilities values (fun v => v) = mean * probabilities.sum := by
    rw [hmean, div_mul_cancel₀ _ htotal.ne']
  simp only [hexpanded]
  rw [moment_add, moment_add, moment_mul, moment_const hlength, hfirst]
  field_simp
  ring

/-- A shift leaves the variance alone, and a factor counts twice. -/
theorem weightedVariance_affine (a b : ℝ) {variance : ℝ}
    (hvariance : weightedVariance values probabilities = .ok variance) :
    weightedVariance (values.map fun v => a * v + b) probabilities = .ok (a ^ 2 * variance) := by
  have hplain := weightedVariance_eq hlength hweights fun v => v
  rw [List.map_id', hvariance] at hplain
  have hdeviation (v mean : ℝ) : (a * v + b - (a * mean + b)) ^ 2 = a ^ 2 * (v - mean) ^ 2 := by
    ring
  rw [weightedVariance_eq hlength hweights, moment_affine hlength hweights, Except.ok.inj hplain]
  simp only [hdeviation]
  rw [moment_mul, mul_div_assoc]

end Weighted

/-- Weights are refused exactly for lists with a probability that is negative or
not finite or without a positive one, on doubles as in exact arithmetic. In exact
arithmetic they are otherwise positive shares of one, the mean lies between the
least and the greatest value that can occur, the variance is the mean square less
the square of the mean, vanishes only if no two different values can occur, and
both follow affine changes of the values. -/
theorem weighted_statistics_laws :
    (∀ probabilities : List Float,
      ((∃ cause, normalizedWeights probabilities = .error (.misuse cause)) ↔
        Unweighable probabilities) ∧
      ((∃ weights, normalizedWeights probabilities = .ok weights) ↔
        ¬ Unweighable probabilities)) ∧
    ∀ probabilities values : List ℝ, values.length = probabilities.length →
      ((∃ cause, normalizedWeights probabilities = .error (.misuse cause)) ↔
        Unweighable probabilities) ∧
      (¬ Unweighable probabilities → ∃ weights mean variance,
        normalizedWeights probabilities = .ok weights ∧
        List.Forall₂ (fun p w => 0 < w ∧ w * probabilities.sum = p)
          (probabilities.filter (0 < ·)) weights ∧
        weights.sum = 1 ∧
        weightedMean values probabilities = .ok mean ∧
        weightedVariance values probabilities = .ok variance ∧
        (∃ least greatest, IsLeast {v | Occurs probabilities values v} least ∧
          IsGreatest {v | Occurs probabilities values v} greatest ∧
          least ≤ mean ∧ mean ≤ greatest) ∧
        (∃ square, weightedMean (values.map (· ^ 2)) probabilities = .ok square ∧
          variance = square - mean ^ 2) ∧
        0 ≤ variance ∧
        (variance = 0 ↔ {v | Occurs probabilities values v}.Subsingleton) ∧
        ((probabilities.filter (0 < ·)).length = 1 → variance = 0) ∧
        ∀ a b, weightedMean (values.map fun v => a * v + b) probabilities =
            .ok (a * mean + b) ∧
          weightedVariance (values.map fun v => a * v + b) probabilities =
            .ok (a ^ 2 * variance)) := by
  refine ⟨fun probabilities => ?_, fun probabilities values hlength => ⟨?_, ?_⟩⟩
  · have hadd : ∀ x y : Float, Scalar.less 0 x = true → Scalar.less 0 y = true →
        Scalar.less 0 (x + y) = true := fun _ _ => Binary64.add_positive
    exact ⟨normalizedWeights_refuses_iff hadd probabilities,
      normalizedWeights_returns_iff hadd probabilities⟩
  · exact normalizedWeights_refuses_iff (fun _ _ => Exact.add_positive) probabilities
  · intro hweighable
    obtain ⟨weights, hweights⟩ :=
      (normalizedWeights_returns_iff (fun _ _ => Exact.add_positive) probabilities).mpr hweighable
    obtain ⟨hnonneg, htotal, -⟩ := Exact.normalizedWeights_eq_ok.mp hweights
    have hmean := weightedMean_eq hlength hweights fun v => v
    have hvariance := weightedVariance_eq hlength hweights fun v => v
    rw [List.map_id'] at hmean hvariance
    have hzero := deviation_eq_zero_iff hlength hweights rfl
    obtain ⟨hshares, hone⟩ := weights_shares hweights
    refine ⟨weights, _, _, hweights, hshares, hone, hmean, hvariance,
      mean_between hlength hweights, ?_, ?_, hzero, ?_, fun a b => ⟨?_, ?_⟩⟩
    · exact ⟨_, weightedMean_eq hlength hweights _, moment_deviation hlength hweights rfl⟩
    · exact div_nonneg (moment_nonneg hnonneg fun _ _ => sq_nonneg _) htotal.le
    · exact fun hsingle => hzero.mpr (subsingleton_of_length_one hlength hsingle)
    · rw [weightedMean_eq hlength hweights, moment_affine hlength hweights]
    · exact weightedVariance_affine hlength hweights a b hvariance

theorem worn_coin_weighable : ¬ Unweighable [(0.5 : ℝ), 0, 0.25] := by
  rintro (⟨p, hp, hbad⟩ | hnone)
  · have hnegative : p < 0 := by simpa [Scalar.isFinite] using hbad
    simp only [List.mem_cons, List.not_mem_nil, or_false] at hp
    rcases hp with rfl | rfl | rfl <;> norm_num at hnegative
  · have hfirst := hnone 0.5 (by simp)
    rw [← Bool.not_eq_true, Exact.isPossible_iff] at hfirst
    norm_num at hfirst

/-- A coin whose edge has worn away: the edge does not count, and since the two
sides have different values, the variance is positive. -/
theorem worn_coin_varies :
    (∃ cause, normalizedWeights [(0.5 : Float), 1.0 / 0.0] = .error (.misuse cause)) ∧
      [(1 : ℝ), 7, 3].length = [(0.5 : ℝ), 0, 0.25].length ∧
      ¬ Unweighable [(0.5 : ℝ), 0, 0.25] ∧
      ∃ mean variance, weightedMean [(1 : ℝ), 7, 3] [0.5, 0, 0.25] = .ok mean ∧
        weightedVariance [(1 : ℝ), 7, 3] [0.5, 0, 0.25] = .ok variance ∧ 0 < variance ∧
        mean ≠ 7 := by
  obtain ⟨hdoubles, hexact⟩ := weighted_statistics_laws
  obtain ⟨-, hlaws⟩ := hexact [0.5, 0, 0.25] [1, 7, 3] rfl
  obtain ⟨weights, mean, variance, -, -, -, hmean, hvariance, ⟨least, greatest, -, hgreatest, -,
    hle⟩, -, hnonneg, hzero, -⟩ := hlaws worn_coin_weighable
  have hinfinite : Unweighable [(0.5 : Float), 1.0 / 0.0] :=
    Or.inl ⟨1.0 / 0.0, by simp, Or.inr (by decide +kernel)⟩
  have hone : Occurs [0.5, 0, 0.25] [1, 7, 3] 1 := ⟨0.5, by norm_num, by simp⟩
  have hthree : Occurs [0.5, 0, 0.25] [1, 7, 3] 3 := ⟨0.25, by norm_num, by simp⟩
  have hvaries : variance ≠ 0 := by
    intro hnone
    have heq := hzero.mp hnone hone hthree
    norm_num at heq
  have hbelow : greatest ≤ 3 := by
    obtain ⟨p, hp, hmember⟩ := hgreatest.1
    simp only [List.zip_cons_cons, List.zip_nil_left, List.mem_cons, Prod.mk.injEq,
      List.not_mem_nil, or_false] at hmember
    rcases hmember with ⟨-, rfl⟩ | ⟨rfl, -⟩ | ⟨-, rfl⟩
    · norm_num
    · exact absurd hp (lt_irrefl 0)
    · exact le_rfl
  refine ⟨(hdoubles _).1.mpr hinfinite, rfl, worn_coin_weighable, mean, variance, hmean, hvariance,
    lt_of_le_of_ne hnonneg hvaries.symm, ?_⟩
  linarith

end Optima
