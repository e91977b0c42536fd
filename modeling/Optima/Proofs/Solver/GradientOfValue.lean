import Mathlib.Analysis.Calculus.Deriv.Mul
import Mathlib.Analysis.Calculus.Deriv.Pow
import Optima.Proofs.Solver.Returns
import Optima.Proofs.Solver.Stationarity
import Optima.Proofs.Vector.Slope

/-!
The analytic gradient of the augmented Lagrangian is the gradient of its value. The derivative of
what a constraint adds to the value, with respect to its residual, is the shifted multiplier; for an
inequality this holds also where the shifted multiplier becomes zero, since the square of a positive
part is smooth there. So the value has a gradient wherever the objective and the constraints have
the gradients that are given for them, and it is the one that is computed.
-/

namespace Optima

open Lagrangian

/-- The square of the positive part has a derivative also where it starts to
grow. -/
theorem hasDerivAt_max_sq (t : ℝ) : HasDerivAt (fun s => max 0 s ^ 2) (2 * max 0 t) t := by
  -- Nowhere is it farther from its tangent than the square of the way.
  have hbound (s : ℝ) :
      0 ≤ max 0 s ^ 2 - max 0 t ^ 2 - (s - t) * (2 * max 0 t) ∧
        max 0 s ^ 2 - max 0 t ^ 2 - (s - t) * (2 * max 0 t) ≤ (s - t) ^ 2 := by
    rcases le_total s 0 with hs | hs
    · rcases le_total t 0 with ht | ht
      · rw [max_eq_left hs, max_eq_left ht]
        constructor <;> nlinarith
      · rw [max_eq_left hs, max_eq_right ht]
        constructor <;> nlinarith
    · rcases le_total t 0 with ht | ht
      · rw [max_eq_right hs, max_eq_left ht]
        constructor <;> nlinarith
      · rw [max_eq_right hs, max_eq_right ht]
        constructor <;> nlinarith [sq_nonneg (s - t)]
  rw [hasDerivAt_iff_isLittleO]
  refine Asymptotics.IsBigO.trans_isLittleO (g := fun s => ‖s - t‖ ^ 2) ?_
    (Asymptotics.isLittleO_pow_sub_sub t one_lt_two)
  apply Asymptotics.isBigO_of_le
  intro s
  obtain ⟨hnonneg, hle⟩ := hbound s
  rw [smul_eq_mul, Real.norm_of_nonneg hnonneg, norm_pow, norm_norm, Real.norm_eq_abs, sq_abs]
  exact hle

/-- What a constraint adds to the value grows with the residual as its shifted
multiplier says. -/
theorem hasDerivAt_term {penalty : ℝ} (hpenalty : penalty ≠ 0) (c : Constraint ℝ) (m r : ℝ) :
    HasDerivAt (fun s => term penalty ⟨c, m, s⟩) (shift penalty ⟨c, m, r⟩) r := by
  cases hrelation : c.relation with
  | equality =>
      have hterm : (fun s => term penalty ⟨c, m, s⟩) =
          fun s => m * s + 0.5 * penalty * (s * s) :=
        funext fun s => term_equality hpenalty hrelation
      have hlinear : HasDerivAt (fun s => m * s) (m * 1) r := (hasDerivAt_id r).const_mul m
      have hsquare : HasDerivAt (fun s => 0.5 * penalty * (s * s))
          (0.5 * penalty * (1 * r + r * 1)) r :=
        ((hasDerivAt_id r).mul (hasDerivAt_id r)).const_mul _
      rw [hterm, shift_equality hrelation]
      refine (hlinear.add hsquare).congr_deriv ?_
      norm_num
      ring
  | inequality =>
      have hterm : (fun s => term penalty ⟨c, m, s⟩) =
          fun s => (max 0 (m + penalty * s) ^ 2 - m * m) / (2 * penalty) := by
        funext s
        rw [term_inequality hpenalty hrelation, shift_inequality hrelation, sq]
      have hmoved : HasDerivAt (fun s => m + penalty * s) (penalty * 1) r :=
        ((hasDerivAt_id r).const_mul penalty).const_add m
      have hsquare : HasDerivAt (fun s => max 0 (m + penalty * s) ^ 2)
          (2 * max 0 (m + penalty * r) * (penalty * 1)) r :=
        (hasDerivAt_max_sq _).comp r hmoved
      rw [hterm, shift_inequality hrelation]
      refine ((hsquare.sub_const (m * m)).div_const (2 * penalty)).congr_deriv ?_
      field_simp

namespace Entry

noncomputable def moved {n : ℕ} (e : Entry ℝ) (z : EuclideanSpace ℝ (Fin n)) : Entry ℝ :=
  { e with residual := along e.constraint.residual z }

theorem map_moved {β : Type} {n : ℕ} (entries : List (Entry ℝ)) (z : EuclideanSpace ℝ (Fin n))
    {f : Entry ℝ → β} (hf : ∀ e, f (e.moved z) = f e) :
    (entries.map (·.moved z)).map f = entries.map f := by
  rw [List.map_map]
  exact List.map_congr_left fun e _ => hf e

end Entry

section

variable {L : Lagrangian ℝ} {x own : Vec ℝ} {slopes : List (Vec ℝ)} {entries : List (Entry ℝ)}

/-- Entries with the residuals at a point list the Lagrangian there. -/
theorem Lagrangian.Lists.moved (h : L.Lists x entries) {n : ℕ} {z : EuclideanSpace ℝ (Fin n)}
    (hresults : ∀ e ∈ entries,
      e.constraint.residual (Vec.ofEuclid z) = .ok (along e.constraint.residual z)) :
    L.Lists (Vec.ofEuclid z) (entries.map (·.moved z)) := by
  refine ⟨?_, ?_, ?_⟩
  · rw [Entry.map_moved entries z fun _ => rfl]
    exact h.constraints
  · rw [h.multipliers, Entry.sorted, Entry.sorted, List.filter_map, List.filter_map,
      Entry.map_moved _ z fun _ => rfl, Entry.map_moved _ z fun _ => rfl]
    rfl
  · rw [List.forall_mem_map]
    exact hresults

/-- Near a point with gradients the value is the one that is listed. -/
theorem Lagrangian.Lists.value_near (h : L.Lists x entries) (hpenalty : L.penalty ≠ 0)
    (hobjective : HasSlope L.problem.objective x own)
    (hentries : List.Forall₂ (fun e g => HasSlope e.constraint.residual x g) entries slopes) :
    ∀ᶠ z in nhds (x.toEuclid x.size), L.value (Vec.ofEuclid z) =
      .ok (L.problem.weight * along L.problem.objective z +
        (entries.map fun e => term L.penalty (e.moved z)).sum) := by
  have hresults : ∀ᶠ z in nhds (x.toEuclid x.size), ∀ e ∈ entries,
      e.constraint.residual (Vec.ofEuclid z) = .ok (along e.constraint.residual z) := by
    have hnear := hentries.imp fun e g hg => And.intro hg.ok_along hg
    exact (Filter.eventually_all_finite entries.finite_toSet).mpr
      ((List.forall₂_and_left _ _).mp hnear).1
  filter_upwards [hobjective.ok_along, hresults] with z hz hmembers
  rw [(h.moved hmembers).value_eq hpenalty hz, List.map_map]
  rfl

/-- The sum of the terms has a gradient even where a multiplier starts to grow. -/
theorem hasGradientAt_terms {penalty : ℝ} (hpenalty : penalty ≠ 0)
    (hentries : List.Forall₂ (fun e g => HasSlope e.constraint.residual x g) entries slopes)
    (hresiduals : ∀ e ∈ entries, e.constraint.residual x = .ok e.residual) :
    HasGradientAt
      (fun z : EuclideanSpace ℝ (Fin x.size) =>
        (entries.map fun e => term penalty (e.moved z)).sum)
      (List.zipWith (fun m g => m • g.toEuclid x.size) (entries.map (shift penalty)) slopes).sum
      (x.toEuclid x.size) := by
  induction hentries with
  | nil => exact hasGradientAt_const _ _
  | @cons e g entries slopes hg _ ih =>
      obtain ⟨hresidual, hrest⟩ := List.forall_mem_cons.mp hresiduals
      have hhere : along e.constraint.residual (x.toEuclid x.size) = e.residual :=
        Except.ok.inj (hg.value.symm.trans hresidual)
      have hterm : HasDerivAt (fun s => term penalty ⟨e.constraint, e.multiplier, s⟩)
          (shift penalty e) (along e.constraint.residual (x.toEuclid x.size)) := by
        rw [hhere]
        exact hasDerivAt_term hpenalty e.constraint e.multiplier e.residual
      exact hasGradientAt_add (hasGradientAt_comp hterm hg.gradient) (ih hrest)

theorem Problem.Slopes.isAnalytic {problem : Problem ℝ} (h : problem.Slopes x own slopes) :
    problem.isAnalytic = true := by
  obtain ⟨gradient, hgradient, -⟩ := h.objective
  rw [Problem.isAnalytic, hgradient, Option.isSome_some, Bool.true_and, List.all_eq_true]
  intro c hc
  obtain ⟨g, -, hg⟩ := result_of_mapM (mapM_eq_ok.mpr h.constraints) hc
  unfold knownGradient at hg
  split at hg
  · next hknown => rw [hknown, Option.isSome_some]
  · cases hg

/-- Where the gradients of the parts are known, the analytic gradient exists. It
is the gradient of the ordinary Lagrangian with the shifted multipliers. -/
theorem Lagrangian.Lists.gradient_succeeds (h : L.Lists x entries)
    (hslopes : L.problem.Slopes x own slopes) :
    ∃ slope, L.gradient x = .ok slope ∧ slope.size = x.size ∧
      slope.toEuclid x.size = L.problem.ordinaryGradient x.size own slopes
        (entries.map (shift L.penalty)) := by
  obtain ⟨gradient, hgradient, hown⟩ := hslopes.objective
  have hentries : List.Forall₂ (fun e g => knownGradient e.constraint x = .ok g) entries
      slopes := by
    have hgiven := hslopes.constraints
    rw [← h.constraints, List.forall₂_map_left_iff] at hgiven
    exact hgiven
  have hmember : ∀ e ∈ entries, e.constraint ∈ L.problem.constraints :=
    fun e he => h.constraints ▸ List.mem_map_of_mem he
  have hparts : ∀ c ∈ L.problem.constraints,
      (∃ r, c.residual x = .ok r) ∧ ∃ d, knownGradient c x = .ok d ∧ d.size = x.size := by
    rw [← h.constraints, List.forall_mem_map]
    intro e he
    obtain ⟨g, hg, hknown⟩ := result_of_mapM (mapM_eq_ok.mpr hslopes.constraints) (hmember e he)
    exact ⟨⟨_, h.residuals e he⟩, g, hknown, hslopes.constraints_size g hg⟩
  have hownsize : ∀ g, gradient x = .ok g → g.size = x.size := by
    intro g hg
    rw [hown] at hg
    cases hg
    exact hslopes.objective_size
  obtain ⟨slope, hslope, -⟩ := analyticGradient_of_known hparts hown hslopes.objective_size
  have hcomputed : L.gradient x = .ok slope := by
    simp only [Lagrangian.gradient, hgradient, hslopes.isAnalytic, if_true]
    exact hslope
  obtain ⟨own', hown', hsize, hpoint⟩ := h.gradient_eq hgradient hslopes.isAnalytic hownsize
    (fun e he g hg => hslopes.size_of_knownGradient (hmember e he) hg) hcomputed
  obtain rfl : own = own' := Except.ok.inj (hown.symm.trans hown')
  refine ⟨slope, hcomputed, hsize, ?_⟩
  rw [hpoint, Problem.ordinaryGradient, zipWith_slopes hentries]

/-- Where the objective and the constraints have the gradients that are given
for them, the analytic gradient exists and is the gradient of the value. The
multipliers are arbitrary, so that shifted multipliers of inequalities may be
zero there. -/
theorem gradient_is_gradient_of_value (hpenalty : 0 < L.penalty) (hbalanced : L.Balanced)
    (hslopes : L.problem.Slopes x own slopes)
    (hobjective : HasSlope L.problem.objective x own)
    (hconstraints : List.Forall₂ (fun c g => HasSlope c.residual x g) L.problem.constraints
      slopes) :
    ∃ slope, L.gradient x = .ok slope ∧ HasSlope L.value x slope := by
  have hvalues : List.Forall₂ (fun c g => (∃ r, c.residual x = .ok r) ∧ HasSlope c.residual x g)
      L.problem.constraints slopes := hconstraints.imp fun c g hg => ⟨⟨_, hg.value⟩, hg⟩
  obtain ⟨r, hr⟩ := Problem.residuals_succeed ((List.forall₂_and_left _ _).mp hvalues).1
  obtain ⟨entries, hlists⟩ := exists_lists hbalanced hr
  have hentries : List.Forall₂ (fun e g => HasSlope e.constraint.residual x g) entries slopes := by
    rw [← hlists.constraints, List.forall₂_map_left_iff] at hconstraints
    exact hconstraints
  obtain ⟨slope, hslope, hsize, hpoint⟩ := hlists.gradient_succeeds hslopes
  have hnear := hlists.value_near hpenalty.ne' hobjective hentries
  refine ⟨slope, hslope, hsize, hnear.mono fun z hz => ⟨_, hz⟩, ?_⟩
  have halong : along L.value =ᶠ[nhds (x.toEuclid x.size)] fun z =>
      L.problem.weight * along L.problem.objective z +
        (entries.map fun e => term L.penalty (e.moved z)).sum :=
    hnear.mono fun z hz => along_eq hz
  have hweighted : HasDerivAt (fun s => L.problem.weight * s) L.problem.weight
      (along L.problem.objective (x.toEuclid x.size)) := by
    simpa using (hasDerivAt_id _).const_mul L.problem.weight
  rw [hpoint]
  exact (hasGradientAt_add (hasGradientAt_comp hweighted hobjective.gradient)
    (hasGradientAt_terms hpenalty.ne' hentries hlists.residuals)).congr_of_eventuallyEq halong

end

section Ridge

noncomputable def firstAtMostFour : Constraint ℝ where
  relation := .inequality
  residual x := do return (← x.get 0) - 4.0
  gradient := some fun _ => .ok ⟨[1, 0]⟩

def secondAtOne : Constraint ℝ where
  relation := .equality
  residual x := do return (← x.get 1) - 1
  gradient := some fun _ => .ok ⟨[0, 1]⟩

/-- The greatest sum of a square and a number, the first of them at most four
and the second of them one. -/
noncomputable def ridge : Problem ℝ where
  objective x := do return (← x.get 0) * (← x.get 0) + (← x.get 1)
  gradient := some fun x => do return ⟨[2.0 * (← x.get 0), 1]⟩
  constraints := [firstAtMostFour, secondAtOne]
  weight := Sense.maximize.sign

/-- Penalty and multipliers for which the multiplier of the inequality starts to
grow where the first number is three. -/
noncomputable def ridgeLagrangian : Lagrangian ℝ :=
  { Lagrangian.start ridge 1 2.0 with multipliers := ⟨[3.0], [2.0]⟩ }

theorem hasGradientAt_first (x : EuclideanSpace ℝ (Fin 2)) :
    HasGradientAt (fun z : EuclideanSpace ℝ (Fin 2) => z 0) ((⟨[1, 0]⟩ : Vec ℝ).toEuclid 2) x := by
  convert hasGradientAt_coordinate 0 x using 1
  ext i
  fin_cases i <;> simp

theorem hasGradientAt_second (x : EuclideanSpace ℝ (Fin 2)) :
    HasGradientAt (fun z : EuclideanSpace ℝ (Fin 2) => z 1) ((⟨[0, 1]⟩ : Vec ℝ).toEuclid 2) x := by
  convert hasGradientAt_coordinate 1 x using 1
  ext i
  fin_cases i <;> simp

theorem ridge_objective_slope : HasSlope ridge.objective ⟨[3, 5]⟩ ⟨[2.0 * 3, 1]⟩ := by
  have hsquare : HasDerivAt (fun s : ℝ => s * s) (1 * 3 + 3 * 1) 3 :=
    (hasDerivAt_id (3 : ℝ)).mul (hasDerivAt_id (3 : ℝ))
  have hgradient := hasGradientAt_add
    (hasGradientAt_comp (x := (⟨[3, 5]⟩ : Vec ℝ).toEuclid 2) hsquare (hasGradientAt_first _))
    (hasGradientAt_second _)
  refine .of_formula (n := 2) (s := fun z => z 0 * z 0 + z 1) rfl rfl (fun z => rfl) ?_
  convert hgradient using 1
  ext i
  fin_cases i <;> norm_num

theorem ridge_slopes : ridge.Slopes ⟨[3, 5]⟩ ⟨[2.0 * 3, 1]⟩ [⟨[1, 0]⟩, ⟨[0, 1]⟩] := by
  refine ⟨⟨_, rfl, rfl⟩, rfl, .cons rfl (.cons rfl .nil), ?_⟩
  simp [Vec.size]

theorem ridge_constraint_slopes :
    List.Forall₂ (fun c g => HasSlope c.residual ⟨[3, 5]⟩ g) ridge.constraints
      [⟨[1, 0]⟩, ⟨[0, 1]⟩] := by
  have hfour : HasDerivAt (fun s : ℝ => s - 4.0) 1 3 := (hasDerivAt_id _).sub_const _
  have hone : HasDerivAt (fun s : ℝ => s - 1) 1 5 := (hasDerivAt_id _).sub_const _
  have hfirst := hasGradientAt_comp (x := (⟨[3, 5]⟩ : Vec ℝ).toEuclid 2) hfour
    (hasGradientAt_first _)
  have hsecond := hasGradientAt_comp (x := (⟨[3, 5]⟩ : Vec ℝ).toEuclid 2) hone
    (hasGradientAt_second _)
  rw [one_smul] at hfirst hsecond
  exact .cons (.of_formula (n := 2) rfl rfl (fun z => rfl) hfirst)
    (.cons (.of_formula (n := 2) rfl rfl (fun z => rfl) hsecond) .nil)

/-- Where the first number is three, the multiplier of the inequality is shifted
to zero, and the value still has the gradient that is computed. -/
theorem ridge_gradient_where_multiplier_vanishes :
    0 < ridgeLagrangian.penalty ∧ ridgeLagrangian.Balanced ∧
      shift ridgeLagrangian.penalty ⟨firstAtMostFour, 2.0, 3 - 4.0⟩ = 0 ∧
      ∃ slope, ridgeLagrangian.gradient ⟨[3, 5]⟩ = .ok slope ∧
        HasSlope ridgeLagrangian.value ⟨[3, 5]⟩ slope := by
  have hpenalty : 0 < ridgeLagrangian.penalty := by
    change (0 : ℝ) < 2.0
    norm_num
  have hbalanced : ridgeLagrangian.Balanced := ⟨rfl, rfl⟩
  have hshift : shift ridgeLagrangian.penalty ⟨firstAtMostFour, 2.0, 3 - 4.0⟩ = 0 := by
    rw [shift_inequality rfl]
    norm_num [ridgeLagrangian, Lagrangian.start]
  exact ⟨hpenalty, hbalanced, hshift, gradient_is_gradient_of_value hpenalty hbalanced ridge_slopes
    ridge_objective_slope ridge_constraint_slopes⟩

end Ridge

end Optima
