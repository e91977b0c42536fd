import Optima.Proofs.Solver.AugmentedValue
import Optima.Proofs.Solver.Multipliers

/-!
Duality in exact arithmetic. Where a constraint holds it adds nothing positive to the value of the
augmented Lagrangian, whatever its multiplier is, so that a least value is a lower bound for the
signed objective on the feasible points. Where an update changes no multiplier, every constraint
holds and adds nothing at all; a least value that is found there is the objective of an optimum.
-/

namespace Optima

/-- The residual is exactly what the relation asks for. -/
def Relation.Holds : Relation → ℝ → Prop
  | equality, r => r = 0
  | inequality, r => r ≤ 0

/-- Every constraint holds exactly. -/
def Problem.Feasible (problem : Problem ℝ) (x : Vec ℝ) : Prop :=
  ∀ c ∈ problem.constraints, ∃ r, c.residual x = .ok r ∧ c.relation.Holds r

namespace Lagrangian

open Entry

/-- At a feasible point every term is at most zero, so the value is no more than the objective. -/
theorem term_nonpos_of_holds {penalty : ℝ} (hpenalty : 0 < penalty) {e : Entry ℝ}
    (h : e.constraint.relation.Holds e.residual) : term penalty e ≤ 0 := by
  have hsquare : 0 ≤ (shift penalty e - e.multiplier) ^ 2 / (2 * penalty) := by positivity
  have hproduct : shift penalty e * e.residual ≤ 0 := by
    cases hrelation : e.constraint.relation with
    | equality =>
        rw [hrelation] at h
        have hzero : e.residual = 0 := h
        rw [hzero, mul_zero]
    | inequality =>
        rw [hrelation] at h
        rw [shift_inequality hrelation]
        exact mul_nonpos_of_nonneg_of_nonpos (le_max_left _ _) h
  rw [term_eq]
  linarith

/-- A multiplier stays where it is only if its constraint holds, and only if
it is zero or the residual is. -/
theorem holds_of_shift_eq {penalty : ℝ} (hpenalty : 0 < penalty) {e : Entry ℝ}
    (h : shift penalty e = e.multiplier) :
    e.constraint.relation.Holds e.residual ∧ term penalty e = 0 := by
  have hterm : term penalty e = e.multiplier * e.residual := by
    rw [term_eq, h]
    ring
  rw [hterm]
  cases hrelation : e.constraint.relation with
  | equality =>
      rw [shift_equality hrelation] at h
      have hzero : e.residual = 0 := by
        have hproduct : penalty * e.residual = 0 := by linarith
        exact (mul_eq_zero.mp hproduct).resolve_left hpenalty.ne'
      exact ⟨hzero, by rw [hzero, mul_zero]⟩
  | inequality =>
      rw [shift_inequality hrelation] at h
      change e.residual ≤ 0 ∧ e.multiplier * e.residual = 0
      rcases le_total (e.multiplier + penalty * e.residual) 0 with hle | hle
      · rw [max_eq_left hle] at h
        rw [← h, zero_add] at hle
        refine ⟨?_, by rw [← h, zero_mul]⟩
        exact nonpos_of_mul_nonpos_right hle hpenalty
      · rw [max_eq_right hle] at h
        have hproduct : penalty * e.residual = 0 := by linarith
        have hzero := (mul_eq_zero.mp hproduct).resolve_left hpenalty.ne'
        exact ⟨hzero.le, by rw [hzero, mul_zero]⟩

end Lagrangian

section

variable {problem : Problem ℝ} {steps : List (Step ℝ)} {L : Lagrangian ℝ}

theorem Problem.Reaches.lists_of_value {x : Vec ℝ} {v : ℝ} (h : problem.Reaches steps L)
    (hvalue : L.value x = .ok v) :
    ∃ f entries, L.problem.objective x = .ok f ∧ L.Lists x entries := by
  simp only [Lagrangian.value, bind_eq_ok] at hvalue
  obtain ⟨f, hf, r, hr, -⟩ := hvalue
  obtain ⟨entries, hlists⟩ := Lagrangian.exists_lists h.balanced hr
  exact ⟨f, entries, hf, hlists⟩

/-- The multipliers reached by updates are listed with residuals that keep to their relations. -/
theorem Problem.Reaches.lists_of_feasible {x : Vec ℝ} (h : problem.Reaches steps L)
    (hfeasible : problem.Feasible x) :
    ∃ entries, L.Lists x entries ∧ ∀ e ∈ entries, e.constraint.relation.Holds e.residual := by
  have hresiduals : ∀ c ∈ L.problem.constraints, ∃ r, c.residual x = .ok r := by
    intro c hc
    rw [h.problem_eq] at hc
    obtain ⟨r, hr, -⟩ := hfeasible c hc
    exact ⟨r, hr⟩
  obtain ⟨r, hr⟩ := Problem.residuals_succeed hresiduals
  obtain ⟨entries, hlists⟩ := Lagrangian.exists_lists h.balanced hr
  refine ⟨entries, hlists, ?_⟩
  intro e he
  have hc : e.constraint ∈ problem.constraints := by
    rw [← h.problem_eq, ← hlists.constraints]
    exact List.mem_map_of_mem he
  obtain ⟨r, hr, hholds⟩ := hfeasible e.constraint hc
  rw [hlists.residuals e he] at hr
  cases hr
  exact hholds

/-- At a feasible point the value is at most the signed objective. -/
theorem Problem.Reaches.value_le_of_feasible {x : Vec ℝ} {f : ℝ} (h : problem.Reaches steps L)
    (hpenalty : 0 < L.penalty) (hfeasible : problem.Feasible x)
    (hobjective : problem.objective x = .ok f) :
    ∃ w, L.value x = .ok w ∧ w ≤ problem.weight * f := by
  obtain ⟨entries, hlists, hholds⟩ := h.lists_of_feasible hfeasible
  rw [← h.problem_eq] at hobjective ⊢
  refine ⟨_, hlists.value_eq hpenalty.ne' hobjective, ?_⟩
  have hterms : ∀ t ∈ entries.map (Lagrangian.term L.penalty), t ≤ 0 := by
    intro t ht
    obtain ⟨e, he, rfl⟩ := List.mem_map.mp ht
    exact Lagrangian.term_nonpos_of_holds hpenalty (hholds e he)
  have hsum := List.sum_le_card_nsmul _ 0 hterms
  rw [smul_zero] at hsum
  linarith

/-- Where an update changes nothing, the point is feasible and the value is
the signed objective. -/
theorem Problem.Reaches.value_eq_of_fixed {x : Vec ℝ} {v : ℝ} (h : problem.Reaches steps L)
    (hpenalty : 0 < L.penalty) (hvalue : L.value x = .ok v)
    (hfixed : L.updateMultipliers x = .ok L) :
    problem.Feasible x ∧ ∃ f, problem.objective x = .ok f ∧ v = problem.weight * f := by
  obtain ⟨f, entries, hf, hlists⟩ := h.lists_of_value hvalue
  have hshift : ∀ e ∈ entries, Lagrangian.shift L.penalty e = e.multiplier := by
    have horder := hlists.multipliersInOrder_updated hfixed
    rw [hlists.multipliersInOrder_eq] at horder
    exact fun e he => (List.map_inj_left.mp horder e he).symm
  have hentries := fun e he => Lagrangian.holds_of_shift_eq hpenalty (hshift e he)
  rw [← h.problem_eq]
  refine ⟨?_, f, hf, ?_⟩
  · intro c hc
    rw [← hlists.constraints] at hc
    obtain ⟨e, he, rfl⟩ := List.mem_map.mp hc
    exact ⟨e.residual, hlists.residuals e he, (hentries e he).1⟩
  · have hsum : (entries.map (Lagrangian.term L.penalty)).sum = 0 := by
      apply List.sum_eq_zero
      intro t ht
      obtain ⟨e, he, rfl⟩ := List.mem_map.mp ht
      exact (hentries e he).2
    rw [hlists.value_eq hpenalty.ne' hf, hsum, add_zero] at hvalue
    exact (Except.ok.inj hvalue).symm

/-- A least value of the augmented Lagrangian is a lower bound for the signed
objective on the feasible points, for all multipliers that updates can reach.
If an update at that point changes no multiplier, the point is feasible and no
feasible point has a lesser signed objective. -/
theorem least_value_bounds_and_fixed_point_solves {x : Vec ℝ} {v : ℝ}
    (h : problem.Reaches steps L) (hpenalty : 0 < L.penalty) (hvalue : L.value x = .ok v)
    (hleast : ∀ y w, y.size = x.size → L.value y = .ok w → v ≤ w) :
    (∀ y f, y.size = x.size → problem.Feasible y → problem.objective y = .ok f →
      v ≤ problem.weight * f) ∧
    (L.updateMultipliers x = .ok L →
      problem.Feasible x ∧ ∃ f, problem.objective x = .ok f ∧
        ∀ y g, y.size = x.size → problem.Feasible y → problem.objective y = .ok g →
          problem.weight * f ≤ problem.weight * g) := by
  have hbound : ∀ y f, y.size = x.size → problem.Feasible y → problem.objective y = .ok f →
      v ≤ problem.weight * f := by
    intro y f hsize hfeasible hobjective
    obtain ⟨w, hw, hle⟩ := h.value_le_of_feasible hpenalty hfeasible hobjective
    exact (hleast y w hsize hw).trans hle
  refine ⟨hbound, ?_⟩
  intro hfixed
  obtain ⟨hfeasible, f, hf, rfl⟩ := h.value_eq_of_fixed hpenalty hvalue hfixed
  exact ⟨hfeasible, f, hf, hbound⟩

end

section Corner

def firstAtLeastOne : Constraint ℝ where
  relation := .inequality
  residual x := do return 1 - (← x.get 0)

def secondIsOne : Constraint ℝ where
  relation := .equality
  residual x := do return (← x.get 1) - 1

/-- The least sum of two numbers, the first of them at least one and the
second of them one. -/
noncomputable def cornerProblem : Problem ℝ where
  objective x := do return (← x.get 0) + (← x.get 1)
  constraints := [firstAtLeastOne, secondIsOne]
  weight := Sense.minimize.sign

theorem cornerProblem_lists {L : Lagrangian ℝ} (hproblem : L.problem = cornerProblem) {m n : ℝ}
    (hmultipliers : L.multipliers = ⟨[m], [n]⟩) (a b : ℝ) :
    L.Lists ⟨[a, b]⟩ [⟨firstAtLeastOne, n, 1 - a⟩, ⟨secondIsOne, m, b - 1⟩] := by
  refine ⟨by rw [hproblem]; rfl, by rw [hmultipliers]; rfl, ?_⟩
  simp only [List.mem_cons, List.not_mem_nil, or_false, forall_eq_or_imp, forall_eq]
  exact ⟨rfl, rfl⟩

theorem cornerProblem_updated {L : Lagrangian ℝ} (hproblem : L.problem = cornerProblem) {m n : ℝ}
    (hmultipliers : L.multipliers = ⟨[m], [n]⟩) (a b : ℝ) :
    L.updateMultipliers ⟨[a, b]⟩ =
      .ok { L with
        multipliers :=
          ⟨[m + L.penalty * (b - 1)], [max 0 (n + L.penalty * (1 - a))]⟩ } := by
  have hshifted : Entry.sorted (Lagrangian.shift L.penalty)
      [⟨firstAtLeastOne, n, 1 - a⟩, ⟨secondIsOne, m, b - 1⟩] =
        ⟨[m + L.penalty * (b - 1)], [max 0 (n + L.penalty * (1 - a))]⟩ :=
    congrArg₂ (fun e i => (⟨[e], [i]⟩ : ByRelation ℝ)) (Lagrangian.shift_equality rfl)
      (Lagrangian.shift_inequality rfl)
  rw [(cornerProblem_lists hproblem hmultipliers a b).updateMultipliers_eq, hshifted]

noncomputable def cornerLagrangian : Lagrangian ℝ :=
  { Lagrangian.start cornerProblem 1 1 with multipliers := ⟨[-1], [1]⟩ }

theorem cornerLagrangian_reached :
    cornerProblem.Reaches [⟨1, ⟨[0, 0]⟩⟩] cornerLagrangian := by
  apply (Problem.Reaches.start 1 1).updated
  rw [cornerProblem_updated rfl rfl]
  norm_num [cornerLagrangian, Lagrangian.start]

theorem cornerLagrangian_value (a b : ℝ) :
    cornerLagrangian.value ⟨[a, b]⟩ =
      .ok (a + b + ((max 0 (2 - a) ^ 2 - 1) / 2 + ((b - 1) ^ 2 / 2 - (b - 1)))) := by
  have hlists : cornerLagrangian.Lists ⟨[a, b]⟩
      [⟨firstAtLeastOne, 1, 1 - a⟩, ⟨secondIsOne, -1, b - 1⟩] :=
    cornerProblem_lists rfl rfl a b
  have hpenalty : (1 : ℝ) ≠ 0 := one_ne_zero
  have hfirst : Lagrangian.term 1 ⟨firstAtLeastOne, 1, 1 - a⟩ = (max 0 (2 - a) ^ 2 - 1) / 2 := by
    rw [Lagrangian.term_inequality hpenalty rfl, Lagrangian.shift_inequality rfl]
    ring_nf
  have hsecond : Lagrangian.term 1 ⟨secondIsOne, -1, b - 1⟩ = (b - 1) ^ 2 / 2 - (b - 1) := by
    rw [Lagrangian.term_equality hpenalty rfl]
    ring
  rw [hlists.value_eq hpenalty rfl]
  change Except.ok ((1 : ℝ) * (a + b) + (Lagrangian.term 1 ⟨firstAtLeastOne, 1, 1 - a⟩ +
    (Lagrangian.term 1 ⟨secondIsOne, -1, b - 1⟩ + 0))) = _
  rw [hfirst, hsecond, one_mul, add_zero]

theorem cornerLagrangian_solves :
    cornerProblem.Reaches [⟨1, ⟨[0, 0]⟩⟩] cornerLagrangian ∧
      cornerLagrangian.updateMultipliers ⟨[1, 1]⟩ = .ok cornerLagrangian ∧
      cornerLagrangian.value ⟨[1, 1]⟩ = .ok 2 ∧ cornerProblem.Feasible ⟨[1, 1]⟩ ∧
      ∀ y f, y.size = 2 → cornerProblem.Feasible y → cornerProblem.objective y = .ok f → 2 ≤ f := by
  have hvalue : cornerLagrangian.value ⟨[1, 1]⟩ = .ok 2 := by
    rw [cornerLagrangian_value]
    norm_num
  have hleast : ∀ y w, y.size = 2 → cornerLagrangian.value y = .ok w → 2 ≤ w := by
    intro y w hsize hw
    obtain ⟨a, b, rfl⟩ : ∃ a b, y = ⟨[a, b]⟩ := by
      obtain ⟨a, b, hlist⟩ := List.length_eq_two.mp hsize
      exact ⟨a, b, congrArg Vec.mk hlist⟩
    rw [cornerLagrangian_value] at hw
    cases hw
    nlinarith [sq_nonneg (b - 1), sq_nonneg (max 0 (2 - a) - 1), le_max_right 0 (2 - a)]
  have hfixed : cornerLagrangian.updateMultipliers ⟨[1, 1]⟩ = .ok cornerLagrangian := by
    rw [cornerProblem_updated rfl rfl]
    norm_num [cornerLagrangian]
  have hpenalty : 0 < cornerLagrangian.penalty := one_pos
  obtain ⟨hbound, hsolves⟩ := least_value_bounds_and_fixed_point_solves
    cornerLagrangian_reached hpenalty hvalue hleast
  refine ⟨cornerLagrangian_reached, hfixed, hvalue, (hsolves hfixed).1, ?_⟩
  intro y f hsize hfeasible hobjective
  simpa [cornerProblem, Sense.sign] using hbound y f hsize hfeasible hobjective

end Corner

end Optima
