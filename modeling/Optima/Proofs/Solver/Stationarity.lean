import Optima.Proofs.Solver.AugmentedGradient
import Optima.Proofs.Solver.Slackness

/-!
The multipliers of a solve are Lagrange multipliers of its point. An iteration minimizes the
augmented Lagrangian and then moves the multipliers at the point that was found, with the same
penalty; the gradient that the minimizer reports is therefore the gradient of the ordinary
Lagrangian with the moved multipliers, and an outcome that has passed the test of the gradient is
stationary for it.
-/

namespace Optima

/-- The gradient that is reported is the one at the point that is reported,
whatever is minimized. -/
def Minimizer.ReportsGradient (minimizer : Minimizer ℝ) : Prop :=
  ∀ value gradient start x slope, minimizer value gradient start = .ok (x, slope) →
    gradient x = .ok slope

/-- The gradients of the objective and of the constraints at a point, all of
them of the dimension of the point. -/
structure Problem.Slopes (problem : Problem ℝ) (x own : Vec ℝ) (slopes : List (Vec ℝ)) : Prop where
  objective : ∃ gradient, problem.gradient = some gradient ∧ gradient x = .ok own
  objective_size : own.size = x.size
  constraints : List.Forall₂ (fun c g => Lagrangian.knownGradient c x = .ok g) problem.constraints
    slopes
  constraints_size : ∀ g ∈ slopes, g.size = x.size

noncomputable def Problem.ordinaryGradient (problem : Problem ℝ) (n : ℕ) (own : Vec ℝ)
    (slopes : List (Vec ℝ)) (multipliers : List ℝ) : EuclideanSpace ℝ (Fin n) :=
  problem.weight • own.toEuclid n +
    (List.zipWith (fun m g => m • g.toEuclid n) multipliers slopes).sum

variable {problem : Problem ℝ} {minimizer : Minimizer ℝ} {settings : Settings ℝ} {start : Vec ℝ}
  {interrupt : Snapshot ℝ → Bool}

theorem Problem.Slopes.size_of_knownGradient {x own : Vec ℝ} {slopes : List (Vec ℝ)}
    (h : problem.Slopes x own slopes) {c : Constraint ℝ} (hc : c ∈ problem.constraints) {g : Vec ℝ}
    (hg : Lagrangian.knownGradient c x = .ok g) : g.size = x.size := by
  obtain ⟨g', hg', heq⟩ := result_of_mapM (mapM_eq_ok.mpr h.constraints) hc
  rw [hg] at heq
  cases heq
  exact h.constraints_size g hg'

theorem zipWith_slopes {penalty : ℝ} {x : Vec ℝ} {n : ℕ} {entries : List (Entry ℝ)}
    {slopes : List (Vec ℝ)}
    (h : List.Forall₂ (fun e g => Lagrangian.knownGradient e.constraint x = .ok g) entries slopes) :
    List.zipWith (fun m g => m • g.toEuclid n) (entries.map (Lagrangian.shift penalty)) slopes =
      entries.map fun e => Lagrangian.shift penalty e • e.constraint.slopeAt n x := by
  induction h with
  | nil => rfl
  | cons hg _ ih =>
      rw [List.map_cons, List.zipWith_cons_cons, List.map_cons, ih, Constraint.slopeAt_eq hg]

section Iteration

variable {p q : Progress ℝ} {snapshot : Snapshot ℝ}

/-- The entries of an iteration: the multipliers before it and the residuals
at the point that it finds. -/
theorem Problem.Visits.lists (hvisits : problem.Visits minimizer settings start interrupt p)
    (hmoved : advance minimizer settings p = .ok (.moved q snapshot)) :
    ∃ entries, p.lagrangian.Lists q.point entries ∧
      entries.map (·.constraint) = problem.constraints ∧
      p.lagrangian.multipliersInOrder = entries.map (·.multiplier) ∧
      q.lagrangian.multipliersInOrder =
        entries.map (Lagrangian.shift p.lagrangian.penalty) := by
  obtain ⟨steps, htrail⟩ := hvisits.trail
  obtain ⟨slope, hmoves⟩ := advance_moved hmoved
  obtain ⟨r, hr, -⟩ := Lagrangian.updateMultipliers_eq_ok.mp hmoves.updated
  obtain ⟨entries, hlists⟩ := Lagrangian.exists_lists htrail.reaches.balanced hr
  refine ⟨entries, hlists, ?_, hlists.multipliersInOrder_eq,
    hlists.multipliersInOrder_updated hmoves.updated⟩
  rw [hlists.constraints, htrail.reaches.problem_eq]

/-- Multipliers of inequalities are cut at zero whenever they are moved. -/
theorem Problem.Visits.inequality_multipliers_nonneg
    (hvisits : problem.Visits minimizer settings start interrupt p)
    (hmoved : advance minimizer settings p = .ok (.moved q snapshot)) :
    List.Forall₂ (fun c m => c.relation = .inequality → 0 ≤ m) problem.constraints
      q.lagrangian.multipliersInOrder := by
  obtain ⟨entries, -, hconstraints, -, hmultipliers⟩ := hvisits.lists hmoved
  rw [hmultipliers, ← hconstraints, List.forall₂_map_left_iff, List.forall₂_map_right_iff,
    List.forall₂_same]
  intro e _ hrelation
  rw [Lagrangian.shift_inequality hrelation]
  exact le_max_left _ _

/-- The length that a snapshot shows is that of the ordinary gradient with the
moved multipliers. -/
theorem Problem.Visits.gradientNorm_eq (hanalytic : problem.isAnalytic = true)
    (hreports : Minimizer.ReportsGradient minimizer)
    (hvisits : problem.Visits minimizer settings start interrupt p)
    (hmoved : advance minimizer settings p = .ok (.moved q snapshot)) {own : Vec ℝ}
    {slopes : List (Vec ℝ)} (hslopes : problem.Slopes q.point own slopes) :
    snapshot.gradientNorm = ‖problem.ordinaryGradient q.point.size own slopes
      q.lagrangian.multipliersInOrder‖ := by
  obtain ⟨entries, hlists, hconstraints, -, hmultipliers⟩ := hvisits.lists hmoved
  have hproblem := hvisits.measured.1.problem_eq
  obtain ⟨slope, hmoves⟩ := advance_moved hmoved
  obtain ⟨gradient, hgradient, hown⟩ := hslopes.objective
  have hentries : List.Forall₂
      (fun e g => Lagrangian.knownGradient e.constraint q.point = .ok g) entries slopes := by
    have hgiven := hslopes.constraints
    rw [← hconstraints, List.forall₂_map_left_iff] at hgiven
    exact hgiven
  have hownsize : ∀ g, gradient q.point = .ok g → g.size = q.point.size := by
    intro g hg
    rw [hown] at hg
    cases hg
    exact hslopes.objective_size
  have hsizes : ∀ e ∈ entries, ∀ g, Lagrangian.knownGradient e.constraint q.point = .ok g →
      g.size = q.point.size := by
    intro e he g hg
    exact hslopes.size_of_knownGradient (hconstraints ▸ List.mem_map_of_mem he) hg
  rw [← hproblem] at hgradient hanalytic
  obtain ⟨own', hown', hslopesize, hpoint⟩ := hlists.gradient_eq hgradient hanalytic hownsize hsizes
    (hreports _ _ _ _ _ hmoves.found)
  obtain rfl : own = own' := Except.ok.inj (hown.symm.trans hown')
  rw [hmoves.gradientNorm, Vec.norm_eq_norm_toEuclid hslopesize, hpoint, hproblem, hmultipliers,
    Problem.ordinaryGradient, zipWith_slopes hentries]

/-- The value before an update is the value of the ordinary Lagrangian with
the multipliers after it, less what their moves cost. -/
theorem Problem.Visits.value_eq (haccepted : settings.Accepted)
    (hvisits : problem.Visits minimizer settings start interrupt p)
    (hmoved : advance minimizer settings p = .ok (.moved q snapshot)) :
    ∃ rs, List.Forall₂ (fun c r => c.residual q.point = .ok r) problem.constraints rs ∧
      p.lagrangian.value q.point =
        .ok (problem.weight * q.objective +
          (List.zipWith (· * ·) q.lagrangian.multipliersInOrder rs).sum -
          (List.zipWith (fun m old => (m - old) ^ 2 / (2 * p.lagrangian.penalty))
            q.lagrangian.multipliersInOrder p.lagrangian.multipliersInOrder).sum) := by
  obtain ⟨entries, hlists, hconstraints, hbefore, hafter⟩ := hvisits.lists hmoved
  obtain ⟨slope, hmoves⟩ := advance_moved hmoved
  refine ⟨entries.map (·.residual), ?_, ?_⟩
  · rw [← hconstraints, List.forall₂_map_left_iff, List.forall₂_map_right_iff, List.forall₂_same]
    exact hlists.residuals
  · rw [hlists.value_eq (hvisits.penalty_pos haccepted).ne' hmoves.objective, hbefore, hafter,
      hvisits.measured.1.problem_eq]
    simp only [List.zipWith_map, List.zipWith_self]
    rw [add_sub_assoc, ← Exact.sum_map_sub]
    simp only [← Lagrangian.term_eq]

end Iteration

/-- After every iteration the multipliers of inequalities are not negative,
the length that the snapshot shows is that of the gradient of the ordinary
Lagrangian with the moved multipliers, and the value that was minimized is that
of the ordinary Lagrangian less what the moves cost. An optimal outcome that
has passed the test of the gradient is stationary within its tolerance. -/
theorem multipliers_are_lagrange_multipliers (haccepted : settings.Accepted)
    (hanalytic : problem.isAnalytic = true) (hreports : Minimizer.ReportsGradient minimizer)
    (start : Vec ℝ) (interrupt : Snapshot ℝ → Bool) :
    (∀ p q snapshot, problem.Visits minimizer settings start interrupt p →
      advance minimizer settings p = .ok (.moved q snapshot) →
      List.Forall₂ (fun c m => c.relation = .inequality → 0 ≤ m) problem.constraints
        q.lagrangian.multipliersInOrder ∧
      (∀ own slopes, problem.Slopes q.point own slopes →
        snapshot.gradientNorm = ‖problem.ordinaryGradient q.point.size own slopes
          q.lagrangian.multipliersInOrder‖) ∧
      ∃ rs, List.Forall₂ (fun c r => c.residual q.point = .ok r) problem.constraints rs ∧
        p.lagrangian.value q.point =
          .ok (problem.weight * q.objective +
            (List.zipWith (· * ·) q.lagrangian.multipliersInOrder rs).sum -
            (List.zipWith (fun m old => (m - old) ^ 2 / (2 * p.lagrangian.penalty))
              q.lagrangian.multipliersInOrder p.lagrangian.multipliersInOrder).sum)) ∧
    ∀ outcome, problem.optimize minimizer settings start interrupt = .ok outcome →
      outcome.status = .optimal →
      ∃ p q snapshot, problem.Visits minimizer settings start interrupt p ∧
        advance minimizer settings p = .ok (.moved q snapshot) ∧ outcome = q.outcome .optimal ∧
        (snapshot.gradientNorm ≤ settings.gradientTolerance ∨
          isStalled settings.tolerance q.previous q.objective = true) ∧
        (snapshot.gradientNorm ≤ settings.gradientTolerance →
          ∀ own slopes, problem.Slopes outcome.solution own slopes →
            ‖problem.ordinaryGradient outcome.solution.size own slopes outcome.multipliers‖ ≤
              settings.gradientTolerance) := by
  refine ⟨?_, ?_⟩
  · intro p q snapshot hvisits hmoved
    refine ⟨hvisits.inequality_multipliers_nonneg hmoved, ?_, hvisits.value_eq haccepted hmoved⟩
    intro own slopes hslopes
    exact hvisits.gradientNorm_eq hanalytic hreports hmoved hslopes
  · intro outcome hoptimize hoptimal
    obtain ⟨p, q, snapshot, hvisits, hmoved, rfl, -, htests⟩ :=
      last_iteration_of_optimal hoptimize hoptimal
    rw [Exact.atMost_iff] at htests
    refine ⟨p, q, snapshot, hvisits, hmoved, rfl, htests, ?_⟩
    intro hwithin own slopes hslopes
    rw [hvisits.gradientNorm_eq hanalytic hreports hmoved hslopes] at hwithin
    exact hwithin

theorem hillsideMinimizer_reportsGradient : Minimizer.ReportsGradient hillsideMinimizer := by
  intro value gradient start x slope h
  simp only [hillsideMinimizer, bind_eq_ok, pure_eq_ok] at h
  obtain ⟨t, -, slope', hslope', heq⟩ := h
  cases heq
  exact hslope'

theorem hillside_slopes :
    hillside.Slopes ⟨[-0.25]⟩ ⟨[-8.0 - 2.0 * (-0.25)]⟩ [⟨[1]⟩, ⟨[-1]⟩] := by
  refine ⟨⟨_, rfl, rfl⟩, rfl, .cons rfl (.cons rfl .nil), ?_⟩
  simp [Vec.size]

/-- The last iteration of `hillside` ends with the multipliers 7.5 and zero,
and the ordinary gradient vanishes with them. -/
theorem hillside_multipliers_stationary :
    hillsideSettings.Accepted ∧ hillside.isAnalytic = true ∧
      Minimizer.ReportsGradient hillsideMinimizer ∧
      ‖hillside.ordinaryGradient 1 ⟨[-8.0 - 2.0 * (-0.25)]⟩ [⟨[1]⟩, ⟨[-1]⟩] [7.5, 0]‖ = 0 ∧
      (∃ rs, List.Forall₂ (fun c r => c.residual ⟨[-0.25]⟩ = .ok r) hillside.constraints rs ∧
        hillsideMiddle.lagrangian.value ⟨[-0.25]⟩ =
          .ok (hillside.weight * 1.9375 + (List.zipWith (· * ·) [7.5, 0] rs).sum -
            (List.zipWith (fun m old => (m - old) ^ 2 / (2 * 10.0)) [7.5, 0] [10.0, 0]).sum)) ∧
      ∃ p q snapshot,
        hillside.Visits hillsideMinimizer hillsideSettings ⟨[0]⟩ (fun _ => false) p ∧
        advance hillsideMinimizer hillsideSettings p = .ok (.moved q snapshot) ∧
        hillsideEnd.outcome .optimal = q.outcome .optimal := by
  have hvisits : hillside.Visits hillsideMinimizer hillsideSettings ⟨[0]⟩ (fun _ => false)
      hillsideMiddle :=
    .proceed (.opening hillside_opens rfl) hillside_first
  have hanalytic : hillside.isAnalytic = true := rfl
  obtain ⟨hiterations, houtcome⟩ := multipliers_are_lagrange_multipliers hillside_accepted hanalytic
    hillsideMinimizer_reportsGradient ⟨[0]⟩ (fun _ => false)
  obtain ⟨-, hnorm, hvalue⟩ := hiterations _ _ _ hvisits hillside_second_moved
  obtain ⟨p, q, snapshot, hvisited, hmoved, heq, -, -⟩ := houtcome _ hillside_optimize rfl
  exact ⟨hillside_accepted, hanalytic, hillsideMinimizer_reportsGradient,
    (hnorm _ _ hillside_slopes).symm, hvalue, p, q, snapshot, hvisited, hmoved, heq⟩

end Optima
