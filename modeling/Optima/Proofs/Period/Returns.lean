import Optima.Proofs.Period.PlanOutcome
import Optima.Proofs.Solver.CheckedSettings

/-!
When the optimization of a plan returns. The flat problem is stated over all states at once, and the
answer is read back as a trajectory. Both are defined at flat vectors of the right size, if what a
period is worth and the residuals along trajectories are; and the solver keeps this size.
-/

namespace Optima.Plan

section Problem

variable {α : Type} [Scalar α] {plan : Plan α} {dimension : Nat}
  {objective : Nat → Vec α → Except Fault α} {constraints : List (PeriodConstraint α)}
  (hperiods : 1 ≤ plan.periods)
  (hobjective : ∀ t y, t < plan.periods → y.size = dimension → ∃ v, objective t y = .ok v)
  (hconstraints : ∀ c ∈ constraints, ∀ t : Trajectory α, t.periods = plan.periods →
    t.dimension = dimension → ∃ rs, c.evaluate t = .ok rs)

include hperiods hobjective hconstraints

/-- The flat problem has values at all flat vectors of the plan's size. -/
theorem problem_responds (sense : Sense) :
    (plan.problem dimension objective constraints sense).Responds (plan.periods * dimension) where
  objective z hz := by
    obtain ⟨values, hvalues⟩ : ∃ values, (List.range plan.periods).mapM
        (fun (t : Nat) => objective t (periodOf dimension z t)) = .ok values := by
      apply mapM_succeeds
      intro t ht
      have htime := List.mem_range.mp ht
      exact hobjective t _ htime (size_periodOf hz htime)
    exact ⟨_, bind_eq_ok.mpr ⟨values, hvalues, rfl⟩⟩
  residual d hd z hz := by
    obtain ⟨c, hc, hlowered⟩ := List.mem_flatMap.mp hd
    obtain ⟨t, ht⟩ := Trajectory.exists_ofFlat hperiods hz
    obtain ⟨rs, hrs⟩ := hconstraints c hc t (Trajectory.periods_of_ofFlat ht)
      (Trajectory.dimension_of_ofFlat ht)
    rw [← PeriodConstraint.residuals_lower ht] at hrs
    obtain ⟨r, -, hr⟩ := result_of_mapM hrs hlowered
    exact ⟨r, hr⟩
  gradient known hknown := by cases hknown
  gradients d hd known hknown := by
    obtain ⟨c, -, hlowered⟩ := List.mem_flatMap.mp hd
    obtain ⟨residual, -, rfl⟩ := List.mem_map.mp hlowered
    cases hknown

/-- Reading an answer back cannot fail where the flat problem could be solved. -/
theorem readBack_returns {solved : Outcome α}
    (hsize : solved.solution.size = plan.periods * dimension) :
    ∃ outcome, plan.readBack dimension objective constraints solved = .ok outcome ∧
      outcome.status = solved.status := by
  obtain ⟨t, ht⟩ := Trajectory.exists_ofFlat hperiods hsize
  have htimes := Trajectory.periods_of_ofFlat ht
  have hstates := Trajectory.dimension_of_ofFlat ht
  obtain ⟨values, hvalues⟩ : ∃ values,
      t.states.zipIdx.mapM (fun e => objective e.2 e.1) = .ok values := by
    apply mapM_succeeds
    rintro ⟨x, i⟩ hx
    have hplace := List.mk_mem_zipIdx_iff_getElem?.mp hx
    have htime : i < t.states.length := (List.getElem?_eq_some_iff.mp hplace).1
    have hmember := Trajectory.size_of_mem_states (List.mem_of_getElem? hplace)
    exact hobjective i x (htimes ▸ htime) (hmember.trans hstates)
  obtain ⟨violations, hviolations⟩ : ∃ violations,
      constraints.mapM (fun c => c.violations t) = .ok violations := by
    apply mapM_succeeds
    intro c hc
    obtain ⟨rs, hrs⟩ := hconstraints c hc t htimes hstates
    exact ⟨_, bind_eq_ok.mpr ⟨rs, hrs, rfl⟩⟩
  have hreadBack :
      ∃ outcome, plan.readBack dimension objective constraints solved = .ok outcome := by
    simp only [readBack, bind_eq_ok]
    exact ⟨_, t, ht, values, hvalues, violations, hviolations, rfl⟩
  obtain ⟨outcome, houtcome⟩ := hreadBack
  exact ⟨outcome, houtcome, (readsBack_of_readBack houtcome).status⟩

/-- The optimization of a plan returns, and says so if the total at the start
is not finite. -/
theorem optimize_responds {minimizer : Minimizer α} (hsettings : plan.settings.Steady)
    (hserves : minimizer.Serves) {start : Trajectory α} (htimes : start.periods = plan.periods)
    (hstates : start.dimension = dimension) (hcomponents : 0 < dimension)
    (hfinite : start.flatten.isFinite = true) (sense : Sense) :
    ∃ outcome, plan.optimize minimizer objective start constraints sense = .ok outcome ∧
      ((∃ v, plan.total dimension objective start.flatten = .ok v ∧ Scalar.isFinite v = false) →
        outcome.status = .numericalError) := by
  subst hstates
  have hflat : start.flatten.size = plan.periods * start.dimension := by
    rw [start.size_flatten, htimes]
  have hresponds := problem_responds hperiods hobjective hconstraints sense
  rw [← hflat] at hresponds
  have hnonempty : start.flatten.toList.isEmpty = false := by
    have hpositive : 0 < start.flatten.size := by
      rw [hflat]
      exact Nat.mul_pos hperiods hcomponents
    rw [List.isEmpty_eq_false_iff]
    exact List.ne_nil_of_length_pos hpositive
  obtain ⟨solved, hsolved⟩ : ∃ solved, (plan.problem start.dimension objective constraints
      sense).optimize minimizer plan.settings start.flatten (fun _ => false) = .ok solved :=
    Optima.optimize_responds hsettings hserves hresponds hnonempty hfinite
  have hsize := size_of_responds hsettings hserves hresponds hsolved
  obtain ⟨outcome, hback, hstatus⟩ :=
    readBack_returns hperiods hobjective hconstraints (hsize.trans hflat)
  refine ⟨outcome, bind_eq_ok.mpr ⟨solved, hsolved, hback⟩, ?_⟩
  intro hinfinite
  rw [hstatus]
  exact numericalError_of_start hsolved hinfinite

end Problem

section Given

variable {plan : Plan Float}

/-- A plan that has been read has a period, and steady settings. -/
theorem of_ofFields {fields : List (String × Datum)} (h : Plan.ofFields fields = .ok plan) :
    1 ≤ plan.periods ∧ plan.settings.Steady := by
  unfold Plan.ofFields at h
  split at h
  · obtain ⟨_, hthrow, -⟩ := bind_eq_ok.mp h
    exact absurd hthrow throw_ne_ok
  · simp only [bind_eq_ok, pure_eq_ok] at h
    obtain ⟨periods, hperiods, _, -, settings, hsettings, rfl⟩ := h
    exact ⟨Check.count_pos hperiods, (Settings.readFrom_of_ofFields hsettings).steady⟩

/-- The start has as many periods as the plan, and states like the given one. -/
theorem size_of_start {state : Vec Float} {given : Datum} {t : Trajectory Float}
    (h : plan.start state given = .ok t) :
    t.periods = plan.periods ∧ t.dimension = state.size := by
  unfold Plan.start at h
  split at h
  · unfold Trajectory.repeated Trajectory.constant at h
    split at h
    · cases h
    split at h
    · cases h
    rw [Trajectory.ofStates_eq_ok, Int.toNat_natCast] at h
    have hfirst : t.first ∈ t.states := List.mem_cons_self
    refine ⟨?_, ?_⟩
    · unfold Trajectory.periods
      rw [h, List.length_replicate]
    · rw [h] at hfirst
      exact congrArg Vec.size (List.eq_of_mem_replicate hfirst)
  · obtain ⟨t', -, h⟩ := bind_eq_ok.mp h
    split at h
    · next hsizes =>
        rw [pure_eq_ok] at h
        subst h
        simpa using hsizes
    · exact absurd h throw_ne_ok

end Given

end Optima.Plan
