import Optima.Proofs.Scenario.Impossible
import Optima.Proofs.Solver.CheckedSettings

/-!
When the optimization under scenarios returns. The expected objective has a value wherever the
objective has one in all scenarios, and the statistics of the report exist because the weights of
the scenarios do, which was checked when the list of scenarios was accepted.
-/

namespace Optima.Outlook

section Problem

variable {α : Type} [Scalar α] {o : Outlook α} {objective : Vec α → Scenario α → Except Fault α}
  {n : Nat}
  (hobjective : ∀ s ∈ o.scenarios, ∀ y, y.size = n → ∃ v, objective y s = .ok v)

include hobjective

/-- The objective is asked for in scenarios that can occur only. -/
theorem expected_returns {y : Vec α} (hy : y.size = n) : ∃ v, o.expected objective y = .ok v := by
  unfold expected
  apply foldlM_succeeds
  rintro total ⟨weight, s⟩ hmember
  have hactive : s ∈ o.active := (List.of_mem_zip hmember).2
  rw [active_eq_filter] at hactive
  obtain ⟨v, hv⟩ := hobjective s (List.mem_of_mem_filter hactive) y hy
  exact ⟨_, bind_eq_ok.mpr ⟨v, hv, rfl⟩⟩

theorem problem_responds {constraints : List (Constraint α)}
    (hconstraints : ∀ c ∈ constraints, c.Responds n) (sense : Sense) :
    (o.problem objective constraints sense).Responds n where
  objective _ hy := expected_returns hobjective hy
  residual c hc := (hconstraints c hc).residual
  gradient known hknown := by cases hknown
  gradients c hc := (hconstraints c hc).gradient

/-- The report exists for an accepted list of scenarios. -/
theorem report_returns {scenarios : List (Scenario α)} (hscenarios : ofScenarios scenarios = .ok o)
    (sense : Sense) {solved : Outcome α} (hsize : solved.solution.size = n) :
    ∃ outcome, o.report objective sense solved = .ok outcome ∧ outcome.status = solved.status := by
  obtain ⟨-, -, hlisted, hweights⟩ := ofScenarios_eq_ok.mp hscenarios
  rw [← hlisted] at hweights
  obtain ⟨values, hvalues⟩ : ∃ values,
      (o.scenarios.mapM fun s => objective solved.solution s) = .ok values :=
    mapM_succeeds fun s hs => hobjective s hs _ hsize
  have hlength : values.length = o.scenarios.length := (mapM_eq_ok.mp hvalues).length_eq.symm
  have hpaired : weightsFor values o.probabilities = .ok o.weights := by
    unfold probabilities
    rw [weightsFor_eq hlength]
    exact hweights
  have hmean : weightedMean values o.probabilities = .ok _ :=
    bind_eq_ok.mpr ⟨o.weights, hpaired, rfl⟩
  have hvariance : weightedVariance values o.probabilities = .ok _ :=
    bind_eq_ok.mpr ⟨o.weights, hpaired, rfl⟩
  exact ⟨_, report_eq_ok.mpr ⟨values, _, _, hvalues, hmean, hvariance, rfl⟩, rfl⟩

/-- The optimization returns, and says so if the expected objective at the start
is not finite. -/
theorem optimize_responds {scenarios : List (Scenario α)}
    (hscenarios : ofScenarios scenarios = .ok o) {minimizer : Minimizer α} {settings : Settings α}
    (hsettings : settings.Steady) (hserves : minimizer.Serves)
    {constraints : List (DecisionConstraint α)} {binding : List (Constraint α)}
    (hresolve : o.resolve constraints = .ok binding)
    (hconstraints : ∀ c ∈ binding, c.Responds n) {start : Vec α} (hsize : start.size = n)
    (hcomponents : start.toList.isEmpty = false) (hfinite : start.isFinite = true)
    (sense : Sense) :
    ∃ outcome, o.optimize minimizer settings objective start constraints sense = .ok outcome ∧
      ((∃ v, o.expected objective start = .ok v ∧ Scalar.isFinite v = false) →
        outcome.status = .numericalError) := by
  subst hsize
  have hresponds := problem_responds hobjective hconstraints sense
  obtain ⟨solved, hsolved⟩ : ∃ solved, (o.problem objective binding sense).optimize minimizer
      settings start (fun _ => false) = .ok solved :=
    Optima.optimize_responds hsettings hserves hresponds hcomponents hfinite
  have hsolution := size_of_responds hsettings hserves hresponds hsolved
  obtain ⟨outcome, hreport, hstatus⟩ := report_returns hobjective hscenarios sense hsolution
  refine ⟨outcome, ?_, ?_⟩
  · simp only [optimize, bind_eq_ok]
    exact ⟨binding, hresolve, solved, hsolved, hreport⟩
  · intro hinfinite
    rw [hstatus]
    exact numericalError_of_start hsolved hinfinite

end Problem

/-- What has been prepared is an accepted list of scenarios and steady
settings. -/
theorem of_prepareScenarios {items : List (Scenario Float ⊕ Datum)}
    {fields : List (String × Datum)} {o : Outlook Float} {settings : Settings Float}
    (h : prepareScenarios items fields = .ok (o, settings)) :
    (∃ scenarios, ofScenarios scenarios = .ok o) ∧ settings.Steady := by
  simp only [prepareScenarios, bind_eq_ok, pure_eq_ok, Prod.mk.injEq] at h
  obtain ⟨delayed, hdelayed, o', hdata, settings', hsettings, rfl, rfl⟩ := h
  obtain ⟨scenarios, -, hscenarios⟩ := bind_eq_ok.mp hdata
  refine ⟨⟨scenarios, hscenarios⟩, ?_⟩
  unfold Settings.ofAllowed at hdelayed
  split at hdelayed
  · obtain ⟨_, hthrow, -⟩ := bind_eq_ok.mp hdelayed
    exact absurd hthrow throw_ne_ok
  · obtain rfl := pure_eq_ok.mp hdelayed
    exact (Settings.readFrom_of_ofFields hsettings).steady

end Optima.Outlook
