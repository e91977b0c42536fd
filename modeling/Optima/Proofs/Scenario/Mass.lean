import Optima.Proofs.Statistics.Weights
import Optima.Proofs.Scenario.Impossible

/-!
Scenarios as a distribution of mass over parameters. In exact arithmetic the expected objective, its
reported mean and its reported variance are quotients of two masses: that of a quantity, where every
scenario counts with its probability, and that of everything. Scenarios that cannot occur have no
mass, so it does not matter that they are left out.
-/

namespace Optima

/-- The sum of a quantity over all scenarios, each of which counts with its probability. The
quantity depends on the parameters. -/
noncomputable def mass (scenarios : List (Scenario ℝ)) (f : List (String × ℝ) → ℝ) : ℝ :=
  (scenarios.map fun s => s.probability * f s.parameters).sum

noncomputable def wholeMass (scenarios : List (Scenario ℝ)) : ℝ := mass scenarios fun _ => 1

theorem zip_map_self {β γ : Type} (f : β → γ) (members : List β) :
    (members.map f).zip members = members.map fun b => (f b, b) := by
  rw [List.zip_eq_zipWith, List.zipWith_map_left, List.zipWith_self]

theorem zip_self_map {β γ : Type} (f : β → γ) (members : List β) :
    members.zip (members.map f) = members.map fun b => (b, f b) := by
  rw [List.zip_eq_zipWith, List.zipWith_map_right, List.zipWith_self]

namespace Outlook

theorem probabilities_sum (scenarios : List (Scenario ℝ)) :
    (scenarios.map (·.probability)).sum = wholeMass scenarios := by
  simp only [wholeMass, mass, mul_one]

/-- A list of scenarios is accepted if no name is repeated, no probability is
negative and there is some mass. -/
theorem ofScenarios_iff_mass {scenarios : List (Scenario ℝ)} {o : Outlook ℝ} :
    ofScenarios scenarios = .ok o ↔
      Label.repeated (scenarios.map (·.name)) = [] ∧ (∀ s ∈ scenarios, 0 ≤ s.probability) ∧
        0 < wholeMass scenarios ∧ o.scenarios = scenarios ∧
        o.weights = (scenarios.filter fun s => isPossible s.probability).map
          fun s => s.probability / wholeMass scenarios := by
  rw [ofScenarios_eq_ok, Exact.normalizedWeights_eq_ok, probabilities_sum, List.forall_mem_map,
    List.filter_map, List.map_map]
  constructor
  · rintro ⟨-, hnames, hscenarios, hnonneg, hmass, hweights⟩
    exact ⟨hnames, hnonneg, hmass, hscenarios, hweights⟩
  · rintro ⟨hnames, hnonneg, hmass, hscenarios, hweights⟩
    refine ⟨?_, hnames, hscenarios, hnonneg, hmass, hweights⟩
    rintro rfl
    exact lt_irrefl _ hmass

section Accepted

variable {scenarios : List (Scenario ℝ)} {o : Outlook ℝ} (h : ofScenarios scenarios = .ok o)
  {rule : Vec ℝ → List (String × ℝ) → Except Fault ℝ} {x : Vec ℝ} {f : List (String × ℝ) → ℝ}

include h

/-- A weighted sum over what can occur is a share of the whole mass. -/
theorem sum_weighted (f : List (String × ℝ) → ℝ) :
    (o.active.map fun s => s.probability / wholeMass scenarios * f s.parameters).sum =
      mass scenarios f / wholeMass scenarios := by
  obtain ⟨-, hnonneg, -, rfl, -⟩ := ofScenarios_iff_mass.mp h
  rw [active_eq_filter, sum_filter_eq, mass, div_eq_mul_inv, ← List.sum_map_mul_right]
  · refine congrArg List.sum (List.map_congr_left ?_)
    intro s _
    ring
  · intro s hs hpossible
    rw [Exact.eq_zero_of_not_isPossible (hnonneg s hs) hpossible, zero_div, zero_mul]

/-- Weights are probabilities in proportion to all that can occur. -/
theorem weights_eq : o.weights = o.active.map fun s => s.probability / wholeMass scenarios := by
  obtain ⟨-, -, -, rfl, hweights⟩ := ofScenarios_iff_mass.mp h
  rw [active_eq_filter, hweights]

theorem mem_active {s : Scenario ℝ} : s ∈ o.active ↔ s ∈ scenarios ∧ 0 < s.probability := by
  obtain ⟨-, -, -, rfl, -⟩ := ofScenarios_iff_mass.mp h
  rw [active_eq_filter, List.mem_filter, Exact.isPossible_iff]

/-- The expected objective where the objective has values. -/
theorem expected_of_values
    (hvalues : ∀ s ∈ scenarios, 0 < s.probability → rule x s.parameters = .ok (f s.parameters)) :
    o.expected (fun y s => rule y s.parameters) x =
      .ok (mass scenarios f / wholeMass scenarios) := by
  have hfold (members : List (Scenario ℝ)) (start : ℝ)
      (hmembers : ∀ s ∈ members, rule x s.parameters = .ok (f s.parameters)) :
      (members.map fun s => (s.probability / wholeMass scenarios, s)).foldlM
          (fun total (weight, s) => do return total + weight * (← rule x s.parameters)) start =
        .ok (start +
          (members.map fun s => s.probability / wholeMass scenarios * f s.parameters).sum) := by
    induction members generalizing start with
    | nil => exact congrArg Except.ok (add_zero start).symm
    | cons s rest ih =>
        obtain ⟨hfirst, hrest⟩ := List.forall_mem_cons.mp hmembers
        simp only [List.map_cons, List.foldlM_cons, hfirst, List.sum_cons, ← add_assoc]
        exact ih _ hrest
  have hactive : ∀ s ∈ o.active, rule x s.parameters = .ok (f s.parameters) := by
    intro s hs
    obtain ⟨hmember, hpositive⟩ := (mem_active h).mp hs
    exact hvalues s hmember hpositive
  unfold expected
  rw [weights_eq h, zip_map_self, hfold o.active 0 hactive, sum_weighted h, zero_add]

/-- The expected objective fails where the objective does, if it can only fail in
one way. -/
theorem expected_of_fault {fault : Fault}
    (halike : ∀ s ∈ scenarios, ∀ other, rule x s.parameters = .error other → other = fault)
    (hfault : ∃ s ∈ scenarios, 0 < s.probability ∧ rule x s.parameters = .error fault) :
    o.expected (fun y s => rule y s.parameters) x = .error fault := by
  unfold expected
  apply foldlM_eq_error
  · rintro total ⟨weight, s⟩ hmember other hother
    have hs := ((mem_active h).mp (List.of_mem_zip hmember).2).1
    cases hresult : rule x s.parameters with
    | error found =>
        simp only [hresult] at hother
        cases hother
        exact halike s hs other hresult
    | ok v =>
        simp only [hresult] at hother
        cases hother
  · obtain ⟨s, hs, hpositive, hfails⟩ := hfault
    have hactive : s ∈ o.active := (mem_active h).mpr ⟨hs, hpositive⟩
    refine ⟨(s.probability / wholeMass scenarios, s), ?_, ?_⟩
    · rw [weights_eq h, zip_map_self]
      exact List.mem_map.mpr ⟨s, hactive, rfl⟩
    · intro total
      simp only [hfails]
      rfl

/-- The report on a solution at which the objective has values. -/
theorem report_of_values (sense : Sense) {solved : Outcome ℝ}
    (hvalues : ∀ s ∈ scenarios, rule solved.solution s.parameters = .ok (f s.parameters)) :
    ∃ outcome, o.report (fun y s => rule y s.parameters) sense solved = .ok outcome ∧
      outcome.status = solved.status ∧ outcome.solution = solved.solution ∧
      outcome.iterations = solved.iterations ∧
      outcome.expectedObjective = mass scenarios f / wholeMass scenarios ∧
      outcome.variance =
        mass scenarios (fun P => (f P - outcome.expectedObjective) ^ 2) /
          wholeMass scenarios := by
  obtain ⟨-, -, hlisted, hnormalized⟩ := ofScenarios_eq_ok.mp h
  subst hlisted
  have hmapped : (o.scenarios.mapM fun s => rule solved.solution s.parameters) =
      .ok (o.scenarios.map fun s => f s.parameters) := by
    rw [mapM_eq_ok, List.forall₂_map_right_iff, List.forall₂_same]
    exact hvalues
  have hweights : weightsFor (o.scenarios.map fun s => f s.parameters) o.probabilities =
      .ok o.weights := by
    unfold probabilities
    rw [weightsFor_eq (List.length_map _)]
    exact hnormalized
  have hpossible : possible o.probabilities (o.scenarios.map fun s => f s.parameters) =
      o.active.map fun s => f s.parameters := by
    unfold probabilities
    rw [possible_map, active_eq_filter, zip_self_map, List.filter_map, List.map_map]
    rfl
  have hmean : weightedMean (o.scenarios.map fun s => f s.parameters) o.probabilities =
      .ok (mass o.scenarios f / wholeMass o.scenarios) := by
    simp only [weightedMean, hweights, hpossible, bind_eq_ok, pure_eq_ok]
    refine ⟨_, rfl, ?_⟩
    rw [meanOf, weights_eq h, List.zipWith_map, List.zipWith_self, Exact.total_eq, sum_weighted h]
  have hvariance : weightedVariance (o.scenarios.map fun s => f s.parameters) o.probabilities =
      .ok (mass o.scenarios (fun P => (f P - mass o.scenarios f / wholeMass o.scenarios) ^ 2) /
        wholeMass o.scenarios) := by
    simp only [weightedVariance, hweights, hpossible, bind_eq_ok, pure_eq_ok]
    refine ⟨_, rfl, ?_⟩
    have hmeanOf : meanOf o.weights (o.active.map fun s => f s.parameters) =
        mass o.scenarios f / wholeMass o.scenarios := by
      rw [meanOf, weights_eq h, List.zipWith_map, List.zipWith_self, Exact.total_eq, sum_weighted h]
    simp only [varianceOf, hmeanOf]
    rw [weights_eq h, List.zipWith_map, List.zipWith_self, Exact.total_eq]
    refine Eq.trans (congrArg List.sum (List.map_congr_left ?_)) (sum_weighted h _)
    intro s _
    ring
  exact ⟨_, report_eq_ok.mpr ⟨_, _, _, hmapped, hmean, hvariance, rfl⟩, rfl, rfl, rfl, rfl, rfl⟩

end Accepted

end Outlook

/-- An objective has values in all scenarios of a list, or it fails in one. -/
theorem values_or_fault (rule : Vec ℝ → List (String × ℝ) → Except Fault ℝ) (x : Vec ℝ)
    (scenarios : List (Scenario ℝ)) :
    (∃ f : List (String × ℝ) → ℝ, ∀ s ∈ scenarios,
        rule x s.parameters = .ok (f s.parameters)) ∨
      ∃ fault, ∃ s ∈ scenarios, rule x s.parameters = .error fault := by
  by_cases hfault : ∃ fault, ∃ s ∈ scenarios, rule x s.parameters = .error fault
  · exact Or.inr hfault
  · refine Or.inl ⟨fun P => (rule x P).toOption.getD 0, ?_⟩
    intro s hs
    cases hresult : rule x s.parameters with
    | error fault => exact absurd ⟨fault, s, hs, hresult⟩ hfault
    | ok v =>
        simp only [hresult]
        rfl

/-- The reported expected objective is the objective that the solve reports. -/
theorem Outlook.expectedObjective_of_optimize {scenarios : List (Scenario ℝ)} {o : Outlook ℝ}
    (ho : ofScenarios scenarios = .ok o) {minimizer : Minimizer ℝ} {settings : Settings ℝ}
    {rule : Vec ℝ → List (String × ℝ) → Except Fault ℝ} {start : Vec ℝ}
    {constraints : List (DecisionConstraint ℝ)} {sense : Sense} {outcome : ScenarioOutcome ℝ}
    (h : o.optimize minimizer settings (fun y s => rule y s.parameters) start constraints sense =
      .ok outcome) :
    ∃ binding solved, o.resolve constraints = .ok binding ∧
      (o.problem (fun y s => rule y s.parameters) binding sense).optimize minimizer settings start
        (fun _ => false) = .ok solved ∧
      outcome.solution = solved.solution ∧ outcome.expectedObjective = solved.objective := by
  simp only [optimize, bind_eq_ok] at h
  obtain ⟨binding, hbinding, solved, hsolved, hreport⟩ := h
  obtain ⟨-, -, hlisted, -⟩ := ofScenarios_eq_ok.mp ho
  obtain ⟨f, hf⟩ | ⟨fault, s, hs, hfault⟩ := values_or_fault rule solved.solution scenarios
  · obtain ⟨outcome', hreport', -, hsolution, -, hexpected, -⟩ := report_of_values ho sense hf
    obtain rfl : outcome' = outcome := Except.ok.inj (hreport'.symm.trans hreport)
    have hmeasured : o.expected (fun y s => rule y s.parameters) solved.solution =
        .ok solved.objective := (measured_of_optimize hsolved).1
    rw [expected_of_values ho fun s hs _ => hf s hs] at hmeasured
    exact ⟨binding, solved, hbinding, hsolved, hsolution, hexpected.trans (Except.ok.inj hmeasured)⟩
  · obtain ⟨_, _, _, hvalues, -⟩ := report_eq_ok.mp hreport
    obtain ⟨v, -, hv⟩ := result_of_mapM hvalues (hlisted ▸ hs)
    rw [hfault] at hv
    cases hv

end Optima
