import Optima.Proofs.Scenario.SamplingError

/-!
What an optimization under scenarios depends on. In exact arithmetic it is only how much mass there
is on which parameters, compared with the whole mass. Scenarios may be listed in another order, all
probabilities may be multiplied by one number, and a scenario may be replaced by several with its
parameters that share its probability. Each of these multiplies all masses by the same number. So
the expected objective is the same function of the decision, one problem is solved, and the
statistics of its solution are the same quotients.
-/

namespace Optima

noncomputable def Scenario.scaled (c : ℝ) (s : Scenario ℝ) : Scenario ℝ :=
  { s with probability := c * s.probability }

/-- The second list spreads its probabilities over the same parameters in the same proportions: it
is the first one in another order, with all probabilities multiplied, or with one scenario split
into parts under fresh names. -/
inductive Redistributed : List (Scenario ℝ) → List (Scenario ℝ) → Prop where
  | permuted {given given' : List (Scenario ℝ)} (h : given.Perm given') :
      Redistributed given given'
  | scaled {given : List (Scenario ℝ)} {c : ℝ} (hpositive : 0 < c) :
      Redistributed given (given.map (Scenario.scaled c))
  | split {front rest parts : List (Scenario ℝ)} {s : Scenario ℝ} (hne : parts ≠ [])
      (hparameters : ∀ t ∈ parts, t.parameters = s.parameters)
      (hnonneg : ∀ t ∈ parts, 0 ≤ t.probability)
      (hsum : (parts.map (·.probability)).sum = s.probability)
      (hchecked : ∀ t ∈ parts, t.name.check = .ok ())
      (hfresh : ∀ t ∈ parts, ∀ u ∈ front ++ rest, t.name.same u.name = false)
      (hdistinct : parts.Pairwise fun t u => t.name.same u.name = false) :
      Redistributed (front ++ s :: rest) (front ++ parts ++ rest)

theorem mass_append (front rest : List (Scenario ℝ)) (f : List (String × ℝ) → ℝ) :
    mass (front ++ rest) f = mass front f + mass rest f := by
  rw [mass, List.map_append, List.sum_append]
  rfl

theorem mass_cons (s : Scenario ℝ) (rest : List (Scenario ℝ)) (f : List (String × ℝ) → ℝ) :
    mass (s :: rest) f = s.probability * f s.parameters + mass rest f := by
  rw [mass, List.map_cons, List.sum_cons]
  rfl

/-- Parts with the same parameters have the mass of their common probability. -/
theorem mass_parts {parts : List (Scenario ℝ)} {P : List (String × ℝ)}
    (h : ∀ t ∈ parts, t.parameters = P) (f : List (String × ℝ) → ℝ) :
    mass parts f = (parts.map (·.probability)).sum * f P := by
  rw [mass, ← List.sum_map_mul_right]
  refine congrArg List.sum (List.map_congr_left ?_)
  intro t ht
  rw [h t ht]

/-- There is mass on the parameters of scenarios that can occur, and on no others. -/
theorem mass_pos_iff {scenarios : List (Scenario ℝ)} (hnonneg : ∀ s ∈ scenarios, 0 ≤ s.probability)
    (P : List (String × ℝ)) :
    0 < mass scenarios (Set.indicator {P} 1) ↔
      ∃ s ∈ scenarios, 0 < s.probability ∧ s.parameters = P := by
  constructor
  · intro hmass
    by_contra hnone
    refine hmass.ne' (List.sum_eq_zero ?_)
    rw [List.forall_mem_map]
    intro s hs
    by_cases hP : s.parameters = P
    · have hzero : s.probability = 0 :=
        le_antisymm (not_lt.mp fun hpositive => hnone ⟨s, hs, hpositive, hP⟩) (hnonneg s hs)
      rw [hzero, zero_mul]
    · rw [Set.indicator_of_notMem (mt Set.mem_singleton_iff.mp hP), mul_zero]
  · rintro ⟨s, hs, hpositive, hP⟩
    refine lt_of_lt_of_le hpositive (List.single_le_sum ?_ _ ?_)
    · rw [List.forall_mem_map]
      intro t ht
      exact mul_nonneg (hnonneg t ht) (Set.indicator_nonneg (fun _ _ => zero_le_one) _)
    · refine List.mem_map.mpr ⟨s, hs, ?_⟩
      rw [Set.indicator_of_mem (Set.mem_singleton_iff.mpr hP)]
      exact mul_one s.probability

namespace Redistributed

variable {given given' : List (Scenario ℝ)} (h : Redistributed given given')

include h

/-- All masses are multiplied by the same positive number. -/
theorem mass_eq : ∃ c, 0 < c ∧ ∀ f, mass given' f = c * mass given f := by
  cases h with
  | permuted hperm =>
      refine ⟨1, one_pos, ?_⟩
      intro f
      rw [one_mul]
      exact ((hperm.map _).sum_eq).symm
  | @scaled _ c hpositive =>
      refine ⟨c, hpositive, ?_⟩
      intro f
      rw [mass, List.map_map, mass, ← List.sum_map_mul_left]
      refine congrArg List.sum (List.map_congr_left ?_)
      intro s _
      exact mul_assoc c s.probability (f s.parameters)
  | split _ hparameters _ hsum =>
      refine ⟨1, one_pos, ?_⟩
      intro f
      rw [one_mul, mass_append, mass_append, mass_append, mass_cons, mass_parts hparameters, hsum,
        add_assoc]

theorem nonneg (hnonneg : ∀ s ∈ given, 0 ≤ s.probability) : ∀ t ∈ given', 0 ≤ t.probability := by
  cases h with
  | permuted hperm => exact fun t ht => hnonneg t (hperm.mem_iff.mpr ht)
  | scaled hpositive =>
      rw [List.forall_mem_map]
      exact fun s hs => mul_nonneg hpositive.le (hnonneg s hs)
  | split _ _ hparts =>
      intro t ht
      simp only [List.mem_append] at ht
      rcases ht with (ht | ht) | ht
      · exact hnonneg t (by simp [ht])
      · exact hparts t ht
      · exact hnonneg t (by simp [ht])

/-- Names stay without repetitions. -/
theorem repeated_eq_nil (hrepeated : Label.repeated (given.map (·.name)) = []) :
    Label.repeated (given'.map (·.name)) = [] := by
  cases h with
  | permuted hperm =>
      have hnames := hperm.map (·.name)
      rw [Label.repeated_eq_nil] at hrepeated ⊢
      intro n hn
      rw [← hnames.countP_eq]
      exact hrepeated n (hnames.mem_iff.mpr hn)
  | scaled hpositive => rwa [List.map_map]
  | @split front rest parts s _ _ _ _ hchecked hfresh hdistinct =>
      have hothers : Label.repeated ((front ++ rest).map (·.name)) = [] := by
        have hsublist : ((front ++ rest).map (·.name)).Sublist
            ((front ++ s :: rest).map (·.name)) :=
          ((List.sublist_cons_self s rest).append_left front).map _
        rw [Label.repeated_eq_nil] at hrepeated ⊢
        intro n hn
        exact hsublist.countP_le.trans (hrepeated n (hsublist.subset hn))
      have hinserted := (Interleaved.between front parts rest).map (·.name)
      refine hinserted.repeated_eq_nil hothers
        (List.forall_mem_map.mpr hchecked) ?_ (List.pairwise_map.mpr hdistinct)
      rw [List.forall_mem_map]
      exact fun t ht => List.forall_mem_map.mpr (hfresh t ht)

/-- The scenarios have the same parameters. -/
theorem parameters_iff {P : List (String × ℝ)} :
    (∃ t ∈ given', t.parameters = P) ↔ ∃ s ∈ given, s.parameters = P := by
  cases h with
  | permuted hperm => simp only [hperm.mem_iff]
  | scaled hpositive => simp only [List.mem_map, exists_exists_and_eq_and, Scenario.scaled]
  | @split front rest parts s hne hparameters =>
      have hparts : (∃ t ∈ parts, t.parameters = P) ↔ s.parameters = P := by
        constructor
        · rintro ⟨t, ht, rfl⟩
          exact (hparameters t ht).symm
        · rintro rfl
          obtain ⟨t, ht⟩ := List.exists_mem_of_ne_nil _ hne
          exact ⟨t, ht, hparameters t ht⟩
      simp only [List.mem_append, List.mem_cons, or_and_right, exists_or, exists_eq_left, hparts,
        or_assoc]

/-- The scenarios that can occur have the same parameters. -/
theorem possible_iff (hnonneg : ∀ s ∈ given, 0 ≤ s.probability) {P : List (String × ℝ)} :
    (∃ t ∈ given', 0 < t.probability ∧ t.parameters = P) ↔
      ∃ s ∈ given, 0 < s.probability ∧ s.parameters = P := by
  obtain ⟨c, hpositive, hmass⟩ := h.mass_eq
  rw [← mass_pos_iff (h.nonneg hnonneg), ← mass_pos_iff hnonneg, hmass,
    mul_pos_iff_of_pos_left hpositive]

/-- Shares of the whole mass are the same. -/
theorem share_eq (f : List (String × ℝ) → ℝ) :
    mass given' f / wholeMass given' = mass given f / wholeMass given := by
  obtain ⟨c, hpositive, hmass⟩ := h.mass_eq
  rw [wholeMass, hmass, hmass, mul_div_mul_left _ _ hpositive.ne']
  rfl

/-- An accepted list stays accepted. -/
theorem accepted {o : Outlook ℝ} (ho : Outlook.ofScenarios given = .ok o) :
    ∃ o', Outlook.ofScenarios given' = .ok o' := by
  obtain ⟨hnames, hnonneg, hmass, -, -⟩ := Outlook.ofScenarios_iff_mass.mp ho
  obtain ⟨c, hpositive, hmasses⟩ := h.mass_eq
  have hmass' : 0 < wholeMass given' := by
    rw [wholeMass, hmasses]
    exact mul_pos hpositive hmass
  exact ⟨⟨given', _⟩, Outlook.ofScenarios_iff_mass.mpr
    ⟨h.repeated_eq_nil hnames, h.nonneg hnonneg, hmass', rfl, rfl⟩⟩

end Redistributed

/-- Where an objective fails in several scenarios, it fails in the same way. -/
def FailsAlike (rule : Vec ℝ → List (String × ℝ) → Except Fault ℝ)
    (scenarios : List (Scenario ℝ)) : Prop :=
  ∀ x, ∀ s ∈ scenarios, ∀ t ∈ scenarios, ∀ fault other,
    rule x s.parameters = .error fault → rule x t.parameters = .error other → other = fault

/-- An objective that always has a value never fails. -/
theorem FailsAlike.of_returns {rule : Vec ℝ → List (String × ℝ) → Except Fault ℝ}
    {scenarios : List (Scenario ℝ)}
    (h : ∀ x, ∀ s ∈ scenarios, ∃ v, rule x s.parameters = .ok v) : FailsAlike rule scenarios := by
  intro x s hs t _ fault other hfault _
  obtain ⟨v, hv⟩ := h x s hs
  rw [hfault] at hv
  cases hv

/-- Two outcomes that differ at most in what they list for the single scenarios. -/
structure ScenarioOutcome.SameFindings (o o' : ScenarioOutcome ℝ) : Prop where
  status : o'.status = o.status
  solution : o'.solution = o.solution
  iterations : o'.iterations = o.iterations
  expectedObjective : o'.expectedObjective = o.expectedObjective
  variance : o'.variance = o.variance

/-- Constraints that belong to no scenario in particular ask for the same whatever
the scenarios are. -/
theorem Outlook.resolve_unscoped {given given' : List (Scenario ℝ)} {o o' : Outlook ℝ}
    (ho : ofScenarios given = .ok o) (ho' : ofScenarios given' = .ok o')
    {constraints : List (DecisionConstraint ℝ)}
    (hscopes : ∀ c, .tagged c ∈ constraints → c.scope = .all) :
    o'.resolve constraints = o.resolve constraints := by
  have hbinds {scenarios : List (Scenario ℝ)} {p : Outlook ℝ}
      (hp : ofScenarios scenarios = .ok p) : p.binds .all = true := by
    obtain ⟨s, hs⟩ := List.exists_mem_of_ne_nil _ (active_ne_nil hp)
    exact List.any_eq_true.mpr ⟨s, hs, rfl⟩
  rw [resolve_eq_flatten, resolve_eq_flatten]
  refine (Interleaved.refl constraints).flatten_eq ?_ (fun _ hd => nomatch hd)
  intro d hd
  cases d with
  | plain c => rfl
  | tagged c =>
      have hscope := hscopes c hd
      simp only [resolveOne, hscope, hbinds ho, hbinds ho']
      rfl

namespace Redistributed

variable {given given' : List (Scenario ℝ)} (h : Redistributed given given') {o o' : Outlook ℝ}
  (ho : Outlook.ofScenarios given = .ok o) (ho' : Outlook.ofScenarios given' = .ok o')
  {rule : Vec ℝ → List (String × ℝ) → Except Fault ℝ} (halike : FailsAlike rule given)

include h

omit ho ho' in
/-- Splitting a scenario adds none that could fail in a new way. -/
theorem failsAlike (halike : FailsAlike rule given) : FailsAlike rule given' := by
  intro x s hs t ht fault other hfault hother
  obtain ⟨s', hs', hparameters⟩ := h.parameters_iff.mp ⟨s, hs, rfl⟩
  obtain ⟨t', ht', hparameters'⟩ := h.parameters_iff.mp ⟨t, ht, rfl⟩
  rw [← hparameters] at hfault
  rw [← hparameters'] at hother
  exact halike x s' hs' t' ht' fault other hfault hother

include ho ho' halike

/-- The expected objective is the same function of the decision. -/
theorem expected_eq : o'.expected (fun y s => rule y s.parameters) =
    o.expected (fun y s => rule y s.parameters) := by
  obtain ⟨-, hnonneg, -, -, -⟩ := Outlook.ofScenarios_iff_mass.mp ho
  funext x
  obtain ⟨f, hf⟩ | ⟨fault, s, hs, hfault⟩ := values_or_fault rule x o.active
  · have hvalues : ∀ s ∈ given, 0 < s.probability →
        rule x s.parameters = .ok (f s.parameters) :=
      fun s hs hpositive => hf s ((Outlook.mem_active ho).mpr ⟨hs, hpositive⟩)
    have hvalues' : ∀ t ∈ given', 0 < t.probability →
        rule x t.parameters = .ok (f t.parameters) := by
      intro t ht hpositive
      obtain ⟨s, hs, hpositive, hparameters⟩ :=
        (h.possible_iff hnonneg).mp ⟨t, ht, hpositive, rfl⟩
      rw [← hparameters]
      exact hvalues s hs hpositive
    rw [Outlook.expected_of_values ho hvalues, Outlook.expected_of_values ho' hvalues', h.share_eq]
  · obtain ⟨hmember, hpositive⟩ := (Outlook.mem_active ho).mp hs
    obtain ⟨t, ht, hpositive', hparameters⟩ :=
      (h.possible_iff hnonneg).mpr ⟨s, hmember, hpositive, rfl⟩
    have hfault' : rule x t.parameters = .error fault := by rw [hparameters, hfault]
    rw [Outlook.expected_of_fault ho
        (fun u hu other => halike x s hmember u hu fault other hfault)
        ⟨s, hmember, hpositive, hfault⟩,
      Outlook.expected_of_fault ho'
        (fun u hu other => h.failsAlike halike x t ht u hu fault other hfault')
        ⟨t, ht, hpositive', hfault'⟩]

/-- The findings about a solution are the same. -/
theorem report_agree (sense : Sense) (solved : Outcome ℝ) :
    Agree ScenarioOutcome.SameFindings (o.report (fun y s => rule y s.parameters) sense solved)
      (o'.report (fun y s => rule y s.parameters) sense solved) := by
  obtain ⟨f, hf⟩ | ⟨fault, s, hs, hfault⟩ := values_or_fault rule solved.solution given
  · have hf' : ∀ t ∈ given', rule solved.solution t.parameters = .ok (f t.parameters) := by
      intro t ht
      obtain ⟨s, hs, hparameters⟩ := h.parameters_iff.mp ⟨t, ht, rfl⟩
      rw [← hparameters]
      exact hf s hs
    obtain ⟨outcome, hreport, hstatus, hsolution, hiterations, hexpected, hvariance⟩ :=
      Outlook.report_of_values ho sense hf
    obtain ⟨outcome', hreport', hstatus', hsolution', hiterations', hexpected', hvariance'⟩ :=
      Outlook.report_of_values ho' sense hf'
    have hmeans : outcome'.expectedObjective = outcome.expectedObjective := by
      rw [hexpected', hexpected, h.share_eq]
    rw [hreport, hreport']
    refine ⟨hstatus'.trans hstatus.symm, hsolution'.trans hsolution.symm,
      hiterations'.trans hiterations.symm, hmeans, ?_⟩
    rw [hvariance', hvariance, hmeans, h.share_eq]
  · obtain ⟨t, ht, hparameters⟩ := h.parameters_iff.mpr ⟨s, hs, rfl⟩
    have hfault' : rule solved.solution t.parameters = .error fault := by rw [hparameters, hfault]
    have hfails {scenarios : List (Scenario ℝ)} {p : Outlook ℝ} (u : Scenario ℝ)
        (hp : Outlook.ofScenarios scenarios = .ok p) (hu : u ∈ scenarios)
        (hscenarios : FailsAlike rule scenarios)
        (hufault : rule solved.solution u.parameters = .error fault) :
        p.report (fun y s => rule y s.parameters) sense solved = .error fault := by
      obtain ⟨-, -, hlisted, -⟩ := Outlook.ofScenarios_eq_ok.mp hp
      unfold Outlook.report
      rw [hlisted, mapM_eq_error
        (fun w hw other => hscenarios solved.solution u hu w hw fault other hufault)
        ⟨u, hu, hufault⟩]
      rfl
    rw [hfails s ho hs halike hfault, hfails t ho' ht (h.failsAlike halike) hfault']
    exact rfl

/-- The solver sees the same expected objective for both lists, so it takes the same way. -/
theorem optimize_agree (minimizer : Minimizer ℝ) (settings : Settings ℝ) (start : Vec ℝ)
    {constraints : List (DecisionConstraint ℝ)}
    (hscopes : ∀ c, .tagged c ∈ constraints → c.scope = .all) (sense : Sense) :
    Agree ScenarioOutcome.SameFindings
      (o.optimize minimizer settings (fun y s => rule y s.parameters) start constraints sense)
      (o'.optimize minimizer settings (fun y s => rule y s.parameters) start constraints
        sense) := by
  have hproblem (binding : List (Constraint ℝ)) :
      o'.problem (fun y s => rule y s.parameters) binding sense =
        o.problem (fun y s => rule y s.parameters) binding sense := by
    unfold Outlook.problem
    rw [h.expected_eq ho ho' halike]
  unfold Outlook.optimize
  rw [Outlook.resolve_unscoped ho ho' hscopes]
  apply Agree.bind
  intro binding _
  rw [hproblem]
  apply Agree.bind
  intro solved _
  exact h.report_agree ho ho' halike sense solved

end Redistributed

/-- An optimization over an accepted list of scenarios, with an objective that
depends on the parameters of a scenario alone and that fails in one way at each
point, if it fails at all, and with constraints that belong to no scenario in
particular. A list that spreads its probabilities over the same parameters in
the same proportions is accepted too, and the optimization over it ends with the
same fault, or with the same status, solution, iterations, expected objective
and variance. The expected objective is what the solve reports as the objective
at the solution. -/
theorem optimization_depends_on_distribution {given given' : List (Scenario ℝ)}
    {outlook : Outlook ℝ} (haccepted : Outlook.ofScenarios given = .ok outlook)
    (hredistributed : Redistributed given given')
    {rule : Vec ℝ → List (String × ℝ) → Except Fault ℝ} (halike : FailsAlike rule given)
    {constraints : List (DecisionConstraint ℝ)}
    (hscopes : ∀ c, .tagged c ∈ constraints → c.scope = .all)
    (minimizer : Minimizer ℝ) (settings : Settings ℝ) (start : Vec ℝ) (sense : Sense) :
    let objective (x : Vec ℝ) (s : Scenario ℝ) := rule x s.parameters
    let result := outlook.optimize minimizer settings objective start constraints sense
    (∃ outlook', Outlook.ofScenarios given' = .ok outlook' ∧
      Agree ScenarioOutcome.SameFindings result
        (outlook'.optimize minimizer settings objective start constraints sense)) ∧
    ∀ outcome, result = .ok outcome →
      ∃ binding solved, outlook.resolve constraints = .ok binding ∧
        (outlook.problem objective binding sense).optimize minimizer settings start
          (fun _ => false) = .ok solved ∧
        outcome.solution = solved.solution ∧ outcome.expectedObjective = solved.objective := by
  obtain ⟨outlook', haccepted'⟩ := hredistributed.accepted haccepted
  refine ⟨⟨outlook', haccepted', ?_⟩, ?_⟩
  · exact hredistributed.optimize_agree haccepted haccepted' halike minimizer settings start hscopes
      sense
  · intro outcome h
    exact Outlook.expectedObjective_of_optimize haccepted h

section Coin

noncomputable def chippedTails : List (Scenario ℝ) :=
  [⟨.ofText "chipped", 1 / (4 : ℕ), [("gain", -1)]⟩,
    ⟨.ofText "smooth", (3 : ℕ) / (4 : ℕ), [("gain", -1)]⟩]

theorem chippedTails_redistributed :
    Redistributed coin (⟨.ofText "heads", 1, [("gain", 1)]⟩ :: chippedTails) := by
  have hforall {p : Scenario ℝ → Prop}
      (hchipped : p ⟨.ofText "chipped", 1 / (4 : ℕ), [("gain", -1)]⟩)
      (hsmooth : p ⟨.ofText "smooth", (3 : ℕ) / (4 : ℕ), [("gain", -1)]⟩) :
      ∀ t ∈ chippedTails, p t := by
    simp only [chippedTails, List.forall_mem_cons]
    exact ⟨hchipped, hsmooth, nofun⟩
  have hfresh : ∀ t ∈ chippedTails,
      ∀ u ∈ [Scenario.mk (.ofText "heads") (1 : ℝ) [("gain", 1)]] ++ [],
        t.name.same u.name = false := by
    simp only [List.append_nil, List.mem_singleton, forall_eq]
    exact hforall (by decide +kernel) (by decide +kernel)
  have hdistinct : chippedTails.Pairwise fun t u => t.name.same u.name = false := by
    simp only [chippedTails, List.pairwise_cons, List.mem_singleton, forall_eq]
    exact ⟨by decide +kernel, nofun, .nil⟩
  have hsum : (chippedTails.map (·.probability)).sum = 1 := by norm_num [chippedTails]
  change Redistributed ([_] ++ Scenario.mk (.ofText "tails") 1 [("gain", -1)] :: [])
    ([_] ++ chippedTails ++ [])
  exact .split (List.cons_ne_nil _ _) (hforall rfl rfl) (hforall (by norm_num) (by norm_num)) hsum
    (hforall rfl rfl) hfresh hdistinct

/-- The coin, with the sides swapped, with half the probabilities, and with the
tails split, leads to one outcome. -/
theorem redistributed_coin_same_findings :
    ∃ outlook outcome, Outlook.ofScenarios coin = .ok outlook ∧
      outlook.optimize staying modestSettings coinGain ⟨[0]⟩ [] .maximize = .ok outcome ∧
      outcome.deviation = 1 ∧
      ∀ given ∈ [coin.reverse, coin.map (Scenario.scaled (1 / 2)),
          ⟨.ofText "heads", 1, [("gain", 1)]⟩ :: chippedTails],
        ∃ outlook' outcome', Outlook.ofScenarios given = .ok outlook' ∧
          outlook'.optimize staying modestSettings coinGain ⟨[0]⟩ [] .maximize = .ok outcome' ∧
          outcome.SameFindings outcome' := by
  obtain ⟨outcome, houtcome, hdeviation⟩ := coin_outcome coin_accepted
  refine ⟨_, outcome, coin_accepted, houtcome, hdeviation, ?_⟩
  have halike : FailsAlike gainAmong coin := .of_returns fun _ _ _ => ⟨_, rfl⟩
  have hscopes : ∀ c, DecisionConstraint.tagged c ∈ ([] : List (DecisionConstraint ℝ)) →
      c.scope = .all := fun _ hc => nomatch hc
  have hsame (given : List (Scenario ℝ)) (h : Redistributed coin given) :
      ∃ outlook' outcome', Outlook.ofScenarios given = .ok outlook' ∧
        outlook'.optimize staying modestSettings coinGain ⟨[0]⟩ [] .maximize = .ok outcome' ∧
        outcome.SameFindings outcome' := by
    obtain ⟨⟨outlook', haccepted', hagree⟩, -⟩ := optimization_depends_on_distribution coin_accepted
      h halike hscopes staying modestSettings ⟨[0]⟩ .maximize
    change Agree _ (Outlook.optimize _ staying modestSettings coinGain _ _ _) _ at hagree
    rw [houtcome] at hagree
    obtain ⟨outcome', houtcome', hfindings⟩ := hagree.of_ok
    exact ⟨outlook', outcome', haccepted', houtcome', hfindings⟩
  simp only [List.forall_mem_cons]
  exact ⟨hsame _ (.permuted (List.reverse_perm coin).symm), hsame _ (.scaled (by norm_num)),
    hsame _ chippedTails_redistributed, nofun⟩

end Coin

end Optima
