import Optima.Proofs.Scenario.Mass
import Optima.Proofs.Solver.Returns

/-!
The standard error of an expected objective counts all scenarios, also those that cannot occur,
while the deviation that it is made of is taken over those that can. So scenarios with probability
zero make the error smaller and the interval narrower, although nothing else about the outcome
changes.
-/

namespace Optima

theorem Outlook.scenarios_of_optimize {α : Type} [Scalar α] {o : Outlook α}
    {minimizer : Minimizer α} {settings : Settings α}
    {objective : Vec α → Scenario α → Except Fault α} {start : Vec α}
    {constraints : List (DecisionConstraint α)} {sense : Sense} {outcome : ScenarioOutcome α}
    (h : o.optimize minimizer settings objective start constraints sense = .ok outcome) :
    outcome.scenarios = o.scenarios := by
  simp only [optimize, bind_eq_ok, report_eq_ok] at h
  obtain ⟨_, -, _, -, _, _, _, -, -, -, rfl⟩ := h
  rfl

namespace ScenarioOutcome.Unchanged

/-- All scenarios are counted, those that cannot occur included. -/
theorem standardError_eq {α : Type} [Scalar α] {inserted : List (Scenario α)}
    {o o' : ScenarioOutcome α} (h : o.Unchanged inserted o') :
    o'.standardError = o.deviation /
      Scalar.squareRoot (Scalar.natural (o.scenarios.length + inserted.length)) := by
  unfold standardError deviation
  rw [h.variance, h.scenarios.length_eq]

variable {inserted : List (Scenario ℝ)} {o o' : ScenarioOutcome ℝ}

/-- The error stays the same only if nothing is inserted or nothing deviates. -/
theorem standardError_same_iff (h : o.Unchanged inserted o') (hne : o.scenarios ≠ []) :
    o'.standardError = o.standardError ↔ inserted = [] ∨ o.deviation = 0 := by
  have hlength : 0 < o.scenarios.length := List.length_pos_iff.mpr hne
  have hcount (n : Nat) : Scalar.squareRoot (Scalar.natural n) = √(n : ℝ) := rfl
  rw [h.standardError_eq]
  unfold standardError
  rw [hcount, hcount]
  constructor
  · intro hsame
    by_contra hnot
    rw [not_or] at hnot
    obtain ⟨hinserted, hdeviation⟩ := hnot
    rw [div_eq_mul_inv, div_eq_mul_inv] at hsame
    have hroots := inv_inj.mp (mul_left_cancel₀ hdeviation hsame)
    rw [Real.sqrt_inj (by positivity) (by positivity), Nat.cast_inj] at hroots
    have hpositive : 0 < inserted.length := List.length_pos_iff.mpr hinserted
    omega
  · rintro (rfl | hdeviation)
    · rfl
    · rw [hdeviation, zero_div, zero_div]

/-- Both intervals have the same center, so they agree exactly if their errors do. -/
theorem interval_same_iff (h : o.Unchanged inserted o') {quantile : ℝ → ℝ} {level : ℝ}
    (herrors : errorsAt quantile level ≠ 0) :
    o'.interval quantile level = o.interval quantile level ↔
      o'.standardError = o.standardError := by
  unfold interval intervalAround
  rw [h.expectedObjective, Prod.mk.injEq]
  constructor
  · rintro ⟨-, hright⟩
    exact mul_left_cancel₀ herrors (add_left_cancel hright)
  · intro hsame
    rw [hsame]
    exact ⟨rfl, rfl⟩

end ScenarioOutcome.Unchanged

/-- Inserted scenarios with probability zero leave the expected objective and
the deviation of an outcome as they are, but they count in its standard error
and in its interval at every level. These are the same with and without them
exactly if nothing is inserted or the objective does not deviate. -/
theorem impossible_scenarios_shrink_standard_error {given inserted extended : List (Scenario ℝ)}
    {outlook : Outlook ℝ} (haccepted : Outlook.ofScenarios given = .ok outlook)
    (hextended : Interleaved given inserted extended)
    (hzero : ∀ t ∈ inserted, t.probability = 0)
    (hchecked : ∀ t ∈ inserted, t.name.check = .ok ())
    (hfresh : ∀ t ∈ inserted, ∀ s ∈ given, t.name.same s.name = false)
    (hdistinct : inserted.Pairwise fun t u => t.name.same u.name = false)
    {minimizer : Minimizer ℝ} {settings : Settings ℝ}
    {objective : Vec ℝ → Scenario ℝ → Except Fault ℝ}
    (hreturns : ∀ y e, outlook.expected objective y = .ok e →
      ∀ t ∈ inserted, ∃ v, objective y t = .ok v)
    {start : Vec ℝ} {constraints : List (DecisionConstraint ℝ)} {sense : Sense}
    (hnamed : ∀ c, .tagged c ∈ constraints →
      ∀ n ∈ c.scope.names, ∃ s ∈ given, n.same s.name = true)
    {outcome : ScenarioOutcome ℝ}
    (h : outlook.optimize minimizer settings objective start constraints sense = .ok outcome)
    {quantile : ℝ → ℝ} (hquantile : ∀ u, 1 / 2 < u → u < 1 → 0 < quantile u) {level : ℝ}
    (hlevel : 0 < level ∧ level < 1) :
    ∃ outlook' outcome', Outlook.ofScenarios extended = .ok outlook' ∧
      outlook'.optimize minimizer settings objective start constraints sense = .ok outcome' ∧
      outcome'.expectedObjective = outcome.expectedObjective ∧
      outcome'.deviation = outcome.deviation ∧
      outcome.standardError = outcome.deviation / √(given.length : ℝ) ∧
      outcome'.standardError = outcome.deviation / √(given.length + inserted.length : ℝ) ∧
      (outcome'.standardError = outcome.standardError ↔ inserted = [] ∨ outcome.deviation = 0) ∧
      (outcome'.interval quantile level = outcome.interval quantile level ↔
        inserted = [] ∨ outcome.deviation = 0) := by
  have himpossible : ∀ t ∈ inserted, Impossible t.probability := by
    intro t ht
    exact .of_same rfl ((Exact.same_iff _ _).mpr (hzero t ht))
  obtain ⟨outlook', haccepted', houtlook⟩ := Outlook.ofScenarios_extended haccepted hextended
    himpossible hchecked hfresh hdistinct
  obtain ⟨hne, -, hgiven, -⟩ := Outlook.ofScenarios_eq_ok.mp haccepted
  have hextras : Interleaved constraints ([].map DecisionConstraint.tagged) constraints :=
    .refl constraints
  have hresolve : outlook'.resolve constraints = outlook.resolve constraints :=
    houtlook.resolve_eq hextras (hgiven ▸ hnamed) (fun _ hc => nomatch hc)
  have hagree := houtlook.optimize_agree minimizer settings start sense hreturns hresolve
  rw [h] at hagree
  obtain ⟨outcome', h', hunchanged⟩ := hagree.of_ok
  have hscenarios : outcome.scenarios = given :=
    (Outlook.scenarios_of_optimize h).trans hgiven
  have herrors : errorsAt quantile level ≠ 0 := by
    refine (hquantile _ ?_ ?_).ne'
    · norm_num
      linarith
    · norm_num
      linarith
  have hsame := hunchanged.standardError_same_iff (hscenarios ▸ hne)
  refine ⟨outlook', outcome', haccepted', h', hunchanged.expectedObjective, ?_, ?_, ?_, hsame, ?_⟩
  · unfold ScenarioOutcome.deviation
    rw [hunchanged.variance]
  · rw [← hscenarios]
    rfl
  · rw [hunchanged.standardError_eq, hscenarios, ← Nat.cast_add]
    rfl
  · rw [hunchanged.interval_same_iff herrors]
    exact hsame

section Coin

def coin : List (Scenario ℝ) :=
  [⟨.ofText "heads", 1, [("gain", 1)]⟩, ⟨.ofText "tails", 1, [("gain", -1)]⟩]

def onEdge : Scenario ℝ := ⟨.ofText "edge", 0, [("gain", 1)]⟩

def coinGain (_ : Vec ℝ) (s : Scenario ℝ) : Except Fault ℝ := .ok ((s.get? "gain").getD 0)

def gainOf (P : List (String × ℝ)) : ℝ :=
  ((P.find? fun entry => entry.1 == "gain").map (·.2)).getD 0

def gainAmong (_ : Vec ℝ) (P : List (String × ℝ)) : Except Fault ℝ := .ok (gainOf P)

theorem coin_wholeMass : wholeMass coin = 2 := by
  norm_num [wholeMass, mass, coin]

theorem coin_accepted : Outlook.ofScenarios coin = .ok ⟨coin, [1 / 2, 1 / 2]⟩ := by
  have hpossible : isPossible (1 : ℝ) = true := (Exact.isPossible_iff 1).mpr one_pos
  refine Outlook.ofScenarios_iff_mass.mpr ⟨?_, ?_, ?_, rfl, ?_⟩
  · change Label.repeated [.ofText "heads", .ofText "tails"] = []
    rw [Label.repeated_eq_nil]
    decide +kernel
  · simp [coin]
  · rw [coin_wholeMass]
    exact two_pos
  · simp only [coin_wholeMass]
    simp only [coin, List.filter_cons, List.filter_nil, hpossible, if_true, List.map_cons,
      List.map_nil]

/-- The optimization over the coin has an outcome, with a deviation of one. -/
theorem coin_outcome {outlook : Outlook ℝ} (h : Outlook.ofScenarios coin = .ok outlook) :
    ∃ outcome,
      outlook.optimize staying modestSettings coinGain ⟨[0]⟩ [] .maximize = .ok outcome ∧
        outcome.deviation = 1 := by
  have hvalues (x : Vec ℝ) : ∀ s ∈ coin, gainAmong x s.parameters = .ok (gainOf s.parameters) :=
    fun _ _ => rfl
  have hevaluates : (outlook.problem coinGain [] .maximize).Evaluates 1 := by
    refine ⟨?_, fun c hc => (nomatch hc), rfl, fun c hc => (nomatch hc)⟩
    intro y _
    exact ⟨_, Outlook.expected_of_values h fun s hs _ => hvalues y s hs⟩
  obtain ⟨solved, hsolved⟩ : ∃ solved,
      (outlook.problem coinGain [] .maximize).optimize staying modestSettings ⟨[0]⟩
        (fun _ => false) = .ok solved :=
    optimize_returns modestSettings_accepted staying_keepsSize staying_answers hevaluates rfl
  obtain ⟨outcome, hreport, -, -, -, hexpected, hvariance⟩ :=
    Outlook.report_of_values h .maximize (hvalues solved.solution)
  have hmean : outcome.expectedObjective = 0 := by
    rw [hexpected]
    norm_num [mass, coin, gainOf]
  refine ⟨outcome, bind_eq_ok.mpr ⟨[], rfl, bind_eq_ok.mpr ⟨solved, hsolved, hreport⟩⟩, ?_⟩
  rw [ScenarioOutcome.deviation, hvariance, hmean, coin_wholeMass]
  norm_num [mass, coin, gainOf]

theorem coin_on_edge_shrinks_error :
    ∃ (quantile : ℝ → ℝ) (outlook outlook' : Outlook ℝ) (outcome outcome' : ScenarioOutcome ℝ),
      quantile (3 / 4) = 0.6744897501960817 ∧
      Outlook.ofScenarios coin = .ok outlook ∧ Outlook.ofScenarios (onEdge :: coin) = .ok outlook' ∧
      outlook.optimize staying modestSettings coinGain ⟨[0]⟩ [] .maximize = .ok outcome ∧
      outlook'.optimize staying modestSettings coinGain ⟨[0]⟩ [] .maximize = .ok outcome' ∧
      outcome'.expectedObjective = outcome.expectedObjective ∧
      outcome.standardError = 1 / √2 ∧ outcome'.standardError = 1 / √3 ∧
      outcome'.interval quantile (1 / 2) ≠ outcome.interval quantile (1 / 2) := by
  obtain ⟨outcome, houtcome, hdeviation⟩ := coin_outcome coin_accepted
  have hchecked : ∀ t ∈ [onEdge], t.name.check = .ok () := by
    intro t ht
    rw [List.mem_singleton.mp ht]
    rfl
  have hzero : ∀ t ∈ [onEdge], t.probability = 0 := by
    intro t ht
    rw [List.mem_singleton.mp ht]
    rfl
  have hfresh : ∀ t ∈ [onEdge], ∀ s ∈ coin, t.name.same s.name = false := by
    intro t ht s hs
    rw [List.mem_singleton.mp ht]
    simp only [coin, List.mem_cons, List.not_mem_nil, or_false] at hs
    rcases hs with rfl | rfl
    · decide +kernel
    · decide +kernel
  have hnamed : ∀ c, DecisionConstraint.tagged c ∈ ([] : List (DecisionConstraint ℝ)) →
      ∀ n ∈ c.scope.names, ∃ s ∈ coin, n.same s.name = true := by
    intro c hc
    cases hc
  -- The line through the quantiles of the normal distribution at one half and three quarters.
  have hquantile : ∀ u, 1 / 2 < u → u < 1 → 0 < 4 * 0.6744897501960817 * (u - 1 / 2 : ℝ) := by
    intro u hu _
    exact mul_pos (by norm_num) (sub_pos.mpr hu)
  have hlevel : 0 < (1 / 2 : ℝ) ∧ (1 / 2 : ℝ) < 1 := by norm_num
  obtain ⟨outlook', outcome', houtlook', houtcome', hexpected, -, herror, herror', -, hinterval⟩ :=
    impossible_scenarios_shrink_standard_error coin_accepted (.inserted (.refl coin)) hzero hchecked
      hfresh (List.pairwise_singleton _ _) (fun _ _ _ _ _ => ⟨_, rfl⟩) hnamed houtcome hquantile
      hlevel
  refine ⟨_, _, outlook', outcome, outcome', ?_, coin_accepted, houtlook', houtcome, houtcome',
    hexpected, ?_, ?_, hinterval.not.mpr ?_⟩
  · norm_num
  · rw [herror, hdeviation]
    norm_num [coin]
  · rw [herror', hdeviation]
    norm_num [coin]
  · rw [hdeviation]
    simp

end Coin

section Sampled

def tossed : List (Scenario Float) :=
  [⟨.ofText "heads", 0.5, [("gain", 3.0)]⟩, ⟨.ofText "tails", 0.5, [("gain", 1.0)]⟩]

def tossedOnEdge : List (Scenario Float) :=
  [⟨.ofText "heads", 0.5, [("gain", 3.0)]⟩, ⟨.ofText "edge", 0.0, [("gain", 7.0)]⟩,
    ⟨.ofText "tails", 0.5, [("gain", 1.0)]⟩, ⟨.ofText "floor", 0.0, [("gain", 2.0)]⟩]

def sampledGain (scenarios : List (Scenario Float)) : Except Fault (ScenarioOutcome Float) := do
  let settings ← SampleSettings.ofFields []
  optimizeSampledWith (fun _ _ _ start => .ok (start, ⟨[0.0]⟩)) settings none
    (some (scenarios.map .inl)) (gainRequest [])

/-- Two scenarios that cannot occur turn a standard error of the root of one
half into one half, and the interval becomes narrower. -/
theorem tossedOnEdge_changes_error :
    ∃ outcome outcome', sampledGain tossed = .ok outcome ∧ sampledGain tossedOnEdge = .ok outcome' ∧
      outcome'.expectedObjective = outcome.expectedObjective ∧
      outcome'.variance = outcome.variance ∧
      outcome.standardError = 0.7071067811865475 ∧ outcome'.standardError = 0.5 ∧
      (outcome.interval NormalQuantile.quantile 0.5).1 < 1.6 ∧
      1.6 < (outcome'.interval NormalQuantile.quantile 0.5).1 := by
  obtain ⟨outcome, hrun, hcheck⟩ : ∃ outcome, sampledGain tossed = .ok outcome ∧
      decide (outcome.expectedObjective = 2.0 ∧ outcome.variance = 1.0 ∧
        outcome.standardError = 0.7071067811865475 ∧
        (outcome.interval NormalQuantile.quantile 0.5).1 < 1.6) = true :=
    exists_ok_of_any (by decide +kernel)
  obtain ⟨outcome', hrun', hcheck'⟩ : ∃ outcome, sampledGain tossedOnEdge = .ok outcome ∧
      decide (outcome.expectedObjective = 2.0 ∧ outcome.variance = 1.0 ∧
        outcome.standardError = 0.5 ∧
        1.6 < (outcome.interval NormalQuantile.quantile 0.5).1) = true :=
    exists_ok_of_any (by decide +kernel)
  obtain ⟨hexpected, hvariance, herror, hinterval⟩ := of_decide_eq_true hcheck
  obtain ⟨hexpected', hvariance', herror', hinterval'⟩ := of_decide_eq_true hcheck'
  exact ⟨outcome, outcome', hrun, hrun', hexpected'.trans hexpected.symm,
    hvariance'.trans hvariance.symm, herror, herror', hinterval, hinterval'⟩

end Sampled

end Optima
