import Optima.Optimizer.Scenario
import Optima.Proofs.Scalar.Numbers
import Optima.Proofs.Scenario.Interleaved
import Optima.Proofs.Scenario.Names
import Optima.Proofs.Solver.Soundness

/-!
Scenarios that cannot occur have no effect. Two runs are compared, one of them with scenarios of
probability zero inserted anywhere, and perhaps with constraints that belong to these only.
Everything that decides about the solution looks at the scenarios that can occur, and these are the
same: the weights, the expected objective and the constraints that bind. So the two runs solve one
problem, and their reports differ only by the objectives of the inserted scenarios.
-/

namespace Optima

open Scalar

variable {α : Type} [Scalar α]

/-- A probability that is accepted and that nothing with it can occur. -/
structure Impossible (p : α) : Prop where
  accepted : (less p 0 || !isFinite p) = false
  impossible : isPossible p = false

/-- Nothing occurs with a probability of zero. -/
theorem Impossible.of_same [Ranked α] {p : α} (hfinite : isFinite p = true)
    (h : same p 0 = true) : Impossible p := by
  obtain ⟨hp, hzero, hrank⟩ := (Ranked.same_iff p 0).mp h
  have hless : less p 0 = false := by
    rw [Ranked.less_eq_decide hp hzero, hrank]
    exact decide_eq_false (lt_irrefl _)
  have hgreater : less 0 p = false := by
    rw [Ranked.less_eq_decide hzero hp, hrank]
    exact decide_eq_false (lt_irrefl _)
  refine ⟨?_, hgreater⟩
  rw [hless, hfinite]
  rfl

section Statistics

variable {xs ys zs : List (Scenario α)}

/-- Inserted impossible probabilities do not change the weights. -/
theorem normalizedWeights_extended (h : Interleaved xs ys zs)
    (hys : ∀ t ∈ ys, Impossible t.probability) :
    normalizedWeights (zs.map (·.probability)) = normalizedWeights (xs.map (·.probability)) := by
  have hprobabilities := h.map (·.probability)
  have hall : ∀ p ∈ ys.map (·.probability), Impossible p := by
    intro p hp
    obtain ⟨t, ht, rfl⟩ := List.mem_map.mp hp
    exact hys t ht
  unfold normalizedWeights
  rw [hprobabilities.any_eq fun p hp => (hall p hp).accepted,
    hprobabilities.filter_eq fun p hp => (hall p hp).impossible]

theorem possible_map {β γ : Type} (f : β → α) (items : List β) (values : List γ) :
    possible (items.map f) values =
      ((items.zip values).filter fun entry => isPossible (f entry.1)).map (·.2) := by
  unfold possible
  rw [List.zip_map_left, List.filter_map, List.map_map]
  rfl

/-- Statistics over a list with impossible members inserted are those over
the list. -/
theorem possible_extended {values others results : List α}
    (hys : ∀ t ∈ ys, Impossible t.probability)
    (h : Interleaved (xs.zip values) (ys.zip others) (zs.zip results)) :
    possible (zs.map (·.probability)) results = possible (xs.map (·.probability)) values := by
  rw [possible_map, possible_map, h.filter_eq]
  rintro ⟨t, v⟩ hentry
  exact (hys t (List.of_mem_zip hentry).1).impossible

theorem weightsFor_eq {values : List α} (h : values.length = xs.length) :
    weightsFor values (xs.map (·.probability)) = normalizedWeights (xs.map (·.probability)) := by
  unfold weightsFor
  rw [h, List.length_map, beq_self_eq_true]
  rfl

end Statistics

theorem Scope.appliesTo_eq_any {scope : Scope} (h : scope ≠ .all) (name : Label) :
    scope.appliesTo name = scope.names.any name.same := by
  cases scope with
  | all => exact absurd rfl h
  | one n => rfl
  | several names => rfl

/-- Names stay without repetitions if fresh ones are inserted among them. -/
theorem Interleaved.repeated_eq_nil {names inserted extended : List Label}
    (h : Interleaved names inserted extended) (hrepeated : Label.repeated names = [])
    (hchecked : ∀ n ∈ inserted, n.check = .ok ())
    (hfresh : ∀ n ∈ inserted, ∀ m ∈ names, n.same m = false)
    (hdistinct : inserted.Pairwise fun n m => n.same m = false) :
    Label.repeated extended = [] := by
  have hapart : ∀ n ∈ inserted, ∀ m ∈ names, m.same n = false := by
    intro n hn m hm
    rw [← Bool.not_eq_true]
    intro hsame
    have hback := Label.same_symm (hchecked n hn) hsame
    rw [hfresh n hn m hm] at hback
    cases hback
  rw [Label.repeated_eq_nil] at hrepeated ⊢
  intro name hname
  rw [h.countP_eq]
  rcases h.mem_iff.mp hname with hname | hname
  · have hnone : inserted.countP name.same = 0 := by
      rw [List.countP_eq_zero]
      intro n hn
      rw [hapart n hn name hname]
      exact Bool.false_ne_true
    rw [hnone]
    exact hrepeated name hname
  · have hnone : names.countP name.same = 0 := by
      rw [List.countP_eq_zero]
      intro m hm
      rw [hfresh name hname m hm]
      exact Bool.false_ne_true
    rw [hnone, Nat.zero_add]
    exact Label.countP_same_le_one hchecked hdistinct hname

/-- The second outlook is the first one with scenarios inserted that cannot occur, under fresh
names. -/
structure Outlook.Extended (o : Outlook α) (inserted : List (Scenario α)) (o' : Outlook α) :
    Prop where
  scenarios : Interleaved o.scenarios inserted o'.scenarios
  weights : o'.weights = o.weights
  impossible : ∀ t ∈ inserted, Impossible t.probability
  checked : ∀ t ∈ inserted, t.name.check = .ok ()
  fresh : ∀ t ∈ inserted, ∀ s ∈ o.scenarios, t.name.same s.name = false

/-- The second outcome is the first one, with further scenarios reported. -/
structure ScenarioOutcome.Unchanged (inserted : List (Scenario α)) (o o' : ScenarioOutcome α) :
    Prop where
  status : o'.status = o.status
  solution : o'.solution = o.solution
  iterations : o'.iterations = o.iterations
  expectedObjective : o'.expectedObjective = o.expectedObjective
  variance : o'.variance = o.variance
  objectives : ∃ entries, entries.map (·.1) = inserted.map (·.name) ∧
    Interleaved o.objectives entries o'.objectives
  scenarios : Interleaved o.scenarios inserted o'.scenarios

namespace Outlook

variable {o o' : Outlook α} {inserted : List (Scenario α)}

theorem ofScenarios_eq_ok {scenarios : List (Scenario α)} :
    ofScenarios scenarios = .ok o ↔
      scenarios ≠ [] ∧ Label.repeated (scenarios.map (·.name)) = [] ∧ o.scenarios = scenarios ∧
        normalizedWeights (scenarios.map (·.probability)) = .ok o.weights := by
  unfold ofScenarios
  cases scenarios with
  | nil =>
      simp only [List.isEmpty_nil, if_true, ne_eq, not_true_eq_false, false_and, iff_false]
      intro h
      obtain ⟨_, hthrow, -⟩ := bind_eq_ok.mp h
      exact throw_ne_ok hthrow
  | cons first rest =>
      cases hrepeated : Label.repeated ((first :: rest).map (·.name)) with
      | nil =>
          simp only [List.isEmpty_cons, Bool.false_eq_true, if_false, List.isEmpty_nil,
            Bool.not_true, bind_eq_ok, pure_eq_ok, ne_eq, reduceCtorEq, not_false_eq_true, true_and]
          constructor
          · rintro ⟨weights, hweights, rfl⟩
            exact ⟨rfl, hweights⟩
          · rintro ⟨hscenarios, hweights⟩
            obtain ⟨scenarios, weights⟩ := o
            cases hscenarios
            exact ⟨weights, hweights, rfl⟩
      | cons name others =>
          simp only [List.isEmpty_cons, Bool.false_eq_true, if_false, Bool.not_false, if_true,
            reduceCtorEq, false_and, and_false, iff_false]
          intro h
          obtain ⟨_, -, h⟩ := bind_eq_ok.mp h
          obtain ⟨_, -, h⟩ := bind_eq_ok.mp h
          obtain ⟨_, hthrow, -⟩ := bind_eq_ok.mp h
          exact throw_ne_ok hthrow

theorem report_eq_ok {objective : Vec α → Scenario α → Except Fault α} {sense : Sense}
    {solved : Outcome α} {outcome : ScenarioOutcome α} :
    o.report objective sense solved = .ok outcome ↔
      ∃ values mean variance,
        (o.scenarios.mapM fun s => objective solved.solution s) = .ok values ∧
        weightedMean values o.probabilities = .ok mean ∧
        weightedVariance values o.probabilities = .ok variance ∧
        outcome =
          { status := solved.status, solution := solved.solution, expectedObjective := mean,
            objectives := (o.scenarios.map (·.name)).zip values, variance,
            iterations := solved.iterations, scenarios := o.scenarios, sense } := by
  simp only [report, bind_eq_ok, pure_eq_ok, eq_comm (b := outcome)]
  constructor
  · rintro ⟨values, hvalues, mean, hmean, variance, hvariance, rfl⟩
    exact ⟨values, mean, variance, hvalues, hmean, hvariance, rfl⟩
  · rintro ⟨values, mean, variance, hvalues, hmean, hvariance, rfl⟩
    exact ⟨values, hvalues, mean, hmean, variance, hvariance, rfl⟩

theorem active_eq_filter (o : Outlook α) :
    o.active = o.scenarios.filter fun s => isPossible s.probability := by
  unfold active probabilities
  rw [possible_map]
  induction o.scenarios with
  | nil => rfl
  | cons s rest ih =>
      rw [List.zip_cons_cons, List.filter_cons, List.filter_cons]
      split
      · rw [List.map_cons, ih]
      · exact ih

/-- In an accepted list some scenario can occur. -/
theorem active_ne_nil [Ranked α] {scenarios : List (Scenario α)}
    (h : ofScenarios scenarios = .ok o) : o.active ≠ [] := by
  obtain ⟨-, -, rfl, hweights⟩ := ofScenarios_eq_ok.mp h
  rw [active_eq_filter]
  intro hnone
  have hpositive : (o.scenarios.map (·.probability)).filter isPossible = [] := by
    rw [List.filter_map]
    exact List.map_eq_nil_iff.mpr hnone
  have htotal : atMost (total ([] : List α)) 0 = true := by
    rw [total]
    exact (Ranked.atMost_iff 0 0).mpr ⟨Ranked.zero_defined, Ranked.zero_defined, le_rfl⟩
  simp only [normalizedWeights, hpositive, htotal] at hweights
  split at hweights
  · cases hweights
  · cases hweights

omit [Scalar α] in
theorem unknownNames_eq_nil {scope : Scope} :
    o.unknownNames scope = [] ↔ ∀ n ∈ scope.names, ∃ s ∈ o.scenarios, n.same s.name = true := by
  simp only [unknownNames, List.filter_eq_nil_iff, Bool.not_eq_true', Bool.not_eq_false,
    List.any_eq_true]

theorem resolve_eq_flatten (o : Outlook α) (constraints : List (DecisionConstraint α)) :
    o.resolve constraints = List.flatten <$> constraints.mapM o.resolveOne := by
  unfold resolve
  cases constraints.mapM o.resolveOne with
  | error fault => rfl
  | ok found => rfl

/-- An accepted list of scenarios stays accepted. -/
theorem ofScenarios_extended {given extended : List (Scenario α)} (h : ofScenarios given = .ok o)
    (hextended : Interleaved given inserted extended)
    (himpossible : ∀ t ∈ inserted, Impossible t.probability)
    (hchecked : ∀ t ∈ inserted, t.name.check = .ok ())
    (hfresh : ∀ t ∈ inserted, ∀ s ∈ given, t.name.same s.name = false)
    (hdistinct : inserted.Pairwise fun t u => t.name.same u.name = false) :
    ∃ o', ofScenarios extended = .ok o' ∧ o.Extended inserted o' := by
  obtain ⟨hne, hrepeated, rfl, hweights⟩ := ofScenarios_eq_ok.mp h
  have hrepeated' : Label.repeated (extended.map (·.name)) = [] := by
    refine (hextended.map (·.name)).repeated_eq_nil hrepeated (List.forall_mem_map.mpr hchecked) ?_
      (List.pairwise_map.mpr hdistinct)
    rw [List.forall_mem_map]
    exact fun t ht => List.forall_mem_map.mpr (hfresh t ht)
  have hne' : extended ≠ [] := by
    obtain ⟨s, hs⟩ := List.exists_mem_of_ne_nil _ hne
    exact List.ne_nil_of_mem (hextended.mem_iff.mpr (Or.inl hs))
  have hweights' : normalizedWeights (extended.map (·.probability)) = .ok o.weights := by
    rw [normalizedWeights_extended hextended himpossible]
    exact hweights
  refine ⟨⟨extended, o.weights⟩, ofScenarios_eq_ok.mpr ⟨hne', hrepeated', rfl, hweights'⟩, ?_⟩
  exact ⟨hextended, rfl, himpossible, hchecked, hfresh⟩

namespace Extended

theorem active_eq (h : o.Extended inserted o') : o'.active = o.active := by
  rw [active_eq_filter, active_eq_filter]
  exact h.scenarios.filter_eq fun t ht => (h.impossible t ht).impossible

theorem checkNames_eq (h : o.Extended inserted o') : o'.checkNames = o.checkNames :=
  h.scenarios.forM_eq h.checked

/-- A scenario without weight is not evaluated, so it does not matter what it would give. -/
theorem expected_eq (h : o.Extended inserted o')
    (objective : Vec α → Scenario α → Except Fault α) :
    o'.expected objective = o.expected objective := by
  unfold expected
  rw [h.weights, h.active_eq]

/-- Constraints that name given scenarios only are resolved as before. -/
theorem resolveOne_eq (h : o.Extended inserted o') {c : DecisionConstraint α}
    (hnamed : ∀ d, c = .tagged d → ∀ n ∈ d.scope.names, ∃ s ∈ o.scenarios, n.same s.name = true) :
    o'.resolveOne c = o.resolveOne c := by
  cases c with
  | plain d => rfl
  | tagged d =>
      have hknown (p : Outlook α) (hp : ∀ s ∈ o.scenarios, s ∈ p.scenarios) :
          p.unknownNames d.scope = [] := by
        rw [unknownNames_eq_nil]
        intro n hn
        obtain ⟨s, hs, hsame⟩ := hnamed d rfl n hn
        exact ⟨s, hp s hs, hsame⟩
      have hbinds : o'.binds d.scope = o.binds d.scope := by
        unfold binds
        rw [h.active_eq]
      simp only [resolveOne, hbinds, hknown o fun _ hs => hs,
        hknown o' fun s hs => h.scenarios.mem_iff.mpr (Or.inl hs)]

/-- Constraints that name inserted scenarios only do not bind. -/
theorem resolveOne_scoped (h : o.Extended inserted o') {c : ScenarioConstraint α}
    (hscope : c.scope ≠ .all)
    (hnamed : ∀ n ∈ c.scope.names, ∃ t ∈ inserted, n.same t.name = true) :
    o'.resolveOne (.tagged c) = .ok [] := by
  have hchecks : c.scope.names.forM Label.check = .ok () := by
    rw [forM_eq_ok]
    intro n hn
    obtain ⟨t, ht, hsame⟩ := hnamed n hn
    exact Label.check_of_same (h.checked t ht) hsame
  have hknown : o'.unknownNames c.scope = [] := by
    rw [unknownNames_eq_nil]
    intro n hn
    obtain ⟨t, ht, hsame⟩ := hnamed n hn
    exact ⟨t, h.scenarios.mem_iff.mpr (Or.inr ht), hsame⟩
  have happlies : ∀ s ∈ o.scenarios, c.scope.appliesTo s.name = false := by
    intro s hs
    rw [Scope.appliesTo_eq_any hscope, ← Bool.not_eq_true, List.any_eq_true]
    rintro ⟨n, hn, hsame⟩
    obtain ⟨t, ht, hname⟩ := hnamed n hn
    -- Otherwise the name of the inserted scenario would not be fresh.
    have hgiven := Label.same_symm (h.checked t ht) (Label.same_trans (h.checked t ht) hsame hname)
    rw [h.fresh t ht s hs] at hgiven
    cases hgiven
  have hbinds : o'.binds c.scope = false := by
    unfold binds
    rw [h.active_eq, List.any_eq_false]
    intro s hs
    rw [happlies s (List.mem_of_mem_filter (active_eq_filter o ▸ hs))]
    exact Bool.false_ne_true
  simp only [resolveOne, hchecks, hknown, hbinds]
  rfl

theorem resolve_eq (h : o.Extended inserted o')
    {constraints constraints' : List (DecisionConstraint α)} {extras : List (ScenarioConstraint α)}
    (hconstraints : Interleaved constraints (extras.map .tagged) constraints')
    (hnamed : ∀ c, .tagged c ∈ constraints →
      ∀ n ∈ c.scope.names, ∃ s ∈ o.scenarios, n.same s.name = true)
    (hscoped : ∀ c ∈ extras, c.scope ≠ .all ∧
      ∀ n ∈ c.scope.names, ∃ t ∈ inserted, n.same t.name = true) :
    o'.resolve constraints' = o.resolve constraints := by
  rw [resolve_eq_flatten, resolve_eq_flatten]
  apply hconstraints.flatten_eq
  · intro c hc
    apply h.resolveOne_eq
    rintro d rfl
    exact hnamed d hc
  · rw [List.forall_mem_map]
    intro c hc
    exact h.resolveOne_scoped (hscoped c hc).1 (hscoped c hc).2

/-- The statistics of a solution are the same, and the objectives of the
inserted scenarios stand between the others. -/
theorem report_agree (h : o.Extended inserted o')
    {objective : Vec α → Scenario α → Except Fault α} (sense : Sense) {solved : Outcome α}
    (hreturns : ∀ t ∈ inserted, ∃ v, objective solved.solution t = .ok v) :
    Agree (ScenarioOutcome.Unchanged inserted) (o.report objective sense solved)
      (o'.report objective sense solved) := by
  obtain ⟨others, hothers⟩ := mapM_succeeds hreturns
  obtain ⟨merge, hmerge, hzip⟩ := h.scenarios.mapM_eq hothers
  cases hvalues : o.scenarios.mapM fun s => objective solved.solution s with
  | error fault =>
      rw [hvalues] at hmerge
      unfold report
      rw [hvalues, hmerge]
      exact rfl
  | ok values =>
      rw [hvalues] at hmerge
      replace hmerge : (o'.scenarios.mapM fun s => objective solved.solution s) =
          .ok (merge values) := hmerge
      have hlength := (mapM_eq_ok.mp hvalues).length_eq.symm
      have hlength' := (mapM_eq_ok.mp hmerge).length_eq.symm
      have hentries := hzip values hlength
      have hweights : weightsFor (merge values) o'.probabilities =
          weightsFor values o.probabilities := by
        unfold probabilities
        rw [weightsFor_eq hlength, weightsFor_eq hlength']
        exact normalizedWeights_extended h.scenarios h.impossible
      have hpossible : possible o'.probabilities (merge values) =
          possible o.probabilities values := possible_extended h.impossible hentries
      have hmean : weightedMean (merge values) o'.probabilities =
          weightedMean values o.probabilities := by
        unfold weightedMean
        rw [hweights, hpossible]
      have hvariance : weightedVariance (merge values) o'.probabilities =
          weightedVariance values o.probabilities := by
        unfold weightedVariance
        rw [hweights, hpossible]
      unfold report
      rw [hvalues, hmerge]
      change Agree _ (weightedMean values o.probabilities >>= _)
        (weightedMean (merge values) o'.probabilities >>= _)
      rw [hmean]
      apply Agree.bind
      intro mean _
      rw [hvariance]
      apply Agree.bind
      intro variance _
      refine ⟨rfl, rfl, rfl, rfl, rfl, ⟨(inserted.map (·.name)).zip others, ?_, ?_⟩, h.scenarios⟩
      · apply List.map_fst_zip
        rw [List.length_map]
        exact (mapM_eq_ok.mp hothers).length_eq.le
      · change Interleaved ((o.scenarios.map (·.name)).zip values) _
          ((o'.scenarios.map (·.name)).zip (merge values))
        rw [List.zip_map_left, List.zip_map_left, List.zip_map_left]
        exact hentries.map _

/-- Both runs agree about the optimization of the expected objective. -/
theorem optimize_agree (h : o.Extended inserted o') (minimizer : Minimizer α)
    (settings : Settings α) {objective : Vec α → Scenario α → Except Fault α} (start : Vec α)
    {constraints constraints' : List (DecisionConstraint α)} (sense : Sense)
    (hreturns : ∀ y e, o.expected objective y = .ok e →
      ∀ t ∈ inserted, ∃ v, objective y t = .ok v)
    (hresolve : o'.resolve constraints' = o.resolve constraints) :
    Agree (ScenarioOutcome.Unchanged inserted)
      (o.optimize minimizer settings objective start constraints sense)
      (o'.optimize minimizer settings objective start constraints' sense) := by
  have hproblem (cs : List (Constraint α)) :
      o'.problem objective cs sense = o.problem objective cs sense := by
    unfold problem
    rw [h.expected_eq]
  unfold optimize
  rw [hresolve]
  apply Agree.bind
  intro resolved _
  rw [hproblem]
  apply Agree.bind
  intro solved hsolved
  apply h.report_agree
  exact hreturns _ _ (measured_of_optimize hsolved).1

end Extended

end Outlook

/-- Scenarios with probability zero that are inserted anywhere in an accepted
list, under fresh names that things can be stored under, are accepted, and so
are constraints that belong to them only. The objective may have any values in
them, where the expected objective has a value. The optimization then ends as
it does without them: with the same fault, or with the same status, decision,
iterations, expected objective and variance, and with the objectives of the
given scenarios in the same order. -/
theorem impossible_scenarios_have_no_effect (minimizer : Minimizer Float)
    (settings : Settings Float) {request : ScenarioRequest}
    {given inserted extended : List (Scenario Float)} {outlook : Outlook Float}
    {items : Nested (Item Float)} {constraints constraints' : List (DecisionConstraint Float)}
    {extras : List (ScenarioConstraint Float)}
    (haccepted : Outlook.ofScenarios given = .ok outlook)
    (hextended : Interleaved given inserted extended)
    (hzero : ∀ t ∈ inserted, (t.probability == 0.0) = true)
    (hchecked : ∀ t ∈ inserted, t.name.check = .ok ())
    (hfresh : ∀ t ∈ inserted, ∀ s ∈ given, t.name.same s.name = false)
    (hdistinct : inserted.Pairwise fun t u => t.name.same u.name = false)
    (hreturns : ∀ y e, outlook.expected request.objective y = .ok e →
      ∀ t ∈ inserted, ∃ v, request.objective y t = .ok v)
    (hconstraints : flattenDecisions request.constraints = .ok constraints)
    (hnamed : ∀ c, .tagged c ∈ constraints →
      ∀ n ∈ c.scope.names, ∃ s ∈ given, n.same s.name = true)
    (hconstraints' : flattenDecisions items = .ok constraints')
    (hextras : Interleaved constraints (extras.map .tagged) constraints')
    (hscoped : ∀ c ∈ extras, c.scope ≠ .all ∧
      ∀ n ∈ c.scope.names, ∃ t ∈ inserted, n.same t.name = true) :
    ∃ outlook', Outlook.ofScenarios extended = .ok outlook' ∧
      Agree (ScenarioOutcome.Unchanged inserted)
        (optimizeScenariosWith minimizer outlook settings request)
        (optimizeScenariosWith minimizer outlook' settings
          { request with constraints := items }) := by
  have himpossible : ∀ t ∈ inserted, Impossible t.probability := by
    intro t ht
    exact .of_same (Binary64.isFinite_of_same_zero (hzero t ht)) (hzero t ht)
  obtain ⟨outlook', haccepted', h⟩ := Outlook.ofScenarios_extended haccepted hextended himpossible
    hchecked hfresh hdistinct
  refine ⟨outlook', haccepted', ?_⟩
  obtain ⟨-, -, rfl, -⟩ := Outlook.ofScenarios_eq_ok.mp haccepted
  unfold optimizeScenariosWith
  apply Agree.bind
  intro x _
  rw [h.checkNames_eq]
  apply Agree.bind
  intro _ _
  rw [hconstraints, hconstraints']
  exact h.optimize_agree minimizer settings x request.sense hreturns
    (h.resolve_eq hextras hnamed hscoped)

section Forecast

def ups : List (Scenario Float) :=
  [⟨.ofText "up", 0.5, [("gain", 3.0)]⟩, ⟨.ofText "down", 0.5, [("gain", 1.0)]⟩]

/-- Two that cannot, with both kinds of zero and without a gain. -/
def nevers : List (Scenario Float) :=
  [⟨.ofText "never", 0.0, []⟩, ⟨.ofText "nowhere", -0.0, []⟩]

def upsAndNevers : List (Scenario Float) :=
  [⟨.ofText "up", 0.5, [("gain", 3.0)]⟩, ⟨.ofText "never", 0.0, []⟩,
    ⟨.ofText "down", 0.5, [("gain", 1.0)]⟩, ⟨.ofText "nowhere", -0.0, []⟩]

def upLimit : ScenarioConstraint Float where
  scope := .one (.ofText "up")
  residual x := do return (← x.get 0) - 2.0

def neverLimit : ScenarioConstraint Float where
  scope := .one (.ofText "never")
  residual _ := .ok 1.0

def gainIn (_ : Vec Float) (s : Scenario Float) : Except Fault Float :=
  .ok ((s.get? "gain").getD (0.0 / 0.0))

def gainRequest (items : List (Nested (Item Float))) : ScenarioRequest where
  objective := gainIn
  start := .list [.real 1.0]
  constraints := .group items
  sense := .maximize

def forecast (scenarios : List (Scenario Float)) (items : List (Nested (Item Float))) :
    Except Fault (ScenarioOutcome Float) := do
  let outlook ← Outlook.ofScenarios scenarios
  let settings ← Settings.ofFields []
  optimizeScenariosWith (fun _ _ start => .ok (start, ⟨[0.0]⟩)) outlook settings (gainRequest items)

theorem forecast_unchanged :
    ∃ outcome outcome', forecast ups [.leaf (.scenario upLimit)] = .ok outcome ∧
      forecast upsAndNevers [.leaf (.scenario neverLimit), .leaf (.scenario upLimit)] =
        .ok outcome' ∧
      outcome.status = .optimal ∧ outcome.expectedObjective = 2.0 ∧
      outcome.Unchanged nevers outcome' := by
  obtain ⟨outcome, hforecast, hcheck⟩ : ∃ outcome,
      forecast ups [.leaf (.scenario upLimit)] = .ok outcome ∧
        decide (outcome.status = .optimal ∧ outcome.expectedObjective = 2.0) = true :=
    exists_ok_of_any (by decide +kernel)
  obtain ⟨hoptimal, hexpected⟩ := of_decide_eq_true hcheck
  have hrun := hforecast
  simp only [forecast, bind_eq_ok] at hrun
  obtain ⟨outlook, haccepted, settings, hsettings, hrun⟩ := hrun
  have hextended : Interleaved ups nevers upsAndNevers :=
    .kept (.inserted (.kept (.inserted .nil)))
  have hchecked : ∀ t ∈ nevers, t.name.check = .ok () := by
    simp only [nevers, List.forall_mem_cons]
    exact ⟨rfl, rfl, fun _ h => nomatch h⟩
  have hreturns : ∀ y e, outlook.expected (gainRequest [.leaf (.scenario upLimit)]).objective y =
      .ok e → ∀ t ∈ nevers, ∃ v, gainIn y t = .ok v :=
    fun _ _ _ _ _ => ⟨_, rfl⟩
  have hnamed : ∀ c, DecisionConstraint.tagged c ∈ [.tagged upLimit] →
      ∀ n ∈ c.scope.names, ∃ s ∈ ups, n.same s.name = true := by
    intro c hc n hn
    cases List.mem_singleton.mp hc
    rw [List.mem_singleton.mp hn]
    exact ⟨_, List.mem_cons_self, by decide +kernel⟩
  have hextras : Interleaved [.tagged upLimit] ([neverLimit].map DecisionConstraint.tagged)
      [.tagged neverLimit, .tagged upLimit] := .inserted (.kept .nil)
  have hscoped : ∀ c ∈ [neverLimit], c.scope ≠ .all ∧
      ∀ n ∈ c.scope.names, ∃ t ∈ nevers, n.same t.name = true := by
    intro c hc
    rw [List.mem_singleton.mp hc]
    refine ⟨nofun, ?_⟩
    intro n hn
    rw [List.mem_singleton.mp hn]
    exact ⟨_, List.mem_cons_self, by decide +kernel⟩
  have hitems :
      flattenDecisions (.group [.leaf (.scenario neverLimit), .leaf (.scenario upLimit)]) =
        .ok [.tagged neverLimit, .tagged upLimit] := rfl
  obtain ⟨outlook', haccepted', hagree⟩ := impossible_scenarios_have_no_effect
    (fun _ _ start => .ok (start, ⟨[0.0]⟩)) settings haccepted hextended (by decide +kernel)
    hchecked (by decide +kernel) (by decide +kernel) hreturns rfl hnamed hitems hextras hscoped
  rw [hrun] at hagree
  obtain ⟨outcome', hrun', hunchanged⟩ := hagree.of_ok
  refine ⟨outcome, outcome', hforecast, ?_, hoptimal, hexpected, hunchanged⟩
  simp only [forecast, bind_eq_ok]
  exact ⟨outlook', haccepted', settings, hsettings, hrun'⟩

end Forecast

end Optima
