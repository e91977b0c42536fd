import Optima.Proofs.Scenario.Impossible
import Optima.Proofs.Solver.Nesting

/-!
Constraints that belong to scenarios. One that names a scenario that is not there is refused,
whatever else it names. Of the others those bind that belong to a scenario that can occur, and with
them everything that belongs to no scenario or to all of them. What binds is handed on in the order
of the nested list and holds for the decision of a converged optimization; what does not bind may as
well not be there.
-/

namespace Optima

open Scalar

section Items

variable {α : Type}

def DecisionConstraint.item : DecisionConstraint α → Item α
  | plain c => .decision c
  | tagged c => .scenario c

/-- A nested list is flattened to its leaves, from the first to the last one. -/
theorem flattenDecisions_of_leaves {items : Nested (Item α)}
    {decisions : List (DecisionConstraint α)}
    (h : items.leaves = decisions.map DecisionConstraint.item) :
    flattenDecisions items = .ok decisions := by
  cases items with
  | group items =>
      have haccept (d : DecisionConstraint α) : d.item.asDecision = .ok [d] := by
        cases d with
        | plain c => rfl
        | tagged c => rfl
      exact Nested.gatherAll_of_leaves haccept h
  | leaf item =>
      obtain ⟨d, rfl, rfl⟩ := List.map_eq_singleton_iff.mp h.symm
      cases d with
      | plain c => rfl
      | tagged c => rfl

end Items

def Scope.Misses (given : List (Scenario Float)) (scope : Scope) : Prop :=
  ∃ n ∈ scope.names, ∀ s ∈ given, n.same s.name = false

/-- All scenarios that a scope names are in the list, with a probability of zero. -/
def Scope.Never (given : List (Scenario Float)) (scope : Scope) : Prop :=
  scope ≠ .all ∧
    ∀ n ∈ scope.names, ∃ s ∈ given, n.same s.name = true ∧ (s.probability == 0.0) = true

/-- A scope takes in a scenario that can occur. -/
def Scope.Occurs (given : List (Scenario Float)) : Scope → Prop
  | .all => True
  | scope => ∃ s ∈ given, 0.0 < s.probability ∧ ∃ n ∈ scope.names, n.same s.name = true

theorem Scope.occurs_iff {given : List (Scenario Float)} {scope : Scope} (h : scope ≠ .all) :
    scope.Occurs given ↔
      ∃ s ∈ given, 0.0 < s.probability ∧ ∃ n ∈ scope.names, n.same s.name = true := by
  cases scope with
  | all => exact absurd rfl h
  | one name => rfl
  | several names => rfl

instance (given : List (Scenario Float)) (scope : Scope) : Decidable (scope.Misses given) :=
  inferInstanceAs (Decidable (∃ n ∈ scope.names, ∀ s ∈ given, _))

namespace DecisionConstraint

/-- A constraint binds if it belongs to no scenario in particular or to one that can occur. -/
def Binds (given : List (Scenario Float)) : DecisionConstraint Float → Prop
  | plain _ => True
  | tagged c => c.scope.Occurs given

/-- What a constraint asks of the decision when it binds. A tagged one is an equality if it is
marked as one. -/
def untagged : DecisionConstraint Float → Constraint Float
  | plain c => c
  | tagged c =>
    { relation := if c.mark.isPresent then .equality else .inequality, residual := c.residual }

end DecisionConstraint

instance (given : List (Scenario Float)) (scope : Scope) : Decidable (scope.Occurs given) :=
  match scope with
  | .all => .isTrue trivial
  | .one _ => inferInstanceAs (Decidable (∃ s ∈ given, _ ∧ _))
  | .several _ => inferInstanceAs (Decidable (∃ s ∈ given, _ ∧ _))

instance (given : List (Scenario Float)) : DecidablePred (DecisionConstraint.Binds given)
  | .plain _ => .isTrue trivial
  | .tagged c => inferInstanceAs (Decidable (c.scope.Occurs given))

namespace Outlook

section Resolve

variable {α : Type} [Scalar α] {o : Outlook α}

/-- Names that are all known cannot be refused any more: the constraint binds or is left out. -/
theorem resolveOne_known {c : ScenarioConstraint α}
    (hchecked : ∀ n ∈ c.scope.names, n.check = .ok ())
    (hknown : ∀ n ∈ c.scope.names, ∃ s ∈ o.scenarios, n.same s.name = true) :
    o.resolveOne (.tagged c) = .ok (if o.binds c.scope then [c.toConstraint] else []) := by
  simp only [resolveOne, forM_eq_ok.mpr hchecked, unknownNames_eq_nil.mpr hknown]
  rfl

/-- One unknown name is enough for a constraint to be refused. -/
theorem resolveOne_missing {c : ScenarioConstraint α}
    (hchecked : ∀ n ∈ c.scope.names, n.check = .ok ())
    (hmissing : ∃ n ∈ c.scope.names, ∀ s ∈ o.scenarios, n.same s.name = false) :
    ∃ cause, o.resolveOne (.tagged c) = .error (.misuse cause) := by
  obtain ⟨n, hn, hnone⟩ := hmissing
  cases hunknown : o.unknownNames c.scope with
  | nil =>
      obtain ⟨s, hs, hsame⟩ := unknownNames_eq_nil.mp hunknown n hn
      rw [hnone s hs] at hsame
      cases hsame
  | cons first rest =>
      refine ⟨.unknownNames ((first :: rest).map (·.value)), ?_⟩
      simp only [resolveOne, forM_eq_ok.mpr hchecked, hunknown]
      rfl

/-- If every constraint stands for itself or for nothing, those that stand for
themselves are handed on in order. -/
theorem resolve_of_resolveOne {constraints : List (DecisionConstraint α)}
    {kept : DecisionConstraint α → Prop} [DecidablePred kept]
    {wanted : DecisionConstraint α → Constraint α}
    (h : ∀ d ∈ constraints, o.resolveOne d = .ok (if kept d then [wanted d] else [])) :
    o.resolve constraints = .ok ((constraints.filter fun d => kept d).map wanted) := by
  have hsteps : constraints.mapM o.resolveOne =
      .ok (constraints.map fun d => if kept d then [wanted d] else []) := by
    rw [mapM_eq_ok, List.forall₂_map_right_iff, List.forall₂_same]
    exact h
  rw [resolve_eq_flatten, hsteps]
  refine congrArg Except.ok ?_
  clear h hsteps
  induction constraints with
  | nil => rfl
  | cons d rest ih =>
      rw [List.map_cons, List.flatten_cons, ih, List.filter_cons]
      by_cases hd : kept d
      · simp only [hd, if_true, decide_true, List.map_cons, List.singleton_append]
      · simp only [hd, if_false, decide_false, Bool.false_eq_true, List.nil_append]

/-- If constraints stand for something or are misused, and one is misused, then
so is the list. -/
theorem resolve_misuse {constraints : List (DecisionConstraint α)}
    (h : ∀ d ∈ constraints, (∃ found, o.resolveOne d = .ok found) ∨
      ∃ cause, o.resolveOne d = .error (.misuse cause))
    {c : DecisionConstraint α} (hc : c ∈ constraints)
    (hmisuse : ∃ cause, o.resolveOne c = .error (.misuse cause)) :
    ∃ cause, o.resolve constraints = .error (.misuse cause) := by
  suffices hsteps : ∃ cause, constraints.mapM o.resolveOne = .error (.misuse cause) by
    obtain ⟨cause, hcause⟩ := hsteps
    rw [resolve_eq_flatten, hcause]
    exact ⟨cause, rfl⟩
  induction constraints with
  | nil => cases hc
  | cons first rest ih =>
      obtain ⟨hfirst, hrest⟩ := List.forall_mem_cons.mp h
      rw [List.mapM_cons]
      rcases hfirst with ⟨found, hfound⟩ | ⟨cause, hcause⟩
      · have hlater : c ∈ rest := by
          rcases List.mem_cons.mp hc with rfl | hlater
          · obtain ⟨cause, hcause⟩ := hmisuse
            rw [hfound] at hcause
            cases hcause
          · exact hlater
        obtain ⟨cause, hcause⟩ := ih hrest hlater
        rw [hfound, hcause]
        exact ⟨cause, rfl⟩
      · rw [hcause]
        exact ⟨cause, rfl⟩

/-- Accepted scenarios that answer to one name are the same. -/
theorem eq_of_same_name {given : List (Scenario α)} (haccepted : ofScenarios given = .ok o)
    (hchecked : ∀ s ∈ given, s.name.check = .ok ()) {s t : Scenario α} (hs : s ∈ given)
    (ht : t ∈ given) {n : Label} (hns : n.same s.name = true) (hnt : n.same t.name = true) :
    s = t := by
  obtain ⟨-, hrepeated, -, -⟩ := ofScenarios_eq_ok.mp haccepted
  have hcount := Label.repeated_eq_nil.mp hrepeated s.name (List.mem_map.mpr ⟨s, hs, rfl⟩)
  rw [List.countP_map, List.countP_eq_length_filter] at hcount
  have hback := Label.same_symm (hchecked s hs) hns
  have hsmember : s ∈ given.filter (s.name.same ∘ (·.name)) :=
    List.mem_filter.mpr ⟨hs, Label.same_trans (hchecked s hs) hback hns⟩
  have htmember : t ∈ given.filter (s.name.same ∘ (·.name)) :=
    List.mem_filter.mpr ⟨ht, Label.same_trans (hchecked t ht) hback hnt⟩
  match hfound : given.filter (s.name.same ∘ (·.name)) with
  | [] =>
      rw [hfound] at hsmember
      cases hsmember
  | [u] =>
      rw [hfound, List.mem_singleton] at hsmember htmember
      rw [hsmember, htmember]
  | _ :: _ :: _ =>
      rw [hfound] at hcount
      simp at hcount

end Resolve

section Accepted

variable {given : List (Scenario Float)} {o : Outlook Float}
  (haccepted : ofScenarios given = .ok o) (hchecked : ∀ s ∈ given, s.name.check = .ok ())

include haccepted hchecked

theorem binds_iff {scope : Scope} (hnames : ∀ n ∈ scope.names, n.check = .ok ()) :
    o.binds scope = true ↔ scope.Occurs given := by
  obtain ⟨-, -, rfl, -⟩ := ofScenarios_eq_ok.mp haccepted
  unfold binds
  rw [active_eq_filter, List.any_eq_true]
  have hpossible (s : Scenario Float) :
      s ∈ o.scenarios.filter (fun s => isPossible s.probability) ↔
        s ∈ o.scenarios ∧ 0.0 < s.probability :=
    List.mem_filter.trans (and_congr_right fun _ => decide_eq_true_iff)
  simp only [hpossible, and_assoc]
  by_cases hscope : scope = .all
  · subst hscope
    obtain ⟨s, hs⟩ := List.exists_mem_of_ne_nil _ (active_ne_nil haccepted)
    rw [active_eq_filter] at hs
    obtain ⟨hmember, hprobability⟩ := (hpossible s).mp hs
    exact iff_of_true ⟨s, hmember, hprobability, rfl⟩ trivial
  · simp only [Scope.occurs_iff hscope, Scope.appliesTo_eq_any hscope, List.any_eq_true]
    constructor
    · rintro ⟨s, hs, hprobability, n, hn, hsame⟩
      exact ⟨s, hs, hprobability, n, hn, Label.same_symm (hnames n hn) hsame⟩
    · rintro ⟨s, hs, hprobability, n, hn, hsame⟩
      exact ⟨s, hs, hprobability, n, hn, Label.same_symm (hchecked s hs) hsame⟩

/-- What a constraint with known names stands for. -/
theorem resolveOne_eq_ok {d : DecisionConstraint Float}
    (hnames : ∀ c, d = .tagged c → ∀ n ∈ c.scope.names, n.check = .ok ())
    (hknown : ∀ c, d = .tagged c → ¬ c.scope.Misses given) :
    o.resolveOne d = .ok (if d.Binds given then [d.untagged] else []) := by
  obtain ⟨-, -, hlisted, -⟩ := ofScenarios_eq_ok.mp haccepted
  cases d with
  | plain c => rfl
  | tagged c =>
      have hfound : ∀ n ∈ c.scope.names, ∃ s ∈ o.scenarios, n.same s.name = true := by
        intro n hn
        by_contra hnone
        refine hknown c rfl ⟨n, hn, ?_⟩
        intro s hs
        rw [← Bool.not_eq_true]
        exact fun hsame => hnone ⟨s, hlisted ▸ hs, hsame⟩
      rw [resolveOne_known (hnames c rfl) hfound]
      simp only [binds_iff haccepted hchecked (hnames c rfl)]
      rfl

/-- A constraint whose scenarios are all impossible stands for nothing. -/
theorem resolveOne_of_never {c : ScenarioConstraint Float} (hnever : c.scope.Never given) :
    o.resolveOne (.tagged c) = .ok [] := by
  obtain ⟨hscope, hnamed⟩ := hnever
  have hnames : ∀ n ∈ c.scope.names, n.check = .ok () := by
    intro n hn
    obtain ⟨s, hs, hsame, -⟩ := hnamed n hn
    exact Label.check_of_same (hchecked s hs) hsame
  have hknown : ¬ c.scope.Misses given := by
    rintro ⟨n, hn, hnone⟩
    obtain ⟨s, hs, hsame, -⟩ := hnamed n hn
    rw [hnone s hs] at hsame
    cases hsame
  have hnever : ¬ c.scope.Occurs given := by
    rw [Scope.occurs_iff hscope]
    rintro ⟨s, hs, hprobability, n, hn, hsame⟩
    obtain ⟨t, ht, hsame', hzero⟩ := hnamed n hn
    obtain rfl := eq_of_same_name haccepted hchecked hs ht hsame hsame'
    have himpossible : Impossible s.probability :=
      .of_same (Binary64.isFinite_of_same_zero hzero) hzero
    exact of_decide_eq_false himpossible.impossible hprobability
  rw [resolveOne_eq_ok haccepted hchecked (d := .tagged c)]
  · exact congrArg Except.ok (if_neg hnever)
  · rintro d hd
    cases hd
    exact hnames
  · rintro d hd
    cases hd
    exact hknown

/-- What binds is what a nested list is resolved to. -/
theorem resolve_eq_binding {decisions : List (DecisionConstraint Float)}
    (hnames : ∀ c, .tagged c ∈ decisions → ∀ n ∈ c.scope.names, n.check = .ok ())
    (hknown : ∀ c, .tagged c ∈ decisions → ¬ c.scope.Misses given) :
    o.resolve decisions =
      .ok ((decisions.filter fun d => d.Binds given).map DecisionConstraint.untagged) := by
  apply resolve_of_resolveOne
  intro d hd
  apply resolveOne_eq_ok haccepted hchecked
  · rintro c rfl
    exact hnames c hd
  · rintro c rfl
    exact hknown c hd

/-- A list with a constraint that names a scenario that is not there is refused. -/
theorem resolve_misses {decisions : List (DecisionConstraint Float)}
    (hnames : ∀ c, .tagged c ∈ decisions → ∀ n ∈ c.scope.names, n.check = .ok ())
    (hmisses : ∃ c, .tagged c ∈ decisions ∧ c.scope.Misses given) :
    ∃ cause, o.resolve decisions = .error (.misuse cause) := by
  obtain ⟨-, -, hlisted, -⟩ := ofScenarios_eq_ok.mp haccepted
  have hrefused (c : ScenarioConstraint Float) (hc : .tagged c ∈ decisions)
      (hmissing : c.scope.Misses given) :
      ∃ cause, o.resolveOne (.tagged c) = .error (.misuse cause) := by
    apply resolveOne_missing (hnames c hc)
    rw [hlisted]
    exact hmissing
  obtain ⟨c, hc, hmissing⟩ := hmisses
  refine resolve_misuse ?_ hc (hrefused c hc hmissing)
  intro d hd
  by_cases hknown : ∀ c, d = .tagged c → ¬ c.scope.Misses given
  · refine Or.inl ⟨_, resolveOne_eq_ok haccepted hchecked ?_ hknown⟩
    rintro c rfl
    exact hnames c hd
  · push Not at hknown
    obtain ⟨c, rfl, hmissing⟩ := hknown
    exact Or.inr (hrefused c hd hmissing)

end Accepted

/-- The decision of a converged optimization satisfies every constraint that
binds. -/
theorem isSatisfied_of_optimize {o : Outlook Float} {minimizer : Minimizer Float}
    {settings : Settings Float} {objective : Vec Float → Scenario Float → Except Fault Float}
    {start : Vec Float} {constraints : List (DecisionConstraint Float)}
    {binding : List (Constraint Float)} {sense : Sense} {outcome : ScenarioOutcome Float}
    (h : o.optimize minimizer settings objective start constraints sense = .ok outcome)
    (hconverged : outcome.converged = true) (hresolve : o.resolve constraints = .ok binding)
    (hnumbers : ∀ d ∈ binding, ∀ r, d.residual outcome.solution = .ok r → r.isNaN = false)
    {d : Constraint Float} (hd : d ∈ binding) :
    d.isSatisfied settings.constraintTolerance outcome.solution = .ok true := by
  simp only [optimize, hresolve, bind_eq_ok] at h
  obtain ⟨_, hbinding, solved, hsolved, hreport⟩ := h
  cases hbinding
  obtain ⟨_, _, _, -, -, -, rfl⟩ := report_eq_ok.mp hreport
  have hoptimal : solved.status = .optimal := beq_iff_eq.mp hconverged
  obtain ⟨-, r, hr, hworst⟩ := measured_of_optimize hsolved
  obtain ⟨-, -, -, -, -, -, hwithin, -⟩ := last_iteration_of_optimal hsolved hoptimal
  have hdefined : ∀ c ∈ (o.problem objective binding sense).constraints, ∀ v,
      c.residual solved.solution = .ok v → Defined v :=
    fun c hc v hv => (Binary64.defined_iff_isNaN v).mpr (hnumbers c hc v hv)
  rw [← hworst] at hwithin
  obtain ⟨v, hv, hviolation⟩ := Constraint.violation_of_allSatisfied
    (Problem.allSatisfied_of_worst hr hdefined hwithin) hd
  simp only [Constraint.isSatisfied, bind_eq_ok, pure_eq_ok]
  exact ⟨v, hv, hviolation⟩

end Outlook

/-- Constraints of an accepted list of scenarios, in any nesting, under names
that things can be stored under. They are refused exactly if one of them names
a scenario that is not in the list. Otherwise those that bind are kept, in
order: the untagged ones, those for all scenarios, and those that name a
scenario with a positive probability. The decision of a converged optimization
satisfies all that bind within the tolerance, if their residuals there are
numbers. An optimization does not notice constraints that belong to scenarios
with probability zero only. -/
theorem scoped_constraints_bind_if_possible {given : List (Scenario Float)}
    {outlook : Outlook Float} {items : Nested (Item Float)}
    {decisions : List (DecisionConstraint Float)}
    (haccepted : Outlook.ofScenarios given = .ok outlook)
    (hchecked : ∀ s ∈ given, s.name.check = .ok ())
    (hleaves : items.leaves = decisions.map DecisionConstraint.item)
    (hnames : ∀ c, .tagged c ∈ decisions → ∀ n ∈ c.scope.names, n.check = .ok ()) :
    ((∃ cause, resolveGiven outlook items = .error (.misuse cause)) ↔
      ∃ c, .tagged c ∈ decisions ∧ c.scope.Misses given) ∧
    ((¬ ∃ c, .tagged c ∈ decisions ∧ c.scope.Misses given) →
      resolveGiven outlook items =
        .ok ((decisions.filter fun d => d.Binds given).map DecisionConstraint.untagged)) ∧
    (∀ minimizer settings (request : ScenarioRequest) outcome,
      optimizeScenariosWith minimizer outlook settings { request with constraints := items } =
        .ok outcome →
      outcome.converged = true →
      (∀ d ∈ decisions, d.Binds given → ∀ r,
        d.untagged.residual outcome.solution = .ok r → r.isNaN = false) →
      ∀ d ∈ decisions, d.Binds given →
        d.untagged.isSatisfied settings.constraintTolerance outcome.solution = .ok true) ∧
    (∀ (extras : List (ScenarioConstraint Float)) decisions' (items' : Nested (Item Float)),
      items'.leaves = decisions'.map DecisionConstraint.item →
      Interleaved decisions (extras.map .tagged) decisions' →
      (∀ c ∈ extras, c.scope.Never given) →
      ∀ minimizer settings (request : ScenarioRequest),
        optimizeScenariosWith minimizer outlook settings { request with constraints := items' } =
          optimizeScenariosWith minimizer outlook settings
            { request with constraints := items }) := by
  obtain ⟨-, -, hlisted, -⟩ := Outlook.ofScenarios_eq_ok.mp haccepted
  have hnamed : outlook.checkNames = .ok () := forM_eq_ok.mpr (hlisted ▸ hchecked)
  have hitems := flattenDecisions_of_leaves hleaves
  have hgiven : resolveGiven outlook items = outlook.resolve decisions := by
    rw [resolveGiven, hnamed, hitems]
    rfl
  have hbinding (hknown : ¬ ∃ c, .tagged c ∈ decisions ∧ c.scope.Misses given) :=
    Outlook.resolve_eq_binding haccepted hchecked hnames fun c hc hmisses =>
      hknown ⟨c, hc, hmisses⟩
  rw [hgiven]
  refine ⟨⟨?_, Outlook.resolve_misses haccepted hchecked hnames⟩, hbinding, ?_, ?_⟩
  · rintro ⟨cause, hcause⟩
    by_contra hknown
    rw [hbinding hknown] at hcause
    cases hcause
  · intro minimizer settings request outcome h hconverged hnumbers d hd hbinds
    simp only [optimizeScenariosWith, bind_eq_ok] at h
    obtain ⟨x, -, _, -, _, hflat, h⟩ := h
    rw [hitems] at hflat
    cases hflat
    -- The optimization has resolved the constraints, so no name is missing.
    have hknown : ¬ ∃ c, .tagged c ∈ decisions ∧ c.scope.Misses given := by
      intro hmisses
      obtain ⟨cause, hcause⟩ := Outlook.resolve_misses haccepted hchecked hnames hmisses
      rw [Outlook.optimize, hcause] at h
      cases h
    refine Outlook.isSatisfied_of_optimize h hconverged (hbinding hknown) ?_
      (List.mem_map.mpr ⟨d, List.mem_filter.mpr ⟨hd, decide_eq_true hbinds⟩, rfl⟩)
    intro c hc r hr
    obtain ⟨e, he, rfl⟩ := List.mem_map.mp hc
    obtain ⟨hmember, hbinds⟩ := List.mem_filter.mp he
    exact hnumbers e hmember (of_decide_eq_true hbinds) r hr
  · intro extras decisions' items' hleaves' hextras hnever minimizer settings request
    have hresolve : outlook.resolve decisions' = outlook.resolve decisions := by
      rw [Outlook.resolve_eq_flatten, Outlook.resolve_eq_flatten]
      apply hextras.flatten_eq (fun _ _ => rfl)
      rw [List.forall_mem_map]
      intro c hc
      exact Outlook.resolveOne_of_never haccepted hchecked (hnever c hc)
    unfold optimizeScenariosWith Outlook.optimize
    rw [flattenDecisions_of_leaves hleaves', hitems]
    change (_ >>= fun x => _ >>= fun _ => outlook.resolve decisions' >>= _) = _
    rw [hresolve]
    rfl

section Forecast

/-- A constraint that belongs to a scenario that can occur, and to one that is not there. -/
def strangerLimit : ScenarioConstraint Float where
  scope := .several [.ofText "up", .ofText "stranger"]
  residual _ := .ok 1.0

def nestedLimits : Nested (Item Float) :=
  .group [.leaf (.scenario neverLimit), .group [.leaf (.scenario upLimit)]]

def nestedForecast (items : Nested (Item Float)) :
    Except Fault (Outlook Float × ScenarioOutcome Float) := do
  let outlook ← Outlook.ofScenarios upsAndNevers
  let settings ← Settings.ofFields []
  let outcome ← optimizeScenariosWith (fun _ _ start => .ok (start, ⟨[0.0]⟩)) outlook settings
    { gainRequest [] with constraints := items }
  return (outlook, outcome)

theorem nestedForecast_keeps_upLimit :
    ∃ outlook outcome settings, nestedForecast nestedLimits = .ok (outlook, outcome) ∧
      Settings.ofFields [] = .ok settings ∧ outcome.converged = true ∧
      resolveGiven outlook nestedLimits = .ok [upLimit.toConstraint] ∧
      upLimit.toConstraint.isSatisfied settings.constraintTolerance outcome.solution = .ok true ∧
      nestedForecast (.group [nestedLimits, .leaf (.scenario neverLimit)]) =
        .ok (outlook, outcome) ∧
      ∃ cause, resolveGiven outlook (.group [nestedLimits, .leaf (.scenario strangerLimit)]) =
        .error (.misuse cause) := by
  obtain ⟨⟨outlook, outcome⟩, hforecast, hcheck⟩ : ∃ found,
      nestedForecast nestedLimits = .ok found ∧
        decide (found.2.status = .optimal ∧ found.2.solution.toList = [1.0]) = true :=
    exists_ok_of_any (by decide +kernel)
  obtain ⟨hoptimal, hsolution⟩ := of_decide_eq_true hcheck
  have hpoint : outcome.solution = ⟨[1.0]⟩ := congrArg Vec.mk hsolution
  have hrun := hforecast
  simp only [nestedForecast, bind_eq_ok, pure_eq_ok, Prod.mk.injEq] at hrun
  obtain ⟨outlook, haccepted, settings, hsettings, outcome, hrun, rfl, rfl⟩ := hrun
  have hconverged : outcome.converged = true := beq_iff_eq.mpr hoptimal
  have hchecked : ∀ s ∈ upsAndNevers, s.name.check = .ok () := by
    simp only [upsAndNevers, List.forall_mem_cons]
    exact ⟨rfl, rfl, rfl, rfl, fun _ h => nomatch h⟩
  have hchecks : ∀ c ∈ [neverLimit, upLimit, strangerLimit], ∀ n ∈ c.scope.names,
      n.check = .ok () := by
    simp only [neverLimit, upLimit, strangerLimit, Scope.names, List.forall_mem_cons]
    exact ⟨⟨rfl, nofun⟩, ⟨rfl, nofun⟩, ⟨rfl, rfl, nofun⟩, nofun⟩
  have hnames (limits : List (ScenarioConstraint Float))
      (hlimits : limits ⊆ [neverLimit, upLimit, strangerLimit]) :
      ∀ c, .tagged c ∈ limits.map DecisionConstraint.tagged →
        ∀ n ∈ c.scope.names, n.check = .ok () := by
    intro c hc
    obtain ⟨d, hd, heq⟩ := List.mem_map.mp hc
    cases heq
    exact hchecks c (hlimits hd)
  have hknown : ¬ ∃ c, .tagged c ∈ [neverLimit, upLimit].map DecisionConstraint.tagged ∧
      c.scope.Misses upsAndNevers := by
    simp only [List.mem_map, DecisionConstraint.tagged.injEq, exists_eq_right, List.mem_cons,
      List.not_mem_nil, or_false, exists_eq_or_imp, exists_eq_left]
    decide +kernel
  have hup : (DecisionConstraint.tagged upLimit).Binds upsAndNevers := by decide +kernel
  have hbinding : (([neverLimit, upLimit].map DecisionConstraint.tagged).filter fun d =>
      d.Binds upsAndNevers) = [.tagged upLimit] := by
    have hnever : ¬ (DecisionConstraint.tagged neverLimit).Binds upsAndNevers := by decide +kernel
    simp only [List.map_cons, List.map_nil, List.filter_cons, List.filter_nil, hnever, hup]
    rfl
  have hnever : ∀ c ∈ [neverLimit], c.scope.Never upsAndNevers := by
    intro c hc
    rw [List.mem_singleton.mp hc]
    refine ⟨nofun, ?_⟩
    intro n hn
    rw [List.mem_singleton.mp hn]
    exact ⟨_, List.mem_cons_of_mem _ List.mem_cons_self, by decide +kernel⟩
  have hmisses : ∃ c, .tagged c ∈ [neverLimit, upLimit, strangerLimit].map
      DecisionConstraint.tagged ∧ c.scope.Misses upsAndNevers :=
    ⟨strangerLimit, by simp, by decide +kernel⟩
  have hleaves : nestedLimits.leaves =
      ([neverLimit, upLimit].map DecisionConstraint.tagged).map DecisionConstraint.item := rfl
  have hleaves' : (Nested.group [nestedLimits, .leaf (.scenario strangerLimit)]).leaves =
      ([neverLimit, upLimit, strangerLimit].map DecisionConstraint.tagged).map
        DecisionConstraint.item := rfl
  obtain ⟨-, hresolved, hsatisfied, hunnoticed⟩ := scoped_constraints_bind_if_possible haccepted
    hchecked hleaves (hnames [neverLimit, upLimit] (by simp))
  obtain ⟨hrefused, -⟩ := scoped_constraints_bind_if_possible haccepted hchecked hleaves'
    (hnames [neverLimit, upLimit, strangerLimit] (by simp))
  refine ⟨outlook, outcome, settings, hforecast, hsettings, hconverged, ?_, ?_, ?_,
    hrefused.mpr hmisses⟩
  · rw [hresolved hknown, hbinding]
    rfl
  · refine hsatisfied _ _ _ _ hrun hconverged ?_ (.tagged upLimit) (by simp) hup
    intro d hd _ r hr
    simp only [List.map_cons, List.map_nil, List.mem_cons, List.not_mem_nil, or_false] at hd
    rw [hpoint] at hr
    rcases hd with rfl | rfl
    · cases hr
      decide +kernel
    · cases hr
      decide +kernel
  · have hagain := hunnoticed [neverLimit] _
      (.group [nestedLimits, .leaf (.scenario neverLimit)]) rfl
      (.kept (.kept (.inserted .nil))) hnever (fun _ _ start => .ok (start, ⟨[0.0]⟩)) settings
      (gainRequest [])
    simp only [nestedForecast, bind_eq_ok, pure_eq_ok]
    exact ⟨outlook, haccepted, settings, hsettings, outcome, hagain.trans hrun, rfl⟩

end Forecast

end Optima
