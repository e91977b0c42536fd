import Optima.Proofs.Solver.CheckedSettings
import Optima.Proofs.Solver.History

/-!
What the status and the history of an outcome tell about the run. An iteration ends a solve if its
point breaks it off, meets the tolerances, has a violated constraint without a slope, or makes the
caller stop; these conditions are about the point alone. If no residual is undefined, every status
says exactly which of them ended the last iteration, and that no earlier iteration met one.
-/

namespace Optima

open Scalar

section Conditions

variable {α : Type} [Scalar α]

/-- Some constraint is violated by more than the tolerance, and its gradient
vanishes. -/
def Problem.DegenerateAt (problem : Problem α) (settings : Settings α) (x : Vec α) : Prop :=
  ∃ c ∈ problem.constraints, ∃ v d, c.violation x = .ok v ∧
    less settings.constraintTolerance v = true ∧
    c.gradientAt settings.differenceStep x = .ok d ∧
    atMost (dot d.toList d.toList) settings.minDerivative = true

/-- The violation is within the tolerance, and the slope is too or the
objective has hardly changed since the previous iteration. -/
def Problem.ConvergesAt (problem : Problem α) (settings : Settings α) (p : Progress α)
    (x slope : Vec α) : Prop :=
  (∃ r, problem.residuals x = .ok r ∧ atMost r.worst settings.constraintTolerance = true) ∧
    (atMost slope.norm settings.gradientTolerance = true ∨
      0 < p.iterations ∧ ∃ old new, problem.objective p.point = .ok old ∧
        problem.objective x = .ok new ∧
        atMost (magnitude (new - old)) (settings.tolerance * larger 1 (magnitude old)) = true)

def Problem.InterruptedAt (problem : Problem α) (interrupt : Snapshot α → Bool) (p : Progress α)
    (x slope : Vec α) : Prop :=
  ∃ objective r, problem.objective x = .ok objective ∧ problem.residuals x = .ok r ∧
    interrupt
      { iteration := p.iterations + 1, objective, violation := r.worst,
        gradientNorm := slope.norm, penalty := p.lagrangian.penalty } = true

def Problem.ExitsAt (problem : Problem α) (settings : Settings α)
    (interrupt : Snapshot α → Bool) (p : Progress α) (x slope : Vec α) : Prop :=
  problem.BreaksAt x ∨ problem.ConvergesAt settings p x slope ∨
    problem.DegenerateAt settings x ∨ problem.InterruptedAt interrupt p x slope

end Conditions

section Iteration

variable {α : Type} [Scalar α] {problem : Problem α} {minimizer : Minimizer α}
  {settings : Settings α} {start : Vec α} {interrupt : Snapshot α → Bool} {p q : Progress α}
  {snapshot : Snapshot α} {x slope : Vec α} {verdict : Verdict α}

theorem Problem.Visits.isStalled_iff
    (h : problem.Visits minimizer settings start interrupt p) {new : α}
    (hnew : problem.objective x = .ok new) :
    isStalled settings.tolerance p.previous new = true ↔
      0 < p.iterations ∧ ∃ old new, problem.objective p.point = .ok old ∧
        problem.objective x = .ok new ∧
        atMost (magnitude (new - old)) (settings.tolerance * larger 1 (magnitude old)) = true := by
  obtain ⟨hmeasured, ⟨hzero, hnone⟩ | ⟨hpositive, hprevious⟩⟩ := h.measured
  · rw [hnone, hzero]
    simp [isStalled]
  · rw [hprevious]
    constructor
    · intro hstalled
      exact ⟨hpositive, p.objective, new, hmeasured.objective, hnew, hstalled⟩
    · rintro ⟨-, old, value, hold, hvalue, hchange⟩
      rw [hmeasured.objective] at hold
      rw [hnew] at hvalue
      cases hold
      cases hvalue
      exact hchange

theorem convergesAt_iff (htries : problem.Tries minimizer settings start interrupt p x slope)
    (hadvance : advance minimizer settings p = .ok (.moved q snapshot))
    (hmoves : Moves minimizer p q snapshot slope) (hx : q.point = x) :
    problem.ConvergesAt settings p x slope ↔
      atMost q.violation settings.constraintTolerance = true ∧
        (atMost snapshot.gradientNorm settings.gradientTolerance = true ∨
          isStalled settings.tolerance q.previous q.objective = true) := by
  have hmeasured := htries.visits.measured.1.moved hadvance
  obtain ⟨r, hr, hworst⟩ := hmeasured.violation
  have hobjective := hmeasured.objective
  rw [hx] at hr hobjective
  unfold Problem.ConvergesAt
  rw [hmoves.gradientNorm, hmoves.previous, htries.visits.isStalled_iff hobjective, hr, ← hworst]
  simp only [Except.ok.injEq, exists_eq_left']

theorem interruptedAt_iff (htries : problem.Tries minimizer settings start interrupt p x slope)
    (hadvance : advance minimizer settings p = .ok (.moved q snapshot))
    (hmoves : Moves minimizer p q snapshot slope) (hx : q.point = x) :
    problem.InterruptedAt interrupt p x slope ↔ interrupt snapshot = true := by
  have hmeasured := htries.visits.measured.1.moved hadvance
  have hrecords := records_of_advance hadvance
  obtain ⟨r, hr, hworst⟩ := hmeasured.violation
  have hobjective := hmeasured.objective
  rw [hx] at hr hobjective
  have hsnapshot : snapshot =
      { iteration := p.iterations + 1, objective := q.objective, violation := r.worst,
        gradientNorm := slope.norm, penalty := p.lagrangian.penalty } := by
    rw [hworst, ← hrecords.iteration, ← hrecords.objective, ← hrecords.violation,
      ← hmoves.gradientNorm, ← hrecords.penalty]
  rw [hsnapshot]
  constructor
  · rintro ⟨objective, r', hobjective', hr', hinterrupt⟩
    rw [hobjective] at hobjective'
    rw [hr] at hr'
    cases hobjective'
    cases hr'
    exact hinterrupt
  · intro hinterrupt
    exact ⟨q.objective, r, hobjective, hr, hinterrupt⟩

variable [Ranked α]

theorem less_iff_atMost_eq_false {v tolerance : α} (hv : Defined v)
    (htolerance : Defined tolerance) : less tolerance v = true ↔ atMost v tolerance = false := by
  rw [← Bool.not_eq_true, Ranked.less_iff, Ranked.atMost_iff, not_and, not_and]
  constructor
  · rintro ⟨-, -, hlt⟩ _ _
    exact not_le.mpr hlt
  · intro h
    exact ⟨htolerance, hv, not_le.mp (h hv htolerance)⟩

variable (hnumbers : ∀ c ∈ problem.constraints, ∀ v, c.residual x = .ok v → Defined v)
  (htolerance : Defined settings.constraintTolerance)

include hnumbers htolerance

/-- What the search for a degenerate violation finds. -/
theorem degenerateAt_iff {found : Bool}
    (h : Lagrangian.hasDegenerateViolation settings.differenceStep settings.constraintTolerance
      settings.minDerivative x problem.constraints = .ok found) :
    found = true ↔ problem.DegenerateAt settings x := by
  rw [hasDegenerateViolation_iff h]
  unfold Problem.DegenerateAt
  refine exists_congr fun c => and_congr_right fun hc => ?_
  refine exists_congr fun v => exists_congr fun d => and_congr_right fun hv => ?_
  obtain ⟨residual, hresidual, rfl⟩ := Constraint.violation_eq_ok.mp hv
  have hdefined : Defined (c.relation.violation residual) :=
    Relation.violation_defined (hnumbers c hc _ hresidual)
  rw [less_iff_atMost_eq_false hdefined htolerance]

omit htolerance in
/-- Within the tolerance there is no degenerate violation. -/
theorem not_degenerateAt_of_within {r : ByRelation α} (hr : problem.residuals x = .ok r)
    (hwithin : atMost r.worst settings.constraintTolerance = true) :
    ¬ problem.DegenerateAt settings x := by
  rintro ⟨c, hc, v, -, hv, hless, -⟩
  have hall := Problem.allSatisfied_of_worst hr hnumbers hwithin
  obtain ⟨v', hv', hle⟩ := Constraint.violation_of_allSatisfied hall hc
  rw [hv] at hv'
  cases hv'
  obtain ⟨-, -, hlt⟩ := (Ranked.less_iff _ _).mp hless
  obtain ⟨-, -, hge⟩ := (Ranked.atMost_iff _ _).mp hle
  exact absurd hge (not_le.mpr hlt)

/-- A point that does not break off the iteration is judged by the conditions
that hold there. -/
theorem Problem.Tries.judged (htries : problem.Tries minimizer settings start interrupt p x slope)
    (hadvance : advance minimizer settings p = .ok (.moved q snapshot))
    (hmoves : Moves minimizer p q snapshot slope) (hx : q.point = x)
    (hjudge : judge settings interrupt q snapshot = .ok verdict) :
    (problem.ConvergesAt settings p x slope ∧ ¬ problem.DegenerateAt settings x ∧
        verdict = .stop .optimal q) ∨
      (¬ problem.ConvergesAt settings p x slope ∧ problem.DegenerateAt settings x ∧
        verdict = .stop .numericalError q) ∨
      (¬ problem.ConvergesAt settings p x slope ∧ ¬ problem.DegenerateAt settings x ∧
        verdict = deliver settings interrupt q snapshot) := by
  have hmeasured := htries.visits.measured.1.moved hadvance
  obtain ⟨r, hr, hworst⟩ := hmeasured.violation
  have hstep : q.lagrangian.step = settings.differenceStep := by
    obtain ⟨_, -, hupdated⟩ := Lagrangian.updateMultipliers_eq_ok.mp hmoves.updated
    rw [← hupdated]
    exact htries.visits.step_eq
  rw [hx] at hr
  have hsteep (hwithin : atMost q.violation settings.constraintTolerance = true) :
      ¬ problem.DegenerateAt settings x := by
    rw [← hworst] at hwithin
    exact not_degenerateAt_of_within hnumbers hr hwithin
  rw [convergesAt_iff htries hadvance hmoves hx]
  have hcases := judge_cases hjudge
  rw [hstep, hx, hmeasured.problem_eq] at hcases
  obtain ⟨rfl, hwithin, hmet⟩ | ⟨rfl, habove, hfound⟩ | ⟨rfl, ⟨hwithin, hunmet⟩ |
    ⟨habove, hfound⟩⟩ := hcases
  · exact Or.inl ⟨⟨hwithin, hmet⟩, hsteep hwithin, rfl⟩
  · have hdegenerate := (degenerateAt_iff hnumbers htolerance hfound).mp rfl
    exact Or.inr (Or.inl ⟨by simp [habove], hdegenerate, rfl⟩)
  · exact Or.inr (Or.inr ⟨fun h => hunmet h.2, hsteep hwithin, rfl⟩)
  · refine Or.inr (Or.inr ⟨by simp [habove], ?_, rfl⟩)
    intro hdegenerate
    exact Bool.false_ne_true ((degenerateAt_iff hnumbers htolerance hfound).mpr hdegenerate)

omit hnumbers in
/-- The status that a verdict stands for says which conditions hold. -/
theorem Problem.Tries.status_iff
    (htries : problem.Tries minimizer settings start interrupt p x slope)
    (hnumbers : x.isFinite = true →
      ∀ c ∈ problem.constraints, ∀ v, c.residual x = .ok v → Defined v)
    (hiterate : iterate minimizer settings interrupt p = .ok verdict) :
    (verdict.status = .numericalError ↔
        problem.BreaksAt x ∨ problem.DegenerateAt settings x) ∧
      (verdict.status = .maxIterations ↔ ¬ problem.ExitsAt settings interrupt p x slope) ∧
      (verdict.status = .maxIterations ↔ ∃ next, verdict = .proceed next) := by
  obtain ⟨hbreaks, q, -, rfl⟩ | ⟨hkeeps, q, snapshot, hadvance, hmoves, hx, hjudge⟩ :=
    htries.cases hiterate
  · simp [Verdict.status, Problem.ExitsAt, hbreaks]
  · have hfinite : x.isFinite = true := by
      by_contra hinfinite
      exact hkeeps (Or.inl (Bool.not_eq_true _ ▸ hinfinite))
    unfold Problem.ExitsAt
    rw [interruptedAt_iff htries hadvance hmoves hx]
    obtain ⟨hconverges, hsteep, rfl⟩ | ⟨hmisses, hdegenerate, rfl⟩ | ⟨hmisses, hsteep, rfl⟩ :=
      htries.judged (hnumbers hfinite) htolerance hadvance hmoves hx hjudge
    · simp [Verdict.status, hconverges, hsteep, hkeeps]
    · simp [Verdict.status, hdegenerate]
    · rw [deliver_status]
      cases hinterrupt : interrupt snapshot with
      | true => simp [deliver, hinterrupt, hkeeps, hsteep]
      | false => simp [deliver, hinterrupt, hkeeps, hmisses, hsteep]

end Iteration

section Run

variable {α : Type} [Scalar α] {problem : Problem α} {minimizer : Minimizer α}
  {settings : Settings α} {start : Vec α} {interrupt : Snapshot α → Bool} {outcome : Outcome α}
  (hbudget : 0 < settings.maxIterations)
  (h : problem.optimize minimizer settings start interrupt = .ok outcome)

include hbudget h

theorem iterations_of_optimize :
    outcome.iterations ≤ settings.maxIterations ∧
      (outcome.iterations = 0 ↔ ∃ v, problem.objective start = .ok v ∧ isFinite v = false) := by
  obtain ⟨p, hopens, hinfinite, rfl⟩ | ⟨p, x, slope, verdict, htries, hless, -, rfl, hcount, -⟩ :=
    optimize_last hbudget h
  · have hzero : (p.outcome .numericalError).iterations = 0 := hopens.iterations
    obtain ⟨objective, _, hobjective, -, rfl⟩ := hopens
    exact ⟨by omega, iff_of_true hzero ⟨objective, hobjective, hinfinite⟩⟩
  · exact ⟨by omega, iff_of_false (by omega) htries.visits.start_finite⟩

section Recorded

variable (hrecord : settings.recordHistory = true)

include hrecord

/-- Every iteration is written down unless it was broken off. -/
theorem history_numbered_of_optimize :
    ∃ m, outcome.history.map Snapshot.iteration = List.range' 1 m ∧
      (problem.BreaksLast minimizer settings start interrupt outcome →
        m + 1 = outcome.iterations) ∧
      (¬ problem.BreaksLast minimizer settings start interrupt outcome →
        m = outcome.iterations) := by
  obtain ⟨p, hopens, -, rfl⟩ | ⟨p, x, slope, verdict, htries, -, hiterate, rfl, hcount, -⟩ :=
    optimize_last hbudget h
  · obtain ⟨_, _, -, -, rfl⟩ := hopens
    refine ⟨0, rfl, ?_, fun _ => rfl⟩
    rintro ⟨p, x, slope, -, hcount, -⟩
    cases hcount
  · rw [htries.breaksLast_iff hcount, ← hcount]
    have hnumbered := (htries.visits.recorded hrecord).numbered
    obtain ⟨hbreaks, -, hhistory, -⟩ | ⟨hkeeps, s, hiteration, hhistory, -⟩ :=
      htries.written hrecord hiterate
    · refine ⟨p.iterations, ?_, fun _ => rfl, fun hkeeps => absurd hbreaks hkeeps⟩
      change verdict.progress.history.map Snapshot.iteration = _
      rw [hhistory, hnumbered]
    · refine ⟨p.iterations + 1, ?_, fun hbreaks => absurd hbreaks hkeeps, fun _ => rfl⟩
      change verdict.progress.history.map Snapshot.iteration = _
      rw [hhistory, List.map_append, hnumbered, List.map_singleton, hiteration,
        List.range'_1_concat, Nat.add_comm 1]

/-- The caller stops a solve with the last snapshot that was shown, and with no earlier one. -/
theorem interrupted_iff_of_optimize :
    (outcome.status = .interrupted ↔ ∃ earlier s, outcome.delivered = earlier ++ [s] ∧
        s.iteration = outcome.iterations ∧ interrupt s = true) ∧
      ∀ s ∈ outcome.delivered, s.iteration < outcome.iterations → interrupt s = false := by
  obtain ⟨p, hopens, -, rfl⟩ | ⟨p, x, slope, verdict, htries, -, hiterate, rfl, hcount, -⟩ :=
    optimize_last hbudget h
  · obtain ⟨_, _, -, -, rfl⟩ := hopens
    simp [Progress.outcome]
  · have hp := htries.visits.recorded hrecord
    rw [← hcount]
    change (verdict.status = .interrupted ↔ ∃ earlier s,
      verdict.progress.delivered = earlier ++ [s] ∧ _) ∧ ∀ s ∈ verdict.progress.delivered, _
    -- What is shown up to the last iteration made nobody stop the solve.
    have hunshown (hdelivered : verdict.progress.delivered = p.history)
        (hstatus : verdict.status ≠ .interrupted) :
        (verdict.status = .interrupted ↔ ∃ earlier s,
            verdict.progress.delivered = earlier ++ [s] ∧ s.iteration = p.iterations + 1 ∧
              interrupt s = true) ∧
          ∀ s ∈ verdict.progress.delivered, s.iteration < p.iterations + 1 →
            interrupt s = false := by
      rw [hdelivered]
      refine ⟨iff_of_false hstatus ?_, fun s hs _ => hp.passed s hs⟩
      rintro ⟨earlier, s, heq, hiteration, -⟩
      have hle := hp.iteration_le (s := s) (by simp [heq])
      omega
    obtain ⟨-, hstatus, -, hdelivered⟩ | ⟨-, s, hiteration, -, ⟨hstatus, hdelivered⟩ |
      ⟨hstatus, hdelivered⟩⟩ := htries.written hrecord hiterate
    · exact hunshown hdelivered (by simp [hstatus])
    · exact hunshown hdelivered (by rcases hstatus with hstatus | hstatus <;> simp [hstatus])
    · rw [hdelivered, hstatus]
      constructor
      · constructor
        · intro hinterrupted
          refine ⟨p.history, s, rfl, hiteration, ?_⟩
          by_contra hgoes
          rw [if_neg hgoes] at hinterrupted
          cases hinterrupted
        · rintro ⟨earlier, s', heq, -, hinterrupt⟩
          obtain ⟨-, hlast⟩ := List.append_inj' heq rfl
          cases hlast
          rw [if_pos hinterrupt]
      · intro s' hs' hless
        rcases List.mem_append.mp hs' with hs' | hs'
        · exact hp.passed s' hs'
        · rw [List.mem_singleton.mp hs', hiteration] at hless
          exact absurd hless (Nat.lt_irrefl _)

end Recorded

section Numbers

variable [Ranked α] (htolerance : Defined settings.constraintTolerance)
  (hnumbers : ∀ p x slope, problem.Tries minimizer settings start interrupt p x slope →
    x.isFinite = true → ∀ c ∈ problem.constraints, ∀ v, c.residual x = .ok v → Defined v)

include htolerance hnumbers

/-- Numbers that are not finite end a solve, and so does a violation without a gradient. -/
theorem numericalError_iff_of_optimize :
    outcome.status = .numericalError ↔
      (∃ v, problem.objective start = .ok v ∧ isFinite v = false) ∨
        ∃ p x slope, problem.Tries minimizer settings start interrupt p x slope ∧
          p.iterations + 1 = outcome.iterations ∧
          (problem.BreaksAt x ∨ problem.DegenerateAt settings x) := by
  obtain ⟨p, hopens, hinfinite, rfl⟩ |
      ⟨p, x, slope, verdict, htries, -, hiterate, rfl, hcount, -⟩ := optimize_last hbudget h
  · obtain ⟨objective, _, hobjective, -, rfl⟩ := hopens
    exact iff_of_true rfl (Or.inl ⟨objective, hobjective, hinfinite⟩)
  · obtain ⟨hstatus, -⟩ := htries.status_iff htolerance (hnumbers p x slope htries) hiterate
    change verdict.status = .numericalError ↔ _
    rw [hstatus]
    constructor
    · intro hends
      exact Or.inr ⟨p, x, slope, htries, hcount, hends⟩
    · rintro (hinfinite | ⟨q, y, other, htries', hcount', hends⟩)
      · exact absurd hinfinite htries.visits.start_finite
      · obtain ⟨-, rfl, -⟩ := htries.unique htries' (by omega)
        exact hends

/-- The budget is used up if no iteration ended the solve for another reason. -/
theorem maxIterations_iff_of_optimize :
    outcome.status = .maxIterations ↔
      outcome.iterations = settings.maxIterations ∧
        ∀ p x slope, problem.Tries minimizer settings start interrupt p x slope →
          p.iterations < settings.maxIterations →
          ¬ problem.ExitsAt settings interrupt p x slope := by
  obtain ⟨p, hopens, hinfinite, rfl⟩ |
    ⟨p, x, slope, verdict, htries, hless, hiterate, rfl, hcount, hlast⟩ := optimize_last hbudget h
  · have hzero : (p.outcome .numericalError).iterations = 0 := hopens.iterations
    refine iff_of_false (fun hstatus => nomatch hstatus) ?_
    rintro ⟨hfull, -⟩
    omega
  · obtain ⟨-, hstatus, hproceeds⟩ :=
      htries.status_iff htolerance (hnumbers p x slope htries) hiterate
    change verdict.status = .maxIterations ↔ _
    constructor
    · intro hfull
      obtain ⟨next, rfl⟩ := hproceeds.mp hfull
      have htotal := hlast next rfl
      refine ⟨hcount.symm.trans htotal, ?_⟩
      intro q y other htries' hless'
      rcases Nat.lt_or_ge q.iterations p.iterations with hbefore | hge
      · -- An earlier iteration went on, so that none of the conditions held in it.
        obtain ⟨next', hiterate'⟩ := htries'.visits.proceeds htries.visits hbefore
        obtain ⟨-, hstatus', -⟩ :=
          htries'.status_iff htolerance (hnumbers q y other htries') hiterate'
        exact hstatus'.mp rfl
      · obtain ⟨rfl, rfl, rfl⟩ := htries.unique htries' (by omega)
        exact hstatus.mp hfull
    · rintro ⟨-, hnone⟩
      exact hstatus.mpr (hnone p x slope htries hless)

end Numbers

end Run

/-- A solve with checked settings that records its history returns if nothing
it calls fails. It does no more iterations than the budget, and none exactly if
the objective at the start is not finite. It was interrupted exactly if the
snapshot shown in the last iteration made the caller stop it, and no earlier
one did. The budget was used up exactly if all its iterations ran and none met
a condition to end the solve. A numerical error says exactly that the objective
at the start is not finite, or that the last point breaks the iteration off or
has a degenerate violation. The history is numbered from one to the last
iteration, or to the one before it if the last one broke off. -/
theorem exit_status_and_history_describe_run {minimizer : Minimizer Float}
    {fields : List (String × Datum)} {settings : Settings Float}
    {objective : Vec Float → Except Fault Float}
    {gradient : Option (Vec Float → Except Fault (Vec Float))} {given : Datum}
    {items : Nested (Item Float)} {sense : Sense} {interrupt : Snapshot Float → Bool}
    {start : Vec Float} {constraints : List (Constraint Float)}
    (hsettings : Settings.ofFields fields = .ok settings)
    (hrecord : settings.recordHistory = true)
    (hstart : Check.array given "initial_state" = .ok start)
    (hconstraints : flattenConstraints items = .ok constraints) :
    let problem : Problem Float := { objective, gradient, constraints, weight := sense.sign }
    let Tried := problem.Tries minimizer settings start interrupt
    let result :=
      optimizeDecisionWith minimizer settings objective gradient given items sense interrupt
    (minimizer.Serves → problem.Responds start.size → ∃ outcome, result = .ok outcome) ∧
    ∀ outcome, result = .ok outcome →
      (∀ p x slope, Tried p x slope → x.isFinite = true →
        ∀ c ∈ constraints, ∀ v, c.residual x = .ok v → v.isNaN = false) →
      outcome.iterations ≤ settings.maxIterations ∧
      (outcome.iterations = 0 ↔ ∃ v, objective start = .ok v ∧ v.isFinite = false) ∧
      (outcome.status = .interrupted ↔ ∃ earlier s, outcome.delivered = earlier ++ [s] ∧
        s.iteration = outcome.iterations ∧ interrupt s = true) ∧
      (∀ s ∈ outcome.delivered, s.iteration < outcome.iterations → interrupt s = false) ∧
      (outcome.status = .maxIterations ↔ outcome.iterations = settings.maxIterations ∧
        ∀ p x slope, Tried p x slope → p.iterations < settings.maxIterations →
          ¬ problem.ExitsAt settings interrupt p x slope) ∧
      (outcome.status = .numericalError ↔
        (∃ v, objective start = .ok v ∧ v.isFinite = false) ∨
          ∃ p x slope, Tried p x slope ∧ p.iterations + 1 = outcome.iterations ∧
            (problem.BreaksAt x ∨ problem.DegenerateAt settings x)) ∧
      ∃ m, outcome.history.map Snapshot.iteration = List.range' 1 m ∧
        (problem.BreaksLast minimizer settings start interrupt outcome →
          m + 1 = outcome.iterations) ∧
        (¬ problem.BreaksLast minimizer settings start interrupt outcome →
          m = outcome.iterations) := by
  intro problem Tried result
  have hread := Settings.readFrom_of_ofFields hsettings
  have hbudget := Check.count_pos hread.maxIterations
  have htolerance : Defined settings.constraintTolerance :=
    ((Ranked.less_iff _ _).mp (Check.positive_pos hread.constraintTolerance)).2.1
  have hresult : result = problem.optimize minimizer settings start interrupt := by
    simp only [result, optimizeDecisionWith, hstart, hconstraints]
    rfl
  rw [hresult]
  constructor
  · intro hserves hresponds
    obtain ⟨hcomponents, hfinite⟩ := Check.of_array hstart
    exact optimize_responds hread.steady hserves hresponds hcomponents hfinite
  · intro outcome h hnumbers
    have hdefined : ∀ p x slope, Tried p x slope → x.isFinite = true →
        ∀ c ∈ constraints, ∀ v, c.residual x = .ok v → Defined v := by
      intro p x slope htries hfinite c hc v hv
      exact (Binary64.defined_iff_isNaN v).mpr (hnumbers p x slope htries hfinite c hc v hv)
    obtain ⟨hcount, hzero⟩ := iterations_of_optimize hbudget h
    obtain ⟨hinterrupted, hpassed⟩ := interrupted_iff_of_optimize hbudget h hrecord
    exact ⟨hcount, hzero, hinterrupted, hpassed,
      maxIterations_iff_of_optimize hbudget h htolerance hdefined,
      numericalError_iff_of_optimize hbudget h htolerance hdefined,
      history_numbered_of_optimize hbudget h hrecord⟩

def climbing : Minimizer Float := fun _ _ start => .ok (⟨start.toList.map (· + 1.0)⟩, ⟨[1.0]⟩)

/-- A solve that climbs for as long as it may, below a bound that it does not
reach. -/
def climb : Except Fault (Settings Float × Outcome Float) := do
  let settings ← Settings.ofFields [("record_history", .flag true), ("max_iterations", .whole 2)]
  let outcome ← optimizeDecisionWith climbing settings (fun x => x.get 0) none
    (.list [.real 0.0]) (.group [.leaf (.decision firstAtMostTwo)]) .maximize (fun _ => false)
  return (settings, outcome)

theorem firstAtMostTwo_defined {x : Vec Float} (hfinite : x.isFinite = true) {v : Float}
    (h : firstAtMostTwo.residual x = .ok v) : v.isNaN = false := by
  simp only [firstAtMostTwo, bind_eq_ok, pure_eq_ok] at h
  obtain ⟨y, hy, rfl⟩ := h
  have hmember : y ∈ x.toList := List.mem_of_getElem? (Vec.get_natCast_eq_ok.mp hy)
  have hy' : y.isFinite = true := List.all_eq_true.mp hfinite y hmember
  have htwo : Defined (2.0 : Float) := Binary64.defined_of_isFinite (by decide +kernel)
  exact (Binary64.defined_iff_isNaN _).mp (Binary64.sub_defined hy' htwo)

/-- Both iterations of the climb ran, none met a condition to end it, and both
are in the history. -/
theorem climb_described :
    ∃ settings outcome, climb = .ok (settings, outcome) ∧ outcome.status = .maxIterations ∧
      outcome.iterations = settings.maxIterations ∧
      (∀ p x slope, Problem.Tries
          ⟨fun x => x.get 0, none, [firstAtMostTwo], Sense.maximize.sign⟩ climbing settings
          ⟨[0.0]⟩ (fun _ => false) p x slope → p.iterations < settings.maxIterations →
        ¬ Problem.ExitsAt ⟨fun x => x.get 0, none, [firstAtMostTwo], Sense.maximize.sign⟩
          settings (fun _ => false) p x slope) ∧
      outcome.history.map Snapshot.iteration = [1, 2] := by
  obtain ⟨⟨settings, outcome⟩, hclimb, hcheck⟩ : ∃ r, climb = .ok r ∧
      decide (r.2.status = .maxIterations ∧ r.1.recordHistory = true ∧
        r.2.history.map Snapshot.iteration = [1, 2]) = true :=
    exists_ok_of_any (by decide +kernel)
  obtain ⟨hstatus, hrecord, hhistory⟩ := of_decide_eq_true hcheck
  have hsteps := hclimb
  simp only [climb, bind_eq_ok, pure_eq_ok, Prod.mk.injEq] at hsteps
  obtain ⟨settings, hsettings, outcome, hsolve, rfl, rfl⟩ := hsteps
  have hstart : Check.array (.list [.real 0.0]) "initial_state" = .ok ⟨[0.0]⟩ := rfl
  have hconstraints : flattenConstraints (.group [.leaf (.decision firstAtMostTwo)]) =
      .ok [firstAtMostTwo] := rfl
  obtain ⟨-, hdescribed⟩ :=
    exit_status_and_history_describe_run hsettings hrecord hstart hconstraints
  obtain ⟨-, -, -, -, hbudget, -⟩ := hdescribed outcome hsolve (by
    intro p x slope _ hfinite c hc v hv
    rw [List.mem_singleton.mp hc] at hv
    exact firstAtMostTwo_defined hfinite hv)
  obtain ⟨hcount, hnone⟩ := hbudget.mp hstatus
  exact ⟨settings, outcome, hclimb, hstatus, hcount, hnone, hhistory⟩

end Optima
