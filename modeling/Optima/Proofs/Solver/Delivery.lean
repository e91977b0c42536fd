import Optima.Proofs.Solver.Ends

/-!
Which snapshots the caller is shown. They are numbered from one without a gap, and each of them is
written to the history first. What may be missing is the last one: when the tolerances are met, or a
violated constraint has no slope, the solve ends between writing the snapshot and showing it. On all
other ends the caller has seen the whole history.
-/

namespace Optima

section Run

variable {α : Type} [Scalar α] {problem : Problem α} {minimizer : Minimizer α}
  {settings : Settings α} {start : Vec α} {interrupt : Snapshot α → Bool} {outcome : Outcome α}

/-- Nothing is missing, or the last snapshot is. -/
theorem delivered_of_optimize (hbudget : 0 < settings.maxIterations)
    (hrecord : settings.recordHistory = true)
    (h : problem.optimize minimizer settings start interrupt = .ok outcome) :
    (outcome.delivered = outcome.history ∧
      (outcome.status = .maxIterations ∨ outcome.status = .interrupted ∨
        (outcome.status = .numericalError ∧
          ((∃ v, problem.objective start = .ok v ∧ Scalar.isFinite v = false) ∨
            problem.BreaksLast minimizer settings start interrupt outcome)))) ∨
    ((∃ s, outcome.history = outcome.delivered ++ [s] ∧ s.iteration = outcome.iterations) ∧
      (outcome.status = .optimal ∨
        (outcome.status = .numericalError ∧
          ¬ ((∃ v, problem.objective start = .ok v ∧ Scalar.isFinite v = false) ∨
            problem.BreaksLast minimizer settings start interrupt outcome)))) := by
  obtain ⟨p, hopens, hinfinite, rfl⟩ |
      ⟨p, x, slope, verdict, htries, -, hiterate, rfl, hcount, -⟩ := optimize_last hbudget h
  · obtain ⟨objective, _, hobjective, -, rfl⟩ := hopens
    exact Or.inl ⟨rfl, Or.inr (Or.inr ⟨rfl, Or.inl ⟨objective, hobjective, hinfinite⟩⟩)⟩
  · have hstart := htries.visits.start_finite
    rw [htries.breaksLast_iff hcount, ← hcount]
    change (verdict.progress.delivered = verdict.progress.history ∧
      (verdict.status = _ ∨ verdict.status = _ ∨ (verdict.status = _ ∧ _))) ∨
      ((∃ s, verdict.progress.history = verdict.progress.delivered ++ [s] ∧ _) ∧
        (verdict.status = _ ∨ (verdict.status = _ ∧ _)))
    obtain ⟨hbreaks, hstatus, hhistory, hdelivered⟩ | ⟨hkeeps, s, hiteration, hhistory,
      ⟨hstatus, hdelivered⟩ | ⟨hstatus, hdelivered⟩⟩ := htries.written hrecord hiterate
    · refine Or.inl ⟨hdelivered.trans hhistory.symm, ?_⟩
      exact Or.inr (Or.inr ⟨hstatus, Or.inr hbreaks⟩)
    · refine Or.inr ⟨⟨s, ?_, hiteration⟩, ?_⟩
      · rw [hhistory, hdelivered]
      · have hunbroken : ¬ ((∃ v, problem.objective start = .ok v ∧ Scalar.isFinite v = false) ∨
            problem.BreaksAt x) := fun hends => hends.elim hstart hkeeps
        exact hstatus.imp_right fun hstatus => ⟨hstatus, hunbroken⟩
    · refine Or.inl ⟨hdelivered.trans hhistory.symm, ?_⟩
      cases hinterrupt : interrupt s with
      | true =>
          rw [hinterrupt, if_pos rfl] at hstatus
          exact Or.inr (Or.inl hstatus)
      | false =>
          rw [hinterrupt, if_neg Bool.false_ne_true] at hstatus
          exact Or.inl hstatus

/-- The caller is shown every snapshot from the first one on, without gaps. -/
theorem delivered_numbered_of_optimize (hbudget : 0 < settings.maxIterations)
    (hrecord : settings.recordHistory = true)
    (h : problem.optimize minimizer settings start interrupt = .ok outcome) :
    outcome.delivered.map Snapshot.iteration = List.range' 1 outcome.delivered.length := by
  obtain ⟨m, hnumbered, -⟩ := history_numbered_of_optimize hbudget h hrecord
  have hlength : outcome.history.length = m := by
    have hmapped := congrArg List.length hnumbered
    rwa [List.length_map, List.length_range'] at hmapped
  obtain ⟨hall, -⟩ | ⟨⟨s, hhistory, -⟩, -⟩ := delivered_of_optimize hbudget hrecord h
  · rw [hall, hnumbered, hlength]
  · rw [hhistory, List.length_append, List.length_singleton] at hlength
    rw [hhistory, ← hlength, List.map_append, List.range'_1_concat] at hnumbered
    exact (List.append_inj' hnumbered rfl).1

end Run

/-- The caller is shown the whole history exactly if the budget was used up,
the caller stopped the solve, or it ended on a number that is not finite.
Otherwise the snapshot of the last iteration is missing, and nothing else is.
The snapshots are shown in order, each of them once. -/
theorem shown_snapshots_miss_at_most_last {minimizer : Minimizer Float}
    {fields : List (String × Datum)} {settings : Settings Float}
    {objective : Vec Float → Except Fault Float}
    {gradient : Option (Vec Float → Except Fault (Vec Float))} {given : Datum}
    {items : Nested (Item Float)} {sense : Sense} {interrupt : Snapshot Float → Bool}
    {start : Vec Float} {constraints : List (Constraint Float)} {outcome : Outcome Float}
    (hsettings : Settings.ofFields fields = .ok settings)
    (hrecord : settings.recordHistory = true)
    (hstart : Check.array given "initial_state" = .ok start)
    (hconstraints : flattenConstraints items = .ok constraints)
    (h : optimizeDecisionWith minimizer settings objective gradient given items sense interrupt =
      .ok outcome) :
    let problem : Problem Float := { objective, gradient, constraints, weight := sense.sign }
    (outcome.delivered = outcome.history ↔
      outcome.status = .maxIterations ∨ outcome.status = .interrupted ∨
        (outcome.status = .numericalError ∧
          ((∃ v, objective start = .ok v ∧ v.isFinite = false) ∨
            problem.BreaksLast minimizer settings start interrupt outcome))) ∧
    (outcome.delivered ≠ outcome.history →
      ∃ s, outcome.history = outcome.delivered ++ [s] ∧ s.iteration = outcome.iterations) ∧
    outcome.delivered.map Snapshot.iteration = List.range' 1 outcome.delivered.length := by
  intro problem
  have hbudget := Check.count_pos (Settings.readFrom_of_ofFields hsettings).maxIterations
  have hsolve : problem.optimize minimizer settings start interrupt = .ok outcome := by
    simp only [optimizeDecisionWith, hstart, hconstraints] at h
    exact h
  have hnumbered := delivered_numbered_of_optimize hbudget hrecord hsolve
  obtain ⟨hall, hends⟩ | ⟨⟨s, hhistory, hiteration⟩, hends⟩ :=
    delivered_of_optimize hbudget hrecord hsolve
  · exact ⟨iff_of_true hall hends, fun hmissing => absurd hall hmissing, hnumbered⟩
  · refine ⟨iff_of_false ?_ ?_, fun _ => ⟨s, hhistory, hiteration⟩, hnumbered⟩
    · intro hall
      have hlengths := congrArg List.length (hall.trans hhistory)
      simp at hlengths
    · rcases hends with hstatus | ⟨hstatus, hunbroken⟩
      · simp [hstatus]
      · simp only [hstatus, reduceCtorEq, true_and, false_or]
        exact hunbroken

/-- The square of the first component, to be minimized from zero by a
minimizer that stays where it starts. -/
def restingSolve : Except Fault (Settings Float × Outcome Float) := do
  let settings ← Settings.ofFields [("record_history", .flag true)]
  let outcome ← optimizeDecisionWith (fun _ gradient start => do return (start, ← gradient start))
    settings (fun x => do return (← x.get 0) * (← x.get 0))
    (some fun x => do return ⟨[2.0 * (← x.get 0)]⟩) (.list [.real 0.0]) (.group []) .minimize
    (fun _ => false)
  return (settings, outcome)

/-- A solve that ends optimal in its first iteration has shown nothing, though
its history holds a snapshot. -/
theorem optimal_snapshot_not_shown :
    ∃ settings outcome, restingSolve = .ok (settings, outcome) ∧
      settings.recordHistory = true ∧ outcome.status = .optimal ∧
      outcome.history.map Snapshot.iteration = [1] ∧
      outcome.delivered.map Snapshot.iteration = [] := by
  obtain ⟨⟨settings, outcome⟩, hsolve, hcheck⟩ : ∃ r, restingSolve = .ok r ∧
      decide (r.1.recordHistory = true ∧ r.2.status = .optimal ∧
        r.2.history.map Snapshot.iteration = [1] ∧
        r.2.delivered.map Snapshot.iteration = []) = true :=
    exists_ok_of_any (by decide +kernel)
  exact ⟨settings, outcome, hsolve, of_decide_eq_true hcheck⟩

theorem restingSolve_misses_last :
    ∃ settings outcome, restingSolve = .ok (settings, outcome) ∧
      outcome.delivered ≠ outcome.history ∧
      ∃ s, outcome.history = outcome.delivered ++ [s] ∧ s.iteration = 1 := by
  obtain ⟨⟨settings, outcome⟩, hrun, hcheck⟩ : ∃ r, restingSolve = .ok r ∧
      decide (r.1.recordHistory = true ∧ r.2.status = .optimal ∧ r.2.iterations = 1) = true :=
    exists_ok_of_any (by decide +kernel)
  obtain ⟨hrecord, hstatus, hone⟩ := of_decide_eq_true hcheck
  refine ⟨settings, outcome, hrun, ?_⟩
  simp only [restingSolve, bind_eq_ok, pure_eq_ok, Prod.mk.injEq] at hrun
  obtain ⟨settings, hsettings, outcome, hsolve, rfl, rfl⟩ := hrun
  have hstart : Check.array (.list [.real 0.0]) "initial_state" = .ok ⟨[0.0]⟩ := rfl
  have hconstraints : flattenConstraints (.group []) = .ok ([] : List (Constraint Float)) := rfl
  obtain ⟨hshown, hmissing, -⟩ :=
    shown_snapshots_miss_at_most_last hsettings hrecord hstart hconstraints hsolve
  have hunshown : outcome.delivered ≠ outcome.history := by
    rw [Ne, hshown, hstatus]
    simp
  obtain ⟨s, hhistory, hiteration⟩ := hmissing hunshown
  exact ⟨hunshown, s, hhistory, hiteration.trans hone⟩

end Optima
