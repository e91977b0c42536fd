import Optima.Proofs.Solver.Soundness

/-!
What a solve writes down. An iteration either breaks off, and writes nothing, or it moves the
multipliers and writes one snapshot. So the history of a visited state holds one snapshot for every
iteration before it, each of them shown to a caller who let the solve go on. A state is known by the
number of its iterations, and a solve with a budget ends by the verdict of its last iteration,
unless the objective at the start is not finite.
-/

namespace Optima

variable {α : Type} [Scalar α] {problem : Problem α} {minimizer : Minimizer α}
  {settings : Settings α} {start : Vec α} {interrupt : Snapshot α → Bool}

/-- What an iteration from `p` that moves the multipliers writes down. -/
structure Records (settings : Settings α) (p q : Progress α) (snapshot : Snapshot α) : Prop where
  iteration : snapshot.iteration = p.iterations + 1
  objective : snapshot.objective = q.objective
  violation : snapshot.violation = q.violation
  penalty : snapshot.penalty = p.lagrangian.penalty
  history : q.history = if settings.recordHistory then p.history ++ [snapshot] else p.history
  delivered : q.delivered = p.delivered

theorem records_of_advance {p q : Progress α} {snapshot : Snapshot α}
    (h : advance minimizer settings p = .ok (.moved q snapshot)) :
    Records settings p q snapshot := by
  obtain ⟨x, slope, -, ⟨-, hbroken⟩ | ⟨-, objective, violation, -, -,
    ⟨-, hbroken⟩ | ⟨-, updated, shown, -, rfl, hmoved⟩⟩⟩ := advance_cases h
  · cases hbroken
  · cases hbroken
  · cases hmoved
    exact ⟨rfl, rfl, rfl, rfl, rfl, rfl⟩

/-- An iteration that breaks off is counted and writes nothing. -/
theorem unrecorded_of_advance {p q : Progress α}
    (h : advance minimizer settings p = .ok (.broken q)) :
    q.iterations = p.iterations + 1 ∧ q.history = p.history ∧ q.delivered = p.delivered := by
  obtain ⟨x, slope, -, ⟨-, hkept⟩ | ⟨-, objective, violation, -, -,
    ⟨-, htaken⟩ | ⟨-, updated, snapshot, -, -, hmoved⟩⟩⟩ := advance_cases h
  · cases hkept
    exact ⟨rfl, rfl, rfl⟩
  · cases htaken
    exact ⟨rfl, rfl, rfl⟩
  · cases hmoved

/-- Everything written down was shown to the caller, who let the solve go on,
and the snapshots are numbered from one. -/
structure Progress.Recorded (interrupt : Snapshot α → Bool) (p : Progress α) : Prop where
  delivered : p.delivered = p.history
  numbered : p.history.map Snapshot.iteration = List.range' 1 p.iterations
  passed : ∀ s ∈ p.history, interrupt s = false

omit [Scalar α] in
theorem Records.numbered {p q : Progress α} {snapshot : Snapshot α}
    (h : Records settings p q snapshot) (hrecord : settings.recordHistory = true)
    (hp : p.Recorded interrupt) :
    q.history = p.history ++ [snapshot] ∧
      q.history.map Snapshot.iteration = List.range' 1 (p.iterations + 1) := by
  have hhistory : q.history = p.history ++ [snapshot] := by
    rw [h.history, hrecord, if_pos rfl]
  refine ⟨hhistory, ?_⟩
  rw [hhistory, List.map_append, hp.numbered, List.range'_1_concat, List.map_singleton,
    h.iteration, Nat.add_comm 1]

theorem Problem.Visits.recorded (hrecord : settings.recordHistory = true) {p : Progress α}
    (h : problem.Visits minimizer settings start interrupt p) : p.Recorded interrupt := by
  induction h with
  | opening hopens _ =>
      obtain ⟨_, _, -, -, rfl⟩ := hopens
      refine ⟨rfl, rfl, ?_⟩
      intro s hs
      cases hs
  | @proceed p _ _ hiterate ih =>
      obtain ⟨q, snapshot, hadvance, hinterrupt, rfl⟩ := iterate_proceed hiterate
      have hrecords := records_of_advance hadvance
      obtain ⟨hhistory, hnumbered⟩ := hrecords.numbered hrecord ih
      obtain ⟨slope, hmoves⟩ := advance_moved hadvance
      refine ⟨?_, ?_, ?_⟩
      · change q.delivered ++ [snapshot] = q.history
        rw [hrecords.delivered, ih.delivered, hhistory]
      · change q.history.map Snapshot.iteration = List.range' 1 q.iterations
        rw [hmoves.iterations]
        exact hnumbered
      · intro s hs
        change s ∈ q.history at hs
        rw [hhistory] at hs
        rcases List.mem_append.mp hs with hs | hs
        · exact ih.passed s hs
        · rw [List.mem_singleton.mp hs]
          exact hinterrupt

omit [Scalar α] in
theorem Progress.Recorded.iteration_le {p : Progress α} (h : p.Recorded interrupt)
    {s : Snapshot α} (hs : s ∈ p.history) : s.iteration ≤ p.iterations := by
  have hmember : s.iteration ∈ p.history.map Snapshot.iteration := List.mem_map_of_mem hs
  rw [h.numbered, List.mem_range'_1] at hmember
  omega

theorem Problem.Opens.iterations {p : Progress α} (h : problem.Opens settings start p) :
    p.iterations = 0 := by
  obtain ⟨_, _, -, -, rfl⟩ := h
  rfl

/-- The number of iterations tells the visited states apart. -/
theorem Problem.Visits.unique {p q : Progress α}
    (hp : problem.Visits minimizer settings start interrupt p)
    (hq : problem.Visits minimizer settings start interrupt q)
    (h : p.iterations = q.iterations) : p = q := by
  induction hp generalizing q with
  | opening hopens _ =>
      cases hq with
      | opening hopens' _ => exact hopens.unique hopens'
      | proceed _ hiterate =>
          have hcount := iterations_of_proceed hiterate
          have hzero := hopens.iterations
          omega
  | proceed _ hiterate ih =>
      have hcount := iterations_of_proceed hiterate
      cases hq with
      | opening hopens' _ =>
          have hzero := hopens'.iterations
          omega
      | proceed hvisits' hiterate' =>
          have hcount' := iterations_of_proceed hiterate'
          obtain rfl := ih hvisits' (by omega)
          rw [hiterate] at hiterate'
          cases hiterate'
          rfl

/-- A solve has gone on from every state before a visited one. -/
theorem Problem.Visits.proceeds {p q : Progress α}
    (hp : problem.Visits minimizer settings start interrupt p)
    (hq : problem.Visits minimizer settings start interrupt q)
    (h : p.iterations < q.iterations) :
    ∃ next, iterate minimizer settings interrupt p = .ok (.proceed next) := by
  induction hq with
  | opening hopens _ =>
      have hzero := hopens.iterations
      omega
  | @proceed before next hvisits hiterate ih =>
      have hcount := iterations_of_proceed hiterate
      rcases Nat.lt_or_ge p.iterations before.iterations with hless | hge
      · exact ih hless
      · obtain rfl := hp.unique hvisits (by omega)
        exact ⟨next, hiterate⟩

namespace Verdict

omit [Scalar α]

/-- The status that a solve ends with by its last verdict: if it would go on,
the budget is used up. -/
def status : Verdict α → Status
  | proceed _ => .maxIterations
  | stop status _ => status

def progress : Verdict α → Progress α
  | proceed p => p
  | stop _ p => p

end Verdict

theorem deliver_progress (settings : Settings α) (interrupt : Snapshot α → Bool) (p : Progress α)
    (snapshot : Snapshot α) :
    (deliver settings interrupt p snapshot).progress.history = p.history ∧
      (deliver settings interrupt p snapshot).progress.iterations = p.iterations ∧
      (deliver settings interrupt p snapshot).progress.delivered = p.delivered ++ [snapshot] := by
  unfold deliver
  split
  · exact ⟨rfl, rfl, rfl⟩
  · exact ⟨rfl, rfl, rfl⟩

theorem deliver_status (p : Progress α) (snapshot : Snapshot α) :
    (deliver settings interrupt p snapshot).status =
      if interrupt snapshot then .interrupted else .maxIterations := by
  unfold deliver
  split
  · rfl
  · rfl

/-- Judging an iteration changes neither the history nor the count. -/
theorem judge_progress {p : Progress α} {snapshot : Snapshot α} {verdict : Verdict α}
    (h : judge settings interrupt p snapshot = .ok verdict) :
    verdict.progress.history = p.history ∧ verdict.progress.iterations = p.iterations := by
  obtain ⟨rfl, -⟩ | ⟨rfl, -⟩ | ⟨rfl, -⟩ := judge_cases h
  · exact ⟨rfl, rfl⟩
  · exact ⟨rfl, rfl⟩
  · obtain ⟨hhistory, hiterations, -⟩ := deliver_progress settings interrupt p snapshot
    exact ⟨hhistory, hiterations⟩

/-- A point that breaks off an iteration: it is not finite, or the objective
or the violation measured there is not. -/
def Problem.BreaksAt (problem : Problem α) (x : Vec α) : Prop :=
  x.isFinite = false ∨
    (∃ v, problem.objective x = .ok v ∧ Scalar.isFinite v = false) ∨
    ∃ r, problem.residuals x = .ok r ∧ Scalar.isFinite r.worst = false

structure Problem.Tries (problem : Problem α) (minimizer : Minimizer α) (settings : Settings α)
    (start : Vec α) (interrupt : Snapshot α → Bool) (p : Progress α) (x slope : Vec α) :
    Prop where
  visits : problem.Visits minimizer settings start interrupt p
  found : minimizer p.lagrangian.value p.lagrangian.gradient p.point = .ok (x, slope)

theorem Problem.Visits.tries {p : Progress α} {verdict : Verdict α}
    (h : problem.Visits minimizer settings start interrupt p)
    (hiterate : iterate minimizer settings interrupt p = .ok verdict) :
    ∃ x slope, problem.Tries minimizer settings start interrupt p x slope := by
  simp only [iterate, bind_eq_ok] at hiterate
  obtain ⟨a, hadvance, -⟩ := hiterate
  obtain ⟨x, slope, hfound, -⟩ := advance_cases hadvance
  exact ⟨x, slope, h, hfound⟩

/-- An iteration breaks off exactly at the points that break it off; at other
points it moves the multipliers and is judged. -/
theorem Problem.Tries.cases {p : Progress α} {x slope : Vec α} {verdict : Verdict α}
    (h : problem.Tries minimizer settings start interrupt p x slope)
    (hiterate : iterate minimizer settings interrupt p = .ok verdict) :
    (problem.BreaksAt x ∧ ∃ q, advance minimizer settings p = .ok (.broken q) ∧
        verdict = .stop .numericalError q) ∨
      (¬ problem.BreaksAt x ∧ ∃ q snapshot,
        advance minimizer settings p = .ok (.moved q snapshot) ∧
        Moves minimizer p q snapshot slope ∧ q.point = x ∧
        judge settings interrupt q snapshot = .ok verdict) := by
  have hproblem := h.visits.measured.1.problem_eq
  simp only [iterate, bind_eq_ok] at hiterate
  obtain ⟨a, hadvance, hverdict⟩ := hiterate
  obtain ⟨x', slope', hfound, hcases⟩ := advance_cases hadvance
  rw [h.found] at hfound
  cases hfound
  rw [hproblem] at hcases
  obtain ⟨hinfinite, rfl⟩ | ⟨hfinite, objective, violation, hobjective, hviolation,
    ⟨hnumbers, rfl⟩ | ⟨hnumbers, updated, snapshot, hupdated, rfl, rfl⟩⟩ := hcases
  · rw [pure_eq_ok] at hverdict
    exact Or.inl ⟨Or.inl hinfinite, _, hadvance, hverdict.symm⟩
  · rw [pure_eq_ok] at hverdict
    refine Or.inl ⟨Or.inr ?_, _, hadvance, hverdict.symm⟩
    obtain ⟨r, hr, rfl⟩ := Lagrangian.maxViolation_eq_ok.mp hviolation
    rw [hproblem] at hr
    rcases Bool.and_eq_false_iff.mp hnumbers with hvalue | hworst
    · exact Or.inl ⟨objective, hobjective, hvalue⟩
    · exact Or.inr ⟨r, hr, hworst⟩
  · obtain ⟨hvalue, hworst⟩ := Bool.and_eq_true_iff.mp hnumbers
    refine Or.inr ⟨?_, _, _, hadvance, ?_, rfl, hverdict⟩
    · rintro (hinfinite | ⟨v, hv, hinfinite⟩ | ⟨r, hr, hinfinite⟩)
      · rw [hfinite] at hinfinite
        cases hinfinite
      · rw [hobjective] at hv
        cases hv
        rw [hvalue] at hinfinite
        cases hinfinite
      · have hmeasured : p.lagrangian.maxViolation x = .ok r.worst := by
          rw [Lagrangian.maxViolation_eq_ok, hproblem]
          exact ⟨r, hr, rfl⟩
        rw [hviolation] at hmeasured
        cases hmeasured
        rw [hworst] at hinfinite
        cases hinfinite
    · refine ⟨h.found, ?_, hviolation, hupdated, rfl, rfl, rfl⟩
      rw [hproblem]
      exact hobjective

/-- A solve comes to each iteration at most once, and the minimizer gives one answer. -/
theorem Problem.Tries.unique {p q : Progress α} {x y slope other : Vec α}
    (h : problem.Tries minimizer settings start interrupt p x slope)
    (h' : problem.Tries minimizer settings start interrupt q y other)
    (heq : p.iterations = q.iterations) : p = q ∧ x = y ∧ slope = other := by
  obtain rfl := h.visits.unique h'.visits heq
  have hfound := h'.found
  rw [h.found] at hfound
  cases hfound
  exact ⟨rfl, rfl, rfl⟩

theorem iterations_of_iterate {p : Progress α} {verdict : Verdict α}
    (h : problem.Visits minimizer settings start interrupt p)
    (hiterate : iterate minimizer settings interrupt p = .ok verdict) :
    verdict.progress.iterations = p.iterations + 1 := by
  obtain ⟨x, slope, htries⟩ := h.tries hiterate
  obtain ⟨-, q, hadvance, rfl⟩ | ⟨-, q, snapshot, -, hmoves, -, hjudge⟩ := htries.cases hiterate
  · exact (unrecorded_of_advance hadvance).1
  · rw [(judge_progress hjudge).2]
    exact hmoves.iterations

/-- With a budget, a solve ends at a start with an objective that is not
finite, or by the verdict of its last iteration. -/
theorem optimize_last {outcome : Outcome α} (hbudget : 0 < settings.maxIterations)
    (h : problem.optimize minimizer settings start interrupt = .ok outcome) :
    (∃ p, problem.Opens settings start p ∧ Scalar.isFinite p.objective = false ∧
        outcome = p.outcome .numericalError) ∨
      ∃ p x slope verdict, problem.Tries minimizer settings start interrupt p x slope ∧
        p.iterations < settings.maxIterations ∧
        iterate minimizer settings interrupt p = .ok verdict ∧
        outcome = verdict.progress.outcome verdict.status ∧
        p.iterations + 1 = outcome.iterations ∧
        ∀ q, verdict = .proceed q → p.iterations + 1 = settings.maxIterations := by
  have hends {p : Progress α} {verdict : Verdict α}
      (hvisits : problem.Visits minimizer settings start interrupt p)
      (hless : p.iterations < settings.maxIterations)
      (hiterate : iterate minimizer settings interrupt p = .ok verdict)
      (hlast : ∀ q, verdict = .proceed q → p.iterations + 1 = settings.maxIterations) :
      ∃ p' x slope verdict', problem.Tries minimizer settings start interrupt p' x slope ∧
        p'.iterations < settings.maxIterations ∧
        iterate minimizer settings interrupt p' = .ok verdict' ∧
        verdict.progress.outcome verdict.status = verdict'.progress.outcome verdict'.status ∧
        p'.iterations + 1 = verdict.progress.iterations ∧
        ∀ q, verdict' = .proceed q → p'.iterations + 1 = settings.maxIterations := by
    obtain ⟨x, slope, htries⟩ := hvisits.tries hiterate
    exact ⟨p, x, slope, verdict, htries, hless, hiterate, rfl,
      (iterations_of_iterate hvisits hiterate).symm, hlast⟩
  obtain ⟨status, last, rfl, ⟨rfl, hopens, hinfinite⟩ | ⟨rfl, hvisits, hcount⟩ |
    ⟨p, hvisits, hless, hstop⟩⟩ := optimize_cases h
  · exact Or.inl ⟨last, hopens, hinfinite, rfl⟩
  · cases hvisits with
    | opening hopens _ =>
        have hzero := hopens.iterations
        omega
    | proceed hvisits hiterate =>
        have hnext := iterations_of_proceed hiterate
        refine Or.inr (hends hvisits (by omega) hiterate ?_)
        intro _ _
        omega
  · refine Or.inr (hends hvisits hless hstop ?_)
    intro q hq
    cases hq

/-- An iteration that breaks off writes nothing and shows nothing. Every other
one writes a snapshot; it shows the snapshot, too, unless the tolerances are
met or a violation is degenerate. -/
theorem Problem.Tries.written (hrecord : settings.recordHistory = true) {p : Progress α}
    {x slope : Vec α} {verdict : Verdict α}
    (h : problem.Tries minimizer settings start interrupt p x slope)
    (hiterate : iterate minimizer settings interrupt p = .ok verdict) :
    (problem.BreaksAt x ∧ verdict.status = .numericalError ∧
        verdict.progress.history = p.history ∧ verdict.progress.delivered = p.history) ∨
      (¬ problem.BreaksAt x ∧ ∃ s, s.iteration = p.iterations + 1 ∧
        verdict.progress.history = p.history ++ [s] ∧
        (((verdict.status = .optimal ∨ verdict.status = .numericalError) ∧
            verdict.progress.delivered = p.history) ∨
          (verdict.status = (if interrupt s then .interrupted else .maxIterations) ∧
            verdict.progress.delivered = p.history ++ [s]))) := by
  have hp := h.visits.recorded hrecord
  obtain ⟨hbreaks, q, hadvance, rfl⟩ | ⟨hkeeps, q, snapshot, hadvance, -, -, hjudge⟩ :=
    h.cases hiterate
  · obtain ⟨-, hhistory, hdelivered⟩ := unrecorded_of_advance hadvance
    exact Or.inl ⟨hbreaks, rfl, hhistory, hdelivered.trans hp.delivered⟩
  · have hrecords := records_of_advance hadvance
    obtain ⟨hhistory, -⟩ := hrecords.numbered hrecord hp
    have hdelivered : q.delivered = p.history := hrecords.delivered.trans hp.delivered
    refine Or.inr ⟨hkeeps, snapshot, hrecords.iteration, ?_, ?_⟩
    · rw [(judge_progress hjudge).1, hhistory]
    · obtain ⟨rfl, -⟩ | ⟨rfl, -⟩ | ⟨rfl, -⟩ := judge_cases hjudge
      · exact Or.inl ⟨Or.inl rfl, hdelivered⟩
      · exact Or.inl ⟨Or.inr rfl, hdelivered⟩
      · obtain ⟨-, -, hshown⟩ := deliver_progress settings interrupt q snapshot
        refine Or.inr ⟨deliver_status q snapshot, ?_⟩
        rw [hshown, hdelivered]

/-- The last iteration of an outcome found a point that breaks it off. -/
def Problem.BreaksLast (problem : Problem α) (minimizer : Minimizer α) (settings : Settings α)
    (start : Vec α) (interrupt : Snapshot α → Bool) (outcome : Outcome α) : Prop :=
  ∃ p x slope, problem.Tries minimizer settings start interrupt p x slope ∧
    p.iterations + 1 = outcome.iterations ∧ problem.BreaksAt x

theorem Problem.Tries.breaksLast_iff {p : Progress α} {x slope : Vec α} {outcome : Outcome α}
    (h : problem.Tries minimizer settings start interrupt p x slope)
    (hlast : p.iterations + 1 = outcome.iterations) :
    problem.BreaksLast minimizer settings start interrupt outcome ↔ problem.BreaksAt x := by
  constructor
  · rintro ⟨q, y, other, htries, hcount, hbreaks⟩
    obtain ⟨-, rfl, -⟩ := h.unique htries (by omega)
    exact hbreaks
  · intro hbreaks
    exact ⟨p, x, slope, h, hlast, hbreaks⟩

/-- The search for a degenerate violation finds one exactly if there is one. -/
theorem hasDegenerateViolation_iff {step tolerance minDerivative : α} {x : Vec α}
    {cs : List (Constraint α)} {found : Bool}
    (h : Lagrangian.hasDegenerateViolation step tolerance minDerivative x cs = .ok found) :
    found = true ↔ ∃ c ∈ cs, ∃ v d, c.violation x = .ok v ∧ Scalar.atMost v tolerance = false ∧
      c.gradientAt step x = .ok d ∧
      Scalar.atMost (Scalar.dot d.toList d.toList) minDerivative = true := by
  induction cs with
  | nil =>
      cases h
      simp
  | cons c cs ih =>
      simp only [Lagrangian.hasDegenerateViolation, bind_eq_ok] at h
      obtain ⟨v, hv, h⟩ := h
      rw [List.exists_mem_cons_iff]
      split at h
      · next hwithin =>
          rw [ih h]
          simp [hv, hwithin]
      · next habove =>
          rw [Bool.not_eq_true] at habove
          simp only [bind_eq_ok] at h
          obtain ⟨d, hd, h⟩ := h
          split at h
          · next hflat =>
              rw [pure_eq_ok] at h
              subst h
              simp only [true_iff]
              exact Or.inl ⟨v, d, hv, habove, hd, hflat⟩
          · next hsteep =>
              rw [ih h]
              simp [hv, hd, hsteep]

end Optima
