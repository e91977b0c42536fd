import Optima.Proofs.Success
import Optima.Robust.Minimax

/-!
The rounds of a robust optimization, for whatever is sampled and whatever the minimizer returns.
What one round can do is said once. `Visits` holds of the states between two rounds; a run ends in a
visited state when its budget is used up, or by a round from a visited state, and from every visited
state the optimization goes on as if it had begun there.
-/

namespace Optima.RobustProblem

variable {σ α : Type} [Scalar α] {problem : RobustProblem α} {minimizer : Minimizer α}
  {settings : RobustSettings α} {sample : Nat → Draw σ (List (Vec α))}

/-- Nothing joins if every sampled point is known or has a value that is no
worse than the threshold. -/
theorem newcomers_eq_nil {x : Vec α} {threshold : α} {known fresh : List (Vec α)}
    (h : ∀ p ∈ fresh, (∃ q ∈ known, p.same q = true) ∨
      ∃ v, problem.objective x p = .ok v ∧ problem.sense.isWorse v threshold = false) :
    problem.newcomers x threshold known fresh = .ok [] := by
  have hcheck : ∀ p ∈ fresh, (do
      if known.any (Vec.same p) then return false
      return problem.sense.isWorse (← problem.objective x p) threshold) =
        (.ok false : Except Fault Bool) := by
    intro p hp
    split
    · rfl
    · next hnew =>
        rcases h p hp with hknown | ⟨v, hv, hworse⟩
        · exact absurd (List.any_eq_true.mpr hknown) hnew
        · rw [hv, ← hworse]
          rfl
  refine filterM_eq_ok.mpr ⟨fun p hp => ⟨false, hcheck p hp⟩, ?_⟩
  refine List.filter_eq_nil_iff.mpr fun p hp => ?_
  rw [hcheck p hp]
  exact Bool.false_ne_true

/-- If nothing joins, every sampled point is known or no worse than the
threshold. -/
theorem known_or_noWorse_of_newcomers {x : Vec α} {threshold : α} {known fresh : List (Vec α)}
    (h : problem.newcomers x threshold known fresh = .ok []) {p : Vec α} (hp : p ∈ fresh) :
    (∃ q ∈ known, p.same q = true) ∨
      ∃ v, problem.objective x p = .ok v ∧ problem.sense.isWorse v threshold = false := by
  obtain ⟨hanswers, hnone⟩ := filterM_eq_ok.mp h
  obtain ⟨answer, hanswer⟩ := hanswers p hp
  have hno : answer = false := by
    have hkept := List.filter_eq_nil_iff.mp hnone p hp
    rw [hanswer] at hkept
    exact Bool.not_eq_true _ ▸ hkept
  subst hno
  cases hknown : known.any (Vec.same p) with
  | true => exact Or.inl (List.any_eq_true.mp hknown)
  | false =>
      simp only [hknown, Bool.false_eq_true, if_false, bind_eq_ok, pure_eq_ok] at hanswer
      exact Or.inr hanswer

theorem mem_of_newcomers {x : Vec α} {threshold : α} {known fresh found : List (Vec α)}
    (h : problem.newcomers x threshold known fresh = .ok found) {p : Vec α} (hp : p ∈ found) :
    p ∈ fresh := by
  obtain ⟨-, rfl⟩ := filterM_eq_ok.mp h
  exact List.mem_of_mem_filter hp

/-- A round solves the problem over the points so far. Without a solution it
stops and keeps the decision. With one it takes the decision over, samples,
and goes on exactly if a newcomer joins. -/
theorem round_eq_ok {p : RobustProgress σ α} {verdict : RobustVerdict σ α} :
    problem.round minimizer settings sample p = .ok verdict ↔
      ∃ solved, problem.solveOver minimizer settings.solver p.workingSet p.decision = .ok solved ∧
        ((solved.status.hasSolution = false ∧
            verdict = .stop solved.status { p with rounds := p.rounds + 1 }) ∨
          (solved.status.hasSolution = true ∧ ∃ x worst parameters fresh state found,
            x = decisionOf p.decision.size solved.solution ∧
            worstCase problem.sense problem.objective x p.workingSet = .ok (worst, parameters) ∧
            sample settings.samples p.state = .ok (fresh, state) ∧
            problem.newcomers x (problem.threshold settings.tolerance worst) p.workingSet fresh =
              .ok found ∧
            verdict =
              let q := { p with decision := x, rounds := p.rounds + 1, state }
              if found.isEmpty then .stop solved.status q
              else .proceed { q with workingSet := p.workingSet ++ Vec.distinct found })) := by
  simp only [round, bind_eq_ok]
  refine exists_congr fun solved => and_congr_right fun _ => ?_
  cases solved.status.hasSolution with
  | false =>
      rw [Bool.not_false, if_pos rfl, pure_eq_ok]
      constructor
      · intro h
        exact Or.inl ⟨rfl, h.symm⟩
      · rintro (⟨-, h⟩ | ⟨hsolution, -⟩)
        · exact h.symm
        · cases hsolution
  | true =>
      simp only [Bool.not_true, Bool.false_eq_true, if_false, bind_eq_ok]
      constructor
      · rintro ⟨⟨worst, parameters⟩, hworst, ⟨fresh, state⟩, hfresh, found, hfound, h⟩
        refine Or.inr ⟨trivial, _, worst, parameters, fresh, state, found, rfl, hworst, hfresh,
          hfound, ?_⟩
        cases hempty : found.isEmpty with
        | true =>
            simp only [hempty, if_true, pure_eq_ok] at h
            exact h.symm
        | false =>
            simp only [hempty, Bool.false_eq_true, if_false, pure_eq_ok] at h
            exact h.symm
      · rintro (⟨hsolution, -⟩ |
          ⟨-, _, worst, parameters, fresh, state, found, rfl, hworst, hfresh, hfound, rfl⟩)
        · cases hsolution
        · refine ⟨(worst, parameters), hworst, (fresh, state), hfresh, found, hfound, ?_⟩
          cases found.isEmpty with
          | true => rfl
          | false => rfl

/-- What is reported at the end, from the last decision and all points found. -/
theorem conclude_eq_ok {nominal : Vec α} {status : Status} {p : RobustProgress σ α}
    {outcome : RobustOutcome α} :
    problem.conclude nominal status p = .ok outcome ↔
      ∃ worst parameters value,
        worstCase problem.sense problem.objective p.decision p.workingSet =
          .ok (worst, parameters) ∧
        problem.objective p.decision nominal = .ok value ∧
        outcome =
          { status, solution := p.decision, worstObjective := worst, nominalObjective := value,
            worstParameters := parameters, iterations := p.rounds,
            evaluated := p.workingSet.length } := by
  simp only [conclude, bind_eq_ok, pure_eq_ok, Prod.exists, eq_comm (b := outcome)]
  constructor
  · rintro ⟨worst, parameters, hworst, value, hvalue, rfl⟩
    exact ⟨worst, parameters, value, hworst, hvalue, rfl⟩
  · rintro ⟨worst, parameters, value, hworst, hvalue, rfl⟩
    exact ⟨worst, parameters, hworst, value, hvalue, rfl⟩

theorem optimize_eq_ok {nominal x : Vec α} {state : σ} {outcome : RobustOutcome α} :
    problem.optimize minimizer settings sample nominal x state = .ok outcome ↔
      ∃ points state', sample settings.samples state = .ok (points, state') ∧
        ∃ status last,
          problem.run minimizer settings sample settings.rounds
            { decision := x, workingSet := Vec.distinct points, rounds := 0, state := state' } =
              .ok (status, last) ∧
          problem.conclude nominal status last = .ok outcome := by
  simp only [optimize, begin, bind_eq_ok, pure_eq_ok, Prod.exists]
  constructor
  · rintro ⟨_, ⟨points, state', hsample, rfl⟩, status, last, hrun, hconclude⟩
    exact ⟨points, state', hsample, status, last, hrun, hconclude⟩
  · rintro ⟨points, state', hsample, status, last, hrun, hconclude⟩
    exact ⟨_, ⟨points, state', hsample, rfl⟩, status, last, hrun, hconclude⟩

section Visited

variable (problem minimizer settings sample)

inductive Visits (x : Vec α) (state : σ) : RobustProgress σ α → Prop where
  | opening {p : RobustProgress σ α} : begin settings sample x state = .ok p → Visits x state p
  | proceed {p q : RobustProgress σ α} : Visits x state p →
      problem.round minimizer settings sample p = .ok (.proceed q) → Visits x state q

variable {problem minimizer settings sample} {x nominal : Vec α} {state : σ}

theorem begin_eq_ok {p : RobustProgress σ α} :
    begin settings sample x state = .ok p ↔
      ∃ points state', sample settings.samples state = .ok (points, state') ∧
        p = { decision := x, workingSet := Vec.distinct points, rounds := 0, state := state' } := by
  simp only [begin, bind_eq_ok, pure_eq_ok, Prod.exists, eq_comm (b := p)]

/-- A round that goes on has a solution and newcomers. -/
theorem round_proceed {p q : RobustProgress σ α}
    (h : problem.round minimizer settings sample p = .ok (.proceed q)) :
    ∃ solved worst parameters fresh found,
      problem.solveOver minimizer settings.solver p.workingSet p.decision = .ok solved ∧
      solved.status.hasSolution = true ∧
      q.decision = decisionOf p.decision.size solved.solution ∧
      worstCase problem.sense problem.objective q.decision p.workingSet =
        .ok (worst, parameters) ∧
      sample settings.samples p.state = .ok (fresh, q.state) ∧
      problem.newcomers q.decision (problem.threshold settings.tolerance worst) p.workingSet fresh =
        .ok found ∧
      found ≠ [] ∧ q.workingSet = p.workingSet ++ Vec.distinct found ∧
      q.rounds = p.rounds + 1 := by
  obtain ⟨solved, hsolved, ⟨-, hverdict⟩ | ⟨hsolution, x, worst, parameters, fresh, state, found,
    rfl, hworst, hfresh, hfound, hverdict⟩⟩ := round_eq_ok.mp h
  · cases hverdict
  · cases hempty : found.isEmpty with
    | true =>
        simp only [hempty, if_true] at hverdict
        cases hverdict
    | false =>
        simp only [hempty, Bool.false_eq_true, if_false] at hverdict
        cases hverdict
        have hne : found ≠ [] := by
          rintro rfl
          cases hempty
        exact ⟨solved, worst, parameters, fresh, found, hsolved, hsolution, rfl, hworst, hfresh,
          hfound, hne, rfl, rfl⟩

/-- A round that stops has no solution, and keeps the decision, or it has one
and no newcomers. -/
theorem round_stop {p q : RobustProgress σ α} {status : Status}
    (h : problem.round minimizer settings sample p = .ok (.stop status q)) :
    q.rounds = p.rounds + 1 ∧ q.workingSet = p.workingSet ∧
      ∃ solved, problem.solveOver minimizer settings.solver p.workingSet p.decision = .ok solved ∧
        solved.status = status ∧
        ((solved.status.hasSolution = false ∧ q.decision = p.decision) ∨
          (solved.status.hasSolution = true ∧
            q.decision = decisionOf p.decision.size solved.solution ∧
            ∃ worst parameters fresh,
              worstCase problem.sense problem.objective q.decision p.workingSet =
                .ok (worst, parameters) ∧
              sample settings.samples p.state = .ok (fresh, q.state) ∧
              problem.newcomers q.decision (problem.threshold settings.tolerance worst)
                p.workingSet fresh = .ok [])) := by
  obtain ⟨solved, hsolved, ⟨hsolution, hverdict⟩ | ⟨hsolution, x, worst, parameters, fresh, state,
    found, rfl, hworst, hfresh, hfound, hverdict⟩⟩ := round_eq_ok.mp h
  · cases hverdict
    exact ⟨rfl, rfl, solved, hsolved, rfl, Or.inl ⟨hsolution, rfl⟩⟩
  · cases found with
    | nil =>
        cases hverdict
        exact ⟨rfl, rfl, solved, hsolved, rfl, Or.inr ⟨hsolution, rfl, worst, parameters, fresh,
          hworst, hfresh, hfound⟩⟩
    | cons first rest => cases hverdict

/-- A run uses up its budget, one round after the other, or a round from a
visited state stops it before. -/
theorem run_cases {budget : Nat} {p last : RobustProgress σ α} {status : Status}
    (hvisits : problem.Visits minimizer settings sample x state p)
    (h : problem.run minimizer settings sample budget p = .ok (status, last)) :
    (status = .maxIterations ∧ problem.Visits minimizer settings sample x state last ∧
        last.rounds = p.rounds + budget) ∨
      ∃ q, problem.Visits minimizer settings sample x state q ∧ q.rounds < p.rounds + budget ∧
        problem.round minimizer settings sample q = .ok (.stop status last) := by
  induction budget generalizing p with
  | zero =>
      cases h
      exact Or.inl ⟨rfl, hvisits, rfl⟩
  | succ budget ih =>
      simp only [run, bind_eq_ok] at h
      obtain ⟨verdict, hround, h⟩ := h
      cases verdict with
      | proceed q =>
          have hrounds : q.rounds = p.rounds + 1 := by
            obtain ⟨_, _, _, _, _, -, -, -, -, -, -, -, -, hrounds⟩ := round_proceed hround
            exact hrounds
          have htotal : q.rounds + budget = p.rounds + (budget + 1) := by omega
          have hrest := ih (hvisits.proceed hround) h
          rwa [htotal] at hrest
      | stop status' q =>
          cases h
          exact Or.inr ⟨p, hvisits, by omega, hround⟩

/-- A robust optimization uses up its rounds, or it stops in a round that it reached. -/
theorem optimize_cases {outcome : RobustOutcome α}
    (h : problem.optimize minimizer settings sample nominal x state = .ok outcome) :
    ∃ status last, problem.conclude nominal status last = .ok outcome ∧
      ((status = .maxIterations ∧ problem.Visits minimizer settings sample x state last ∧
          last.rounds = settings.rounds) ∨
        ∃ q, problem.Visits minimizer settings sample x state q ∧ q.rounds < settings.rounds ∧
          problem.round minimizer settings sample q = .ok (.stop status last)) := by
  simp only [optimize, bind_eq_ok, Prod.exists] at h
  obtain ⟨p, hbegin, status, last, hrun, hconclude⟩ := h
  refine ⟨status, last, hconclude, ?_⟩
  have hrounds : p.rounds = 0 := by
    obtain ⟨_, _, -, rfl⟩ := begin_eq_ok.mp hbegin
    rfl
  have hcases := run_cases (.opening hbegin) hrun
  rwa [hrounds, Nat.zero_add] at hcases

/-- From a visited state the optimization goes on with what is left of its
budget. -/
theorem Visits.optimize_eq {p : RobustProgress σ α}
    (h : problem.Visits minimizer settings sample x state p)
    (hrounds : p.rounds ≤ settings.rounds) :
    problem.optimize minimizer settings sample nominal x state = (do
      let (status, last) ← problem.run minimizer settings sample (settings.rounds - p.rounds) p
      problem.conclude nominal status last) := by
  induction h with
  | opening hbegin =>
      obtain ⟨_, _, -, rfl⟩ := begin_eq_ok.mp hbegin
      simp only [optimize, hbegin]
      rfl
  | @proceed p q _ hround ih =>
      obtain ⟨_, _, _, _, _, -, -, -, -, -, -, -, -, hnext⟩ := round_proceed hround
      have hbudget : settings.rounds - p.rounds = settings.rounds - q.rounds + 1 := by omega
      rw [ih (by omega), hbudget]
      simp only [run, hround]
      rfl

end Visited

end Optima.RobustProblem
