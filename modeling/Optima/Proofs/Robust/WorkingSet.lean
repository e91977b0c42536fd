import Optima.Proofs.Robust.Converged

/-!
The points that a robust optimization has found. They are the points of the first sample without
repetitions, followed round by round by the newcomers without repetitions. A newcomer differs from
all points found before and is itself a sampled point, so that no two points are equal and the
points stand in the order in which they were sampled. Rounds only append: of two states between
rounds the later one has the points of the earlier one in front, and at least one more for each
round between.
-/

namespace Optima.RobustProblem

variable {σ α : Type} [Scalar α] {problem : RobustProblem α} {minimizer : Minimizer α}
  {settings : RobustSettings α} {sample : Nat → Draw σ (List (Vec α))} {x : Vec α} {state : σ}

/-- What the points found so far have to do with the samples that were drawn. -/
structure Collected (first : List (Vec α)) (rest : List (List (Vec α)))
    (workingSet : List (Vec α)) : Prop where
  opening : Vec.distinct first <+: workingSet
  covers : ∀ q ∈ first, ∃ known ∈ workingSet, q.same known = true
  sampled : workingSet.Sublist (first :: rest).flatten
  apart : workingSet.Pairwise fun u v => u.same v = false

section Newcomers

variable {threshold : α} {known fresh found : List (Vec α)}

/-- Points join in the order in which they were sampled. -/
theorem newcomers_sublist (h : problem.newcomers x threshold known fresh = .ok found) :
    found.Sublist fresh := by
  obtain ⟨-, rfl⟩ := filterM_eq_ok.mp h
  exact List.filter_sublist

/-- A newcomer differs from all points known before. -/
theorem apart_of_newcomers (h : problem.newcomers x threshold known fresh = .ok found)
    {q : Vec α} (hq : q ∈ found) : ∀ u ∈ known, q.same u = false := by
  obtain ⟨-, rfl⟩ := filterM_eq_ok.mp h
  have hkept := List.of_mem_filter hq
  cases hknown : known.any (Vec.same q) with
  | false => exact fun u hu => List.any_eq_false.mp hknown u hu |> Bool.eq_false_of_not_eq_true
  | true =>
      simp only [hknown, if_true] at hkept
      cases hkept

end Newcomers

section Collecting

variable [Ranked α] {first : List (Vec α)} {rest : List (List (Vec α))}

theorem Collected.begin (hself : ∀ q ∈ first, q.same q = true) :
    Collected first [] (Vec.distinct first) where
  opening := List.prefix_rfl
  covers _ hq := Vec.exists_same_distinct hq (hself _ hq)
  sampled := by
    rw [List.flatten_singleton]
    exact Vec.distinct_sublist first
  apart := Vec.distinct_pairwise first

/-- Newcomers of one more sample are collected with the others. -/
theorem Collected.append {threshold : α} {known fresh found : List (Vec α)}
    (h : Collected first rest known)
    (hfound : problem.newcomers x threshold known fresh = .ok found) :
    Collected first (rest ++ [fresh]) (known ++ Vec.distinct found) where
  opening := h.opening.trans (List.prefix_append _ _)
  covers q hq := by
    obtain ⟨u, hu, hsame⟩ := h.covers q hq
    exact ⟨u, List.mem_append_left _ hu, hsame⟩
  sampled := by
    have hnew : (Vec.distinct found).Sublist fresh :=
      (Vec.distinct_sublist found).trans (newcomers_sublist hfound)
    rw [← List.cons_append, List.flatten_append, List.flatten_singleton]
    exact h.sampled.append hnew
  apart := by
    refine List.pairwise_append.mpr ⟨h.apart, Vec.distinct_pairwise found, ?_⟩
    intro u hu v hv
    rw [Vec.same_comm]
    exact apart_of_newcomers hfound (Vec.mem_of_mem_distinct hv) u hu

/-- Between two rounds the points found are collected from one sample for each
round and one before them. -/
theorem Visits.collected {p : RobustProgress σ α}
    (hsample : ∀ s points s', sample settings.samples s = .ok (points, s') →
      ∀ q ∈ points, q.same q = true)
    (h : problem.Visits minimizer settings sample x state p) :
    ∃ first rest,
      Draw.many (sample settings.samples) (p.rounds + 1) state = .ok (first :: rest, p.state) ∧
      Collected first rest p.workingSet := by
  induction h with
  | opening hbegin =>
      obtain ⟨first, state', hfirst, rfl⟩ := begin_eq_ok.mp hbegin
      have hnone : Draw.many (sample settings.samples) 0 state = .ok ([], state) := rfl
      exact ⟨first, [], Draw.many_succ hnone hfirst, .begin (hsample _ _ _ hfirst)⟩
  | @proceed p q _ hround ih =>
      obtain ⟨first, rest, hmany, hcollected⟩ := ih
      obtain ⟨_, _, _, fresh, found, -, -, -, -, hfresh, hfound, -, hset, hrounds⟩ :=
        round_proceed hround
      refine ⟨first, rest ++ [fresh], ?_, ?_⟩
      · rw [hrounds]
        exact Draw.many_succ hmany hfresh
      · rw [hset]
        exact hcollected.append hfound

end Collecting

section Growth

variable {p q : RobustProgress σ α}

/-- A round that goes on appends at least one point. -/
theorem round_grows (h : problem.round minimizer settings sample p = .ok (.proceed q)) :
    q.rounds = p.rounds + 1 ∧ ∃ added, added ≠ [] ∧ q.workingSet = p.workingSet ++ added := by
  obtain ⟨_, _, _, _, found, -, -, -, -, -, -, hne, hset, hrounds⟩ := round_proceed h
  exact ⟨hrounds, Vec.distinct found, Vec.distinct_ne_nil hne, hset⟩

theorem rounds_of_begin (h : begin settings sample x state = .ok p) : p.rounds = 0 := by
  obtain ⟨_, _, -, rfl⟩ := begin_eq_ok.mp h
  rfl

/-- There is at most one state after a given number of rounds. -/
theorem Visits.unique (hp : problem.Visits minimizer settings sample x state p)
    (hq : problem.Visits minimizer settings sample x state q) (hrounds : p.rounds = q.rounds) :
    p = q := by
  induction hp generalizing q with
  | opening hbegin =>
      cases hq with
      | opening hbegin' =>
          rw [hbegin] at hbegin'
          exact Except.ok.inj hbegin'
      | proceed _ hround =>
          have hzero := rounds_of_begin hbegin
          have hpositive := (round_grows hround).1
          omega
  | @proceed p₀ p _ hround ih =>
      cases hq with
      | opening hbegin =>
          have hzero := rounds_of_begin hbegin
          have hpositive := (round_grows hround).1
          omega
      | @proceed q₀ _ hq₀ hround' =>
          have hbefore : p₀ = q₀ := by
            apply ih hq₀
            have hp := (round_grows hround).1
            have hq := (round_grows hround').1
            omega
          subst hbefore
          rw [hround] at hround'
          cases hround'
          rfl

/-- A later state has the points of an earlier one in front, and at least one
more for each round between them. -/
theorem Visits.grows (hp : problem.Visits minimizer settings sample x state p)
    (hq : problem.Visits minimizer settings sample x state q) (hrounds : p.rounds ≤ q.rounds) :
    p.workingSet <+: q.workingSet ∧
      p.workingSet.length + (q.rounds - p.rounds) ≤ q.workingSet.length := by
  induction hq with
  | opening hbegin =>
      have hzero := rounds_of_begin hbegin
      rw [hp.unique (.opening hbegin) (by omega)]
      exact ⟨List.prefix_rfl, by omega⟩
  | @proceed q₀ q hq₀ hround ih =>
      obtain ⟨hnext, added, hne, hset⟩ := round_grows hround
      rcases Nat.lt_or_eq_of_le hrounds with hless | heq
      · obtain ⟨hfront, hlength⟩ := ih (by omega)
        have hone : 0 < added.length := List.length_pos_iff.mpr hne
        rw [hset, List.length_append]
        exact ⟨hfront.trans (List.prefix_append _ _), by omega⟩
      · rw [hp.unique (hq₀.proceed hround) heq]
        exact ⟨List.prefix_rfl, by omega⟩

end Growth

/-- The points found so far, at every state between two rounds, whatever is
sampled as long as no component is undefined, whatever the objective and
whatever the minimizer returns. They hold the points of the first sample and
only sampled points, in the order in which they were sampled, and no two of
them are equal. From state to state they only grow, by at least one point in
every round that does not end the optimization; a round that ends it, for want
of a solution or of newcomers, leaves them as they are. The outcome counts the
points of the last state. -/
theorem workingSet_invariant {σ : Type} {problem : RobustProblem Float}
    {minimizer : Minimizer Float} {settings : RobustSettings Float}
    {sample : Nat → Draw σ (List (Vec Float))}
    (hsample : ∀ s points s', sample settings.samples s = .ok (points, s') →
      ∀ q ∈ points, ∀ c ∈ q.toList, c.isNaN = false)
    (nominal x : Vec Float) (state : σ) :
    let Visited := problem.Visits minimizer settings sample x state
    (∀ p, Visited p → ∃ first rest,
      Draw.many (sample settings.samples) (p.rounds + 1) state = .ok (first :: rest, p.state) ∧
      Collected first rest p.workingSet) ∧
    (∀ p q, Visited p → Visited q → p.rounds ≤ q.rounds →
      p.workingSet <+: q.workingSet ∧
      p.workingSet.length + (q.rounds - p.rounds) ≤ q.workingSet.length) ∧
    (∀ p q, Visited p → problem.round minimizer settings sample p = .ok (.proceed q) →
      Visited q ∧ q.rounds = p.rounds + 1 ∧
      ∃ added, added ≠ [] ∧ q.workingSet = p.workingSet ++ added) ∧
    (∀ p status last, Visited p →
      problem.round minimizer settings sample p = .ok (.stop status last) →
      last.workingSet = p.workingSet ∧
      (status.hasSolution = false ∨
        ∃ worst fresh, sample settings.samples p.state = .ok (fresh, last.state) ∧
          problem.newcomers last.decision (problem.threshold settings.tolerance worst)
            p.workingSet fresh = .ok [])) ∧
    (∀ outcome, problem.optimize minimizer settings sample nominal x state = .ok outcome →
      ∃ p, Visited p ∧ outcome.evaluated = p.workingSet.length ∧
        ((p.rounds = settings.rounds ∧ outcome.iterations = p.rounds) ∨
          ∃ last, problem.round minimizer settings sample p = .ok (.stop outcome.status last) ∧
            outcome.iterations = p.rounds + 1)) := by
  have hself (s points s') (h : sample settings.samples s = .ok (points, s')) :
      ∀ q ∈ points, q.same q = true := by
    intro q hq
    apply Vec.same_self
    intro c hc
    exact (Binary64.defined_iff_isNaN c).mpr (hsample s points s' h q hq c hc)
  refine ⟨?_, ?_, ?_, ?_, ?_⟩
  · intro p hp
    exact hp.collected hself
  · intro p q hp hq hrounds
    exact hp.grows hq hrounds
  · intro p q hp hround
    exact ⟨hp.proceed hround, round_grows hround⟩
  · intro p status last _ hround
    obtain ⟨-, hset, _, -, rfl, ⟨hno, -⟩ | ⟨-, -, worst, _, fresh, -, hfresh, hnone⟩⟩ :=
      round_stop hround
    · exact ⟨hset, Or.inl hno⟩
    · exact ⟨hset, Or.inr ⟨worst, fresh, hfresh, hnone⟩⟩
  · intro outcome h
    obtain ⟨status, last, hconclude, hends⟩ := optimize_cases h
    obtain ⟨_, _, _, -, -, rfl⟩ := conclude_eq_ok.mp hconclude
    rcases hends with ⟨-, hvisits, hrounds⟩ | ⟨p, hvisits, -, hstop⟩
    · exact ⟨last, hvisits, rfl, Or.inl ⟨hrounds, rfl⟩⟩
    · obtain ⟨hrounds, hset, -⟩ := round_stop hstop
      exact ⟨p, hvisits, congrArg List.length hset, Or.inr ⟨last, hstop, hrounds⟩⟩

/-- Both zeros are sampled first; then the negative one again, and two twice. -/
def zerosThenTwos : Nat → Draw Bool (List (Vec Float)) :=
  fun _ first => .ok (if first then [⟨[0.0]⟩, ⟨[-0.0]⟩] else [⟨[-0.0]⟩, ⟨[2.0]⟩, ⟨[2.0]⟩], false)

def zerosThenTwosOptimization : Except Fault (RobustSettings Float × RobustOutcome Float) := do
  let settings ← RobustSettings.ofFields []
  let outcome ← belowParameter.optimize (fun _ _ _ => .ok (⟨[1.0, 1.0]⟩, ⟨[0.0, 0.0]⟩)) settings
    zerosThenTwos ⟨[1.0]⟩ ⟨[0.0]⟩ true
  return (settings, outcome)

/-- Of the five points that are sampled two are found. -/
theorem zerosThenTwosOptimization_collects :
    ∃ settings outcome, zerosThenTwosOptimization = .ok (settings, outcome) ∧
      outcome.iterations = 2 ∧ outcome.evaluated = 2 ∧
      ∃ (p : RobustProgress Bool Float) (first : List (Vec Float)) (rest : List (List (Vec Float))),
        Collected first rest p.workingSet ∧ p.workingSet.length = 2 ∧
        Draw.many (zerosThenTwos settings.samples) 2 true = .ok (first :: rest, p.state) := by
  obtain ⟨⟨settings, outcome⟩, hrun, hcheck⟩ : ∃ found, zerosThenTwosOptimization = .ok found ∧
      decide (found.2.iterations = 2 ∧ found.2.evaluated = 2 ∧ found.1.rounds = 50) = true :=
    exists_ok_of_any (by decide +kernel)
  obtain ⟨hiterations, hevaluated, hbudget⟩ :
      outcome.iterations = 2 ∧ outcome.evaluated = 2 ∧ settings.rounds = 50 :=
    of_decide_eq_true hcheck
  refine ⟨settings, outcome, hrun, hiterations, hevaluated, ?_⟩
  simp only [zerosThenTwosOptimization, bind_eq_ok, pure_eq_ok] at hrun
  obtain ⟨settings', -, outcome', houtcome, hpair⟩ := hrun
  cases hpair
  have hsample : ∀ s points s', zerosThenTwos settings.samples s = .ok (points, s') →
      ∀ q ∈ points, ∀ c ∈ q.toList, c.isNaN = false := by
    intro s points s' h
    cases h
    cases s with
    | true => decide +kernel
    | false => decide +kernel
  obtain ⟨hcollected, -, -, -, hends⟩ := workingSet_invariant hsample ⟨[1.0]⟩ ⟨[0.0]⟩ true
  obtain ⟨p, hvisits, hpoints, ⟨hrounds, hall⟩ | ⟨_, -, hlast⟩⟩ := hends outcome houtcome
  · omega
  · have hone : p.rounds + 1 = 2 := by omega
    obtain ⟨first, rest, hmany, hpoint⟩ := hcollected p hvisits
    rw [hone] at hmany
    exact ⟨p, first, rest, hpoint, hpoints.symm.trans hevaluated, hmany⟩

end Optima.RobustProblem
