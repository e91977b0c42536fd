import Optima.Proofs.Solver.AugmentedValue
import Optima.Proofs.Solver.Penalty

/-!
Multipliers of slack inequalities. The multiplier of an inequality carries over what earlier
iterations have added to it: in every iteration it is pulled by the penalty times the residual, and
it never falls below zero. It is zero at the end exactly when no last stretch of the iterations has
pulled it up. The tests that end a solve do not look at it, so that an optimal outcome may hold a
positive multiplier for an inequality that is slack; the last part has such a solve, in which every
iteration finds the least value of the augmented Lagrangian.
-/

namespace Optima

/-- What pulls, one after the other, leave of a multiplier. -/
def carried (pulls : List ℝ) : ℝ := pulls.foldl (fun m pull => max 0 (m + pull)) 0

theorem carried_append (pulls : List ℝ) (pull : ℝ) :
    carried (pulls ++ [pull]) = max 0 (carried pulls + pull) := by
  simp only [carried, List.foldl_append, List.foldl_cons, List.foldl_nil]

/-- What is left of the pulls is the greatest sum of the last ones. -/
theorem carried_le_iff (pulls : List ℝ) (bound : ℝ) :
    carried pulls ≤ bound ↔ ∀ tail, tail <:+ pulls → tail.sum ≤ bound := by
  induction pulls using List.reverseRecOn generalizing bound with
  | nil => simp [carried]
  | append_singleton pulls pull ih =>
      rw [carried_append, max_le_iff, ← le_sub_iff_add_le, ih]
      constructor
      · rintro ⟨hzero, htails⟩ tail htail
        rcases List.suffix_concat_iff.mp htail with rfl | ⟨rest, rfl, hrest⟩
        · simpa using hzero
        · have hsum := htails rest hrest
          rw [List.sum_append, List.sum_singleton]
          linarith
      · intro htails
        refine ⟨by simpa using htails [] (List.nil_suffix), ?_⟩
        intro rest hrest
        have hsum := htails (rest ++ [pull])
          (List.suffix_concat_iff.mpr (Or.inr ⟨rest, rfl, hrest⟩))
        rw [List.sum_append, List.sum_singleton] at hsum
        linarith

theorem carried_nonneg (pulls : List ℝ) : 0 ≤ carried pulls := by
  induction pulls using List.reverseRecOn with
  | nil => simp [carried]
  | append_singleton pulls pull _ =>
      rw [carried_append]
      exact le_max_left _ _

/-- Nothing is left if the last pulls never sum to more than zero, however many are taken. -/
theorem carried_eq_zero_iff (pulls : List ℝ) :
    carried pulls = 0 ↔ ∀ tail, tail <:+ pulls → tail.sum ≤ 0 := by
  rw [← carried_le_iff]
  exact ⟨fun h => h.le, fun h => le_antisymm h (carried_nonneg pulls)⟩

/-- The pulls on the multiplier of a constraint: in every step, the penalty
times the residual at the point. -/
noncomputable def Constraint.pulls (c : Constraint ℝ) (steps : List (Step ℝ)) :
    Except Fault (List ℝ) :=
  steps.mapM fun s => do return s.penalty * (← c.residual s.point)

/-- The multiplier of an inequality is what the pulls of its own residuals leave. -/
theorem Constraint.multiplierAfter_inequality {c : Constraint ℝ} (hc : c.relation = .inequality)
    {steps : List (Step ℝ)} {m : ℝ} (h : c.multiplierAfter steps = .ok m) :
    ∃ pulls, c.pulls steps = .ok pulls ∧ m = carried pulls := by
  induction steps using List.reverseRecOn generalizing m with
  | nil =>
      cases h
      exact ⟨[], rfl, rfl⟩
  | append_singleton steps s ih =>
      obtain ⟨old, r, hold, hr, rfl⟩ := multiplierAfter_append.mp h
      obtain ⟨pulls, hpulls, rfl⟩ := ih hold
      refine ⟨pulls ++ [s.penalty * r], ?_, ?_⟩
      · unfold Constraint.pulls at hpulls ⊢
        rw [mapM_eq_ok] at hpulls ⊢
        refine List.rel_append hpulls (.cons ?_ .nil)
        simp only [bind_eq_ok, pure_eq_ok]
        exact ⟨r, hr, rfl⟩
      · rw [carried_append]
        exact Lagrangian.shift_inequality hc

/-- At an optimal outcome a slack inequality has the multiplier zero exactly
when no last stretch of the iterations has pulled its multiplier up. -/
theorem slack_multiplier_eq_zero_iff {problem : Problem ℝ} {minimizer : Minimizer ℝ}
    {settings : Settings ℝ} {start : Vec ℝ} {interrupt : Snapshot ℝ → Bool} {outcome : Outcome ℝ}
    (h : problem.optimize minimizer settings start interrupt = .ok outcome)
    (hoptimal : outcome.status = .optimal) :
    ∃ steps p q snapshot, problem.Trail minimizer settings start interrupt steps p ∧
      advance minimizer settings p = .ok (.moved q snapshot) ∧ outcome = q.outcome .optimal ∧
      List.Forall₂
        (fun c m => c.relation = .inequality → ∀ r, c.residual outcome.solution = .ok r →
          r < -settings.constraintTolerance →
          ∃ pulls, c.pulls (steps ++ [⟨p.lagrangian.penalty, outcome.solution⟩]) = .ok pulls ∧
            (m = 0 ↔ ∀ tail, tail <:+ pulls → tail.sum ≤ 0))
        problem.constraints outcome.multipliers := by
  obtain ⟨p, q, snapshot, hvisits, hmoved, rfl, -, -⟩ := last_iteration_of_optimal h hoptimal
  obtain ⟨steps, htrail⟩ := hvisits.trail
  refine ⟨steps, p, q, snapshot, htrail, hmoved, rfl, ?_⟩
  refine (htrail.reaches.moved hmoved).multipliersInOrder.imp ?_
  intro c m hm hc _ _ _
  obtain ⟨pulls, hpulls, rfl⟩ := Constraint.multiplierAfter_inequality hc hm
  exact ⟨pulls, hpulls, carried_eq_zero_iff pulls⟩

/-- In every iteration the minimizer finds a point with the least value of
the augmented Lagrangian, and the gradient vanishes there. -/
def Problem.MinimizedExactly (problem : Problem ℝ) (minimizer : Minimizer ℝ)
    (settings : Settings ℝ) (start : Vec ℝ) (interrupt : Snapshot ℝ → Bool) : Prop :=
  ∀ p, problem.Visits minimizer settings start interrupt p → ∃ x slope v,
    minimizer p.lagrangian.value p.lagrangian.gradient p.point = .ok (x, slope) ∧
    p.lagrangian.gradient x = .ok slope ∧ slope.norm = 0 ∧ p.lagrangian.value x = .ok v ∧
    ∀ y w, y.size = x.size → p.lagrangian.value y = .ok w → v ≤ w

section Hillside

def atMostZero : Constraint ℝ where
  relation := .inequality
  residual x := x.get 0
  gradient := some fun _ => .ok ⟨[1]⟩

noncomputable def atLeastMinusFour : Constraint ℝ where
  relation := .inequality
  residual x := do return -4.0 - (← x.get 0)
  gradient := some fun _ => .ok ⟨[-1]⟩

/-- The way down a hill from its top at minus four to its foot at zero. -/
noncomputable def hillside : Problem ℝ where
  objective x := do return -8.0 * (← x.get 0) - (← x.get 0) * (← x.get 0)
  gradient := some fun x => do return ⟨[-8.0 - 2.0 * (← x.get 0)]⟩
  constraints := [atMostZero, atLeastMinusFour]
  weight := Sense.minimize.sign

noncomputable def hillsideSettings : Settings ℝ where
  maxIterations := 100
  tolerance := 1e-6
  constraintTolerance := 1e-6
  gradientTolerance := 1e-6
  maxInnerIterations := 500
  initialPenalty := 10.0
  penaltyIncrease := 10.0
  maxPenalty := 1e6
  minDerivative := 1e-12
  differenceStep := 1e-6
  recordHistory := false

noncomputable def hillsideMinimizer : Minimizer ℝ := fun _ gradient start => do
  let x : Vec ℝ := if Scalar.less 0 (← start.get 0) then ⟨[-0.25]⟩ else ⟨[1]⟩
  return (x, ← gradient x)

theorem atLeastMinusFour_residual (t : ℝ) : atLeastMinusFour.residual ⟨[t]⟩ = .ok (-4 - t) := by
  change Except.ok (-4.0 - t) = _
  norm_num

theorem hillside_objective (t : ℝ) : hillside.objective ⟨[t]⟩ = .ok (-8 * t - t * t) := by
  change Except.ok (-8.0 * t - t * t) = _
  norm_num

section

variable {L : Lagrangian ℝ} (hproblem : L.problem = hillside) {m n : ℝ}
  (hmultipliers : L.multipliers = ⟨[], [m, n]⟩) (t : ℝ)

include hproblem hmultipliers

theorem hillside_lists :
    L.Lists ⟨[t]⟩ [⟨atMostZero, m, t⟩, ⟨atLeastMinusFour, n, -4 - t⟩] := by
  refine ⟨by rw [hproblem]; rfl, by rw [hmultipliers]; rfl, ?_⟩
  simp only [List.mem_cons, List.not_mem_nil, or_false, forall_eq_or_imp, forall_eq]
  exact ⟨rfl, atLeastMinusFour_residual t⟩

theorem hillside_updated :
    L.updateMultipliers ⟨[t]⟩ =
      .ok { L with
        multipliers :=
          ⟨[], [max 0 (m + L.penalty * t), max 0 (n + L.penalty * (-4 - t))]⟩ } := by
  have hshifted : Entry.sorted (Lagrangian.shift L.penalty)
      [⟨atMostZero, m, t⟩, ⟨atLeastMinusFour, n, -4 - t⟩] =
        ⟨[], [max 0 (m + L.penalty * t), max 0 (n + L.penalty * (-4 - t))]⟩ :=
    congrArg₂ (fun a b => (⟨[], [a, b]⟩ : ByRelation ℝ)) (Lagrangian.shift_inequality rfl)
      (Lagrangian.shift_inequality rfl)
  rw [(hillside_lists hproblem hmultipliers t).updateMultipliers_eq, hshifted]

theorem hillside_value (hpenalty : L.penalty ≠ 0) :
    L.value ⟨[t]⟩ =
      .ok (-8 * t - t * t + ((max 0 (m + L.penalty * t) ^ 2 - m ^ 2) / (2 * L.penalty) +
        (max 0 (n + L.penalty * (-4 - t)) ^ 2 - n ^ 2) / (2 * L.penalty))) := by
  have hterm {c : Constraint ℝ} (hc : c.relation = .inequality) (k r : ℝ) :
      Lagrangian.term L.penalty ⟨c, k, r⟩ =
        (max 0 (k + L.penalty * r) ^ 2 - k ^ 2) / (2 * L.penalty) := by
    rw [Lagrangian.term_inequality hpenalty hc, Lagrangian.shift_inequality hc]
    ring
  rw [(hillside_lists hproblem hmultipliers t).value_eq hpenalty
    (by rw [hproblem]; exact hillside_objective t), hproblem]
  simp only [List.map_cons, List.map_nil, List.sum_cons, List.sum_nil, hterm (c := atMostZero) rfl,
    hterm (c := atLeastMinusFour) rfl]
  change Except.ok ((1 : ℝ) * (-8 * t - t * t) + _) = _
  ring_nf

theorem hillside_gradient :
    L.gradient ⟨[t]⟩ =
      .ok ⟨[-8 - 2 * t + max 0 (m + L.penalty * t) - max 0 (n + L.penalty * (-4 - t))]⟩ := by
  have hadd {c : Constraint ℝ} {r g : ℝ} (hr : c.residual ⟨[t]⟩ = .ok r)
      (hg : Lagrangian.knownGradient c ⟨[t]⟩ = .ok ⟨[g]⟩) (a k : ℝ)
      (rest : List (Constraint ℝ × ℝ)) :
      Lagrangian.addInequalities L.penalty ⟨[t]⟩ ⟨[a]⟩ ((c, k) :: rest) =
        Lagrangian.addInequalities L.penalty ⟨[t]⟩ ⟨[a + max 0 (k + L.penalty * r) * g]⟩ rest := by
    simp only [Lagrangian.addInequalities, hr, hg, bind, Except.bind, Exact.larger_eq,
      Exact.less_iff]
    split
    · rfl
    · next hzero =>
        rw [le_antisymm (not_lt.mp hzero) (le_max_left _ _), zero_mul, add_zero]
  have hanalytic : L.gradient ⟨[t]⟩ =
      Lagrangian.addInequalities L.penalty ⟨[t]⟩ ⟨[(1 : ℝ) * (-8.0 - 2.0 * t)]⟩
        [(atMostZero, m), (atLeastMinusFour, n)] := by
    simp only [Lagrangian.gradient, Lagrangian.analyticGradient, hproblem, hmultipliers]
    rfl
  have hslope : (1 : ℝ) * (-8.0 - 2.0 * t) = -8 - 2 * t := by norm_num
  rw [hanalytic, hslope, hadd (c := atMostZero) rfl rfl,
    hadd (atLeastMinusFour_residual t) rfl]
  simp only [Lagrangian.addInequalities]
  ring_nf

theorem hillside_violation : L.maxViolation ⟨[t]⟩ = .ok (max 0 (max t (-4 - t))) := by
  rw [Lagrangian.maxViolation_eq_ok]
  refine ⟨_, (hillside_lists hproblem hmultipliers t).residuals_eq, ?_⟩
  change Scalar.larger (0 : ℝ) (Scalar.maximum t (-4 - t)) = _
  rw [Exact.larger_eq, Exact.maximum_eq]

end

noncomputable def hillsideOpening : Progress ℝ where
  lagrangian := Lagrangian.start hillside 1e-6 10.0
  point := ⟨[0]⟩
  objective := 0
  violation := 0

noncomputable def hillsideSnapshot : Snapshot ℝ where
  iteration := 1
  objective := -9.0
  violation := 1
  gradientNorm := 0
  penalty := 10.0

/-- The first iteration goes too far and leaves the multiplier ten behind. -/
noncomputable def hillsideMiddle : Progress ℝ where
  lagrangian := { Lagrangian.start hillside 1e-6 10.0 with multipliers := ⟨[], [10.0, 0]⟩ }
  point := ⟨[1]⟩
  objective := -9.0
  violation := 1
  previous := some (-9.0, 1)
  iterations := 1
  delivered := [hillsideSnapshot]

noncomputable def hillsideEnd : Progress ℝ where
  lagrangian := { Lagrangian.start hillside 1e-6 10.0 with multipliers := ⟨[], [7.5, 0]⟩ }
  point := ⟨[-0.25]⟩
  objective := 1.9375
  violation := 0
  previous := some (-9.0, 1)
  iterations := 2
  delivered := [hillsideSnapshot]

theorem hillside_degenerate :
    Lagrangian.hasDegenerateViolation (1e-6 : ℝ) 1e-6 1e-12 ⟨[1]⟩ hillside.constraints =
      .ok false := by
  have hfirst : atMostZero.violation ⟨[1]⟩ = .ok 1 := by
    rw [Constraint.violation_eq_ok]
    exact ⟨1, rfl, by norm_num [atMostZero, Relation.violation]⟩
  have hsecond : atLeastMinusFour.violation ⟨[1]⟩ = .ok 0 := by
    rw [Constraint.violation_eq_ok]
    exact ⟨-4 - 1, atLeastMinusFour_residual 1, by norm_num [atLeastMinusFour, Relation.violation]⟩
  have hslope : atMostZero.gradientAt (1e-6 : ℝ) ⟨[1]⟩ = .ok ⟨[1]⟩ := rfl
  simp only [hillside, Lagrangian.hasDegenerateViolation, hfirst, hsecond, hslope, bind,
    Except.bind]
  norm_num

theorem hillside_advance {p : Progress ℝ} (hproblem : p.lagrangian.problem = hillside) {m n : ℝ}
    (hmultipliers : p.lagrangian.multipliers = ⟨[], [m, n]⟩) {t : ℝ}
    (hfound : hillsideMinimizer p.lagrangian.value p.lagrangian.gradient p.point =
      .ok (⟨[t]⟩, ⟨[0]⟩)) :
    advance hillsideMinimizer hillsideSettings p =
      .ok (.moved
        { p with
          point := ⟨[t]⟩, objective := -8 * t - t * t, violation := max 0 (max t (-4 - t)),
          iterations := p.iterations + 1,
          lagrangian := { p.lagrangian with
            multipliers := ⟨[], [max 0 (m + p.lagrangian.penalty * t),
              max 0 (n + p.lagrangian.penalty * (-4 - t))]⟩ } }
        { iteration := p.iterations + 1, objective := -8 * t - t * t,
          violation := max 0 (max t (-4 - t)), gradientNorm := 0,
          penalty := p.lagrangian.penalty }) := by
  have hlength : (⟨[0]⟩ : Vec ℝ).norm = 0 := by simp [Vec.norm]
  have hobjective : p.lagrangian.problem.objective ⟨[t]⟩ = .ok (-8 * t - t * t) := by
    rw [hproblem]
    exact hillside_objective t
  have hadvance : advance hillsideMinimizer hillsideSettings p = _ :=
    advance_eq_moved hfound hobjective (hillside_violation hproblem hmultipliers t)
      (hillside_updated hproblem hmultipliers t) rfl rfl
  rw [hlength] at hadvance
  exact hadvance

theorem hillside_first_gradient :
    hillsideOpening.lagrangian.gradient ⟨[1]⟩ = .ok ⟨[0]⟩ := by
  rw [hillside_gradient (L := hillsideOpening.lagrangian) rfl rfl]
  norm_num [hillsideOpening, Lagrangian.start]

theorem hillside_second_gradient :
    hillsideMiddle.lagrangian.gradient ⟨[-0.25]⟩ = .ok ⟨[0]⟩ := by
  rw [hillside_gradient (L := hillsideMiddle.lagrangian) rfl rfl]
  norm_num [hillsideMiddle, Lagrangian.start]

theorem hillside_first_found :
    hillsideMinimizer hillsideOpening.lagrangian.value hillsideOpening.lagrangian.gradient
      hillsideOpening.point = .ok (⟨[1]⟩, ⟨[0]⟩) := by
  simp only [hillsideMinimizer, bind_eq_ok, pure_eq_ok]
  exact ⟨0, rfl, ⟨[0]⟩, by simpa using hillside_first_gradient, by simp⟩

theorem hillside_second_found :
    hillsideMinimizer hillsideMiddle.lagrangian.value hillsideMiddle.lagrangian.gradient
      hillsideMiddle.point = .ok (⟨[-0.25]⟩, ⟨[0]⟩) := by
  simp only [hillsideMinimizer, bind_eq_ok, pure_eq_ok]
  exact ⟨1, rfl, ⟨[0]⟩, by simpa using hillside_second_gradient, by simp⟩

theorem hillside_first :
    iterate hillsideMinimizer hillsideSettings (fun _ => false) hillsideOpening =
      .ok (.proceed hillsideMiddle) := by
  have hadvance : advance hillsideMinimizer hillsideSettings hillsideOpening =
      .ok (.moved { hillsideMiddle with previous := none, delivered := [] } hillsideSnapshot) := by
    rw [hillside_advance rfl rfl hillside_first_found]
    norm_num [hillsideOpening, hillsideMiddle, hillsideSnapshot, Lagrangian.start]
  have hviolated : Scalar.atMost (1 : ℝ) hillsideSettings.constraintTolerance = false := by
    rw [← Bool.not_eq_true, Exact.atMost_iff]
    norm_num [hillsideSettings]
  have hdegenerate : Lagrangian.hasDegenerateViolation hillsideMiddle.lagrangian.step
      hillsideSettings.constraintTolerance hillsideSettings.minDerivative hillsideMiddle.point
      hillsideMiddle.lagrangian.problem.constraints = .ok false :=
    hillside_degenerate
  simp only [iterate, hadvance, judge, hdegenerate, bind, Except.bind]
  rw [if_neg (by simp [hillsideMiddle, hviolated])]
  simp [deliver, Progress.shown, nextPenalty, hillsideMiddle, hviolated, isSticky, Lagrangian.start,
    pure, Except.pure]

theorem hillside_second_moved :
    advance hillsideMinimizer hillsideSettings hillsideMiddle =
      .ok (.moved hillsideEnd
        { iteration := 2, objective := 1.9375, violation := 0, gradientNorm := 0,
          penalty := 10.0 }) := by
  rw [hillside_advance rfl rfl hillside_second_found]
  norm_num [hillsideMiddle, hillsideEnd, Lagrangian.start]

theorem hillside_second :
    iterate hillsideMinimizer hillsideSettings (fun _ => false) hillsideMiddle =
      .ok (.stop .optimal hillsideEnd) := by
  have hwithin : Scalar.atMost (0 : ℝ) 1e-6 = true := by
    rw [Exact.atMost_iff]
    norm_num
  have hviolation : Scalar.atMost hillsideEnd.violation hillsideSettings.constraintTolerance =
      true := hwithin
  have hgradient : Scalar.atMost (0 : ℝ) hillsideSettings.gradientTolerance = true := hwithin
  simp only [iterate, hillside_second_moved, judge, hviolation, hgradient, bind, Except.bind,
    Bool.true_or, if_true, pure, Except.pure]

theorem hillside_opens : hillside.Opens hillsideSettings ⟨[0]⟩ hillsideOpening := by
  refine ⟨0, 0, ?_, ?_, rfl⟩
  · change Except.ok ((-8.0 : ℝ) * 0 - 0 * 0) = _
    norm_num
  · rw [hillside_violation rfl rfl]
    norm_num

theorem hillside_accepted : hillsideSettings.Accepted := by
  constructor <;> norm_num [hillsideSettings]

theorem hillside_optimize :
    hillside.optimize hillsideMinimizer hillsideSettings ⟨[0]⟩ (fun _ => false) =
      .ok (hillsideEnd.outcome .optimal) := by
  apply optimize_eq_of_run rfl rfl hillside_opens rfl
  change run hillsideMinimizer hillsideSettings (fun _ => false) 100 hillsideOpening = _
  simp only [run, hillside_first, hillside_second, bind, Except.bind, pure, Except.pure]

theorem hillside_visits {p : Progress ℝ}
    (h : hillside.Visits hillsideMinimizer hillsideSettings ⟨[0]⟩ (fun _ => false) p) :
    p = hillsideOpening ∨ p = hillsideMiddle := by
  induction h with
  | opening hopens _ => exact Or.inl (hopens.unique hillside_opens)
  | proceed _ hiterate ih =>
      rcases ih with rfl | rfl
      · rw [hillside_first] at hiterate
        cases hiterate
        exact Or.inr rfl
      · rw [hillside_second] at hiterate
        cases hiterate

theorem hillside_first_value (t : ℝ) :
    hillsideOpening.lagrangian.value ⟨[t]⟩ =
      .ok (-8 * t - t * t + ((max 0 (0 + 10 * t) ^ 2 - 0 ^ 2) / (2 * 10) +
        (max 0 (0 + 10 * (-4 - t)) ^ 2 - 0 ^ 2) / (2 * 10))) := by
  have hten : hillsideOpening.lagrangian.penalty = 10 := by
    norm_num [hillsideOpening, Lagrangian.start]
  rw [hillside_value rfl rfl t (by norm_num [hten]), hten]

theorem hillside_second_value (t : ℝ) :
    hillsideMiddle.lagrangian.value ⟨[t]⟩ =
      .ok (-8 * t - t * t + ((max 0 (10 + 10 * t) ^ 2 - 10 ^ 2) / (2 * 10) +
        (max 0 (0 + 10 * (-4 - t)) ^ 2 - 0 ^ 2) / (2 * 10))) := by
  have hten : hillsideMiddle.lagrangian.penalty = 10 := by
    norm_num [hillsideMiddle, Lagrangian.start]
  have hmultipliers : hillsideMiddle.lagrangian.multipliers = ⟨[], [10, 0]⟩ := by
    norm_num [hillsideMiddle]
  rw [hillside_value rfl hmultipliers t (by norm_num [hten]), hten]

theorem hillside_first_least (t : ℝ) :
    -4 ≤ -8 * t - t * t + ((max 0 (0 + 10 * t) ^ 2 - 0 ^ 2) / (2 * 10) +
      (max 0 (0 + 10 * (-4 - t)) ^ 2 - 0 ^ 2) / (2 * 10)) := by
  rcases le_total 0 t with ht | ht
  · rw [max_eq_right (by linarith : (0 : ℝ) ≤ 0 + 10 * t)]
    nlinarith [sq_nonneg (t - 1), sq_nonneg (max 0 (0 + 10 * (-4 - t)))]
  · rcases le_total (-4) t with hfour | hfour
    · nlinarith [sq_nonneg (max 0 (0 + 10 * t)), sq_nonneg (max 0 (0 + 10 * (-4 - t)))]
    · rw [max_eq_right (by linarith : (0 : ℝ) ≤ 0 + 10 * (-4 - t))]
      nlinarith [sq_nonneg (max 0 (0 + 10 * t)), sq_nonneg (t + 4)]

theorem hillside_second_least (t : ℝ) :
    -(1 / 4) ≤ -8 * t - t * t + ((max 0 (10 + 10 * t) ^ 2 - 10 ^ 2) / (2 * 10) +
      (max 0 (0 + 10 * (-4 - t)) ^ 2 - 0 ^ 2) / (2 * 10)) := by
  rcases le_total (-1) t with ht | ht
  · rw [max_eq_right (by linarith : (0 : ℝ) ≤ 10 + 10 * t)]
    nlinarith [sq_nonneg (t + 1 / 4), sq_nonneg (max 0 (0 + 10 * (-4 - t)))]
  · rcases le_total (-4) t with hfour | hfour
    · nlinarith [sq_nonneg (max 0 (10 + 10 * t)), sq_nonneg (max 0 (0 + 10 * (-4 - t)))]
    · rw [max_eq_right (by linarith : (0 : ℝ) ≤ 0 + 10 * (-4 - t))]
      nlinarith [sq_nonneg (max 0 (10 + 10 * t)), sq_nonneg (t + 4)]

/-- The minimizer makes no mistake in any iteration, so what is left is not its doing. -/
theorem hillside_minimizedExactly :
    hillside.MinimizedExactly hillsideMinimizer hillsideSettings ⟨[0]⟩ (fun _ => false) := by
  have hlength : (⟨[0]⟩ : Vec ℝ).norm = 0 := by simp [Vec.norm]
  intro p hvisits
  rcases hillside_visits hvisits with rfl | rfl
  · refine ⟨⟨[1]⟩, ⟨[0]⟩, -4, hillside_first_found, hillside_first_gradient, hlength, ?_, ?_⟩
    · rw [hillside_first_value]
      norm_num
    · intro y w hsize hw
      obtain ⟨t, rfl⟩ := Vec.exists_of_size_one hsize
      rw [hillside_first_value] at hw
      cases hw
      exact hillside_first_least t
  · refine ⟨⟨[-0.25]⟩, ⟨[0]⟩, -(1 / 4), hillside_second_found, hillside_second_gradient, hlength,
      ?_, ?_⟩
    · rw [hillside_second_value]
      norm_num
    · intro y w hsize hw
      obtain ⟨t, rfl⟩ := Vec.exists_of_size_one hsize
      rw [hillside_second_value] at hw
      cases hw
      exact hillside_second_least t

theorem hillside_slack : (-0.25 : ℝ) < -hillsideSettings.constraintTolerance := by
  norm_num [hillsideSettings]

theorem hillside_multipliers : (hillsideEnd.outcome .optimal).multipliers = [7.5, 0] := rfl

/-- Exact minimizers do not make the multipliers of slack inequalities zero:
the solve of `hillside` ends at minus one quarter, with the multiplier 7.5 of
its first inequality left over from the iteration before. -/
theorem slack_multiplier_may_remain :
    ¬ ∀ (problem : Problem ℝ) (minimizer : Minimizer ℝ) (settings : Settings ℝ) (start : Vec ℝ)
      (interrupt : Snapshot ℝ → Bool) (outcome : Outcome ℝ), settings.Accepted →
      problem.MinimizedExactly minimizer settings start interrupt →
      problem.optimize minimizer settings start interrupt = .ok outcome →
      outcome.status = .optimal →
      List.Forall₂
        (fun c m => c.relation = .inequality → ∀ r, c.residual outcome.solution = .ok r →
          r < -settings.constraintTolerance → m = 0)
        problem.constraints outcome.multipliers := by
  intro h
  have hall := h hillside hillsideMinimizer hillsideSettings ⟨[0]⟩ (fun _ => false) _
    hillside_accepted hillside_minimizedExactly hillside_optimize rfl
  rw [hillside_multipliers] at hall
  obtain ⟨hfirst, -⟩ := List.forall₂_cons.mp hall
  have hzero : (7.5 : ℝ) = 0 := hfirst rfl (-0.25) rfl hillside_slack
  norm_num at hzero

/-- Both inequalities of `hillside` are slack in the end. The second one was
never pulled up; the first one was, and more than it was pulled down since. -/
theorem hillside_multipliers_pulled :
    ∃ steps p q snapshot,
      hillside.Trail hillsideMinimizer hillsideSettings ⟨[0]⟩ (fun _ => false) steps p ∧
      advance hillsideMinimizer hillsideSettings p = .ok (.moved q snapshot) ∧
      (∃ pulls, atMostZero.pulls (steps ++ [⟨p.lagrangian.penalty, ⟨[-0.25]⟩⟩]) = .ok pulls ∧
        ∃ tail, tail <:+ pulls ∧ 0 < tail.sum) ∧
      ∃ pulls, atLeastMinusFour.pulls (steps ++ [⟨p.lagrangian.penalty, ⟨[-0.25]⟩⟩]) = .ok pulls ∧
        ∀ tail, tail <:+ pulls → tail.sum ≤ 0 := by
  obtain ⟨steps, p, q, snapshot, htrail, hmoved, -, hall⟩ :=
    slack_multiplier_eq_zero_iff hillside_optimize rfl
  refine ⟨steps, p, q, snapshot, htrail, hmoved, ?_⟩
  rw [hillside_multipliers] at hall
  obtain ⟨hfirst, hrest⟩ := List.forall₂_cons.mp hall
  obtain ⟨hsecond, -⟩ := List.forall₂_cons.mp hrest
  obtain ⟨pulls, hpulls, hiff⟩ := hfirst rfl (-0.25) rfl hillside_slack
  obtain ⟨pulls', hpulls', hiff'⟩ := hsecond rfl (-4.0 - -0.25) rfl (by norm_num [hillsideSettings])
  refine ⟨⟨pulls, hpulls, ?_⟩, pulls', hpulls', hiff'.mp rfl⟩
  by_contra hnone
  push Not at hnone
  have hzero := hiff.mpr hnone
  norm_num at hzero

end Hillside

end Optima
