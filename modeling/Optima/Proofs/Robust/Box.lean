import Optima.Proofs.Robust.Epigraph
import Optima.Proofs.Robust.Rounds
import Optima.Proofs.Robust.Solve
import Optima.Proofs.Uncertainty.Corners
import Optima.Proofs.Vector.Distinct
import Optima.Uncertainty.Set

/-!
Robust optimization over a box with few dimensions, in exact arithmetic. All corners are among the
points from the beginning. If the objective depends on the parameters affinely, or bends towards the
sense, no point of the box is worse than the worst corner. So no sampled point joins, the first
round is the last one, and the reported worst case is the worst case over the whole box.
-/

namespace Optima

open RobustProblem

structure RobustSettings.Accepted (settings : RobustSettings ℝ) : Prop where
  rounds : 0 < settings.rounds
  samples : 0 < settings.samples
  tolerance : 0 < settings.tolerance
  solver : settings.solver.Accepted

namespace Box

def Values (box : Box ℝ) (f : Vec ℝ → Except Fault ℝ) (g : Vec ℝ → ℝ) : Prop :=
  ∀ p, box.Inside p → f p = .ok (g p)

/-- How an objective may depend on the parameters of a box: affinely, or else
convexly when minimizing and concavely when maximizing. -/
inductive Tame (box : Box ℝ) (sense : Sense) (f : Vec ℝ → Except Fault ℝ) : Prop where
  | affine (a : ℝ) (b : Vec ℝ) : box.Values f (Box.affine a b) → Tame box sense f
  | bends (g : Vec ℝ → ℝ) : box.Values f g → box.Bends sense g → Tame box sense f

variable {box : Box ℝ} {sense : Sense} {f : Vec ℝ → Except Fault ℝ}

theorem Tame.exists_bends (h : box.Tame sense f) :
    ∃ g, box.Values f g ∧ box.Bends sense g := by
  cases h with
  | affine a b hvalues => exact ⟨_, hvalues, box.bends_affine sense a b⟩
  | bends g hvalues hbends => exact ⟨g, hvalues, hbends⟩

theorem Tame.value (h : box.Tame sense f) {p : Vec ℝ} (hp : box.Inside p) : ∃ v, f p = .ok v := by
  obtain ⟨g, hvalues, -⟩ := h.exists_bends
  exact ⟨g p, hvalues p hp⟩

theorem corners_ne_nil (box : Box ℝ) : box.corners ≠ [] := by
  have hchoices (ends : List (ℝ × ℝ)) : choices ends ≠ [] := by
    induction ends with
    | nil => simp [choices]
    | cons e rest ih => simp [choices, ih]
  simp [corners, hchoices]

theorem Covers.ne_nil {points : List (Vec ℝ)} (h : box.Covers points) : points ≠ [] := by
  obtain ⟨c, hc⟩ := List.exists_mem_of_ne_nil _ box.corners_ne_nil
  exact List.ne_nil_of_mem (h.corners c hc)

theorem Covers.distinct {points : List (Vec ℝ)} (h : box.Covers points) :
    box.Covers (Vec.distinct points) where
  corners c hc := Vec.mem_distinct.mpr (h.corners c hc)
  inside p hp := h.inside p (Vec.mem_distinct.mp hp)

/-- Over points that cover the box, the worst case is the one of the whole
box. -/
theorem Covers.worstCase_exact {points : List (Vec ℝ)} (hcovers : box.Covers points)
    {objective : Vec ℝ → Vec ℝ → Except Fault ℝ} {x : Vec ℝ}
    (htame : box.Tame sense (objective x)) {w : ℝ} {p : Vec ℝ}
    (h : worstCase sense objective x points = .ok (w, p)) :
    box.Inside p ∧ objective x p = .ok w ∧
      ∀ q, box.Inside q → ∃ v, objective x q = .ok v ∧ sense.NoWorse v w := by
  obtain ⟨hp, hw, hbound⟩ := worstCase_spec (fun _ _ v _ => Exact.defined v) h
  refine ⟨hcovers.inside p hp, hw, ?_⟩
  obtain ⟨g, hvalues, hbends⟩ := htame.exists_bends
  intro q hq
  -- What is worst at the corners is worst everywhere.
  obtain ⟨c, hc, hcorner⟩ := hbends.exists_corner hq
  obtain ⟨v, hv, hle⟩ := hbound c (hcovers.corners c hc)
  have hgc : g c = v := by
    rw [hvalues c (inside_of_mem_corners hc)] at hv
    exact Except.ok.inj hv
  exact ⟨g q, hvalues q hq, hcorner.trans (hgc ▸ hle)⟩

end Box

section Rounds

variable {σ : Type} {problem : RobustProblem ℝ} {minimizer : Minimizer ℝ}
  {settings : RobustSettings ℝ} {source : Source σ ℝ} {box : Box ℝ} {x : Vec ℝ}

/-- The threshold is no better than the worst case. -/
theorem RobustProblem.noWorse_threshold (problem : RobustProblem ℝ) {tolerance : ℝ}
    (h : 0 < tolerance) (w : ℝ) : problem.sense.NoWorse w (problem.threshold tolerance w) := by
  have hmargin : 0 ≤ tolerance * max 1 |w| := by positivity
  unfold threshold
  cases problem.sense with
  | minimize =>
      change w ≤ w + tolerance * Scalar.larger 1 |w|
      rw [Exact.larger_eq]
      linarith
  | maximize =>
      change w - tolerance * Scalar.larger 1 |w| ≤ w
      rw [Exact.larger_eq]
      linarith

theorem size_of_solveOver (hsize : minimizer.KeepsSize) {points : List (Vec ℝ)}
    {solved : Outcome ℝ}
    (h : problem.solveOver minimizer settings.solver points x = .ok solved) :
    solved.solution.size = x.size + 1 := by
  simp only [solveOver, bind_eq_ok, liftedStart_eq_ok] at h
  obtain ⟨_, ⟨w, p, -, rfl⟩, hsolved⟩ := h
  rw [size_of_optimize hsize hsolved, Vec.size_extend]

theorem size_decisionOf {z : Vec ℝ} {n : Nat} (h : z.size = n + 1) : (decisionOf n z).size = n := by
  obtain ⟨x, t, hx, rfl⟩ := Vec.exists_eq_extend h
  rw [decisionOf_extend hx, hx]

/-- No point inside the box joins. -/
theorem newcomers_of_covers (hsettings : settings.Accepted)
    (htame : box.Tame problem.sense (problem.objective x)) {known fresh : List (Vec ℝ)}
    (hknown : box.Covers known) (hfresh : box.Covers fresh) {w : ℝ} {p : Vec ℝ}
    (hworst : worstCase problem.sense problem.objective x known = .ok (w, p)) :
    problem.newcomers x (problem.threshold settings.tolerance w) known fresh = .ok [] := by
  obtain ⟨-, -, hbound⟩ := hknown.worstCase_exact htame hworst
  apply newcomers_eq_nil
  intro q hq
  obtain ⟨v, hv, hle⟩ := hbound q (hfresh.inside q hq)
  have hthreshold := hle.trans (problem.noWorse_threshold hsettings.tolerance w)
  exact Or.inr
    ⟨v, hv, (Sense.isWorse_iff _ (Exact.defined _) (Exact.defined _)).mpr hthreshold⟩

theorem solveOver_returns (hsettings : settings.Accepted) (hsize : minimizer.KeepsSize)
    (hanswers : minimizer.Answers)
    (hconstraints : ∀ c ∈ problem.constraints, ∀ y, y.size = x.size → ∃ r, c.residual y = .ok r)
    {points : List (Vec ℝ)} (hpoints : points ≠ [])
    (hvalues : ∀ y, y.size = x.size → ∀ p ∈ points, ∃ v, problem.objective y p = .ok v) :
    ∃ solved, problem.solveOver minimizer settings.solver points x = .ok solved := by
  obtain ⟨w, p, hworst⟩ := worstCase_succeeds problem.sense hpoints (hvalues x rfl)
  exact solveOver_responds hsettings.solver.steady (hanswers.serves hsize) hconstraints hvalues
    hworst (List.all_eq_true.mpr fun _ _ => rfl) rfl

variable (hdimension : box.dimension ≤ maxCornerDimension)
  (hunit : ∀ s, 0 ≤ (source.unit s).1 ∧ (source.unit s).1 ≤ 1) (hsettings : settings.Accepted)
  (hsize : minimizer.KeepsSize) {p : RobustProgress σ ℝ} (hcovers : box.Covers p.workingSet)
  (htame : ∀ y, y.size = p.decision.size → box.Tame problem.sense (problem.objective y))

include hdimension hunit hsettings hsize hcovers htame

/-- A round that starts with all corners is the last one. -/
theorem round_stops {verdict : RobustVerdict σ ℝ}
    (h : problem.round minimizer settings (box.sample source) p = .ok verdict) :
    ∃ status q, verdict = .stop status q ∧ q.rounds = p.rounds + 1 ∧
      q.workingSet = p.workingSet ∧ q.decision.size = p.decision.size := by
  obtain ⟨solved, hsolved, ⟨-, rfl⟩ | ⟨-, x, w, parameters, fresh, state, found, rfl, hworst,
    hfresh, hfound, rfl⟩⟩ := round_eq_ok.mp h
  · exact ⟨_, _, rfl, rfl, rfl, rfl⟩
  · have hx : (decisionOf p.decision.size solved.solution).size = p.decision.size :=
      size_decisionOf (size_of_solveOver hsize hsolved)
    have hinside := (Box.sample_yields hdimension hunit settings.samples).value hfresh
    rw [newcomers_of_covers hsettings (htame _ hx) hcovers hinside hworst] at hfound
    cases hfound
    exact ⟨_, _, rfl, rfl, rfl, hx⟩

/-- A round ends with a verdict, since the problem over any points of the box can be solved. -/
theorem round_returns (hanswers : minimizer.Answers)
    (hconstraints : ∀ c ∈ problem.constraints, ∀ y, y.size = p.decision.size →
      ∃ r, c.residual y = .ok r) :
    ∃ verdict, problem.round minimizer settings (box.sample source) p = .ok verdict := by
  have hvalues : ∀ y, y.size = p.decision.size →
      ∀ q ∈ p.workingSet, ∃ v, problem.objective y q = .ok v :=
    fun y hy q hq => (htame y hy).value (hcovers.inside q hq)
  obtain ⟨solved, hsolved⟩ :=
    solveOver_returns hsettings hsize hanswers hconstraints hcovers.ne_nil hvalues
  have hx : (decisionOf p.decision.size solved.solution).size = p.decision.size :=
    size_decisionOf (size_of_solveOver hsize hsolved)
  cases hsolution : solved.status.hasSolution with
  | false => exact ⟨_, round_eq_ok.mpr ⟨solved, hsolved, Or.inl ⟨hsolution, rfl⟩⟩⟩
  | true =>
      obtain ⟨w, parameters, hw⟩ :=
        worstCase_succeeds problem.sense hcovers.ne_nil (hvalues _ hx)
      obtain ⟨fresh, state, hfresh, hinside⟩ :=
        Box.sample_yields hdimension hunit settings.samples p.state
      have hfound := newcomers_of_covers hsettings (htame _ hx) hcovers hinside hw
      exact ⟨_, round_eq_ok.mpr ⟨solved, hsolved, Or.inr ⟨hsolution, _, w, parameters, fresh, state,
        [], rfl, hw, hfresh, hfound, rfl⟩⟩⟩

/-- The corners attain the worst case, so no point of the box joins after the first round. -/
theorem run_stops {status : Status} {last : RobustProgress σ ℝ}
    (h : problem.run minimizer settings (box.sample source) settings.rounds p =
      .ok (status, last)) :
    last.rounds = p.rounds + 1 ∧ last.workingSet = p.workingSet ∧
      last.decision.size = p.decision.size := by
  obtain ⟨budget, hbudget⟩ := Nat.exists_eq_succ_of_ne_zero hsettings.rounds.ne'
  simp only [hbudget, Nat.succ_eq_add_one, RobustProblem.run, bind_eq_ok] at h
  obtain ⟨verdict, hround, h⟩ := h
  obtain ⟨status', q, rfl, hkept⟩ :=
    round_stops hdimension hunit hsettings hsize hcovers htame hround
  cases h
  exact hkept

theorem run_over_box_returns (hanswers : minimizer.Answers)
    (hconstraints : ∀ c ∈ problem.constraints, ∀ y, y.size = p.decision.size →
      ∃ r, c.residual y = .ok r) :
    ∃ status last, problem.run minimizer settings (box.sample source) settings.rounds p =
      .ok (status, last) := by
  obtain ⟨budget, hbudget⟩ := Nat.exists_eq_succ_of_ne_zero hsettings.rounds.ne'
  obtain ⟨verdict, hround⟩ :=
    round_returns hdimension hunit hsettings hsize hcovers htame hanswers hconstraints
  obtain ⟨status, q, rfl, -⟩ := round_stops hdimension hunit hsettings hsize hcovers htame hround
  refine ⟨status, q, ?_⟩
  simp only [hbudget, Nat.succ_eq_add_one, RobustProblem.run, bind_eq_ok]
  exact ⟨_, hround, rfl⟩

end Rounds

/-- Over a box of at most ten dimensions, with an objective that depends on the
parameters affinely, or convexly when minimizing and concavely when
maximizing, a robust optimization makes one round. What it reports as the
worst case is attained in the box and nowhere in it exceeded; for an affine
objective it is the nominal value and what all coordinates can add to it. If
the minimizer answers and the constraints have values, there is an outcome. -/
theorem worst_case_over_box_exact {σ : Type} {problem : RobustProblem ℝ} {minimizer : Minimizer ℝ}
    {settings : RobustSettings ℝ} {source : Source σ ℝ} {box : Box ℝ} {x : Vec ℝ}
    (hdimension : box.dimension ≤ 10)
    (hunit : ∀ s, 0 ≤ (source.unit s).1 ∧ (source.unit s).1 ≤ 1) (hsettings : settings.Accepted)
    (hsize : minimizer.KeepsSize)
    (htame : ∀ y, y.size = x.size → box.Tame problem.sense (problem.objective y))
    (nominal : Vec ℝ) (state : σ) :
    let result := problem.optimize minimizer settings ((UncertaintySet.box box).sample source)
      nominal x state
    (∀ outcome, result = .ok outcome →
      outcome.iterations = 1 ∧ box.Inside outcome.worstParameters ∧
      problem.objective outcome.solution outcome.worstParameters = .ok outcome.worstObjective ∧
      (∀ p, box.Inside p → ∃ v, problem.objective outcome.solution p = .ok v ∧
        problem.sense.NoWorse v outcome.worstObjective) ∧
      ∀ a b, box.Values (problem.objective outcome.solution) (Box.affine a b) →
        outcome.worstObjective = box.affineWorst problem.sense a b) ∧
    (minimizer.Answers →
      (∀ c ∈ problem.constraints, ∀ y, y.size = x.size → ∃ r, c.residual y = .ok r) →
      (∀ y, y.size = x.size → ∃ v, problem.objective y nominal = .ok v) →
      ∃ outcome, result = .ok outcome) := by
  have hyields := Box.sample_yields hdimension hunit settings.samples
  constructor
  · intro outcome h
    obtain ⟨points, state', hsample, status, last, hrun, hconclude⟩ := optimize_eq_ok.mp h
    have hcovers := (hyields.value hsample).distinct
    obtain ⟨hrounds, hworking, hdecision⟩ :=
      run_stops hdimension hunit hsettings hsize hcovers htame hrun
    obtain ⟨w, parameters, value, hworst, -, rfl⟩ := conclude_eq_ok.mp hconclude
    rw [hworking] at hworst
    obtain ⟨hinside, hw, hbound⟩ := hcovers.worstCase_exact (htame _ hdecision) hworst
    refine ⟨hrounds, hinside, hw, hbound, ?_⟩
    intro a b hvalues
    obtain ⟨⟨p, hp, hattained⟩, hexceeds⟩ := box.affineWorst_spec problem.sense a b
    -- Each of the two is attained in the box, so that neither is worse than the other.
    have hle : problem.sense.NoWorse w (box.affineWorst problem.sense a b) := by
      rw [hvalues _ hinside] at hw
      exact Except.ok.inj hw ▸ hexceeds _ hinside
    have hge : problem.sense.NoWorse (box.affineWorst problem.sense a b) w := by
      obtain ⟨v, hv, hv'⟩ := hbound p hp
      rw [hvalues p hp] at hv
      rw [← hattained]
      exact Except.ok.inj hv ▸ hv'
    exact hle.antisymm hge
  · intro hanswers hconstraints hnominal
    obtain ⟨points, state', hsample, hpoints⟩ := hyields state
    have hcovers := hpoints.distinct
    obtain ⟨status, last, hrun⟩ := run_over_box_returns (p := ⟨x, Vec.distinct points, 0, state'⟩)
      hdimension hunit hsettings hsize hcovers htame hanswers hconstraints
    obtain ⟨-, hworking, hdecision⟩ :=
      run_stops hdimension hunit hsettings hsize hcovers htame hrun
    obtain ⟨w, parameters, hworst⟩ := worstCase_succeeds problem.sense hcovers.ne_nil
      fun q hq => (htame last.decision hdecision).value (hcovers.inside q hq)
    obtain ⟨value, hvalue⟩ := hnominal last.decision hdecision
    obtain ⟨outcome, hconclude⟩ : ∃ outcome, problem.conclude nominal status last = .ok outcome :=
      ⟨_, conclude_eq_ok.mpr ⟨w, parameters, value, hworking ▸ hworst, hvalue, rfl⟩⟩
    exact ⟨outcome, optimize_eq_ok.mpr ⟨points, state', hsample, status, last, hrun, hconclude⟩⟩

section Portfolio

/-- Two returns, the greater one less certain than the other. -/
noncomputable def returnsBox : Box ℝ where
  nominal := ⟨[10, 12]⟩
  deviations := ⟨[(2 : ℕ), 5]⟩
  aligned := rfl
  nonNegative d hd := by
    rw [← Bool.not_eq_true, Exact.less_iff, not_lt]
    simp only [List.mem_cons, List.not_mem_nil, or_false] at hd
    rcases hd with rfl | rfl <;> norm_num

/-- The greatest return in the worst case, with all money invested. -/
noncomputable def portfolio : RobustProblem ℝ where
  objective w r := w.dot r
  constraints := [Constraint.budget]
  sense := .maximize

noncomputable def portfolioSettings : RobustSettings ℝ where
  rounds := 3
  samples := 6
  tolerance := 1
  solver :=
    { maxIterations := 2, tolerance := 1, constraintTolerance := 1, gradientTolerance := 1,
      maxInnerIterations := 1, initialPenalty := 1, penaltyIncrease := (2 : ℕ),
      maxPenalty := (2 : ℕ), minDerivative := 1, differenceStep := 1, recordHistory := false }

theorem portfolioSettings_accepted : portfolioSettings.Accepted := by
  constructor <;> norm_num [portfolioSettings]
  constructor <;> norm_num

noncomputable def middle : Source Unit ℝ where
  unit s := (1 / (2 : ℕ), s)
  normal s := (0, s)
  position _ s := (0, s)

theorem size_of_inside {p : Vec ℝ} (h : returnsBox.Inside p) : p.size = 2 :=
  h.1.length_eq.symm

theorem portfolio_values {w : Vec ℝ} (hw : w.size = 2) :
    returnsBox.Values (portfolio.objective w) (Box.affine 0 w) := by
  intro p hp
  have hsizes : (w.size == p.size) = true := by rw [hw, size_of_inside hp]; rfl
  simp only [portfolio, Vec.dot, hsizes, if_true, Box.affine, zero_add]

theorem portfolio_worst_return :
    ∃ outcome a b,
      portfolio.optimize staying portfolioSettings ((UncertaintySet.box returnsBox).sample middle)
        ⟨[10, 12]⟩ ⟨[1, 0]⟩ () = .ok outcome ∧
      outcome.iterations = 1 ∧ outcome.solution = ⟨[a, b]⟩ ∧
      outcome.worstObjective = 10 * a + 12 * b - (2 * |a| + 5 * |b|) ∧
      ∀ p, returnsBox.Inside p →
        ∃ v, outcome.solution.dot p = .ok v ∧ outcome.worstObjective ≤ v := by
  have hunit : ∀ s, 0 ≤ (middle.unit s).1 ∧ (middle.unit s).1 ≤ 1 := by
    intro s
    norm_num [middle]
  have hdimension : returnsBox.dimension ≤ 10 := by
    change 2 ≤ 10
    omega
  have htame : ∀ y, y.size = (⟨[1, 0]⟩ : Vec ℝ).size →
      returnsBox.Tame portfolio.sense (portfolio.objective y) :=
    fun y hy => .affine 0 y (portfolio_values hy)
  obtain ⟨hexact, hreturns⟩ := worst_case_over_box_exact hdimension hunit
    portfolioSettings_accepted staying_keepsSize htame ⟨[10, 12]⟩ ()
  obtain ⟨outcome, houtcome⟩ := hreturns staying_answers
    (fun c hc y _ => by
      rw [List.mem_singleton.mp hc]
      exact ⟨_, rfl⟩)
    (fun y hy => by
      have hsizes : (y.size == 2) = true := by rw [hy]; rfl
      exact ⟨_, if_pos hsizes⟩)
  obtain ⟨hrounds, hinside, hattained, hbound, haffine⟩ := hexact outcome houtcome
  have hsize : outcome.solution.size = 2 := by
    rw [← size_of_inside hinside]
    simp only [portfolio, Vec.dot] at hattained
    split at hattained
    · next h => exact beq_iff_eq.mp h
    · cases hattained
  obtain ⟨a, b, hsolution⟩ := List.length_eq_two.mp hsize
  refine ⟨outcome, a, b, houtcome, hrounds, congrArg Vec.mk hsolution, ?_, hbound⟩
  rw [haffine 0 outcome.solution (portfolio_values hsize)]
  simp only [Box.affineWorst, Box.affine, hsolution, returnsBox, portfolio, Sense.sign,
    Exact.dot_eq, List.map_cons, List.map_nil, List.zipWith_cons_cons, List.zipWith_nil_left,
    List.sum_cons, List.sum_nil]
  change 0 + (a * 10 + (b * 12 + 0)) + -1 * (|a| * 2 + (|b| * 5 + 0)) = _
  ring

end Portfolio

end Optima
