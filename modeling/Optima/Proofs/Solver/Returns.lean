import Optima.Proofs.Solver.Penalty
import Optima.Proofs.WorkingCopy

/-!
When a solve returns. The minimizer is asked to serve: where the function and its gradient have
values at all points of a dimension, it finds a point of this dimension. If objective, residuals and
known gradients have values at all points of the dimension of the start, every iteration returns, as
long as steps of difference quotients do not vanish, and neither does the penalty. So the solve
returns, with a solution of the same dimension. In exact arithmetic accepted settings are enough.
-/

namespace Optima

variable {α : Type} [Scalar α]

section Minimizers

omit [Scalar α]

/-- What the minimizer finds has the dimension of the start. -/
def Minimizer.KeepsSize (minimizer : Minimizer α) : Prop :=
  ∀ f gradient start x slope, minimizer f gradient start = .ok (x, slope) → x.size = start.size

/-- The minimizer finds something if the function and its gradient have values
at all points of the dimension of the start. -/
def Minimizer.Answers (minimizer : Minimizer α) : Prop :=
  ∀ f gradient start,
    (∀ y : Vec α, y.size = start.size → (∃ v, f y = .ok v) ∧ ∃ d, gradient y = .ok d) →
    ∃ found, minimizer f gradient start = .ok found

/-- The minimizer finds a point of the dimension of the start if the function
and its gradient have values at all points of this dimension, and the gradient
is of the same dimension there. -/
def Minimizer.Serves (minimizer : Minimizer α) : Prop :=
  ∀ f gradient start,
    (∀ y : Vec α, y.size = start.size →
      (∃ v, f y = .ok v) ∧ ∃ d, gradient y = .ok d ∧ d.size = start.size) →
    ∃ x slope, minimizer f gradient start = .ok (x, slope) ∧ x.size = start.size

theorem Minimizer.Answers.serves {minimizer : Minimizer α} (hanswers : minimizer.Answers)
    (hsize : minimizer.KeepsSize) : minimizer.Serves := by
  intro f gradient start h
  obtain ⟨⟨x, slope⟩, hfound⟩ := hanswers f gradient start fun y hy =>
    ⟨(h y hy).1, (h y hy).2.imp fun _ hd => hd.1⟩
  exact ⟨x, slope, hfound, hsize f gradient start x slope hfound⟩

end Minimizers

section Point

variable {problem : Problem α} {minimizer : Minimizer α} {settings : Settings α} {start : Vec α}
  {interrupt : Snapshot α → Bool}

omit [Scalar α] in
def Advance.progress : Advance α → Progress α
  | .broken p => p
  | .moved p _ => p

/-- What holds of the point of a state and of every finite point that the
minimizer finds from there holds of the point that an iteration comes to. -/
theorem point_of_advance {P : Vec α → Prop} {p : Progress α} {a : Advance α} (hp : P p.point)
    (hfound : ∀ f gradient x slope, minimizer f gradient p.point = .ok (x, slope) →
      x.isFinite = true → P x)
    (h : advance minimizer settings p = .ok a) : P a.progress.point := by
  obtain ⟨x, slope, hx, ⟨-, rfl⟩ | ⟨hfinite, objective, violation, -, -, ⟨-, rfl⟩ |
    ⟨-, updated, snapshot, -, -, rfl⟩⟩⟩ := advance_cases h
  · exact hp
  · exact hfound _ _ _ _ hx hfinite
  · exact hfound _ _ _ _ hx hfinite

/-- The solution is the start, the point of a visited state, or the point that
an iteration from there comes to. -/
theorem solution_of_visits {P : Vec α → Prop} {outcome : Outcome α} (hstart : P start)
    (hvisited : ∀ q, problem.Visits minimizer settings start interrupt q → P q.point)
    (hadvanced : ∀ q a, problem.Visits minimizer settings start interrupt q →
      advance minimizer settings q = .ok a → P a.progress.point)
    (h : problem.optimize minimizer settings start interrupt = .ok outcome) :
    P outcome.solution := by
  obtain ⟨status, last, rfl, ⟨-, hopens, -⟩ | ⟨-, hvisits, -⟩ | ⟨q, hvisits, -, hstop⟩⟩ :=
    optimize_cases h
  · obtain ⟨_, _, -, -, rfl⟩ := hopens
    exact hstart
  · exact hvisited _ hvisits
  · obtain ⟨-, hbroken⟩ | ⟨q', snapshot, hmoved, ⟨-, rfl, -⟩ | ⟨-, rfl, -⟩ | ⟨-, rfl, -⟩⟩ :=
      iterate_stop hstop
    · exact hadvanced _ _ hvisits hbroken
    · exact hadvanced _ _ hvisits hmoved
    · exact hadvanced _ _ hvisits hmoved
    · exact hadvanced _ _ hvisits hmoved

variable {P : Vec α → Prop}
  (hfound : ∀ f gradient s x slope, P s → minimizer f gradient s = .ok (x, slope) →
    x.isFinite = true → P x)

include hfound

theorem Problem.Visits.point {p : Progress α} (hstart : P start)
    (h : problem.Visits minimizer settings start interrupt p) : P p.point := by
  induction h with
  | opening hopens _ =>
      obtain ⟨_, _, -, -, rfl⟩ := hopens
      exact hstart
  | proceed _ hiterate ih =>
      obtain ⟨q, snapshot, hadvance, -, rfl⟩ := iterate_proceed hiterate
      exact point_of_advance (P := P) ih (fun f gradient x slope => hfound f gradient _ x slope ih)
        hadvance

/-- What holds of the start and is kept by the minimizer holds of the
solution, however the solve ends. -/
theorem solution_of_optimize {outcome : Outcome α} (hstart : P start)
    (h : problem.optimize minimizer settings start interrupt = .ok outcome) :
    P outcome.solution := by
  apply solution_of_visits hstart (fun q hvisits => hvisits.point hfound hstart) _ h
  intro q a hvisits hadvance
  have hq := hvisits.point hfound hstart
  exact point_of_advance hq (fun f gradient x slope => hfound f gradient _ x slope hq) hadvance

omit hfound

/-- The solution has the dimension of the start. -/
theorem size_of_optimize (hsize : minimizer.KeepsSize) {outcome : Outcome α}
    (h : problem.optimize minimizer settings start interrupt = .ok outcome) :
    outcome.solution.size = start.size :=
  solution_of_optimize (P := fun x => x.size = start.size)
    (fun _ _ _ _ _ hs hx _ => (hsize _ _ _ _ _ hx).trans hs) rfl h

theorem isFinite_start_of_optimize {outcome : Outcome α}
    (h : problem.optimize minimizer settings start interrupt = .ok outcome) :
    start.isFinite = true := by
  by_contra hinfinite
  rw [Bool.not_eq_true] at hinfinite
  simp only [Problem.optimize, hinfinite, Bool.not_false, if_true] at h
  split at h
  · obtain ⟨_, hthrow, -⟩ := bind_eq_ok.mp h
    exact throw_ne_ok hthrow
  · cases h

/-- The solution is finite, whatever the minimizer returns. -/
theorem isFinite_of_optimize {outcome : Outcome α}
    (h : problem.optimize minimizer settings start interrupt = .ok outcome) :
    outcome.solution.isFinite = true :=
  solution_of_optimize (P := fun x => x.isFinite = true) (fun _ _ _ _ _ _ _ hx => hx)
    (isFinite_start_of_optimize h) h

end Point

section Values

/-- Objective and residuals have values at all points of a dimension, and no
gradient is known. -/
structure Problem.Evaluates (problem : Problem α) (n : Nat) : Prop where
  objective : ∀ y, y.size = n → ∃ v, problem.objective y = .ok v
  residual : ∀ c ∈ problem.constraints, ∀ y, y.size = n → ∃ r, c.residual y = .ok r
  gradient : problem.gradient = none
  gradients : ∀ c ∈ problem.constraints, c.gradient = none

/-- Objective and residuals have values at all points of a dimension, and so
do the gradients that are known, which have the same dimension. -/
structure Problem.Responds (problem : Problem α) (n : Nat) : Prop where
  objective : ∀ y, y.size = n → ∃ v, problem.objective y = .ok v
  residual : ∀ c ∈ problem.constraints, ∀ y, y.size = n → ∃ r, c.residual y = .ok r
  gradient : ∀ known ∈ problem.gradient, ∀ y, y.size = n → ∃ d, known y = .ok d ∧ d.size = n
  gradients : ∀ c ∈ problem.constraints, ∀ known ∈ c.gradient, ∀ y, y.size = n →
    ∃ d, known y = .ok d ∧ d.size = n

structure Constraint.Responds (c : Constraint α) (n : Nat) : Prop where
  residual : ∀ y, y.size = n → ∃ r, c.residual y = .ok r
  gradient : ∀ known ∈ c.gradient, ∀ y, y.size = n → ∃ d, known y = .ok d ∧ d.size = n

omit [Scalar α] in
theorem Problem.Evaluates.responds {problem : Problem α} {n : Nat} (h : problem.Evaluates n) :
    problem.Responds n where
  objective := h.objective
  residual := h.residual
  gradient known hknown := by
    rw [h.gradient] at hknown
    cases hknown
  gradients c hc known hknown := by
    rw [h.gradients c hc] at hknown
    cases hknown

omit [Scalar α] in
theorem Problem.Responds.residuals {problem : Problem α} {n : Nat} (h : problem.Responds n)
    {y : Vec α} (hy : y.size = n) : ∃ r, problem.residuals y = .ok r :=
  Problem.residuals_succeed fun c hc => h.residual c hc y hy

/-- The value can be computed, as long as nothing is divided by a vanishing penalty. -/
theorem Lagrangian.value_returns {L : Lagrangian α} {n : Nat} (h : L.problem.Responds n)
    (hpenalty : Scalar.same (2.0 * L.penalty) 0 = false) {y : Vec α} (hy : y.size = n) :
    ∃ v, L.value y = .ok v := by
  obtain ⟨objective, hobjective⟩ := h.objective y hy
  obtain ⟨r, hr⟩ := h.residuals hy
  have hcombine : ∃ v, L.combine (L.problem.weight * objective) r = .ok v := by
    simp only [Lagrangian.combine, inequalityTerm, hpenalty, Bool.false_eq_true, if_false]
    cases r.inequalities.isEmpty with
    | true => exact ⟨_, rfl⟩
    | false => exact ⟨_, rfl⟩
  obtain ⟨v, hv⟩ := hcombine
  refine ⟨v, ?_⟩
  simp only [Lagrangian.value, bind_eq_ok]
  exact ⟨objective, hobjective, r, hr, hv⟩

/-- Difference quotients have values where the function has them, as long as
no step vanishes. -/
theorem numericalGradient_returns {f : Vec α → Except Fault α} {step : α}
    (hstep : ∀ x, Scalar.same (2.0 * differenceStep step x) 0 = false) {point : Vec α}
    (hf : ∀ y, y.size = point.size → ∃ v, f y = .ok v) :
    ∃ d, numericalGradient f step point = .ok d ∧ d.size = point.size := by
  obtain ⟨slopes, hslopes⟩ : ∃ slopes, point.toList.zipIdx.mapM
      (fun entry => partialDifference f step point entry.2 entry.1) = .ok slopes := by
    apply mapM_succeeds
    rintro ⟨x, i⟩ -
    have hset (z : α) : ∃ v, f (point.set i z) = .ok v :=
      hf _ (by simp [Vec.set, Vec.size])
    obtain ⟨forward, hforward⟩ := hset (x + differenceStep step x)
    obtain ⟨backward, hbackward⟩ := hset (x - differenceStep step x)
    refine ⟨(forward - backward) / (2.0 * differenceStep step x), ?_⟩
    simp only [partialDifference, bind_eq_ok]
    refine ⟨forward, hforward, backward, hbackward, ?_⟩
    simp only [hstep, Bool.false_and, Bool.false_eq_true, if_false]
    rfl
  have hlength := (mapM_eq_ok.mp hslopes).length_eq
  rw [List.length_zipIdx] at hlength
  refine ⟨⟨slopes⟩, ?_, hlength.symm⟩
  rw [numericalGradient_eq, hslopes]
  rfl

namespace Lagrangian

section Known

variable (penalty : α) {x : Vec α} {n : Nat} {group : List (Constraint α × α)}
  (h : ∀ e ∈ group, (∃ r, e.1.residual x = .ok r) ∧
    ∃ d, knownGradient e.1 x = .ok d ∧ d.size = n)

theorem addScaled_returns {v w : Vec α} (hv : v.size = n) (hw : w.size = n) (weight : α) :
    ∃ u, addScaled v weight w = .ok u ∧ u.size = n := by
  refine ⟨_, addScaled_eq (hv.trans hw.symm) weight, ?_⟩
  unfold Vec.size at *
  rw [List.length_zipWith, hv, hw, Nat.min_self]

include h

theorem addEqualities_returns {v : Vec α} (hv : v.size = n) :
    ∃ d, addEqualities penalty x v group = .ok d ∧ d.size = n := by
  induction group generalizing v with
  | nil => exact ⟨v, rfl, hv⟩
  | cons e group ih =>
      obtain ⟨⟨⟨r, hr⟩, d, hd, hsize⟩, hrest⟩ := List.forall_mem_cons.mp h
      obtain ⟨u, hu, husize⟩ :=
        addScaled_returns hv hsize (equalityShift penalty e.2 r)
      simp only [addEqualities, hr, hd, hu, bind, Except.bind]
      exact ih hrest husize

theorem addInequalities_returns {v : Vec α} (hv : v.size = n) :
    ∃ d, addInequalities penalty x v group = .ok d ∧ d.size = n := by
  induction group generalizing v with
  | nil => exact ⟨v, rfl, hv⟩
  | cons e group ih =>
      obtain ⟨⟨⟨r, hr⟩, d, hd, hsize⟩, hrest⟩ := List.forall_mem_cons.mp h
      obtain ⟨u, hu, husize⟩ :=
        addScaled_returns hv hsize (Scalar.larger 0 (e.2 + penalty * r))
      simp only [addInequalities, hr, hd, hu, bind, Except.bind]
      split
      · exact ih hrest husize
      · exact ih hrest hv

end Known

/-- The analytic gradient exists where its parts do. -/
theorem analyticGradient_of_known {L : Lagrangian α} {n : Nat} {y : Vec α}
    (h : ∀ c ∈ L.problem.constraints,
      (∃ r, c.residual y = .ok r) ∧ ∃ d, knownGradient c y = .ok d ∧ d.size = n)
    {known : Vec α → Except Fault (Vec α)} {own : Vec α} (hown : known y = .ok own)
    (hsize : own.size = n) :
    ∃ d, L.analyticGradient known y = .ok d ∧ d.size = n := by
  have hscaled : (⟨own.toList.map fun d => L.problem.weight * d⟩ : Vec α).size = n := by
    simpa [Vec.size] using hsize
  have hequalities : ∀ e ∈ L.problem.parts.equalities.zip L.multipliers.equalities,
      (∃ r, e.1.residual y = .ok r) ∧ ∃ d, knownGradient e.1 y = .ok d ∧ d.size = n :=
    fun e he => h e.1 (List.mem_of_mem_filter (List.of_mem_zip he).1)
  have hinequalities : ∀ e ∈ L.problem.parts.inequalities.zip L.multipliers.inequalities,
      (∃ r, e.1.residual y = .ok r) ∧ ∃ d, knownGradient e.1 y = .ok d ∧ d.size = n :=
    fun e he => h e.1 (List.mem_of_mem_filter (List.of_mem_zip he).1)
  obtain ⟨u, hu, husize⟩ := addEqualities_returns L.penalty hequalities hscaled
  obtain ⟨w, hw, hwsize⟩ := addInequalities_returns L.penalty hinequalities husize
  refine ⟨w, ?_, hwsize⟩
  simp only [analyticGradient, bind_eq_ok]
  exact ⟨own, hown, u, hu, hw⟩

theorem analyticGradient_of_own {L : Lagrangian α} {n : Nat}
    (h : ∀ c ∈ L.problem.constraints, c.Responds n) (hanalytic : L.problem.isAnalytic = true)
    {known : Vec α → Except Fault (Vec α)} {y own : Vec α} (hy : y.size = n)
    (hown : known y = .ok own) (hsize : own.size = n) :
    ∃ d, L.analyticGradient known y = .ok d ∧ d.size = n := by
  refine analyticGradient_of_known (fun c hc => ⟨(h c hc).residual y hy, ?_⟩) hown hsize
  obtain ⟨-, hall⟩ := Bool.and_eq_true_iff.mp hanalytic
  obtain ⟨gradient, hgradient⟩ := Option.isSome_iff_exists.mp (List.all_eq_true.mp hall c hc)
  obtain ⟨d, hd, hdsize⟩ := (h c hc).gradient gradient hgradient y hy
  refine ⟨d, ?_, hdsize⟩
  simp only [knownGradient, hgradient]
  exact hd

theorem analyticGradient_returns {L : Lagrangian α} {n : Nat} (h : L.problem.Responds n)
    {known : Vec α → Except Fault (Vec α)} (hknown : known ∈ L.problem.gradient)
    (hanalytic : L.problem.isAnalytic = true) {y : Vec α} (hy : y.size = n) :
    ∃ d, L.analyticGradient known y = .ok d ∧ d.size = n := by
  obtain ⟨own, hown, hsize⟩ := h.gradient known hknown y hy
  have hconstraints : ∀ c ∈ L.problem.constraints, c.Responds n :=
    fun c hc => ⟨h.residual c hc, h.gradients c hc⟩
  exact analyticGradient_of_own hconstraints hanalytic hy hown hsize

/-- Known gradients and differences both have the dimension of the point. -/
theorem gradient_returns {L : Lagrangian α} {n : Nat} (h : L.problem.Responds n)
    (hpenalty : Scalar.same (2.0 * L.penalty) 0 = false)
    (hstep : ∀ x, Scalar.same (2.0 * differenceStep L.step x) 0 = false) {y : Vec α}
    (hy : y.size = n) : ∃ d, L.gradient y = .ok d ∧ d.size = n := by
  have hnumerical : ∃ d, numericalGradient L.value L.step y = .ok d ∧ d.size = n := by
    rw [← hy]
    exact numericalGradient_returns hstep fun z hz => value_returns h hpenalty (hz.trans hy)
  unfold Lagrangian.gradient
  split
  · next known hknown =>
      split
      · next hanalytic => exact analyticGradient_returns h hknown hanalytic hy
      · exact hnumerical
  · exact hnumerical

end Lagrangian

theorem Constraint.gradientAt_returns {c : Constraint α} {step : α} {x : Vec α}
    (hstep : ∀ z, Scalar.same (2.0 * differenceStep step z) 0 = false)
    (hresidual : ∀ y, y.size = x.size → ∃ r, c.residual y = .ok r)
    (hgradient : ∀ known ∈ c.gradient, ∃ d, known x = .ok d) :
    ∃ d, c.gradientAt step x = .ok d := by
  unfold Constraint.gradientAt
  split
  · next known hknown => exact hgradient known hknown
  · exact (numericalGradient_returns hstep hresidual).imp fun _ hd => hd.1

theorem hasDegenerateViolation_returns {step : α} (tolerance minDerivative : α) {x : Vec α}
    {cs : List (Constraint α)}
    (hresidual : ∀ c ∈ cs, ∃ r, c.residual x = .ok r)
    (hgradient : ∀ c ∈ cs, ∃ d, c.gradientAt step x = .ok d) :
    ∃ b, Lagrangian.hasDegenerateViolation step tolerance minDerivative x cs = .ok b := by
  induction cs with
  | nil => exact ⟨false, rfl⟩
  | cons c cs ih =>
      obtain ⟨⟨r, hr⟩, hresiduals⟩ := List.forall_mem_cons.mp hresidual
      obtain ⟨⟨d, hd⟩, hgradients⟩ := List.forall_mem_cons.mp hgradient
      obtain ⟨b, hb⟩ := ih hresiduals hgradients
      have hviolation : c.violation x = .ok (c.relation.violation r) :=
        bind_eq_ok.mpr ⟨r, hr, rfl⟩
      unfold Lagrangian.hasDegenerateViolation
      rw [hviolation]
      simp only [bind, Except.bind]
      split
      · exact ⟨b, hb⟩
      · rw [hd]
        dsimp only
        split
        · exact ⟨true, rfl⟩
        · exact ⟨b, hb⟩

end Values

section Solve

variable {problem : Problem α} {minimizer : Minimizer α} {settings : Settings α} {start : Vec α}
  {interrupt : Snapshot α → Bool}

theorem Problem.Visits.step_eq {p : Progress α}
    (h : problem.Visits minimizer settings start interrupt p) :
    p.lagrangian.step = settings.differenceStep := by
  induction h with
  | opening hopens _ =>
      obtain ⟨_, _, -, -, rfl⟩ := hopens
      rfl
  | proceed _ hiterate ih =>
      obtain ⟨q, snapshot, hadvance, -, rfl⟩ := iterate_proceed hiterate
      obtain ⟨slope, hmoves⟩ := advance_moved hadvance
      obtain ⟨r, -, hupdated⟩ := Lagrangian.updateMultipliers_eq_ok.mp hmoves.updated
      have hstep : q.lagrangian.step = _ := congrArg Lagrangian.step hupdated.symm
      exact hstep.trans ih

/-- An iteration gets past its measurements and keeps the dimension of the point. -/
theorem advance_returns (settings : Settings α) (hserves : minimizer.Serves) {p : Progress α}
    (hproblem : p.lagrangian.problem.Responds p.point.size)
    (hpenalty : Scalar.same (2.0 * p.lagrangian.penalty) 0 = false)
    (hstep : ∀ x, Scalar.same (2.0 * differenceStep p.lagrangian.step x) 0 = false) :
    ∃ a, advance minimizer settings p = .ok a ∧ a.progress.point.size = p.point.size := by
  -- The minimizer is asked only about points of the dimension it starts from.
  obtain ⟨x, slope, hfound, hx⟩ := hserves p.lagrangian.value p.lagrangian.gradient p.point
    fun y hy => ⟨Lagrangian.value_returns hproblem hpenalty hy,
      Lagrangian.gradient_returns hproblem hpenalty hstep hy⟩
  obtain ⟨objective, hobjective⟩ := hproblem.objective x hx
  obtain ⟨r, hr⟩ := hproblem.residuals hx
  have hviolation := Lagrangian.maxViolation_eq_ok.mpr ⟨r, hr, rfl⟩
  have hupdated := Lagrangian.updateMultipliers_eq_ok.mpr ⟨r, hr, rfl⟩
  simp only [advance, hfound, hobjective, hviolation, hupdated, bind, Except.bind]
  split
  · exact ⟨_, rfl, rfl⟩
  · split
    · exact ⟨_, rfl, hx⟩
    · exact ⟨_, rfl, hx⟩

theorem judge_returns {p : Progress α} {snapshot : Snapshot α}
    (hproblem : p.lagrangian.problem.Responds p.point.size)
    (hstep : ∀ x, Scalar.same (2.0 * differenceStep p.lagrangian.step x) 0 = false) :
    ∃ verdict, judge settings interrupt p snapshot = .ok verdict := by
  have hgradient : ∀ c ∈ p.lagrangian.problem.constraints,
      ∃ d, c.gradientAt p.lagrangian.step p.point = .ok d := by
    intro c hc
    apply Constraint.gradientAt_returns hstep (hproblem.residual c hc)
    intro known hknown
    obtain ⟨d, hd, -⟩ := hproblem.gradients c hc known hknown p.point rfl
    exact ⟨d, hd⟩
  obtain ⟨degenerate, hdegenerate⟩ := hasDegenerateViolation_returns settings.constraintTolerance
    settings.minDerivative (fun c hc => hproblem.residual c hc p.point rfl) hgradient
  simp only [judge, hdegenerate, bind, Except.bind]
  split
  · split
    · exact ⟨_, rfl⟩
    · exact ⟨_, rfl⟩
  · cases degenerate with
    | true => exact ⟨_, rfl⟩
    | false => exact ⟨_, rfl⟩

/-- A run returns if every iteration from a visited state does. -/
theorem run_returns
    (hiterate : ∀ q, problem.Visits minimizer settings start interrupt q →
      ∃ verdict, iterate minimizer settings interrupt q = .ok verdict)
    {p : Progress α} (hvisits : problem.Visits minimizer settings start interrupt p)
    (budget : Nat) : ∃ result, run minimizer settings interrupt budget p = .ok result := by
  induction budget generalizing p with
  | zero => exact ⟨_, rfl⟩
  | succ budget ih =>
      obtain ⟨verdict, hverdict⟩ := hiterate p hvisits
      simp only [run, hverdict, bind, Except.bind]
      cases verdict with
      | proceed q => exact ih (hvisits.proceed hverdict)
      | stop status q => exact ⟨_, rfl⟩

/-- Settings with which nothing that a solve divides by vanishes: no penalty
and no step of a difference quotient. -/
structure Settings.Steady (settings : Settings α) : Prop where
  initialPenalty : Scalar.less 0 settings.initialPenalty = true
  raised : ∀ penalty, Scalar.less 0 penalty = true → Scalar.less 0 (settings.raised penalty) = true
  penalty : ∀ penalty : α, Scalar.less 0 penalty = true → Scalar.same (2.0 * penalty) 0 = false
  differenceStep :
    ∀ x, Scalar.same (2.0 * Optima.differenceStep settings.differenceStep x) 0 = false

variable (hsettings : settings.Steady) (hserves : minimizer.Serves)
  (hproblem : problem.Responds start.size)

include hsettings hserves hproblem

/-- From a visited state of the dimension of the start an iteration advances
to a state of this dimension, and the steps do not vanish there either. -/
theorem Problem.Visits.advance_returns {p : Progress α}
    (hvisits : problem.Visits minimizer settings start interrupt p)
    (hpoint : p.point.size = start.size) :
    (∃ a, advance minimizer settings p = .ok a ∧ a.progress.point.size = start.size) ∧
      ∀ x, Scalar.same (2.0 * differenceStep p.lagrangian.step x) 0 = false := by
  have hpenalty : Scalar.same (2.0 * p.lagrangian.penalty) 0 = false := by
    apply hsettings.penalty
    exact hvisits.penalty (P := fun penalty => Scalar.less 0 penalty = true)
      hsettings.initialPenalty hsettings.raised
  have hstep (x : α) : Scalar.same (2.0 * differenceStep p.lagrangian.step x) 0 = false := by
    rw [hvisits.step_eq]
    exact hsettings.differenceStep x
  have hresponds : p.lagrangian.problem.Responds p.point.size := by
    rw [hvisits.measured.1.problem_eq, hpoint]
    exact hproblem
  refine ⟨?_, hstep⟩
  rw [← hpoint]
  exact Optima.advance_returns settings hserves hresponds hpenalty hstep

theorem Problem.Visits.size_eq {p : Progress α}
    (h : problem.Visits minimizer settings start interrupt p) : p.point.size = start.size := by
  induction h with
  | opening hopens _ =>
      obtain ⟨_, _, -, -, rfl⟩ := hopens
      rfl
  | proceed hvisits hiterate ih =>
      obtain ⟨q, snapshot, hadvance, -, rfl⟩ := iterate_proceed hiterate
      obtain ⟨⟨a, ha, hsize⟩, -⟩ := hvisits.advance_returns hsettings hserves hproblem ih
      rw [hadvance] at ha
      cases ha
      exact hsize

theorem iterate_returns {p : Progress α}
    (hvisits : problem.Visits minimizer settings start interrupt p) :
    ∃ verdict, iterate minimizer settings interrupt p = .ok verdict := by
  have hpoint := hvisits.size_eq hsettings hserves hproblem
  obtain ⟨⟨a, ha, hsize⟩, hstep⟩ := hvisits.advance_returns hsettings hserves hproblem hpoint
  simp only [iterate, ha, bind, Except.bind]
  cases a with
  | broken q => exact ⟨_, rfl⟩
  | moved q snapshot =>
      obtain ⟨slope, hmoves⟩ := advance_moved ha
      obtain ⟨r, -, hupdated⟩ := Lagrangian.updateMultipliers_eq_ok.mp hmoves.updated
      -- Moving the multipliers changes neither the problem nor the step.
      have hsame : q.point.size = start.size := hsize
      apply judge_returns
      · rw [← hupdated, hsame]
        change p.lagrangian.problem.Responds start.size
        rw [hvisits.measured.1.problem_eq]
        exact hproblem
      · rw [← hupdated]
        exact hstep

/-- A solve ends with an outcome: every iteration gives a verdict and the budget is finite. -/
theorem solve_returns :
    ∃ outcome, problem.solve minimizer settings start interrupt = .ok outcome := by
  obtain ⟨objective, hobjective⟩ := hproblem.objective start rfl
  obtain ⟨r, hr⟩ := hproblem.residuals (y := start) rfl
  have hviolation :
      (Lagrangian.start problem settings.differenceStep settings.initialPenalty).maxViolation
        start = .ok r.worst :=
    Lagrangian.maxViolation_eq_ok.mpr ⟨r, hr, rfl⟩
  have hopens : problem.Opens settings start
      { lagrangian := Lagrangian.start problem settings.differenceStep settings.initialPenalty,
        point := start, objective, violation := r.worst } :=
    ⟨objective, r.worst, hobjective, hviolation, rfl⟩
  simp only [Problem.solve, hobjective, hviolation, bind, Except.bind]
  cases hfinite : Scalar.isFinite objective with
  | false => exact ⟨_, rfl⟩
  | true =>
      obtain ⟨result, hrun⟩ := run_returns
        (fun q hq => iterate_returns hsettings hserves hproblem hq)
        (.opening hopens hfinite) settings.maxIterations
      rw [hrun]
      exact ⟨_, rfl⟩

/-- A solve from a finite start with components returns. -/
theorem optimize_responds (hstart : start.toList.isEmpty = false)
    (hfinite : start.isFinite = true) :
    ∃ outcome, problem.optimize minimizer settings start interrupt = .ok outcome := by
  simp only [Problem.optimize, hstart, hfinite, Bool.not_true, Bool.false_eq_true, if_false]
  exact solve_returns hsettings hserves hproblem

/-- The solution has the dimension of the start, however the solve ends. -/
theorem size_of_responds {outcome : Outcome α}
    (h : problem.optimize minimizer settings start interrupt = .ok outcome) :
    outcome.solution.size = start.size := by
  apply solution_of_visits (P := fun x => x.size = start.size) rfl
    (fun q hvisits => hvisits.size_eq hsettings hserves hproblem) _ h
  intro q a hvisits hadvance
  have hpoint := hvisits.size_eq hsettings hserves hproblem
  obtain ⟨⟨b, hb, hsize⟩, -⟩ := hvisits.advance_returns hsettings hserves hproblem hpoint
  rw [hadvance] at hb
  cases hb
  exact hsize

end Solve

section Exact

variable {problem : Problem ℝ} {minimizer : Minimizer ℝ} {settings : Settings ℝ} {start : Vec ℝ}
  {interrupt : Snapshot ℝ → Bool}

theorem Exact.double_ne_zero {x : ℝ} (h : 0 < x) : Scalar.same (2.0 * x) 0 = false := by
  rw [← Bool.not_eq_true, Exact.same_iff]
  exact mul_ne_zero (by norm_num) h.ne'

theorem Exact.differenceStep_pos {step : ℝ} (h : 0 < step) (x : ℝ) : 0 < differenceStep step x := by
  unfold differenceStep
  rw [Exact.larger_eq]
  exact mul_pos h (zero_lt_one.trans_le (le_max_left _ _))

theorem Settings.Accepted.steady (h : settings.Accepted) : settings.Steady where
  initialPenalty := (Exact.less_iff _ _).mpr h.initialPenalty
  raised penalty hpenalty := by
    rw [Exact.less_iff] at hpenalty ⊢
    exact h.raised_pos hpenalty
  penalty penalty hpenalty := Exact.double_ne_zero ((Exact.less_iff _ _).mp hpenalty)
  differenceStep x := Exact.double_ne_zero (Exact.differenceStep_pos h.differenceStep x)

/-- In exact arithmetic a solve from a start with components returns. -/
theorem optimize_returns (hsettings : settings.Accepted) (hsize : minimizer.KeepsSize)
    (hanswers : minimizer.Answers) (hproblem : problem.Evaluates start.size)
    (hstart : start.toList.isEmpty = false) :
    ∃ outcome, problem.optimize minimizer settings start interrupt = .ok outcome :=
  optimize_responds hsettings.steady (hanswers.serves hsize) hproblem.responds hstart
    (List.all_eq_true.mpr fun _ _ => rfl)

end Exact

section Staying

def staying : Minimizer ℝ := fun _ gradient start => do
  return (start, ← gradient start)

theorem eq_of_staying {f : Vec ℝ → Except Fault ℝ} {gradient : Vec ℝ → Except Fault (Vec ℝ)}
    {start x slope : Vec ℝ} (h : staying f gradient start = .ok (x, slope)) : x = start := by
  simp only [staying, bind_eq_ok, pure_eq_ok, Prod.mk.injEq] at h
  obtain ⟨_, -, rfl, -⟩ := h
  rfl

theorem staying_keepsSize : staying.KeepsSize :=
  fun _ _ _ _ _ h => congrArg Vec.size (eq_of_staying h)

theorem solution_of_staying {problem : Problem ℝ} {settings : Settings ℝ} {start : Vec ℝ}
    {interrupt : Snapshot ℝ → Bool} {outcome : Outcome ℝ}
    (h : problem.optimize staying settings start interrupt = .ok outcome) :
    outcome.solution = start :=
  solution_of_optimize (P := fun x => x = start)
    (fun _ _ _ _ _ hs hx _ => (eq_of_staying hx).trans hs) rfl h

theorem staying_answers : staying.Answers := by
  intro f gradient start h
  obtain ⟨-, d, hd⟩ := h start rfl
  exact ⟨(start, d), bind_eq_ok.mpr ⟨d, hd, rfl⟩⟩

noncomputable def modestSettings : Settings ℝ where
  maxIterations := 1
  tolerance := 1
  constraintTolerance := 1
  gradientTolerance := 1
  maxInnerIterations := 1
  initialPenalty := 1
  penaltyIncrease := 1 + 1
  maxPenalty := 1
  minDerivative := 1
  differenceStep := 1
  recordHistory := false

theorem modestSettings_accepted : modestSettings.Accepted := by
  constructor <;> norm_num [modestSettings]

end Staying

end Optima
