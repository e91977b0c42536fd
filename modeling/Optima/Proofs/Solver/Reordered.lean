import Optima.Proofs.Minimizer.Confined
import Optima.Proofs.Solver.AugmentedGradient
import Optima.Proofs.Solver.History
import Optima.Proofs.Solver.Lockstep
import Optima.Proofs.Solver.Nesting
import Optima.Proofs.Solver.Slackness

/-!
The order of constraints. A Lagrangian that updates have led to gives each constraint a multiplier
that depends on this constraint and on the updates alone, so that reordered constraints carry their
multipliers along. In exact arithmetic everything else that a solve learns is a sum, a maximum or a
search over the constraints and their multipliers, in which the order is lost. So solves with
reordered constraints keep in step.
-/

namespace Optima

section Entries

variable {α : Type} [Scalar α]

/-- The multiplier of a constraint after a sequence of updates; zero if it has
a residual that cannot be computed. -/
def Constraint.carriedOver (steps : List (Step α)) (c : Constraint α) : α :=
  (c.multiplierAfter steps).toOption.getD 0

def Constraint.entryAfter (steps : List (Step α)) (x : Vec α) (c : Constraint α) : Entry α where
  constraint := c
  multiplier := c.carriedOver steps
  residual := (c.residual x).toOption.getD 0

namespace Problem.Reaches

variable {problem : Problem α} {steps : List (Step α)} {L : Lagrangian α} {x : Vec α}

/-- Every multiplier is a function of its own constraint and the updates. -/
theorem multipliersInOrder_eq (h : problem.Reaches steps L) :
    L.multipliersInOrder = problem.constraints.map (Constraint.carriedOver steps) := by
  have hmultipliers := h.multipliersInOrder
  generalize L.multipliersInOrder = multipliers at hmultipliers ⊢
  generalize problem.constraints = constraints at hmultipliers ⊢
  induction hmultipliers with
  | nil => rfl
  | cons hm _ ih =>
      rw [List.map_cons, ← ih, Constraint.carriedOver, hm]
      rfl

/-- The entries of a reached Lagrangian are determined by the constraints and
the updates. -/
theorem lists (h : problem.Reaches steps L) (hr : ∃ r, problem.residuals x = .ok r) :
    L.Lists x (problem.constraints.map (Constraint.entryAfter steps x)) := by
  obtain ⟨r, hr⟩ := hr
  rw [← h.problem_eq] at hr ⊢
  obtain ⟨entries, hlists⟩ := Lagrangian.exists_lists h.balanced hr
  have hmultipliers := h.multipliersInOrder
  rw [hlists.multipliersInOrder_eq, ← h.problem_eq, ← hlists.constraints,
    List.forall₂_map_left_iff, List.forall₂_map_right_iff, List.forall₂_same] at hmultipliers
  have hentry : ∀ e ∈ entries, e.constraint.entryAfter steps x = e := by
    rintro ⟨c, m, r⟩ he
    have hm : c.multiplierAfter steps = .ok m := hmultipliers _ he
    have hr : c.residual x = .ok r := hlists.residuals _ he
    simp only [Constraint.entryAfter, Constraint.carriedOver, hm, hr]
    rfl
  have hentries : entries.map (fun e => e.constraint.entryAfter steps x) = entries :=
    (List.map_congr_left hentry).trans (List.map_id entries)
  rw [← hlists.constraints, List.map_map, Function.comp_def, hentries]
  exact hlists

end Problem.Reaches

end Entries

/-- Two problems that differ in the order of their constraints. At points of
the dimension the constraints have residuals, and gradients that are known have
this dimension. -/
structure Problem.Rearranged (problem problem' : Problem ℝ) (n : Nat) : Prop where
  objective : problem'.objective = problem.objective
  gradient : problem'.gradient = problem.gradient
  weight : problem'.weight = problem.weight
  constraints : problem.constraints.Perm problem'.constraints
  responds : ∀ c ∈ problem.constraints, c.Responds n
  slope : ∀ known ∈ problem.gradient, ∀ y d, y.size = n → known y = .ok d → d.size = n

namespace Problem

open Lagrangian

section Reached

variable {problem : Problem ℝ} {steps : List (Step ℝ)} {L : Lagrangian ℝ} {x : Vec ℝ}

theorem Reaches.value_eq (h : problem.Reaches steps L) (hpenalty : L.penalty ≠ 0)
    (hr : ∃ r, problem.residuals x = .ok r) :
    L.value x =
      (fun f => problem.weight * f +
        (problem.constraints.map fun c => term L.penalty (c.entryAfter steps x)).sum) <$>
        problem.objective x := by
  have hproblem := h.problem_eq
  cases hobjective : problem.objective x with
  | error fault =>
      simp only [value, hproblem, hobjective]
      rfl
  | ok f =>
      rw [← hproblem] at hobjective
      rw [(h.lists hr).value_eq hpenalty hobjective, hproblem, List.map_map]
      rfl

omit problem steps x in
theorem gradient_of_unknown (h : L.problem.isAnalytic = false) :
    L.gradient = numericalGradient L.value L.step := by
  funext x
  unfold Lagrangian.gradient
  rw [h]
  split
  · rfl
  · rfl

/-- The gradient, if all gradients are known, as a point of Euclidean space. -/
theorem Reaches.analyticGradient_eq {n : ℕ} (h : problem.Reaches steps L)
    (hresponds : ∀ c ∈ problem.constraints, c.Responds n)
    {known : Vec ℝ → Except Fault (Vec ℝ)} (hknown : problem.gradient = some known)
    (hanalytic : problem.isAnalytic = true) (hx : x.size = n) {own : Vec ℝ}
    (hown : known x = .ok own) (hsize : own.size = n) :
    ∃ slope, L.gradient x = .ok slope ∧ slope.size = n ∧
      slope.toEuclid n = problem.weight • own.toEuclid n +
        (problem.constraints.map fun c =>
          shift L.penalty (c.entryAfter steps x) • c.slopeAt n x).sum := by
  have hproblem := h.problem_eq
  have hlists := h.lists (Problem.residuals_succeed fun c hc => (hresponds c hc).residual x hx)
  rw [← hproblem] at hresponds hknown hanalytic
  obtain ⟨slope, hslope, -⟩ := analyticGradient_of_own hresponds hanalytic hx hown hsize
  have hgradient : L.gradient x = .ok slope := by
    simp only [Lagrangian.gradient, hknown, hanalytic, if_true, hslope]
  have hmembers : ∀ e ∈ problem.constraints.map (Constraint.entryAfter steps x),
      ∀ g, knownGradient e.constraint x = .ok g → g.size = n := by
    intro e he g hg
    obtain ⟨c, hc, rfl⟩ := List.mem_map.mp he
    change knownGradient c x = .ok g at hg
    cases hgradient : c.gradient with
    | none =>
        simp only [knownGradient, hgradient] at hg
        cases hg
    | some gradient =>
        simp only [knownGradient, hgradient] at hg
        obtain ⟨d, hd, hdsize⟩ := (hresponds c (hproblem ▸ hc)).gradient gradient hgradient x hx
        rw [hg] at hd
        cases hd
        exact hdsize
  obtain ⟨own', hown', hslopesize, hpoint⟩ := hlists.gradient_eq hknown hanalytic
    (fun g hg => by rw [hown] at hg; cases hg; exact hsize) hmembers hgradient
  rw [hown] at hown'
  cases hown'
  refine ⟨slope, hgradient, hslopesize, ?_⟩
  rw [hpoint, hproblem, List.map_map]
  rfl

end Reached

namespace Rearranged

variable {problem problem' : Problem ℝ} {n : ℕ} (h : problem.Rearranged problem' n)
  {steps : List (Step ℝ)} {L L' : Lagrangian ℝ} (hL : problem.Reaches steps L)
  (hL' : problem'.Reaches steps L') {x : Vec ℝ} (hx : x.size = n)

include h

theorem responds' : ∀ c ∈ problem'.constraints, c.Responds n :=
  fun c hc => h.responds c (h.constraints.mem_iff.mpr hc)

theorem isAnalytic_eq : problem'.isAnalytic = problem.isAnalytic := by
  simp only [isAnalytic, h.gradient, h.constraints.all_eq]

include hx

theorem residuals : ∃ r, problem.residuals x = .ok r :=
  residuals_succeed fun c hc => (h.responds c hc).residual x hx

theorem residuals' : ∃ r, problem'.residuals x = .ok r :=
  residuals_succeed fun c hc => (h.responds' c hc).residual x hx

omit hx in
/-- The largest violation is the same. -/
theorem worst_eq {r r' : ByRelation ℝ} (hr : problem.residuals x = .ok r)
    (hr' : problem'.residuals x = .ok r') : r'.worst = r.worst := by
  obtain ⟨vs, hvs⟩ := Constraint.violations_of_residuals hr
  obtain ⟨vs', hvs'⟩ := Constraint.violations_of_residuals hr'
  have htops := worst_tops_violations hr (fun _ _ _ _ => Exact.defined _) hvs
  have htops' := worst_tops_violations hr' (fun _ _ _ _ => Exact.defined _) hvs'
  have hmem (v : ℝ) : v ∈ vs ↔ v ∈ vs' := by
    rw [mem_of_mapM hvs, mem_of_mapM hvs']
    simp only [h.constraints.mem_iff]
  have hmoved : Ranked.Tops r.worst (0 :: vs') := by
    refine ⟨htops.defined, ?_⟩
    have hranks := htops.isGreatest
    simp only [List.mem_cons, hmem] at hranks ⊢
    exact hranks
  exact (Exact.same_iff _ _).mp (htops'.same hmoved)

/-- A search for degenerate violations finds one in both orders or in neither. -/
theorem degenerate_eq {step : ℝ} (hstep : 0 < step) (tolerance minDerivative : ℝ) :
    hasDegenerateViolation step tolerance minDerivative x problem'.constraints =
      hasDegenerateViolation step tolerance minDerivative x problem.constraints := by
  have hsteps (z : ℝ) : Scalar.same (2.0 * differenceStep step z) 0 = false :=
    Exact.double_ne_zero (Exact.differenceStep_pos hstep z)
  -- The search stops at the first one that it finds. Only where every gradient
  -- can be computed does it not matter which ones it leaves out.
  have hfinds {cs : List (Constraint ℝ)} (hcs : ∀ c ∈ cs, c.Responds n) :
      ∃ found, hasDegenerateViolation step tolerance minDerivative x cs = .ok found := by
    apply hasDegenerateViolation_returns
    · exact fun c hc => (hcs c hc).residual x hx
    · intro c hc
      apply Constraint.gradientAt_returns hsteps
      · exact fun y hy => (hcs c hc).residual y (hy.trans hx)
      · intro known hknown
        obtain ⟨d, hd, -⟩ := (hcs c hc).gradient known hknown x hx
        exact ⟨d, hd⟩
  obtain ⟨found, hfound⟩ := hfinds h.responds
  obtain ⟨found', hfound'⟩ := hfinds h.responds'
  have hiff : found' = true ↔ found = true := by
    rw [hasDegenerateViolation_iff hfound, hasDegenerateViolation_iff hfound']
    simp only [h.constraints.mem_iff]
  rw [hfound, hfound', Bool.eq_iff_iff.mpr hiff]

omit hx

include hL hL'

/-- The augmented Lagrangian has the same values. -/
theorem value_eq (hpenalty : L.penalty ≠ 0) (hsame : L'.penalty = L.penalty) {x : Vec ℝ}
    (hx : x.size = n) : L'.value x = L.value x := by
  have hsum := (h.constraints.map fun c => term L.penalty (c.entryAfter steps x)).sum_eq
  rw [hL.value_eq hpenalty (h.residuals hx), hL'.value_eq (hsame ▸ hpenalty) (h.residuals' hx),
    hsame, h.weight, h.objective, hsum]

/-- The augmented Lagrangian has the same gradient. -/
theorem gradient_eq (hpenalty : L.penalty ≠ 0) (hsame : L'.penalty = L.penalty)
    (hstep : L'.step = L.step) (hx : x.size = n) : L'.gradient x = L.gradient x := by
  have hanalytic' := h.isAnalytic_eq
  cases hanalytic : problem.isAnalytic with
  | false =>
      rw [← hL'.problem_eq, hanalytic] at hanalytic'
      rw [← hL.problem_eq] at hanalytic
      rw [gradient_of_unknown hanalytic, gradient_of_unknown hanalytic', hstep]
      apply numericalGradient_congr
      exact fun y hy => h.value_eq hL hL' hpenalty hsame (hy.trans hx)
  | true =>
      rw [hanalytic] at hanalytic'
      obtain ⟨known, hknown⟩ := Option.isSome_iff_exists.mp (Bool.and_eq_true_iff.mp hanalytic).1
      have hknown' : problem'.gradient = some known := h.gradient.trans hknown
      cases hown : known x with
      | error fault =>
          simp only [Lagrangian.gradient, hL.problem_eq, hL'.problem_eq, hknown, hknown',
            hanalytic, hanalytic', if_true, analyticGradient, hown]
          rfl
      | ok own =>
          have hsize := h.slope known hknown x own hx hown
          obtain ⟨slope, hslope, hn, hpoint⟩ :=
            hL.analyticGradient_eq h.responds hknown hanalytic hx hown hsize
          obtain ⟨slope', hslope', hn', hpoint'⟩ :=
            hL'.analyticGradient_eq h.responds' hknown' hanalytic' hx hown hsize
          have hsum := (h.constraints.map fun c =>
            shift L.penalty (c.entryAfter steps x) • c.slopeAt n x).sum_eq
          rw [hsame, h.weight, ← hsum, ← hpoint] at hpoint'
          rw [hslope, hslope', Vec.eq_of_toEuclid hn' hn hpoint']

omit hL' in
theorem size_of_gradient (hx : x.size = n) {d : Vec ℝ} (hd : L.gradient x = .ok d) :
    d.size = n := by
  cases hanalytic : problem.isAnalytic with
  | false =>
      rw [gradient_of_unknown (hL.problem_eq ▸ hanalytic)] at hd
      exact (size_of_numericalGradient hd).trans hx
  | true =>
      obtain ⟨known, hknown⟩ := Option.isSome_iff_exists.mp (Bool.and_eq_true_iff.mp hanalytic).1
      have hgradient : L.analyticGradient known x = .ok d := by
        simpa only [Lagrangian.gradient, hL.problem_eq, hknown, hanalytic, if_true] using hd
      obtain ⟨own, hown, -⟩ := bind_eq_ok.mp hgradient
      obtain ⟨slope, hslope, hn, -⟩ := hL.analyticGradient_eq h.responds hknown hanalytic hx hown
        (h.slope known hknown x own hx hown)
      rw [hd] at hslope
      cases hslope
      exact hn

omit h hL hL'

structure Related (problem problem' : Problem ℝ) (step : ℝ) (L L' : Lagrangian ℝ) : Prop where
  reached : ∃ steps, problem.Reaches steps L ∧ problem'.Reaches steps L'
  penalty : L'.penalty = L.penalty
  penalty_pos : 0 < L.penalty
  step_eq : L.step = step
  step_eq' : L'.step = step

include h

theorem updated {step : ℝ} (hL : Related problem problem' step L L') (hx : x.size = n) :
    Agree (Related problem problem' step) (L.updateMultipliers x) (L'.updateMultipliers x) := by
  obtain ⟨⟨steps, hreached, hreached'⟩, hpenalty, hpos, rfl, hstep'⟩ := hL
  obtain ⟨r, hr⟩ := h.residuals hx
  obtain ⟨r', hr'⟩ := h.residuals' hx
  rw [← hreached.problem_eq] at hr
  rw [← hreached'.problem_eq] at hr'
  have hupdated := Lagrangian.updateMultipliers_eq_ok.mpr ⟨r, hr, rfl⟩
  have hupdated' := Lagrangian.updateMultipliers_eq_ok.mpr ⟨r', hr', rfl⟩
  have hsteps : steps ++ [⟨L'.penalty, x⟩] = steps ++ [⟨L.penalty, x⟩] := by rw [hpenalty]
  have hnext := hreached'.updated hupdated'
  rw [hsteps] at hnext
  rw [hupdated, hupdated']
  exact ⟨⟨_, hreached.updated hupdated, hnext⟩, hpenalty, hpos, rfl, hstep'⟩

theorem lockstep {minimizer : Minimizer ℝ} {settings : Settings ℝ} (hsettings : settings.Accepted)
    (hminimizer : minimizer.Confined n) :
    Lockstep minimizer settings id (fun x => x.size = n)
      (Related problem problem' settings.differenceStep) where
  unseen := unseen_id
  penalty := fun hL => hL.penalty
  raised := by
    rintro L L' ⟨⟨steps, hreached, hreached'⟩, -, hpos, hstep, hstep'⟩
    exact ⟨⟨steps, hreached.penalized _, hreached'.penalized _⟩, rfl, hsettings.raised_pos hpos,
      hstep, hstep'⟩
  found := by
    rintro L L' x ⟨⟨steps, hreached, hreached'⟩, hpenalty, hpos, hstep, hstep'⟩ hx
    apply hminimizer.congr hx
    · exact fun y hy => h.value_eq hreached hreached' hpos.ne' hpenalty hy
    · exact fun y hy =>
        h.gradient_eq hreached hreached' hpos.ne' hpenalty (hstep'.trans hstep.symm) hy
    · exact fun y d hy hd => h.size_of_gradient hreached hy hd
  kept := by
    rintro L L' x y slope ⟨⟨steps, hreached, -⟩, -⟩ hx hfound
    exact hminimizer.size_eq hx (fun y d hy hd => h.size_of_gradient hreached hy hd) hfound
  objective := by
    rintro L L' x ⟨⟨steps, hreached, hreached'⟩, -⟩ _
    rw [hreached.problem_eq, hreached'.problem_eq, h.objective, id_map]
  violation := by
    rintro L L' x ⟨⟨steps, hreached, hreached'⟩, -⟩ hx
    obtain ⟨r, hr⟩ := h.residuals hx
    obtain ⟨r', hr'⟩ := h.residuals' hx
    simp only [maxViolation, hreached.problem_eq, hreached'.problem_eq, hr, hr',
      bind, Except.bind, h.worst_eq hr hr']
  updated := fun hL hx => h.updated hL hx
  degenerate := by
    rintro L L' x ⟨⟨steps, hreached, hreached'⟩, -, -, hstep, hstep'⟩ hx
    rw [hreached.problem_eq, hreached'.problem_eq, hstep, hstep']
    exact h.degenerate_eq hx hsettings.differenceStep _ _

end Rearranged

end Problem

/-- What two solves report is the same, up to multipliers, which go with the
constraints: they are given by one function on the constraints, and stand in
the order of the constraints of each solve. -/
structure Outcome.Permutes (constraints constraints' : List (Constraint ℝ))
    (o o' : Outcome ℝ) : Prop where
  rest : o' = { o with multipliers := o'.multipliers }
  multipliers : ∃ multiplier : Constraint ℝ → ℝ,
    o.multipliers = constraints.map multiplier ∧ o'.multipliers = constraints'.map multiplier

/-- The order of the constraints decides nothing but the order of the multipliers. -/
theorem Problem.Rearranged.optimize_agree {problem problem' : Problem ℝ} {minimizer : Minimizer ℝ}
    {settings : Settings ℝ} {start : Vec ℝ} (h : problem.Rearranged problem' start.size)
    (hsettings : settings.Accepted) (hminimizer : minimizer.Confined start.size)
    (interrupt : Snapshot ℝ → Bool) :
    Agree (Outcome.Permutes problem.constraints problem'.constraints)
      (problem.optimize minimizer settings start interrupt)
      (problem'.optimize minimizer settings start interrupt) := by
  have hlockstep := h.lockstep hsettings hminimizer
  have hagree : Agree _ (problem.optimize minimizer settings start interrupt)
      (problem'.optimize minimizer settings start interrupt) :=
    hlockstep.optimize_agree (fun _ => rfl) rfl
      ⟨⟨[], .start _ _, .start _ _⟩, rfl, hsettings.initialPenalty, rfl, rfl⟩
  apply hagree.mono
  rintro o o' ⟨-, L, L', ⟨⟨steps, hreached, hreached'⟩, -⟩, hmultipliers, rfl⟩
  refine ⟨?_, Constraint.carriedOver steps, ?_, hreached'.multipliersInOrder_eq⟩
  · rw [Outcome.recast_id]
  · rw [hmultipliers, hreached.multipliersInOrder_eq]

/-- Neither the order nor the nesting of constraints matters. Two lists with
the same constraints among their leaves lead to the same fault or to the same
outcome, except that multipliers stand in the order of their constraints. -/
theorem constraint_order_and_nesting_do_not_matter {minimizer : Minimizer ℝ}
    {settings : Settings ℝ} (objective : Vec ℝ → Except Fault ℝ)
    {gradient : Option (Vec ℝ → Except Fault (Vec ℝ))} {start : Vec ℝ}
    {items items' : List (Nested (Item ℝ))} {constraints constraints' : List (Constraint ℝ)}
    (sense : Sense) (interrupt : Snapshot ℝ → Bool)
    (hsettings : settings.Accepted) (hminimizer : minimizer.Confined start.size)
    (hgradient : ∀ known ∈ gradient, ∀ y d, y.size = start.size → known y = .ok d →
      d.size = start.size)
    (hconstraints : ∀ c ∈ constraints, c.Responds start.size)
    (hitems : Nested.leavesOf items = constraints.map Item.decision)
    (hitems' : Nested.leavesOf items' = constraints'.map Item.decision)
    (hperm : constraints.Perm constraints') :
    Agree (Outcome.Permutes constraints constraints')
      (optimizeNested minimizer settings objective gradient start (.group items) sense interrupt)
      (optimizeNested minimizer settings objective gradient start (.group items') sense
        interrupt) := by
  have hrearranged : Problem.Rearranged
      { objective, gradient, constraints, weight := sense.sign }
      { objective, gradient, constraints := constraints', weight := sense.sign } start.size :=
    ⟨rfl, rfl, rfl, hperm, hconstraints, hgradient⟩
  rw [optimizeNested_group hitems, optimizeNested_group hitems']
  exact hrearranged.optimize_agree hsettings hminimizer interrupt

section Hillside

theorem hillsideMinimizer_confined : hillsideMinimizer.Confined 1 where
  congr _ _ hgradient _ := by
    have hfound (t : ℝ) : (if Scalar.less 0 t then ⟨[-0.25]⟩ else ⟨[1]⟩ : Vec ℝ).size = 1 := by
      split
      · rfl
      · rfl
    simp only [hillsideMinimizer, hgradient _ (hfound _)]
  size_eq _ _ h := by
    simp only [hillsideMinimizer, bind_eq_ok, pure_eq_ok, Prod.mk.injEq] at h
    obtain ⟨t, -, _, -, rfl, -⟩ := h
    split
    · rfl
    · rfl

theorem hillside_responds : ∀ c ∈ hillside.constraints, c.Responds 1 := by
  simp only [hillside, List.mem_cons, List.not_mem_nil, or_false, forall_eq_or_imp, forall_eq]
  refine ⟨⟨?_, ?_⟩, ?_, ?_⟩
  · intro y hy
    obtain ⟨t, rfl⟩ := Vec.exists_of_size_one hy
    exact ⟨t, rfl⟩
  · rintro known ⟨⟩ y _
    exact ⟨⟨[1]⟩, rfl, rfl⟩
  · intro y hy
    obtain ⟨t, rfl⟩ := Vec.exists_of_size_one hy
    exact ⟨-4.0 - t, rfl⟩
  · rintro known ⟨⟩ y _
    exact ⟨⟨[-1]⟩, rfl, rfl⟩

noncomputable def hillsideItems : List (Nested (Item ℝ)) :=
  [.leaf (.decision atMostZero), .leaf (.decision atLeastMinusFour)]

noncomputable def regroupedItems : List (Nested (Item ℝ)) :=
  [.group [.leaf (.decision atLeastMinusFour)], .group [], .leaf (.decision atMostZero)]

/-- In the other order, `hillside` has the same solution, and 7.5 is still the
multiplier of the inequality that it belongs to. -/
theorem hillside_regrouped :
    ∃ outcome : Outcome ℝ,
      optimizeNested hillsideMinimizer hillsideSettings hillside.objective hillside.gradient
          ⟨[0]⟩ (.group regroupedItems) .minimize (fun _ => false) = .ok outcome ∧
        outcome.status = .optimal ∧ outcome.solution = ⟨[-0.25]⟩ ∧ outcome.iterations = 2 ∧
        outcome.multipliers = [0, 7.5] := by
  have hitems : Nested.leavesOf hillsideItems = hillside.constraints.map Item.decision := rfl
  have hregrouped : Nested.leavesOf regroupedItems =
      [atLeastMinusFour, atMostZero].map Item.decision := rfl
  have hsolved : optimizeNested hillsideMinimizer hillsideSettings hillside.objective
      hillside.gradient ⟨[0]⟩ (.group hillsideItems) .minimize (fun _ => false) =
        .ok (hillsideEnd.outcome .optimal) := by
    rw [optimizeNested_group hitems]
    exact hillside_optimize
  have hslope : ∀ known ∈ hillside.gradient, ∀ y d, y.size = 1 → known y = .ok d → d.size = 1 := by
    rintro known ⟨⟩ y d - hd
    simp only [bind_eq_ok, pure_eq_ok] at hd
    obtain ⟨t, -, rfl⟩ := hd
    rfl
  have hagree : Agree (Outcome.Permutes hillside.constraints [atLeastMinusFour, atMostZero])
      (optimizeNested hillsideMinimizer hillsideSettings hillside.objective hillside.gradient
        ⟨[0]⟩ (.group hillsideItems) .minimize fun _ => false)
      (optimizeNested hillsideMinimizer hillsideSettings hillside.objective hillside.gradient
        ⟨[0]⟩ (.group regroupedItems) .minimize fun _ => false) :=
    constraint_order_and_nesting_do_not_matter hillside.objective .minimize (fun _ => false)
      hillside_accepted hillsideMinimizer_confined hslope hillside_responds hitems hregrouped
      (.swap _ _ _)
  rw [hsolved] at hagree
  obtain ⟨outcome, houtcome, hrest, multiplier, hleft, hright⟩ := hagree.of_ok
  simp only [hillside_multipliers, hillside, List.map_cons, List.map_nil, List.cons.injEq,
    and_true] at hleft
  obtain ⟨hseven, hzero⟩ := hleft
  refine ⟨outcome, houtcome, ?_, ?_, ?_, ?_⟩
  · rw [hrest]
    rfl
  · rw [hrest]
    rfl
  · rw [hrest]
    rfl
  · rw [hright, List.map_cons, List.map_cons, List.map_nil, ← hseven, ← hzero]

end Hillside

end Optima
