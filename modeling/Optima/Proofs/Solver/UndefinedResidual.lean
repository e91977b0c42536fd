import Optima.Proofs.Scalar.Numbers
import Optima.Proofs.Solver.Returns

/-!
What a solve makes of residuals that are undefined. The maximum over a group of residuals is
undefined as soon as one of them is, and then it loses against the zero that the violation starts
from. So an undefined residual takes its whole relation out of the measured violation: it neither
stops the solve nor lets the constraints beside it be seen. What an optimal outcome still satisfies
are the constraints of the relations without an undefined residual.
-/

namespace Optima

open Scalar Ranked

section Maxima

variable {α : Type} [Scalar α]

theorem isUndefined_iff {x : α} : isUndefined x = true ↔ ¬ Defined x := by
  simp [isUndefined, Defined]

theorem any_isUndefined_iff {members : List α} :
    members.any isUndefined = true ↔ ∃ v ∈ members, ¬ Defined v := by
  simp only [List.any_eq_true, isUndefined_iff]

variable [Ranked α]

theorem less_of_undefined {x y : α} (h : Defined x → ¬ Defined y) : less x y = false := by
  rw [← Bool.not_eq_true, less_iff]
  rintro ⟨hx, hy, -⟩
  exact h hx hy

theorem atMost_of_undefined {x : α} (h : ¬ Defined x) (y : α) : atMost x y = false := by
  rw [← Bool.not_eq_true, atMost_iff]
  rintro ⟨hx, -⟩
  exact h hx

/-- An undefined second number loses, which is how it gets lost. -/
theorem larger_of_undefined {y : α} (x : α) (h : ¬ Defined y) : larger x y = x := by
  unfold larger
  rw [less_of_undefined fun _ => h]
  rfl

theorem maximum_undefined {x y : α} (h : Defined x → ¬ Defined y) : ¬ Defined (maximum x y) := by
  unfold maximum
  by_cases hx : Defined x
  · have hless : less y x = false := less_of_undefined fun hy => absurd hy (h hx)
    have hkept : isUndefined x = false := by
      rw [← Bool.not_eq_true, isUndefined_iff, not_not]
      exact hx
    rw [hless, hkept]
    exact h hx
  · rw [isUndefined_iff.mpr hx, Bool.or_true]
    exact hx

/-- A maximum passes an undefined member on, wherever it stands. -/
theorem foldl_maximum_undefined {first : α} {rest : List α}
    (h : ∃ v ∈ first :: rest, ¬ Defined v) : ¬ Defined (rest.foldl maximum first) := by
  induction rest generalizing first with
  | nil =>
      obtain ⟨v, hv, hundefined⟩ := h
      rw [List.mem_singleton.mp hv] at hundefined
      exact hundefined
  | cons second rest ih =>
      rw [List.foldl_cons]
      apply ih
      obtain ⟨v, hv, hundefined⟩ := h
      simp only [List.mem_cons] at hv
      rcases hv with rfl | rfl | hv
      · exact ⟨_, List.mem_cons_self, maximum_undefined fun hx => absurd hx hundefined⟩
      · exact ⟨_, List.mem_cons_self, maximum_undefined fun _ => hundefined⟩
      · exact ⟨v, List.mem_cons_of_mem _ hv, hundefined⟩

end Maxima

namespace ByRelation

section Counted

variable {α : Type} [Scalar α]

/-- The residuals that count in the measured violation. One undefined residual
takes all residuals of its relation out. -/
def counted (r : ByRelation α) : ByRelation α where
  equalities := if r.equalities.any isUndefined then [] else r.equalities
  inequalities := if r.inequalities.any isUndefined then [] else r.inequalities

theorem defined_of_counted {members : List α} {v : α}
    (hv : v ∈ if members.any isUndefined then [] else members) : Defined v := by
  split at hv
  · cases hv
  · next hany =>
      by_contra hundefined
      exact hany (any_isUndefined_iff.mpr ⟨v, hv, hundefined⟩)

theorem counted_of_defined {members : List α} (h : ∀ v ∈ members, Defined v) :
    (if members.any isUndefined then [] else members) = members := by
  apply if_neg
  rw [any_isUndefined_iff]
  rintro ⟨v, hv, hundefined⟩
  exact hundefined (h v hv)

/-- What a group of residuals makes of the violation so far. -/
def raised (base : α) (members : List α) : α :=
  match greatest? members with
  | some v => larger base v
  | none => base

theorem worst_eq_raised (r : ByRelation α) :
    r.worst = raised (raised 0 (r.equalities.map magnitude)) r.inequalities := rfl

theorem raised_of_undefined [Ranked α] (base : α) {members : List α}
    (h : ∃ v ∈ members, ¬ Defined v) : raised base members = base := by
  cases members with
  | nil =>
      obtain ⟨v, hv, -⟩ := h
      cases hv
  | cons first rest => exact larger_of_undefined base (foldl_maximum_undefined h)

end Counted

/-- The measured violation is the one of the residuals that count. -/
theorem worst_counted (r : ByRelation Float) : r.counted.worst = r.worst := by
  have hequalities (base : Float) : raised base (r.counted.equalities.map magnitude) =
      raised base (r.equalities.map magnitude) := by
    unfold counted
    cases hany : r.equalities.any isUndefined with
    | false => rfl
    | true =>
        obtain ⟨v, hv, hundefined⟩ := any_isUndefined_iff.mp hany
        rw [← Binary64.magnitude_defined_iff] at hundefined
        exact (raised_of_undefined base ⟨_, List.mem_map_of_mem hv, hundefined⟩).symm
  have hinequalities (base : Float) :
      raised base r.counted.inequalities = raised base r.inequalities := by
    unfold counted
    cases hany : r.inequalities.any isUndefined with
    | false => rfl
    | true => exact (raised_of_undefined base (any_isUndefined_iff.mp hany)).symm
  rw [worst_eq_raised, worst_eq_raised, hequalities, hinequalities]

/-- The measured violation is the greatest among what is counted, and zero. -/
theorem worst_tops_counted (r : ByRelation Float) :
    Tops r.worst (0 :: (r.counted.equalities.map magnitude ++ r.counted.inequalities)) := by
  rw [← worst_counted]
  apply worst_tops
  · intro v hv
    exact defined_of_counted hv
  · intro v hv
    exact defined_of_counted hv

end ByRelation

section Satisfaction

variable {problem : Problem Float} {x : Vec Float} {r : ByRelation Float} {tolerance : Float}

theorem Relation.violation_undefined {relation : Relation} {v : Float} (h : ¬ Defined v) :
    ¬ Defined (relation.violation v) := by
  cases relation with
  | equality =>
      change ¬ Defined (magnitude v)
      rwa [Binary64.magnitude_defined_iff]
  | inequality =>
      simp only [Relation.violation, larger]
      rw [less_of_undefined fun hv => absurd hv h]
      exact h

/-- Within the tolerance, a constraint is satisfied if no constraint of its
relation has an undefined residual. -/
theorem Problem.isSatisfied_of_relation (hr : problem.residuals x = .ok r)
    (hwithin : atMost r.worst tolerance = true) {c : Constraint Float}
    (hc : c ∈ problem.constraints)
    (hdefined : ∀ d ∈ problem.constraints, d.relation = c.relation →
      ∀ v, d.residual x = .ok v → Defined v) :
    c.isSatisfied tolerance x = .ok true := by
  obtain ⟨v, hv⟩ := residual_of_residuals hr hc
  have hnumber : Defined v := hdefined c hc rfl v hv
  obtain ⟨-, htolerance, hworst⟩ := (atMost_iff _ _).mp hwithin
  have htops := r.worst_tops_counted
  have hbound : rank (c.relation.violation v) ≤ rank r.worst := by
    cases hrelation : c.relation with
    | equality =>
        have hcounted : r.counted.equalities = r.equalities := by
          apply ByRelation.counted_of_defined
          intro w hw
          obtain ⟨d, hd, hd', hresidual⟩ := (mem_equality_residuals hr w).mp hw
          exact hdefined d hd (hd'.trans hrelation.symm) w hresidual
        have hmember : v ∈ r.counted.equalities := by
          rw [hcounted, mem_equality_residuals hr]
          exact ⟨c, hc, hrelation, hv⟩
        apply htops.bound
        exact List.mem_cons_of_mem _ (List.mem_append_left _ (List.mem_map_of_mem hmember))
    | inequality =>
        have hcounted : r.counted.inequalities = r.inequalities := by
          apply ByRelation.counted_of_defined
          intro w hw
          obtain ⟨d, hd, hd', hresidual⟩ := (mem_inequality_residuals hr w).mp hw
          exact hdefined d hd (hd'.trans hrelation.symm) w hresidual
        have hmember : v ∈ r.counted.inequalities := by
          rw [hcounted, mem_inequality_residuals hr]
          exact ⟨c, hc, hrelation, hv⟩
        simp only [Relation.violation]
        rw [rank_larger hnumber zero_defined]
        apply max_le
        · exact htops.bound (List.mem_cons_of_mem _ (List.mem_append_right _ hmember))
        · exact htops.bound List.mem_cons_self
  have hviolation : c.violation x = .ok (c.relation.violation v) :=
    Constraint.violation_eq_ok.mpr ⟨v, hv, rfl⟩
  simp only [Constraint.isSatisfied, bind_eq_ok, pure_eq_ok]
  refine ⟨_, hviolation, (atMost_iff _ _).mpr ⟨?_, htolerance, hbound.trans hworst⟩⟩
  exact Relation.violation_defined hnumber

/-- Within the tolerance, all constraints are satisfied exactly if all
residuals are defined. -/
theorem Problem.allSatisfied_iff_defined (hr : problem.residuals x = .ok r)
    (hwithin : atMost r.worst tolerance = true) :
    Constraint.allSatisfied tolerance x problem.constraints = .ok true ↔
      ∀ c ∈ problem.constraints, ∀ v, c.residual x = .ok v → Defined v := by
  constructor
  · intro hsatisfied c hc v hv
    obtain ⟨w, hw, hle⟩ := Constraint.violation_of_allSatisfied hsatisfied hc
    obtain ⟨v', hv', rfl⟩ := Constraint.violation_eq_ok.mp hw
    rw [hv] at hv'
    cases hv'
    by_contra hundefined
    rw [atMost_of_undefined (Relation.violation_undefined hundefined)] at hle
    cases hle
  · intro hdefined
    exact allSatisfied_of_worst hr hdefined hwithin

end Satisfaction

/-- An iteration with a finite point stops with a numerical error exactly if
the objective or the violation there is not finite, or the violation is above
the tolerance and a constraint that is not satisfied has no slope. -/
theorem iterate_numericalError_iff {α : Type} [Scalar α] {minimizer : Minimizer α}
    {settings : Settings α} {interrupt : Snapshot α → Bool} {p : Progress α} {x slope : Vec α}
    {value violation : α} {verdict : Verdict α}
    (hfound : minimizer p.lagrangian.value p.lagrangian.gradient p.point = .ok (x, slope))
    (hx : x.isFinite = true) (hvalue : p.lagrangian.problem.objective x = .ok value)
    (hviolation : p.lagrangian.maxViolation x = .ok violation)
    (h : iterate minimizer settings interrupt p = .ok verdict) :
    (∃ last, verdict = .stop .numericalError last) ↔
      isFinite value = false ∨ isFinite violation = false ∨
        (atMost violation settings.constraintTolerance = false ∧
          Lagrangian.hasDegenerateViolation p.lagrangian.step settings.constraintTolerance
            settings.minDerivative x p.lagrangian.problem.constraints = .ok true) := by
  simp only [iterate, bind_eq_ok] at h
  obtain ⟨a, ha, h⟩ := h
  obtain ⟨x', slope', hfound', hcases⟩ := advance_cases ha
  rw [hfound] at hfound'
  cases hfound'
  obtain ⟨hinfinite, -⟩ | ⟨-, value', violation', hvalue', hviolation', hmeasured⟩ := hcases
  · rw [hx] at hinfinite
    cases hinfinite
  rw [hvalue] at hvalue'
  rw [hviolation] at hviolation'
  cases hvalue'
  cases hviolation'
  obtain ⟨hfinite, rfl⟩ | ⟨hfinite, updated, snapshot, hupdated, -, rfl⟩ := hmeasured
  · rw [pure_eq_ok] at h
    rw [Bool.and_eq_false_iff] at hfinite
    constructor
    · intro _
      exact hfinite.imp_right Or.inl
    · intro _
      exact ⟨_, h.symm⟩
  · obtain ⟨hvalue', hviolation'⟩ := Bool.and_eq_true_iff.mp hfinite
    obtain ⟨r, -, rfl⟩ := Lagrangian.updateMultipliers_eq_ok.mp hupdated
    have hdelivered (q : Progress α) (snapshot : Snapshot α) :
        ¬ ∃ last, deliver settings interrupt q snapshot = .stop .numericalError last := by
      rintro ⟨last, hlast⟩
      unfold deliver at hlast
      split at hlast <;> cases hlast
    simp only [hvalue', hviolation', Bool.true_eq_false, false_or]
    unfold judge at h
    cases hwithin : atMost violation settings.constraintTolerance with
    | true =>
        simp only [hwithin, if_true] at h
        split at h
        · rw [pure_eq_ok] at h
          simp [← h]
        · rw [pure_eq_ok] at h
          simp only [Bool.true_eq_false, false_and, iff_false, ← h]
          exact hdelivered _ _
    | false =>
        simp only [hwithin, Bool.false_eq_true, if_false, bind_eq_ok] at h
        obtain ⟨degenerate, hdegenerate, h⟩ := h
        cases degenerate with
        | true =>
            rw [if_pos rfl, pure_eq_ok] at h
            simp [← h, hdegenerate]
        | false =>
            simp only [Bool.false_eq_true, if_false, pure_eq_ok] at h
            simp only [hdegenerate, true_and, Except.ok.injEq, Bool.false_eq_true, iff_false, ← h]
            exact hdelivered _ _

/-- All constraints of an optimal outcome are satisfied exactly if no residual
there is undefined; an undefined one leaves only the constraints of the other
relation satisfied for sure. A finite point with an undefined residual stops
the solve with a numerical error exactly if the objective there, or the
violation of the residuals that count, is not finite, or if that violation is
above the tolerance and a constraint that is not satisfied has no slope. -/
theorem undefined_residual_hides_its_relation {minimizer : Minimizer Float}
    {settings : Settings Float} {objective : Vec Float → Except Fault Float}
    {gradient : Option (Vec Float → Except Fault (Vec Float))} {given : Datum}
    {items : Nested (Item Float)} {sense : Sense} {interrupt : Snapshot Float → Bool}
    {outcome : Outcome Float}
    (h : optimizeDecisionWith minimizer settings objective gradient given items sense interrupt =
      .ok outcome) :
    ∃ start constraints, Check.array given "initial_state" = .ok start ∧
      flattenConstraints items = .ok constraints ∧
      let problem : Problem Float := { objective, gradient, constraints, weight := sense.sign }
      (outcome.status = .optimal →
        (Constraint.allSatisfied settings.constraintTolerance outcome.solution constraints =
            .ok true ↔
          ∀ c ∈ constraints, ∀ v, c.residual outcome.solution = .ok v → v.isNaN = false) ∧
        ∀ c ∈ constraints,
          (∀ d ∈ constraints, d.relation = c.relation →
            ∀ v, d.residual outcome.solution = .ok v → v.isNaN = false) →
          c.isSatisfied settings.constraintTolerance outcome.solution = .ok true) ∧
      ∀ p x slope value r verdict, problem.Visits minimizer settings start interrupt p →
        minimizer p.lagrangian.value p.lagrangian.gradient p.point = .ok (x, slope) →
        x.isFinite = true → objective x = .ok value → problem.residuals x = .ok r →
        iterate minimizer settings interrupt p = .ok verdict →
        ((∃ last, verdict = .stop .numericalError last) ↔
          value.isFinite = false ∨ r.counted.worst.isFinite = false ∨
            (¬ r.counted.worst ≤ settings.constraintTolerance ∧
              Lagrangian.hasDegenerateViolation settings.differenceStep
                settings.constraintTolerance settings.minDerivative x constraints = .ok true)) := by
  simp only [optimizeDecisionWith, bind_eq_ok] at h
  obtain ⟨start, hstart, constraints, hconstraints, h⟩ := h
  refine ⟨start, constraints, hstart, hconstraints, ?_, ?_⟩
  · intro hoptimal
    obtain ⟨-, r, hr, hworst⟩ := measured_of_optimize h
    obtain ⟨-, -, -, -, -, -, hwithin, -⟩ := last_iteration_of_optimal h hoptimal
    rw [← hworst] at hwithin
    simp only [← Binary64.defined_iff_isNaN]
    constructor
    · exact Problem.allSatisfied_iff_defined hr hwithin
    · intro c hc hdefined
      exact Problem.isSatisfied_of_relation hr hwithin hc hdefined
  · intro p x slope value r verdict hvisits hfound hx hvalue hr hverdict
    have hproblem := hvisits.measured.1.problem_eq
    have hstep := hvisits.step_eq
    have hviolation : p.lagrangian.maxViolation x = .ok r.worst := by
      rw [Lagrangian.maxViolation_eq_ok, hproblem]
      exact ⟨r, hr, rfl⟩
    have hobjective : p.lagrangian.problem.objective x = .ok value := by
      rw [hproblem]
      exact hvalue
    have hiff := iterate_numericalError_iff hfound hx hobjective hviolation hverdict
    rw [hproblem, hstep] at hiff
    rw [ByRelation.worst_counted, hiff, ← Bool.not_eq_true (atMost _ _)]
    exact or_congr_right (or_congr_right (and_congr_left fun _ => not_congr decide_eq_true_iff))

section Masked

def nowhereDefined : Constraint Float where
  relation := .inequality
  residual _ := .ok (0.0 / 0.0)

def atMostMinusFive : Constraint Float where
  relation := .inequality
  residual x := do return (← x.get 0) + 5.0

def maskedSolve : Except Fault (Outcome Float) :=
  optimizeDecisionWith (fun _ _ start => .ok (start, ⟨[0.0]⟩))
    { maxIterations := 100, tolerance := 1e-6, constraintTolerance := 1e-6,
      gradientTolerance := 1e-6, maxInnerIterations := 500, initialPenalty := 10.0,
      penaltyIncrease := 10.0, maxPenalty := 1e6, minDerivative := 1e-12, differenceStep := 1e-6,
      recordHistory := false }
    (fun x => x.get 0) none (.list [.real 1.0])
    (.group [.leaf (.decision nowhereDefined), .leaf (.decision atMostMinusFive),
      .leaf (.decision firstIsOne)])
    .minimize (fun _ => false)

/-- The solve ends with an optimal outcome, though one residual is undefined
and the constraint behind it is violated by six. -/
theorem undefined_residual_reported_optimal :
    ∃ outcome, maskedSolve = .ok outcome ∧ outcome.status = .optimal ∧
      outcome.solution.isFinite = true ∧ outcome.violation = 0.0 ∧
      (∃ v, nowhereDefined.residual outcome.solution = .ok v ∧ v.isNaN = true) ∧
      atMostMinusFive.violation outcome.solution = .ok 6.0 ∧
      Constraint.allSatisfied 1e-6 outcome.solution
        [nowhereDefined, atMostMinusFive, firstIsOne] = .ok false := by
  obtain ⟨outcome, hsolve, hcheck⟩ : ∃ outcome, maskedSolve = .ok outcome ∧
      decide (outcome.status = .optimal ∧ outcome.violation = 0.0 ∧
        outcome.solution.toList = [1.0]) = true :=
    exists_ok_of_any (by decide +kernel)
  obtain ⟨hoptimal, hviolation, hsolution⟩ := of_decide_eq_true hcheck
  have hpoint : outcome.solution = ⟨[1.0]⟩ := congrArg Vec.mk hsolution
  refine ⟨outcome, hsolve, hoptimal, ?_, hviolation, ⟨_, rfl, ?_⟩, ?_, ?_⟩
  · rw [hpoint]
    decide +kernel
  · decide +kernel
  · rw [hpoint]
    exact congrArg Except.ok (by decide +kernel)
  · rw [hpoint]
    rfl

theorem maskedSolve_hides_inequalities :
    ∃ outcome, maskedSolve = .ok outcome ∧ outcome.status = .optimal ∧
      Constraint.allSatisfied 1e-6 outcome.solution
        [nowhereDefined, atMostMinusFive, firstIsOne] ≠ .ok true ∧
      firstIsOne.isSatisfied 1e-6 outcome.solution = .ok true := by
  obtain ⟨outcome, hsolve, hcheck⟩ : ∃ outcome, maskedSolve = .ok outcome ∧
      decide (outcome.status = .optimal ∧ outcome.solution.toList = [1.0]) = true :=
    exists_ok_of_any (by decide +kernel)
  obtain ⟨hoptimal, hsolution⟩ := of_decide_eq_true hcheck
  have hpoint : outcome.solution = ⟨[1.0]⟩ := congrArg Vec.mk hsolution
  obtain ⟨start, constraints, -, hconstraints, hrest, -⟩ :=
    undefined_residual_hides_its_relation hsolve
  obtain rfl : [nowhereDefined, atMostMinusFive, firstIsOne] = constraints :=
    Except.ok.inj hconstraints
  obtain ⟨hall, hrelation⟩ := hrest hoptimal
  refine ⟨outcome, hsolve, hoptimal, ?_, ?_⟩
  · intro hsatisfied
    have hnumber := hall.mp hsatisfied nowhereDefined (by simp) _ rfl
    revert hnumber
    decide +kernel
  · apply hrelation firstIsOne (by simp)
    intro d hd hequality v hv
    simp only [List.mem_cons, List.not_mem_nil, or_false] at hd
    rcases hd with rfl | rfl | rfl
    · cases hequality
    · cases hequality
    · rw [hpoint] at hv
      cases hv
      decide +kernel

end Masked

end Optima
