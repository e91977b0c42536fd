import Mathlib.Data.List.GetD
import Optima.Proofs.Constraint.Violation
import Optima.Proofs.Period.Lowering

/-!
What it means that a trajectory satisfies a constraint. `Everywhere` says it state by state, without
a list of residuals: at every period, at the last one, at each two consecutive ones, of the whole
trajectory, or of every beginning. A constraint that passes the check of its violations holds
everywhere within the tolerance of the check.
-/

namespace Optima

open Scalar Ranked

variable {α : Type}

namespace PeriodRule

/-- Whatever a rule reads along a trajectory has a residual of which something
holds. -/
def Everywhere (holds : Except Fault α → Prop) (t : Trajectory α) : PeriodRule α → Prop
  | eachPeriod residual => ∀ i x, t.states[i]? = some x → holds (residual i x)
  | terminal residual => holds (residual t.last)
  | transition residual =>
    ∀ i x y, t.states[i]? = some x → t.states[i + 1]? = some y → holds (residual i x y)
  | trajectory residual => holds (residual t.states)
  | cumulative residual => ∀ i < t.periods, holds (residual i (t.states.take (i + 1)))

end PeriodRule

/-- The state of a period; beyond the last period, the first state. -/
def Trajectory.state (t : Trajectory α) (i : Nat) : Vec α := t.states.getD i t.first

theorem Trajectory.states_eq_map_state (t : Trajectory α) :
    t.states = (List.range t.periods).map t.state := by
  apply List.ext_getElem
  · simp [Trajectory.periods]
  · intro i hi _
    simp only [List.getElem_map, List.getElem_range, Trajectory.state]
    rw [List.getD_eq_getElem _ _ hi]

theorem Trajectory.state_eq {t : Trajectory α} {i : Nat} {x : Vec α}
    (h : t.states[i]? = some x) : t.state i = x ∧ i < t.periods := by
  obtain ⟨hi, rfl⟩ := List.getElem?_eq_some_iff.mp h
  exact ⟨List.getD_eq_getElem _ _ hi, hi⟩

/-- What holds of every residual in the list holds wherever the rule reads a state. -/
theorem PeriodRule.everywhere_of_instances {holds : Except Fault α → Prop} {t : Trajectory α}
    {rule : PeriodRule α} (h : ∀ e ∈ rule.instances t.periods t.state, holds e) :
    rule.Everywhere holds t := by
  cases rule with
  | eachPeriod residual =>
      intro i x hx
      obtain ⟨rfl, hi⟩ := Trajectory.state_eq hx
      exact h _ (List.mem_map.mpr ⟨i, List.mem_range.mpr hi, rfl⟩)
  | terminal residual =>
      have hlast : t.state (t.periods - 1) = t.last := by
        have hsome := t.getLast?_states
        rw [List.getLast?_eq_getElem?] at hsome
        exact (Trajectory.state_eq hsome).1
      have hresidual := h _ (List.mem_singleton.mpr rfl)
      rwa [hlast] at hresidual
  | transition residual =>
      intro i x y hx hy
      obtain ⟨rfl, -⟩ := Trajectory.state_eq hx
      obtain ⟨rfl, hi⟩ := Trajectory.state_eq hy
      exact h _ (List.mem_map.mpr ⟨i, List.mem_range.mpr (by omega), rfl⟩)
  | trajectory residual =>
      have hresidual := h _ (List.mem_singleton.mpr rfl)
      rwa [← t.states_eq_map_state] at hresidual
  | cumulative residual =>
      intro i hi
      have htaken : t.states.take (i + 1) = (List.range (i + 1)).map t.state := by
        rw [← PeriodRule.take_map_range t.state hi, ← t.states_eq_map_state]
      rw [htaken]
      exact h _ (List.mem_map.mpr ⟨i, List.mem_range.mpr hi, rfl⟩)

variable [Scalar α]

/-- A residual could be computed, and it is what a mark asks for, up to the tolerance: zero where
the mark counts as present, and not positive elsewhere. -/
def Datum.AdmitsWithin (mark : Datum) (tolerance : α) (computed : Except Fault α) : Prop :=
  ∃ r, computed = .ok r ∧ atMost (if mark.isPresent then magnitude r else r) tolerance = true

def PeriodConstraint.HoldsWithin (tolerance : α) (t : Trajectory α) (c : PeriodConstraint α) :
    Prop :=
  c.rule.Everywhere (c.mark.AdmitsWithin tolerance) t

namespace PeriodConstraint

theorem violations_eq_ok {c : PeriodConstraint α} {t : Trajectory α} {vs : List α} :
    c.violations t = .ok vs ↔
      ∃ rs, c.evaluate t = .ok rs ∧ rs.map c.relation.violation = vs := by
  simp only [violations, bind_eq_ok, pure_eq_ok]

theorem isSatisfied_eq_ok {tolerance : α} {t : Trajectory α} {c : PeriodConstraint α} {b : Bool} :
    c.isSatisfied tolerance t = .ok b ↔
      ∃ vs, c.violations t = .ok vs ∧ (vs.all fun v => atMost v tolerance) = b := by
  simp only [isSatisfied, bind_eq_ok, pure_eq_ok]

/-- The check stops at the first constraint that is violated, so none was skipped if it succeeds. -/
theorem allSatisfied_eq_true {tolerance : α} {t : Trajectory α} {cs : List (PeriodConstraint α)} :
    allSatisfied tolerance t cs = .ok true ↔
      ∀ c ∈ cs, c.isSatisfied tolerance t = .ok true := by
  induction cs with
  | nil => simp [allSatisfied]
  | cons c cs ih =>
      simp only [allSatisfied, bind_eq_ok, List.forall_mem_cons, ← ih]
      constructor
      · rintro ⟨satisfied, hsatisfied, hrest⟩
        cases satisfied with
        | true => exact ⟨hsatisfied, hrest⟩
        | false =>
            rw [if_neg Bool.false_ne_true, pure_eq_ok] at hrest
            cases hrest
      · rintro ⟨hsatisfied, hrest⟩
        exact ⟨true, hsatisfied, hrest⟩

end PeriodConstraint

variable [Ranked α]

/-- A residual is admitted if its excess is within the tolerance. -/
theorem Datum.admitsWithin_of_excess {mark : Datum} {tolerance r : α}
    (h : atMost (PeriodConstraint.excess mark r) tolerance = true) :
    mark.AdmitsWithin tolerance (.ok r) := by
  refine ⟨r, rfl, ?_⟩
  unfold PeriodConstraint.excess at h
  cases hmark : mark.isPresent with
  | true =>
      rw [hmark] at h
      exact h
  | false =>
      rw [hmark, if_neg Bool.false_ne_true] at h
      split at h
      · next hnegative =>
          -- A negative residual is below zero, and the tolerance is not.
          obtain ⟨hr, -, hlt⟩ := (less_iff _ _).mp hnegative
          obtain ⟨-, htolerance, hle⟩ := (atMost_iff _ _).mp h
          exact (atMost_iff _ _).mpr ⟨hr, htolerance, hlt.le.trans hle⟩
      · exact h

/-- A constraint that passes its check holds at every place that it speaks of. -/
theorem PeriodConstraint.holdsWithin_of_isSatisfied {tolerance : α} {t : Trajectory α}
    {c : PeriodConstraint α} (h : c.isSatisfied tolerance t = .ok true) :
    c.HoldsWithin tolerance t := by
  obtain ⟨vs, hvs, hall⟩ := isSatisfied_eq_ok.mp h
  obtain ⟨rs, hrs, rfl⟩ := violations_eq_ok.mp hvs
  rw [violation_eq_excess] at hall
  unfold evaluate at hrs
  rw [PeriodRule.evaluate_eq_instances t.states_eq_map_state] at hrs
  apply PeriodRule.everywhere_of_instances
  intro e he
  obtain ⟨r, hr, rfl⟩ := result_of_mapM hrs he
  apply Datum.admitsWithin_of_excess
  rw [List.all_eq_true] at hall
  exact hall _ (List.mem_map_of_mem hr)

end Optima
