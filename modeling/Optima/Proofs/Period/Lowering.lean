import Optima.Proofs.Period.Flat
import Optima.Proofs.Success

/-!
Lowering keeps the meaning of a constraint on trajectories. A rule reads numbered states, wherever
they come from: `instances` lists its residuals for states that are looked up by their number. The
states of a trajectory give what evaluation computes, and the segments of a flat vector give what
the lowered constraints compute. These are the same states if the trajectory is that of the vector.
-/

namespace Optima

variable {α : Type}

namespace PeriodRule

/-- The residuals of a rule over numbered states, in order. -/
def instances (periods : Nat) (state : Nat → Vec α) : PeriodRule α → List (Except Fault α)
  | eachPeriod residual => (List.range periods).map fun t => residual t (state t)
  | terminal residual => [residual (state (periods - 1))]
  | transition residual =>
    (List.range (periods - 1)).map fun t => residual t (state t) (state (t + 1))
  | trajectory residual => [residual ((List.range periods).map state)]
  | cumulative residual =>
    (List.range periods).map fun t => residual t ((List.range (t + 1)).map state)

theorem zipIdx_map_range {β : Type} (f : Nat → β) (n : Nat) :
    ((List.range n).map f).zipIdx = (List.range n).map fun t => (f t, t) := by
  apply List.ext_getElem
  · simp
  · intro i _ _
    simp

/-- Consecutive members of a numbered list. -/
theorem zip_tail_map_range {β : Type} (f : Nat → β) (n : Nat) :
    ((List.range n).map f).zip ((List.range n).map f).tail =
      (List.range (n - 1)).map fun t => (f t, f (t + 1)) := by
  apply List.ext_getElem
  · simp
  · intro i _ _
    simp

theorem take_map_range {β : Type} (f : Nat → β) {n t : Nat} (h : t < n) :
    ((List.range n).map f).take (t + 1) = (List.range (t + 1)).map f := by
  rw [← List.map_take, List.take_range, Nat.min_eq_left h]

/-- Evaluation computes the instances over the states of the trajectory. -/
theorem evaluate_eq_instances {t : Trajectory α} {periods : Nat} {state : Nat → Vec α}
    (h : t.states = (List.range periods).map state) (rule : PeriodRule α) :
    rule.evaluate t = (rule.instances periods state).mapM id := by
  have hperiods : t.periods = periods := by
    unfold Trajectory.periods
    rw [h, List.length_map, List.length_range]
  cases rule with
  | eachPeriod residual =>
      simp only [evaluate, instances]
      rw [h, zipIdx_map_range, List.mapM_map, List.mapM_map]
      rfl
  | terminal residual =>
      have hlast : t.last = state (periods - 1) := by
        have hsome := t.getLast?_states
        rw [h, List.getLast?_map, List.getLast?_range] at hsome
        split at hsome
        · cases hsome
        · exact (Option.some.inj hsome).symm
      simp only [evaluate, instances, hlast, List.mapM_cons, List.mapM_nil, id, pure_bind]
  | transition residual =>
      simp only [evaluate, instances]
      rw [t.rest_eq_tail, h, zip_tail_map_range, zipIdx_map_range, List.mapM_map, List.mapM_map]
      rfl
  | trajectory residual =>
      simp only [evaluate, instances, h, List.mapM_cons, List.mapM_nil, id, pure_bind]
  | cumulative residual =>
      have hprefixes : (List.range periods).map (fun i => residual i (t.states.take (i + 1))) =
          (List.range periods).map fun i => residual i ((List.range (i + 1)).map state) := by
        apply List.map_congr_left
        intro i hi
        rw [h, take_map_range state (List.mem_range.mp hi)]
      simp only [evaluate, instances]
      rw [hperiods, ← hprefixes, List.mapM_map]
      rfl

/-- At a flat vector, lowered residuals are the instances over its segments. -/
theorem lower_eq_instances {periods : Nat} (hperiods : 1 ≤ periods) (dimension : Nat) (z : Vec α)
    (rule : PeriodRule α) :
    (rule.lower periods dimension).map (fun residual => residual z) =
      rule.instances periods fun t => periodOf dimension z t := by
  have hlast : (periods : Int) - 1 = ((periods - 1 : Nat) : Int) := by omega
  cases rule with
  | eachPeriod residual =>
      simp only [lower, instances, Int.toNat_natCast, List.map_map]
      rfl
  | terminal residual =>
      simp only [lower, instances, hlast, List.map_cons, List.map_nil]
  | transition residual =>
      simp only [lower, instances, hlast, Int.toNat_natCast, List.map_map]
      rfl
  | trajectory residual =>
      simp only [lower, instances, Int.toNat_natCast, List.map_cons, List.map_nil]
      rfl
  | cumulative residual =>
      simp only [lower, instances, Int.toNat_natCast, List.map_map]
      rfl

end PeriodRule

namespace PeriodConstraint

/-- Both sides list the same instances, since the segments of the vector are the states. -/
theorem residuals_lower {c : PeriodConstraint α} {z : Vec α} {periods dimension : Nat}
    {t : Trajectory α} (h : Trajectory.ofFlat z periods dimension = .ok t) :
    (c.lower periods dimension).mapM (fun d => d.residual z) = c.evaluate t := by
  obtain ⟨-, hstates⟩ := Trajectory.ofFlat_eq_ok.mp h
  have hperiods : 1 ≤ periods := by
    rw [← Trajectory.periods_of_ofFlat h]
    exact Nat.succ_pos _
  unfold evaluate lower
  rw [PeriodRule.evaluate_eq_instances hstates,
    ← PeriodRule.lower_eq_instances hperiods dimension z, List.mapM_map, List.mapM_map]
  rfl

theorem relation_of_mem_lower {c : PeriodConstraint α} {periods dimension : Int}
    {d : Constraint α} (h : d ∈ c.lower periods dimension) : d.relation = c.relation := by
  obtain ⟨residual, -, rfl⟩ := List.mem_map.mp h
  rfl

/-- A constraint on trajectories is an equality if its mark counts as present. -/
theorem relation_eq_equality_iff {c : PeriodConstraint α} :
    c.relation = .equality ↔ c.mark.isPresent = true := by
  unfold relation Relation.ofMark
  split
  · next h => exact iff_of_true rfl h
  · next h => exact iff_of_false nofun h

variable [Scalar α]

/-- How far a residual is from what a mark asks for: all of it counts for an equality, and only an
excess for an inequality. -/
def excess (mark : Datum) (r : α) : α :=
  if mark.isPresent then Scalar.magnitude r else if Scalar.less r 0 then 0 else r

/-- The relation of a constraint measures what its mark asks for. -/
theorem violation_eq_excess (c : PeriodConstraint α) :
    (c.relation.violation : α → α) = excess c.mark := by
  funext r
  unfold relation Relation.ofMark excess
  split <;> rfl

theorem violations_eq_excess (c : PeriodConstraint α) (t : Trajectory α) :
    c.violations t = (do return (← c.evaluate t).map (excess c.mark)) := by
  rw [violations, violation_eq_excess]

/-- Violations of constraints of one relation come from their residuals. -/
theorem violations_eq_map_residuals {cs : List (Constraint α)} {relation : Relation}
    (h : ∀ c ∈ cs, c.relation = relation) (x : Vec α) :
    Constraint.violations cs x =
      (do return (← cs.mapM fun c => c.residual x).map relation.violation) := by
  induction cs with
  | nil => rfl
  | cons c cs ih =>
      have hrest := ih fun d hd => h d (by simp [hd])
      unfold Constraint.violations at hrest ⊢
      rw [List.mapM_cons, List.mapM_cons, hrest]
      simp only [Constraint.violation, h c (by simp), bind_assoc, pure_bind, List.map_cons]

theorem violations_lower {c : PeriodConstraint α} {z : Vec α} {periods dimension : Nat}
    {t : Trajectory α} (h : Trajectory.ofFlat z periods dimension = .ok t) :
    Constraint.violations (c.lower periods dimension) z = c.violations t := by
  rw [violations_eq_map_residuals (fun d hd => relation_of_mem_lower hd), residuals_lower h]
  rfl

/-- The constraints that a constraint on trajectories is lowered to have, at a flat vector, the
residuals that it has along the trajectory of the vector, in the same order. They are equalities if
its mark says so and inequalities if not, and their violations are those along the trajectory, which
are measured by the mark. -/
theorem lowered_constraints_agree_along_trajectory (c : PeriodConstraint α) {z : Vec α}
    {periods dimension : Nat} (hperiods : 1 ≤ periods) (hsize : z.size = periods * dimension) :
    ∃ t, Trajectory.ofFlat z periods dimension = .ok t ∧
      (c.lower periods dimension).mapM (fun d => d.residual z) = c.evaluate t ∧
      (∀ d ∈ c.lower periods dimension, d.relation = .equality ↔ c.mark.isPresent = true) ∧
      Constraint.violations (c.lower periods dimension) z = c.violations t ∧
      c.violations t = (do return (← c.evaluate t).map (excess c.mark)) := by
  obtain ⟨t, ht⟩ := Trajectory.exists_ofFlat hperiods hsize
  refine ⟨t, ht, residuals_lower ht, fun d hd => ?_, violations_lower ht, violations_eq_excess c t⟩
  rw [relation_of_mem_lower hd, relation_eq_equality_iff]

/-- What is left in stock, in the second component, is what was left before and what was made, in
the first component, less a demand of ten. -/
def stockBalance : PeriodConstraint Float where
  rule := .transition fun _ x y => do return (← y.get 1) - ((← x.get 1) + (← x.get 0) - 10.0)
  mark := .flag true

/-- Three periods of which the last has half a unit less than the second leaves. -/
def stockPlan : Vec Float := ⟨[12.0, 5.0, 10.0, 7.0, 8.0, 6.5]⟩

/-- A missing half unit breaks an equality as much as half a unit too much. -/
theorem stockBalance_agrees_along_stockPlan :
    stockPlan.size = 3 * 2 ∧ ∃ t, Trajectory.ofFlat stockPlan 3 2 = .ok t ∧
      (stockBalance.lower 3 2).mapM (fun d => d.residual stockPlan) = .ok [0.0, -0.5] ∧
      (∀ d ∈ stockBalance.lower 3 2, d.relation = .equality) ∧
      stockBalance.evaluate t = .ok [0.0, -0.5] ∧ stockBalance.violations t = .ok [0.0, 0.5] := by
  have hsize : stockPlan.size = 3 * 2 := rfl
  have hresiduals : (stockBalance.lower 3 2).mapM (fun d => d.residual stockPlan) =
      .ok [0.0, -0.5] := rfl
  obtain ⟨t, ht, hevaluate, hrelation, -, hviolations⟩ :=
    lowered_constraints_agree_along_trajectory stockBalance (by decide) hsize
  have hevaluated : stockBalance.evaluate t = .ok [0.0, -0.5] := hevaluate.symm.trans hresiduals
  rw [hevaluated] at hviolations
  exact ⟨hsize, t, ht, hresiduals, fun d hd => (hrelation d hd).mpr rfl, hevaluated, hviolations⟩

end PeriodConstraint

end Optima
