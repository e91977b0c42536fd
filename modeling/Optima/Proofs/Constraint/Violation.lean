import Optima.Proofs.Scalar.Rank
import Optima.Proofs.Success
import Optima.Solver.Lagrangian

/-!
Two measures of violation. A solve sorts its constraints by relation and measures each group at
once; a caller walks through the flat list and measures one constraint after the other. As long as
no residual is undefined the two agree, and a measured violation within a tolerance means that every
single constraint is satisfied within it.
-/

namespace Optima

open Scalar Ranked

variable {α : Type}

theorem Problem.residuals_eq_ok {problem : Problem α} {x : Vec α} {r : ByRelation α} :
    problem.residuals x = .ok r ↔
      problem.parts.equalities.mapM (fun c => c.residual x) = .ok r.equalities ∧
        problem.parts.inequalities.mapM (fun c => c.residual x) = .ok r.inequalities := by
  simp only [Problem.residuals, bind_eq_ok, pure_eq_ok]
  constructor
  · rintro ⟨h, hh, g, hg, rfl⟩
    exact ⟨hh, hg⟩
  · rintro ⟨hh, hg⟩
    exact ⟨r.equalities, hh, r.inequalities, hg, rfl⟩

/-- The sorted residuals of equalities are those of the equalities among the
constraints. -/
theorem Problem.mem_equality_residuals {problem : Problem α} {x : Vec α} {r : ByRelation α}
    (h : problem.residuals x = .ok r) (v : α) :
    v ∈ r.equalities ↔
      ∃ c ∈ problem.constraints, c.relation = .equality ∧ c.residual x = .ok v := by
  rw [mem_of_mapM (residuals_eq_ok.mp h).1]
  simp [parts, Constraint.isEquality, and_assoc]

theorem Problem.mem_inequality_residuals {problem : Problem α} {x : Vec α} {r : ByRelation α}
    (h : problem.residuals x = .ok r) (v : α) :
    v ∈ r.inequalities ↔
      ∃ c ∈ problem.constraints, c.relation = .inequality ∧ c.residual x = .ok v := by
  rw [mem_of_mapM (residuals_eq_ok.mp h).2]
  have hrelation (c : Constraint α) : ¬ c.relation = .equality ↔ c.relation = .inequality := by
    cases c.relation <;> simp
  simp [parts, Constraint.isEquality, and_assoc, hrelation]

/-- Where the residuals of a problem have been computed, so has the residual
of each of its constraints. -/
theorem Problem.residual_of_residuals {problem : Problem α} {x : Vec α} {r : ByRelation α}
    (h : problem.residuals x = .ok r) {c : Constraint α} (hc : c ∈ problem.constraints) :
    ∃ v, c.residual x = .ok v := by
  obtain ⟨hequalities, hinequalities⟩ := residuals_eq_ok.mp h
  cases hrelation : c.isEquality with
  | true =>
      obtain ⟨v, -, hv⟩ := result_of_mapM hequalities
        (List.mem_filter.mpr ⟨hc, by simp [hrelation]⟩)
      exact ⟨v, hv⟩
  | false =>
      obtain ⟨v, -, hv⟩ := result_of_mapM hinequalities
        (List.mem_filter.mpr ⟨hc, by simp [hrelation]⟩)
      exact ⟨v, hv⟩

theorem Problem.residuals_succeed {problem : Problem α} {x : Vec α}
    (h : ∀ c ∈ problem.constraints, ∃ v, c.residual x = .ok v) :
    ∃ r, problem.residuals x = .ok r := by
  obtain ⟨equalities, hequalities⟩ :
      ∃ vs, problem.parts.equalities.mapM (fun c => c.residual x) = .ok vs :=
    mapM_succeeds fun c hc => h c (List.mem_of_mem_filter hc)
  obtain ⟨inequalities, hinequalities⟩ :
      ∃ vs, problem.parts.inequalities.mapM (fun c => c.residual x) = .ok vs :=
    mapM_succeeds fun c hc => h c (List.mem_of_mem_filter hc)
  exact ⟨⟨equalities, inequalities⟩, residuals_eq_ok.mpr ⟨hequalities, hinequalities⟩⟩

variable [Scalar α]

theorem Constraint.violation_eq_ok {c : Constraint α} {x : Vec α} {v : α} :
    c.violation x = .ok v ↔ ∃ residual, c.residual x = .ok residual ∧
      c.relation.violation residual = v := by
  simp only [Constraint.violation, bind_eq_ok, pure_eq_ok]

theorem Constraint.violations_of_residuals {problem : Problem α} {x : Vec α} {r : ByRelation α}
    (h : problem.residuals x = .ok r) :
    ∃ vs, Constraint.violations problem.constraints x = .ok vs := by
  apply mapM_succeeds
  intro c hc
  obtain ⟨residual, hresidual⟩ := Problem.residual_of_residuals h hc
  exact ⟨_, violation_eq_ok.mpr ⟨residual, hresidual, rfl⟩⟩

theorem Constraint.allSatisfied_of_violations {tolerance : α} {x : Vec α}
    {cs : List (Constraint α)}
    (h : ∀ c ∈ cs, ∃ v, c.violation x = .ok v ∧ atMost v tolerance = true) :
    Constraint.allSatisfied tolerance x cs = .ok true := by
  induction cs with
  | nil => rfl
  | cons c cs ih =>
      obtain ⟨v, hv, hwithin⟩ := h c (by simp)
      have hsatisfied : c.isSatisfied tolerance x = .ok true := by
        simp only [Constraint.isSatisfied, bind_eq_ok, pure_eq_ok]
        exact ⟨v, hv, hwithin⟩
      simp only [Constraint.allSatisfied, bind_eq_ok]
      exact ⟨true, hsatisfied, ih fun d hd => h d (by simp [hd])⟩

/-- A list that passes the check has no member that was skipped. -/
theorem Constraint.violation_of_allSatisfied {tolerance : α} {x : Vec α}
    {cs : List (Constraint α)} (h : Constraint.allSatisfied tolerance x cs = .ok true)
    {c : Constraint α} (hc : c ∈ cs) :
    ∃ v, c.violation x = .ok v ∧ atMost v tolerance = true := by
  induction cs with
  | nil => cases hc
  | cons first rest ih =>
      simp only [Constraint.allSatisfied, bind_eq_ok] at h
      obtain ⟨satisfied, hsatisfied, hrest⟩ := h
      cases satisfied with
      | false =>
          rw [if_neg Bool.false_ne_true, pure_eq_ok] at hrest
          cases hrest
      | true =>
          rcases List.mem_cons.mp hc with rfl | hc
          · simpa only [Constraint.isSatisfied, bind_eq_ok, pure_eq_ok] using hsatisfied
          · exact ih hrest hc

variable [Ranked α]

theorem Relation.violation_defined {relation : Relation} {residual : α} (h : Defined residual) :
    Defined (relation.violation residual) := by
  cases relation with
  | equality => exact magnitude_defined h
  | inequality => exact larger_defined h zero_defined

/-- No violation is negative, so the worst of none at all is zero. -/
theorem Relation.violation_nonneg {relation : Relation} {residual : α} (h : Defined residual) :
    rank 0 ≤ rank (relation.violation residual) := by
  cases relation with
  | equality => exact zero_le_magnitude h
  | inequality =>
      simp only [Relation.violation]
      rw [rank_larger h zero_defined]
      exact le_max_right _ _

/-- The group-wise measure tops zero, the magnitudes of the equalities and
the residuals of the inequalities. -/
theorem ByRelation.worst_tops {r : ByRelation α} (hequalities : ∀ v ∈ r.equalities, Defined v)
    (hinequalities : ∀ v ∈ r.inequalities, Defined v) :
    Tops r.worst (0 :: (r.equalities.map magnitude ++ r.inequalities)) := by
  have hmagnitudes : ∀ v ∈ r.equalities.map magnitude, Defined v := by
    intro v hv
    obtain ⟨h, hh, rfl⟩ := List.mem_map.mp hv
    exact magnitude_defined (hequalities h hh)
  have hrest {first : α} (hfirst : Tops first (0 :: r.equalities.map magnitude))
      (hnone : greatest? r.inequalities = none) :
      Tops first (0 :: (r.equalities.map magnitude ++ r.inequalities)) := by
    rw [greatest?_eq_none hnone, List.append_nil]
    exact hfirst
  unfold worst
  cases hequal : greatest? (r.equalities.map magnitude) with
  | none =>
      have hfirst : Tops 0 (0 :: r.equalities.map magnitude) := by
        rw [greatest?_eq_none hequal]
        exact tops_singleton zero_defined
      cases hunequal : greatest? r.inequalities with
      | none => exact hrest hfirst hunequal
      | some v => exact hfirst.larger (tops_of_greatest? hinequalities hunequal)
  | some u =>
      have hfirst : Tops (larger 0 u) (0 :: r.equalities.map magnitude) :=
        (tops_singleton zero_defined).larger (tops_of_greatest? hmagnitudes hequal)
      cases hunequal : greatest? r.inequalities with
      | none => exact hrest hfirst hunequal
      | some v => exact hfirst.larger (tops_of_greatest? hinequalities hunequal)

/-- The group-wise measure tops the violations of the single constraints. An
inequality that holds counts for its residual in one and for nothing in the
other, but neither is above zero. -/
theorem Problem.worst_tops_violations {problem : Problem α} {x : Vec α} {r : ByRelation α}
    (hr : problem.residuals x = .ok r)
    (hdefined : ∀ c ∈ problem.constraints, ∀ v, c.residual x = .ok v → Defined v)
    {vs : List α} (hvs : Constraint.violations problem.constraints x = .ok vs) :
    Tops r.worst (0 :: vs) := by
  have hequalities : ∀ v ∈ r.equalities, Defined v := by
    intro v hv
    obtain ⟨c, hc, -, hresidual⟩ := (mem_equality_residuals hr v).mp hv
    exact hdefined c hc v hresidual
  have hinequalities : ∀ v ∈ r.inequalities, Defined v := by
    intro v hv
    obtain ⟨c, hc, -, hresidual⟩ := (mem_inequality_residuals hr v).mp hv
    exact hdefined c hc v hresidual
  have htops := ByRelation.worst_tops hequalities hinequalities
  have hmem (v : α) : v ∈ vs ↔ ∃ c ∈ problem.constraints, c.violation x = .ok v :=
    mem_of_mapM hvs v
  refine ⟨htops.defined, ?_, ?_⟩
  · obtain ⟨v, hv, heq⟩ := htops.isGreatest.1
    simp only [List.mem_cons, List.mem_append, List.mem_map] at hv
    rcases hv with rfl | ⟨h, hh, rfl⟩ | hg
    · exact ⟨0, by simp, heq⟩
    · obtain ⟨c, hc, hrelation, hresidual⟩ := (mem_equality_residuals hr h).mp hh
      refine ⟨magnitude h, List.mem_cons_of_mem _ ((hmem _).mpr ⟨c, hc, ?_⟩), heq⟩
      exact Constraint.violation_eq_ok.mpr ⟨h, hresidual, by rw [hrelation]; rfl⟩
    · obtain ⟨c, hc, hrelation, hresidual⟩ := (mem_inequality_residuals hr v).mp hg
      -- The residual is the peak, so it is not negative and is its own violation.
      have hnonneg : rank 0 ≤ rank v := heq ▸ htops.bound (by simp)
      refine ⟨larger v 0, List.mem_cons_of_mem _ ((hmem _).mpr ⟨c, hc, ?_⟩), ?_⟩
      · exact Constraint.violation_eq_ok.mpr ⟨v, hresidual, by rw [hrelation]; rfl⟩
      · rw [rank_larger (hinequalities v hg) zero_defined, max_eq_left hnonneg, heq]
  · rintro rank' ⟨v, hv, rfl⟩
    rcases List.mem_cons.mp hv with rfl | hv
    · exact htops.bound (by simp)
    · obtain ⟨c, hc, hviolation⟩ := (hmem v).mp hv
      obtain ⟨residual, hresidual, rfl⟩ := Constraint.violation_eq_ok.mp hviolation
      cases hrelation : c.relation with
      | equality =>
          have hmember := (mem_equality_residuals hr residual).mpr ⟨c, hc, hrelation, hresidual⟩
          exact htops.bound (List.mem_cons_of_mem _ (List.mem_append_left _
            (List.mem_map.mpr ⟨residual, hmember, rfl⟩)))
      | inequality =>
          have hmember := (mem_inequality_residuals hr residual).mpr ⟨c, hc, hrelation, hresidual⟩
          simp only [Relation.violation]
          rw [rank_larger (hinequalities residual hmember) zero_defined]
          exact max_le (htops.bound (by simp [hmember])) (htops.bound (by simp))

/-- Without undefined residuals the two measures of violation agree. -/
theorem Problem.worst_same_maxViolation {problem : Problem α} {x : Vec α} {r : ByRelation α}
    (hr : problem.residuals x = .ok r)
    (hdefined : ∀ c ∈ problem.constraints, ∀ v, c.residual x = .ok v → Defined v) :
    ∃ v, Constraint.maxViolation problem.constraints x = .ok v ∧ same r.worst v = true := by
  obtain ⟨vs, hvs⟩ := Constraint.violations_of_residuals hr
  have hmember : ∀ v ∈ vs, ∃ relation : Relation, ∃ residual : α,
      Defined residual ∧ relation.violation residual = v := by
    intro v hv
    obtain ⟨c, hc, hviolation⟩ := (mem_of_mapM hvs v).mp hv
    obtain ⟨residual, hresidual, heq⟩ := Constraint.violation_eq_ok.mp hviolation
    exact ⟨c.relation, residual, hdefined c hc residual hresidual, heq⟩
  refine ⟨largestD 0 vs, ?_, ?_⟩
  · simp only [Constraint.maxViolation, bind_eq_ok, pure_eq_ok]
    exact ⟨vs, hvs, rfl⟩
  · apply (worst_tops_violations hr hdefined hvs).same
    apply tops_largestD
    · intro v hv
      obtain ⟨relation, residual, hresidual, rfl⟩ := hmember v hv
      exact Relation.violation_defined hresidual
    · intro v hv
      obtain ⟨relation, residual, hresidual, rfl⟩ := hmember v hv
      exact Relation.violation_nonneg hresidual

/-- A measured violation within the tolerance satisfies every constraint. -/
theorem Problem.allSatisfied_of_worst {problem : Problem α} {x : Vec α} {r : ByRelation α}
    (hr : problem.residuals x = .ok r)
    (hdefined : ∀ c ∈ problem.constraints, ∀ v, c.residual x = .ok v → Defined v)
    {tolerance : α} (hwithin : atMost r.worst tolerance = true) :
    Constraint.allSatisfied tolerance x problem.constraints = .ok true := by
  obtain ⟨vs, hvs⟩ := Constraint.violations_of_residuals hr
  have htops := worst_tops_violations hr hdefined hvs
  obtain ⟨-, htolerance, hle⟩ := (atMost_iff _ _).mp hwithin
  apply Constraint.allSatisfied_of_violations
  intro c hc
  obtain ⟨v, hv, hviolation⟩ := result_of_mapM hvs hc
  obtain ⟨residual, hresidual, heq⟩ := Constraint.violation_eq_ok.mp hviolation
  have hvdefined : Defined v := heq ▸ Relation.violation_defined (hdefined c hc _ hresidual)
  exact ⟨v, hviolation, (atMost_iff _ _).mpr
    ⟨hvdefined, htolerance, (htops.bound (by simp [hv])).trans hle⟩⟩

end Optima
