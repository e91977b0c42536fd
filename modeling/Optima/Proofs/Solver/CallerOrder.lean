import Mathlib.Algebra.BigOperators.Group.List.Basic
import Optima.Proofs.Constraint.Violation
import Optima.Solver.Lagrangian

/-!
The caller's view of a Lagrangian. Multipliers and residuals are kept in two groups, one for each
relation, but they belong to single constraints: a list of entries gives every constraint, in the
caller's order, its own multiplier and residual. Each operation on the groups is an operation on the
entries, so that nothing that follows has to look at the groups again.
-/

namespace Optima

variable {α : Type}

/-- A constraint with its multiplier and its residual at some point. -/
structure Entry (α : Type) where
  constraint : Constraint α
  multiplier : α
  residual : α

namespace Entry

def isEquality (e : Entry α) : Bool := e.constraint.isEquality

theorem relation_of_mem_equalities {entries : List (Entry α)} {e : Entry α}
    (h : e ∈ entries.filter (·.isEquality)) : e.constraint.relation = .equality := by
  have hmark : e.isEquality = true := (List.mem_filter.mp h).2
  exact eq_of_beq hmark

theorem relation_of_mem_inequalities {entries : List (Entry α)} {e : Entry α}
    (h : e ∈ entries.filter (!·.isEquality)) : e.constraint.relation = .inequality := by
  have hmark : (!e.isEquality) = true := (List.mem_filter.mp h).2
  unfold isEquality Constraint.isEquality at hmark
  cases hrelation : e.constraint.relation with
  | equality => simp [hrelation] at hmark
  | inequality => rfl

def sorted {β : Type} (f : Entry α → β) (entries : List (Entry α)) : ByRelation β where
  equalities := (entries.filter (·.isEquality)).map f
  inequalities := (entries.filter (!·.isEquality)).map f

/-- Putting back into order undoes sorting. -/
theorem inOrder_sorted (f : Entry α → α) (entries : List (Entry α)) :
    (sorted f entries).inOrder (entries.map (·.constraint.relation)) = entries.map f := by
  induction entries with
  | nil => rfl
  | cons e entries ih =>
      cases hrelation : e.constraint.relation with
      | equality =>
          simp only [sorted, isEquality, Constraint.isEquality] at ih ⊢
          simp [hrelation, ByRelation.inOrder, ih]
      | inequality =>
          simp only [sorted, isEquality, Constraint.isEquality] at ih ⊢
          simp [hrelation, ByRelation.inOrder, ih]

/-- A sum over the entries is the sum over both groups. -/
theorem sum_sorted {M : Type} [AddCommMonoid M] (f : Entry α → M) (entries : List (Entry α)) :
    ((entries.filter (·.isEquality)).map f).sum + ((entries.filter (!·.isEquality)).map f).sum =
      (entries.map f).sum := by
  rw [← List.sum_append, ← List.map_append]
  exact ((List.filter_append_perm _ entries).map f).sum_eq

end Entry

namespace Lagrangian

open Entry

/-- The entries are the constraints of the Lagrangian in the caller's order,
each with its own multiplier and with its residual at the point. -/
structure Lists (L : Lagrangian α) (x : Vec α) (entries : List (Entry α)) : Prop where
  constraints : entries.map (·.constraint) = L.problem.constraints
  multipliers : L.multipliers = sorted (·.multiplier) entries
  residuals : ∀ e ∈ entries, e.constraint.residual x = .ok e.residual

structure Balanced (L : Lagrangian α) : Prop where
  equalities : L.multipliers.equalities.length = L.problem.parts.equalities.length
  inequalities : L.multipliers.inequalities.length = L.problem.parts.inequalities.length

private theorem exists_entries {x : Vec α} {cs : List (Constraint α)} {E I : List α}
    (hE : E.length = (cs.filter (·.isEquality)).length)
    (hI : I.length = (cs.filter (!·.isEquality)).length)
    (hresidual : ∀ c ∈ cs, ∃ v, c.residual x = .ok v) :
    ∃ entries : List (Entry α), entries.map (·.constraint) = cs ∧
      ⟨E, I⟩ = sorted (·.multiplier) entries ∧
      ∀ e ∈ entries, e.constraint.residual x = .ok e.residual := by
  induction cs generalizing E I with
  | nil =>
      rw [List.filter_nil, List.length_nil, List.length_eq_zero_iff] at hE hI
      subst hE hI
      exact ⟨[], rfl, rfl, by simp⟩
  | cons c cs ih =>
      obtain ⟨v, hv⟩ := hresidual c (by simp)
      have hrest : ∀ d ∈ cs, ∃ v, d.residual x = .ok v := fun d hd => hresidual d (by simp [hd])
      cases hc : c.isEquality with
      | true =>
          cases E with
          | nil => simp [hc] at hE
          | cons m E =>
              obtain ⟨entries, hconstraints, hmultipliers, hresiduals⟩ :=
                ih (E := E) (I := I) (by simpa [hc] using hE) (by simpa [hc] using hI) hrest
              refine ⟨⟨c, m, v⟩ :: entries, by simp [hconstraints], ?_, ?_⟩
              · simp only [sorted, isEquality, ByRelation.mk.injEq] at hmultipliers ⊢
                simp [hc, hmultipliers]
              · simpa [hv] using hresiduals
      | false =>
          cases I with
          | nil => simp [hc] at hI
          | cons m I =>
              obtain ⟨entries, hconstraints, hmultipliers, hresiduals⟩ :=
                ih (E := E) (I := I) (by simpa [hc] using hE) (by simpa [hc] using hI) hrest
              refine ⟨⟨c, m, v⟩ :: entries, by simp [hconstraints], ?_, ?_⟩
              · simp only [sorted, isEquality, ByRelation.mk.injEq] at hmultipliers ⊢
                simp [hc, hmultipliers]
              · simpa [hv] using hresiduals

/-- Where the residuals can be computed, there is such a list. -/
theorem exists_lists {L : Lagrangian α} {x : Vec α} {r : ByRelation α} (hbalanced : L.Balanced)
    (hr : L.problem.residuals x = .ok r) : ∃ entries, L.Lists x entries := by
  obtain ⟨entries, hconstraints, hmultipliers, hresiduals⟩ :=
    exists_entries hbalanced.equalities hbalanced.inequalities
      fun c hc => Problem.residual_of_residuals hr hc
  exact ⟨entries, hconstraints, hmultipliers, hresiduals⟩

theorem Lists.equalities {L : Lagrangian α} {x : Vec α} {entries : List (Entry α)}
    (h : L.Lists x entries) :
    L.problem.parts.equalities = (entries.filter (·.isEquality)).map (·.constraint) := by
  simp only [Problem.parts, ← h.constraints, List.filter_map]
  rfl

theorem Lists.inequalities {L : Lagrangian α} {x : Vec α} {entries : List (Entry α)}
    (h : L.Lists x entries) :
    L.problem.parts.inequalities = (entries.filter (!·.isEquality)).map (·.constraint) := by
  simp only [Problem.parts, ← h.constraints, List.filter_map]
  rfl

theorem Lists.residuals_eq {L : Lagrangian α} {x : Vec α} {entries : List (Entry α)}
    (h : L.Lists x entries) :
    L.problem.residuals x = .ok (sorted (·.residual) entries) := by
  have hmapM (l : List (Entry α)) (hl : ∀ e ∈ l, e ∈ entries) :
      (l.map (·.constraint)).mapM (fun c => c.residual x) = .ok (l.map (·.residual)) := by
    rw [mapM_eq_ok, List.forall₂_map_left_iff, List.forall₂_map_right_iff, List.forall₂_same]
    intro e he
    exact h.residuals e (hl e he)
  rw [Problem.residuals_eq_ok, h.equalities, h.inequalities]
  exact ⟨hmapM _ fun e he => List.mem_of_mem_filter he,
    hmapM _ fun e he => List.mem_of_mem_filter he⟩

/-- Sorting by relation and putting back undo each other. -/
theorem Lists.multipliersInOrder_eq {L : Lagrangian α} {x : Vec α} {entries : List (Entry α)}
    (h : L.Lists x entries) : L.multipliersInOrder = entries.map (·.multiplier) := by
  unfold multipliersInOrder
  rw [h.multipliers, ← h.constraints, List.map_map]
  exact inOrder_sorted _ entries

/-- Multipliers that were sorted from entries of the constraints balance them. -/
theorem balanced_of_sorted {L : Lagrangian α} {entries : List (Entry α)} {f : Entry α → α}
    (hconstraints : entries.map (·.constraint) = L.problem.constraints)
    (hmultipliers : L.multipliers = sorted f entries) : L.Balanced := by
  constructor
  · simp only [hmultipliers, sorted, Problem.parts, ← hconstraints, List.filter_map,
      List.length_map]
    rfl
  · simp only [hmultipliers, sorted, Problem.parts, ← hconstraints, List.filter_map,
      List.length_map]
    rfl

variable [Scalar α]

def shift (penalty : α) (e : Entry α) : α :=
  match e.constraint.relation with
  | .equality => equalityShift penalty e.multiplier e.residual
  | .inequality => inequalityShift penalty e.multiplier e.residual

theorem shift_of_equality {penalty : α} {e : Entry α} (h : e.constraint.relation = .equality) :
    shift penalty e = equalityShift penalty e.multiplier e.residual := by
  simp only [shift, h]

theorem shift_of_inequality {penalty : α} {e : Entry α} (h : e.constraint.relation = .inequality) :
    shift penalty e = inequalityShift penalty e.multiplier e.residual := by
  simp only [shift, h]

/-- Moving the groups moves every multiplier by its own residual. -/
theorem Lists.shifted_eq {L : Lagrangian α} {x : Vec α} {entries : List (Entry α)}
    (h : L.Lists x entries) :
    L.shifted (sorted (·.residual) entries) = sorted (shift L.penalty) entries := by
  simp only [shifted, h.multipliers, sorted, List.zipWith_map, List.zipWith_self,
    ByRelation.mk.injEq]
  constructor
  · apply List.map_congr_left
    intro e he
    rw [shift_of_equality (relation_of_mem_equalities he)]
  · apply List.map_congr_left
    intro e he
    rw [shift_of_inequality (relation_of_mem_inequalities he)]

theorem Lists.updateMultipliers_eq {L : Lagrangian α} {x : Vec α} {entries : List (Entry α)}
    (h : L.Lists x entries) :
    L.updateMultipliers x = .ok { L with multipliers := sorted (shift L.penalty) entries } := by
  simp only [updateMultipliers, bind_eq_ok, pure_eq_ok]
  exact ⟨_, h.residuals_eq, by rw [h.shifted_eq]⟩

/-- After an update, each constraint's multiplier has followed its own rule. -/
theorem Lists.multipliersInOrder_updated {L updated : Lagrangian α} {x : Vec α}
    {entries : List (Entry α)} (h : L.Lists x entries)
    (hupdated : L.updateMultipliers x = .ok updated) :
    updated.multipliersInOrder = entries.map (shift L.penalty) := by
  rw [h.updateMultipliers_eq] at hupdated
  cases hupdated
  unfold multipliersInOrder
  rw [← h.constraints, List.map_map]
  exact inOrder_sorted _ entries

/-- An update moves multipliers, but it neither adds nor drops any. -/
theorem Balanced.updated {L updated : Lagrangian α} {x : Vec α} (hbalanced : L.Balanced)
    (hupdated : L.updateMultipliers x = .ok updated) : updated.Balanced := by
  obtain ⟨r, hr, -⟩ : ∃ r, L.problem.residuals x = .ok r ∧ _ := by
    simpa only [updateMultipliers, bind_eq_ok, pure_eq_ok] using hupdated
  obtain ⟨entries, hlists⟩ := exists_lists hbalanced hr
  rw [hlists.updateMultipliers_eq] at hupdated
  cases hupdated
  exact balanced_of_sorted hlists.constraints rfl

end Lagrangian

end Optima
