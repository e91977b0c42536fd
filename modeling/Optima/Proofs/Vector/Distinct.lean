import Mathlib.Data.List.Forall2
import Mathlib.Data.List.Induction
import Optima.Proofs.Scalar.Real
import Optima.Vec

/-!
Lists of vectors without repetitions. Leaving out repetitions adds no vector and keeps the first one
of those that are equal, in the order of the list; no two that are kept are equal. In exact
arithmetic two vectors are the same exactly when they are equal, so that no vector is lost.
-/

namespace Optima.Vec

section Scalars

variable {α : Type} [Scalar α]

/-- Vectors that are kept once stay, and all others come from the list. -/
theorem mem_foldl_distinct {vs kept : List (Vec α)} {p : Vec α} :
    (p ∈ kept →
      p ∈ vs.foldl (fun kept v => if kept.any (same v) then kept else v :: kept) kept) ∧
    (p ∈ vs.foldl (fun kept v => if kept.any (same v) then kept else v :: kept) kept →
      p ∈ kept ∨ p ∈ vs) := by
  induction vs generalizing kept with
  | nil => exact ⟨id, Or.inl⟩
  | cons v vs ih =>
      rw [List.foldl_cons]
      split
      · refine ⟨ih.1, fun h => ?_⟩
        exact (ih.2 h).imp_right (List.mem_cons_of_mem v)
      · refine ⟨fun h => ih.1 (List.mem_cons_of_mem v h), fun h => ?_⟩
        rcases ih.2 h with hkept | hrest
        · rcases List.mem_cons.mp hkept with rfl | hkept
          · exact Or.inr List.mem_cons_self
          · exact Or.inl hkept
        · exact Or.inr (List.mem_cons_of_mem v hrest)

theorem mem_of_mem_distinct {vs : List (Vec α)} {p : Vec α} (h : p ∈ distinct vs) : p ∈ vs := by
  rw [distinct, List.mem_reverse] at h
  rcases mem_foldl_distinct.2 h with hnone | hp
  · cases hnone
  · exact hp

theorem distinct_ne_nil {vs : List (Vec α)} (h : vs ≠ []) : distinct vs ≠ [] := by
  cases vs with
  | nil => exact absurd rfl h
  | cons first rest =>
      apply List.ne_nil_of_mem (a := first)
      rw [distinct, List.mem_reverse, List.foldl_cons]
      exact mem_foldl_distinct.1 List.mem_cons_self

/-- A vector is kept unless it equals one that has been kept. -/
theorem distinct_append_singleton (vs : List (Vec α)) (v : Vec α) :
    distinct (vs ++ [v]) =
      if (distinct vs).any (same v) then distinct vs else distinct vs ++ [v] := by
  simp only [distinct, List.foldl_append, List.foldl_cons, List.foldl_nil, List.any_reverse]
  split
  · rfl
  · exact List.reverse_cons

/-- The vectors that are kept stand in the order of the list. -/
theorem distinct_sublist (vs : List (Vec α)) : (distinct vs).Sublist vs := by
  induction vs using List.reverseRecOn with
  | nil => exact List.Sublist.refl []
  | append_singleton vs v ih =>
      rw [distinct_append_singleton]
      split
      · exact ih.trans (List.sublist_append_left vs [v])
      · exact ih.append_right [v]

theorem same_iff_forall₂ {v w : Vec α} :
    v.same w = true ↔ List.Forall₂ (fun x y => Scalar.same x y = true) v.toList w.toList := by
  obtain ⟨xs⟩ := v
  obtain ⟨ys⟩ := w
  simp only [same, size, Bool.and_eq_true, beq_iff_eq]
  induction xs generalizing ys with
  | nil => cases ys <;> simp
  | cons x xs ih =>
      cases ys with
      | nil => simp
      | cons y ys =>
          rw [List.forall₂_cons, ← ih]
          simp only [List.length_cons, Nat.add_right_cancel_iff, List.zipWith_cons_cons,
            List.all_cons, id_eq, Bool.and_eq_true]
          exact and_left_comm

/-- A vector whose components are defined equals itself. -/
theorem same_self {v : Vec α} (h : ∀ x ∈ v.toList, Scalar.Defined x) : v.same v = true :=
  same_iff_forall₂.mpr (List.forall₂_same.mpr h)

/-- Every vector that equals itself equals one that is kept. -/
theorem exists_same_distinct {vs : List (Vec α)} {q : Vec α} (hq : q ∈ vs)
    (hself : q.same q = true) : ∃ u ∈ distinct vs, q.same u = true := by
  induction vs using List.reverseRecOn with
  | nil => cases hq
  | append_singleton vs v ih =>
      rw [distinct_append_singleton]
      rcases List.mem_append.mp hq with hq | hq
      · obtain ⟨u, hu, hsame⟩ := ih hq
        refine ⟨u, ?_, hsame⟩
        split
        · exact hu
        · exact List.mem_append_left [v] hu
      · rw [List.mem_singleton.mp hq] at hself ⊢
        split
        · next hany => exact List.any_eq_true.mp hany
        · exact ⟨v, List.mem_append_right _ List.mem_cons_self, hself⟩

end Scalars

section Ranks

variable {α : Type} [Scalar α] [Ranked α]

theorem same_symm {v w : Vec α} (h : v.same w = true) : w.same v = true := by
  rw [same_iff_forall₂] at h ⊢
  exact h.flip.imp fun _ _ => Ranked.same_symm

theorem same_trans {u v w : Vec α} (huv : u.same v = true) (hvw : v.same w = true) :
    u.same w = true := by
  obtain ⟨xs⟩ := u
  obtain ⟨ys⟩ := v
  obtain ⟨zs⟩ := w
  simp only [same_iff_forall₂] at huv hvw ⊢
  induction huv generalizing zs with
  | nil => exact hvw
  | cons hxy _ ih =>
      cases hvw with
      | cons hyz hrest => exact .cons (Ranked.same_trans hxy hyz) (ih _ hrest)

theorem same_comm (v w : Vec α) : v.same w = w.same v :=
  Bool.eq_iff_iff.mpr ⟨same_symm, same_symm⟩

/-- No two of the vectors that are kept are equal. -/
theorem distinct_pairwise (vs : List (Vec α)) :
    (distinct vs).Pairwise fun u v => u.same v = false := by
  induction vs using List.reverseRecOn with
  | nil => exact List.Pairwise.nil
  | append_singleton vs v ih =>
      rw [distinct_append_singleton]
      split
      · exact ih
      · next hnone =>
          refine List.pairwise_append.mpr ⟨ih, List.pairwise_singleton _ _, ?_⟩
          intro u hu w hw
          rw [List.mem_singleton.mp hw, same_comm, ← Bool.not_eq_true]
          intro hsame
          exact hnone (List.any_eq_true.mpr ⟨u, hu, hsame⟩)

/-- Of vectors that all equal one vector, one is kept. -/
theorem length_distinct_eq_one {vs : List (Vec α)} {n : Vec α} (hne : vs ≠ [])
    (h : ∀ q ∈ vs, q.same n = true) : (distinct vs).length = 1 := by
  have hall : ∀ q ∈ distinct vs, q.same n = true := fun q hq => h q (mem_of_mem_distinct hq)
  have hpairwise := distinct_pairwise vs
  have hkept := distinct_ne_nil hne
  cases hdistinct : distinct vs with
  | nil => exact absurd hdistinct hkept
  | cons u rest =>
      rw [hdistinct] at hall hpairwise
      cases rest with
      | nil => rfl
      | cons v rest =>
          have hsame : u.same v = true :=
            same_trans (hall u (by simp)) (same_symm (hall v (by simp)))
          rw [(List.pairwise_cons.mp hpairwise).1 v (by simp)] at hsame
          cases hsame

end Ranks

theorem same_iff {v w : Vec ℝ} : v.same w = true ↔ v = w := by
  obtain ⟨xs⟩ := v
  obtain ⟨ys⟩ := w
  simp only [same_iff_forall₂, Exact.same_iff, List.forall₂_eq_eq_eq, mk.injEq]

/-- No vector is lost, and none is added. -/
theorem mem_distinct {vs : List (Vec ℝ)} {p : Vec ℝ} : p ∈ distinct vs ↔ p ∈ vs := by
  refine ⟨mem_of_mem_distinct, ?_⟩
  rw [distinct, List.mem_reverse]
  generalize ([] : List (Vec ℝ)) = kept
  induction vs generalizing kept with
  | nil => exact fun h => nomatch h
  | cons v vs ih =>
      intro h
      rw [List.foldl_cons]
      rcases List.mem_cons.mp h with rfl | hrest
      · apply mem_foldl_distinct.1
        split
        · next hany =>
            obtain ⟨w, hw, hsame⟩ := List.any_eq_true.mp hany
            exact same_iff.mp hsame ▸ hw
        · exact List.mem_cons_self
      · exact ih _ hrest

end Optima.Vec
