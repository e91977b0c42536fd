import Optima.Proofs.Scalar.Positive
import Optima.Proofs.Scalar.Real
import Optima.Statistics.Weighted

/-!
When there are weights. Probabilities can be normalized if all of them are finite, none is negative
and some are positive; nothing else is ever wrong, since a total of positive numbers is positive, on
doubles as in exact arithmetic, in whatever order it is added up. In exact arithmetic the weights
are the shares of the positive probabilities.
-/

namespace Optima

open Scalar

namespace Scalar

section Closed

variable {α : Type} [Scalar α] {P : α → Prop} (hadd : ∀ x y, P x → P y → P (x + y))

include hadd

theorem foldl_of_closed {start : α} {xs : List α} (hstart : P start) (h : ∀ x ∈ xs, P x) :
    P (xs.foldl (· + ·) start) := by
  induction xs generalizing start with
  | nil => exact hstart
  | cons x xs ih =>
      obtain ⟨hx, hxs⟩ := List.forall_mem_cons.mp h
      exact ih (hadd _ _ hstart hx) hxs

theorem zipWith_of_closed {xs ys : List α} (hxs : ∀ x ∈ xs, P x) (hys : ∀ y ∈ ys, P y) :
    ∀ z ∈ List.zipWith (· + ·) xs ys, P z := by
  induction xs generalizing ys with
  | nil => simp
  | cons x xs ih =>
      cases ys with
      | nil => simp
      | cons y ys =>
          obtain ⟨hx, hxs⟩ := List.forall_mem_cons.mp hxs
          obtain ⟨hy, hys⟩ := List.forall_mem_cons.mp hys
          exact List.forall_mem_cons.mpr ⟨hadd x y hx hy, ih hxs hys⟩

theorem fillLanes_of_closed {chunks : Nat} {lanes rest : List α}
    (hlength : lanes.length = laneCount) (hchunks : laneCount * chunks ≤ rest.length)
    (hlanes : ∀ x ∈ lanes, P x) (hrest : ∀ x ∈ rest, P x) :
    (fillLanes chunks lanes rest).1.length = laneCount ∧
      (∀ x ∈ (fillLanes chunks lanes rest).1, P x) ∧
      ∀ x ∈ (fillLanes chunks lanes rest).2, P x := by
  induction chunks generalizing lanes rest with
  | zero => exact ⟨hlength, hlanes, hrest⟩
  | succ chunks ih =>
      rw [Nat.mul_succ] at hchunks
      apply ih
      · rw [List.length_zipWith, List.length_take, hlength]
        omega
      · rw [List.length_drop]
        omega
      · exact zipWith_of_closed hadd hlanes fun x hx => hrest x (List.mem_of_mem_take hx)
      · exact fun x hx => hrest x (List.mem_of_mem_drop hx)

theorem joinLanes_of_closed {lanes : List α} (hlength : lanes.length = laneCount)
    (h : ∀ x ∈ lanes, P x) : P (joinLanes lanes) := by
  match lanes, hlength with
  | [a, b, c, d, e, f, g, i], _ =>
      simp only [List.forall_mem_cons] at h
      obtain ⟨ha, hb, hc, hd, he, hf, hg, hi, -⟩ := h
      exact hadd _ _ (hadd _ _ (hadd _ _ ha hb) (hadd _ _ hc hd))
        (hadd _ _ (hadd _ _ he hf) (hadd _ _ hg hi))

/-- However a total is added up, it has what sums keep. -/
theorem total_of_closed {xs : List α} (hne : xs ≠ []) (h : ∀ x ∈ xs, P x) : P (total xs) := by
  fun_induction total xs with
  | case1 xs =>
      cases xs with
      | nil => exact absurd rfl hne
      | cons x xs =>
          obtain ⟨hx, hxs⟩ := List.forall_mem_cons.mp h
          exact foldl_of_closed hadd hx hxs
  | case2 xs _ hlong ihfront ihback =>
      have hcut := cutPoint_pos hlong
      have hcut' := cutPoint_lt hlong
      refine hadd _ _ (ihfront ?_ fun x hx => h x (List.mem_of_mem_take hx))
        (ihback ?_ fun x hx => h x (List.mem_of_mem_drop hx))
      · apply List.ne_nil_of_length_pos
        rw [List.length_take]
        omega
      · apply List.ne_nil_of_length_pos
        rw [List.length_drop]
        omega
  | case3 xs hshort _ =>
      have hlength : laneCount ≤ xs.length := Nat.le_of_not_lt hshort
      have hlanes : (xs.take laneCount).length = laneCount := by
        rw [List.length_take, min_eq_left hlength]
      have hchunks : laneCount * (xs.length / laneCount - 1) ≤ (xs.drop laneCount).length := by
        rw [List.length_drop, Nat.mul_sub_one]
        exact Nat.sub_le_sub_right (Nat.mul_div_le _ _) _
      obtain ⟨hfilled, hin, hleft⟩ := fillLanes_of_closed hadd hlanes hchunks
        (fun x hx => h x (List.mem_of_mem_take hx)) fun x hx => h x (List.mem_of_mem_drop hx)
      exact foldl_of_closed hadd (joinLanes_of_closed hadd hfilled hin) hleft

end Closed

end Scalar

/-- A list of probabilities that no weights are made of: one of them is negative
or not finite, or none is positive. -/
def Unweighable {α : Type} [Scalar α] (probabilities : List α) : Prop :=
  (∃ p ∈ probabilities, less p 0 = true ∨ isFinite p = false) ∨
    ∀ p ∈ probabilities, isPossible p = false

section Weighable

variable {α : Type} [Scalar α] [Ranked α]
  (hadd : ∀ x y : α, less 0 x = true → less 0 y = true → less 0 (x + y) = true)
  (probabilities : List α)

include hadd

/-- Either a list is unweighable and refused, or there are weights. -/
theorem normalizedWeights_cases :
    (Unweighable probabilities ∧
        ∃ cause, normalizedWeights probabilities = .error (.misuse cause)) ∨
      (¬ Unweighable probabilities ∧ ∃ weights, normalizedWeights probabilities = .ok weights) := by
  have hany : (probabilities.any fun p => less p 0 || !isFinite p) = true ↔
      ∃ p ∈ probabilities, less p 0 = true ∨ isFinite p = false := by
    simp only [List.any_eq_true, Bool.or_eq_true, Bool.not_eq_true']
  have hnone :
      probabilities.filter isPossible = [] ↔ ∀ p ∈ probabilities, isPossible p = false := by
    simp only [List.filter_eq_nil_iff, Bool.not_eq_true]
  unfold normalizedWeights
  by_cases hrefused : ∃ p ∈ probabilities, less p 0 = true ∨ isFinite p = false
  · rw [if_pos (hany.mpr hrefused)]
    exact Or.inl ⟨Or.inl hrefused, _, rfl⟩
  · rw [if_neg (mt hany.mp hrefused)]
    by_cases hpositive : probabilities.filter isPossible = []
    · have htotal : atMost (total ([] : List α)) 0 = true := by
        rw [total]
        exact (Ranked.atMost_iff 0 0).mpr ⟨Ranked.zero_defined, Ranked.zero_defined, le_rfl⟩
      simp only [hpositive, htotal, if_true]
      exact Or.inl ⟨Or.inr (hnone.mp hpositive), _, rfl⟩
    · have htotal : less 0 (total (probabilities.filter isPossible)) = true :=
        total_of_closed hadd hpositive fun p hp => (List.mem_filter.mp hp).2
      have hcheck : atMost (total (probabilities.filter isPossible)) 0 = false := by
        rw [← Bool.not_eq_true, Ranked.atMost_iff]
        rintro ⟨-, -, hle⟩
        exact ((Ranked.less_iff _ _).mp htotal).2.2.not_ge hle
      simp only [hcheck, Bool.false_eq_true, if_false]
      refine Or.inr ⟨?_, _, rfl⟩
      rintro (hsome | hall)
      · exact hrefused hsome
      · exact hpositive (hnone.mpr hall)

/-- Weights are refused for one of three reasons, and all of them are reported as a misuse. -/
theorem normalizedWeights_refuses_iff :
    (∃ cause, normalizedWeights probabilities = .error (.misuse cause)) ↔
      Unweighable probabilities := by
  rcases normalizedWeights_cases hadd probabilities with ⟨hrefused, hcause⟩ | ⟨hnot, weights, hok⟩
  · exact iff_of_true hcause hrefused
  · refine iff_of_false ?_ hnot
    rintro ⟨cause, hcause⟩
    rw [hok] at hcause
    cases hcause

theorem normalizedWeights_returns_iff :
    (∃ weights, normalizedWeights probabilities = .ok weights) ↔ ¬ Unweighable probabilities := by
  rcases normalizedWeights_cases hadd probabilities with ⟨hrefused, cause, herror⟩ | ⟨hnot, hok⟩
  · refine iff_of_false ?_ (not_not.mpr hrefused)
    rintro ⟨weights, hok⟩
    rw [herror] at hok
    cases hok
  · exact iff_of_true hok hnot

end Weighable

/-- What is left out does not count if it is zero. -/
theorem sum_filter_eq {β : Type} {kept : β → Bool} {g : β → ℝ} {members : List β}
    (h : ∀ b ∈ members, kept b = false → g b = 0) :
    ((members.filter kept).map g).sum = (members.map g).sum := by
  induction members with
  | nil => rfl
  | cons b rest ih =>
      obtain ⟨hfirst, hrest⟩ := List.forall_mem_cons.mp h
      rw [List.filter_cons]
      cases hkept : kept b with
      | true =>
          rw [if_pos rfl, List.map_cons, List.map_cons, List.sum_cons, List.sum_cons, ih hrest]
      | false =>
          rw [if_neg Bool.false_ne_true, List.map_cons, List.sum_cons, hfirst hkept, zero_add,
            ih hrest]

theorem Exact.isPossible_iff (p : ℝ) : isPossible p = true ↔ 0 < p := Exact.less_iff 0 p

theorem Exact.add_positive {x y : ℝ} (hx : less 0 x = true) (hy : less 0 y = true) :
    less 0 (x + y) = true := by
  rw [Exact.less_iff] at hx hy ⊢
  exact add_pos hx hy

theorem Exact.eq_zero_of_not_isPossible {p : ℝ} (hnonneg : 0 ≤ p) (h : isPossible p = false) :
    p = 0 := by
  rw [← Bool.not_eq_true, Exact.isPossible_iff, not_lt] at h
  exact le_antisymm h hnonneg

/-- Weights exist if no probability is negative and some are positive. They are
the shares of the positive ones. -/
theorem Exact.normalizedWeights_eq_ok {probabilities weights : List ℝ} :
    normalizedWeights probabilities = .ok weights ↔
      (∀ p ∈ probabilities, 0 ≤ p) ∧ 0 < probabilities.sum ∧
        weights = (probabilities.filter isPossible).map (· / probabilities.sum) := by
  have hany : (probabilities.any fun p => Scalar.less p 0 || !Scalar.isFinite p) = true ↔
      ¬ ∀ p ∈ probabilities, 0 ≤ p := by
    have hfinite (p : ℝ) : (!Scalar.isFinite p) = false := rfl
    simp only [hfinite, Bool.or_false, List.any_eq_true, Exact.less_iff, not_forall, not_le,
      exists_prop]
  unfold normalizedWeights
  by_cases hnonneg : ∀ p ∈ probabilities, 0 ≤ p
  · have hsum : (probabilities.filter isPossible).sum = probabilities.sum := by
      have hkept : ((probabilities.filter isPossible).map id).sum = (probabilities.map id).sum :=
        sum_filter_eq fun p hp => Exact.eq_zero_of_not_isPossible (hnonneg p hp)
      rwa [List.map_id, List.map_id] at hkept
    rw [if_neg (mt hany.mp (not_not.mpr hnonneg))]
    simp only [Exact.total_eq, hsum, Exact.atMost_iff]
    by_cases hpositive : 0 < probabilities.sum
    · rw [if_neg (not_le.mpr hpositive), Except.ok.injEq, eq_comm]
      exact ⟨fun h => ⟨hnonneg, hpositive, h⟩, fun h => h.2.2⟩
    · rw [if_pos (not_lt.mp hpositive)]
      simp only [reduceCtorEq, hpositive, false_and, and_false]
  · rw [if_pos (hany.mpr hnonneg)]
    simp only [reduceCtorEq, hnonneg, false_and]

end Optima
