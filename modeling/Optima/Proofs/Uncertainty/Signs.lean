import Mathlib.Data.Set.Card
import Optima.Proofs.Uncertainty.Corners

/-!
The corners of a box as choices of signs. A list of signs, one for each coordinate, names a corner;
the corners are listed in the lexicographic order of their signs, minus first. Signs of coordinates
that do not deviate make no difference, so each positive deviation doubles the number of different
corners.
-/

namespace Optima.Box

/-- All lists of signs of a length; a minus, which is false, comes first. -/
def signLists : ℕ → List (List Bool)
  | 0 => [[]]
  | n + 1 => (signLists n).map (false :: ·) ++ (signLists n).map (true :: ·)

theorem mem_signLists {n : ℕ} {signs : List Bool} : signs ∈ signLists n ↔ signs.length = n := by
  induction n generalizing signs with
  | zero => rw [signLists, List.mem_singleton, List.length_eq_zero_iff]
  | succ n ih =>
      cases signs with
      | nil => simp [signLists]
      | cons sign signs => cases sign <;> simp [signLists, ih]

theorem length_signLists (n : ℕ) : (signLists n).length = 2 ^ n := by
  induction n with
  | zero => rfl
  | succ n ih =>
      rw [signLists, List.length_append, List.length_map, List.length_map, ih, pow_succ]
      omega

/-- The lists of signs are in lexicographic order. -/
theorem pairwise_signLists (n : ℕ) : (signLists n).Pairwise (· < ·) := by
  induction n with
  | zero => exact List.pairwise_singleton _ _
  | succ n ih =>
      have hcons (sign : Bool) : ((signLists n).map (sign :: ·)).Pairwise (· < ·) := by
        rw [List.pairwise_map]
        exact ih.imp fun h => List.cons_lt_cons_iff.mpr (Or.inr ⟨rfl, h⟩)
      rw [signLists, List.pairwise_append]
      refine ⟨hcons false, hcons true, ?_⟩
      intro signs hsigns signs' hsigns'
      obtain ⟨rest, -, rfl⟩ := List.mem_map.mp hsigns
      obtain ⟨rest', -, rfl⟩ := List.mem_map.mp hsigns'
      exact List.cons_lt_cons_iff.mpr (Or.inl Bool.false_lt_true)

section Choices

variable {α : Type}

def choose (ends : List (α × α)) (signs : List Bool) : List α :=
  List.zipWith (fun e sign => if sign then e.2 else e.1) ends signs

/-- Choosing ends in order is counting through the signs. -/
theorem choices_eq_map_signs (ends : List (α × α)) :
    choices ends = (signLists ends.length).map (choose ends) := by
  induction ends with
  | nil => rfl
  | cons e rest ih =>
      obtain ⟨least, most⟩ := e
      simp only [choices, ih, List.length_cons, signLists, List.map_append, List.map_map]
      rfl

/-- Each interval whose ends differ doubles the number of different choices. -/
theorem ncard_choices [DecidableEq α] (ends : List (α × α)) :
    {p | p ∈ choices ends}.ncard = 2 ^ (ends.filter fun e => e.1 ≠ e.2).length := by
  induction ends with
  | nil =>
      have hsingle : {p : List α | p ∈ choices []} = {[]} := by
        ext p
        exact List.mem_singleton
      rw [hsingle, Set.ncard_singleton]
      rfl
  | cons e rest ih =>
      obtain ⟨least, most⟩ := e
      have hsplit : {p | p ∈ choices ((least, most) :: rest)} =
          (least :: ·) '' {p | p ∈ choices rest} ∪ (most :: ·) '' {p | p ∈ choices rest} := by
        ext p
        simp only [choices, List.mem_append, List.mem_map]
        rfl
      have himage (a : α) : ((a :: ·) '' {p | p ∈ choices rest}).ncard =
          2 ^ (rest.filter fun e => e.1 ≠ e.2).length := by
        rw [Set.ncard_image_of_injective _ (List.cons_injective), ih]
      have hfinite (a : α) : ((a :: ·) '' {p | p ∈ choices rest}).Finite :=
        (List.finite_toSet _).image _
      rw [hsplit]
      by_cases hends : least = most
      · rw [hends, Set.union_self, himage, List.filter_cons_of_neg (by simp)]
      · have hdisjoint : Disjoint ((least :: ·) '' {p | p ∈ choices rest})
            ((most :: ·) '' {p | p ∈ choices rest}) := by
          rw [Set.disjoint_left]
          rintro _ ⟨p, -, rfl⟩ ⟨q, -, hq⟩
          exact hends (List.cons.inj hq).1.symm
        rw [Set.ncard_union_eq hdisjoint (hfinite least) (hfinite most), himage, himage,
          List.filter_cons_of_pos (by simpa using hends), List.length_cons, pow_succ]
        omega

end Choices

variable (box : Box ℝ)

def corner (signs : List Bool) : Vec ℝ :=
  ⟨List.zipWith (fun c sign => if sign then c.1 + c.2 else c.1 - c.2) box.sides signs⟩

theorem length_ends : box.ends.length = box.dimension := by
  rw [ends, List.length_map, sides, List.length_zip]
  exact min_eq_left (le_of_eq box.aligned.symm)

theorem corners_eq_map_corner : box.corners = (signLists box.dimension).map box.corner := by
  rw [corners, zip_bounds, choices_eq_map_signs, length_ends, List.map_map]
  refine List.map_congr_left fun signs _ => congrArg Vec.mk ?_
  rw [choose, ends, List.zipWith_map_left]

theorem length_corners : box.corners.length = 2 ^ box.dimension := by
  rw [corners_eq_map_corner, List.length_map, length_signLists]

/-- Each positive deviation doubles the number of different corners. -/
theorem ncard_corners :
    {p | p ∈ box.corners}.ncard = 2 ^ (box.deviations.toList.filter (0 < ·)).length := by
  have hset : {p | p ∈ box.corners} = Vec.mk '' {p | p ∈ choices box.ends} := by
    ext p
    rw [Set.mem_image]
    constructor
    · intro hp
      exact ⟨p.toList, box.mem_corners.mp hp, rfl⟩
    · rintro ⟨q, hq, rfl⟩
      exact box.mem_corners.mpr hq
  have hinjective : Function.Injective (Vec.mk : List ℝ → Vec ℝ) := fun p q h => Vec.mk.inj h
  have hcount : (box.ends.filter fun e => e.1 ≠ e.2).length =
      (box.deviations.toList.filter (0 < ·)).length := by
    rw [ends, deviations_eq_sides, List.filter_map, List.filter_map, List.length_map,
      List.length_map]
    refine congrArg List.length (List.filter_congr fun c hc => ?_)
    have hnonneg := box.deviation_nonneg hc
    rw [Bool.eq_iff_iff]
    simp only [Function.comp_apply, decide_eq_true_iff, ne_eq]
    constructor
    · intro hends
      refine lt_of_le_of_ne hnonneg fun hzero => hends ?_
      rw [← hzero, sub_zero, add_zero]
    · intro hpos hends
      linarith
  rw [hset, Set.ncard_image_of_injective _ hinjective, ncard_choices, hcount]

end Optima.Box
