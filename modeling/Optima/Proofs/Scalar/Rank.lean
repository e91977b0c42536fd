import Mathlib.Order.Bounds.Basic
import Mathlib.Order.MinMax
import Optima.Scalar

/-!
Comparisons as a linear order. Numbers that may be undefined are not linearly ordered, but the
defined ones have ranks that are, and every comparison is a comparison of ranks that an undefined
number fails. All ways of taking a maximum then mean the same thing, as long as nothing is
undefined: they differ only in which of two equal numbers they keep.
-/

namespace Optima

namespace Scalar

variable {α : Type} [Scalar α]

/-- A number that equals itself. -/
def Defined (x : α) : Prop := same x x = true

theorem larger_defined {x y : α} (hx : Defined x) (hy : Defined y) : Defined (larger x y) := by
  unfold larger
  split
  · exact hy
  · exact hx

theorem maximum_defined {x y : α} (hx : Defined x) (hy : Defined y) : Defined (maximum x y) := by
  unfold maximum
  split
  · exact hx
  · exact hy

theorem greatest?_eq_none {members : List α} (h : greatest? members = none) : members = [] := by
  cases members with
  | nil => rfl
  | cons first rest => simp [greatest?] at h

end Scalar

/-- Comparisons that compare ranks. Which rank an undefined number has does
not matter, since it fails every comparison. -/
class Ranked (α : Type) [Scalar α] where
  Rank : Type
  order : LinearOrder Rank
  rank : α → Rank
  less_iff (x y : α) : Scalar.less x y = true ↔
    Scalar.Defined x ∧ Scalar.Defined y ∧ rank x < rank y
  atMost_iff (x y : α) : Scalar.atMost x y = true ↔
    Scalar.Defined x ∧ Scalar.Defined y ∧ rank x ≤ rank y
  same_iff (x y : α) : Scalar.same x y = true ↔
    Scalar.Defined x ∧ Scalar.Defined y ∧ rank x = rank y
  zero_defined : Scalar.Defined (0 : α)
  magnitude_defined {x : α} : Scalar.Defined x → Scalar.Defined (Scalar.magnitude x)
  zero_le_magnitude {x : α} : Scalar.Defined x → rank 0 ≤ rank (Scalar.magnitude x)

namespace Ranked

open Scalar

variable {α : Type} [Scalar α] [Ranked α]

instance : LinearOrder (Rank α) := order

theorem same_symm {x y : α} (h : same x y = true) : same y x = true := by
  obtain ⟨hx, hy, hrank⟩ := (same_iff x y).mp h
  exact (same_iff y x).mpr ⟨hy, hx, hrank.symm⟩

theorem same_trans {x y z : α} (hxy : same x y = true) (hyz : same y z = true) :
    same x z = true := by
  obtain ⟨hx, -, hrank⟩ := (same_iff x y).mp hxy
  obtain ⟨-, hz, hrank'⟩ := (same_iff y z).mp hyz
  exact (same_iff x z).mpr ⟨hx, hz, hrank.trans hrank'⟩

theorem less_eq_decide {x y : α} (hx : Defined x) (hy : Defined y) :
    less x y = decide (rank x < rank y) := by
  rw [Bool.eq_iff_iff, less_iff, decide_eq_true_iff]
  simp only [hx, hy, true_and]

/-- On defined numbers the larger one is the maximum of the order. -/
theorem rank_larger {x y : α} (hx : Defined x) (hy : Defined y) :
    rank (larger x y) = max (rank x) (rank y) := by
  unfold larger
  rw [less_eq_decide hx hy]
  simp only [decide_eq_true_eq]
  split
  · next hlt => exact (max_eq_right hlt.le).symm
  · next hlt => exact (max_eq_left (not_lt.mp hlt)).symm

theorem rank_maximum {x y : α} (hx : Defined x) (hy : Defined y) :
    rank (maximum x y) = max (rank x) (rank y) := by
  have hdefined : isUndefined x = false := by
    unfold isUndefined
    rw [hx]
    rfl
  unfold maximum
  rw [hdefined, Bool.or_false, less_eq_decide hy hx]
  simp only [decide_eq_true_eq]
  split
  · next hlt => exact (max_eq_left hlt.le).symm
  · next hlt => exact (max_eq_right (not_lt.mp hlt)).symm

/-- The number is defined, and its rank is the greatest among the ranks of
the members. -/
structure Tops (peak : α) (members : List α) : Prop where
  defined : Defined peak
  isGreatest : IsGreatest {r | ∃ x ∈ members, rank x = r} (rank peak)

theorem Tops.bound {peak : α} {members : List α} (h : Tops peak members) {x : α}
    (hx : x ∈ members) : rank x ≤ rank peak :=
  h.isGreatest.2 ⟨x, hx, rfl⟩

/-- Two numbers that top the same members are equal, whichever they are. -/
theorem Tops.same {a b : α} {members : List α} (ha : Tops a members) (hb : Tops b members) :
    Scalar.same a b = true :=
  (same_iff a b).mpr ⟨ha.defined, hb.defined, ha.isGreatest.unique hb.isGreatest⟩

theorem tops_singleton {x : α} (hx : Defined x) : Tops x [x] := by
  refine ⟨hx, ⟨x, by simp, rfl⟩, ?_⟩
  rintro r ⟨y, hy, rfl⟩
  rw [List.mem_singleton.mp hy]

theorem Tops.larger {a b : α} {left right : List α} (ha : Tops a left) (hb : Tops b right) :
    Tops (Scalar.larger a b) (left ++ right) := by
  refine ⟨larger_defined ha.defined hb.defined, ?_, ?_⟩
  · rw [rank_larger ha.defined hb.defined]
    rcases max_choice (rank a) (rank b) with hmax | hmax
    · obtain ⟨x, hx, heq⟩ := ha.isGreatest.1
      exact ⟨x, by simp [hx], by rw [hmax, heq]⟩
    · obtain ⟨x, hx, heq⟩ := hb.isGreatest.1
      exact ⟨x, by simp [hx], by rw [hmax, heq]⟩
  · rintro r ⟨x, hx, rfl⟩
    rw [rank_larger ha.defined hb.defined]
    rcases List.mem_append.mp hx with hleft | hright
    · exact (ha.bound hleft).trans (le_max_left _ _)
    · exact (hb.bound hright).trans (le_max_right _ _)

/-- Folding any operation that takes maxima of ranks gives the top of what
was folded. -/
theorem tops_foldl {op : α → α → α}
    (hdefined : ∀ {x y : α}, Defined x → Defined y → Defined (op x y))
    (hrank : ∀ {x y : α}, Defined x → Defined y → rank (op x y) = max (rank x) (rank y))
    {first : α} {rest : List α} (hfirst : Defined first) (hrest : ∀ x ∈ rest, Defined x) :
    Tops (rest.foldl op first) (first :: rest) := by
  induction rest generalizing first with
  | nil => exact tops_singleton hfirst
  | cons x rest ih =>
      have hx : Defined x := hrest x (by simp)
      have htail := ih (hdefined hfirst hx) fun y hy => hrest y (by simp [hy])
      have hop := hrank hfirst hx
      refine ⟨htail.defined, ?_, ?_⟩
      · obtain ⟨y, hy, heq⟩ := htail.isGreatest.1
        rcases List.mem_cons.mp hy with rfl | hy
        · rcases max_choice (rank first) (rank x) with hmax | hmax
          · exact ⟨first, by simp, by rw [← hmax, ← hop]; exact heq⟩
          · exact ⟨x, by simp, by rw [← hmax, ← hop]; exact heq⟩
        · exact ⟨y, by simp [hy], heq⟩
      · rintro r ⟨y, hy, rfl⟩
        have hboth : max (rank first) (rank x) ≤ rank (rest.foldl op (op first x)) :=
          hop ▸ htail.bound (by simp)
        simp only [List.mem_cons] at hy
        rcases hy with rfl | rfl | hy
        · exact (le_max_left _ _).trans hboth
        · exact (le_max_right _ _).trans hboth
        · exact htail.bound (by simp [hy])

theorem tops_of_greatest? {peak : α} {members : List α} (hmembers : ∀ x ∈ members, Defined x)
    (h : greatest? members = some peak) : Tops peak members := by
  cases members with
  | nil => simp [greatest?] at h
  | cons first rest =>
      simp only [greatest?, Option.some.injEq] at h
      rw [← h]
      exact tops_foldl maximum_defined rank_maximum (hmembers first (by simp))
        fun x hx => hmembers x (by simp [hx])

/-- The largest of numbers that are not negative, with zero for no numbers,
tops zero and the numbers. -/
theorem tops_largestD {members : List α} (hmembers : ∀ x ∈ members, Defined x)
    (hnonneg : ∀ x ∈ members, rank 0 ≤ rank x) :
    Tops (largestD 0 members) (0 :: members) := by
  cases members with
  | nil => exact tops_singleton zero_defined
  | cons first rest =>
      have htop : Tops (rest.foldl Scalar.larger first) (first :: rest) :=
        tops_foldl larger_defined rank_larger (hmembers first (by simp))
          fun x hx => hmembers x (by simp [hx])
      refine ⟨htop.defined, ?_, ?_⟩
      · obtain ⟨x, hx, heq⟩ := htop.isGreatest.1
        exact ⟨x, List.mem_cons_of_mem _ hx, heq⟩
      · rintro r ⟨x, hx, rfl⟩
        rcases List.mem_cons.mp hx with rfl | hx
        · exact (hnonneg first (by simp)).trans (htop.bound (by simp))
        · exact htop.bound hx

end Ranked

end Optima
