import Optima.Proofs.Uncertainty.Signs

/-!
Membership in boxes in exact arithmetic. A point is a member if no coordinate leaves its interval by
more than the tolerance, so all points inside are members, and with them everything that is sampled:
the listed corners, and the points drawn when more are asked for.
-/

namespace Optima.Box

variable (box : Box ℝ)

/-- Membership looks at every coordinate that both the point and the box have. -/
theorem contains_iff {p : Vec ℝ} :
    box.contains p = true ↔ ∀ c ∈ p.toList.zip box.sides,
      c.2.1 - c.2.2 - 1e-10 ≤ c.1 ∧ c.1 ≤ c.2.1 + c.2.2 + 1e-10 := by
  have hall (f : ℝ → ℝ × ℝ → Bool) : (List.zipWith f p.toList box.sides).all id = true ↔
      ∀ c ∈ p.toList.zip box.sides, f c.1 c.2 = true := by
    rw [← List.map_uncurry_zip_eq_zipWith, List.all_map, List.all_eq_true]
    rfl
  rw [contains, lower_eq_sides, upper_eq_sides, List.zipWith_map_right, List.zipWith_map_right,
    Bool.and_eq_true, hall, hall, ← forall₂_and]
  refine forall₂_congr fun c _ => and_congr ?_ ?_
  · exact Exact.atMost_iff _ _
  · exact Exact.atMost_iff _ _

/-- Every point between the bounds is a member. -/
theorem contains_of_inside {p : Vec ℝ} (h : box.Inside p) : box.contains p = true := by
  rw [inside_iff_within, Within, ends, List.forall₂_map_left_iff] at h
  rw [contains_iff]
  rintro ⟨x, n, δ⟩ hc
  obtain ⟨hleast, hmost⟩ := (List.forall₂_iff_zip.mp h.flip).2 hc
  exact ⟨by linarith, by linarith⟩

/-- A point that leaves an interval by more than the tolerance is not a member. -/
theorem contains_eq_false {p : Vec ℝ} {i : ℕ} {n δ x : ℝ} (hside : box.sides[i]? = some (n, δ))
    (hx : p.toList[i]? = some x) (hleaves : x < n - δ - 1e-10 ∨ n + δ + 1e-10 < x) :
    box.contains p = false := by
  rw [Bool.eq_false_iff, ne_eq, contains_iff]
  intro hinside
  have hzip : (p.toList.zip box.sides)[i]? = some (x, n, δ) :=
    List.getElem?_zip_eq_some.mpr ⟨hx, hside⟩
  obtain ⟨hleast, hmost⟩ := hinside _ (List.mem_of_getElem? hzip)
  rcases hleaves with h | h
  · exact absurd h (not_lt.mpr hleast)
  · exact absurd h (not_lt.mpr hmost)

variable {σ : Type} {source : Source σ ℝ}

/-- In a low dimension the corners come first, and points are drawn only if there are too few of
them; in a high dimension all points are drawn. -/
theorem sample_yields_members (hunit : ∀ s, 0 ≤ (source.unit s).1 ∧ (source.unit s).1 ≤ 1)
    (count : ℕ) :
    (box.sample source count).Yields fun points =>
      (box.dimension ≤ 10 →
        points.length = max count (2 ^ box.dimension) ∧ box.corners <+: points) ∧
      (10 < box.dimension → points.length = count) ∧
      ∀ p ∈ points, box.contains p = true := by
  refine (sample_yields_drawn (fun _ => box.isMeasurable_exact) (box.interior_yields hunit)).imp ?_
  rintro _ ⟨drawn, rfl, hlength, hinside⟩
  refine ⟨fun hlow => ?_, fun hhigh => ?_, fun p hp => ?_⟩
  · have hlisted : box.listed = box.corners := if_pos hlow
    rw [hlisted, length_corners] at hlength
    rw [hlisted, List.length_append, length_corners, hlength]
    exact ⟨by omega, List.prefix_append _ _⟩
  · have hlisted : box.listed = [] := if_neg (not_le.mpr hhigh)
    rw [hlisted] at hlength ⊢
    exact hlength
  · rcases List.mem_append.mp hp with hp | hp
    · have hcorner : p ∈ box.corners := by
        unfold listed at hp
        split at hp
        · exact hp
        · cases hp
      exact box.contains_of_inside (inside_of_mem_corners hcorner)
    · exact box.contains_of_inside (hinside p hp)

/-- The corners of a box are all choices of a lesser or a greater end for each coordinate, in the
lexicographic order of their signs, and each positive deviation doubles the number of different
ones. Samples start with them in up to ten dimensions. All sampled points and all points between the
bounds are members, and no point is that leaves an interval by more than the tolerance. -/
theorem corners_and_samples (hunit : ∀ s, 0 ≤ (source.unit s).1 ∧ (source.unit s).1 ≤ 1)
    (count : ℕ) :
    (∃ signs : List (List Bool), signs.Pairwise (· < ·) ∧
        (∀ s, s ∈ signs ↔ s.length = box.dimension) ∧ box.corners = signs.map box.corner) ∧
      box.corners.length = 2 ^ box.dimension ∧
      {p | p ∈ box.corners}.ncard = 2 ^ (box.deviations.toList.filter (0 < ·)).length ∧
      (box.sample source count).Yields (fun points =>
        (box.dimension ≤ 10 →
          points.length = max count (2 ^ box.dimension) ∧ box.corners <+: points) ∧
        (10 < box.dimension → points.length = count) ∧
        ∀ p ∈ points, box.contains p = true) ∧
      (∀ p, box.Inside p → box.contains p = true) ∧
      ∀ (p : Vec ℝ) (i : ℕ) (n δ x : ℝ), box.nominal.toList[i]? = some n →
        box.deviations.toList[i]? = some δ → p.toList[i]? = some x →
        (x < n - δ - 1e-10 ∨ n + δ + 1e-10 < x) → box.contains p = false := by
  refine ⟨⟨signLists box.dimension, pairwise_signLists _, fun _ => mem_signLists,
    box.corners_eq_map_corner⟩, box.length_corners, box.ncard_corners,
    box.sample_yields_members hunit count, fun _ => box.contains_of_inside, ?_⟩
  intro p i n δ x hn hδ hx hleaves
  exact box.contains_eq_false (List.getElem?_zip_eq_some.mpr ⟨hn, hδ⟩) hx hleaves

section Slab

noncomputable def slab : Box ℝ where
  nominal := ⟨[1, 5.0, 0]⟩
  deviations := ⟨[0.5, 0, 4.0]⟩
  aligned := rfl
  nonNegative := by
    intro d hd
    rw [Bool.eq_false_iff, ne_eq, Exact.less_iff, not_lt]
    simp only [List.mem_cons, List.not_mem_nil, or_false] at hd
    rcases hd with rfl | rfl | rfl <;> norm_num

noncomputable def middle : Source Unit ℝ where
  unit s := (0.5, s)
  normal s := (0, s)
  position _ s := (0, s)

/-- Four of the eight corners of the slab are different, ten points of it start
with them, and a point that is too far in the flat direction is not a member. -/
theorem slab_corners_and_samples :
    slab.corners.length = 8 ∧ {p | p ∈ slab.corners}.ncard = 4 ∧
      (slab.sample middle 10).Yields
        (fun points => points.length = 10 ∧ slab.corners <+: points) ∧
      slab.contains ⟨[1, 4.0, 0]⟩ = false := by
  have hunit : ∀ s, 0 ≤ (middle.unit s).1 ∧ (middle.unit s).1 ≤ 1 := by
    intro s
    change (0 : ℝ) ≤ 0.5 ∧ (0.5 : ℝ) ≤ 1
    norm_num
  obtain ⟨-, hlength, hdifferent, hsample, -, houtside⟩ := slab.corners_and_samples hunit 10
  have hpositive : slab.deviations.toList.filter (0 < ·) = [0.5, 4.0] := by
    have hhalf : (0 : ℝ) < 0.5 := by norm_num
    have hfour : (0 : ℝ) < 4.0 := by norm_num
    simp [slab, hhalf, hfour]
  rw [hpositive] at hdifferent
  refine ⟨hlength, hdifferent, hsample.imp fun points hpoints => hpoints.1 (by decide), ?_⟩
  exact houtside _ 1 5.0 0 4.0 rfl rfl rfl (Or.inl (by norm_num))

end Slab

end Optima.Box
