import Mathlib.Analysis.Convex.Segment
import Optima.Proofs.Robust.Worst
import Optima.Proofs.Uncertainty.Samples

/-!
Boxes in exact arithmetic. A function that bends towards a sense (convex when minimizing, concave
when maximizing) is nowhere in a box worse than at its worst corner: one coordinate after the other
can be moved to an end of its interval. An affine function has its worst value at the corner that
the signs of its coefficients point to. What is sampled from a box with few dimensions lies inside,
and has all corners in it.
-/

namespace Optima

/-- What lies between two lists of coordinates, at a fraction of the way. -/
def mix (s : ℝ) (p q : List ℝ) : List ℝ := List.zipWith (fun a b => (1 - s) * a + s * b) p q

theorem mix_self (s : ℝ) (p : List ℝ) : mix s p p = p := by
  have hsame (a : ℝ) : (1 - s) * a + s * a = a := by ring
  simp [mix, List.zipWith_self, hsame]

theorem exists_mix_eq {least most x : ℝ} (hleast : least ≤ x) (hmost : x ≤ most) :
    ∃ s, 0 ≤ s ∧ s ≤ 1 ∧ (1 - s) * least + s * most = x := by
  obtain ⟨a, b, ha, hb, hsum, hx⟩ : x ∈ segment ℝ least most := by
    rw [segment_eq_Icc (hleast.trans hmost)]
    exact ⟨hleast, hmost⟩
  refine ⟨b, hb, by linarith, ?_⟩
  rw [← hx, ← hsum, add_sub_cancel_right]
  rfl

namespace Sense

variable (sense : Sense)

/-- What lies between two values is no worse than one of them. -/
theorem mix_noWorse {s : ℝ} (v w : ℝ) (h0 : 0 ≤ s) (h1 : s ≤ 1) :
    sense.NoWorse ((1 - s) * v + s * w) v ∨ sense.NoWorse ((1 - s) * v + s * w) w := by
  cases sense with
  | minimize =>
      rcases le_total v w with h | h
      · exact Or.inr (by unfold NoWorse; nlinarith)
      · exact Or.inl (by unfold NoWorse; nlinarith)
  | maximize =>
      rcases le_total v w with h | h
      · exact Or.inl (by unfold NoWorse; nlinarith)
      · exact Or.inr (by unfold NoWorse; nlinarith)

theorem NoWorse.add {sense : Sense} {u v u' v' : ℝ} (h : sense.NoWorse u v)
    (h' : sense.NoWorse u' v') : sense.NoWorse (u + u') (v + v') := by
  cases sense with
  | minimize => exact add_le_add h h'
  | maximize => exact add_le_add h h'

/-- A number with the coefficient `k` can deviate to where it hurts most. -/
theorem exists_deviation (k n : ℝ) {d : ℝ} (hd : 0 ≤ d) :
    ∃ x, n - d ≤ x ∧ x ≤ n + d ∧ k * x = k * n + sense.sign * (|k| * d) := by
  obtain ⟨t, ht, hk⟩ : ∃ t : ℝ, |t| = 1 ∧ |k| = k * t := by
    rcases abs_choice k with h | h
    · exact ⟨1, abs_one, by rw [h, mul_one]⟩
    · exact ⟨-1, by rw [abs_neg, abs_one], by rw [h, mul_neg_one]⟩
  have hsign : |(sense.sign : ℝ)| = 1 := by cases sense <;> simp [Sense.sign]
  have hbound : |sense.sign * t * d| ≤ d := by
    rw [abs_mul, abs_mul, hsign, ht, one_mul, one_mul, abs_of_nonneg hd]
  obtain ⟨hleast, hmost⟩ := abs_le.mp hbound
  refine ⟨n + sense.sign * t * d, by linarith, by linarith, ?_⟩
  rw [hk]
  ring

/-- One coordinate hurts most at the end of its interval that the sign of its coefficient names. -/
theorem deviation_noWorse (k : ℝ) {n d x : ℝ} (hleast : n - d ≤ x) (hmost : x ≤ n + d) :
    sense.NoWorse (k * x) (k * n + sense.sign * (|k| * d)) := by
  have hbound : |k * (x - n)| ≤ |k| * d := by
    rw [abs_mul]
    exact mul_le_mul_of_nonneg_left (abs_le.mpr ⟨by linarith, by linarith⟩) (abs_nonneg k)
  obtain ⟨hneg, hpos⟩ := abs_le.mp hbound
  cases sense with
  | minimize =>
      simp only [NoWorse, Sense.sign]
      linarith
  | maximize =>
      simp only [NoWorse, Sense.sign]
      linarith

end Sense

namespace Box

section Ends

/-- Every coordinate is in its interval. -/
def Within (ends : List (ℝ × ℝ)) (p : List ℝ) : Prop :=
  List.Forall₂ (fun e x => e.1 ≤ x ∧ x ≤ e.2) ends p

theorem within_iff {ends : List (ℝ × ℝ)} {p : List ℝ} :
    Within ends p ↔
      List.Forall₂ (· ≤ ·) (ends.map Prod.fst) p ∧ List.Forall₂ (· ≤ ·) p (ends.map Prod.snd) := by
  unfold Within
  rw [List.forall₂_map_left_iff, List.forall₂_map_right_iff]
  constructor
  · intro h
    exact ⟨h.imp fun _ _ hx => hx.1, (h.imp fun _ _ hx => hx.2).flip⟩
  · rintro ⟨hleast, hmost⟩
    exact hleast.mp (fun _ _ h h' => ⟨h, h'⟩) hmost.flip

theorem within_of_mem_choices {ends : List (ℝ × ℝ)} (h : ∀ e ∈ ends, e.1 ≤ e.2) {p : List ℝ}
    (hp : p ∈ choices ends) : Within ends p := by
  induction ends generalizing p with
  | nil =>
      rw [List.mem_singleton.mp hp]
      exact .nil
  | cons e rest ih =>
      obtain ⟨he, hrest⟩ := List.forall_mem_cons.mp h
      simp only [choices, List.mem_append, List.mem_map] at hp
      obtain ⟨q, hq, rfl⟩ | ⟨q, hq, rfl⟩ := hp
      · exact .cons ⟨le_refl _, he⟩ (ih hrest hq)
      · exact .cons ⟨he, le_refl _⟩ (ih hrest hq)

theorem Within.ends_le {ends : List (ℝ × ℝ)} {p : List ℝ} (h : Within ends p) :
    ∀ e ∈ ends, e.1 ≤ e.2 := by
  induction h with
  | nil => simp
  | cons hx _ ih => exact List.forall_mem_cons.mpr ⟨hx.1.trans hx.2, ih⟩

/-- No point is worse than the worst choice of ends. -/
theorem exists_choice_noWorse (sense : Sense) {ends : List (ℝ × ℝ)} {g : List ℝ → ℝ}
    (hg : ∀ p q s, Within ends p → Within ends q → 0 ≤ s → s ≤ 1 →
      sense.NoWorse (g (mix s p q)) ((1 - s) * g p + s * g q))
    {p : List ℝ} (hp : Within ends p) : ∃ c ∈ choices ends, sense.NoWorse (g p) (g c) := by
  induction ends generalizing g p with
  | nil =>
      cases hp
      exact ⟨[], by simp [choices], .refl sense _⟩
  | cons e rest ih =>
      obtain ⟨x, p, hx, hrest, rfl⟩ := List.forall₂_cons_left_iff.mp hp
      -- With the first coordinate fixed, the others are moved to ends by induction.
      obtain ⟨c, hc, hworse⟩ : ∃ c ∈ choices rest, sense.NoWorse (g (x :: p)) (g (x :: c)) := by
        refine ih (g := fun q => g (x :: q)) (fun q r s hq hr h0 h1 => ?_) hrest
        have hfirst : mix s (x :: q) (x :: r) = x :: mix s q r :=
          congrArg (· :: mix s q r) (by ring)
        rw [← hfirst]
        exact hg _ _ s (.cons hx hq) (.cons hx hr) h0 h1
      -- Then the first one is moved, between two points that differ in nothing else.
      obtain ⟨s, h0, h1, hs⟩ := exists_mix_eq hx.1 hx.2
      have hends : mix s (e.1 :: c) (e.2 :: c) = x :: c := by
        rw [← hs]
        exact congrArg (_ :: ·) (mix_self s c)
      have hcorner := within_of_mem_choices (Within.ends_le hrest) hc
      have hbetween := hg (e.1 :: c) (e.2 :: c) s (.cons ⟨le_refl _, hx.1.trans hx.2⟩ hcorner)
        (.cons ⟨hx.1.trans hx.2, le_refl _⟩ hcorner) h0 h1
      rw [hends] at hbetween
      rcases sense.mix_noWorse (g (e.1 :: c)) (g (e.2 :: c)) h0 h1 with h | h
      · exact ⟨e.1 :: c, by simp [choices, hc], (hworse.trans hbetween).trans h⟩
      · exact ⟨e.2 :: c, by simp [choices, hc], (hworse.trans hbetween).trans h⟩

end Ends

variable (box : Box ℝ)

def sides : List (ℝ × ℝ) := box.nominal.toList.zip box.deviations.toList

theorem nominal_eq_sides : box.nominal.toList = box.sides.map Prod.fst :=
  (List.map_fst_zip (le_of_eq box.aligned.symm)).symm

theorem deviations_eq_sides : box.deviations.toList = box.sides.map Prod.snd :=
  (List.map_snd_zip (le_of_eq box.aligned)).symm

theorem lower_eq_sides : box.lower.toList = box.sides.map fun c => c.1 - c.2 := by
  rw [sides, List.map_zip_eq_zipWith]
  rfl

theorem upper_eq_sides : box.upper.toList = box.sides.map fun c => c.1 + c.2 := by
  rw [sides, List.map_zip_eq_zipWith]
  rfl

theorem deviation_nonneg {c : ℝ × ℝ} (hc : c ∈ box.sides) : 0 ≤ c.2 := by
  have hless := box.nonNegative c.2 (List.of_mem_zip hc).2
  rw [Bool.eq_false_iff, ne_eq, Exact.less_iff, not_lt] at hless
  exact hless

def ends : List (ℝ × ℝ) := box.sides.map fun c => (c.1 - c.2, c.1 + c.2)

theorem zip_bounds : box.lower.toList.zip box.upper.toList = box.ends := by
  rw [lower_eq_sides, upper_eq_sides, List.zip_map']
  rfl

theorem ends_le : ∀ e ∈ box.ends, e.1 ≤ e.2 := by
  simp only [ends, List.forall_mem_map]
  intro c hc
  have := box.deviation_nonneg hc
  linarith

theorem mem_corners {p : Vec ℝ} : p ∈ box.corners ↔ p.toList ∈ choices box.ends := by
  simp only [corners, zip_bounds, List.mem_map]
  constructor
  · rintro ⟨c, hc, rfl⟩
    exact hc
  · intro h
    exact ⟨p.toList, h, rfl⟩

def Inside (p : Vec ℝ) : Prop :=
  List.Forall₂ (· ≤ ·) box.lower.toList p.toList ∧ List.Forall₂ (· ≤ ·) p.toList box.upper.toList

theorem inside_iff_within {p : Vec ℝ} : box.Inside p ↔ Within box.ends p.toList := by
  rw [within_iff, Inside, lower_eq_sides, upper_eq_sides, ends, List.map_map, List.map_map]
  rfl

variable {box} {sense : Sense} {g : Vec ℝ → ℝ}

theorem inside_of_mem_corners {p : Vec ℝ} (h : p ∈ box.corners) : box.Inside p :=
  box.inside_iff_within.mpr (within_of_mem_choices box.ends_le (box.mem_corners.mp h))

/-- Between two points of the box, the function is no worse than what lies
between its values there: it is convex when minimizing and concave when
maximizing. -/
def Bends (box : Box ℝ) (sense : Sense) (g : Vec ℝ → ℝ) : Prop :=
  ∀ p q s, box.Inside p → box.Inside q → 0 ≤ s → s ≤ 1 →
    sense.NoWorse (g ⟨mix s p.toList q.toList⟩) ((1 - s) * g p + s * g q)

/-- Moving one coordinate after the other to an end does not make things better. -/
theorem Bends.exists_corner (h : box.Bends sense g) {p : Vec ℝ} (hp : box.Inside p) :
    ∃ c ∈ box.corners, sense.NoWorse (g p) (g c) := by
  have hends : ∀ p q s, Within box.ends p → Within box.ends q → 0 ≤ s → s ≤ 1 →
      sense.NoWorse (g ⟨mix s p q⟩) ((1 - s) * g ⟨p⟩ + s * g ⟨q⟩) := by
    intro p q s hp hq h0 h1
    exact h ⟨p⟩ ⟨q⟩ s (box.inside_iff_within.mpr hp) (box.inside_iff_within.mpr hq) h0 h1
  obtain ⟨c, hc, hworse⟩ := exists_choice_noWorse sense (g := fun p => g ⟨p⟩) hends
    (box.inside_iff_within.mp hp)
  exact ⟨⟨c⟩, box.mem_corners.mpr hc, hworse⟩

noncomputable def affine (a : ℝ) (b : Vec ℝ) (p : Vec ℝ) : ℝ := a + Scalar.dot b.toList p.toList

theorem dot_mix (b : List ℝ) (s : ℝ) {p q : List ℝ} (h : p.length = q.length) :
    Scalar.dot b (mix s p q) = (1 - s) * Scalar.dot b p + s * Scalar.dot b q := by
  simp only [Exact.dot_eq]
  induction b generalizing p q with
  | nil => simp
  | cons c b ih =>
      cases p with
      | nil =>
          obtain rfl := List.eq_nil_of_length_eq_zero h.symm
          simp [mix]
      | cons x p =>
          cases q with
          | nil => cases h
          | cons y q =>
              have hrest := ih (Nat.succ.inj h)
              simp only [mix, List.zipWith_cons_cons, List.sum_cons] at hrest ⊢
              rw [hrest]
              ring

/-- Affine functions bend towards both senses. -/
theorem bends_affine (box : Box ℝ) (sense : Sense) (a : ℝ) (b : Vec ℝ) :
    box.Bends sense (affine a b) := by
  intro p q s hp hq _ _
  have hlength : p.toList.length = q.toList.length :=
    hp.1.length_eq.symm.trans hq.1.length_eq
  have heq : affine a b ⟨mix s p.toList q.toList⟩ =
      (1 - s) * affine a b p + s * affine a b q := by
    unfold affine
    rw [dot_mix b.toList s hlength]
    ring
  rw [heq]
  exact .refl sense _

theorem dot_noWorse (sense : Sense) {sides : List (ℝ × ℝ)} (b : List ℝ) {p : List ℝ}
    (h : Within (sides.map fun c => (c.1 - c.2, c.1 + c.2)) p) :
    sense.NoWorse (Scalar.dot b p)
      (Scalar.dot b (sides.map Prod.fst) +
        sense.sign * Scalar.dot (b.map Scalar.magnitude) (sides.map Prod.snd)) := by
  induction sides generalizing b p with
  | nil =>
      cases h
      cases b <;> simp [Sense.NoWorse.refl]
  | cons c sides ih =>
      obtain ⟨x, p, hx, hrest, rfl⟩ := List.forall₂_cons_left_iff.mp h
      cases b with
      | nil => simp [Sense.NoWorse.refl]
      | cons k b =>
          have hsum := (sense.deviation_noWorse k hx.1 hx.2).add (ih b hrest)
          simp only [Exact.dot_eq, List.map_cons, List.zipWith_cons_cons, List.sum_cons] at hsum ⊢
          convert hsum using 1
          change _ + sense.sign * (|k| * c.2 + _) = _
          ring

/-- The bound on an inner product is attained within the intervals. -/
theorem exists_dot_eq (sense : Sense) {sides : List (ℝ × ℝ)} (hsides : ∀ c ∈ sides, 0 ≤ c.2)
    (b : List ℝ) :
    ∃ p, Within (sides.map fun c => (c.1 - c.2, c.1 + c.2)) p ∧
      Scalar.dot b p = Scalar.dot b (sides.map Prod.fst) +
        sense.sign * Scalar.dot (b.map Scalar.magnitude) (sides.map Prod.snd) := by
  induction sides generalizing b with
  | nil => exact ⟨[], .nil, by simp⟩
  | cons c sides ih =>
      obtain ⟨hc, hrest⟩ := List.forall_mem_cons.mp hsides
      obtain ⟨x, hleast, hmost, hx⟩ := sense.exists_deviation (b.headD 0) c.1 hc
      obtain ⟨p, hp, hdot⟩ := ih hrest b.tail
      refine ⟨x :: p, .cons ⟨hleast, hmost⟩ hp, ?_⟩
      cases b with
      | nil => simp
      | cons k b =>
          simp only [List.headD_cons, List.tail_cons, Exact.dot_eq, List.map_cons,
            List.zipWith_cons_cons, List.sum_cons] at hx hdot ⊢
          rw [hx, hdot]
          change _ = _ + sense.sign * (|k| * c.2 + _)
          ring

/-- The worst value of an affine function: every coordinate deviates to the
side where its coefficient hurts. -/
noncomputable def affineWorst (box : Box ℝ) (sense : Sense) (a : ℝ) (b : Vec ℝ) : ℝ :=
  affine a b box.nominal +
    sense.sign * Scalar.dot (b.toList.map Scalar.magnitude) box.deviations.toList

/-- The worst value of an affine function is attained in the box and nowhere
exceeded. -/
theorem affineWorst_spec (box : Box ℝ) (sense : Sense) (a : ℝ) (b : Vec ℝ) :
    (∃ p, box.Inside p ∧ affine a b p = box.affineWorst sense a b) ∧
      ∀ p, box.Inside p → sense.NoWorse (affine a b p) (box.affineWorst sense a b) := by
  have hworst : box.affineWorst sense a b =
      a + (Scalar.dot b.toList (box.sides.map Prod.fst) +
        sense.sign * Scalar.dot (b.toList.map Scalar.magnitude) (box.sides.map Prod.snd)) := by
    rw [affineWorst, affine, nominal_eq_sides, deviations_eq_sides, add_assoc]
  rw [hworst]
  constructor
  · obtain ⟨p, hp, hdot⟩ :=
      exists_dot_eq sense (fun c hc => box.deviation_nonneg hc) b.toList
    exact ⟨⟨p⟩, box.inside_iff_within.mpr hp, congrArg (a + ·) hdot⟩
  · intro p hp
    exact (Sense.NoWorse.refl sense a).add
      (dot_noWorse sense b.toList (box.inside_iff_within.mp hp))

section Sampling

variable {σ : Type} {source : Source σ ℝ}

/-- Points of the box with all corners among them. -/
structure Covers (box : Box ℝ) (points : List (Vec ℝ)) : Prop where
  corners : ∀ c ∈ box.corners, c ∈ points
  inside : ∀ p ∈ points, box.Inside p

theorem interior_yields (box : Box ℝ)
    (hunit : ∀ s, 0 ≤ (source.unit s).1 ∧ (source.unit s).1 ≤ 1) :
    (box.interior source).Yields box.Inside := by
  have hbetween : ∀ e ∈ box.lower.toList.zip box.upper.toList, ∀ u : ℝ, 0 ≤ u ∧ u ≤ 1 →
      e.1 ≤ between e.1 e.2 u ∧ between e.1 e.2 u ≤ e.2 := by
    rintro e he u ⟨h0, h1⟩
    rw [zip_bounds] at he
    have hends := box.ends_le e he
    unfold between
    exact ⟨by nlinarith, by nlinarith⟩
  have hdrawn := box.interior_yields_each (U := fun u => 0 ≤ u ∧ u ≤ 1)
    (R := fun e x => e.1 ≤ x ∧ x ≤ e.2) hunit hbetween
  refine hdrawn.imp fun p hp => ?_
  rw [zip_bounds] at hp
  exact box.inside_iff_within.mpr hp

/-- No interval is too wide to be drawn from. -/
theorem isMeasurable_exact (box : Box ℝ) : box.isMeasurable = true := by
  simp only [isMeasurable, ← List.map_uncurry_zip_eq_zipWith, List.all_map, List.all_eq_true]
  intro e _
  rfl

/-- A box with few dimensions is sampled inside, and at all its corners. -/
theorem sample_yields (hdimension : box.dimension ≤ maxCornerDimension)
    (hunit : ∀ s, 0 ≤ (source.unit s).1 ∧ (source.unit s).1 ≤ 1) (count : Nat) :
    (box.sample source count).Yields box.Covers := by
  refine (sample_yields_drawn (fun _ => box.isMeasurable_exact) (box.interior_yields hunit)).imp ?_
  rintro _ ⟨drawn, rfl, -, hinside⟩
  have hlisted : box.listed = box.corners := if_pos hdimension
  rw [hlisted]
  refine ⟨fun c hc => List.mem_append_left _ hc, ?_⟩
  intro p hp
  rcases List.mem_append.mp hp with hp | hp
  · exact inside_of_mem_corners hp
  · exact hinside p hp

end Sampling

end Box

end Optima
