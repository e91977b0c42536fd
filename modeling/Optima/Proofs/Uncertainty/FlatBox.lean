import Optima.Proofs.Scalar.Zero
import Optima.Proofs.Uncertainty.Samples
import Optima.Proofs.Vector.Distinct

/-!
Boxes on doubles that do not deviate from their nominal point. The ends of every interval equal the
nominal coordinate, and so does every number drawn between them: what is added to the lower end is a
multiple of the width, which is a zero. So all points of a sample equal the nominal one, the listed
corners as well as the points inside, and no interval is too wide to be drawn from.
-/

namespace Optima

open Scalar Ranked Binary64

namespace Box

/-- Both ends of an interval equal a finite number. -/
structure Pinned (n : Float) (ends : Float × Float) : Prop where
  finite : n.isFinite = true
  least : Scalar.same n ends.1 = true
  most : Scalar.same n ends.2 = true

theorem Pinned.width_zero {n : Float} {ends : Float × Float} (h : Pinned n ends) :
    Scalar.same (ends.2 - ends.1) 0 = true :=
  sub_same_zero (isFinite_of_same h.finite h.most)
    (Ranked.same_trans (Ranked.same_symm h.most) h.least)

/-- What is drawn between the ends equals the number. -/
theorem Pinned.between {n u : Float} {ends : Float × Float} (h : Pinned n ends)
    (hu : u.isFinite = true) : Scalar.same n (Box.between ends.1 ends.2 u) = true := by
  have hzero : Scalar.same ((ends.2 - ends.1) * u) 0 = true := zero_mul_same h.width_zero hu
  have hdefined : Defined ends.1 := defined_of_isFinite (isFinite_of_same h.finite h.least)
  exact Ranked.same_trans h.least (same_add_zero hdefined hzero)

variable {box : Box Float}

theorem pinned_of_flat (hfinite : box.nominal.isFinite = true)
    (hflat : ∀ d ∈ box.deviations.toList, Scalar.same d 0 = true) :
    List.Forall₂ Pinned box.nominal.toList (box.lower.toList.zip box.upper.toList) := by
  have hpinned (ns ds : List Float) (hsize : ds.length = ns.length)
      (hns : ∀ n ∈ ns, n.isFinite = true) (hds : ∀ d ∈ ds, Scalar.same d 0 = true) :
      List.Forall₂ Pinned ns
        ((List.zipWith (· - ·) ns ds).zip (List.zipWith (· + ·) ns ds)) := by
    induction ns generalizing ds with
    | nil => exact .nil
    | cons n ns ih =>
        cases ds with
        | nil => cases hsize
        | cons d ds =>
            obtain ⟨hn, hns⟩ := List.forall_mem_cons.mp hns
            obtain ⟨hd, hds⟩ := List.forall_mem_cons.mp hds
            have hdefined := defined_of_isFinite hn
            have hfirst : Pinned n (n - d, n + d) :=
              ⟨hn, same_sub_zero hdefined hd, same_add_zero hdefined hd⟩
            exact .cons hfirst (ih ds (Nat.succ.inj hsize) hns hds)
  exact hpinned _ _ box.aligned (List.all_eq_true.mp hfinite) hflat

section Ends

variable {ns : List Float} {ends : List (Float × Float)}

theorem same_of_mem_choices (h : List.Forall₂ Pinned ns ends) {p : List Float}
    (hp : p ∈ choices ends) : List.Forall₂ (fun n x => Scalar.same n x = true) ns p := by
  induction h generalizing p with
  | nil =>
      rw [List.mem_singleton.mp hp]
      exact .nil
  | cons hfirst _ ih =>
      simp only [choices, List.mem_append, List.mem_map] at hp
      obtain ⟨q, hq, rfl⟩ | ⟨q, hq, rfl⟩ := hp
      · exact .cons hfirst.least (ih hq)
      · exact .cons hfirst.most (ih hq)

/-- Between two equal ends there is nothing but a number that equals them. -/
theorem same_of_between (h : List.Forall₂ Pinned ns ends) {p : List Float}
    (hp : List.Forall₂ (fun e x => ∃ u : Float, u.isFinite = true ∧ between e.1 e.2 u = x) ends p) :
    List.Forall₂ (fun n x => Scalar.same n x = true) ns p := by
  induction h generalizing p with
  | nil =>
      cases hp
      exact .nil
  | cons hfirst _ ih =>
      obtain ⟨x, q, ⟨u, hu, rfl⟩, hrest, rfl⟩ := List.forall₂_cons_left_iff.mp hp
      exact .cons (hfirst.between hu) (ih hrest)

theorem measurable_of_pinned (h : List.Forall₂ Pinned ns ends) :
    (ends.all fun e => Scalar.isFinite (e.2 - e.1)) = true := by
  induction h with
  | nil => rfl
  | cons hfirst _ ih =>
      rw [List.all_cons, ih, Bool.and_true]
      exact isFinite_of_same_zero hfirst.width_zero

end Ends

variable (hfinite : box.nominal.isFinite = true)
  (hflat : ∀ d ∈ box.deviations.toList, Scalar.same d 0 = true)

include hfinite hflat

theorem isMeasurable_of_flat : box.isMeasurable = true := by
  have hends := measurable_of_pinned (pinned_of_flat hfinite hflat)
  have hzip : List.zipWith (fun l u => Scalar.isFinite (u - l)) box.lower.toList box.upper.toList =
      (box.lower.toList.zip box.upper.toList).map fun e => Scalar.isFinite (e.2 - e.1) := by
    rw [List.zip, List.map_zipWith]
  rw [isMeasurable, hzip, List.all_map]
  exact hends

theorem same_of_mem_listed {q : Vec Float} (hq : q ∈ box.listed) : q.same box.nominal = true := by
  unfold listed at hq
  split at hq
  · obtain ⟨p, hp, rfl⟩ := List.mem_map.mp hq
    exact Vec.same_symm
      (Vec.same_iff_forall₂.mpr (same_of_mem_choices (pinned_of_flat hfinite hflat) hp))
  · cases hq

variable {σ : Type} {source : Source σ Float} (hunits : ∀ s, (source.unit s).1.isFinite = true)

include hunits

theorem interior_yields_same :
    (box.interior source).Yields fun q => q.same box.nominal = true := by
  have hdrawn := box.interior_yields_each
    (R := fun e x => ∃ u : Float, u.isFinite = true ∧ between e.1 e.2 u = x) hunits
    fun _ _ u hu => ⟨u, hu, rfl⟩
  refine hdrawn.imp fun p hp => ?_
  exact Vec.same_symm
    (Vec.same_iff_forall₂.mpr (same_of_between (pinned_of_flat hfinite hflat) hp))

/-- A sample of a box without width has points, and all of them equal the
nominal one. -/
theorem sample_yields_same {count : Nat} (hcount : 0 < count) :
    (box.sample source count).Yields fun points =>
      points ≠ [] ∧ ∀ q ∈ points, q.same box.nominal = true := by
  refine (sample_yields_drawn (fun _ => isMeasurable_of_flat hfinite hflat)
    (interior_yields_same hfinite hflat hunits)).imp ?_
  rintro _ ⟨drawn, rfl, hlength, hdrawn⟩
  constructor
  · apply List.ne_nil_of_length_pos
    rw [List.length_append, hlength]
    omega
  · intro q hq
    rcases List.mem_append.mp hq with hq | hq
    · exact same_of_mem_listed hfinite hflat hq
    · exact hdrawn q hq

end Box

end Optima
