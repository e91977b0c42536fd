import Optima.Proofs.Scalar.Numbers

/-!
Zeros among the doubles. There are two of them, they equal each other, and adding or subtracting one
changes no number but for the sign of a zero. The difference of two equal finite numbers is a zero,
and so is every finite multiple of a zero.
-/

namespace Optima.Binary64

open Float.Model Float.Model.UnpackedFloat Scalar

section Packing

theorem unpack_pack_unpack (x : Float) :
    UnpackedFloat.unpack Format.binary64 (UnpackedFloat.pack Format.binary64 (unpack x)) =
      unpack x := by
  have hpack : UnpackedFloat.pack Format.binary64
      (UnpackedFloat.unpack Format.binary64 x.toModel.toBits.toBitVec) =
        x.toModel.toBits.toBitVec :=
    pack_unpack_of_valid x.toModel.valid
  exact congrArg (UnpackedFloat.unpack Format.binary64) hpack

/-- A double is made of what it is unpacked to. -/
theorem unpack_injective {x y : Float} (h : unpack x = unpack y) : x = y := by
  obtain ⟨⟨a, ha⟩⟩ := x
  obtain ⟨⟨b, hb⟩⟩ := y
  have hpacked := congrArg (UnpackedFloat.pack Format.binary64) h
  change UnpackedFloat.pack Format.binary64 (UnpackedFloat.unpack Format.binary64 a.toBitVec) =
    UnpackedFloat.pack Format.binary64 (UnpackedFloat.unpack Format.binary64 b.toBitVec) at hpacked
  rw [pack_unpack_of_valid ha, pack_unpack_of_valid hb] at hpacked
  obtain rfl := UInt64.toBitVec_inj.mp hpacked
  rfl

theorem unpack_pack_zero (s : Sign) :
    UnpackedFloat.unpack Format.binary64 (UnpackedFloat.pack Format.binary64 (.zero s)) =
      .zero s :=
  unpack_packedZero

end Packing

variable {x y z : Float}

/-- What two equal doubles are made of: the same, or zeros. -/
theorem same_iff_unpack (hx : Defined x) :
    same x y = true ↔ unpack x = unpack y ∨ ∃ s t, unpack x = .zero s ∧ unpack y = .zero t := by
  constructor
  · intro h
    obtain ⟨-, -, hequal | ⟨hx, hy⟩ | ⟨hx, hy⟩⟩ := (beq_iff_ne_notANumber_and_eq _ _).mp h
    · exact Or.inl hequal
    · exact Or.inr ⟨_, _, hx, hy⟩
    · exact Or.inr ⟨_, _, hx, hy⟩
  · rintro (hequal | ⟨s, t, hx, hy⟩)
    · rw [same_iff_compare, ← hequal]
      exact (same_iff_compare x x).mp hx
    · rw [same_iff_compare, hx, hy]
      rfl

theorem same_zero_iff : same x 0 = true ↔ ∃ s, unpack x = .zero s := by
  constructor
  · intro h
    have hdefined := defined_of_isFinite (isFinite_of_same_zero h)
    rcases (same_iff_unpack hdefined).mp h with hequal | ⟨s, _, hx, -⟩
    · exact ⟨_, hequal⟩
    · exact ⟨s, hx⟩
  · rintro ⟨s, hx⟩
    rw [same_iff_compare, hx]
    rfl

/-- A result equals a number if it is rounded from that number itself, or if
both are zeros. -/
theorem same_of_rounded {u : UnpackedFloat} (hx : Defined x)
    (hy : unpack y = UnpackedFloat.unpack Format.binary64 (UnpackedFloat.pack Format.binary64 u))
    (h : u = unpack x ∨ ∃ s t, unpack x = .zero s ∧ u = .zero t) : same x y = true := by
  rw [same_iff_unpack hx, hy]
  rcases h with rfl | ⟨s, t, hx, rfl⟩
  · exact Or.inl (unpack_pack_unpack x).symm
  · exact Or.inr ⟨s, t, hx, unpack_pack_zero t⟩

/-- Adding a zero changes a number only if it is a zero itself. -/
theorem same_add_zero (hx : Defined x) (hz : same z 0 = true) : same x (x + z) = true := by
  obtain ⟨t, hz⟩ := same_zero_iff.mp hz
  have hsum : unpack (x + z) = UnpackedFloat.unpack Format.binary64 (UnpackedFloat.pack
      Format.binary64 (UnpackedFloat.add Format.binary64 (unpack x) (unpack z))) := rfl
  apply same_of_rounded hx hsum
  rw [hz]
  cases hu : unpack x with
  | notANumber =>
      rw [defined_iff, hu] at hx
      cases hx
  | infinity s => exact Or.inl rfl
  | finite s m e hm => exact Or.inl rfl
  | zero s => exact Or.inr ⟨s, if s == t then s else .positive, rfl, by cases s <;> cases t <;> rfl⟩

/-- Taking away a zero of either sign changes nothing. -/
theorem same_sub_zero (hx : Defined x) (hz : same z 0 = true) : same x (x - z) = true := by
  obtain ⟨t, hz⟩ := same_zero_iff.mp hz
  have hdifference : unpack (x - z) = UnpackedFloat.unpack Format.binary64 (UnpackedFloat.pack
      Format.binary64 (UnpackedFloat.sub Format.binary64 (unpack x) (unpack z))) := rfl
  apply same_of_rounded hx hdifference
  rw [hz]
  cases hu : unpack x with
  | notANumber =>
      rw [defined_iff, hu] at hx
      cases hx
  | infinity s => exact Or.inl rfl
  | finite s m e hm => exact Or.inl rfl
  | zero s =>
      exact Or.inr ⟨s, if s == -t then s else .positive, rfl, by cases s <;> cases t <;> rfl⟩

/-- The difference of equal finite numbers is a zero. -/
theorem sub_same_zero (hx : x.isFinite = true) (h : same x y = true) : same (x - y) 0 = true := by
  have hdifference : unpack (x - y) = UnpackedFloat.unpack Format.binary64 (UnpackedFloat.pack
      Format.binary64 (UnpackedFloat.sub Format.binary64 (unpack x) (unpack y))) := rfl
  have hfinite : (unpack x).isFinite = true := hx
  rw [same_zero_iff, hdifference]
  rcases (same_iff_unpack (defined_of_isFinite hx)).mp h with hequal | ⟨s, t, hx, hy⟩
  · rw [← hequal]
    cases hu : unpack x with
    | notANumber =>
        rw [hu] at hfinite
        cases hfinite
    | infinity s =>
        rw [hu] at hfinite
        cases hfinite
    | zero s => exact ⟨.positive, by cases s <;> rfl⟩
    | finite s m e hm =>
        refine ⟨.positive, ?_⟩
        rw [← unpack_pack_zero]
        simp [UnpackedFloat.sub, UnpackedFloat.normalize]
  · rw [hx, hy]
    exact ⟨if s == -t then s else .positive, by cases s <;> cases t <;> rfl⟩

/-- A finite multiple of a zero is a zero. -/
theorem zero_mul_same (hz : same z 0 = true) (hx : x.isFinite = true) :
    same (z * x) 0 = true := by
  obtain ⟨t, hz⟩ := same_zero_iff.mp hz
  have hproduct : unpack (z * x) = UnpackedFloat.unpack Format.binary64 (UnpackedFloat.pack
      Format.binary64 (UnpackedFloat.mul Format.binary64 (unpack z) (unpack x))) := rfl
  have hfinite : (unpack x).isFinite = true := hx
  rw [same_zero_iff, hproduct, hz]
  cases hu : unpack x with
  | notANumber =>
      rw [hu] at hfinite
      cases hfinite
  | infinity s =>
      rw [hu] at hfinite
      cases hfinite
  | zero s => exact ⟨t * s, unpack_pack_zero _⟩
  | finite s m e hm => exact ⟨t * s, unpack_pack_zero _⟩

theorem magnitude_zero_same (hz : same z 0 = true) : same (magnitude z) 0 = true := by
  obtain ⟨t, hz⟩ := same_zero_iff.mp hz
  have hmagnitude : unpack (magnitude z) = UnpackedFloat.unpack Format.binary64
      (UnpackedFloat.pack Format.binary64 (unpack z).abs) := rfl
  rw [same_zero_iff, hmagnitude, hz]
  exact ⟨.positive, unpack_pack_zero _⟩

/-- What equals a finite number is finite. -/
theorem isFinite_of_same (hx : x.isFinite = true) (h : same x y = true) : y.isFinite = true := by
  have hfinite : (unpack x).isFinite = true := hx
  change (unpack y).isFinite = true
  rcases (same_iff_unpack (defined_of_isFinite hx)).mp h with hequal | ⟨_, _, -, hy⟩
  · rw [← hequal]
    exact hfinite
  · rw [hy]
    rfl

end Optima.Binary64
