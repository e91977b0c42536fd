import Optima.Proofs.Scalar.Binary64

/-!
Which doubles are numbers. Packing neither makes a number undefined nor the other way round, so a
result of arithmetic is a number exactly when the exact operation has one: magnitudes keep what they
are given, differences from a finite number and products with a finite factor that is not zero are
never undefined.
-/

namespace Optima.Binary64

open Float.Model Float.Model.UnpackedFloat Scalar

theorem isNaN_unpack {spec : Format} {b : BitVec spec.numBits}
    (h : unpackExponent b = -1#_ → unpackMantissa b = 0#_) :
    (UnpackedFloat.unpack spec b).isNaN = false := by
  unfold UnpackedFloat.unpack
  dsimp only
  split
  · next hexponent =>
      rw [if_pos (h hexponent)]
      rfl
  · split
    · split
      · rfl
      · rfl
    · rfl

theorem isNaN_unpack_pack (u : UnpackedFloat) :
    (UnpackedFloat.unpack Format.binary64 (UnpackedFloat.pack Format.binary64 u)).isNaN =
      u.isNaN := by
  cases hu : u.isNaN with
  | false => exact isNaN_unpack (unpackMantissa_pack hu)
  | true =>
      cases u with
      | notANumber => rfl
      | infinity s => cases hu
      | zero s => cases hu
      | finite s m e hm => cases hu

theorem defined_iff_isNaN (x : Float) : Defined x ↔ x.isNaN = false := defined_iff x

theorem magnitude_defined_iff (x : Float) : Defined (magnitude x) ↔ Defined x := by
  have hpack : (unpack (magnitude x)).isNaN = (unpack x).abs.isNaN := isNaN_unpack_pack _
  have habs : (unpack x).abs.isNaN = (unpack x).isNaN := by
    cases unpack x with
    | notANumber => rfl
    | infinity s => rfl
    | zero s => rfl
    | finite s m e hm => rfl
  rw [defined_iff, defined_iff, hpack, habs]

theorem defined_of_isFinite {x : Float} (h : x.isFinite = true) : Defined x := by
  rw [defined_iff]
  have hfinite : (unpack x).isFinite = true := h
  cases hx : unpack x with
  | notANumber =>
      rw [hx] at hfinite
      cases hfinite
  | infinity s => rfl
  | zero s => rfl
  | finite s m e hm => rfl

/-- Both zeros are finite. -/
theorem isFinite_of_same_zero {x : Float} (h : same x 0 = true) : x.isFinite = true := by
  have hcompare := (same_iff_compare x 0).mp h
  change (unpack x).isFinite = true
  change (unpack x).compare (.zero .positive) = _ at hcompare
  cases hx : unpack x with
  | notANumber =>
      rw [hx] at hcompare
      cases hcompare
  | infinity s =>
      rw [hx] at hcompare
      cases s <;> cases hcompare
  | zero s => rfl
  | finite s m e hm => rfl

section Rounding

variable (spec : Format)

theorem isNaN_roundWithAccuracy (s : Sign) (m : Nat) (e : Int) (accuracy : Accuracy) :
    (roundWithAccuracy spec s m e accuracy).isNaN = false := by
  unfold roundWithAccuracy
  dsimp only
  split
  · rfl
  · rfl

theorem isNaN_normalize (m e : Int) (s : Sign) :
    (UnpackedFloat.normalize spec m e s).isNaN = false := by
  unfold UnpackedFloat.normalize
  split
  · exact isNaN_roundWithAccuracy spec ..
  · rfl
  · exact isNaN_roundWithAccuracy spec ..

/-- A difference is undefined only if a number is, or if both are infinite. -/
theorem isNaN_sub {u v : UnpackedFloat} (hu : u.isFinite = true) (hv : v.isNaN = false) :
    (UnpackedFloat.sub spec u v).isNaN = false := by
  cases u with
  | notANumber => cases hu
  | infinity s => cases hu
  | zero s =>
      cases v with
      | notANumber => cases hv
      | infinity t => rfl
      | zero t => cases s <;> cases t <;> rfl
      | finite t m e hm => rfl
  | finite s m e hm =>
      cases v with
      | notANumber => cases hv
      | infinity t => rfl
      | zero t => rfl
      | finite t m' e' hm' => exact isNaN_normalize spec ..

theorem isNaN_mul {s : Sign} {m : Nat} {e : Int} (hm : 0 < m) {v : UnpackedFloat}
    (hv : v.isNaN = false) : (UnpackedFloat.mul spec (.finite s m e hm) v).isNaN = false := by
  cases v with
  | notANumber => cases hv
  | infinity t => rfl
  | zero t => rfl
  | finite t m' e' hm' => exact isNaN_roundWithAccuracy spec ..

end Rounding

variable {x y : Float}

theorem sub_defined (hx : x.isFinite = true) (hy : Defined y) : Defined (x - y) := by
  rw [defined_iff] at hy ⊢
  have hpack : (unpack (x - y)).isNaN =
      (UnpackedFloat.sub Format.binary64 (unpack x) (unpack y)).isNaN := isNaN_unpack_pack _
  rw [hpack]
  exact isNaN_sub Format.binary64 hx hy

/-- A factor that is neither zero nor infinite leaves a product defined. -/
theorem mul_defined (hx : x.isFinite = true) (hzero : same x 0 = false) (hy : Defined y) :
    Defined (x * y) := by
  rw [defined_iff] at hy ⊢
  have hpack : (unpack (x * y)).isNaN =
      (UnpackedFloat.mul Format.binary64 (unpack x) (unpack y)).isNaN := isNaN_unpack_pack _
  have hfinite : (unpack x).isFinite = true := hx
  rw [hpack]
  cases hunpacked : unpack x with
  | notANumber =>
      rw [hunpacked] at hfinite
      cases hfinite
  | infinity s =>
      rw [hunpacked] at hfinite
      cases hfinite
  | zero s =>
      have hsame : same x 0 = true := by
        rw [same_iff_compare, hunpacked]
        rfl
      rw [hsame] at hzero
      cases hzero
  | finite s m e hm => exact isNaN_mul Format.binary64 hm hy

end Optima.Binary64
