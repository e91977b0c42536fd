import Mathlib
import Optima.Proofs.Scalar.Rank

/-!
Doubles are ranked. A double that is a number stands in an order of five layers: minus infinity, the
negative numbers, the two zeros, the positive numbers, infinity. Inside of a layer the exponent
decides, and then the mantissa, both backwards for negative numbers.
-/

namespace Optima.Binary64

open Float.Model Float.Model.UnpackedFloat

/-- Layer, exponent and mantissa, compared in this order. -/
abbrev Place := ℤ ×ₗ ℤ ×ₗ ℤ

def place : UnpackedFloat → Place
  | .notANumber => toLex (0, toLex (0, 0))
  | .infinity .negative => toLex (-2, toLex (0, 0))
  | .finite .negative m e _ => toLex (-1, toLex (-e, -m))
  | .zero _ => toLex (0, toLex (0, 0))
  | .finite .positive m e _ => toLex (1, toLex (e, m))
  | .infinity .positive => toLex (2, toLex (0, 0))

theorem compare_neg_neg (a b : ℤ) : compare (-a) (-b) = (compare a b).swap := by
  rw [Int.compare_swap, compare_iff]
  cases h : compare b a with
  | lt => exact Int.neg_lt_neg (compare_lt_iff_lt.mp h)
  | eq => exact (congrArg Neg.neg (compare_eq_iff_eq.mp h)).symm
  | gt => exact Int.neg_lt_neg (compare_gt_iff_gt.mp h)

theorem compare_natCast (a b : ℕ) : compare (a : ℤ) (b : ℤ) = compare a b := by
  rw [compare_iff]
  cases h : compare a b with
  | lt => exact Int.ofNat_lt.mpr (compare_lt_iff_lt.mp h)
  | eq => exact congrArg Int.ofNat (compare_eq_iff_eq.mp h)
  | gt => exact Int.ofNat_lt.mpr (compare_gt_iff_gt.mp h)

theorem compare_same_layer (layer e e' m m' : ℤ) :
    compare (toLex (layer, toLex (e, m))) (toLex (layer, toLex (e', m'))) =
      (compare e e').then (compare m m') := by
  have hlayer : compare layer layer = .eq := compare_eq_iff_eq.mpr rfl
  simp only [Prod.Lex.compare_def, compareLex, compareOn, ofLex_toLex, hlayer]
  rfl

/-- Away from what is not a number, the comparison is the one of places. -/
theorem compare_eq_compare_place (u v : UnpackedFloat) (hu : u.isNaN = false)
    (hv : v.isNaN = false) : u.compare v = some (compare (place u) (place v)) := by
  cases u with
  | notANumber => cases hu
  | infinity s =>
      cases v with
      | notANumber => cases hv
      | infinity t => cases s <;> cases t <;> rfl
      | zero t => cases s <;> rfl
      | finite t m e hm => cases s <;> cases t <;> rfl
  | zero s =>
      cases v with
      | notANumber => cases hv
      | infinity t => cases t <;> rfl
      | zero t => rfl
      | finite t m e hm => cases t <;> rfl
  | finite s m e hm =>
      cases v with
      | notANumber => cases hv
      | infinity t => cases s <;> cases t <;> rfl
      | zero t => cases s <;> rfl
      | finite t m' e' hm' =>
          cases s with
          | negative =>
              cases t with
              | negative =>
                  simp only [UnpackedFloat.compare, place, compare_same_layer, compare_neg_neg,
                    compare_natCast, Ordering.swap_then]
              | positive => rfl
          | positive =>
              cases t with
              | negative => rfl
              | positive =>
                  simp only [UnpackedFloat.compare, place, compare_same_layer, compare_natCast]


def unpack (x : Float) : UnpackedFloat := x.toModel.unpack

theorem less_iff_compare (x y : Float) :
    Scalar.less x y = true ↔ (unpack x).compare (unpack y) = some .lt := by
  have houter : Scalar.less x y = true ↔ x.lt y = true := decide_eq_true_iff
  have hinner : x.lt y = true ↔ (unpack x).lt (unpack y) = true := decide_eq_true_iff
  rw [houter, hinner, UnpackedFloat.lt, beq_iff_eq]

theorem atMost_iff_compare (x y : Float) :
    Scalar.atMost x y = true ↔
      ∃ o, (unpack x).compare (unpack y) = some o ∧ o.isLE = true := by
  have houter : Scalar.atMost x y = true ↔ x.le y = true := decide_eq_true_iff
  have hinner : x.le y = true ↔ (unpack x).le (unpack y) = true := decide_eq_true_iff
  rw [houter, hinner, UnpackedFloat.le, Option.any_eq_true]

theorem same_iff_compare (x y : Float) :
    Scalar.same x y = true ↔ (unpack x).compare (unpack y) = some .eq := by
  change ((unpack x).compare (unpack y) == some .eq) = true ↔ _
  rw [beq_iff_eq]

theorem compare_eq_none {u v : UnpackedFloat} (h : u.isNaN = true ∨ v.isNaN = true) :
    u.compare v = none := by
  rcases h with h | h
  · cases u with
    | notANumber => simp [UnpackedFloat.compare]
    | infinity s => cases h
    | zero s => cases h
    | finite s m e hm => cases h
  · cases v with
    | notANumber => cases u <;> rfl
    | infinity s => cases h
    | zero s => cases h
    | finite s m e hm => cases h

/-- Only the undefined number fails to equal itself. -/
theorem defined_iff (x : Float) : Scalar.Defined x ↔ (unpack x).isNaN = false := by
  rw [Scalar.Defined, same_iff_compare]
  cases h : (unpack x).isNaN with
  | false =>
      rw [compare_eq_compare_place _ _ h h, compare_eq_iff_eq.mpr rfl]
      simp
  | true =>
      rw [compare_eq_none (Or.inl h)]
      simp

/-- What is not a number compares with nothing, everything else by place. -/
theorem compare_eq_some_iff (x y : Float) (o : Ordering) :
    (unpack x).compare (unpack y) = some o ↔
      Scalar.Defined x ∧ Scalar.Defined y ∧
        compare (place (unpack x)) (place (unpack y)) = o := by
  rw [defined_iff, defined_iff]
  cases hx : (unpack x).isNaN with
  | true => simp [compare_eq_none (Or.inl hx)]
  | false =>
      cases hy : (unpack y).isNaN with
      | true => simp [compare_eq_none (Or.inr hy)]
      | false => simp [compare_eq_compare_place _ _ hx hy]

/-- Numbers with the positive sign, the positive zero and infinity among
them. -/
def IsUnsigned : UnpackedFloat → Prop
  | .notANumber => False
  | .infinity s | .zero s | .finite s _ _ _ => s = .positive

theorem isUnsigned_abs {u : UnpackedFloat} (h : u.isNaN = false) : IsUnsigned u.abs := by
  cases u with
  | notANumber => cases h
  | infinity s => rfl
  | zero s => rfl
  | finite s m e hm => rfl

theorem IsUnsigned.isNaN_eq_false {u : UnpackedFloat} (h : IsUnsigned u) : u.isNaN = false := by
  cases u with
  | notANumber => cases h
  | infinity s => rfl
  | zero s => rfl
  | finite s m e hm => rfl

theorem IsUnsigned.zero_le_place {u : UnpackedFloat} (h : IsUnsigned u) (s : Sign) :
    place (.zero s) ≤ place u := by
  cases u with
  | notANumber => cases h
  | infinity t =>
      cases h
      exact Prod.Lex.toLex_le_toLex.mpr (Or.inl (by decide))
  | zero t => exact le_refl _
  | finite t m e hm =>
      cases h
      exact Prod.Lex.toLex_le_toLex.mpr (Or.inl Int.one_pos)

theorem unpackSign_packComponents {spec : Format} {sign : Sign}
    {exponent : BitVec spec.exponentBits} {mantissa : BitVec spec.mantissaBitsWithoutImplicit} :
    unpackSign (packComponents spec sign exponent mantissa) = sign.toBitVec := by
  ext i hi
  have hzero : i = 0 := by omega
  subst hzero
  have hsign : ¬ spec.mantissaBitsWithoutImplicit + spec.exponentBits <
      spec.mantissaBitsWithoutImplicit := by omega
  simp [unpackSign, packComponents, BitVec.getLsbD_append, BitVec.getElem_append, hsign]

/-- A word without the sign bit stands for a number without a sign, unless it is an undefined one.
-/
theorem isUnsigned_unpack {spec : Format} {b : BitVec spec.numBits} (hsign : unpackSign b = 0#1)
    (hnumber : unpackExponent b = -1#_ → unpackMantissa b = 0#_) :
    IsUnsigned (UnpackedFloat.unpack spec b) := by
  have hpositive : Sign.ofBitVec (unpackSign b) = .positive := by
    rw [hsign]
    rfl
  unfold UnpackedFloat.unpack
  simp only [hpositive]
  split
  · next hexponent =>
      rw [if_pos (hnumber hexponent)]
      rfl
  · split
    · split
      · rfl
      · rfl
    · rfl

theorem unpackSign_pack {spec : Format} {u : UnpackedFloat} (h : IsUnsigned u) :
    unpackSign (UnpackedFloat.pack spec u) = 0#1 := by
  fun_cases UnpackedFloat.pack spec u with
  | case1 => cases h
  | case2 s => cases h; exact unpackSign_packComponents
  | case3 s => cases h; exact unpackSign_packComponents
  | case4 s m e hm biased hlarge => cases h; exact unpackSign_packComponents
  | case5 s m e hm bits biased hfits hnormal => cases h; exact unpackSign_packComponents
  | case6 s m e hm bits biased hfits hsubnormal => cases h; exact unpackSign_packComponents

/-- What is packed from a number is not read as something else: with the
greatest exponent it is infinity. -/
theorem unpackMantissa_pack {spec : Format} {u : UnpackedFloat} (h : u.isNaN = false)
    (hexponent : unpackExponent (UnpackedFloat.pack spec u) = -1#_) :
    unpackMantissa (UnpackedFloat.pack spec u) = 0#_ := by
  revert hexponent
  fun_cases UnpackedFloat.pack spec u with
  | case1 => cases h
  | case2 s => simp [packedInfinity]
  | case3 s => simp [packedZero]
  | case4 s m e hm biased hlarge => simp [packedInfinity]
  | case5 s m e hm bits biased hfits hnormal =>
      intro hexponent
      rw [unpackExponent_packComponents, BitVec.neg_one_eq_allOnes] at hexponent
      have hall := congrArg BitVec.toNat hexponent
      rw [BitVec.toNat_ofNat, BitVec.toNat_allOnes, Nat.mod_eq_of_lt (by omega)] at hall
      omega
  | case6 s m e hm bits biased hfits hsubnormal =>
      intro hexponent
      rw [unpackExponent_packComponents, BitVec.neg_one_eq_allOnes] at hexponent
      have hall := congrArg BitVec.toNat hexponent
      have hbits := Nat.one_lt_two_pow spec.he.ne'
      rw [BitVec.toNat_ofNat, BitVec.toNat_allOnes, Nat.zero_mod] at hall
      omega

/-- Packing keeps numbers with the positive sign so. What does not fit becomes
infinity. -/
theorem isUnsigned_unpack_pack {spec : Format} {u : UnpackedFloat} (h : IsUnsigned u) :
    IsUnsigned (UnpackedFloat.unpack spec (UnpackedFloat.pack spec u)) :=
  isUnsigned_unpack (unpackSign_pack h) (unpackMantissa_pack h.isNaN_eq_false)

theorem isUnsigned_magnitude {x : Float} (h : Scalar.Defined x) :
    IsUnsigned (unpack (Scalar.magnitude x)) :=
  isUnsigned_unpack_pack (isUnsigned_abs ((defined_iff x).mp h))

theorem unpack_zero : unpack 0.0 = .zero .positive := rfl

instance : Ranked Float where
  Rank := Place
  order := inferInstance
  rank x := place (unpack x)
  less_iff x y := by
    rw [less_iff_compare, compare_eq_some_iff, compare_lt_iff_lt]
  atMost_iff x y := by
    rw [atMost_iff_compare, ← compare_le_iff_le, ne_eq, ← Ordering.isLE_iff_ne_gt]
    simp only [compare_eq_some_iff]
    constructor
    · rintro ⟨o, ⟨hx, hy, rfl⟩, hle⟩
      exact ⟨hx, hy, hle⟩
    · rintro ⟨hx, hy, hle⟩
      exact ⟨_, ⟨hx, hy, rfl⟩, hle⟩
  same_iff x y := by
    rw [same_iff_compare, compare_eq_some_iff, compare_eq_iff_eq]
  zero_defined := by
    rw [defined_iff]
    exact congrArg UnpackedFloat.isNaN unpack_zero
  magnitude_defined h := by
    rw [defined_iff]
    exact (isUnsigned_magnitude h).isNaN_eq_false
  zero_le_magnitude h := by
    change place (unpack 0.0) ≤ _
    rw [unpack_zero]
    exact (isUnsigned_magnitude h).zero_le_place .positive

end Optima.Binary64
