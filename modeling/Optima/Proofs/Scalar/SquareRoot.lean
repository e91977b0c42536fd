import Optima.Proofs.Scalar.Positive
import Optima.Proofs.Scalar.Zero

/-!
Square roots of doubles. The square root of a finite number is far from the largest double, so it is
finite, and it is not negative. There is none only if the number is below zero.
-/

namespace Optima.Binary64

open Float.Model Float.Model.UnpackedFloat Scalar

/-- What has not the greatest exponent is finite. -/
theorem isFinite_unpack {b : BitVec Format.binary64.numBits}
    (hexponent : unpackExponent b ≠ -1#_) :
    (UnpackedFloat.unpack Format.binary64 b).isFinite = true := by
  unfold UnpackedFloat.unpack
  dsimp only
  rw [if_neg hexponent]
  split
  · split <;> rfl
  · rfl

theorem isFinite_unpack_pack {s : Sign} {m : ℕ} {e : ℤ} {hm : 0 < m} (he : e ≤ 970) :
    (UnpackedFloat.unpack Format.binary64
      (UnpackedFloat.pack Format.binary64 (.finite s m e hm))).isFinite = true := by
  apply isFinite_unpack
  unfold UnpackedFloat.pack
  dsimp only
  split
  · next hlarge =>
      change 2048 ≤ (e + 1023 + 52).toNat + 1 at hlarge
      omega
  · next hsmall =>
      split
      · rw [unpackExponent_packComponents]
        intro hexponent
        have hbits := congrArg BitVec.toNat hexponent
        rw [BitVec.toNat_ofNat, Nat.mod_eq_of_lt (by omega)] at hbits
        change (e + 1023 + 52).toNat = 2047 at hbits
        omega
      · rw [unpackExponent_packComponents]
        decide

/-- A finite double has at most 53 digits, the last of them not beyond the place 971. -/
theorem unpack_le {x : Float} {s : Sign} {m : ℕ} {e : ℤ} {hm : 0 < m}
    (h : unpack x = .finite s m e hm) : m < 2 ^ 53 ∧ e ≤ 971 := by
  change UnpackedFloat.unpack Format.binary64 x.toModel.toBits.toBitVec = _ at h
  unfold UnpackedFloat.unpack at h
  dsimp only at h
  split at h
  · split at h <;> cases h
  · next hfinite =>
      have hlast : (unpackExponent x.toModel.toBits.toBitVec :
          BitVec Format.binary64.exponentBits).toNat ≠ 2047 := by
        intro hexponent
        exact hfinite (BitVec.eq_of_toNat_eq hexponent)
      have hexponent := (unpackExponent x.toModel.toBits.toBitVec :
        BitVec Format.binary64.exponentBits).isLt
      have hmantissa := (unpackMantissa x.toModel.toBits.toBitVec :
        BitVec Format.binary64.mantissaBitsWithoutImplicit).isLt
      change _ < 2 ^ 11 at hexponent
      change _ < 2 ^ 52 at hmantissa
      split at h
      · next hleast =>
          split at h
          · cases h
          · cases h
            rw [hleast]
            exact ⟨by omega, by decide⟩
      · cases h
        refine ⟨BitVec.isLt _, ?_⟩
        change _ - (1075 : ℤ) ≤ _
        omega

section Rounding

theorem log2_div_two_pow_le (m k : ℕ) : (m / 2 ^ k).log2 ≤ m.log2 - k := by
  by_cases hq : m / 2 ^ k = 0
  · rw [hq]
    exact Nat.zero_le _
  · have hm : m ≠ 0 := by
      rintro rfl
      exact hq (Nat.zero_div _)
    have hpow : 2 ^ ((m / 2 ^ k).log2 + k) ≤ m := by
      rw [pow_add]
      exact (Nat.mul_le_mul_right _ (Nat.log2_self_le hq)).trans (Nat.div_mul_le_self m _)
    have hlog := (Nat.le_log2 hm).mpr hpow
    omega

/-- One more can carry into one more digit only. -/
theorem log2_le_of_le_succ {m n : ℕ} (h : n ≤ m + 1) : n.log2 ≤ m.log2 + 1 := by
  by_cases hn : n = 0
  · rw [hn]
    exact Nat.zero_le _
  · have hlt : n < 2 ^ (m.log2 + 2) := by
      have hm := Nat.lt_log2_self (n := m)
      rw [pow_succ] at hm ⊢
      rw [pow_succ]
      omega
    have hlog := (Nat.log2_lt hn).mpr hlt
    omega

theorem roundedMantissa_le (em : ExtendedMantissa) : em.roundedMantissa ≤ em.mantissa + 1 := by
  unfold ExtendedMantissa.roundedMantissa
  cases em.accuracy with
  | exact => exact Nat.le_succ _
  | inexact side =>
      cases side with
      | lt => exact Nat.le_succ _
      | eq =>
          change em.mantissa + em.mantissa % 2 ≤ _
          omega
      | gt => exact le_refl _

/-- The digits of a number end at the place at most, and begin no more than 53 places before it. -/
structure EndsBy (m : ℕ) (e place : ℤ) : Prop where
  last : e ≤ place
  first : m.log2 + e ≤ place + 52

theorem EndsBy.shift {m : ℕ} {e place : ℤ} (h : EndsBy m e place) (hplace : -1074 ≤ place)
    (accuracy : Accuracy) :
    EndsBy (shiftToTargetExponent Format.binary64 m e accuracy).1.mantissa
      (shiftToTargetExponent Format.binary64 m e accuracy).2 place := by
  let shift := (Format.binary64.targetExponent (totalExponent m e) - e).toNat
  have hshift : shift = (max (m.log2 + 1 + e - 53) (-1074) - e).toNat := rfl
  have hexponent : (shiftToTargetExponent Format.binary64 m e accuracy).2 = e + shift := rfl
  have hmantissa : (shiftToTargetExponent Format.binary64 m e accuracy).1.mantissa =
      m / 2 ^ shift := mantissa_shiftToTargetExponent m e accuracy
  obtain ⟨hlast, hfirst⟩ := h
  have hlog := log2_div_two_pow_le m shift
  rw [hexponent, hmantissa]
  exact ⟨by omega, by omega⟩

/-- Rounding carries into one more digit at most, so a number that ends early enough stays finite.
-/
theorem isFinite_round {s : Sign} {m : ℕ} {e : ℤ} (h : EndsBy m e 969) (accuracy : Accuracy) :
    (UnpackedFloat.unpack Format.binary64 (UnpackedFloat.pack Format.binary64
      (roundWithAccuracy Format.binary64 s m e accuracy))).isFinite = true := by
  have hfirst := h.shift (by decide) accuracy
  have hrounded : EndsBy (shiftToTargetExponent Format.binary64 m e accuracy).1.roundedMantissa
      (shiftToTargetExponent Format.binary64 m e accuracy).2 970 := by
    obtain ⟨hlast, hdigits⟩ := hfirst
    have hcarry := log2_le_of_le_succ (roundedMantissa_le
      (shiftToTargetExponent Format.binary64 m e accuracy).1)
    exact ⟨by omega, by omega⟩
  have hsecond := hrounded.shift (by decide) .exact
  unfold roundWithAccuracy
  dsimp only
  split
  · rw [unpack_pack_zero]
    rfl
  · exact isFinite_unpack_pack hsecond.last

end Rounding

/-- A root has half as many digits before the point. -/
theorem endsBy_sqrtCore {m : ℕ} {e : ℤ} (hm : m < 2 ^ 53) (he : e ≤ 971) :
    EndsBy (sqrtCore Format.binary64 m e).1 (sqrtCore Format.binary64 m e).2.1 969 := by
  let target := min (e.ediv 2) (Format.binary64.targetExponent ((totalExponent m e + 1).ediv 2))
  let k := (e - 2 * target).toNat
  have htarget : target ≤ e / 2 := min_le_left _ _
  have hexponent : (sqrtCore Format.binary64 m e).2.1 = target := rfl
  have hroot : (sqrtCore Format.binary64 m e).1 = (m <<< k).sqrt := rfl
  have hsquare : (2 ^ (m <<< k).sqrt.log2) ^ 2 < 2 ^ (53 + k) ∨ (m <<< k).sqrt = 0 := by
    by_cases hzero : (m <<< k).sqrt = 0
    · exact Or.inr hzero
    · refine Or.inl ?_
      calc (2 ^ (m <<< k).sqrt.log2) ^ 2 ≤ (m <<< k).sqrt ^ 2 :=
            Nat.pow_le_pow_left (Nat.log2_self_le hzero) 2
        _ ≤ m <<< k := Nat.sqrt_le' _
        _ = m * 2 ^ k := Nat.shiftLeft_eq m k
        _ < 2 ^ 53 * 2 ^ k := Nat.mul_lt_mul_of_pos_right hm (Nat.two_pow_pos k)
        _ = 2 ^ (53 + k) := (pow_add 2 53 k).symm
  rw [hexponent, hroot]
  refine ⟨by omega, ?_⟩
  rcases hsquare with hsquare | hzero
  · rw [← pow_mul, Nat.pow_lt_pow_iff_right Nat.one_lt_two] at hsquare
    omega
  · rw [hzero, Nat.log2_zero]
    omega

variable {x : Float}

theorem unpack_sqrt (x : Float) : unpack (squareRoot x) = UnpackedFloat.unpack Format.binary64
    (UnpackedFloat.pack Format.binary64 (UnpackedFloat.sqrt Format.binary64 (unpack x))) := rfl

theorem isUnsigned_roundWithAccuracy (m : ℕ) (e : ℤ) (accuracy : Accuracy) :
    IsUnsigned (roundWithAccuracy Format.binary64 .positive m e accuracy) := by
  unfold roundWithAccuracy
  dsimp only
  split <;> rfl

theorem atMost_of_isUnsigned (h : IsUnsigned (unpack x)) : atMost 0 x = true := by
  refine (Ranked.atMost_iff 0 x).mpr ⟨Ranked.zero_defined, (defined_iff x).mpr h.isNaN_eq_false, ?_⟩
  exact h.zero_le_place .positive

/-- The square root of a finite number that is not below zero is finite and not negative. -/
theorem sqrt_of_not_less (hx : x.isFinite = true) (h : less x 0 = false) :
    (squareRoot x).isFinite = true ∧ atMost 0 (squareRoot x) = true := by
  have hfinite : (unpack x).isFinite = true := hx
  change (unpack (squareRoot x)).isFinite = true ∧ _
  cases hu : unpack x with
  | notANumber =>
      rw [hu] at hfinite
      cases hfinite
  | infinity s =>
      rw [hu] at hfinite
      cases hfinite
  | zero s =>
      have hroot : unpack (squareRoot x) = .zero s := by
        rw [unpack_sqrt, hu]
        exact unpack_pack_zero s
      rw [hroot]
      refine ⟨rfl, ?_⟩
      rw [atMost_iff_compare, hroot]
      exact ⟨.eq, rfl, rfl⟩
  | finite s m e hm =>
      cases s with
      | negative =>
          have hless : less x 0 = true := by
            rw [less_iff_compare, hu]
            rfl
          rw [hless] at h
          cases h
      | positive =>
          obtain ⟨hdigits, hlast⟩ := unpack_le hu
          rw [unpack_sqrt, hu]
          refine ⟨isFinite_round (endsBy_sqrtCore hdigits hlast) _, atMost_of_isUnsigned ?_⟩
          rw [unpack_sqrt, hu]
          exact isUnsigned_unpack_pack (isUnsigned_roundWithAccuracy _ _ _)

/-- A number below zero has no square root. -/
theorem sqrt_of_less (h : less x 0 = true) : ¬ Defined (squareRoot x) := by
  have hnone : UnpackedFloat.sqrt Format.binary64 (unpack x) = .notANumber := by
    rw [less_iff_compare] at h
    cases hu : unpack x with
    | notANumber => rfl
    | infinity s =>
        rw [hu] at h
        cases s with
        | positive => cases h
        | negative => rfl
    | zero s =>
        rw [hu] at h
        cases s <;> cases h
    | finite s m e hm =>
        rw [hu] at h
        cases s with
        | positive => cases h
        | negative => rfl
  rw [defined_iff, unpack_sqrt, hnone, isNaN_unpack_pack]
  nofun

end Optima.Binary64
