import Optima.Proofs.Scalar.SquareRoot

/-!
Rounding of positive numbers. All digits are kept up to a last place, which lies 53 places behind
the first one but not behind the last place of all; a carry beyond the first digit leaves a power of
two. A number with a full mantissa is packed without a loss unless it is too large, so the first
digit of a rounded number stays where it is or moves by one place.
-/

namespace Optima.Binary64

open Float.Model Float.Model.UnpackedFloat Scalar

section Rounding

variable {m : ℕ} {e : ℤ}

/-- The place of the last digit that is kept of a number. -/
def lastPlace (m : ℕ) (e : ℤ) : ℤ := max (m.log2 + e - 52) (-1074)

theorem targetExponent_eq (m : ℕ) (e : ℤ) :
    Format.binary64.targetExponent (totalExponent m e) = lastPlace m e := by
  change max ((m.log2 : ℤ) + 1 + e - 53) (-1074) = max ((m.log2 : ℤ) + e - 52) (-1074)
  omega

theorem shift_eq (m : ℕ) (e : ℤ) (accuracy : Accuracy) :
    (shiftToTargetExponent Format.binary64 m e accuracy).1.mantissa =
        m / 2 ^ (lastPlace m e - e).toNat ∧
      (shiftToTargetExponent Format.binary64 m e accuracy).2 = e + (lastPlace m e - e).toNat := by
  rw [← targetExponent_eq]
  exact ⟨mantissa_shiftToTargetExponent m e accuracy, rfl⟩

/-- Up to 53 digits are all kept. -/
theorem shift_of_lt (hm : m < 2 ^ 53) (he : -1074 ≤ e) :
    (shiftToTargetExponent Format.binary64 m e .exact).1.mantissa = m ∧
      (shiftToTargetExponent Format.binary64 m e .exact).2 = e := by
  obtain ⟨hmantissa, hexponent⟩ := shift_eq m e .exact
  have hlog : m.log2 < 53 := by
    by_cases hzero : m = 0
    · rw [hzero]
      decide
    · exact (Nat.log2_lt hzero).mpr hm
  have hshift : (lastPlace m e - e).toNat = 0 := by
    unfold lastPlace
    omega
  rw [hshift] at hmantissa hexponent
  rw [hmantissa, hexponent]
  exact ⟨Nat.div_one m, add_zero e⟩

/-- A carry into the next digit is taken back. -/
theorem shift_of_carry (he : -1074 ≤ e) :
    (shiftToTargetExponent Format.binary64 (2 ^ 53) e .exact).1.mantissa = 2 ^ 52 ∧
      (shiftToTargetExponent Format.binary64 (2 ^ 53) e .exact).2 = e + 1 := by
  obtain ⟨hmantissa, hexponent⟩ := shift_eq (2 ^ 53) e .exact
  have hshift : (lastPlace (2 ^ 53) e - e).toNat = 1 := by
    unfold lastPlace
    rw [Nat.log2_two_pow]
    omega
  rw [hshift] at hmantissa hexponent
  exact ⟨hmantissa, hexponent⟩

theorem roundWithAccuracy_eq_finite (s : Sign) {accuracy : Accuracy} {m' : ℕ} {e' : ℤ}
    (hm' : 0 < m')
    (h : (shiftToTargetExponent Format.binary64
        (shiftToTargetExponent Format.binary64 m e accuracy).1.roundedMantissa
        (shiftToTargetExponent Format.binary64 m e accuracy).2 .exact).1.mantissa = m' ∧
      (shiftToTargetExponent Format.binary64
        (shiftToTargetExponent Format.binary64 m e accuracy).1.roundedMantissa
        (shiftToTargetExponent Format.binary64 m e accuracy).2 .exact).2 = e') :
    roundWithAccuracy Format.binary64 s m e accuracy = .finite s m' e' hm' := by
  obtain ⟨rfl, rfl⟩ := h
  unfold roundWithAccuracy
  exact dif_neg hm'.ne'

/-- Rounding keeps the digits up to the last place, unless a carry leaves a power of two. -/
theorem roundWithAccuracy_cases (s : Sign) (hm : 0 < m) (he : e ≤ lastPlace m e)
    (hleading : -1074 ≤ m.log2 + e) (accuracy : Accuracy) :
    ∃ m' e' hm', roundWithAccuracy Format.binary64 s m e accuracy = .finite s m' e' hm' ∧
      m' < 2 ^ 53 ∧
      ((e' = lastPlace m e ∧ m / 2 ^ (lastPlace m e - e).toNat ≤ m') ∨
        (e' = lastPlace m e + 1 ∧ m' = 2 ^ 52)) := by
  have hfits : Fits Format.binary64 (shiftToTargetExponent Format.binary64 m e accuracy).1.mantissa
      (shiftToTargetExponent Format.binary64 m e accuracy).2 :=
    fits_shiftToTargetExponent hm hleading accuracy
  have hlt : (shiftToTargetExponent Format.binary64 m e accuracy).1.mantissa < 2 ^ 53 := hfits.lt
  have hbelow := mantissa_le_roundedMantissa (shiftToTargetExponent Format.binary64 m e accuracy).1
  have habove := roundedMantissa_le (shiftToTargetExponent Format.binary64 m e accuracy).1
  have hround {m' : ℕ} {e' : ℤ} := @roundWithAccuracy_eq_finite m e s accuracy m' e'
  obtain ⟨hmantissa, hexponent⟩ := shift_eq m e accuracy
  have hplace : e + (lastPlace m e - e).toNat = lastPlace m e := by omega
  have hleast : -1074 ≤ lastPlace m e := le_max_right _ _
  rw [hexponent, hplace] at hround
  generalize (shiftToTargetExponent Format.binary64 m e accuracy).1.roundedMantissa = n at *
  by_cases hcarry : n < 2 ^ 53
  · have hn : 0 < n := hfits.pos.trans_le hbelow
    rw [hmantissa] at hbelow
    exact ⟨n, _, hn, hround hn (shift_of_lt hcarry hleast), hcarry, Or.inl ⟨rfl, hbelow⟩⟩
  · obtain rfl : n = 2 ^ 53 := by omega
    exact ⟨_, _, _, hround (Nat.two_pow_pos 52) (shift_of_carry hleast), by decide,
      Or.inr ⟨rfl, rfl⟩⟩

theorem two_pow_52_le_div (h : 52 ≤ m.log2) : 2 ^ 52 ≤ m / 2 ^ (m.log2 - 52) := by
  have hm : m ≠ 0 := by
    rintro rfl
    exact absurd h (by decide)
  rw [Nat.le_div_iff_mul_le (Nat.two_pow_pos _), ← pow_add]
  calc 2 ^ (52 + (m.log2 - 52)) = 2 ^ m.log2 := by rw [Nat.add_sub_cancel' h]
    _ ≤ m := Nat.log2_self_le hm

end Rounding

section Packing

variable {m : ℕ} {e : ℤ}

theorem unpack_of_normal {b : BitVec Format.binary64.numBits}
    (hlast : unpackExponent b ≠ -1#_) (hfirst : unpackExponent b ≠ 0#_) :
    UnpackedFloat.unpack Format.binary64 b =
      .finite (Sign.ofBitVec (unpackSign b)) (2 ^ 52 + (unpackMantissa b).toNat)
        ((unpackExponent b).toNat - 1075) (by omega) := by
  have hmantissa : (1#1 ++ unpackMantissa b).toNat = 2 ^ 52 + (unpackMantissa b).toNat := by
    rw [BitVec.toNat_append]
    change 2 ^ 52 ||| (unpackMantissa b).toNat = _
    rw [Nat.or_comm, Nat.or_two_pow_eq_add_of_lt (unpackMantissa b).isLt, Nat.add_comm]
  unfold UnpackedFloat.unpack
  dsimp only
  rw [if_neg hlast, if_neg hfirst]
  congr 1

theorem pack_full (hm : 0 < m) (hfull : 2 ^ 52 ≤ m) (hlt : m < 2 ^ 53) (he' : e ≤ 971) :
    UnpackedFloat.pack Format.binary64 (.finite .positive m e hm) =
      packComponents Format.binary64 .positive (BitVec.ofNat 11 (e + 1075).toNat)
        (BitVec.ofNat 52 m) := by
  have hnormal : m.log2 + 1 = Format.binary64.mantissaBits :=
    congrArg (· + 1) ((Nat.log2_eq_iff hm.ne').mpr ⟨hfull, hlt⟩)
  have hbiased : (e + Format.binary64.exponentBias +
      Format.binary64.mantissaBitsWithoutImplicit).toNat = (e + 1075).toNat := by
    change (e + 1023 + 52).toNat = _
    omega
  have hsmall : ¬ 2 ^ Format.binary64.exponentBits ≤ (e + 1075).toNat + 1 := by
    change ¬ 2048 ≤ (e + 1075).toNat + 1
    omega
  unfold UnpackedFloat.pack
  dsimp only
  rw [hbiased, if_neg hsmall, if_pos hnormal]

/-- A number with a full mantissa is packed without a loss. -/
theorem unpack_pack_full (hm : 0 < m) (hfull : 2 ^ 52 ≤ m) (hlt : m < 2 ^ 53) (he : -1074 ≤ e)
    (he' : e ≤ 971) :
    UnpackedFloat.unpack Format.binary64
        (UnpackedFloat.pack Format.binary64 (.finite .positive m e hm)) =
      .finite .positive m e hm := by
  have hpack := pack_full hm hfull hlt he'
  let b := UnpackedFloat.pack Format.binary64 (.finite .positive m e hm)
  have hsign : Sign.ofBitVec (unpackSign b) = .positive := by
    simp only [b, hpack, unpackSign_packComponents]
    rfl
  have hmantissa : 2 ^ 52 + (unpackMantissa b).toNat = m := by
    simp only [b, hpack, unpackMantissa_packComponents, BitVec.toNat_ofNat]
    omega
  have hexponent : (unpackExponent b).toNat = (e + 1075).toNat := by
    simp only [b, hpack, unpackExponent_packComponents, BitVec.toNat_ofNat]
    change (e + 1075).toNat % 2048 = _
    omega
  have hlast : unpackExponent b ≠ -1#_ := by
    rw [BitVec.toNat_ne, hexponent]
    change (e + 1075).toNat ≠ 2047
    omega
  have hfirst : unpackExponent b ≠ 0#_ := by
    rw [BitVec.toNat_ne, hexponent]
    change (e + 1075).toNat ≠ 0
    omega
  rw [unpack_of_normal hlast hfirst]
  simp only [UnpackedFloat.finite.injEq]
  refine ⟨hsign, hmantissa, ?_⟩
  rw [hexponent]
  omega

/-- What is too large for the format becomes infinite. -/
theorem unpack_pack_large (hm : 0 < m) (he : 972 ≤ e) :
    UnpackedFloat.unpack Format.binary64
        (UnpackedFloat.pack Format.binary64 (.finite .positive m e hm)) = .infinity .positive := by
  have hlarge : 2 ^ Format.binary64.exponentBits ≤ (e + Format.binary64.exponentBias +
      Format.binary64.mantissaBitsWithoutImplicit).toNat + 1 := by
    change 2048 ≤ (e + 1023 + 52).toNat + 1
    omega
  unfold UnpackedFloat.pack
  dsimp only
  rw [if_pos hlarge]
  rfl

theorem place_one : place (unpack 1.0) = toLex (1, toLex (-52, 2 ^ 52)) := rfl

theorem place_finite_lt_one {s : Sign} (hm : 0 < m) (he : e ≤ -53) :
    place (.finite s m e hm) < place (unpack 1.0) := by
  rw [place_one]
  cases s with
  | negative =>
      have hlayer : (-1 : ℤ) < 1 := by decide
      exact Prod.Lex.toLex_lt_toLex.mpr (Or.inl hlayer)
  | positive =>
      have hexponent : e < -52 := by omega
      exact Prod.Lex.toLex_lt_toLex.mpr
        (Or.inr ⟨rfl, Prod.Lex.toLex_lt_toLex.mpr (Or.inl hexponent)⟩)

/-- With an exponent below that of one a number is below one. -/
theorem place_unpack_lt_one {b : BitVec Format.binary64.numBits}
    (h : (unpackExponent b).toNat ≤ 1022) :
    place (UnpackedFloat.unpack Format.binary64 b) < place (unpack 1.0) := by
  by_cases hfirst : unpackExponent b = 0#_
  · have hlast : unpackExponent b ≠ -1#_ := by
      rw [hfirst]
      decide
    unfold UnpackedFloat.unpack
    dsimp only
    rw [if_neg hlast, if_pos hfirst]
    split
    · exact Prod.Lex.toLex_lt_toLex.mpr (Or.inl (by decide))
    · apply place_finite_lt_one
      rw [hfirst]
      decide
  · have hlast : unpackExponent b ≠ -1#_ := by
      intro hall
      rw [hall] at h
      exact absurd h (by decide)
    rw [unpack_of_normal hlast hfirst]
    apply place_finite_lt_one
    omega

theorem place_unpack_pack_lt_one (hm : 0 < m) (he : e ≤ -53) :
    place (UnpackedFloat.unpack Format.binary64
      (UnpackedFloat.pack Format.binary64 (.finite .positive m e hm))) < place (unpack 1.0) := by
  apply place_unpack_lt_one
  unfold UnpackedFloat.pack
  dsimp only
  split
  · next hlarge =>
      change 2048 ≤ (e + 1023 + 52).toNat + 1 at hlarge
      omega
  · split
    · rw [unpackExponent_packComponents, BitVec.toNat_ofNat]
      change (e + 1023 + 52).toNat % 2048 ≤ 1022
      omega
    · rw [unpackExponent_packComponents]
      decide

end Packing

/-- What becomes of a positive number that is rounded: it keeps the place of its first digit or gets
one more digit, unless it is too large. -/
theorem unpack_round {m : ℕ} {e : ℤ} (hdigits : 52 ≤ m.log2) (hnormal : -1022 ≤ m.log2 + e)
    (accuracy : Accuracy) :
    (1023 ≤ m.log2 + e ∧ UnpackedFloat.unpack Format.binary64 (UnpackedFloat.pack Format.binary64
        (roundWithAccuracy Format.binary64 .positive m e accuracy)) = .infinity .positive) ∨
      ∃ m' e' hm', UnpackedFloat.unpack Format.binary64 (UnpackedFloat.pack Format.binary64
          (roundWithAccuracy Format.binary64 .positive m e accuracy)) =
            .finite .positive m' e' hm' ∧
        2 ^ 52 ≤ m' ∧ m' < 2 ^ 53 ∧ m.log2 + e - 52 ≤ e' ∧ e' ≤ m.log2 + e - 51 := by
  have hplace : lastPlace m e = m.log2 + e - 52 := by
    unfold lastPlace
    omega
  have hm : 0 < m := by
    rcases Nat.eq_zero_or_pos m with rfl | hm
    · exact absurd hdigits (by decide)
    · exact hm
  have hshift : (lastPlace m e - e).toNat = m.log2 - 52 := by omega
  have hquotient := two_pow_52_le_div hdigits
  obtain ⟨m', e', hm', hround, hlt, hcases⟩ :=
    roundWithAccuracy_cases (e := e) .positive hm (by omega) (by omega) accuracy
  rw [hshift, hplace] at hcases
  have hfull : 2 ^ 52 ≤ m' := by omega
  have hlow : m.log2 + e - 52 ≤ e' := by omega
  have hhigh : e' ≤ m.log2 + e - 51 := by omega
  rw [hround]
  by_cases he' : e' ≤ 971
  · exact Or.inr
      ⟨m', e', hm', unpack_pack_full hm' hfull hlt (by omega) he', hfull, hlt, hlow, hhigh⟩
  · exact Or.inl ⟨by omega, unpack_pack_large hm' (by omega)⟩

end Optima.Binary64
