import Optima.Proofs.Scalar.Rounding

/-!
Reciprocals of counts. A count that is not zero is at least one as a double; it may be infinite, but
not with fewer than 1023 digits. The reciprocal of a finite number that is at least one is positive,
finite and at most one.
-/

namespace Optima.Binary64

open Float.Model Float.Model.UnpackedFloat Scalar

/-- Rounding does not take a number from above one to below. -/
theorem one_le_round {m : ℕ} {e : ℤ} (hdigits : 52 ≤ m.log2) (hone : 0 ≤ m.log2 + e)
    (accuracy : Accuracy) :
    place (unpack 1.0) ≤ place (UnpackedFloat.unpack Format.binary64 (UnpackedFloat.pack
      Format.binary64 (roundWithAccuracy Format.binary64 .positive m e accuracy))) := by
  rw [place_one]
  obtain ⟨-, hinfinite⟩ | ⟨m', e', hm', hfinite, hfull, -, hlow, -⟩ :=
    unpack_round (e := e) hdigits (by omega) accuracy
  · rw [hinfinite]
    exact Prod.Lex.toLex_le_toLex.mpr (Or.inl (by decide))
  · rw [hfinite]
    refine Prod.Lex.toLex_le_toLex.mpr (Or.inr ⟨rfl, Prod.Lex.toLex_le_toLex.mpr ?_⟩)
    have hmantissa : (2 ^ 52 : ℤ) ≤ m' := by exact_mod_cast hfull
    by_cases he' : e' = -52
    · exact Or.inr ⟨he'.symm, hmantissa⟩
    · exact Or.inl (by change -52 < e'; omega)

theorem atMost_of_place {x y : Float} (hx : Defined x) (hy : Defined y)
    (h : place (unpack x) ≤ place (unpack y)) : atMost x y = true :=
  (Ranked.atMost_iff x y).mpr ⟨hx, hy, h⟩

theorem one_defined : Defined (1.0 : Float) := by
  rw [defined_iff, unpack_one]
  rfl

/-- What comes out of rounding is a number. -/
theorem one_le_of_unpack {x : Float} {m : ℕ} {e : ℤ} {accuracy : Accuracy}
    (hx : unpack x = UnpackedFloat.unpack Format.binary64 (UnpackedFloat.pack Format.binary64
      (roundWithAccuracy Format.binary64 .positive m e accuracy)))
    (hdigits : 52 ≤ m.log2) (hone : 0 ≤ m.log2 + e) : atMost 1.0 x = true := by
  have hdefined : Defined x := by
    rw [defined_iff, hx, isNaN_unpack_pack, isNaN_roundWithAccuracy]
  apply atMost_of_place one_defined hdefined
  rw [hx]
  exact one_le_round hdigits hone accuracy

theorem full_digits {x : Float} {s : Sign} {m : ℕ} {e : ℤ} {hm : 0 < m}
    (h : unpack x = .finite s m e hm) (hone : 0 ≤ m.log2 + e) : 52 ≤ m.log2 := by
  rcases (unpack_eq_finite h).2 with rfl | hfull
  · omega
  · exact (Nat.le_log2 hm.ne').mpr hfull

variable {x y : Float}

theorem one_le_infinity (hx : unpack x = UnpackedFloat.unpack Format.binary64
    (UnpackedFloat.pack Format.binary64 (.infinity .positive))) : atMost 1.0 x = true := by
  have hdefined : Defined x := by
    rw [defined_iff, hx]
    rfl
  apply atMost_of_place one_defined hdefined
  rw [hx, place_one]
  exact Prod.Lex.toLex_le_toLex.mpr (Or.inl (by decide))

/-- Rounding cannot bring a product of numbers from one on below one, since one is a number itself.
-/
theorem one_le_mul (hx : atMost 1.0 x = true) (hy : atMost 1.0 y = true) :
    atMost 1.0 (x * y) = true := by
  have hproduct : unpack (x * y) = UnpackedFloat.unpack Format.binary64 (UnpackedFloat.pack
      Format.binary64 (UnpackedFloat.mul Format.binary64 (unpack x) (unpack y))) := rfl
  obtain hx | ⟨m, e, hm, hx, hleading⟩ := unpack_of_one_le hx
  · obtain hy | ⟨n, f, hn, hy, -⟩ := unpack_of_one_le hy
    · rw [hx, hy] at hproduct
      exact one_le_infinity hproduct
    · rw [hx, hy] at hproduct
      exact one_le_infinity hproduct
  · obtain hy | ⟨n, f, hn, hy, hleading'⟩ := unpack_of_one_le hy
    · rw [hx, hy] at hproduct
      exact one_le_infinity hproduct
    · have hlog := add_log2_le_log2_mul hm hn
      have hdigits := full_digits hx hleading
      rw [hx, hy] at hproduct
      exact one_le_of_unpack hproduct (by omega) (by omega)

/-- The places that a quotient of one is computed to. -/
def quotientPlace (e : ℤ) : ℤ := max (-105 - e) (-1074)

theorem divCore_one {m : ℕ} {e : ℤ} (hlog : m.log2 = 52) (he' : e ≤ 971) :
    divCore Format.binary64 (2 ^ 52) (-52) m e =
      (2 ^ (52 + (-52 - e - quotientPlace e).toNat) / m, quotientPlace e,
        accuracyOfFraction (2 ^ (52 + (-52 - e - quotientPlace e).toNat) % m) m) := by
  have htarget : Format.binary64.targetExponent (totalExponent (2 ^ 52) (-52) - totalExponent m e) =
      quotientPlace e := by
    change max ((52 : ℤ) + 1 + -52 - (m.log2 + 1 + e) - 53) (-1074) = max (-105 - e) (-1074)
    omega
  have hmin : min (-52 - e) (quotientPlace e) = quotientPlace e := by
    unfold quotientPlace
    omega
  simp only [divCore, htarget, hmin, Nat.shiftLeft_eq, ← pow_add]

/-- The quotient of one and a greater number has its first digit behind the point, opposite to that
of the number. -/
theorem quotient_digits {m : ℕ} {e : ℤ} (hfull : 2 ^ 52 ≤ m) (hlt : m < 2 ^ 53) (he : -52 ≤ e)
    (he' : e ≤ 971) (hone : 2 ^ 52 < m ∨ -52 < e) {q : ℕ}
    (hq : q = 2 ^ (52 + (-52 - e - quotientPlace e).toNat) / m) :
    0 < q ∧ -53 - e ≤ q.log2 + quotientPlace e ∧ q.log2 + quotientPlace e ≤ -1 := by
  have hm : 0 < m := by omega
  obtain ⟨k, hk⟩ : ∃ k, (-52 - e - quotientPlace e).toNat = k + 1 := by
    refine ⟨(-53 - e - quotientPlace e).toNat, ?_⟩
    unfold quotientPlace
    omega
  have hplace : quotientPlace e = -53 - e - k := by
    unfold quotientPlace at hk ⊢
    omega
  rw [hk] at hq
  have hlow : 2 ^ k ≤ q := by
    rw [hq, Nat.le_div_iff_mul_le hm]
    calc 2 ^ k * m ≤ 2 ^ k * 2 ^ 53 := Nat.mul_le_mul_left _ hlt.le
      _ = 2 ^ (52 + (k + 1)) := by ring
  have hhigh : q ≤ 2 ^ (k + 1) := by
    rw [hq]
    calc
      2 ^ (52 + (k + 1)) / m ≤ 2 ^ (52 + (k + 1)) / 2 ^ 52 :=
        Nat.div_le_div_left hfull (by decide)
      _ = 2 ^ (k + 1) := by rw [pow_add, Nat.mul_div_cancel_left _ (by decide)]
  have hpos : 0 < q := (Nat.two_pow_pos k).trans_le hlow
  -- A quotient by a power of two may be one digit longer; then the number is at least two.
  have hlog : k ≤ q.log2 := (Nat.le_log2 hpos.ne').mpr hlow
  refine ⟨hpos, by omega, ?_⟩
  by_cases hexponent : -52 < e
  · have hupper : q.log2 < k + 2 :=
      (Nat.log2_lt hpos.ne').mpr (hhigh.trans_lt (Nat.pow_lt_pow_right (by decide) (by omega)))
    omega
  · have hstrict : q < 2 ^ (k + 1) := by
      rw [hq, Nat.div_lt_iff_lt_mul hm, pow_add, mul_comm]
      exact Nat.mul_lt_mul_of_pos_left (hone.resolve_right hexponent) (Nat.two_pow_pos _)
    have hupper : q.log2 < k + 1 := (Nat.log2_lt hpos.ne').mpr hstrict
    omega

/-- A quotient of one is the quotient of mantissas, rounded once. -/
theorem unpack_one_div {x : Float} {m : ℕ} {e : ℤ} {hm : 0 < m}
    (hx : unpack x = .finite .positive m e hm) (hlog : m.log2 = 52) (he' : e ≤ 971) :
    ∃ accuracy, unpack (1.0 / x) = UnpackedFloat.unpack Format.binary64 (UnpackedFloat.pack
      Format.binary64 (roundWithAccuracy Format.binary64 .positive
        (2 ^ (52 + (-52 - e - quotientPlace e).toNat) / m) (quotientPlace e) accuracy)) := by
  have hquotient : unpack (1.0 / x) = UnpackedFloat.unpack Format.binary64 (UnpackedFloat.pack
      Format.binary64 (UnpackedFloat.div Format.binary64 (unpack 1.0) (unpack x))) := rfl
  rw [hquotient, hx, unpack_one]
  simp only [UnpackedFloat.div, divCore_one hlog he']
  exact ⟨_, rfl⟩

/-- The reciprocal of a finite number that is at least one is positive, finite and at most one. -/
theorem one_div_of_one_le (hx : atMost 1.0 x = true) (hfinite : x.isFinite = true) :
    less 0 (1.0 / x) = true ∧ (1.0 / x).isFinite = true ∧ atMost (1.0 / x) 1.0 = true := by
  have hnumber : (unpack x).isFinite = true := hfinite
  obtain hx | ⟨m, e, hm, hx, hleading⟩ := unpack_of_one_le hx
  · rw [hx] at hnumber
    cases hnumber
  obtain ⟨hlt, he'⟩ := unpack_le hx
  have hfull : 2 ^ 52 ≤ m := (Nat.le_log2 hm.ne').mp (full_digits hx hleading)
  have hlog : m.log2 = 52 := (Nat.log2_eq_iff hm.ne').mpr ⟨hfull, hlt⟩
  -- Only one itself has a quotient that does not begin behind the point.
  by_cases hone : 2 ^ 52 < m ∨ -52 < e
  · obtain ⟨accuracy, hquotient⟩ := unpack_one_div hx hlog he'
    obtain ⟨q, hq⟩ : ∃ q, q = 2 ^ (52 + (-52 - e - quotientPlace e).toNat) / m := ⟨_, rfl⟩
    obtain ⟨hpos, hlow, hhigh⟩ := quotient_digits hfull hlt (by omega) he' hone hq
    rw [← hq] at hquotient
    have hleast : -1074 ≤ q.log2 + quotientPlace e := by omega
    have hkept : quotientPlace e ≤ lastPlace q (quotientPlace e) := by
      unfold lastPlace
      unfold quotientPlace at hlow ⊢
      omega
    have hbelow : lastPlace q (quotientPlace e) ≤ -53 := by
      unfold lastPlace
      omega
    refine ⟨?_, ?_, ?_⟩
    · have hminimum : Format.binary64.minExponent ≤ q.log2 + quotientPlace e := hleast
      obtain ⟨m', e', hfits, hround⟩ :=
        exists_roundWithAccuracy_eq .positive hpos hminimum accuracy
      rw [less_zero_iff, hquotient, hround]
      exact isPositive_unpack_pack hfits
    · change (unpack (1.0 / x)).isFinite = true
      rw [hquotient]
      exact isFinite_round ⟨by omega, by omega⟩ accuracy
    · obtain ⟨m', e', hm', hround, -, hcases⟩ :=
        roundWithAccuracy_cases .positive hpos hkept hleast accuracy
      have hdefined : Defined (1.0 / x) := by
        rw [defined_iff, hquotient, isNaN_unpack_pack, isNaN_roundWithAccuracy]
      apply atMost_of_place hdefined one_defined
      rw [hquotient, hround]
      -- Rounding reaches one only by a carry through all digits.
      by_cases hsmall : e' ≤ -53
      · exact (place_unpack_pack_lt_one hm' hsmall).le
      · obtain ⟨rfl, rfl⟩ : e' = -52 ∧ m' = 2 ^ 52 := by omega
        exact le_of_eq rfl
  · obtain rfl : x = 1.0 := by
      apply unpack_injective
      obtain ⟨rfl, rfl⟩ : e = -52 ∧ m = 2 ^ 52 := by omega
      rw [hx, unpack_one]
    decide +kernel

/-- A whole number that fits into a machine word, as a double. -/
theorem unpack_toFloat {n : ℕ} (hn : 0 < n) (hlt : n < 2 ^ 53) :
    unpack n.toUInt64.toFloat = UnpackedFloat.unpack Format.binary64 (UnpackedFloat.pack
      Format.binary64 (roundWithAccuracy Format.binary64 .positive (n <<< (52 - n.log2))
        (n.log2 - 52) .exact)) := by
  have hword : n.toUInt64.toNat = n := by
    change n % 2 ^ 64 = n
    omega
  have hlog : n.log2 < 53 := (Nat.log2_lt hn.ne').mpr hlt
  have htarget : Format.binary64.targetExponent (totalExponent n 0) = n.log2 - 52 := by
    rw [targetExponent_eq, lastPlace]
    omega
  have hnormal : unpack n.toUInt64.toFloat = UnpackedFloat.unpack Format.binary64
      (UnpackedFloat.pack Format.binary64
        (UnpackedFloat.normalize Format.binary64 (n.toUInt64.toNat : ℤ) 0 .positive)) := rfl
  have hround : UnpackedFloat.normalize Format.binary64 (n : ℤ) 0 .positive =
      UnpackedFloat.round Format.binary64 .positive n 0 := by
    unfold UnpackedFloat.normalize
    rw [compare_gt_iff_gt.mpr (by omega)]
    rfl
  have hshift : (0 - (n.log2 - 52 : ℤ)).toNat = 52 - n.log2 := by omega
  have hexponent : (0 : ℤ) - (52 - n.log2 : ℕ) = n.log2 - 52 := by omega
  rw [hnormal, hword, hround]
  simp only [UnpackedFloat.round, htarget, decreaseExponent, hshift, hexponent]

theorem log2_shiftLeft {n : ℕ} (hn : 0 < n) (k : ℕ) : (n <<< k).log2 = n.log2 + k := by
  rw [Nat.shiftLeft_eq]
  have hpos : n * 2 ^ k ≠ 0 := (Nat.mul_pos hn (Nat.two_pow_pos k)).ne'
  rw [Nat.log2_eq_iff hpos]
  constructor
  · rw [pow_add]
    exact Nat.mul_le_mul_right _ (Nat.log2_self_le hn.ne')
  · rw [Nat.add_right_comm, pow_add]
    exact Nat.mul_lt_mul_of_pos_right Nat.lt_log2_self (Nat.two_pow_pos k)

theorem natural_eq_mul {n : ℕ} (hlt : n < 2 ^ 53) :
    (Scalar.natural n : Float) = n.toUInt64.toFloat * 1.0 := by
  have hfast : n < 2 ^ 53 ∧ 0 ≤ 22 := ⟨hlt, by decide⟩
  change Float.ofScientific n false 0 = _
  unfold Float.ofScientific
  rw [dif_pos hfast]
  rfl

theorem unpack_natural_large {n : ℕ} (hlarge : 2 ^ 53 ≤ n) :
    unpack (Scalar.natural n : Float) = UnpackedFloat.unpack Format.binary64 (UnpackedFloat.pack
      Format.binary64 (roundWithAccuracy Format.binary64 .positive (n <<< 53) (-53) .exact)) := by
  have hslow : ¬ (n < 2 ^ 53 ∧ 0 ≤ 22) := fun h => absurd hlarge (Nat.not_le.mpr h.1)
  have hn : n ≠ 0 := by omega
  have hmodel : Float.ofScientific n false 0 = Float.ofModel (Float.Model.ofScientific n 0) := by
    unfold Float.ofScientific
    rw [dif_neg hslow]
    rfl
  have hproduct : UnpackedFloat.ofScientific Format.binary64 n 0 =
      roundWithAccuracy Format.binary64 .positive (n <<< 53 * 1) (-53 + 0) .exact := by
    have hhigh : ¬ (0 : ℤ) > 2 ^ Format.binary64.exponentBits := by decide
    have hlow : ¬ (0 : ℤ) < -((2 ^ Format.binary64.exponentBits : ℤ) + n.log2) := by
      change ¬ (0 : ℤ) < -(2048 + n.log2)
      omega
    unfold UnpackedFloat.ofScientific
    rw [dif_neg hn, if_neg hhigh, if_neg hlow, if_pos le_rfl]
    rfl
  change unpack (Float.ofScientific n false 0) = _
  rw [hmodel]
  change UnpackedFloat.unpack Format.binary64 (UnpackedFloat.pack Format.binary64
    (UnpackedFloat.ofScientific Format.binary64 n 0)) = _
  rw [hproduct, mul_one, add_zero]

/-- A number that is counted with is at least one, infinite if it is too large. -/
theorem one_le_natural {n : ℕ} (hn : 0 < n) : atMost 1.0 (Scalar.natural n : Float) = true := by
  by_cases hlt : n < 2 ^ 53
  · have hlog : n.log2 < 53 := (Nat.log2_lt hn.ne').mpr hlt
    have hdigits := log2_shiftLeft hn (52 - n.log2)
    rw [natural_eq_mul hlt]
    apply one_le_mul _ (by decide +kernel)
    exact one_le_of_unpack (unpack_toFloat hn hlt) (by omega) (by omega)
  · have hdigits := log2_shiftLeft hn 53
    exact one_le_of_unpack (unpack_natural_large (Nat.le_of_not_lt hlt)) (by omega) (by omega)

/-- A whole number with at most 1022 digits is finite as a double. -/
theorem natural_isFinite {n : ℕ} (hn : 0 < n) (h : n.log2 < 1022) :
    (Scalar.natural n : Float).isFinite = true := by
  -- Fewer than 54 digits are converted as a machine word, more of them are shifted and rounded.
  by_cases hlt : n < 2 ^ 53
  · have hlog : n.log2 < 53 := (Nat.log2_lt hn.ne').mpr hlt
    have hdigits := log2_shiftLeft hn (52 - n.log2)
    have hword := unpack_toFloat hn hlt
    obtain ⟨hlarge, -⟩ | ⟨m, e, hm, hrounded, hfull, hbound, -, hhigh⟩ :=
      unpack_round (m := n <<< (52 - n.log2)) (e := n.log2 - 52) (by omega) (by omega) .exact
    · omega
    · have hproduct : unpack (n.toUInt64.toFloat * 1.0) = UnpackedFloat.unpack Format.binary64
          (UnpackedFloat.pack Format.binary64 (UnpackedFloat.mul Format.binary64
            (unpack n.toUInt64.toFloat) (unpack 1.0))) := rfl
      have hlogm : m.log2 = 52 := (Nat.log2_eq_iff hm.ne').mpr ⟨hfull, hbound⟩
      have hlogp := log2_shiftLeft hm 52
      rw [Nat.shiftLeft_eq] at hlogp
      rw [hword, hrounded, unpack_one] at hproduct
      rw [natural_eq_mul hlt]
      change (unpack (n.toUInt64.toFloat * 1.0)).isFinite = true
      rw [hproduct]
      exact isFinite_round ⟨by omega, by omega⟩ .exact
  · have hdigits := log2_shiftLeft hn 53
    change (unpack (Scalar.natural n)).isFinite = true
    rw [unpack_natural_large (Nat.le_of_not_lt hlt)]
    exact isFinite_round ⟨by omega, by omega⟩ .exact

/-- A count that is finite as a double has a reciprocal that may be a probability. -/
theorem one_div_natural {n : ℕ} (hn : 0 < n)
    (hfinite : (Scalar.natural n : Float).isFinite = true) :
    less 0 (1.0 / Scalar.natural n : Float) = true ∧
      (1.0 / Scalar.natural n : Float).isFinite = true ∧
      atMost (1.0 / Scalar.natural n : Float) 1.0 = true :=
  one_div_of_one_le (one_le_natural hn) hfinite

end Optima.Binary64
