import Optima.Input.Check
import Optima.Proofs.Scalar.SquareRoot
import Optima.Proofs.Scenario.Names

/-!
Exact numbers and the values they stand for. What is brought to an odd mantissa keeps its value, and
two numbers brought there are one if they have one value. So a double is equal to a whole number
exactly if it is finite and that whole number is what its mantissa and exponent come to.
-/

namespace Optima.Datum

namespace Quantity

def value : Quantity → ℚ
  | finite m e => m * 2 ^ e
  | _ => 0

theorem two_zpow_ne_zero (e : ℤ) : (2 : ℚ) ^ e ≠ 0 := zpow_ne_zero e two_ne_zero

theorem half_mul_two_zpow {m : ℤ} (h : m % 2 = 0) (e : ℤ) :
    ((m / 2 : ℤ) : ℚ) * 2 ^ (e + 1) = m * 2 ^ e := by
  obtain ⟨k, rfl⟩ : (2 : ℤ) ∣ m := Int.dvd_of_emod_eq_zero h
  rw [Int.mul_ediv_cancel_left k two_ne_zero, zpow_add_one₀ two_ne_zero]
  push_cast
  ring

/-- Moving factors of two into the exponent does not change the number. -/
theorem reduced_value (fuel : ℕ) (m e : ℤ) : (reduced fuel m e).value = m * 2 ^ e := by
  induction fuel generalizing m e with
  | zero => rfl
  | succ fuel ih =>
      rw [reduced]
      split
      · next hzero => simp [value, beq_iff_eq.mp hzero]
      · split
        · next heven => rw [ih, half_mul_two_zpow (beq_iff_eq.mp heven)]
        · rfl

/-- There is fuel enough for all factors of two. -/
theorem reduced_odd {fuel : ℕ} {m : ℤ} (hm : m ≠ 0) (h : m.natAbs < 2 ^ fuel) (e : ℤ) :
    ∃ k f, reduced fuel m e = finite k f ∧ k % 2 = 1 := by
  induction fuel generalizing m e with
  | zero => omega
  | succ fuel ih =>
      rw [reduced, if_neg (by simpa using hm)]
      split
      · next heven =>
          rw [beq_iff_eq] at heven
          rw [pow_succ] at h
          exact ih (by omega) (by omega) (e + 1)
      · next hodd =>
          rw [beq_iff_eq] at hodd
          exact ⟨m, e, rfl, by omega⟩

theorem scaled_value (m e : ℤ) : (scaled m e).value = m * 2 ^ e := reduced_value _ m e

theorem scaled_zero (e : ℤ) : scaled 0 e = finite 0 0 := rfl

theorem scaled_odd {m : ℤ} (hm : m ≠ 0) (e : ℤ) :
    ∃ k f, scaled m e = finite k f ∧ k % 2 = 1 :=
  reduced_odd hm Nat.lt_log2_self e

theorem scaled_eq_finite (m e : ℤ) : ∃ k f, scaled m e = finite k f := by
  by_cases hm : m = 0
  · exact ⟨0, 0, by rw [hm, scaled_zero]⟩
  · obtain ⟨k, f, hscaled, -⟩ := scaled_odd hm e
    exact ⟨k, f, hscaled⟩

/-- Odd mantissas leave no choice of an exponent. -/
theorem eq_of_odd {k l f g : ℤ} (hk : k % 2 = 1) (hl : l % 2 = 1)
    (h : (k : ℚ) * 2 ^ f = l * 2 ^ g) : k = l ∧ f = g := by
  wlog hle : f ≤ g generalizing k l f g
  · obtain ⟨hlk, hgf⟩ := this hl hk h.symm (by omega)
    exact ⟨hlk.symm, hgf.symm⟩
  obtain ⟨n, rfl⟩ : ∃ n : ℕ, g = f + n := ⟨(g - f).toNat, by omega⟩
  have hscaled : k = l * 2 ^ n := by
    rw [zpow_add₀ two_ne_zero, zpow_natCast, mul_comm ((2 : ℚ) ^ f), ← mul_assoc] at h
    exact_mod_cast mul_right_cancel₀ (two_zpow_ne_zero f) h
  cases n with
  | zero => exact ⟨by simpa using hscaled, by simp⟩
  | succ n =>
      rw [pow_succ, ← mul_assoc] at hscaled
      omega

/-- Reduced numbers are the same if and only if their values are, so they can stand for values. -/
theorem scaled_eq_scaled_iff (m e n f : ℤ) :
    scaled m e = scaled n f ↔ (m : ℚ) * 2 ^ e = n * 2 ^ f := by
  constructor
  · intro h
    rw [← scaled_value, ← scaled_value, h]
  · intro h
    by_cases hm : m = 0
    · have hn : n = 0 := by
        rw [hm, Int.cast_zero, zero_mul, eq_comm, mul_eq_zero] at h
        exact_mod_cast h.resolve_right (two_zpow_ne_zero f)
      rw [hm, hn, scaled_zero, scaled_zero]
    · have hn : n ≠ 0 := by
        rintro rfl
        rw [Int.cast_zero, zero_mul, mul_eq_zero] at h
        exact hm (by exact_mod_cast h.resolve_right (two_zpow_ne_zero e))
      obtain ⟨k, e', hk, hkodd⟩ := scaled_odd hm e
      obtain ⟨l, f', hl, hlodd⟩ := scaled_odd hn f
      have hvalues : (k : ℚ) * 2 ^ e' = l * 2 ^ f' := by
        have hk' := scaled_value m e
        have hl' := scaled_value n f
        rw [hk] at hk'
        rw [hl] at hl'
        exact hk'.trans (h.trans hl'.symm)
      obtain ⟨rfl, rfl⟩ := eq_of_odd hkodd hlodd hvalues
      rw [hk, hl]

theorem scaled_eq_whole_iff (m e n : ℤ) : scaled m e = scaled n 0 ↔ (m : ℚ) * 2 ^ e = n := by
  rw [scaled_eq_scaled_iff, zpow_zero, mul_one]

end Quantity

section Doubles

open Float.Model Float.Model.UnpackedFloat

theorem scale_eq (x : Float) : ((x.toBits >>> 52) &&& 0x7FF).toNat =
    (unpackExponent x.toModel.toBits.toBitVec : BitVec Format.binary64.exponentBits).toNat := by
  have hmask : (x.toBits >>> 52 &&& 0x7FF).toNat = x.toBits.toNat >>> 52 % 2 ^ 11 := by
    rw [UInt64.toNat_and, UInt64.toNat_shiftRight, ← Nat.and_two_pow_sub_one_eq_mod]
    rfl
  rw [hmask, unpackExponent, BitVec.toNat_cast, BitVec.extractLsb_toNat]
  rfl

/-- What is not finite has no mantissa. -/
theorem isFinite_of_ofFloat? {x : Float} {b : Decimal.Binary}
    (h : Decimal.Binary.ofFloat? x = some b) : (Binary64.unpack x).isFinite = true := by
  have hexponent : (unpackExponent x.toModel.toBits.toBitVec :
      BitVec Format.binary64.exponentBits) ≠ -1#_ := by
    intro hlast
    have hscale := scale_eq x
    rw [hlast] at hscale
    have hnone : (((x.toBits >>> 52) &&& 0x7FF).toNat == 0x7FF) = true := by
      rw [hscale]
      rfl
    simp only [Decimal.Binary.ofFloat?, hnone, if_true] at h
    cases h
  exact Binary64.isFinite_unpack hexponent

theorem isNaN_eq_false {x : Float} (h : (Binary64.unpack x).isFinite = true) :
    x.isNaN = false := by
  change (Binary64.unpack x).isNaN = false
  cases hx : Binary64.unpack x with
  | notANumber => rw [hx] at h; cases h
  | infinity s | zero s | finite s m e hm => rfl

theorem isInf_eq_false {x : Float} (h : (Binary64.unpack x).isFinite = true) :
    x.isInf = false := by
  change (Binary64.unpack x).isInf = false
  cases hx : Binary64.unpack x with
  | infinity s => rw [hx] at h; cases h
  | notANumber | zero s | finite s m e hm => rfl

/-- What equals a whole number is finite. -/
theorem isFinite_of_wholeOf? {x : Float} {n : ℤ} (h : Check.wholeOf? x = some n) :
    (Binary64.unpack x).isFinite = true := by
  cases hb : Decimal.Binary.ofFloat? x with
  | none =>
      simp only [Check.wholeOf?, hb] at h
      cases h
  | some b => exact isFinite_of_ofFloat? hb

theorem denominator_pos (b : Decimal.Binary) : 0 < b.denominator := Nat.two_pow_pos _

theorem mantissa_mul_eq_iff (b : Decimal.Binary) (k : ℕ) :
    (b.mantissa : ℚ) * 2 ^ b.exponent = k ↔ b.numerator = k * b.denominator := by
  have hexponent : b.exponent = (b.exponent.toNat : ℤ) - ((-b.exponent).toNat : ℤ) := by omega
  have hden : (2 : ℚ) ^ (-b.exponent).toNat ≠ 0 := pow_ne_zero _ two_ne_zero
  have hfraction : (b.mantissa : ℚ) * 2 ^ b.exponent =
      b.mantissa * 2 ^ b.exponent.toNat / 2 ^ (-b.exponent).toNat := by
    conv_lhs => rw [hexponent]
    rw [zpow_sub₀ two_ne_zero, zpow_natCast, zpow_natCast, mul_div_assoc]
  rw [hfraction, div_eq_iff hden]
  change _ ↔ b.mantissa * 2 ^ b.exponent.toNat = k * 2 ^ (-b.exponent).toNat
  exact_mod_cast Iff.rfl

theorem signed_mul_eq_iff (negative : Bool) (m : ℕ) (e n : ℤ) :
    ((if negative then -(m : ℤ) else m : ℤ) : ℚ) * 2 ^ e = n ↔
      ∃ k : ℕ, (m : ℚ) * 2 ^ e = k ∧ n = if negative then -(k : ℤ) else k := by
  have hnonneg : (0 : ℚ) ≤ m * 2 ^ e := by positivity
  constructor
  · intro h
    cases negative with
    | false =>
        simp only [Bool.false_eq_true, if_false, Int.cast_natCast] at h ⊢
        have hn : 0 ≤ n := by exact_mod_cast h ▸ hnonneg
        exact ⟨n.toNat, by rw [h]; exact_mod_cast (Int.toNat_of_nonneg hn).symm, by omega⟩
    | true =>
        simp only [if_true, Int.cast_neg, Int.cast_natCast, neg_mul] at h ⊢
        have hn : (m : ℚ) * 2 ^ e = (-n : ℤ) := by rw [Int.cast_neg, ← h, neg_neg]
        have hpos : 0 ≤ -n := by exact_mod_cast hn ▸ hnonneg
        exact ⟨(-n).toNat, by rw [hn]; exact_mod_cast (Int.toNat_of_nonneg hpos).symm, by omega⟩
  · rintro ⟨k, hk, rfl⟩
    cases negative with
    | false => exact_mod_cast hk
    | true => simp [hk]

theorem wholeOf?_eq_some_iff {x : Float} {b : Decimal.Binary}
    (hb : Decimal.Binary.ofFloat? x = some b) (n : ℤ) :
    Check.wholeOf? x = some n ↔
      ∃ k : ℕ, b.numerator = k * b.denominator ∧ n = if b.negative then -(k : ℤ) else k := by
  have hwhole : Check.wholeOf? x =
      if b.numerator % b.denominator = 0 then
        some (if b.negative then -((b.numerator / b.denominator : ℕ) : ℤ)
          else (b.numerator / b.denominator : ℕ))
      else none := by
    simp only [Check.wholeOf?, hb]
    by_cases hdvd : b.numerator % b.denominator = 0 <;> simp [hdvd, guard]
  rw [hwhole]
  constructor
  · intro h
    split at h
    · next hdvd =>
        refine ⟨b.numerator / b.denominator, ?_, (Option.some.inj h).symm⟩
        exact (Nat.div_mul_cancel (Nat.dvd_of_mod_eq_zero hdvd)).symm
    · cases h
  · rintro ⟨k, hk, rfl⟩
    rw [hk, Nat.mul_mod_left, if_pos rfl, Nat.mul_div_cancel _ (denominator_pos b)]

/-- A double is a whole number exactly if it equals one. -/
theorem Quantity.ofFloat_eq_whole_iff (x : Float) (n : ℤ) :
    ofFloat x = scaled n 0 ↔ Check.wholeOf? x = some n := by
  cases hb : Decimal.Binary.ofFloat? x with
  | none =>
      have hwhole : Check.wholeOf? x = none := by simp only [Check.wholeOf?, hb]; rfl
      obtain ⟨k, f, hscaled⟩ := scaled_eq_finite n 0
      rw [hwhole, ofFloat, hb, hscaled]
      cases x.isNaN <;> simp
  | some b =>
      have hquantity : ofFloat x =
          scaled (if b.negative then -(b.mantissa : ℤ) else b.mantissa) b.exponent := by
        rw [ofFloat, hb]
      rw [hquantity, scaled_eq_whole_iff, wholeOf?_eq_some_iff hb]
      simp only [signed_mul_eq_iff, mantissa_mul_eq_iff]

end Doubles

/-- What is the same as a whole number is a number of its value. -/
theorem same_whole_iff {value : Datum} {n : ℤ} :
    value.same (.whole n) = true ↔ value.quantity? = some (Quantity.scaled n 0) := by
  obtain ⟨k, f, hscaled⟩ := Quantity.scaled_eq_finite n 0
  have hn : (whole n).quantity? = some (Quantity.scaled n 0) := rfl
  cases hvalue : value.quantity? with
  | none =>
      have hsame : value.same (.whole n) = false := by
        cases value with
        | flag b | whole m | real x => cases hvalue
        | _ => rfl
      simp [hsame]
  | some p =>
      rw [same_iff_quantity? hvalue, hn, eq_comm]
      refine and_iff_left_of_imp ?_
      rintro hp rfl
      rw [hscaled] at hp
      cases hp

theorem whole_same_whole_iff {m n : ℤ} : (whole m).same (.whole n) = true ↔ m = n := by
  have hm : (whole m).quantity? = some (Quantity.scaled m 0) := rfl
  rw [same_whole_iff, hm, Option.some.injEq, Quantity.scaled_eq_whole_iff, zpow_zero, mul_one,
    Int.cast_inj]

/-- A double equals a whole number exactly if it is cut to it without a rest. -/
theorem real_same_whole_iff {x : Float} {n : ℤ} :
    (real x).same (.whole n) = true ↔ Check.wholeOf? x = some n := by
  have hx : (real x).quantity? = some (Quantity.ofFloat x) := rfl
  rw [same_whole_iff, hx, Option.some.injEq, Quantity.ofFloat_eq_whole_iff]

end Optima.Datum
