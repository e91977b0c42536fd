import Optima.Proofs.Scalar.Numbers

/-!
Positive doubles. A product is rounded to zero only if its exact value is below the least positive
double. So a positive number times one that is at least one is positive, and nothing positive
vanishes when it is doubled, however small it is. A sum of positive numbers is positive.
-/

namespace Optima.Binary64

open Float.Model Float.Model.UnpackedFloat Scalar

section Rounding

variable (spec : Format)

theorem mantissa_shiftRight (em : ExtendedMantissa) (n : Nat) :
    (em >>> n).mantissa = em.mantissa / 2 ^ n := by
  change (n.repeat ExtendedMantissa.shiftRightOne em).mantissa = _
  induction n with
  | zero => simp [Nat.repeat]
  | succ n ih =>
      change (n.repeat ExtendedMantissa.shiftRightOne em).mantissa / 2 = _
      rw [ih, Nat.div_div_eq_div_mul, pow_succ]

theorem mantissa_le_roundedMantissa (em : ExtendedMantissa) :
    em.mantissa ≤ em.roundedMantissa := by
  unfold ExtendedMantissa.roundedMantissa
  cases em.accuracy with
  | exact => exact le_refl _
  | inexact side =>
      cases side with
      | lt => exact le_refl _
      | eq => exact Nat.le_add_right _ _
      | gt => exact Nat.le_add_right _ _

/-- A mantissa and an exponent that the format can hold, up to overflow. -/
structure Fits (m : Nat) (e : Int) : Prop where
  pos : 0 < m
  lt : m < 2 ^ spec.mantissaBits
  exponent : spec.minExponent ≤ e

variable {spec}

theorem mantissa_shiftToTargetExponent (m : Nat) (e : Int) (accuracy : Accuracy) :
    (shiftToTargetExponent spec m e accuracy).1.mantissa =
      m / 2 ^ (spec.targetExponent (totalExponent m e) - e).toNat := by
  have hunshifted : (ExtendedMantissa.ofMantissaAndAccuracy m accuracy).mantissa = m := by
    cases accuracy with
    | exact => rfl
    | inexact side => cases side <;> rfl
  have hshifted := mantissa_shiftRight (ExtendedMantissa.ofMantissaAndAccuracy m accuracy)
    (spec.targetExponent (totalExponent m e) - e).toNat
  rw [hunshifted] at hshifted
  exact hshifted

/-- Shifting loses the leading digit only if it is below the least digit of
the format. -/
theorem fits_shiftToTargetExponent {m : Nat} {e : Int} (hm : 0 < m)
    (h : spec.minExponent ≤ m.log2 + e) (accuracy : Accuracy) :
    Fits spec (shiftToTargetExponent spec m e accuracy).1.mantissa
      (shiftToTargetExponent spec m e accuracy).2 := by
  have hbits : 1 ≤ spec.mantissaBits := Nat.le_add_right 1 _
  let shift := (spec.targetExponent (totalExponent m e) - e).toNat
  have hshift : shift = (max (m.log2 + 1 + e - spec.mantissaBits) spec.minExponent - e).toNat := rfl
  have hexponent : (shiftToTargetExponent spec m e accuracy).2 = e + shift := rfl
  have hmantissa : (shiftToTargetExponent spec m e accuracy).1.mantissa = m / 2 ^ shift :=
    mantissa_shiftToTargetExponent m e accuracy
  have hlow : shift ≤ m.log2 := by omega
  have hhigh : m.log2 + 1 ≤ spec.mantissaBits + shift := by omega
  rw [hexponent, hmantissa]
  refine ⟨?_, ?_, by omega⟩
  · apply Nat.div_pos _ (Nat.two_pow_pos shift)
    calc 2 ^ shift ≤ 2 ^ m.log2 := Nat.pow_le_pow_right (by omega) hlow
      _ ≤ m := Nat.log2_self_le hm.ne'
  · rw [Nat.div_lt_iff_lt_mul (Nat.two_pow_pos shift), ← pow_add]
    calc m < 2 ^ (m.log2 + 1) := Nat.lt_log2_self
      _ ≤ 2 ^ (spec.mantissaBits + shift) := Nat.pow_le_pow_right (by omega) hhigh

/-- Above the subnormal numbers rounding never reaches zero. -/
theorem exists_roundWithAccuracy_eq (s : Sign) {m : Nat} {e : Int} (hm : 0 < m)
    (h : spec.minExponent ≤ m.log2 + e) (accuracy : Accuracy) :
    ∃ m' e', ∃ hfits : Fits spec m' e',
      roundWithAccuracy spec s m e accuracy = .finite s m' e' hfits.pos := by
  have hfirst := fits_shiftToTargetExponent hm h accuracy
  have hrounded := hfirst.pos.trans_le (mantissa_le_roundedMantissa _)
  have hleading : spec.minExponent ≤
      (shiftToTargetExponent spec m e accuracy).1.roundedMantissa.log2 +
        (shiftToTargetExponent spec m e accuracy).2 := by
    have hexponent := hfirst.exponent
    omega
  -- The second shift only takes back a carry.
  have hsecond := fits_shiftToTargetExponent hrounded hleading .exact
  refine ⟨_, _, hsecond, ?_⟩
  unfold roundWithAccuracy
  exact dif_neg hsecond.pos.ne'

end Rounding

def IsPositive (u : UnpackedFloat) : Prop := IsUnsigned u ∧ ∀ s, u ≠ .zero s

theorem less_zero_iff (x : Float) : less 0 x = true ↔ IsPositive (unpack x) := by
  rw [less_iff_compare]
  change (UnpackedFloat.zero .positive).compare (unpack x) = some .lt ↔ _
  cases unpack x with
  | notANumber => simp [UnpackedFloat.compare, IsPositive, IsUnsigned]
  | infinity s => cases s <;> simp [UnpackedFloat.compare, IsPositive, IsUnsigned]
  | zero s => simp [UnpackedFloat.compare, IsPositive]
  | finite s m e hm => cases s <;> simp [UnpackedFloat.compare, IsPositive, IsUnsigned]

theorem isPositive_infinity : IsPositive (UnpackedFloat.unpack Format.binary64
    (UnpackedFloat.pack Format.binary64 (.infinity .positive))) := by
  refine ⟨isUnsigned_unpack_pack rfl, ?_⟩
  intro s hs
  cases hs

theorem IsPositive.cases {u : UnpackedFloat} (h : IsPositive u) :
    u = .infinity .positive ∨ ∃ m e hm, u = .finite .positive m e hm := by
  obtain ⟨hunsigned, hnonzero⟩ := h
  cases u with
  | notANumber => cases hunsigned
  | zero s => exact absurd rfl (hnonzero s)
  | infinity s =>
      cases hunsigned
      exact Or.inl rfl
  | finite s m e hm =>
      cases hunsigned
      exact Or.inr ⟨m, e, hm, rfl⟩

theorem eq_zero_of_unpack {spec : Format} {b : BitVec spec.numBits} {s : Sign}
    (h : UnpackedFloat.unpack spec b = .zero s) :
    unpackExponent b = 0#_ ∧ unpackMantissa b = 0#_ := by
  unfold UnpackedFloat.unpack at h
  dsimp only at h
  split at h
  · split at h <;> cases h
  · split at h
    · next hexponent =>
        split at h
        · next hmantissa => exact ⟨hexponent, hmantissa⟩
        · cases h
    · cases h

theorem isPositive_unpack_pack {m : Nat} {e : Int} (h : Fits Format.binary64 m e) :
    IsPositive (UnpackedFloat.unpack Format.binary64
      (UnpackedFloat.pack Format.binary64 (.finite .positive m e h.pos))) := by
  refine ⟨isUnsigned_unpack_pack rfl, ?_⟩
  intro s hzero
  obtain ⟨hexponent, hmantissa⟩ := eq_zero_of_unpack hzero
  have hmin : -1074 ≤ e := h.exponent
  have hlt : m < 2 ^ 53 := h.lt
  have hpos := h.pos
  revert hexponent hmantissa
  unfold UnpackedFloat.pack
  dsimp only
  split
  · intro hexponent
    rw [packedInfinity, unpackExponent_packComponents] at hexponent
    revert hexponent
    decide
  · next hsmall =>
      split
      · intro hexponent
        rw [unpackExponent_packComponents] at hexponent
        have hbits := congrArg BitVec.toNat hexponent
        rw [BitVec.toNat_ofNat, Nat.mod_eq_of_lt (by omega)] at hbits
        change (e + 1023 + 52).toNat = 0 at hbits
        omega
      · next hsubnormal =>
          intro _ hmantissa
          rw [unpackMantissa_packComponents] at hmantissa
          have hbits := congrArg BitVec.toNat hmantissa
          have hlog : m.log2 < 52 := by
            have hle : m.log2 < 53 := (Nat.log2_lt hpos.ne').mpr hlt
            change ¬ m.log2 + 1 = 53 at hsubnormal
            omega
          have hshort : m < 2 ^ 52 := (Nat.log2_lt hpos.ne').mp hlog
          rw [BitVec.toNat_ofNat, Nat.mod_eq_of_lt hshort] at hbits
          change m = 0 at hbits
          omega

/-- A finite double has the least exponent or a full mantissa. -/
theorem unpack_eq_finite {x : Float} {s : Sign} {m : Nat} {e : Int} {hm : 0 < m}
    (h : unpack x = .finite s m e hm) : -1074 ≤ e ∧ (e = -1074 ∨ 2 ^ 52 ≤ m) := by
  change UnpackedFloat.unpack Format.binary64 x.toModel.toBits.toBitVec = _ at h
  unfold UnpackedFloat.unpack at h
  dsimp only at h
  split at h
  · split at h <;> cases h
  · split at h
    · next hexponent =>
        split at h
        · cases h
        · cases h
          rw [hexponent]
          exact ⟨by decide, Or.inl (by decide)⟩
    · next hexponent =>
        cases h
        refine ⟨?_, Or.inr ?_⟩
        · have hpos : (unpackExponent x.toModel.toBits.toBitVec :
              BitVec Format.binary64.exponentBits).toNat ≠ 0 := by
            intro hzero
            exact hexponent (BitVec.eq_of_toNat_eq hzero)
          change -1074 ≤ _ - (1075 : Int)
          omega
        · rw [BitVec.toNat_append]
          exact Nat.left_le_or

theorem unpack_one : unpack 1.0 = .finite .positive (2 ^ 52) (-52) (by decide) := rfl

/-- A number that is at least one has a digit at the place of one or before. -/
theorem unpack_of_one_le {x : Float} (h : atMost 1.0 x = true) :
    unpack x = .infinity .positive ∨
      ∃ m e hm, unpack x = .finite .positive m e hm ∧ 0 ≤ (m.log2 : Int) + e := by
  obtain ⟨-, hdefined, hle⟩ := (Ranked.atMost_iff _ _).mp h
  change place (unpack 1.0) ≤ place (unpack x) at hle
  rw [defined_iff] at hdefined
  rw [unpack_one] at hle
  cases hx : unpack x with
  | notANumber =>
      rw [hx] at hdefined
      cases hdefined
  | infinity s =>
      rw [hx] at hle
      cases s with
      | positive => exact Or.inl rfl
      | negative => exact absurd hle (by decide)
  | zero s =>
      rw [hx] at hle
      cases s <;> exact absurd hle (by decide)
  | finite s m e hm =>
      obtain ⟨hmin, hfull⟩ := unpack_eq_finite hx
      rw [hx] at hle
      cases s with
      | negative =>
          simp [place, Prod.Lex.toLex_le_toLex] at hle
      | positive =>
          simp only [place, Prod.Lex.toLex_le_toLex, lt_self_iff_false, true_and, false_or] at hle
          refine Or.inr ⟨m, e, hm, rfl, ?_⟩
          have hbound : -52 ≤ e ∧ 2 ^ 52 ≤ m := by omega
          have hlog : 52 ≤ m.log2 := (Nat.le_log2 hm.ne').mpr hbound.2
          omega

theorem add_log2_le_log2_mul {m n : Nat} (hm : 0 < m) (hn : 0 < n) :
    m.log2 + n.log2 ≤ (m * n).log2 := by
  rw [Nat.le_log2 (Nat.mul_pos hm hn).ne', pow_add]
  exact Nat.mul_le_mul (Nat.log2_self_le hm.ne') (Nat.log2_self_le hn.ne')

variable {x y : Float}

/-- A factor of at least one keeps a positive number from vanishing. -/
theorem mul_positive (hx : less 0 x = true) (hy : atMost 1.0 y = true) : less 0 (x * y) = true := by
  rw [less_zero_iff] at hx ⊢
  change IsPositive (UnpackedFloat.unpack Format.binary64 (UnpackedFloat.pack Format.binary64
    (UnpackedFloat.mul Format.binary64 (unpack x) (unpack y))))
  obtain ⟨hunsigned, hnonzero⟩ := hx
  cases hunpack : unpack x with
  | notANumber =>
      rw [hunpack] at hunsigned
      cases hunsigned
  | zero s => exact absurd hunpack (hnonzero s)
  | infinity s =>
      rw [hunpack] at hunsigned
      cases hunsigned
      obtain hy | ⟨m, e, hm, hy, -⟩ := unpack_of_one_le hy
      · rw [hy]
        exact isPositive_infinity
      · rw [hy]
        exact isPositive_infinity
  | finite s m e hm =>
      rw [hunpack] at hunsigned
      cases hunsigned
      obtain hy | ⟨n, f, hn, hy, hone⟩ := unpack_of_one_le hy
      · rw [hy]
        exact isPositive_infinity
      · have hmin : -1074 ≤ e := (unpack_eq_finite hunpack).1
        have hlog := add_log2_le_log2_mul hm hn
        have hproduct : Format.binary64.minExponent ≤ ((m * n).log2 : Int) + (e + f) := by
          change -1074 ≤ _
          omega
        obtain ⟨m', e', hfits, hround⟩ :=
          exists_roundWithAccuracy_eq .positive (Nat.mul_pos hm hn) hproduct .exact
        rw [hy]
        change IsPositive (UnpackedFloat.unpack Format.binary64 (UnpackedFloat.pack Format.binary64
          (roundWithAccuracy Format.binary64 .positive (m * n) (e + f) .exact)))
        rw [hround]
        exact isPositive_unpack_pack hfits

/-- Rounding a positive number whose last digit the format has does not lose it. -/
theorem isPositive_normalize {m e : Int} (hm : 0 < m) (he : -1074 ≤ e) :
    IsPositive (UnpackedFloat.unpack Format.binary64 (UnpackedFloat.pack Format.binary64
      (UnpackedFloat.normalize Format.binary64 m e .positive))) := by
  have hround : UnpackedFloat.normalize Format.binary64 m e .positive =
      UnpackedFloat.round Format.binary64 .positive m.toNat e := by
    unfold UnpackedFloat.normalize
    rw [compare_gt_iff_gt.mpr hm]
  obtain ⟨n, hn, hpos⟩ : ∃ n : Nat, n = m.toNat ∧ 0 < n := ⟨_, rfl, by omega⟩
  let target := Format.binary64.targetExponent (totalExponent n e)
  have htarget : -1074 ≤ target := le_max_right _ _
  have hshifted : 0 < n <<< (e - target).toNat := by
    rw [Nat.shiftLeft_eq]
    exact Nat.mul_pos hpos (Nat.two_pow_pos _)
  have hexponent : Format.binary64.minExponent ≤
      ((n <<< (e - target).toNat).log2 : Int) + (e - (e - target).toNat) := by
    change -1074 ≤ _
    omega
  obtain ⟨m', e', hfits, hrounded⟩ :=
    exists_roundWithAccuracy_eq .positive hshifted hexponent .exact
  rw [hround, ← hn]
  change IsPositive (UnpackedFloat.unpack Format.binary64 (UnpackedFloat.pack Format.binary64
    (roundWithAccuracy Format.binary64 .positive (n <<< (e - target).toNat)
      (e - (e - target).toNat) .exact)))
  rw [hrounded]
  exact isPositive_unpack_pack hfits

/-- Positive numbers have a positive sum, which may be infinite. -/
theorem add_positive (hx : less 0 x = true) (hy : less 0 y = true) : less 0 (x + y) = true := by
  rw [less_zero_iff] at hx hy ⊢
  change IsPositive (UnpackedFloat.unpack Format.binary64 (UnpackedFloat.pack Format.binary64
    (UnpackedFloat.add Format.binary64 (unpack x) (unpack y))))
  obtain hx | ⟨m, e, hm, hx⟩ := hx.cases
  · obtain hy | ⟨n, f, hn, hy⟩ := hy.cases
    · rw [hx, hy]
      exact isPositive_infinity
    · rw [hx, hy]
      exact isPositive_infinity
  · obtain hy | ⟨n, f, hn, hy⟩ := hy.cases
    · rw [hx, hy]
      exact isPositive_infinity
    · have hmin : -1074 ≤ min e f := le_min (unpack_eq_finite hx).1 (unpack_eq_finite hy).1
      rw [hx, hy]
      refine isPositive_normalize ?_ hmin
      have hfirst : 0 < m <<< (e - min e f).toNat := by
        rw [Nat.shiftLeft_eq]
        exact Nat.mul_pos hm (Nat.two_pow_pos _)
      exact Int.add_pos_of_pos_of_nonneg (Int.natCast_pos.mpr hfirst) (Int.natCast_nonneg _)

theorem sign_mul_comm (s t : Sign) : s * t = t * s := by
  cases s <;> cases t <;> rfl

protected theorem mul_comm (x y : Float) : x * y = y * x := by
  have hexact : UnpackedFloat.mul Format.binary64 (unpack x) (unpack y) =
      UnpackedFloat.mul Format.binary64 (unpack y) (unpack x) := by
    cases unpack x <;> cases unpack y <;>
      simp only [UnpackedFloat.mul, sign_mul_comm, Nat.mul_comm, Int.add_comm]
  change
    Float.ofModel (Float.Model.pack (UnpackedFloat.mul Format.binary64 (unpack x) (unpack y))) =
      Float.ofModel (Float.Model.pack (UnpackedFloat.mul Format.binary64 (unpack y) (unpack x)))
  rw [hexact]

theorem double_ne_zero (hx : less 0 x = true) : same (2.0 * x) 0 = false := by
  have htwo : atMost (1.0 : Float) 2.0 = true := by decide +kernel
  have hpositive : less 0 (2.0 * x) = true := by
    rw [Binary64.mul_comm]
    exact mul_positive hx htwo
  obtain ⟨-, -, hlt⟩ := (Ranked.less_iff _ _).mp hpositive
  rw [← Bool.not_eq_true, Ranked.same_iff]
  rintro ⟨-, -, heq⟩
  exact hlt.ne' heq

end Optima.Binary64
