import Optima.Proofs.Scalar.Positive
import Optima.Proofs.Solver.Returns
import Optima.Proofs.Solver.UniformSettings

/-!
Settings on doubles that have passed their checks. A number that is given is never undefined, so
that one that is not at most zero is positive. Penalties stay positive however often they are
raised, since a product with a factor of at least one does not vanish, and neither do the steps of
difference quotients: a solve with checked settings divides by nothing that vanishes.
-/

namespace Optima

open Scalar

namespace Binary64

open Float.Model Float.Model.UnpackedFloat

theorem toFloat_defined (n : UInt64) : Defined n.toFloat := by
  rw [defined_iff]
  have hpack : (unpack n.toFloat).isNaN =
      (UnpackedFloat.ofUInt64 Format.binary64 n).isNaN := isNaN_unpack_pack _
  rw [hpack]
  exact isNaN_normalize Format.binary64 ..

theorem ofScientific_defined (digits : Nat) :
    Defined (Float.ofModel (Float.Model.ofScientific digits 0)) := by
  rw [defined_iff]
  have hpack : (unpack (Float.ofModel (Float.Model.ofScientific digits 0))).isNaN =
      (UnpackedFloat.ofScientific Format.binary64 digits 0).isNaN := isNaN_unpack_pack _
  rw [hpack]
  unfold UnpackedFloat.ofScientific
  split
  · rfl
  · split
    · rfl
    · split
      · rfl
      · rw [if_pos (Int.le_refl 0), UnpackedFloat.mul, isNaN_roundWithAccuracy]

/-- Every whole number is near a double that is a number. -/
theorem nearest_defined (digits : Nat) : Defined (Decimal.nearest digits 0) := by
  unfold Decimal.nearest
  dsimp only
  split
  · exact Ranked.zero_defined
  · split
    · change same (1.0 / 0.0 : Float) (1.0 / 0.0) = true
      decide +kernel
    · change Defined (Float.ofScientific digits false 0)
      unfold Float.ofScientific
      split
      · change Defined (digits.toUInt64.toFloat * 1.0)
        rw [Binary64.mul_comm]
        exact mul_defined (by decide +kernel) (by decide +kernel) (toFloat_defined _)
      · exact ofScientific_defined digits

theorem neg_defined {x : Float} (h : Defined x) : Defined (-x) := by
  rw [defined_iff] at h ⊢
  have hpack : (unpack (-x)).isNaN = (unpack x).neg.isNaN := isNaN_unpack_pack _
  rw [hpack]
  cases hx : unpack x with
  | notANumber =>
      rw [hx] at h
      cases h
  | infinity s => rfl
  | zero s => rfl
  | finite s m e hm => rfl

end Binary64

theorem Datum.wholeToFloat_defined {n : Int} {x : Float} (h : Datum.wholeToFloat n = .ok x) :
    Defined x := by
  unfold Datum.wholeToFloat at h
  dsimp only at h
  split at h
  · cases h
  · cases h
    split
    · exact Binary64.neg_defined (Binary64.nearest_defined _)
    · exact Binary64.nearest_defined _

/-- A number that passed the test for finiteness is defined, whatever kind of value it came from. -/
theorem Check.finiteNumber_defined {value : Datum} {refuse : Fault} {x : Float}
    (h : Check.finiteNumber value refuse = .ok x) : Defined x := by
  cases value with
  | whole n =>
      simp only [Check.finiteNumber] at h
      split at h
      · exact Datum.wholeToFloat_defined h
      · exact absurd h throw_ne_ok
  | real y =>
      simp only [Check.finiteNumber] at h
      split at h
      · next hfinite =>
          rw [pure_eq_ok] at h
          exact h ▸ Binary64.defined_of_isFinite hfinite
      · exact absurd h throw_ne_ok
  | flag b =>
      obtain rfl : (if b then 1.0 else 0.0) = x := Except.ok.inj h
      cases b with
      | true => exact Binary64.defined_of_isFinite (by decide +kernel)
      | false => exact Ranked.zero_defined
  | list items =>
      simp only [Check.finiteNumber, bind_eq_ok] at h
      obtain ⟨_, -, hthrow⟩ := h
      exact absurd hthrow throw_ne_ok
  | null => cases h
  | text s => cases h
  | record fields => cases h
  | vector components => cases h

theorem less_of_not_le {x y : Float} (hx : Defined x) (hy : Defined y) (h : ¬ x ≤ y) :
    less y x = true := by
  rw [Ranked.less_iff]
  refine ⟨hy, hx, not_le.mp ?_⟩
  intro hle
  exact h (of_decide_eq_true ((Ranked.atMost_iff x y).mpr ⟨hx, hy, hle⟩))

theorem Check.positive_pos {value : Datum} {name : String} {x : Float}
    (h : Check.positive value name = .ok x) : less 0 x = true := by
  have hdefined := Check.finiteNumber_defined (Check.finiteNumber_of_positive h)
  simp only [Check.positive, bind_eq_ok] at h
  obtain ⟨y, -, h⟩ := h
  split at h
  · exact absurd h throw_ne_ok
  · next hpositive =>
      rw [pure_eq_ok] at h
      subst h
      exact less_of_not_le hdefined Ranked.zero_defined hpositive

/-- A flat array that has passed its check is finite and has components, as
many as it is asked for. They are the entries of the value it is read from. -/
theorem Check.of_flatArray {values dimension : Datum} {name : String} {x : Vec Float}
    (h : Check.flatArray values name dimension false = .ok x) :
    x.toList.isEmpty = false ∧ x.isFinite = true ∧
      (dimension = .null ∨ dimension.same (.whole x.size) = true) ∧
        ∃ t, Tensor.ofDatum values = .ok t ∧ t.entries = x.toList := by
  simp only [Check.flatArray, bind_eq_ok] at h
  obtain ⟨t, ht, h⟩ := h
  have hfinite (hchecked : (do
      if !t.entries.all Float.isFinite then throw (.misuse (.notFinite name))
      return ⟨t.entries⟩) = (.ok x : Except Fault (Vec Float))) :
      (⟨t.entries⟩ : Vec Float) = x ∧ x.isFinite = true := by
    split at hchecked
    · obtain ⟨_, hthrow, -⟩ := bind_eq_ok.mp hchecked
      exact absurd hthrow throw_ne_ok
    · next hall =>
        rw [Bool.not_eq_true, Bool.not_eq_false'] at hall
        exact ⟨Except.ok.inj hchecked, Except.ok.inj hchecked ▸ hall⟩
  split at h
  · obtain ⟨_, hthrow, -⟩ := bind_eq_ok.mp h
    exact absurd hthrow throw_ne_ok
  · split at h
    · obtain ⟨_, hthrow, -⟩ := bind_eq_ok.mp h
      exact absurd hthrow throw_ne_ok
    · next hsize =>
        have hcomponents : t.entries.isEmpty = false := by
          simpa [List.isEmpty_eq_false_iff, ← List.length_eq_zero_iff] using hsize
        split at h
        · obtain ⟨rfl, hall⟩ := hfinite h
          exact ⟨hcomponents, hall, Or.inl rfl, t, ht, rfl⟩
        · split at h
          · obtain ⟨_, hthrow, -⟩ := bind_eq_ok.mp h
            exact absurd hthrow throw_ne_ok
          · next hsame =>
              obtain ⟨rfl, hall⟩ := hfinite h
              rw [Bool.not_eq_true, Bool.not_eq_false'] at hsame
              exact ⟨hcomponents, hall, Or.inr hsame, t, ht, rfl⟩

/-- A start that has passed its check is finite and has components. -/
theorem Check.of_array {values : Datum} {name : String} {x : Vec Float}
    (h : Check.array values name = .ok x) : x.toList.isEmpty = false ∧ x.isFinite = true := by
  obtain ⟨hcomponents, hfinite, -⟩ := Check.of_flatArray h
  exact ⟨hcomponents, hfinite⟩

namespace Settings

variable {settings : Settings Float} {fields : List (String × Datum)}

theorem ReadFrom.one_le_penaltyIncrease (h : settings.ReadFrom fields) :
    atMost 1.0 settings.penaltyIncrease = true := by
  have hone : Defined (1.0 : Float) := Binary64.defined_of_isFinite (by decide +kernel)
  have hdefined := Check.finiteNumber_defined (Check.finiteNumber_of_positive h.penaltyIncrease)
  have hless := less_of_not_le hdefined hone h.rises
  obtain ⟨-, -, hlt⟩ := (Ranked.less_iff _ _).mp hless
  exact (Ranked.atMost_iff _ _).mpr ⟨hone, hdefined, hlt.le⟩

/-- Raised penalties stay positive, as no factor below one is accepted. -/
theorem ReadFrom.raised_pos (h : settings.ReadFrom fields) {penalty : Float}
    (hpenalty : less 0 penalty = true) : less 0 (settings.raised penalty) = true := by
  unfold Settings.raised smaller
  split
  · exact Check.positive_pos h.maxPenalty
  · exact Binary64.mul_positive hpenalty h.one_le_penaltyIncrease

/-- No coordinate makes the step of a difference quotient vanish, not even an
undefined one. -/
theorem ReadFrom.differenceStep_pos (h : settings.ReadFrom fields) (x : Float) :
    less 0 (Optima.differenceStep settings.differenceStep x) = true := by
  have hone : Defined (1.0 : Float) := Binary64.defined_of_isFinite (by decide +kernel)
  apply Binary64.mul_positive (Check.positive_pos h.differenceStep)
  unfold larger
  split
  · next hless =>
      obtain ⟨-, hdefined, hlt⟩ := (Ranked.less_iff _ _).mp hless
      exact (Ranked.atMost_iff _ _).mpr ⟨hone, hdefined, hlt.le⟩
  · exact (Ranked.atMost_iff _ _).mpr ⟨hone, hone, le_rfl⟩

/-- Settings that have passed their checks are steady. -/
theorem ReadFrom.steady (h : settings.ReadFrom fields) : settings.Steady where
  initialPenalty := Check.positive_pos h.initialPenalty
  raised _ hpenalty := h.raised_pos hpenalty
  penalty _ hpenalty := Binary64.double_ne_zero hpenalty
  differenceStep x := Binary64.double_ne_zero (h.differenceStep_pos x)

end Settings

end Optima
