import Optima.Proofs.Success
import Optima.Solver.Settings

/-!
Settings that were read from named values: every one of them is what its check returns. Counts are
positive. A name only shows in the report of a value that is refused, so that in settings where one
tolerance serves for everything the tolerances are the same, whatever name they were checked under.
-/

namespace Optima

theorem Check.finiteNumber_ok_of_ok {value : Datum} {refuse : Fault} {x : Float}
    (h : Check.finiteNumber value refuse = .ok x) (other : Fault) :
    Check.finiteNumber value other = .ok x := by
  cases value with
  | real y =>
      simp only [Check.finiteNumber] at h ⊢
      split at h
      · next hfinite =>
          rw [if_pos hfinite]
          exact h
      · exact absurd h throw_ne_ok
  | list items =>
      simp only [Check.finiteNumber, bind_eq_ok] at h
      obtain ⟨_, -, hthrow⟩ := h
      exact absurd hthrow throw_ne_ok
  | null => exact h
  | flag value => exact h
  | whole value => exact h
  | text value => exact h
  | record fields => exact h
  | vector components => exact h

theorem Check.finiteNumber_of_positive {value : Datum} {name : String} {x : Float}
    (h : Check.positive value name = .ok x) :
    Check.finiteNumber value (.misuse (.notPositive name value)) = .ok x := by
  simp only [Check.positive, bind_eq_ok] at h
  obtain ⟨y, hy, h⟩ := h
  split at h
  · exact absurd h throw_ne_ok
  · rw [pure_eq_ok] at h
    exact h ▸ hy

/-- A positive number is the same under every name. -/
theorem Check.positive_unique {value : Datum} {name other : String} {x y : Float}
    (hx : Check.positive value name = .ok x) (hy : Check.positive value other = .ok y) : x = y := by
  have hx' := finiteNumber_ok_of_ok (finiteNumber_of_positive hx)
    (.misuse (.notPositive other value))
  rw [finiteNumber_of_positive hy] at hx'
  exact (Except.ok.inj hx').symm

theorem Check.count_pos {value : Datum} {name : String} {n : Nat}
    (h : Check.count value name = .ok n) : 0 < n := by
  have hwhole {k : Int} {refuse : Fault}
      (hk : (if k ≤ 0 then throw refuse else return k.toNat) = (.ok n : Except Fault Nat)) :
      0 < n := by
    split at hk
    · exact absurd hk throw_ne_ok
    · rw [pure_eq_ok] at hk
      omega
  cases value with
  | whole k => exact hwhole h
  | real y =>
      simp only [Check.count] at h
      split at h
      · obtain ⟨_, hthrow, -⟩ := bind_eq_ok.mp h
        exact absurd hthrow throw_ne_ok
      · split at h
        · obtain ⟨_, hthrow, -⟩ := bind_eq_ok.mp h
          exact absurd hthrow throw_ne_ok
        · cases hk : wholeOf? y with
          | some k =>
              rw [hk] at h
              exact hwhole h
          | none =>
              rw [hk] at h
              exact absurd h throw_ne_ok
  | null => exact absurd h throw_ne_ok
  | flag b => exact absurd h throw_ne_ok
  | text s => exact absurd h throw_ne_ok
  | list items => exact absurd h throw_ne_ok
  | record fields => exact absurd h throw_ne_ok
  | vector components => exact absurd h throw_ne_ok

structure Settings.ReadFrom (fields : List (String × Datum)) (settings : Settings Float) :
    Prop where
  maxIterations : Check.count (lookup fields "max_iterations") "max_iterations" =
    .ok settings.maxIterations
  tolerance : Check.positive (lookup fields "tolerance") "tolerance" = .ok settings.tolerance
  constraintTolerance : Check.positive (lookup fields "constraint_tolerance")
    "constraint_tolerance" = .ok settings.constraintTolerance
  gradientTolerance : Check.positive (lookup fields "gradient_tolerance") "gradient_tolerance" =
    .ok settings.gradientTolerance
  maxInnerIterations : Check.count (lookup fields "max_inner_iterations") "max_inner_iterations" =
    .ok settings.maxInnerIterations
  initialPenalty : Check.positive (lookup fields "initial_penalty") "initial_penalty" =
    .ok settings.initialPenalty
  penaltyIncrease : Check.positive (lookup fields "penalty_increase") "penalty_increase" =
    .ok settings.penaltyIncrease
  rises : ¬ settings.penaltyIncrease ≤ 1.0
  maxPenalty : Check.positive (lookup fields "max_penalty") "max_penalty" = .ok settings.maxPenalty
  minDerivative : Check.positive (lookup fields "min_derivative") "min_derivative" =
    .ok settings.minDerivative
  differenceStep : Check.positive (lookup fields "finite_difference_step")
    "finite_difference_step" = .ok settings.differenceStep
  recordHistory : settings.recordHistory = (lookup fields "record_history").isPresent

theorem Settings.readFrom_of_ofFields {fields : List (String × Datum)} {settings : Settings Float}
    (h : Settings.ofFields fields = .ok settings) : settings.ReadFrom fields := by
  unfold Settings.ofFields at h
  split at h
  · obtain ⟨_, hthrow, -⟩ := bind_eq_ok.mp h
    exact absurd hthrow throw_ne_ok
  · simp only [bind_eq_ok] at h
    obtain ⟨maxIterations, hiterations, tolerance, htolerance, constraintTolerance, hconstraint,
      gradientTolerance, hgradient, maxInnerIterations, hinner, initialPenalty, hinitial,
      penaltyIncrease, hincrease, h⟩ := h
    split at h
    · obtain ⟨_, hthrow, -⟩ := bind_eq_ok.mp h
      exact absurd hthrow throw_ne_ok
    · next hrises =>
        simp only [bind_eq_ok, pure_eq_ok] at h
        obtain ⟨maxPenalty, hmax, minDerivative, hmin, differenceStep, hdifference, rfl⟩ := h
        exact ⟨hiterations, htolerance, hconstraint, hgradient, hinner, hinitial, hincrease, hrises,
          hmax, hmin, hdifference, rfl⟩

/-- Both tolerances are read from one value, so they come out equal. -/
theorem Settings.constraintTolerance_of_uniform {maxIterations tolerance maxInnerIterations : Datum}
    {settings : Settings Float}
    (h : Settings.uniform maxIterations tolerance maxInnerIterations = .ok settings) :
    settings.constraintTolerance = settings.tolerance := by
  have hread := readFrom_of_ofFields h
  exact Check.positive_unique hread.constraintTolerance hread.tolerance

end Optima
