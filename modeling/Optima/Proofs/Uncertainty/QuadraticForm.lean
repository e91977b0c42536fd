import Mathlib.Analysis.SpecialFunctions.Pow.Real
import Optima.Proofs.Random.Yields
import Optima.Proofs.Vector.Coordinates
import Optima.Uncertainty.Ellipsoid

/-!
Ellipsoids and their quadratic form in exact arithmetic. The square of the distance of a point is
the value of the form of the inverse covariance, and membership compares it with the square of the
radius. A sampled point is what the factor of the covariance makes of a point of the unit ball;
forward substitution takes it back, so it is as far away as the point of the ball says.
-/

namespace Optima.Ellipsoid

open Matrix

noncomputable def ofMatrix? {d : ℕ} (nominal : Fin d → ℝ) (covariance : Matrix (Fin d) (Fin d) ℝ)
    (radius : ℝ) : Option (Ellipsoid ℝ) :=
  (Triangular.factor? (Triangular.rowsOf covariance)).map fun factor =>
    { nominal := ⟨List.ofFn nominal⟩, covariance := Triangular.rowsOf covariance, radius, factor }

/-- A covariance is the product of its factor and the transpose, so what solves the triangular
system carries the value of the form of the inverse. -/
theorem dotProduct_inv_mulVec {d : ℕ} {L : Triangular ℝ} {covariance : Matrix (Fin d) (Fin d) ℝ}
    (h : L.Factors covariance) (y : Fin d → ℝ) :
    (L.toMatrix d *ᵥ y) ⬝ᵥ (covariance⁻¹ *ᵥ (L.toMatrix d *ᵥ y)) = y ⬝ᵥ y := by
  have hunit : IsUnit (L.toMatrix d).det :=
    (isUnit_iff_isUnit_det _).mp (h.staircase.isUnit_toMatrix h.length)
  have hunit' : IsUnit (L.toMatrix d)ᵀ.det := by rwa [det_transpose]
  have himage : covariance⁻¹ *ᵥ (L.toMatrix d *ᵥ y) = ((L.toMatrix d)ᵀ)⁻¹ *ᵥ y := by
    rw [← h.product, Matrix.mul_inv_rev, mulVec_mulVec, Matrix.mul_assoc, nonsing_inv_mul _ hunit,
      Matrix.mul_one]
  calc (L.toMatrix d *ᵥ y) ⬝ᵥ (covariance⁻¹ *ᵥ (L.toMatrix d *ᵥ y))
      = (((L.toMatrix d)ᵀ)⁻¹ *ᵥ y) ⬝ᵥ (L.toMatrix d *ᵥ y) := by rw [himage, dotProduct_comm]
    _ = y ⬝ᵥ ((L.toMatrix d)ᵀ *ᵥ (((L.toMatrix d)ᵀ)⁻¹ *ᵥ y)) :=
        (dotProduct_transpose_mulVec _ _ _).symm
    _ = y ⬝ᵥ y := by rw [mulVec_mulVec, mul_nonsing_inv _ hunit', one_mulVec]

/-- The distance is the norm of the solved system, which is the form of the inverse covariance. -/
theorem distance_sq {d : ℕ} {e : Ellipsoid ℝ} {nominal : Fin d → ℝ}
    {covariance : Matrix (Fin d) (Fin d) ℝ} (hnominal : e.nominal = ⟨List.ofFn nominal⟩)
    (h : e.factor.Factors covariance) (p : Fin d → ℝ) :
    e.distance ⟨List.ofFn p⟩ ^ 2 = (p - nominal) ⬝ᵥ (covariance⁻¹ *ᵥ (p - nominal)) := by
  obtain ⟨y, hsolve, hy⟩ := h.staircase.solve_ofFn h.length (p - nominal)
  have hnonneg : 0 ≤ y ⬝ᵥ y := Finset.sum_nonneg fun i _ => mul_self_nonneg (y i)
  have hdifference : List.zipWith (· - ·) (List.ofFn p) (List.ofFn nominal) =
      List.ofFn (p - nominal) := Vec.zipWith_ofFn _ p nominal
  have hdistance : e.distance ⟨List.ofFn p⟩ = √(y ⬝ᵥ y) := by
    simp only [distance, hnominal, hdifference, hsolve, Triangular.dot_ofFn_ofFn]
    rfl
  rw [hdistance, Real.sq_sqrt hnonneg, ← hy, dotProduct_inv_mulVec h]

theorem contains_iff {e : Ellipsoid ℝ} {p : Vec ℝ} :
    e.contains p = true ↔ e.distance p ^ 2 ≤ e.radius ^ 2 * (1 + 1e-10) + 1e-10 := by
  rw [pow_two, pow_two]
  exact Exact.atMost_iff _ _

section Sampling

variable {e : Ellipsoid ℝ} {direction : List ℝ} {u : ℝ}

theorem dot_self (l : List ℝ) : Scalar.dot l l = (l.map fun x => x * x).sum := by
  rw [Exact.dot_eq, List.zipWith_self]

theorem dot_self_pos (h : ∃ x ∈ direction, x ≠ 0) : 0 < Scalar.dot direction direction := by
  obtain ⟨x, hx, hne⟩ := h
  rw [dot_self]
  have hterms : ∀ t ∈ direction.map fun x => x * x, 0 ≤ t := by
    intro t ht
    obtain ⟨z, -, rfl⟩ := List.mem_map.mp ht
    exact mul_self_nonneg z
  exact (mul_self_pos.mpr hne).trans_le
    (List.single_le_sum hterms _ (List.mem_map_of_mem hx))

/-- A point of the ball is as far from the center as it goes along its direction. -/
theorem dot_ballPoint (h : ∃ x ∈ direction, x ≠ 0) :
    Scalar.dot (ballPoint direction u) (ballPoint direction u) =
      (u ^ (1 / (direction.length : ℝ))) ^ 2 := by
  have hpos := dot_self_pos h
  have hscaled (x : ℝ) (t r : ℝ) : x / t * r * (x / t * r) = x * x * (r / t) ^ 2 := by ring
  simp only [ballPoint, Exact.dot_map, hscaled]
  rw [List.sum_map_mul_right, ← dot_self, Exact.squareRoot_eq, div_pow, Real.sq_sqrt hpos.le,
    mul_div_cancel₀ _ hpos.ne']
  rfl

theorem zipWith_add_sub {n w : List ℝ} (h : w.length = n.length) :
    List.zipWith (· - ·) (List.zipWith (· + ·) n w) n = w := by
  induction n generalizing w with
  | nil => exact (List.eq_nil_of_length_eq_zero h).symm
  | cons a n ih =>
      cases w with
      | nil => cases h
      | cons b w =>
          rw [List.zipWith_cons_cons, List.zipWith_cons_cons, ih (Nat.succ.inj h),
            add_sub_cancel_left]

/-- What the factor makes of a point of the ball is taken back by forward substitution. -/
theorem distance_stretch (hfactor : Triangular.Staircase e.factor.rows)
    (hlength : e.factor.rows.length = e.dimension) (hradius : 0 ≤ e.radius) {ball : List ℝ}
    (hball : ball.length = e.dimension) :
    e.distance (e.stretch ball) = e.radius * √(Scalar.dot ball ball) := by
  have hback : List.zipWith (· - ·) (e.stretch ball).toList e.nominal.toList =
      e.factor.apply (ball.map (e.radius * ·)) :=
    zipWith_add_sub ((List.length_map _).trans hlength)
  have hstretched : (ball.map (e.radius * ·)).length = e.factor.rows.length := by
    rw [List.length_map, hball, hlength]
  have hsolve : e.factor.solve (e.factor.apply (ball.map (e.radius * ·))) =
      ball.map (e.radius * ·) := hfactor.solve_apply hstretched
  have hdot : Scalar.dot (ball.map (e.radius * ·)) (ball.map (e.radius * ·)) =
      e.radius ^ 2 * Scalar.dot ball ball := by
    have hscaled (x : ℝ) : e.radius * x * (e.radius * x) = e.radius ^ 2 * (x * x) := by ring
    simp only [Exact.dot_map, hscaled]
    rw [List.sum_map_mul_left, dot_self]
  simp only [distance, hback, hsolve, hdot, Exact.squareRoot_eq]
  rw [Real.sqrt_mul (sq_nonneg _), Real.sqrt_sq hradius]

/-- A point is sampled at the distance that the drawn number says. -/
theorem distance_sampled (hfactor : Triangular.Staircase e.factor.rows)
    (hlength : e.factor.rows.length = e.dimension) (hradius : 0 ≤ e.radius)
    (hdirection : direction.length = e.dimension) (hnonzero : ∃ x ∈ direction, x ≠ 0)
    (hu : 0 ≤ u) :
    e.distance (e.stretch (ballPoint direction u)) =
      e.radius * u ^ (1 / (e.dimension : ℝ)) := by
  have hball : (ballPoint direction u).length = e.dimension := by
    rw [ballPoint, List.length_map, hdirection]
  rw [distance_stretch hfactor hlength hradius hball, dot_ballPoint hnonzero, hdirection,
    Real.sqrt_sq (Real.rpow_nonneg hu _)]

/-- No point that is sampled is outside. -/
theorem contains_sampled {p : Vec ℝ} (hu : 0 ≤ u) (hu' : u ≤ 1)
    (hdistance : e.distance p = e.radius * u ^ (1 / (e.dimension : ℝ))) :
    e.contains p = true := by
  have hreach : 0 ≤ u ^ (1 / (e.dimension : ℝ)) := Real.rpow_nonneg hu _
  have hreach' : u ^ (1 / (e.dimension : ℝ)) ≤ 1 := Real.rpow_le_one hu hu' (by positivity)
  have hsquare : (u ^ (1 / (e.dimension : ℝ))) ^ 2 ≤ 1 := pow_le_one₀ hreach hreach'
  rw [contains_iff, hdistance, mul_pow]
  have hradius := sq_nonneg e.radius
  nlinarith

variable {σ : Type} {source : Source σ ℝ} {count : ℕ} {s s' s'' : σ} {directions : List (List ℝ)}
  {units : List ℝ}

theorem sample_eq (hnormal : Draw.many (Draw.many (Draw.ofStep source.normal) e.dimension) count s =
      .ok (directions, s'))
    (hunit : Draw.many (Draw.ofStep source.unit) count s' = .ok (units, s'')) :
    e.sample source count s =
      .ok (List.zipWith (fun direction u => e.stretch (ballPoint direction u)) directions units,
        s'') := by
  change (Draw.many _ count s >>= fun r => Draw.many _ count r.2 >>= fun r' => _) = _
  rw [hnormal]
  change (Draw.many _ count s' >>= fun r' => _) = _
  rw [hunit]
  rfl

theorem forall₂_zipWith {α β γ : Type} {R : β → γ → Prop} {f : α → β → γ} {as : List α}
    {bs : List β} (hlength : as.length = bs.length) (h : ∀ a ∈ as, ∀ b ∈ bs, R b (f a b)) :
    List.Forall₂ R bs (List.zipWith f as bs) := by
  induction as generalizing bs with
  | nil =>
      cases bs with
      | nil => exact .nil
      | cons b bs => cases hlength
  | cons a as ih =>
      cases bs with
      | nil => cases hlength
      | cons b bs =>
          obtain ⟨hfirst, hrest⟩ := List.forall_mem_cons.mp h
          refine .cons (hfirst b List.mem_cons_self) (ih (Nat.succ.inj hlength) ?_)
          exact fun a' ha' b' hb' => hrest a' ha' b' (List.mem_cons_of_mem _ hb')

/-- As many points as asked for, each a member and at the distance that its drawn number says. -/
theorem exists_sample {d : ℕ} (hdimension : e.dimension = d)
    (hfactor : Triangular.Staircase e.factor.rows) (hlength : e.factor.rows.length = d)
    (hradius : 0 ≤ e.radius)
    (hnormal : Draw.many (Draw.many (Draw.ofStep source.normal) d) count s = .ok (directions, s'))
    (hunit : Draw.many (Draw.ofStep source.unit) count s' = .ok (units, s''))
    (hdirections : ∀ direction ∈ directions, ∃ x ∈ direction, x ≠ 0)
    (hunits : ∀ u ∈ units, 0 ≤ u ∧ u ≤ 1) :
    ∃ points, e.sample source count s = .ok (points, s'') ∧ points.length = count ∧
      List.Forall₂ (fun u p => e.distance p = e.radius * u ^ (1 / (d : ℝ)) ∧ e.contains p = true)
        units points := by
  subst hdimension
  have hnormals : (Draw.ofStep source.normal).Yields fun _ => True := .ofStep fun _ => trivial
  have hnumbers : (Draw.ofStep source.unit).Yields fun _ => True := .ofStep fun _ => trivial
  obtain ⟨hcount, hsizes⟩ := ((hnormals.many e.dimension).many count).value hnormal
  obtain ⟨hcount', -⟩ := (hnumbers.many count).value hunit
  refine ⟨_, sample_eq hnormal hunit, ?_, forall₂_zipWith (hcount.trans hcount'.symm) ?_⟩
  · rw [List.length_zipWith, hcount, hcount', min_self]
  · intro direction hdirection u hu
    obtain ⟨h0, h1⟩ := hunits u hu
    have hdistance := distance_sampled hfactor hlength hradius (hsizes direction hdirection).1
      (hdirections direction hdirection) h0
    exact ⟨hdistance, contains_sampled h0 h1 hdistance⟩

end Sampling

/-- Every positive definite covariance makes an ellipsoid. The square of a point's distance is the
value of the quadratic form of the inverse covariance, and members are the points where that value
is at most the square of the radius, up to the tolerance. A sample has as many points as asked for;
all of them are members, and how far away each one is depends on its drawn number alone. -/
theorem distance_and_samples {d : ℕ} (nominal : Fin d → ℝ)
    {covariance : Matrix (Fin d) (Fin d) ℝ} (hcovariance : covariance.PosDef) {radius : ℝ}
    (hradius : 0 < radius) :
    ∃ e, ofMatrix? nominal covariance radius = some e ∧
      (∀ p : Fin d → ℝ, e.distance ⟨List.ofFn p⟩ ^ 2 =
        (p - nominal) ⬝ᵥ (covariance⁻¹ *ᵥ (p - nominal))) ∧
      (∀ p : Fin d → ℝ, e.contains ⟨List.ofFn p⟩ = true ↔
        (p - nominal) ⬝ᵥ (covariance⁻¹ *ᵥ (p - nominal)) ≤ radius ^ 2 * (1 + 1e-10) + 1e-10) ∧
      ∀ (σ : Type) (source : Source σ ℝ) (count : ℕ) (s s' s'' : σ) (directions : List (List ℝ))
        (units : List ℝ),
        Draw.many (Draw.many (Draw.ofStep source.normal) d) count s = .ok (directions, s') →
        Draw.many (Draw.ofStep source.unit) count s' = .ok (units, s'') →
        (∀ direction ∈ directions, ∃ x ∈ direction, x ≠ 0) →
        (∀ u ∈ units, 0 ≤ u ∧ u ≤ 1) →
        ∃ points, e.sample source count s = .ok (points, s'') ∧ points.length = count ∧
          List.Forall₂ (fun u p => e.distance p = radius * u ^ (1 / (d : ℝ)) ∧
            e.contains p = true) units points := by
  obtain ⟨factor, hfactor, hfactors⟩ := Triangular.exists_factor hcovariance
  have hmade : ofMatrix? nominal covariance radius =
      some ⟨⟨List.ofFn nominal⟩, Triangular.rowsOf covariance, radius, factor⟩ := by
    rw [ofMatrix?, hfactor]
    rfl
  have hdimension : (Vec.mk (List.ofFn nominal)).size = d := List.length_ofFn
  refine ⟨_, hmade, fun p => distance_sq rfl hfactors p, fun p => ?_, ?_⟩
  · rw [contains_iff, distance_sq rfl hfactors p]
  · intro σ source count s s' s'' directions units hnormal hunit hdirections hunits
    exact exists_sample hdimension hfactors.staircase hfactors.length hradius.le hnormal hunit
      hdirections hunits

section TiltedEllipsoid

noncomputable def tilted : Matrix (Fin 2) (Fin 2) ℝ := !![4.0, 1; 1, 9.0]

theorem posDef_tilted : tilted.PosDef := by
  refine PosDef.of_dotProduct_mulVec_pos ?_ fun x hx => ?_
  · ext i j
    fin_cases i <;> fin_cases j <;> simp [tilted]
  · have hform : star x ⬝ᵥ (tilted *ᵥ x) = 3 * x 0 ^ 2 + (x 0 + x 1) ^ 2 + 8 * x 1 ^ 2 := by
      norm_num [tilted, dotProduct, mulVec, Fin.sum_univ_two]
      ring
    have hne : x 0 ≠ 0 ∨ x 1 ≠ 0 := by
      by_contra h
      push Not at h
      exact hx (funext fun i => by fin_cases i <;> simp [h.1, h.2])
    rw [hform]
    rcases hne with h | h <;> positivity

noncomputable def ones : Source Unit ℝ where
  unit s := (1, s)
  normal s := (1, s)
  position _ s := (0, s)

/-- Without the correlation the point would be at the distance one; with it the
point is outside, and sampled points are at the distance one. -/
theorem tilted_distance_and_samples :
    ∃ e, ofMatrix? 0 tilted 1 = some e ∧ e.contains ⟨[2.0, 0]⟩ = false ∧
      ∃ points, e.sample ones 3 () = .ok (points, ()) ∧ points.length = 3 ∧
        ∀ p ∈ points, e.distance p = 1 ∧ e.contains p = true := by
  obtain ⟨e, hmade, -, hcontains, hsample⟩ :=
    distance_and_samples 0 posDef_tilted one_pos
  have hsolution : tilted *ᵥ ![18 / 35, -2 / 35] = ![2.0, 0] := by
    funext i
    fin_cases i <;> simp [tilted, mulVec, dotProduct, Fin.sum_univ_two] <;> norm_num
  have hunit : IsUnit tilted.det := (isUnit_iff_isUnit_det _).mp posDef_tilted.isUnit
  have hform : (![2.0, 0] - 0) ⬝ᵥ (tilted⁻¹ *ᵥ (![2.0, 0] - 0)) = (36 / 35 : ℝ) := by
    rw [sub_zero]
    nth_rewrite 2 [← hsolution]
    rw [mulVec_mulVec, nonsing_inv_mul _ hunit, one_mulVec]
    simp [dotProduct, Fin.sum_univ_two]
    norm_num
  refine ⟨e, hmade, ?_, ?_⟩
  · rw [Bool.eq_false_iff, ne_eq]
    intro hinside
    have hpoint : (⟨[2.0, 0]⟩ : Vec ℝ) = ⟨List.ofFn ![2.0, 0]⟩ := by simp
    rw [hpoint, hcontains, hform] at hinside
    norm_num at hinside
  · obtain ⟨points, hpoints, hcount, hall⟩ := hsample Unit ones 3 () () ()
      [[1, 1], [1, 1], [1, 1]] [1, 1, 1] rfl rfl (by simp) (by simp)
    refine ⟨points, hpoints, hcount, fun p hp => ?_⟩
    have hones := List.forall₂_iff_zip.mp hall.flip
    obtain ⟨u, hu⟩ : ∃ u : ℝ, (p, u) ∈ points.zip [1, 1, 1] := by
      rw [← List.map_fst_zip (le_of_eq hones.1)] at hp
      obtain ⟨⟨q, u⟩, hpair, rfl⟩ := List.mem_map.mp hp
      exact ⟨u, hpair⟩
    obtain ⟨hdistance, hmember⟩ := hones.2 hu
    obtain rfl : u = 1 := by simpa using (List.of_mem_zip hu).2
    rw [Real.one_rpow, mul_one] at hdistance
    exact ⟨hdistance, hmember⟩

end TiltedEllipsoid

end Optima.Ellipsoid
