import Optima.Proofs.Random.Counts
import Optima.Proofs.Scenario.Spread

/-!
The shapes of samples. A distribution that could be made has one dimension throughout: its spreads,
its ends and its observations have as many components as its mean, its lower ends and its first
observation. So every draw has this dimension, and the entries of a sample are as many rows as were
asked for.
-/

namespace Optima

namespace Tensor

theorem of_shapeWith {extents : List ℤ} {shape : List ℕ} (h : shapeWith extents = .ok shape) :
    shape = extents.map Int.toNat ∧ sizeOf shape < memoryLimit := by
  unfold shapeWith at h
  split at h
  · cases h
  · dsimp only at h
    split at h
    · cases h
    · split at h
      · cases h
      · next hsize =>
          cases h
          exact ⟨rfl, Nat.lt_of_not_le hsize⟩

/-- A whole number is the shape of a list with so many members. -/
theorem of_shapeGiven_whole {n : ℕ} {shape : List ℕ} (h : shapeGiven (.whole n) = .ok shape) :
    shape = [n] ∧ n < memoryLimit := by
  obtain ⟨extent, hextent, h⟩ := bind_eq_ok.mp h
  have hn : extent = n := by
    unfold extentOf at hextent
    dsimp only at hextent
    split at hextent
    · cases hextent
    · exact (Except.ok.inj hextent).symm
  obtain ⟨rfl, hsize⟩ := of_shapeWith h
  rw [hn] at hsize ⊢
  have hsizeOf : sizeOf [n] = n := Nat.one_mul n
  exact ⟨rfl, hsizeOf ▸ hsize⟩

end Tensor

namespace Distribution

variable {d : Distribution Float}

def IsShaped : Distribution Float → Prop
  | normal mean deviations => deviations.size = mean.size
  | correlated mean covariance => covariance.length = mean.size
  | uniform low high => high.size = low.size
  | empirical first rest => ∀ v ∈ rest, v.size = first.size

section Given

theorem isShaped_of_ofMoments {mean deviations covariance : Datum}
    (h : ofMoments mean deviations covariance = .ok d) : d.IsShaped := by
  obtain ⟨-, -, stds, hstds, hspread⟩ := of_ofMoments h
  have hlength := hspread.length_eq
  cases d with
  | normal mean deviations =>
      cases hstds
      exact hlength
  | correlated mean covariance =>
      cases hstds
      rw [deviationsOf, List.length_map, List.length_zipIdx] at hlength
      exact hlength
  | uniform low high => cases hstds
  | empirical first rest => cases hstds

theorem isShaped_of_ofBounds {low high : Datum} (h : ofBounds low high = .ok d) : d.IsShaped := by
  obtain ⟨l, -, h⟩ := bind_eq_ok.mp h
  obtain ⟨u, hu, h⟩ := bind_eq_ok.mp h
  obtain ⟨-, -, hsize, -⟩ := Check.of_flatArray hu
  have hshaped : u.size = l.size := by
    exact_mod_cast (Datum.whole_same_whole_iff.mp (hsize.resolve_left nofun)).symm
  split at h
  · obtain ⟨_, hthrow, -⟩ := bind_eq_ok.mp h
    exact absurd hthrow throw_ne_ok
  · obtain rfl := pure_eq_ok.mp h
    exact hshaped

/-- Rows of an array are observations of one dimension. -/
theorem isShaped_of_rows {t : Tensor} {count columns : ℕ}
    (harea : t.entries.length = count * columns)
    (h : (match Tensor.rows columns count t.entries with
      | [] => throw (.misuse .noObservations)
      | first :: rest => do
        if !t.entries.all Float.isFinite then throw (.misuse (.notFinite "historical data"))
        return empirical ⟨first⟩ (rest.map fun row => ⟨row⟩) : Except Fault (Distribution Float)) =
      .ok d) : d.IsShaped := by
  obtain ⟨-, hcolumns, -⟩ := Tensor.rows_of_length harea
  split at h
  · exact absurd h throw_ne_ok
  · next first rest hrows =>
      rw [hrows] at hcolumns
      obtain ⟨hfirst, hrest⟩ := List.forall_mem_cons.mp hcolumns
      split at h
      · obtain ⟨_, hthrow, -⟩ := bind_eq_ok.mp h
        exact absurd hthrow throw_ne_ok
      · obtain rfl := pure_eq_ok.mp h
        refine List.forall_mem_map.mpr fun row hrow => ?_
        exact (hrest row hrow).trans hfirst.symm

/-- Observations that were accepted have one dimension. -/
theorem isShaped_of_ofObservations {observations : Datum}
    (h : ofObservations observations = .ok d) : d.IsShaped := by
  unfold ofObservations at h
  dsimp only at h
  split at h
  · obtain ⟨_, hthrow, -⟩ := bind_eq_ok.mp h
    exact absurd hthrow throw_ne_ok
  · obtain ⟨t, ht, h⟩ := bind_eq_ok.mp h
    have hlength := Tensor.length_of_ofDatum ht
    split at h
    · next n hshape =>
        rw [hshape] at hlength
        exact isShaped_of_rows (hlength.trans (Nat.mul_comm 1 n)) h
    · next n columns hshape =>
        rw [hshape, Tensor.sizeOf_cons] at hlength
        exact isShaped_of_rows (hlength.trans (congrArg (n * ·) (Nat.one_mul columns))) h
    · obtain ⟨_, hthrow, -⟩ := bind_eq_ok.mp h
      exact absurd hthrow throw_ne_ok

/-- A distribution that could be made is of one dimension throughout. -/
theorem isShaped_of_ofFields {fields : List (String × Datum)} (h : ofFields fields = .ok d) :
    d.IsShaped := by
  unfold ofFields at h
  dsimp only at h
  split at h
  · exact isShaped_of_ofMoments h
  · exact isShaped_of_ofBounds h
  · exact isShaped_of_ofObservations h
  · cases h

end Given

section Samples

variable {σ : Type} {correlation : Correlation Float} {source : Source σ Float}

/-- A draw has a component for each dimension. -/
theorem IsShaped.draw_yields (h : d.IsShaped) :
    (d.draw correlation source).Yields fun v => v.size = d.dimension := by
  have heach {step : Draw σ Float} (hstep : step.Yields fun _ => True)
      {f : Float × Float → Float → Float} {xs ys : List Float} (hlength : ys.length = xs.length) :
      (Draw.each (fun pair => do return f pair (← step)) (xs.zip ys)).Yields fun zs =>
        zs.length = xs.length := by
    have hcoordinate : ∀ pair ∈ xs.zip ys,
        Draw.Yields (do return f pair (← step)) fun _ => True :=
      fun pair _ => hstep.bind fun _ _ => Draw.Yields.pure trivial
    refine (Draw.Yields.each hcoordinate).imp fun zs hzs => ?_
    rw [← hzs.length_eq, List.length_zip, hlength, min_self]
  have hunit : (Draw.ofStep source.unit).Yields fun _ => True := .ofStep fun _ => trivial
  have hnormal : (Draw.ofStep source.normal).Yields fun _ => True := .ofStep fun _ => trivial
  cases d with
  | normal mean deviations =>
      exact (heach hnormal h).bind fun zs hzs => Draw.Yields.pure hzs
  | correlated mean covariance =>
      refine (hnormal.many mean.size).bind fun zs _ => Draw.Yields.pure ?_
      change (mean.toList.zipIdx.map _).length = mean.size
      rw [List.length_map, List.length_zipIdx]
      rfl
  | uniform low high =>
      exact (heach hunit h).bind fun zs hzs => Draw.Yields.pure hzs
  | empirical first rest =>
      have hposition : (Draw.ofStep (source.position (rest.length + 1))).Yields fun _ => True :=
        .ofStep fun _ => trivial
      refine hposition.bind fun i _ => Draw.Yields.pure ?_
      have hmembers : ∀ v ∈ first :: rest, v.size = first.size :=
        List.forall_mem_cons.mpr ⟨rfl, h⟩
      rw [List.getD_eq_getElem?_getD]
      cases hi : (first :: rest)[i]? with
      | none => rfl
      | some v => exact hmembers v (List.mem_of_getElem? hi)

theorem length_flatMap_toList {n : ℕ} {vs : List (Vec Float)} (h : ∀ v ∈ vs, v.size = n) :
    (vs.flatMap Vec.toList).length = vs.length * n := by
  induction vs with
  | nil => exact (Nat.zero_mul n).symm
  | cons v vs ih =>
      obtain ⟨hv, hvs⟩ := List.forall_mem_cons.mp h
      have hsize : v.toList.length = n := hv
      rw [List.flatMap_cons, List.length_append, ih hvs, hsize, List.length_cons, Nat.succ_mul,
        Nat.add_comm]

theorem levels_of_arrangement {n : ℕ} {levels : List ℕ}
    (h : d.arrangement (.whole n) = .ok levels) : levels = [n] ∧ n < Tensor.memoryLimit := by
  have hgiven : Tensor.shapeGiven (.whole n) = .ok levels := by
    cases d with
    | normal mean deviations | correlated mean covariance | uniform low high
    | empirical first rest =>
      obtain ⟨_, -, hlevels⟩ := bind_eq_ok.mp h
      exact hlevels
  exact Tensor.of_shapeGiven_whole hgiven

/-- A sample is an array with as many rows as were asked for, each of the dimension of the
distribution; so many rows fit into memory. -/
theorem IsShaped.of_sampleGiven [Random.Environment] (h : d.IsShaped) {n : ℕ} (hn : 0 < n)
    {seed : Datum} {t : Tensor} (ht : d.sampleGiven (.whole n) seed = .ok t) :
    t.shape = [n, d.dimension] ∧ t.entries.length = n * d.dimension ∧ n < Tensor.memoryLimit := by
  have hsize : Check.count (.whole n) "size" = .ok n :=
    Check.count_eq_ok.mpr ⟨hn, nofun, Datum.whole_same_whole_iff.mpr rfl⟩
  rw [d.sampleGiven_eq hsize] at ht
  obtain ⟨stream, -, ht⟩ := bind_eq_ok.mp ht
  obtain ⟨_, hdraws, ht⟩ := bind_eq_ok.mp ht
  obtain ⟨levels, hlevels, ht⟩ := bind_eq_ok.mp ht
  obtain ⟨⟨rows, last⟩, hrows, ht⟩ := bind_eq_ok.mp ht
  obtain rfl := pure_eq_ok.mp ht
  obtain ⟨rfl, hmemory⟩ := levels_of_arrangement hlevels
  have hcount : Tensor.sizeOf [n] = n := Nat.one_mul n
  rw [hcount, sample, isMeasurable_of_checkDraws hdraws] at hrows
  obtain ⟨hlength, hsizes⟩ := (h.draw_yields.many n).value hrows
  exact ⟨rfl, by rw [length_flatMap_toList hsizes, hlength], hmemory⟩

end Samples

end Distribution

end Optima
