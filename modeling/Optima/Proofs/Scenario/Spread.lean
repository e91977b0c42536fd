import Optima.Input.DistributionSpec
import Optima.Proofs.Scalar.Quantity
import Optima.Proofs.Scalar.Real
import Optima.Proofs.Scalar.SquareRoot
import Optima.Proofs.Solver.CheckedSettings

/-!
What a normal distribution is made of. Its mean is finite and has components, and there is a
standard deviation for each of them: one, the same number for all, the one given for it, or the
square root of its entry on the diagonal of the covariance. All of them are finite and not negative,
unless a single number was given that is not finite, or a covariance with an entry below zero on its
diagonal.
-/

namespace Optima

section Arrays

namespace Tensor

theorem sizeOf_cons (count : ℕ) (shape : List ℕ) :
    sizeOf (count :: shape) = count * sizeOf shape := by
  have hfoldl (start : ℕ) : shape.foldl (· * ·) start = start * shape.foldl (· * ·) 1 := by
    induction shape generalizing start with
    | nil => exact (Nat.mul_one start).symm
    | cons extent rest ih =>
        rw [List.foldl_cons, List.foldl_cons, ih, ih (1 * extent), Nat.one_mul, Nat.mul_assoc]
  rw [sizeOf, List.foldl_cons, Nat.one_mul, hfoldl]
  rfl

mutual

/-- An array has as many entries as its shape says. -/
theorem length_entriesOf : {value : Datum} → {shape : List ℕ} → {entries : List Float} →
    nesting value = .ok shape → entriesOf value = .ok entries → entries.length = sizeOf shape
  | .list items, shape, entries, hshape, hentries => length_itemEntries hshape hentries
  | .vector components, shape, entries, hshape, hentries => by
      cases hshape
      cases hentries
      rw [sizeOf_cons]
      exact (Nat.mul_one _).symm
  | .null, shape, entries, hshape, hentries | .flag _, shape, entries, hshape, hentries
  | .whole _, shape, entries, hshape, hentries | .real _, shape, entries, hshape, hentries
  | .text _, shape, entries, hshape, hentries | .record _, shape, entries, hshape, hentries => by
      cases hshape
      obtain ⟨x, -, hx⟩ := bind_eq_ok.mp hentries
      rw [← pure_eq_ok.mp hx]
      rfl

theorem length_itemEntries : {items : List Datum} → {shape : List ℕ} → {entries : List Float} →
    nestingOf items = .ok shape → itemEntries items = .ok entries → entries.length = sizeOf shape
  | [], shape, entries, hshape, hentries => by
      cases hshape
      cases hentries
      rfl
  | [item], shape, entries, hshape, hentries => by
      obtain ⟨inner, hinner, hpure⟩ := bind_eq_ok.mp hshape
      obtain rfl := pure_eq_ok.mp hpure
      obtain ⟨first, hfirst, hrest⟩ := bind_eq_ok.mp hentries
      obtain rfl : first ++ [] = entries := Except.ok.inj hrest
      rw [List.append_nil, sizeOf_cons, Nat.one_mul]
      exact length_entriesOf hinner hfirst
  | item :: other :: rest, shape, entries, hshape, hentries => by
      obtain ⟨inner, hinner, hshape⟩ := bind_eq_ok.mp hshape
      obtain ⟨outer, houter, hshape⟩ := bind_eq_ok.mp hshape
      obtain ⟨first, hfirst, hentries⟩ := bind_eq_ok.mp hentries
      obtain ⟨others, hothers, hpure⟩ := bind_eq_ok.mp hentries
      obtain rfl := pure_eq_ok.mp hpure
      have hrest := length_itemEntries houter hothers
      cases outer with
      | nil => cases hshape
      | cons count extents =>
          by_cases hsame : inner = extents
          · simp only [hsame, beq_self_eq_true, if_true] at hshape
            cases hshape
            rw [List.length_append, length_entriesOf hinner hfirst, hrest, hsame, sizeOf_cons,
              sizeOf_cons]
            ring
          · simp only [beq_false_of_ne hsame, Bool.false_eq_true, if_false] at hshape
            cases hshape

end

/-- An array has as many entries as its shape says. -/
theorem length_of_ofDatum {value : Datum} {t : Tensor} (h : ofDatum value = .ok t) :
    t.entries.length = sizeOf t.shape := by
  obtain ⟨shape, hshape, h⟩ := bind_eq_ok.mp h
  obtain ⟨entries, hentries, h⟩ := bind_eq_ok.mp h
  obtain rfl := pure_eq_ok.mp h
  obtain ⟨nested, hnested, hrank⟩ := bind_eq_ok.mp hshape
  split at hrank
  · exact absurd hrank throw_ne_ok
  · obtain rfl := pure_eq_ok.mp hrank
    exact length_entriesOf hnested hentries

/-- Rows with all their entries, that together are the entries given. -/
theorem rows_of_length {columns count : ℕ} {entries : List Float}
    (h : entries.length = count * columns) :
    (rows columns count entries).length = count ∧
      (∀ row ∈ rows columns count entries, row.length = columns) ∧
        (rows columns count entries).flatten = entries := by
  induction count generalizing entries with
  | zero =>
      rw [Nat.zero_mul, List.length_eq_zero_iff] at h
      rw [h]
      exact ⟨rfl, nofun, rfl⟩
  | succ count ih =>
      rw [Nat.succ_mul] at h
      have hrest : (entries.drop columns).length = count * columns := by
        rw [List.length_drop]
        omega
      obtain ⟨hcount, hcolumns, hflatten⟩ := ih hrest
      refine ⟨by rw [rows, List.length_cons, hcount], ?_, ?_⟩
      · refine List.forall_mem_cons.mpr ⟨?_, hcolumns⟩
        rw [List.length_take]
        omega
      · rw [rows, List.flatten_cons, hflatten, List.take_append_drop]

end Tensor

/-- As many rows as columns, and no entry that is not finite. -/
structure IsSquare (n : ℕ) (rows : List (List Float)) : Prop where
  height : rows.length = n
  width : ∀ row ∈ rows, row.length = n
  finite : ∀ row ∈ rows, ∀ x ∈ row, x.isFinite = true

/-- A matrix that was accepted has the extents that were asked for, and finite entries. -/
theorem Check.isSquare_of_squareMatrix {n : ℕ} {value : Datum} {name : String}
    {rows : List (List Float)} (h : Check.squareMatrix n value name = .ok rows) :
    IsSquare n rows := by
  simp only [Check.squareMatrix, Check.matrix, bind_eq_ok] at h
  obtain ⟨t, ht, h⟩ := h
  have hlength := Tensor.length_of_ofDatum ht
  split at h
  · next count columns hshape =>
      split at h
      · obtain ⟨_, hthrow, -⟩ := bind_eq_ok.mp h
        exact absurd hthrow throw_ne_ok
      · next hsame =>
          have hextents : n = count ∧ n = columns := by
            simpa [Datum.sameItems, Datum.whole_same_whole_iff] using hsame
          obtain ⟨rfl, rfl⟩ := hextents
          split at h
          · obtain ⟨_, hthrow, -⟩ := bind_eq_ok.mp h
            exact absurd hthrow throw_ne_ok
          · next hfinite =>
              rw [pure_eq_ok] at h
              subst h
              have harea : t.entries.length = n * n := by
                rw [hlength, hshape]
                simp [Tensor.sizeOf]
              obtain ⟨hheight, hwidth, hflatten⟩ := Tensor.rows_of_length harea
              rw [Bool.not_eq_true, Bool.not_eq_false', List.all_eq_true] at hfinite
              refine ⟨hheight, hwidth, fun row hrow x hx => hfinite x ?_⟩
              rw [← hflatten]
              exact List.mem_flatten_of_mem hrow hx
  · exact absurd h throw_ne_ok

end Arrays

def Datum.IsListed : Datum → Prop
  | list _ | vector _ | record _ => True
  | _ => False

namespace Distribution

open Scalar

section Diagonal

variable {α : Type} [Scalar α]

def diagonal (rows : List (List α)) : List α :=
  rows.zipIdx.map fun (row, i) => row.getD i 0

theorem deviationsOf_eq (rows : List (List α)) :
    deviationsOf rows = (diagonal rows).map squareRoot := by
  rw [deviationsOf, diagonal, List.map_map]
  rfl

theorem length_diagonal (rows : List (List α)) : (diagonal rows).length = rows.length := by
  rw [diagonal, List.length_map, List.length_zipIdx]

end Diagonal

/-- Exact square roots have the diagonal as their squares, unless there are none. -/
theorem deviationsOf_squares_iff (rows : List (List ℝ)) :
    (deviationsOf rows).map (· ^ 2) = diagonal rows ↔ ∀ x ∈ diagonal rows, 0 ≤ x := by
  have hsame : (deviationsOf rows).map (· ^ 2) = diagonal rows ↔
      (diagonal rows).map ((· ^ 2) ∘ squareRoot) = (diagonal rows).map id := by
    rw [deviationsOf_eq, List.map_map, List.map_id]
  rw [hsame, List.map_inj_left]
  refine forall₂_congr fun x hx => ?_
  change √x ^ 2 = x ↔ 0 ≤ x
  constructor
  · intro hsquare
    rw [← hsquare]
    exact sq_nonneg _
  · exact Real.sq_sqrt

theorem finite_of_mem_diagonal {n : ℕ} {rows : List (List Float)} (h : IsSquare n rows) {x : Float}
    (hx : x ∈ diagonal rows) : x.isFinite = true := by
  obtain ⟨⟨row, i⟩, hrow, rfl⟩ := List.mem_map.mp hx
  have hplace : rows[i]? = some row := List.mem_zipIdx_iff_getElem?.mp hrow
  have hmem : row ∈ rows := List.mem_of_getElem? hplace
  have hi : i < row.length := by
    rw [h.width row hmem, ← h.height]
    exact (List.getElem?_eq_some_iff.mp hplace).1
  change (row.getD i 0).isFinite = true
  rw [List.getD_eq_getElem _ _ hi]
  exact h.finite row hmem _ (List.getElem_mem hi)

/-- Where standard deviations come from: ones if nothing is given, a single number for all, as many
numbers as there are parameters, or the square roots of the diagonal of a covariance. -/
inductive SpreadFrom (dimension : ℕ) : (deviations covariance : Datum) → List Float → Prop where
  | ones : SpreadFrom dimension .null .null (List.replicate dimension 1.0)
  | single {value : Datum} {x : Float} (hvalue : ¬ value.IsListed) (hx : value.toFloat = .ok x)
      (hsign : less x 0 = false) : SpreadFrom dimension value .null (List.replicate dimension x)
  | each {value : Datum} {t : Tensor} (hvalue : value.IsListed) (ht : Tensor.ofDatum value = .ok t)
      (hlength : t.entries.length = dimension) (hfinite : ∀ s ∈ t.entries, s.isFinite = true)
      (hsigns : ∀ s ∈ t.entries, less s 0 = false) : SpreadFrom dimension value .null t.entries
  | roots {deviations covariance : Datum} {rows : List (List Float)} (hgiven : covariance ≠ .null)
      (hrows : Check.squareMatrix dimension covariance "covariance" = .ok rows) :
      SpreadFrom dimension deviations covariance ((diagonal rows).map squareRoot)

/-- What is not looked at: whether a single number is finite, and the signs on a diagonal. -/
def SlipsThrough (dimension : ℕ) (deviations covariance : Datum) : Prop :=
  (covariance = .null ∧ ∃ x, deviations.toFloat = .ok x ∧ x.isFinite = false) ∨
    (covariance ≠ .null ∧ ∃ rows, Check.squareMatrix dimension covariance "covariance" = .ok rows ∧
      ∃ x ∈ diagonal rows, less x 0 = true)

theorem atMost_of_not_less {x : Float} (hx : x.isFinite = true) (h : less x 0 = false) :
    atMost 0 x = true := by
  have hdefined := Binary64.defined_of_isFinite hx
  refine (Ranked.atMost_iff 0 x).mpr ⟨Ranked.zero_defined, hdefined, le_of_not_gt fun hlt => ?_⟩
  rw [(Ranked.less_iff x 0).mpr ⟨hdefined, Ranked.zero_defined, hlt⟩] at h
  cases h

theorem spreadFrom_of_arrayOf {n : ℕ} {value : Datum} {name : String} {deviations : Vec Float}
    (hvalue : value.IsListed) (h : Check.arrayOf n value name = .ok deviations)
    (hsigns : ∀ s ∈ deviations.toList, less s 0 = false) :
    SpreadFrom n value .null deviations.toList := by
  obtain ⟨-, hfinite, hsize, t, ht, hentries⟩ := Check.of_flatArray h
  have hlength : n = deviations.size := by
    exact_mod_cast Datum.whole_same_whole_iff.mp (hsize.resolve_left nofun)
  have hall : ∀ s ∈ deviations.toList, s.isFinite = true := List.all_eq_true.mp hfinite
  rw [← hentries] at hsigns hall ⊢
  refine .each hvalue ht ?_ hall hsigns
  rw [hentries, hlength]
  rfl

theorem spreadFrom_of_spreadOf {n : ℕ} (hn : 0 < n) {value : Datum} {deviations : Vec Float}
    (h : spreadOf n value = .ok deviations)
    (hsigns : ∀ s ∈ deviations.toList, less s 0 = false) :
    SpreadFrom n value .null deviations.toList := by
  cases value with
  | null =>
      obtain rfl := pure_eq_ok.mp h
      exact .ones
  | list items | vector components | record fields =>
      exact spreadFrom_of_arrayOf trivial h hsigns
  | flag b | whole m | real x | text s =>
      obtain ⟨x, hx, h⟩ := bind_eq_ok.mp h
      obtain rfl := pure_eq_ok.mp h
      exact .single id hx (hsigns x (List.mem_replicate.mpr ⟨hn.ne', rfl⟩))

theorem one_wellFormed : (1.0 : Float).isFinite = true ∧ atMost 0 (1.0 : Float) = true := by
  decide +kernel

section Slips

variable {n : ℕ} {deviations covariance : Datum}

theorem slipsThrough_null_iff :
    SlipsThrough n deviations .null ↔ ∃ x, deviations.toFloat = .ok x ∧ x.isFinite = false := by
  simp [SlipsThrough]

theorem slipsThrough_covariance_iff {rows : List (List Float)} (hgiven : covariance ≠ .null)
    (hrows : Check.squareMatrix n covariance "covariance" = .ok rows) :
    SlipsThrough n deviations covariance ↔ ∃ x ∈ diagonal rows, less x 0 = true := by
  simp [SlipsThrough, hgiven, hrows]

/-- All standard deviations are finite and not negative unless one is let through unseen. -/
theorem SpreadFrom.wellFormed_iff (hn : 0 < n) {stds : List Float}
    (h : SpreadFrom n deviations covariance stds) :
    (∀ s ∈ stds, s.isFinite = true ∧ atMost 0 s = true) ↔
      ¬ SlipsThrough n deviations covariance := by
  cases h with
  | ones =>
      rw [slipsThrough_null_iff]
      refine iff_of_true (fun s hs => ?_) ?_
      · rw [List.eq_of_mem_replicate hs]
        exact one_wellFormed
      · rintro ⟨x, hx, -⟩
        cases hx
  | @single value x hvalue hx hsign =>
      have hslips : SlipsThrough n deviations .null ↔ x.isFinite = false := by
        simp [slipsThrough_null_iff, hx]
      rw [hslips, Bool.not_eq_false]
      constructor
      · intro hall
        exact (hall x (List.mem_replicate.mpr ⟨hn.ne', rfl⟩)).1
      · intro hfinite s hs
        rw [List.eq_of_mem_replicate hs]
        exact ⟨hfinite, atMost_of_not_less hfinite hsign⟩
  | each hvalue ht hlength hfinite hsigns =>
      rw [slipsThrough_null_iff]
      refine iff_of_true (fun s hs => ?_) ?_
      · exact ⟨hfinite s hs, atMost_of_not_less (hfinite s hs) (hsigns s hs)⟩
      · rintro ⟨x, hx, -⟩
        cases deviations with
        | list items | vector components | record fields => cases hx
        | null | flag b | whole m | real x | text s => cases hvalue
  | @roots _ _ rows hgiven hrows =>
      have hsquare := Check.isSquare_of_squareMatrix hrows
      rw [slipsThrough_covariance_iff hgiven hrows, List.forall_mem_map]
      constructor
      · rintro hall ⟨x, hx, hless⟩
        exact Binary64.sqrt_of_less hless (Binary64.defined_of_isFinite (hall x hx).1)
      · intro hslips x hx
        refine Binary64.sqrt_of_not_less (finite_of_mem_diagonal hsquare hx) ?_
        exact Bool.eq_false_iff.mpr fun hless => hslips ⟨x, hx, hless⟩

end Slips

theorem ofMoments_of_covariance (mean deviations : Datum) {covariance : Datum}
    (h : covariance ≠ .null) : ofMoments mean deviations covariance = (do
      let mean ← Check.array mean "mean"
      return correlated mean (← covarianceOf mean.size covariance)) := by
  cases covariance with
  | null => exact absurd rfl h
  | flag b | whole m | real x | text s | list items | record fields | vector components => rfl

theorem SpreadFrom.length_eq {n : ℕ} {deviations covariance : Datum} {stds : List Float}
    (h : SpreadFrom n deviations covariance stds) : stds.length = n := by
  cases h with
  | ones => exact List.length_replicate
  | single hvalue hx hsign => exact List.length_replicate
  | each hvalue ht hlength hfinite hsigns => exact hlength
  | roots hgiven hrows =>
      rw [List.length_map, length_diagonal]
      exact (Check.isSquare_of_squareMatrix hrows).height

/-- A normal distribution is made of a mean that has passed its check and of standard deviations
that come from what was given. -/
theorem of_ofMoments {mean deviations covariance : Datum} {d : Distribution Float}
    (h : ofMoments mean deviations covariance = .ok d) :
    Check.array mean "mean" = .ok d.mean ∧ d.dimension = d.mean.size ∧
      ∃ stds, d.deviations = .ok stds ∧ SpreadFrom d.mean.size deviations covariance stds := by
  by_cases hgiven : covariance = .null
  · subst hgiven
    obtain ⟨m, hm, h⟩ := bind_eq_ok.mp h
    have hn : 0 < m.size :=
      List.length_pos_iff.mpr (List.isEmpty_eq_false_iff.mp (Check.of_array hm).1)
    obtain ⟨v, hv, h⟩ := bind_eq_ok.mp h
    split at h
    · obtain ⟨_, hthrow, -⟩ := bind_eq_ok.mp h
      exact absurd hthrow throw_ne_ok
    · next hnegative =>
        obtain rfl := pure_eq_ok.mp h
        have hsigns : ∀ s ∈ v.toList, less s 0 = false := fun s hs =>
          Bool.eq_false_iff.mpr fun hless => hnegative (List.any_eq_true.mpr ⟨s, hs, hless⟩)
        exact ⟨hm, rfl, v.toList, rfl, spreadFrom_of_spreadOf hn hv hsigns⟩
  · rw [ofMoments_of_covariance _ _ hgiven] at h
    obtain ⟨m, hm, h⟩ := bind_eq_ok.mp h
    obtain ⟨rows, hcovariance, h⟩ := bind_eq_ok.mp h
    obtain rfl := pure_eq_ok.mp h
    obtain ⟨square, hsquare, hsymmetric⟩ := bind_eq_ok.mp hcovariance
    split at hsymmetric
    · obtain rfl := pure_eq_ok.mp hsymmetric
      refine ⟨hm, rfl, _, ?_, .roots hgiven hsquare⟩
      rw [← deviationsOf_eq]
      rfl
    · exact absurd hsymmetric throw_ne_ok

/-- A normal distribution that could be made has a finite mean with components, and a standard
deviation for each of them, which comes from what was given. Exact square roots of a covariance
have its diagonal as their squares unless it has an entry below zero. All standard deviations are
finite and not negative just if nothing slips through: no single number that is not finite, and no
covariance with an entry below zero on its diagonal. -/
theorem normal_wellFormed_unless_slips {mean deviations covariance : Datum}
    {d : Distribution Float} (h : ofMoments mean deviations covariance = .ok d) :
    d.mean.toList ≠ [] ∧ (∀ x ∈ d.mean.toList, x.isFinite = true) ∧
    (∃ t, Tensor.ofDatum mean = .ok t ∧ t.entries = d.mean.toList) ∧
    (∃ stds, d.deviations = .ok stds ∧ stds.length = d.dimension ∧
      SpreadFrom d.dimension deviations covariance stds ∧
      ((∀ s ∈ stds, s.isFinite = true ∧ atMost 0 s = true) ↔
        ¬ SlipsThrough d.dimension deviations covariance)) ∧
    ∀ rows : List (List ℝ),
      (deviationsOf rows).map (· ^ 2) = diagonal rows ↔ ∀ x ∈ diagonal rows, 0 ≤ x := by
  obtain ⟨hmean, hdimension, stds, hstds, hspread⟩ := of_ofMoments h
  obtain ⟨hcomponents, hfinite, -, hentries⟩ := Check.of_flatArray hmean
  rw [List.isEmpty_eq_false_iff] at hcomponents
  have hn : 0 < d.mean.size := List.length_pos_iff.mpr hcomponents
  rw [← hdimension] at hspread hn
  exact ⟨hcomponents, List.all_eq_true.mp hfinite, hentries,
    ⟨stds, hstds, hspread.length_eq, hspread, hspread.wellFormed_iff hn⟩,
    deviationsOf_squares_iff⟩

section Requests

def fourNine : Datum :=
  .list [.list [.real 4.0, .real 1.0], .list [.real 1.0, .real 9.0]]

theorem ofMoments_fourNine : ofMoments (.vector [0.0, 1.0]) .null fourNine =
    .ok (correlated ⟨[0.0, 1.0]⟩ [[4.0, 1.0], [1.0, 9.0]]) := rfl

theorem squareMatrix_fourNine :
    Check.squareMatrix 2 fourNine "covariance" = .ok [[4.0, 1.0], [1.0, 9.0]] := rfl

theorem fourNine_wellFormed :
    ofMoments (.vector [0.0, 1.0]) .null fourNine =
      .ok (correlated ⟨[0.0, 1.0]⟩ [[4.0, 1.0], [1.0, 9.0]]) ∧
    SpreadFrom 2 .null fourNine [Float.sqrt 4.0, Float.sqrt 9.0] ∧
    ∀ s ∈ [Float.sqrt 4.0, Float.sqrt 9.0], s.isFinite = true ∧ atMost 0 s = true := by
  obtain ⟨-, -, -, ⟨stds, hstds, -, hspread, hwell⟩, -⟩ :=
    normal_wellFormed_unless_slips ofMoments_fourNine
  cases hstds
  have hslips : ¬ SlipsThrough 2 .null fourNine := by
    have hsigns : ∀ x ∈ diagonal [[4.0, 1.0], [1.0, (9.0 : Float)]], less x 0 = false := by
      decide +kernel
    have hgiven : fourNine ≠ .null := nofun
    rw [slipsThrough_covariance_iff hgiven squareMatrix_fourNine]
    rintro ⟨x, hx, hless⟩
    rw [hsigns x hx] at hless
    cases hless
  exact ⟨ofMoments_fourNine, hspread, hwell.mpr hslips⟩

/-- An infinite number is taken as the standard deviation of all components. -/
theorem infinite_deviation_taken :
    ofMoments (.list [.real 0.0, .real 1.0]) (.real (1.0 / 0.0)) .null =
      .ok (normal ⟨[0.0, 1.0]⟩ ⟨[1.0 / 0.0, 1.0 / 0.0]⟩) ∧
    (normal ⟨[0.0, 1.0]⟩ ⟨[1.0 / 0.0, 1.0 / 0.0]⟩).deviations = .ok [1.0 / 0.0, 1.0 / 0.0] ∧
    (1.0 / 0.0 : Float).isFinite = false :=
  ⟨rfl, rfl, by decide +kernel⟩

end Requests

end Distribution

end Optima
