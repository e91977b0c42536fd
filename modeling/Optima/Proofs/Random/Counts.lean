import Optima.Input.DistributionSpec
import Optima.Proofs.Scalar.Quantity
import Optima.Proofs.Uncertainty.Samples

/-!
Counts given as reals. A count may be a real that equals a positive whole number. A sampler that
goes on with the whole number gives the same points for both. A box that has to draw points inside,
and past observations, go on with the real as it was given, and no array has a real as its extent.
-/

namespace Optima

namespace Check

theorem positive_eq_ok {m : ℤ} {n : ℕ} {refuse : Fault} :
    (if m ≤ 0 then throw refuse else pure m.toNat : Except Fault ℕ) = .ok n ↔ 0 < n ∧ m = n := by
  split
  · next hm =>
      refine ⟨fun h => absurd h throw_ne_ok, ?_⟩
      omega
  · next hm =>
      rw [pure_eq_ok]
      omega

/-- What is accepted as a count is the same as a positive whole number, and no flag. -/
theorem count_eq_ok {value : Datum} {name : String} {n : ℕ} : count value name = .ok n ↔
    0 < n ∧ (∀ b, value ≠ .flag b) ∧ value.same (.whole n) = true := by
  cases value with
  | flag b =>
      have hrefused : count (.flag b) name ≠ .ok n := throw_ne_ok
      simp [hrefused]
  | whole m =>
      have hcount : count (.whole m) name = .ok n ↔ 0 < n ∧ m = n := positive_eq_ok
      simp [hcount, Datum.whole_same_whole_iff]
  | real x =>
      rw [Datum.real_same_whole_iff]
      cases hwhole : wholeOf? x with
      | none =>
          have hrefused : count (.real x) name ≠ .ok n := by
            simp only [count, hwhole]
            split
            · nofun
            · split <;> nofun
          simp [hrefused]
      | some m =>
          have hfinite := Datum.isFinite_of_wholeOf? hwhole
          have hcount : count (.real x) name = .ok n ↔ 0 < n ∧ m = n := by
            simp only [count, hwhole, Datum.isNaN_eq_false hfinite, Datum.isInf_eq_false hfinite]
            exact positive_eq_ok
          simp [hcount]
  | text s =>
      have hrefused : count (.text s) name ≠ .ok n := throw_ne_ok
      simp [hrefused, Datum.same_whole_iff, Datum.quantity?, Datum.whole?]
  | null | list items | record fields | vector components =>
      simp [count, throw_ne_ok, Datum.same_whole_iff, Datum.quantity?, Datum.whole?]

end Check

namespace Distribution

variable {σ : Type} {correlation : Correlation Float} {source : Source σ Float}

theorem draw_yields (d : Distribution Float) :
    (d.draw correlation source).Yields fun _ => True := by
  have hunit : (Draw.ofStep source.unit).Yields fun _ => True := .ofStep fun _ => trivial
  have hnormal : (Draw.ofStep source.normal).Yields fun _ => True := .ofStep fun _ => trivial
  -- Each coordinate is made from one number of the source.
  have heach {step : Draw σ Float} (hstep : step.Yields fun _ => True)
      {f : Float × Float → Float → Float} (pairs : List (Float × Float)) :
      (Draw.each (fun pair => do return f pair (← step)) pairs).Yields fun _ => True := by
    have hcoordinate : ∀ pair ∈ pairs,
        Draw.Yields (do return f pair (← step)) fun _ => True :=
      fun pair _ => hstep.bind fun _ _ => Draw.Yields.pure trivial
    exact (Draw.Yields.each hcoordinate).imp fun _ _ => trivial
  cases d with
  | normal mean deviations =>
      exact (heach hnormal _).bind fun _ _ => Draw.Yields.pure trivial
  | correlated mean covariance =>
      exact (hnormal.many mean.size).bind fun _ _ => Draw.Yields.pure trivial
  | uniform low high => exact (heach hunit _).bind fun _ _ => Draw.Yields.pure trivial
  | empirical first rest =>
      have hposition : (Draw.ofStep (source.position (rest.length + 1))).Yields fun _ => True :=
        .ofStep fun _ => trivial
      exact hposition.bind fun _ _ => Draw.Yields.pure trivial

theorem sample_yields {d : Distribution Float} (h : d.isMeasurable = true) (count : ℕ) :
    (d.sample correlation source count).Yields fun rows => rows.length = count := by
  simp only [sample, h, Bool.not_true, Bool.false_eq_true, if_false]
  exact (d.draw_yields.many count).imp fun rows hrows => hrows.1

end Distribution

/-- An array with so many rows, each so long, fits into memory. -/
structure FitsMemory (count dimension : ℕ) : Prop where
  rows : count < Tensor.memoryLimit
  entries : count * dimension < Tensor.memoryLimit

theorem Tensor.shapeWith_eq {shape : List ℕ}
    (hextents : sizeOf (shape.filter (· != 0)) < describable) (hsize : sizeOf shape < memoryLimit) :
    shapeWith (shape.map Int.ofNat) = .ok shape := by
  have hsigns : (shape.map Int.ofNat).any (· < 0) = false := by simp
  have hshape : (shape.map Int.ofNat).map Int.toNat = shape := by
    rw [List.map_map]
    exact List.map_id shape
  simp only [shapeWith, hsigns, hshape, Bool.false_eq_true, if_false, Nat.not_le.mpr hextents,
    Nat.not_le.mpr hsize]

namespace FitsMemory

variable {n d : ℕ}

theorem memoryLimit_lt_describable : Tensor.memoryLimit < Tensor.describable := by decide

theorem shapeWith_rows (hn : 0 < n) (h : FitsMemory n d) : Tensor.shapeWith [n] = .ok [n] := by
  have hsize : Tensor.sizeOf [n] = n := Nat.one_mul n
  have hfilter : [n].filter (· != 0) = [n] := by simp [hn.ne']
  change Tensor.shapeWith ([n].map Int.ofNat) = _
  apply Tensor.shapeWith_eq
  · rw [hfilter, hsize]
    exact h.rows.trans memoryLimit_lt_describable
  · rw [hsize]
    exact h.rows

theorem shapeWith_entries (hn : 0 < n) (h : FitsMemory n d) :
    Tensor.shapeWith [n, d] = .ok [n, d] := by
  have hsize : Tensor.sizeOf [n, d] = n * d := by simp [Tensor.sizeOf]
  change Tensor.shapeWith ([n, d].map Int.ofNat) = _
  apply Tensor.shapeWith_eq
  · cases d with
    | zero =>
        have hfilter : [n, 0].filter (· != 0) = [n] := by simp [hn.ne']
        have hrows : Tensor.sizeOf [n] = n := Nat.one_mul n
        rw [hfilter, hrows]
        exact h.rows.trans memoryLimit_lt_describable
    | succ d =>
        have hfilter : [n, d + 1].filter (· != 0) = [n, d + 1] := by simp [hn.ne']
        rw [hfilter, hsize]
        exact h.entries.trans memoryLimit_lt_describable
  · rw [hsize]
    exact h.entries

theorem extentOf_eq {k : ℕ} (hk : k < Tensor.memoryLimit) :
    Tensor.extentOf (.whole k) = .ok k := by
  have hbound : Tensor.memoryLimit = 0x200000000 := rfl
  have hword : ¬ ((k : ℤ) < -0x8000000000000000 ∨ 0x8000000000000000 ≤ (k : ℤ)) := by omega
  simp only [Tensor.extentOf, Bool.or_eq_true, decide_eq_true_eq, hword, if_false]

theorem shapeGiven_rows (hn : 0 < n) (h : FitsMemory n d) :
    Tensor.shapeGiven (.whole n) = .ok [n] := by
  simp only [Tensor.shapeGiven, extentOf_eq h.rows]
  exact h.shapeWith_rows hn

theorem shapeGiven_entries (hn : 0 < n) (h : FitsMemory n d) :
    Tensor.shapeGiven (.list [.whole n, .whole d]) = .ok [n, d] := by
  have hd : d < Tensor.memoryLimit := (Nat.le_mul_of_pos_left d hn).trans_lt h.entries
  have hextents : [Datum.whole n, .whole d].mapM Tensor.extentOf = .ok [(n : ℤ), d] := by
    rw [mapM_eq_ok]
    exact .cons (extentOf_eq h.rows) (.cons (extentOf_eq hd) .nil)
  simp only [Tensor.shapeGiven, hextents]
  exact h.shapeWith_entries hn

theorem arrangement_eq {dist : Distribution Float} (hn : 0 < n) (h : FitsMemory n dist.dimension) :
    dist.arrangement (.whole n) = .ok [n] := by
  cases dist with
  | normal mean deviations | correlated mean covariance | uniform low high | empirical first rest =>
    simp only [Distribution.arrangement, h.shapeGiven_entries hn, h.shapeGiven_rows hn]
    rfl

end FitsMemory

/-- A sampler takes the real for the whole number: it gives the same for both. -/
def TakesReal {σ β : Type} (call : Datum → σ → Except Fault β) (x : Float) (n : ℕ) : Prop :=
  ∀ s, call (.real x) s = call (.whole n) s

/-- A sampler refuses the real wherever it gives points for the whole number. -/
def RefusesReal {σ β : Type} (call : Datum → σ → Except Fault β) (x : Float) (n : ℕ) : Prop :=
  ∀ s points, call (.whole n) s = .ok points → call (.real x) s = .error .wrongKind

section Samplers

variable {x : Float} {n : ℕ} {name : String}

theorem Check.count_whole (hx : Check.count (.real x) name = .ok n) (other : String) :
    Check.count (.whole n) other = .ok n := by
  obtain ⟨hn, -, -⟩ := Check.count_eq_ok.mp hx
  exact Check.count_eq_ok.mpr ⟨hn, nofun, Datum.whole_same_whole_iff.mpr rfl⟩

theorem Check.count_real (hx : Check.count (.real x) name = .ok n) (other : String) :
    Check.count (.real x) other = .ok n := Check.count_eq_ok.mpr (Check.count_eq_ok.mp hx)

namespace UncertaintySet

variable {set : UncertaintySet Float}

def IsSampled : UncertaintySet Float → Prop
  | finite _ => False
  | _ => True

theorem box_isSampled (b : Box Float) : (box b).IsSampled := trivial

theorem ellipsoid_isSampled (e : Ellipsoid Float) : (ellipsoid e).IsSampled := trivial

theorem sampleGiven_eq (hset : set.IsSampled) {count : Datum}
    (hcount : Check.count count "number_of_samples" = .ok n) (stream : Random.Stream) :
    set.sampleGiven count stream = (do
      set.checkSample count n
      set.sample Random.source n stream) := by
  have hsteps : set.sampleGiven count stream =
      ((Check.count count "number_of_samples" >>= fun n => pure (n, stream)) >>= fun counted =>
        (set.checkSample count counted.1 >>= fun checked => pure (checked, counted.2)) >>=
          fun checked => set.sample Random.source counted.1 checked.2) := by
    cases set with
    | box box => rfl
    | ellipsoid e => rfl
    | finite points => cases hset
  rw [hsteps, hcount]
  change (set.checkSample count n >>= fun checked => pure (checked, stream)) >>= _ = _
  rw [bind_assoc]
  rfl

/-- An ellipsoid goes on with the whole number. -/
theorem ellipsoid_takesReal (hx : Check.count (.real x) name = .ok n) (e : Ellipsoid Float) :
    TakesReal (ellipsoid e).sampleGiven x n := by
  intro stream
  rw [sampleGiven_eq (ellipsoid_isSampled e) (Check.count_real hx _),
    sampleGiven_eq (ellipsoid_isSampled e) (Check.count_whole hx _)]
  rfl

/-- Listed corners are given as they are, if no more points are asked for. -/
theorem box_gives_listed {box : Box Float} (hlisted : n ≤ box.listed.length) {count : Datum}
    (hcount : Check.count count "number_of_samples" = .ok n) (stream : Random.Stream) :
    (UncertaintySet.box box).sampleGiven count stream = .ok (box.listed, stream) := by
  have hcheck : (UncertaintySet.box box).checkSample count n = .ok () := by
    simp only [checkSample, Nat.not_lt.mpr hlisted, if_false]
    rfl
  rw [sampleGiven_eq (box_isSampled box) hcount, hcheck]
  change box.sample Random.source n stream = _
  simp only [Box.sample, Nat.sub_eq_zero_of_le hlisted]
  change Except.ok (box.listed ++ [], stream) = _
  rw [List.append_nil]

theorem box_takesReal (hx : Check.count (.real x) name = .ok n) {box : Box Float}
    (hlisted : n ≤ box.listed.length) : TakesReal (UncertaintySet.box box).sampleGiven x n := by
  intro stream
  rw [box_gives_listed hlisted (Check.count_real hx _),
    box_gives_listed hlisted (Check.count_whole hx _)]

/-- No array has a real as its extent, so nothing is drawn. -/
theorem box_refusesReal (hx : Check.count (.real x) name = .ok n) {box : Box Float}
    (hmore : box.listed.length < n) : RefusesReal (UncertaintySet.box box).sampleGiven x n := by
  intro stream drawn hdrawn
  rw [sampleGiven_eq (box_isSampled box) (Check.count_whole hx _), bind_eq_ok] at hdrawn
  obtain ⟨_, hcheck, -⟩ := hdrawn
  have hrefused : (UncertaintySet.box box).checkSample (.real x) n = .error .wrongKind := by
    simp only [checkSample, hmore, if_true] at hcheck ⊢
    cases hwide : box.isMeasurable with
    | false =>
        rw [hwide] at hcheck
        cases hcheck
    | true =>
        rw [hwide] at hcheck
        cases hsign : Check.hasSign (List.zipWith (· - ·) box.upper.toList box.lower.toList) with
        | true =>
            rw [hsign] at hcheck
            cases hcheck
        | false => rfl
  rw [sampleGiven_eq (box_isSampled box) (Check.count_real hx _), hrefused]
  rfl

end UncertaintySet

theorem Distribution.isMeasurable_of_checkDraws {d : Distribution Float}
    (h : d.checkDraws = .ok ()) : d.isMeasurable = true := by
  unfold checkDraws at h
  cases hwide : d.isMeasurable with
  | false =>
      rw [hwide] at h
      cases h
  | true => rfl

variable [Random.Environment]

namespace UncertaintySet

variable {set : UncertaintySet Float}

theorem sampleSeeded_eq (hset : set.IsSampled) {count : Datum}
    (hcount : Check.count count "number_of_samples" = .ok n) (seed : Datum) :
    set.sampleSeeded count seed = (do
      let stream ← Random.Stream.ofDatum seed
      return (← set.sampleGiven count stream).1) := by
  cases set with
  | box box | ellipsoid e =>
      simp only [sampleSeeded, hcount]
      rfl
  | finite points => cases hset

/-- Seeds do not matter to what a count is taken for. -/
theorem takesReal_seeded (hset : set.IsSampled) (hx : Check.count (.real x) name = .ok n)
    (h : TakesReal set.sampleGiven x n) : TakesReal set.sampleSeeded x n := by
  intro seed
  rw [sampleSeeded_eq hset (Check.count_real hx _), sampleSeeded_eq hset (Check.count_whole hx _)]
  exact bind_congr fun stream => by rw [h stream]

theorem refusesReal_seeded (hset : set.IsSampled) (hx : Check.count (.real x) name = .ok n)
    (h : RefusesReal set.sampleGiven x n) : RefusesReal set.sampleSeeded x n := by
  intro seed points hpoints
  rw [sampleSeeded_eq hset (Check.count_whole hx _), bind_eq_ok] at hpoints
  obtain ⟨stream, hstream, hpoints⟩ := hpoints
  obtain ⟨drawn, hdrawn, -⟩ := bind_eq_ok.mp hpoints
  rw [sampleSeeded_eq hset (Check.count_real hx _), hstream]
  change (set.sampleGiven (.real x) stream >>= _) = _
  rw [h stream drawn hdrawn]
  rfl

/-- What is drawn for a real count is there, and not only equal to what a whole count would draw. -/
theorem ellipsoid_succeeds (hx : Check.count (.real x) name = .ok n) {e : Ellipsoid Float}
    (hfits : FitsMemory n e.dimension) {seed : Datum} {stream : Random.Stream}
    (hseed : Random.Stream.ofDatum seed = .ok stream) :
    ∃ points, (ellipsoid e).sampleSeeded (.real x) seed = .ok points := by
  obtain ⟨hn, -, -⟩ := Check.count_eq_ok.mp hx
  have hcheck : (ellipsoid e).checkSample (.real x) n = .ok () := by
    simp only [checkSample, hfits.shapeWith_entries hn]
    rfl
  have hyields : (e.sample Random.source n).Yields fun points => n ≤ points.length :=
    e.sample_yields_count n
  obtain ⟨points, rest, hpoints, -⟩ := hyields stream
  refine ⟨points, ?_⟩
  rw [sampleSeeded_eq (ellipsoid_isSampled e) (Check.count_real hx _), hseed]
  change ((ellipsoid e).sampleGiven (.real x) stream >>= _) = _
  rw [sampleGiven_eq (ellipsoid_isSampled e) (Check.count_real hx _), hcheck]
  change (e.sample Random.source n stream >>= _) = _
  rw [hpoints]
  rfl

theorem box_gives_listed_seeded (hx : Check.count (.real x) name = .ok n) {box : Box Float}
    (hlisted : n ≤ box.listed.length) {seed : Datum} {stream : Random.Stream}
    (hseed : Random.Stream.ofDatum seed = .ok stream) :
    (UncertaintySet.box box).sampleSeeded (.real x) seed = .ok box.listed := by
  rw [sampleSeeded_eq (box_isSampled box) (Check.count_real hx _), hseed]
  change ((UncertaintySet.box box).sampleGiven (.real x) stream >>= _) = _
  rw [box_gives_listed hlisted (Check.count_real hx _)]
  rfl

end UncertaintySet

namespace Distribution

theorem sampleGiven_eq (d : Distribution Float) {size : Datum}
    (hsize : Check.count size "size" = .ok n) (seed : Datum) :
    d.sampleGiven size seed = (do
      let stream ← Random.Stream.ofDatum seed
      d.checkDraws
      let levels ← d.arrangement size
      let (rows, _) ←
        d.sample Random.Environment.correlation Random.source (Tensor.sizeOf levels) stream
      return ⟨levels ++ [d.dimension], rows.flatMap Vec.toList⟩) := by
  cases d with
  | empirical first rest =>
      simp only [sampleGiven, hsize]
      rfl
  | normal mean deviations | correlated mean covariance | uniform low high => rfl

theorem sampleGiven_succeeds {d : Distribution Float} (hn : 0 < n) (hdraws : d.checkDraws = .ok ())
    (hfits : FitsMemory n d.dimension) {seed : Datum} {stream : Random.Stream}
    (hseed : Random.Stream.ofDatum seed = .ok stream) :
    ∃ t, d.sampleGiven (.whole n) seed = .ok t := by
  have hsize : Check.count (.whole n) "size" = .ok n :=
    Check.count_eq_ok.mpr ⟨hn, nofun, Datum.whole_same_whole_iff.mpr rfl⟩
  have hyields : (d.sample Random.Environment.correlation Random.source (Tensor.sizeOf [n])).Yields
      fun rows => rows.length = Tensor.sizeOf [n] :=
    sample_yields (isMeasurable_of_checkDraws hdraws) _
  obtain ⟨rows, last, hrows, -⟩ := hyields stream
  refine ⟨⟨[n] ++ [d.dimension], rows.flatMap Vec.toList⟩, ?_⟩
  rw [d.sampleGiven_eq hsize, hseed]
  simp only [hdraws, hfits.arrangement_eq hn]
  change (d.sample Random.Environment.correlation Random.source (Tensor.sizeOf [n]) stream
    >>= _) = _
  rw [hrows]
  rfl

/-- The positions of past observations are drawn as an array, too. -/
theorem empirical_refusesReal (hx : Check.count (.real x) name = .ok n) (first : Vec Float)
    (rest : List (Vec Float)) : RefusesReal (empirical first rest).sampleGiven x n := by
  intro seed t ht
  rw [sampleGiven_eq _ (Check.count_whole hx _)] at ht
  obtain ⟨stream, hstream, -⟩ := bind_eq_ok.mp ht
  rw [sampleGiven_eq _ (Check.count_real hx _), hstream]
  rfl

end Distribution

theorem Scenario.ofDistribution_takesReal (hx : Check.count (.real x) name = .ok n)
    (d : Distribution Float) : TakesReal (Scenario.ofDistribution d) x n := by
  intro seed
  rw [ofDistribution, Check.count_real hx, ofDistribution, Check.count_whole hx]

theorem Scenario.ofDistribution_succeeds (hx : Check.count (.real x) name = .ok n)
    {d : Distribution Float} (hdraws : d.checkDraws = .ok ()) (hfits : FitsMemory n d.dimension)
    {seed : Datum} {stream : Random.Stream} (hseed : Random.Stream.ofDatum seed = .ok stream) :
    ∃ scenarios, Scenario.ofDistribution d (.real x) seed = .ok scenarios := by
  obtain ⟨hn, -, -⟩ := Check.count_eq_ok.mp hx
  obtain ⟨t, ht⟩ := Distribution.sampleGiven_succeeds hn hdraws hfits hseed
  rw [ofDistribution, Check.count_real hx]
  change ∃ scenarios, (d.sampleGiven (.whole n) seed >>= _) = _
  rw [ht]
  exact ⟨_, rfl⟩

/-- A count is accepted if it is the same as a positive whole number and no flag. An ellipsoid and a
generator of scenarios then take a real for that number, and so does a box that has enough corners
to list. A box that has to draw points inside, and past observations, refuse the real. -/
theorem accepted_reals_count_unless_handed_on (name : String) (n : ℕ) :
    (∀ value, Check.count value name = .ok n ↔
      0 < n ∧ (∀ b, value ≠ .flag b) ∧ value.same (.whole n) = true) ∧
    ∀ x, Check.count (.real x) name = .ok n →
      (∀ e : Ellipsoid Float,
        TakesReal (UncertaintySet.ellipsoid e).sampleGiven x n ∧
        TakesReal (UncertaintySet.ellipsoid e).sampleSeeded x n ∧
        ∀ seed stream, Random.Stream.ofDatum seed = .ok stream → FitsMemory n e.dimension →
          ∃ points, (UncertaintySet.ellipsoid e).sampleSeeded (.real x) seed = .ok points) ∧
      (∀ d : Distribution Float,
        TakesReal (Scenario.ofDistribution d) x n ∧
        ∀ seed stream, Random.Stream.ofDatum seed = .ok stream → d.checkDraws = .ok () →
          FitsMemory n d.dimension →
            ∃ scenarios, Scenario.ofDistribution d (.real x) seed = .ok scenarios) ∧
      (∀ box : Box Float, n ≤ box.listed.length →
        TakesReal (UncertaintySet.box box).sampleGiven x n ∧
        TakesReal (UncertaintySet.box box).sampleSeeded x n ∧
        ∀ seed stream, Random.Stream.ofDatum seed = .ok stream →
          (UncertaintySet.box box).sampleSeeded (.real x) seed = .ok box.listed) ∧
      (∀ box : Box Float, box.listed.length < n →
        RefusesReal (UncertaintySet.box box).sampleGiven x n ∧
        RefusesReal (UncertaintySet.box box).sampleSeeded x n) ∧
      ∀ first rest, RefusesReal (Distribution.empirical first rest).sampleGiven x n := by
  refine ⟨fun _ => Check.count_eq_ok, fun x hx => ⟨fun e => ?_, fun d => ?_,
    fun box hlisted => ?_, fun box hmore => ?_, Distribution.empirical_refusesReal hx⟩⟩
  · have htakes := UncertaintySet.ellipsoid_takesReal hx e
    exact ⟨htakes, UncertaintySet.takesReal_seeded (UncertaintySet.ellipsoid_isSampled e) hx htakes,
      fun seed stream hseed hfits => UncertaintySet.ellipsoid_succeeds hx hfits hseed⟩
  · exact ⟨Scenario.ofDistribution_takesReal hx d,
      fun seed stream hseed hdraws hfits =>
        Scenario.ofDistribution_succeeds hx hdraws hfits hseed⟩
  · have htakes := UncertaintySet.box_takesReal hx hlisted
    exact ⟨htakes, UncertaintySet.takesReal_seeded (UncertaintySet.box_isSampled box) hx htakes,
      fun seed stream hseed => UncertaintySet.box_gives_listed_seeded hx hlisted hseed⟩
  · have hrefuses := UncertaintySet.box_refusesReal hx hmore
    exact ⟨hrefuses,
      UncertaintySet.refusesReal_seeded (UncertaintySet.box_isSampled box) hx hrefuses⟩

end Samplers

section Requests

/-- One number between minus one and one. -/
def unitInterval : Box Float where
  nominal := ⟨[0.0]⟩
  deviations := ⟨[1.0]⟩
  aligned := rfl
  nonNegative := by decide +kernel

theorem count_three : Check.count (.real 3.0) "number_of_samples" = .ok 3 :=
  Check.count_eq_ok.mpr ⟨by decide, nofun, by decide +kernel⟩

/-- Two corners are listed, so of three points one would have to be drawn. -/
theorem unitInterval_refuses_three :
    Check.count (.real 3.0) "number_of_samples" = .ok 3 ∧
    unitInterval.listed.length = 2 ∧
    RefusesReal (UncertaintySet.box unitInterval).sampleSeeded 3.0 3 ∧
    TakesReal (Scenario.ofDistribution (.normal ⟨[0.0]⟩ ⟨[1.0]⟩)) 3.0 3 := by
  have hlisted : unitInterval.listed.length = 2 := rfl
  obtain ⟨-, hreals⟩ := accepted_reals_count_unless_handed_on "number_of_samples" 3
  obtain ⟨-, hscenarios, -, hmore, -⟩ := hreals 3.0 count_three
  exact ⟨count_three, hlisted, (hmore unitInterval (by rw [hlisted]; decide)).2,
    (hscenarios _).1⟩

/-- One observation can be drawn twice, but not as many times as a real says. -/
theorem observation_not_drawn_as_given :
    Check.count (.real 2.0) "size" = .ok 2 ∧
    (∃ t, (Distribution.empirical ⟨[1.0]⟩ []).sampleGiven (.whole 2) (.whole 0) = .ok t) ∧
    (Distribution.empirical ⟨[1.0]⟩ []).sampleGiven (.real 2.0) (.whole 0) = .error .wrongKind := by
  have hcount : Check.count (.real 2.0) "size" = .ok 2 :=
    Check.count_eq_ok.mpr ⟨by decide, nofun, by decide +kernel⟩
  have hseed : Random.Stream.ofDatum (.whole 0) =
      .ok (Random.Stream.ofSeed (Random.wordsOf 0)) := rfl
  have hfits : FitsMemory 2 (Distribution.empirical (⟨[1.0]⟩ : Vec Float) []).dimension :=
    ⟨by decide, by decide⟩
  obtain ⟨t, ht⟩ := Distribution.sampleGiven_succeeds (by decide) rfl hfits hseed
  exact ⟨hcount, ⟨t, ht⟩, Distribution.empirical_refusesReal hcount _ _ _ t ht⟩

end Requests

end Optima
