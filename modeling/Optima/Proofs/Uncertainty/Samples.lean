import Optima.Input.UncertaintySpec
import Optima.Proofs.Random.Yields
import Optima.Proofs.Success

/-!
Samples of uncertainty sets. A box lists its corners and draws the rest, coordinate by coordinate.
On doubles, whether points can be drawn is decided before anything is drawn, and does not depend on
the stream. If they can, there are at least as many as asked for, except that a finite set gives all
its points, of which it has at least one.
-/

namespace Optima

section Draws

variable {σ α : Type} [Scalar α] {source : Source σ α} {box : Box α} {count : Nat}

/-- Each coordinate of a point inside is drawn between the ends of its interval. -/
theorem Box.interior_yields_each (box : Box α) {U : α → Prop} {R : α × α → α → Prop}
    (hunit : ∀ s, U (source.unit s).1)
    (hbetween : ∀ e ∈ box.lower.toList.zip box.upper.toList, ∀ u, U u → R e (between e.1 e.2 u)) :
    (box.interior source).Yields fun p =>
      List.Forall₂ R (box.lower.toList.zip box.upper.toList) p.toList := by
  have hcoordinate : ∀ e ∈ box.lower.toList.zip box.upper.toList,
      Draw.Yields (do return between e.1 e.2 (← Draw.ofStep source.unit)) (R e) := by
    intro e he
    have hdraw : (Draw.ofStep source.unit).Yields U := .ofStep hunit
    exact hdraw.bind fun u hu => Draw.Yields.pure (hbetween e he u hu)
  exact (Draw.Yields.each hcoordinate).bind fun p hp => Draw.Yields.pure hp

/-- After the listed corners, as many points are drawn inside as are still missing. -/
theorem Box.sample_yields_drawn {P : Vec α → Prop}
    (hmeasurable : box.listed.length < count → box.isMeasurable = true)
    (hinterior : (box.interior source).Yields P) :
    (box.sample source count).Yields fun points => ∃ drawn, points = box.listed ++ drawn ∧
      drawn.length = count - box.listed.length ∧ ∀ p ∈ drawn, P p := by
  have hcheck : (decide (0 < count - box.listed.length) && !box.isMeasurable) = false := by
    by_cases hmore : box.listed.length < count
    · rw [hmeasurable hmore, Bool.not_true, Bool.and_false]
    · have hnone : ¬ 0 < count - box.listed.length := by omega
      rw [decide_eq_false hnone, Bool.false_and]
  simp only [Box.sample, hcheck, Bool.false_eq_true, if_false]
  exact (hinterior.many _).bind fun drawn hdrawn => Draw.Yields.pure ⟨drawn, rfl, hdrawn⟩

theorem Box.sample_yields_count
    (hmeasurable : box.listed.length < count → box.isMeasurable = true) :
    (box.sample source count).Yields fun points => count ≤ points.length := by
  have hinterior : (box.interior source).Yields fun _ => True :=
    (box.interior_yields_each (U := fun _ => True) (R := fun _ _ => True) (fun _ => trivial)
      fun _ _ _ _ => trivial).imp fun _ _ => trivial
  refine (Box.sample_yields_drawn hmeasurable hinterior).imp ?_
  rintro _ ⟨drawn, rfl, hlength, -⟩
  rw [List.length_append, hlength]
  omega

theorem Ellipsoid.sample_yields_count (e : Ellipsoid α) (count : Nat) :
    (e.sample source count).Yields fun points => count ≤ points.length := by
  have hnormal : (Draw.ofStep source.normal).Yields fun _ => True := .ofStep fun _ => trivial
  have hunit : (Draw.ofStep source.unit).Yields fun _ => True := .ofStep fun _ => trivial
  refine ((hnormal.many e.dimension).many count).bind fun directions hdirections => ?_
  refine (hunit.many count).bind fun units hunits => Draw.Yields.pure ?_
  rw [List.length_zipWith, hdirections.1, hunits.1]
  omega

end Draws

namespace UncertaintySet

variable {set : UncertaintySet Float} {count : Nat}

def Draws (set : UncertaintySet Float) (count : Nat) (q : Vec Float) : Prop :=
  ∃ stream points stream', set.sampleCount count stream = .ok (points, stream') ∧ q ∈ points

theorem sampleCount_eq (set : UncertaintySet Float) (count : Nat) (stream : Random.Stream) :
    set.sampleCount count stream = (do
      set.checkSample (.whole count) count
      set.sample Random.source count stream) := by
  unfold sampleCount
  change ((set.checkSample (.whole count) count >>= fun a => pure (a, stream)) >>= _) = _
  rw [bind_assoc]
  rfl

theorem isMeasurable_of_checkSample {box : Box Float}
    (h : (UncertaintySet.box box).checkSample (.whole count) count = .ok ())
    (hmore : box.listed.length < count) : box.isMeasurable = true := by
  simp only [checkSample, hmore, if_true] at h
  split at h
  · obtain ⟨_, hthrow, -⟩ := bind_eq_ok.mp h
    exact absurd hthrow throw_ne_ok
  · next hmeasurable => simpa using hmeasurable

/-- Where a positive number of points can be drawn, there is a worst one among them. -/
theorem sample_yields_ne_nil (h : set.checkSample (.whole count) count = .ok ())
    (hcount : 0 < count) :
    (set.sample Random.source count).Yields fun points => points ≠ [] := by
  have hnonempty {points : List (Vec Float)} (hlength : count ≤ points.length) : points ≠ [] :=
    List.ne_nil_of_length_pos (by omega)
  intro stream
  cases set with
  | box box =>
      obtain ⟨points, rest, hpoints, hlength⟩ :=
        Box.sample_yields_count (isMeasurable_of_checkSample h) stream
      exact ⟨points, rest, hpoints, hnonempty hlength⟩
  | ellipsoid e =>
      obtain ⟨points, rest, hpoints, hlength⟩ := e.sample_yields_count count stream
      exact ⟨points, rest, hpoints, hnonempty hlength⟩
  | finite s => exact ⟨s.points, stream, rfl, List.cons_ne_nil _ _⟩

/-- If nothing stands against drawing, points are drawn from every state of
the stream. -/
theorem sampleCount_yields (h : set.checkSample (.whole count) count = .ok ())
    (hcount : 0 < count) :
    (set.sampleCount count).Yields fun points => points ≠ [] ∧ ∀ q ∈ points, set.Draws count q := by
  intro stream
  obtain ⟨points, rest, hpoints, hne⟩ := sample_yields_ne_nil h hcount stream
  have hsample : set.sampleCount count stream = .ok (points, rest) := by
    rw [sampleCount_eq, h]
    exact hpoints
  exact ⟨points, rest, hsample, hne, fun q hq => ⟨stream, points, rest, hsample, hq⟩⟩

theorem sampleCount_eq_error {fault : Fault}
    (h : set.checkSample (.whole count) count = .error fault) (stream : Random.Stream) :
    set.sampleCount count stream = .error fault := by
  rw [sampleCount_eq, h]
  rfl

end UncertaintySet

end Optima
