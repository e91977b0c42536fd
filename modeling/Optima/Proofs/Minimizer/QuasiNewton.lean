import Optima.Minimizer.QuasiNewton
import Optima.Proofs.Minimizer.Confined

/-!
The quasi-Newton minimizer serves. It divides by numbers that may vanish and compares numbers that
may be undefined, but no such number decides whether it returns: it evaluates the function only at
points of the dimension of the start, as long as all remembered steps and gradients have this
dimension, and each of its searches and its loop have a budget. For the same reason it is confined
to this dimension, whether the function has values there or not.
-/

namespace Optima.QuasiNewton

open LineSearch

/-- A search returns if all trials do, and it finds one of them or none. -/
theorem search_returns {probe : Float → Except Fault Probe} {P : Probe → Prop}
    (hprobe : ∀ step, ∃ trial, probe step = .ok trial ∧ P trial) (budget : Nat) (s : State)
    (step : Float) :
    ∃ left found, search probe budget s step = .ok (left, found) ∧ ∀ p ∈ found, P p := by
  induction budget generalizing s step with
  | zero => exact ⟨0, none, rfl, by simp⟩
  | succ budget ih =>
      obtain ⟨trial, htrial, hP⟩ := hprobe step
      simp only [search, htrial, bind, Except.bind]
      split
      · refine ⟨budget, some trial, rfl, ?_⟩
        intro p hp
        cases hp
        exact hP
      · exact ih _ _

structure Pair.Fits (n : Nat) (p : Pair) : Prop where
  step : p.step.length = n
  change : p.change.length = n

structure Sized (n : Nat) (point gradient : Vec Float) : Prop where
  point : point.size = n
  gradient : gradient.size = n

section Directions

variable {n : Nat}

theorem length_addMultiple {v w : List Float} (hv : v.length = n) (hw : w.length = n) (s : Float) :
    (addMultiple v s w).length = n := by
  rw [addMultiple, List.length_zipWith, hv, hw, Nat.min_self]

theorem length_applyInverse (scale : Float) {pairs : List Pair} (hpairs : ∀ p ∈ pairs, p.Fits n)
    {q : List Float} (hq : q.length = n) : (applyInverse scale pairs q).length = n := by
  induction pairs generalizing q with
  | nil => rw [applyInverse, List.length_map, hq]
  | cons p rest ih =>
      obtain ⟨hp, hrest⟩ := List.forall_mem_cons.mp hpairs
      have hchanged := length_addMultiple hq hp.change (-(Scalar.dot p.step q / p.product))
      exact length_addMultiple (ih hrest hchanged) hp.step _

theorem length_direction {pairs : List Pair} (hpairs : ∀ p ∈ pairs, p.Fits n) {g : List Float}
    (hg : g.length = n) : (direction pairs g).length = n := by
  unfold direction
  rw [List.length_map]
  exact length_applyInverse _ hpairs hg

/-- Whatever is learnt from a step fits the dimension of the point. -/
theorem learn_fits {pairs : List Pair} (hpairs : ∀ p ∈ pairs, p.Fits n) {v : Visit}
    (hv : Sized n v.point v.gradient) {d : List Float} (hd : d.length = n) {p : Probe}
    (hp : Sized n p.point p.gradient) : ∀ q ∈ learn pairs v d p, q.Fits n := by
  unfold learn
  dsimp only
  split
  · exact hpairs
  · intro q hq
    rcases List.mem_cons.mp (List.mem_of_mem_take hq) with rfl | hq
    · refine ⟨?_, ?_⟩
      · rw [List.length_map, hd]
      · have hnew : p.gradient.toList.length = n := hp.gradient
        have hold : v.gradient.toList.length = n := hv.gradient
        rw [List.length_zipWith, hnew, hold, Nat.min_self]
    · exact hpairs q hq

end Directions

section Loop

variable {value : Vec Float → Except Fault Float} {gradient : Vec Float → Except Fault (Vec Float)}
  {n : Nat}
  (h : ∀ y, y.size = n → (∃ v, value y = .ok v) ∧ ∃ d, gradient y = .ok d ∧ d.size = n)

include h

/-- A search along a direction ends, and what it finds has the dimension of its start. -/
theorem descend_returns (first : Bool) {v : Visit} (hv : Sized n v.point v.gradient)
    {d : List Float} (hd : d.length = n) :
    ∃ used found, descend value gradient first v d = .ok (used, found) ∧
      ∀ p ∈ found, Sized n p.point p.gradient := by
  unfold descend
  dsimp only
  split
  · exact ⟨0, none, rfl, by simp⟩
  · have hprobe : ∀ step, ∃ trial, (do
        let point : Vec Float := ⟨addMultiple v.point.toList step d⟩
        let f ← value point
        let g ← gradient point
        return ⟨⟨step, f, Scalar.dot g.toList d⟩, point, g⟩) = (.ok trial : Except Fault Probe) ∧
          Sized n trial.point trial.gradient := by
      intro step
      have hpoint : (⟨addMultiple v.point.toList step d⟩ : Vec Float).size = n :=
        length_addMultiple hv.point hd step
      obtain ⟨⟨f, hf⟩, g, hg, hsize⟩ := h _ hpoint
      exact ⟨_, bind_eq_ok.mpr ⟨f, hf, bind_eq_ok.mpr ⟨g, hg, rfl⟩⟩, hpoint, hsize⟩
    obtain ⟨left, found, hsearch, hfound⟩ := search_returns hprobe trials _ _
    exact ⟨trials - left, found, bind_eq_ok.mpr ⟨(left, found), hsearch, rfl⟩, hfound⟩

variable {flat : Float}

/-- The loop ends at a visited point, with the gradient there. -/
theorem loop_returns (budget evaluations : Nat) (first : Bool) {pairs : List Pair}
    (hpairs : ∀ p ∈ pairs, p.Fits n) {v : Visit} (hv : Sized n v.point v.gradient) :
    ∃ x slope, loop value gradient flat budget evaluations first pairs v = .ok (x, slope) ∧
      x.size = n := by
  induction budget generalizing evaluations first pairs v with
  | zero =>
      rw [loop]
      exact ⟨_, _, rfl, hv.point⟩
  | succ budget ih =>
      have haccept (evaluations : Nat) {pairs : List Pair} (hpairs : ∀ p ∈ pairs, p.Fits n)
          {d : List Float} (hd : d.length = n) {p : Probe} (hp : Sized n p.point p.gradient) :
          ∃ x slope, loop.accept value gradient flat budget evaluations pairs v d p =
            .ok (x, slope) ∧ x.size = n := by
        rw [loop.accept]
        split
        · exact ⟨_, _, rfl, hp.point⟩
        · exact ih _ _ (learn_fits hpairs hv hd hp) ⟨hp.point, hp.gradient⟩
      have hd := length_direction hpairs hv.gradient
      have hsteepest : (direction [] v.gradient.toList).length = n :=
        length_direction (by simp) hv.gradient
      obtain ⟨used, found, hdescend, hfound⟩ := descend_returns h first hv hd
      obtain ⟨more, retried, hretry, hretried⟩ := descend_returns h first hv hsteepest
      rw [loop]
      simp only [hdescend, hretry, bind, Except.bind]
      split
      · exact ⟨_, _, rfl, hv.point⟩
      split
      · exact ⟨_, _, rfl, hv.point⟩
      cases found with
      | some p => exact haccept _ hpairs hd (hfound p rfl)
      | none =>
          dsimp only
          split
          · exact ⟨_, _, rfl, hv.point⟩
          cases retried with
          | some p => exact haccept _ (by simp) hsteepest (hretried p rfl)
          | none => exact ⟨_, _, rfl, hv.point⟩

end Loop

/-- Whatever the settings are, the minimizer that a solve uses serves. -/
theorem minimizer_serves (settings : Settings Float) : (minimizer settings).Serves := by
  intro value gradient start h
  obtain ⟨⟨f, hf⟩, g, hg, hsize⟩ := h start rfl
  simp only [minimizer, hf, hg, bind, Except.bind]
  exact loop_returns h _ _ _ (by simp) ⟨rfl, hsize⟩

section Confined

/-- What a search finds is one of its trials. -/
theorem search_found {probe : Float → Except Fault Probe} {budget left : Nat} {s : State}
    {step : Float} {p : Probe} (h : search probe budget s step = .ok (left, some p)) :
    ∃ step, probe step = .ok p := by
  induction budget generalizing s step with
  | zero => cases h
  | succ budget ih =>
      obtain ⟨trial, htrial, h⟩ := bind_eq_ok.mp h
      split at h
      · cases h
        exact ⟨step, htrial⟩
      · exact ih h

variable {value value' : Vec Float → Except Fault Float}
  {gradient gradient' : Vec Float → Except Fault (Vec Float)} {n : Nat} {v : Visit}

theorem descend_congr (hvalue : ∀ y, y.size = n → value' y = value y)
    (hgradient : ∀ y, y.size = n → gradient' y = gradient y) (first : Bool)
    (hv : v.point.size = n) {d : List Float} (hd : d.length = n) :
    descend value' gradient' first v d = descend value gradient first v d := by
  have hpoint (step : Float) : (⟨addMultiple v.point.toList step d⟩ : Vec Float).size = n :=
    length_addMultiple hv hd step
  unfold descend
  simp only [hvalue _ (hpoint _), hgradient _ (hpoint _)]

theorem descend_sized (hsize : ∀ y g, y.size = n → gradient y = .ok g → g.size = n)
    {first : Bool} (hv : v.point.size = n) {d : List Float} (hd : d.length = n) {used : Nat}
    {p : Probe} (h : descend value gradient first v d = .ok (used, some p)) :
    Sized n p.point p.gradient := by
  unfold descend at h
  dsimp only at h
  split at h
  · cases h
  · obtain ⟨⟨left, found⟩, hsearch, hfound⟩ := bind_eq_ok.mp h
    cases hfound
    obtain ⟨step, hprobe⟩ := search_found hsearch
    simp only [bind_eq_ok, pure_eq_ok] at hprobe
    obtain ⟨f, -, g, hg, rfl⟩ := hprobe
    have hpoint := length_addMultiple hv hd step
    exact ⟨hpoint, hsize _ g hpoint hg⟩

/-- The loop does not see what the function does at points of other
dimensions, and it ends at a point of the dimension. -/
theorem loop_confined (hvalue : ∀ y, y.size = n → value' y = value y)
    (hgradient : ∀ y, y.size = n → gradient' y = gradient y)
    (hsize : ∀ y g, y.size = n → gradient y = .ok g → g.size = n) {flat : Float}
    (budget evaluations : Nat) (first : Bool) {pairs : List Pair} (hpairs : ∀ p ∈ pairs, p.Fits n)
    (hv : Sized n v.point v.gradient) :
    Agree (fun found found' => found.1.size = n ∧ found' = found)
      (loop value gradient flat budget evaluations first pairs v)
      (loop value' gradient' flat budget evaluations first pairs v) := by
  induction budget generalizing evaluations first pairs v with
  | zero =>
      rw [loop, loop]
      exact ⟨hv.point, rfl⟩
  | succ budget ih =>
      have haccept (evaluations : Nat) {pairs : List Pair} (hpairs : ∀ p ∈ pairs, p.Fits n)
          {d : List Float} (hd : d.length = n) {p : Probe} (hp : Sized n p.point p.gradient) :
          Agree (fun found found' => found.1.size = n ∧ found' = found)
            (loop.accept value gradient flat budget evaluations pairs v d p)
            (loop.accept value' gradient' flat budget evaluations pairs v d p) := by
        rw [loop.accept, loop.accept]
        split
        · exact ⟨hp.point, rfl⟩
        · exact ih _ _ (learn_fits hpairs hv hd hp) ⟨hp.point, hp.gradient⟩
      have hd := length_direction hpairs hv.gradient
      have hsteepest : (direction [] v.gradient.toList).length = n :=
        length_direction (by simp) hv.gradient
      rw [loop, loop]
      simp only [descend_congr hvalue hgradient first hv.point hd,
        descend_congr hvalue hgradient first hv.point hsteepest]
      split
      · exact ⟨hv.point, rfl⟩
      split
      · exact ⟨hv.point, rfl⟩
      apply Agree.bind
      rintro ⟨used, found⟩ hdescend
      cases found with
      | some p => exact haccept _ hpairs hd (descend_sized hsize hv.point hd hdescend)
      | none =>
          dsimp only
          split
          · exact ⟨hv.point, rfl⟩
          apply Agree.bind
          rintro ⟨more, found⟩ hretry
          cases found with
          | some p =>
              exact haccept _ (by simp) hsteepest (descend_sized hsize hv.point hsteepest hretry)
          | none => exact ⟨hv.point, rfl⟩

/-- Whatever the settings are, the minimizer is confined to every dimension. -/
theorem minimizer_confined (settings : Settings Float) (n : Nat) :
    (minimizer settings).Confined n := by
  have hagree {f f' : Vec Float → Except Fault Float}
      {gradient gradient' : Vec Float → Except Fault (Vec Float)} {start : Vec Float}
      (hstart : start.size = n) (hvalue : ∀ y, y.size = n → f' y = f y)
      (hgradient : ∀ y, y.size = n → gradient' y = gradient y)
      (hsize : ∀ y g, y.size = n → gradient y = .ok g → g.size = n) :
      Agree (fun found found' => found.1.size = n ∧ found' = found)
        (minimizer settings f gradient start) (minimizer settings f' gradient' start) := by
    unfold minimizer
    rw [hvalue _ hstart, hgradient _ hstart]
    apply Agree.bind
    intro v _
    apply Agree.bind
    intro g hg
    exact loop_confined hvalue hgradient hsize _ _ _ (by simp) ⟨hstart, hsize _ g hstart hg⟩
  constructor
  · intro f f' gradient gradient' start hstart hvalue hgradient hsize
    have hsame := ((hagree hstart hvalue hgradient hsize).mono fun _ _ h => h.2).eq_map
    rwa [id_map'] at hsame
  · intro f gradient start x slope hstart hsize hfound
    have hfinds := hagree (f := f) hstart (fun _ _ => rfl) (fun _ _ => rfl) hsize
    rw [hfound] at hfinds
    obtain ⟨_, -, hx, -⟩ := hfinds.of_ok
    exact hx

end Confined

end Optima.QuasiNewton
