import Optima.Proofs.Period.Flat
import Optima.Proofs.Vector.Distinct

/-!
A trajectory and its flat vector determine each other. Component `i` of period `p` stands at place
`p * dimension + i`, splitting gives the states back, and a vector that can be split is what its
states are flattened to. The states that make a trajectory are those of one dimension; the first one
that has another dimension is named.
-/

namespace Optima.Trajectory

variable {α : Type}

/-- States of one dimension, one after the other, are split into themselves. -/
theorem split_flatMap {dimension : Nat} {vs : List (Vec α)} (h : ∀ v ∈ vs, v.size = dimension) :
    split dimension vs.length (vs.flatMap Vec.toList) = vs := by
  induction vs with
  | nil => rfl
  | cons v rest ih =>
      obtain ⟨hv, hrest⟩ := List.forall_mem_cons.mp h
      have hlength : v.toList.length = dimension := hv
      rw [List.flatMap_cons, List.length_cons, split, List.take_left' hlength,
        List.drop_left' hlength, ih hrest]

theorem states_eq_periodsOf (t : Trajectory α) :
    t.states = periodsOf t.dimension t.flatten t.periods := by
  rw [← split_eq_periodsOf]
  exact (split_flatMap fun v hv => size_of_mem_states hv).symm

/-- Joining the states and cutting them apart again gives the trajectory back. -/
theorem ofFlat_flatten (t : Trajectory α) :
    ofFlat t.flatten t.periods t.dimension = .ok t :=
  ofFlat_eq_ok.mpr ⟨size_flatten t, states_eq_periodsOf t⟩

/-- The states of a trajectory stand in a flat vector one after the other. -/
structure Stacked (t : Trajectory α) (z : Vec α) : Prop where
  size : z.size = t.periods * t.dimension
  /-- The segment of a period is its state. -/
  state {p : Nat} {v : Vec α} : t.states[p]? = some v → periodOf t.dimension z p = v
  component {p i : Nat} {v : Vec α} : t.states[p]? = some v → i < t.dimension →
    z.get (p * t.dimension + i : Nat) = v.get i

theorem periodOf_flatten {t : Trajectory α} {p : Nat} {v : Vec α} (h : t.states[p]? = some v) :
    periodOf t.dimension t.flatten p = v := by
  rw [states_eq_periodsOf, periodsOf, List.getElem?_map] at h
  obtain ⟨i, hi, hv⟩ := Option.map_eq_some_iff.mp h
  obtain ⟨hp, hrange⟩ := List.getElem?_eq_some_iff.mp hi
  rw [List.getElem_range] at hrange
  rwa [← hrange] at hv

/-- Component `i` of period `p` stands at position `p * dimension + i`. -/
theorem get_flatten {t : Trajectory α} {p i : Nat} {v : Vec α} (h : t.states[p]? = some v)
    (hi : i < t.dimension) : t.flatten.get (p * t.dimension + i : Nat) = v.get i := by
  have hstate := periodOf_flatten h
  have hsize : v.size = t.dimension := size_of_mem_states (List.mem_of_getElem? h)
  obtain ⟨x, hx⟩ : ∃ x, v.toList[i]? = some x :=
    ⟨_, List.getElem?_eq_getElem (hi.trans_eq hsize.symm)⟩
  have hplace : t.flatten.toList[p * t.dimension + i]? = some x := by
    rw [← hx, ← hstate, periodOf_eq, List.getElem?_take_of_lt hi, List.getElem?_drop]
  rw [Vec.get_natCast_eq_ok.mpr hplace, Vec.get_natCast_eq_ok.mpr hx]

theorem stacked_flatten (t : Trajectory α) : t.Stacked t.flatten where
  size := size_flatten t
  state := periodOf_flatten
  component := get_flatten

theorem ofFlat_refuses {z : Vec α} {periods dimension : Nat} (h : z.size ≠ periods * dimension) :
    ofFlat z periods dimension =
      .error (.mismatch (.flatSize z.size (.whole periods) (.whole dimension))) := by
  unfold ofFlat
  rw [if_neg (by simpa using h)]

/-- States make up a trajectory if there is one at least and all have one dimension. -/
theorem exists_ofStates_iff {vs : List (Vec α)} :
    (∃ t, ofStates vs = .ok t ∧ t.states = vs) ↔
      ∃ first, vs.head? = some first ∧ ∀ v ∈ vs, v.size = first.size := by
  constructor
  · rintro ⟨t, -, rfl⟩
    exact ⟨t.first, rfl, fun v hv => size_of_mem_states hv⟩
  · rintro ⟨first, hfirst, hsizes⟩
    cases vs with
    | nil => cases hfirst
    | cons head rest =>
        obtain rfl : head = first := by simpa using hfirst
        obtain ⟨-, huniform⟩ := List.forall_mem_cons.mp hsizes
        exact ⟨⟨head, rest, huniform⟩, ofStates_eq_ok.mpr rfl, rfl⟩

theorem misfit?_append {dimension period : Nat} {fitting after : List (Vec α)} {v : Vec α}
    (hfitting : ∀ w ∈ fitting, w.size = dimension) (hv : v.size ≠ dimension) :
    misfit? dimension period (fitting ++ v :: after) = some (period + fitting.length, v.size) := by
  induction fitting generalizing period with
  | nil =>
      rw [List.nil_append, misfit?, if_neg (by simpa using hv)]
      rfl
  | cons w rest ih =>
      obtain ⟨hw, hrest⟩ := List.forall_mem_cons.mp hfitting
      rw [List.cons_append, misfit?, if_pos (by simpa using hw), ih hrest, List.length_cons]
      simp only [Nat.add_assoc, Nat.add_comm 1]

/-- The first state that does not fit is reported with its period and both dimensions. -/
theorem ofStates_refuses {first v : Vec α} {fitting after : List (Vec α)}
    (hfitting : ∀ w ∈ fitting, w.size = first.size) (hv : v.size ≠ first.size) :
    ofStates (first :: fitting ++ v :: after) =
      .error (.mismatch (.periodSize (first :: fitting).length v.size first.size)) := by
  have hmisfit : misfit? first.size 1 (fitting ++ v :: after) = some (1 + fitting.length, v.size) :=
    misfit?_append hfitting hv
  rw [List.cons_append, ofStates]
  split
  · next hnone =>
      rw [hmisfit] at hnone
      cases hnone
  · next hsome =>
      rw [hmisfit] at hsome
      cases hsome
      rw [List.length_cons, Nat.add_comm]

variable [Scalar α]

/-- A trajectory compares equal to a copy of it unless some component is
undefined, which differs from itself. -/
theorem same_self_iff {t : Trajectory α} :
    t.same t = true ↔ ∀ v ∈ t.states, ∀ x ∈ v.toList, Scalar.Defined x := by
  have hstate (v : Vec α) : v.same v = true ↔ ∀ x ∈ v.toList, Scalar.Defined x :=
    Vec.same_iff_forall₂.trans List.forall₂_same
  simp only [same, beq_self_eq_true, Bool.true_and, List.zipWith_self, List.all_map,
    List.all_eq_true, Function.comp_apply, id, hstate]

/-- Flattening and splitting are inverse to each other. What is split out of a
flattened trajectory has the very states of that trajectory, and the two also
compare equal as long as no component is undefined. -/
theorem flatten_split_inverse :
    (∀ t : Trajectory α, t.Stacked t.flatten ∧
      ofFlat t.flatten t.periods t.dimension = .ok t ∧
      ∀ u, ofFlat t.flatten t.periods t.dimension = .ok u →
        (u.same t = true ↔ ∀ v ∈ t.states, ∀ x ∈ v.toList, Scalar.Defined x)) ∧
    (∀ (z : Vec α) (periods dimension : Nat), 1 ≤ periods →
      (z.size = periods * dimension → ∃ t, ofFlat z periods dimension = .ok t ∧
        t.periods = periods ∧ t.dimension = dimension ∧ t.flatten = z) ∧
      (z.size ≠ periods * dimension → ofFlat z periods dimension =
        .error (.mismatch (.flatSize z.size (.whole periods) (.whole dimension))))) ∧
    (∀ vs : List (Vec α), (∃ t, ofStates vs = .ok t ∧ t.states = vs) ↔
      ∃ first, vs.head? = some first ∧ ∀ v ∈ vs, v.size = first.size) ∧
    ofStates ([] : List (Vec α)) = .error (.misuse .noPeriods) ∧
    ∀ (first v : Vec α) (fitting after : List (Vec α)), (∀ w ∈ fitting, w.size = first.size) →
      v.size ≠ first.size → ofStates (first :: fitting ++ v :: after) =
        .error (.mismatch (.periodSize (first :: fitting).length v.size first.size)) := by
  refine ⟨fun t => ⟨stacked_flatten t, ofFlat_flatten t, fun u hu => ?_⟩,
    fun z periods dimension hperiods => ⟨fun hsize => ?_, ofFlat_refuses⟩,
    fun vs => exists_ofStates_iff, rfl, fun _ _ _ _ => ofStates_refuses⟩
  · rw [ofFlat_flatten] at hu
    cases hu
    exact same_self_iff
  · obtain ⟨t, ht⟩ := exists_ofFlat hperiods hsize
    exact ⟨t, ht, periods_of_ofFlat ht, dimension_of_ofFlat ht, flatten_of_ofFlat ht⟩

def steps : Trajectory Float where
  first := ⟨[1.0, 2.0]⟩
  rest := [⟨[3.0, 4.0]⟩, ⟨[5.0, -0.0]⟩]
  uniform := by decide

/-- The fourth place of six holds the second component of the second state. A
state that loses a component is named by its period. -/
theorem steps_round_trip :
    (steps.states[1]? = some ⟨[3.0, 4.0]⟩ ∧ 1 < steps.dimension ∧
      steps.flatten.get 3 = .ok 4.0) ∧
    (∃ u, ofFlat steps.flatten 3 2 = .ok u ∧ u.same steps = true) ∧
    ((⟨[7.0, 8.0, 9.0]⟩ : Vec Float).size = 3 * 1 ∧
      ∃ t, ofFlat (⟨[7.0, 8.0, 9.0]⟩ : Vec Float) 3 1 = .ok t ∧
        t.flatten = ⟨[7.0, 8.0, 9.0]⟩) ∧
    ((⟨[7.0, 8.0, 9.0]⟩ : Vec Float).size ≠ 2 * 2 ∧
      ofFlat (⟨[7.0, 8.0, 9.0]⟩ : Vec Float) 2 2 =
        .error (.mismatch (.flatSize 3 (.whole 2) (.whole 2)))) ∧
    ofStates [(⟨[1.0, 2.0]⟩ : Vec Float), ⟨[3.0, 4.0]⟩, ⟨[5.0]⟩, ⟨[]⟩] =
      .error (.mismatch (.periodSize 2 1 2)) := by
  obtain ⟨htrajectory, hflat, -, -, hmisfit⟩ := flatten_split_inverse (α := Float)
  obtain ⟨hstacked, hsplit, hsame⟩ := htrajectory steps
  have hstate : steps.states[1]? = some ⟨[3.0, 4.0]⟩ := rfl
  have hplace : 1 < steps.dimension := by decide
  have hdefined : ∀ v ∈ steps.states, ∀ x ∈ v.toList, Scalar.Defined x := by
    unfold Scalar.Defined
    decide
  have hsize : (⟨[7.0, 8.0, 9.0]⟩ : Vec Float).size = 3 * 1 := rfl
  have hsize' : (⟨[7.0, 8.0, 9.0]⟩ : Vec Float).size ≠ 2 * 2 := by decide
  obtain ⟨t, ht, -, -, hflatten⟩ := (hflat _ 3 1 (by decide)).1 hsize
  exact ⟨⟨hstate, hplace, hstacked.component hstate hplace⟩,
    ⟨steps, hsplit, (hsame steps hsplit).mpr hdefined⟩, ⟨hsize, t, ht, hflatten⟩,
    ⟨hsize', (hflat _ 2 2 (by decide)).2 hsize'⟩,
    hmisfit ⟨[1.0, 2.0]⟩ ⟨[5.0]⟩ [⟨[3.0, 4.0]⟩] [⟨[]⟩] (by decide) (by decide)⟩

end Optima.Trajectory
