import Mathlib.Data.List.Basic
import Optima.Period.Constraint

/-!
A flat vector and the states in it. The trajectory of a flat vector exists exactly when the extents
multiply to its size and there is at least one period; its states are then the segments that the
lowered constraints read, and one after the other they make up the vector again.
-/

namespace Optima

variable {α : Type}

namespace Trajectory

theorem eq_of_states {t u : Trajectory α} (h : t.states = u.states) : t = u := by
  obtain ⟨first, rest, _⟩ := t
  obtain ⟨first', rest', _⟩ := u
  obtain ⟨rfl, rfl⟩ : first = first' ∧ rest = rest' := by simpa [states] using h
  rfl

theorem rest_eq_tail (t : Trajectory α) : t.rest = t.states.tail := rfl

theorem getLast?_states (t : Trajectory α) : t.states.getLast? = some t.last := by
  unfold states last
  rw [List.getLast?_cons]

theorem misfit?_eq_none {dimension period : Nat} {vs : List (Vec α)}
    (h : ∀ v ∈ vs, v.size = dimension) : misfit? dimension period vs = none := by
  induction vs generalizing period with
  | nil => rfl
  | cons v rest ih =>
      have hv : (v.size == dimension) = true := by simpa using h v (by simp)
      simp only [misfit?, hv, if_true]
      exact ih fun w hw => h w (by simp [hw])

/-- States make a trajectory exactly when they are the states of one. -/
theorem ofStates_eq_ok {vs : List (Vec α)} {t : Trajectory α} :
    ofStates vs = .ok t ↔ t.states = vs := by
  constructor
  · intro h
    cases vs with
    | nil => cases h
    | cons first rest =>
        simp only [ofStates] at h
        split at h
        · cases h
          rfl
        · cases h
  · rintro rfl
    simp only [states, ofStates]
    split
    · rfl
    · next hmisfit =>
        rw [misfit?_eq_none t.uniform] at hmisfit
        cases hmisfit

end Trajectory

/-- A state of the flat vector is what follows the states before it. -/
theorem periodOf_eq (dimension : Nat) (z : Vec α) (period : Nat) :
    periodOf dimension z period =
      ⟨(z.toList.drop (period * dimension)).take dimension⟩ := by
  rw [periodOf_natCast, Vec.segment, List.drop_take, Nat.succ_mul, Nat.add_sub_cancel_left]

theorem size_periodOf {z : Vec α} {periods dimension t : Nat} (hsize : z.size = periods * dimension)
    (ht : t < periods) : (periodOf dimension z t).size = dimension := by
  have hend : (t + 1) * dimension ≤ periods * dimension := Nat.mul_le_mul_right _ ht
  have hlength : z.toList.length = periods * dimension := hsize
  rw [Nat.succ_mul] at hend
  unfold Vec.size
  rw [periodOf_eq, List.length_take, List.length_drop]
  omega

@[simp] theorem length_periodsOf (dimension : Int) (z : Vec α) (count : Nat) :
    (periodsOf dimension z count).length = count := by
  simp [periodsOf]

theorem split_eq_periodsOf (dimension count : Nat) (z : Vec α) :
    Trajectory.split dimension count z.toList = periodsOf dimension z count := by
  induction count generalizing z with
  | zero => rfl
  | succ count ih =>
      have hfirst : periodOf dimension z (0 : Nat) = ⟨z.toList.take dimension⟩ := by
        rw [periodOf_eq, Nat.zero_mul, List.drop_zero]
      -- Dropping a state moves all further ones forward by one period.
      have hshift (t : Nat) :
          periodOf dimension ⟨z.toList.drop dimension⟩ t = periodOf dimension z (t + 1 : Nat) := by
        rw [periodOf_eq, periodOf_eq, List.drop_drop, Nat.succ_mul, Nat.add_comm dimension]
      have hrest := ih ⟨z.toList.drop dimension⟩
      simp only [Trajectory.split, hrest, periodsOf, List.range_succ_eq_map, List.map_cons,
        List.map_map, hshift, hfirst]
      rfl

/-- The first states, one after the other, are the beginning of the vector. -/
theorem flatMap_periodsOf (dimension count : Nat) (z : Vec α) :
    (periodsOf dimension z count).flatMap Vec.toList = z.toList.take (count * dimension) := by
  induction count with
  | zero => simp [periodsOf]
  | succ count ih =>
      have hsucc : periodsOf dimension z (count + 1) =
          periodsOf dimension z count ++ [periodOf dimension z count] := by
        simp [periodsOf, List.range_succ]
      rw [hsucc, List.flatMap_append, ih, List.flatMap_singleton, periodOf_eq, Nat.succ_mul,
        List.take_add]

namespace Trajectory

/-- A flat vector of the right size has a trajectory with its segments as
states, and no other vector has one. -/
theorem ofFlat_eq_ok {z : Vec α} {periods dimension : Nat} {t : Trajectory α} :
    ofFlat z periods dimension = .ok t ↔
      z.size = periods * dimension ∧ t.states = periodsOf dimension z periods := by
  unfold ofFlat
  split
  · next hsize =>
      rw [ofStates_eq_ok, split_eq_periodsOf]
      simp only [beq_iff_eq] at hsize
      exact ⟨fun h => ⟨hsize, h⟩, fun h => h.2⟩
  · next hsize =>
      simp only [beq_iff_eq] at hsize
      constructor
      · intro h
        cases h
      · rintro ⟨h, -⟩
        exact absurd h hsize

/-- A vector of the right length can always be cut into states. -/
theorem exists_ofFlat {z : Vec α} {periods dimension : Nat} (hperiods : 1 ≤ periods)
    (hsize : z.size = periods * dimension) : ∃ t, ofFlat z periods dimension = .ok t := by
  have hsizes : ∀ v ∈ periodsOf dimension z periods, v.size = dimension := by
    intro v hv
    obtain ⟨t, ht, rfl⟩ := List.mem_map.mp hv
    exact size_periodOf hsize (List.mem_range.mp ht)
  cases hstates : periodsOf dimension z periods with
  | nil =>
      have hcount := length_periodsOf dimension z periods
      rw [hstates] at hcount
      simp only [List.length_nil] at hcount
      omega
  | cons first rest =>
      rw [hstates] at hsizes
      have hfirst : first.size = dimension := hsizes first (by simp)
      have huniform : ∀ v ∈ rest, v.size = first.size := by
        intro v hv
        rw [hfirst]
        exact hsizes v (by simp [hv])
      exact ⟨⟨first, rest, huniform⟩, ofFlat_eq_ok.mpr ⟨hsize, hstates.symm⟩⟩

theorem periods_of_ofFlat {z : Vec α} {periods dimension : Nat} {t : Trajectory α}
    (h : ofFlat z periods dimension = .ok t) : t.periods = periods := by
  unfold Trajectory.periods
  rw [(ofFlat_eq_ok.mp h).2, length_periodsOf]

theorem size_of_mem_states {t : Trajectory α} {v : Vec α} (h : v ∈ t.states) :
    v.size = t.dimension := by
  rcases List.mem_cons.mp h with rfl | h
  · rfl
  · exact t.uniform v h

theorem size_flatten (t : Trajectory α) : t.flatten.size = t.periods * t.dimension := by
  have hlength : ∀ vs : List (Vec α), (∀ v ∈ vs, v.size = t.dimension) →
      (vs.flatMap Vec.toList).length = vs.length * t.dimension := by
    intro vs hvs
    induction vs with
    | nil => simp
    | cons v rest ih =>
        obtain ⟨hv, hrest⟩ := List.forall_mem_cons.mp hvs
        have hfirst : v.toList.length = t.dimension := hv
        rw [List.flatMap_cons, List.length_append, hfirst, ih hrest, List.length_cons,
          Nat.succ_mul, Nat.add_comm]
  exact hlength t.states fun v hv => size_of_mem_states hv

theorem dimension_of_ofFlat {z : Vec α} {periods dimension : Nat} {t : Trajectory α}
    (h : ofFlat z periods dimension = .ok t) : t.dimension = dimension := by
  obtain ⟨hsize, hstates⟩ := ofFlat_eq_ok.mp h
  have hfirst : t.first ∈ periodsOf dimension z periods := by
    rw [← hstates]
    exact List.mem_cons_self
  obtain ⟨i, hi, hstate⟩ := List.mem_map.mp hfirst
  unfold Trajectory.dimension
  rw [← hstate]
  exact size_periodOf hsize (List.mem_range.mp hi)

/-- Cutting a vector into states and joining them again gives the vector back. -/
theorem flatten_of_ofFlat {z : Vec α} {periods dimension : Nat} {t : Trajectory α}
    (h : ofFlat z periods dimension = .ok t) : t.flatten = z := by
  obtain ⟨hsize, hstates⟩ := ofFlat_eq_ok.mp h
  have hlength : z.toList.length = periods * dimension := hsize
  unfold flatten
  rw [hstates, flatMap_periodsOf, ← hlength, List.take_length]

end Trajectory

end Optima
