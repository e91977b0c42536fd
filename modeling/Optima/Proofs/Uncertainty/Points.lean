import Optima.Optimizer.Robust
import Optima.Proofs.Scalar.Quantity
import Optima.Proofs.Solver.CheckedSettings

/-!
Finite sets of points as given. All points of an accepted set are finite and have the components of
the first one, and the point that an accepted index names is one of them. Such a point passes the
check for nominal parameters unchanged.
-/

namespace Optima

theorem PointSet.of_ofPoints {points : List (Vec Float)} {set : PointSet Float}
    (h : PointSet.ofPoints points = .ok set) : set.points = points := by
  cases points with
  | nil => cases h
  | cons first rest =>
      simp only [ofPoints] at h
      split at h
      · cases h
        rfl
      · cases h

theorem PointSet.size_eq {set : PointSet Float} {q : Vec Float} (hq : q ∈ set.points) :
    q.size = set.first.size := by
  rcases List.mem_cons.mp hq with rfl | hq
  · rfl
  · exact set.uniform q hq

theorem PointSet.furtherPoint_finite {dimension : Nat} {item : Datum × Nat} {q : Vec Float}
    (h : PointSet.furtherPoint dimension item = .ok q) : q.isFinite = true := by
  simp only [furtherPoint] at h
  split at h
  · cases h
  · exact (Check.of_flatArray h).2.1

/-- All points of an accepted set are finite, and they have components. -/
theorem PointSet.of_ofDatum {points : Datum} {set : PointSet Float}
    (h : PointSet.ofDatum points = .ok set) :
    ∀ q ∈ set.points, q.isFinite = true ∧ q.toList.isEmpty = false := by
  simp only [ofDatum, bind_eq_ok] at h
  obtain ⟨items, -, h⟩ := h
  cases items with
  | nil => exact absurd h throw_ne_ok
  | cons item others =>
      obtain ⟨item', -, h⟩ := bind_eq_ok.mp h
      obtain ⟨first, hfirst, h⟩ := bind_eq_ok.mp h
      obtain ⟨rest, hrest, h⟩ := bind_eq_ok.mp h
      obtain ⟨hcomponents, hfinite⟩ := Check.of_array hfirst
      have hpoints := of_ofPoints h
      have hhead : set.first = first := (List.cons.inj hpoints).1
      intro q hq
      constructor
      · rw [hpoints] at hq
        rcases List.mem_cons.mp hq with rfl | hq
        · exact hfinite
        · obtain ⟨_, -, hfurther⟩ := (mem_of_mapM hrest q).mp hq
          exact furtherPoint_finite hfurther
      · have hsize : q.toList.length = set.first.toList.length := size_eq hq
        rw [List.isEmpty_eq_false_iff, ← List.length_pos_iff] at hcomponents ⊢
        rw [hsize, hhead]
        exact hcomponents

theorem nominalPoint_mem {set : PointSet Float} {index : Datum} {nominal : Vec Float}
    (h : nominalPoint set index = .ok (.ok nominal)) : nominal ∈ set.points := by
  simp only [nominalPoint] at h
  split at h
  · split at h
    · obtain ⟨_, hthrow, -⟩ := bind_eq_ok.mp h
      exact absurd hthrow throw_ne_ok
    · obtain ⟨i, -, hpoint⟩ := bind_eq_ok.mp (Except.ok.inj h)
      rw [← pure_eq_ok.mp hpoint, List.getD_eq_getElem?_getD]
      cases hplace : set.points[i.toNat]? with
      | none => exact List.mem_cons_self
      | some q => exact List.mem_of_getElem? hplace
  · exact absurd h throw_ne_ok

/-- A finite vector with components passes the check for its own dimension. -/
theorem Check.arrayOf_vector {v : Vec Float} (hfinite : v.isFinite = true)
    (hcomponents : v.toList.isEmpty = false) (name : String) :
    Check.arrayOf v.size (.vector v.toList) name = .ok v := by
  have htensor : Tensor.ofDatum (.vector v.toList) = .ok ⟨[v.size], v.toList⟩ := rfl
  have hsize : (v.toList.length == 0) = false := by
    rw [beq_eq_false_iff_ne]
    exact (List.length_pos_iff.mpr (List.isEmpty_eq_false_iff.mp hcomponents)).ne'
  have hsame : (Datum.whole v.size).same (.whole v.toList.length) = true :=
    Datum.whole_same_whole_iff.mpr rfl
  have hall : v.toList.all Float.isFinite = true := hfinite
  have hflat : ¬ 1 < [v.size].length := by simp
  simp only [Check.arrayOf, Check.flatArray, htensor, bind, Except.bind, hflat, if_false, hsize,
    hsame, hall, Bool.not_true, Bool.not_false, Bool.and_false, Bool.false_eq_true]
  rfl

end Optima
