import Mathlib.Data.List.Induction
import Optima.Proofs.Robust.Worst
import Optima.Proofs.Vector.Distinct

/-!
Which point attains the worst case. One more point changes the worst case only if it is strictly
worse, so the worst case is attained at the first of the points whose value equals it. If an
objective has equal values at equal points, repetitions can be left out: the worst case stays the
same, at the same point.
-/

namespace Optima

open Scalar Ranked

variable {α : Type} [Scalar α] {sense : Sense} {objective : Vec α → Vec α → Except Fault α}
  {x : Vec α} {points : List (Vec α)} {w : α} {p : Vec α}

/-- The worst case of one point is its value. -/
theorem worstCase_singleton {r : α × Vec α} :
    worstCase sense objective x [p] = .ok r ↔ ∃ v, objective x p = .ok v ∧ (v, p) = r := by
  obtain ⟨w, q⟩ := r
  simp only [worstCase_eq_ok, casesAt, List.mapM_cons, List.mapM_nil, bind_eq_ok, pure_eq_ok]
  constructor
  · rintro ⟨_, _, ⟨_, ⟨v, hv, rfl⟩, _, rfl, hlisted⟩, hfold⟩
    cases hlisted
    exact ⟨v, hv, hfold⟩
  · rintro ⟨v, hv, hpair⟩
    exact ⟨(v, p), [], ⟨(v, p), ⟨v, hv, rfl⟩, [], rfl, rfl⟩, hpair⟩

/-- One more point is compared with the worst case so far. -/
theorem worstCase_append_singleton {r : α × Vec α} (hpoints : points ≠ []) :
    worstCase sense objective x (points ++ [p]) = .ok r ↔
      ∃ c v, worstCase sense objective x points = .ok c ∧ objective x p = .ok v ∧
        sense.worseCase c (v, p) = r := by
  obtain ⟨w, q⟩ := r
  have hsplit {listed : List (α × Vec α)} : casesAt objective x (points ++ [p]) = .ok listed ↔
      ∃ earlier v, casesAt objective x points = .ok earlier ∧ objective x p = .ok v ∧
        earlier ++ [(v, p)] = listed := by
    simp only [casesAt, List.mapM_append, List.mapM_cons, List.mapM_nil, bind_eq_ok, pure_eq_ok]
    constructor
    · rintro ⟨earlier, hearlier, _, ⟨_, ⟨v, hv, rfl⟩, _, rfl, rfl⟩, rfl⟩
      exact ⟨earlier, v, hearlier, hv, rfl⟩
    · rintro ⟨earlier, v, hearlier, hv, rfl⟩
      exact ⟨earlier, hearlier, [(v, p)], ⟨(v, p), ⟨v, hv, rfl⟩, [], rfl, rfl⟩, rfl⟩
  rw [worstCase_eq_ok]
  constructor
  · rintro ⟨first, rest, hcases, hfold⟩
    obtain ⟨earlier, v, hearlier, hv, happend⟩ := hsplit.mp hcases
    cases earlier with
    | nil =>
        have hlength := (mapM_eq_ok.mp hearlier).length_eq
        exact absurd (List.eq_nil_of_length_eq_zero hlength) hpoints
    | cons first' rest' =>
        cases happend
        change (rest' ++ [(v, p)]).foldl sense.worseCase first = (w, q) at hfold
        rw [List.foldl_append] at hfold
        exact ⟨_, v, worstCase_eq_ok.mpr ⟨first, rest', hearlier, rfl⟩, hv, hfold⟩
  · rintro ⟨⟨w', q'⟩, v, hworst, hv, hworse⟩
    obtain ⟨first, rest, hearlier, hfold⟩ := worstCase_eq_ok.mp hworst
    refine ⟨first, rest ++ [(v, p)], hsplit.mpr ⟨first :: rest, v, hearlier, hv, rfl⟩, ?_⟩
    rw [List.foldl_append, hfold]
    exact hworse

section Ranks

variable [Ranked α]

/-- What is strictly worse than a value equals nothing that is no worse. -/
theorem Sense.same_of_isWorse {u v w : α} (hworse : sense.isWorse v w = true)
    (hle : sense.NoWorse (rank u) (rank w)) : same u v = false := by
  rw [← Bool.not_eq_true]
  intro hsame
  obtain ⟨-, -, hrank⟩ := (same_iff u v).mp hsame
  cases sense with
  | minimize =>
      obtain ⟨-, -, hless⟩ := (less_iff w v).mp hworse
      exact absurd (hrank ▸ hle) (not_le.mpr hless)
  | maximize =>
      obtain ⟨-, -, hless⟩ := (less_iff v w).mp hworse
      exact absurd (hrank ▸ hle) (not_le.mpr hless)

/-- No point before the one that attains the worst case has a value that equals
it. -/
theorem worstCase_first (hdefined : ∀ q ∈ points, ∀ v, objective x q = .ok v → Defined v)
    (h : worstCase sense objective x points = .ok (w, p)) :
    ∃ before after, points = before ++ p :: after ∧
      ∀ q ∈ before, ∀ v, objective x q = .ok v → same v w = false := by
  induction points using List.reverseRecOn generalizing w p with
  | nil => cases h
  | append_singleton points last ih =>
      by_cases hpoints : points = []
      · subst hpoints
        obtain ⟨_, _, hpair⟩ := worstCase_singleton.mp h
        cases hpair
        exact ⟨[], [], rfl, by simp⟩
      · have hearlier : ∀ q ∈ points, ∀ v, objective x q = .ok v → Defined v :=
          fun q hq => hdefined q (List.mem_append_left _ hq)
        obtain ⟨⟨w', p'⟩, v, hworst, hv, hcase⟩ := (worstCase_append_singleton hpoints).mp h
        obtain ⟨hp', hw', hbound⟩ := worstCase_spec hearlier hworst
        rw [Sense.worseCase_eq (hearlier p' hp' w' hw') (hdefined last (by simp) v hv)] at hcase
        split at hcase
        · next hworse =>
            cases hcase
            refine ⟨points, [], rfl, ?_⟩
            intro q hq u hu
            obtain ⟨u', hu', hle⟩ := hbound q hq
            rw [hu] at hu'
            cases hu'
            exact Sense.same_of_isWorse hworse hle
        · cases hcase
          obtain ⟨before, after, rfl, hbefore⟩ := ih hearlier hworst
          exact ⟨before, after ++ [last], by simp, hbefore⟩

/-- A point whose value equals the value of a listed one does not change the
worst case. -/
theorem worseCase_of_same {v u : α} {q : Vec α}
    (hdefined : ∀ q ∈ points, ∀ v, objective x q = .ok v → Defined v)
    (hworst : worstCase sense objective x points = .ok (w, p)) (hq : q ∈ points)
    (hu : objective x q = .ok u) (hsame : same v u = true) (last : Vec α) :
    sense.worseCase (w, p) (v, last) = (w, p) := by
  obtain ⟨hp, hw, hbound⟩ := worstCase_spec hdefined hworst
  obtain ⟨hv, -, hrank⟩ := (same_iff v u).mp hsame
  have hwdefined := hdefined p hp w hw
  obtain ⟨u', hu', hle⟩ := hbound q hq
  rw [hu] at hu'
  cases hu'
  rw [← hrank] at hle
  rw [Sense.worseCase_eq hwdefined hv, (sense.isWorse_iff hv hwdefined).mpr hle]
  rfl

/-- Points that equal earlier ones do not matter to an objective that has equal
values at equal points. -/
theorem worstCase_of_distinct
    (hvalues : ∀ q ∈ points, ∃ v, objective x q = .ok v)
    (hequal : ∀ p ∈ points, ∀ q ∈ points, p.same q = true → ∀ v w, objective x p = .ok v →
      objective x q = .ok w → same v w = true)
    (hdefined : ∀ q ∈ points, ∀ v, objective x q = .ok v → Defined v)
    (h : worstCase sense objective x (Vec.distinct points) = .ok (w, p)) :
    worstCase sense objective x points = .ok (w, p) := by
  induction points using List.reverseRecOn generalizing w p with
  | nil => exact h
  | append_singleton points last ih =>
      by_cases hpoints : points = []
      · subst hpoints
        exact h
      · have hleft {q : Vec α} (hq : q ∈ points) : q ∈ points ++ [last] :=
          List.mem_append_left _ hq
        have hlast : last ∈ points ++ [last] := by simp
        have hearlier {w : α} {p : Vec α} :
            worstCase sense objective x (Vec.distinct points) = .ok (w, p) →
              worstCase sense objective x points = .ok (w, p) :=
          ih (fun q hq => hvalues q (hleft hq))
            (fun p hp q hq => hequal p (hleft hp) q (hleft hq))
            fun q hq => hdefined q (hleft hq)
        rw [worstCase_append_singleton hpoints]
        rw [Vec.distinct_append_singleton] at h
        split at h
        · next hany =>
            obtain ⟨u, hu, hsame⟩ := List.any_eq_true.mp hany
            have hmember := Vec.mem_of_mem_distinct hu
            obtain ⟨v, hv⟩ := hvalues last hlast
            obtain ⟨v', hv'⟩ := hvalues u (hleft hmember)
            have hvalue := hequal last hlast u (hleft hmember) hsame v v' hv hv'
            exact ⟨(w, p), v, hearlier h, hv, worseCase_of_same
              (fun q hq => hdefined q (hleft hq)) (hearlier h) hmember hv' hvalue last⟩
        · obtain ⟨c, v, hc, hv, hcase⟩ :=
            (worstCase_append_singleton (Vec.distinct_ne_nil hpoints)).mp h
          exact ⟨c, v, hearlier hc, hv, hcase⟩

end Ranks

end Optima
