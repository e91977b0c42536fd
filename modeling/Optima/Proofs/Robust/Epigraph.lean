import Optima.Proofs.Robust.Worst
import Optima.Proofs.Solver.Duality
import Optima.Robust.Epigraph

/-!
The lifted problem is the problem of the worst case, in exact arithmetic. A lifted decision is
feasible exactly when its decision is and its bound holds at every point; it is optimal exactly when
its decision is the best one in the worst case and its bound is that worst case. The step between
the two is that the bound of a feasible decision can always be tightened to the worst case.
-/

namespace Optima

/-- A decision and a bound behind it. -/
def Vec.extend {α : Type} (x : Vec α) (t : α) : Vec α := ⟨x.toList ++ [t]⟩

namespace Vec

variable {α : Type} {x : Vec α} {t : α}

theorem size_extend : (x.extend t).size = x.size + 1 := by
  simp [extend, size]

/-- Every vector of the next dimension is a decision with a bound. -/
theorem exists_eq_extend {z : Vec α} {n : Nat} (h : z.size = n + 1) :
    ∃ (x : Vec α) (t : α), x.size = n ∧ z = x.extend t := by
  have hne : z.toList ≠ [] := by
    intro hnil
    simp [size, hnil] at h
  refine ⟨⟨z.toList.dropLast⟩, z.toList.getLast hne, ?_, ?_⟩
  · change z.toList.length = n + 1 at h
    change z.toList.dropLast.length = n
    rw [List.length_dropLast, h, Nat.add_sub_cancel]
  · unfold extend
    rw [List.dropLast_append_getLast]

end Vec

theorem decisionOf_extend {α : Type} {x : Vec α} {n : Nat} (h : x.size = n) (t : α) :
    decisionOf n (x.extend t) = x := by
  subst h
  simp [decisionOf, Vec.segment, Vec.extend, Vec.size]

theorem boundOf_extend {α : Type} [Scalar α] {x : Vec α} {n : Nat} (h : x.size = n) (t : α) :
    boundOf n (x.extend t) = .ok t := by
  subst h
  apply Vec.get_natCast_eq_ok.mpr
  simp [Vec.extend, Vec.size]

theorem liftedStart_eq_ok {α : Type} [Scalar α] {sense : Sense}
    {objective : Vec α → Vec α → Except Fault α} {points : List (Vec α)} {x z : Vec α} :
    liftedStart sense objective points x = .ok z ↔
      ∃ w p, worstCase sense objective x points = .ok (w, p) ∧ x.extend w = z := by
  simp only [liftedStart, bind_eq_ok, pure_eq_ok, Prod.exists]
  rfl

theorem residual_boundAt {α : Type} [Scalar α] {dimension : Nat} {sense : Sense}
    {objective : Vec α → Vec α → Except Fault α} {x : Vec α} {t : α} (hx : x.size = dimension)
    (p : Vec α) (r : α) :
    (boundAt dimension sense objective p).residual (x.extend t) = .ok r ↔
      ∃ v, objective x p = .ok v ∧ sense.sign * (v - t) = r := by
  simp only [boundAt, bind_eq_ok, pure_eq_ok, decisionOf_extend hx, boundOf_extend hx,
    Except.ok.injEq, exists_eq_left']

/-- Every constraint of a list holds exactly. -/
def Constraint.AllHold (cs : List (Constraint ℝ)) (x : Vec ℝ) : Prop :=
  ∀ c ∈ cs, ∃ r, c.residual x = .ok r ∧ c.relation.Holds r

/-- A feasible point that no feasible point of its dimension improves on. -/
def Problem.Optimal (problem : Problem ℝ) (x : Vec ℝ) : Prop :=
  problem.Feasible x ∧ ∃ v, problem.objective x = .ok v ∧
    ∀ y w, y.size = x.size → problem.Feasible y → problem.objective y = .ok w →
      problem.weight * v ≤ problem.weight * w

theorem Sense.sign_mul_le_iff (sense : Sense) (v w : ℝ) :
    sense.sign * v ≤ sense.sign * w ↔ sense.NoWorse v w := by
  cases sense with
  | minimize => simp [Sense.sign, Sense.NoWorse]
  | maximize => simp [Sense.sign, Sense.NoWorse]

theorem Sense.sign_mul_sub_nonpos_iff (sense : Sense) (v w : ℝ) :
    sense.sign * (v - w) ≤ 0 ↔ sense.NoWorse v w := by
  rw [mul_sub, sub_nonpos, sign_mul_le_iff]

section Lifted

variable {dimension : Nat} {sense : Sense} {objective : Vec ℝ → Vec ℝ → Except Fault ℝ}
  {constraints : List (Constraint ℝ)} {points : List (Vec ℝ)} {x : Vec ℝ} {t : ℝ}

/-- A lifted decision is feasible exactly when its decision is and its bound
holds at every point. -/
theorem epigraph_feasible_iff (hx : x.size = dimension) :
    (epigraph dimension sense objective constraints points).Feasible (x.extend t) ↔
      Constraint.AllHold constraints x ∧
        ∀ p ∈ points, ∃ v, objective x p = .ok v ∧ sense.NoWorse v t := by
  have hbound (p : Vec ℝ) :
      (∃ r, (boundAt dimension sense objective p).residual (x.extend t) = .ok r ∧ r ≤ 0) ↔
        ∃ v, objective x p = .ok v ∧ sense.NoWorse v t := by
    simp only [residual_boundAt hx]
    constructor
    · rintro ⟨_, ⟨v, hv, rfl⟩, hle⟩
      exact ⟨v, hv, (sense.sign_mul_sub_nonpos_iff v t).mp hle⟩
    · rintro ⟨v, hv, hle⟩
      exact ⟨_, ⟨v, hv, rfl⟩, (sense.sign_mul_sub_nonpos_iff v t).mpr hle⟩
  simp only [Problem.Feasible, epigraph, List.forall_mem_append, List.forall_mem_map,
    Constraint.AllHold]
  refine and_congr ?_ (forall₂_congr fun p _ => hbound p)
  simp only [Constraint.lift, decisionOf_extend hx]

/-- The worst case is a bound for its decision, the tightest one. -/
theorem epigraph_feasible_worst (hx : x.size = dimension)
    (hhold : Constraint.AllHold constraints x) {w : ℝ} {p : Vec ℝ}
    (hworst : worstCase sense objective x points = .ok (w, p)) :
    (epigraph dimension sense objective constraints points).Feasible (x.extend w) :=
  (epigraph_feasible_iff hx).mpr ⟨hhold, (Exact.worstCase_iff.mp ⟨p, hworst⟩).2⟩

/-- A bound that is feasible at all points is no better than the worst of them. -/
theorem worst_noWorse_of_feasible (hx : x.size = dimension) (hpoints : points ≠ [])
    (h : (epigraph dimension sense objective constraints points).Feasible (x.extend t)) :
    ∃ w p, worstCase sense objective x points = .ok (w, p) ∧ sense.NoWorse w t := by
  obtain ⟨-, hbound⟩ := (epigraph_feasible_iff hx).mp h
  obtain ⟨w, p, hworst⟩ := worstCase_succeeds sense hpoints
    fun q hq => (hbound q hq).imp fun _ hv => hv.1
  obtain ⟨⟨q, hq, hw⟩, -⟩ := Exact.worstCase_iff.mp ⟨p, hworst⟩
  obtain ⟨v, hv, hle⟩ := hbound q hq
  rw [hw] at hv
  cases hv
  exact ⟨w, p, hworst, hle⟩

/-- The start of a lifted solve: all bounds hold, and one of them is tight. -/
theorem liftedStart_feasible (hx : x.size = dimension) (hpoints : points ≠ [])
    (hvalues : ∀ p ∈ points, ∃ v, objective x p = .ok v) :
    ∃ bound, liftedStart sense objective points x = .ok (x.extend bound) ∧
      (∀ p ∈ points, ∃ r,
        (boundAt dimension sense objective p).residual (x.extend bound) = .ok r ∧ r ≤ 0) ∧
      ∃ p ∈ points, (boundAt dimension sense objective p).residual (x.extend bound) = .ok 0 := by
  obtain ⟨w, p, hworst⟩ := worstCase_succeeds sense hpoints hvalues
  obtain ⟨⟨q, hq, hw⟩, hbound⟩ := Exact.worstCase_iff.mp ⟨p, hworst⟩
  refine ⟨w, ?_, ?_, q, hq, ?_⟩
  · exact liftedStart_eq_ok.mpr ⟨w, p, hworst, rfl⟩
  · intro q' hq'
    obtain ⟨v, hv, hle⟩ := hbound q' hq'
    exact ⟨_, (residual_boundAt hx q' _).mpr ⟨v, hv, rfl⟩,
      (sense.sign_mul_sub_nonpos_iff v w).mpr hle⟩
  · exact (residual_boundAt hx q 0).mpr ⟨w, hw, by rw [sub_self, mul_zero]⟩

/-- A lifted point is optimal if its bound is tight and no decision has a better worst case. -/
theorem epigraph_optimal_iff (hx : x.size = dimension) (hpoints : points ≠ []) :
    (epigraph dimension sense objective constraints points).Optimal (x.extend t) ↔
      Constraint.AllHold constraints x ∧
      (∃ p, worstCase sense objective x points = .ok (t, p)) ∧
      ∀ y w q, y.size = dimension → Constraint.AllHold constraints y →
        worstCase sense objective y points = .ok (w, q) → sense.NoWorse t w := by
  have hvalue {y : Vec ℝ} (hy : y.size = dimension) (s : ℝ) :
      (epigraph dimension sense objective constraints points).objective (y.extend s) = .ok s :=
    boundOf_extend hy s
  constructor
  · rintro ⟨hfeasible, v, hv, hleast⟩
    rw [hvalue hx] at hv
    cases hv
    have hnoWorse {y : Vec ℝ} {w : ℝ} {q : Vec ℝ} (hy : y.size = dimension)
        (hhold : Constraint.AllHold constraints y)
        (hworst : worstCase sense objective y points = .ok (w, q)) : sense.NoWorse t w := by
      rw [← sense.sign_mul_le_iff]
      exact hleast _ _ (by rw [Vec.size_extend, Vec.size_extend, hx, hy])
        (epigraph_feasible_worst hy hhold hworst) (hvalue hy w)
    have hhold := ((epigraph_feasible_iff hx).mp hfeasible).1
    obtain ⟨w, p, hworst, hle⟩ := worst_noWorse_of_feasible hx hpoints hfeasible
    obtain rfl : w = t := hle.antisymm (hnoWorse hx hhold hworst)
    exact ⟨hhold, ⟨p, hworst⟩, fun y w q hy hhold hworst => hnoWorse hy hhold hworst⟩
  · rintro ⟨hhold, ⟨p, hworst⟩, hbest⟩
    refine ⟨epigraph_feasible_worst hx hhold hworst, t, hvalue hx t, ?_⟩
    intro z s hsize hfeasible hs
    rw [Vec.size_extend, hx] at hsize
    obtain ⟨y, s', hy, rfl⟩ := Vec.exists_eq_extend hsize
    rw [hvalue hy] at hs
    cases hs
    have hhold' := ((epigraph_feasible_iff hy).mp hfeasible).1
    obtain ⟨w, q, hworst', hle⟩ := worst_noWorse_of_feasible hy hpoints hfeasible
    exact (sense.sign_mul_le_iff t s).mpr ((hbest y w q hy hhold' hworst').trans hle)

/-- A decision with a bound is feasible for the lifted problem exactly when the
decision is feasible and the bound holds at all points on the side that hurts.
The start of a lifted solve satisfies all bounds, one of them tightly. A
decision with a bound is optimal exactly when the decision is best in the worst
case among the feasible ones and the bound is its worst case. -/
theorem epigraph_is_worst_case_problem (dimension : Nat) (sense : Sense)
    (objective : Vec ℝ → Vec ℝ → Except Fault ℝ) (constraints : List (Constraint ℝ))
    {points : List (Vec ℝ)} (hpoints : points ≠ []) :
    let lifted := epigraph dimension sense objective constraints points
    (∀ x t, x.size = dimension →
      (lifted.Feasible (x.extend t) ↔ Constraint.AllHold constraints x ∧
        ∀ p ∈ points, ∃ v, objective x p = .ok v ∧ sense.NoWorse v t)) ∧
    (∀ x, x.size = dimension → (∀ p ∈ points, ∃ v, objective x p = .ok v) →
      ∃ bound, liftedStart sense objective points x = .ok (x.extend bound) ∧
        (∀ p ∈ points, ∃ r,
          (boundAt dimension sense objective p).residual (x.extend bound) = .ok r ∧ r ≤ 0) ∧
        ∃ p ∈ points, (boundAt dimension sense objective p).residual (x.extend bound) = .ok 0) ∧
    (∀ x t, x.size = dimension →
      (lifted.Optimal (x.extend t) ↔ Constraint.AllHold constraints x ∧
        (∃ p, worstCase sense objective x points = .ok (t, p)) ∧
        ∀ y w q, y.size = dimension → Constraint.AllHold constraints y →
          worstCase sense objective y points = .ok (w, q) → sense.NoWorse t w)) := by
  refine ⟨?_, ?_, ?_⟩
  · intro x t hx
    exact epigraph_feasible_iff hx
  · intro x hx hvalues
    exact liftedStart_feasible hx hpoints hvalues
  · intro x t hx
    exact epigraph_optimal_iff hx hpoints

end Lifted

section Exposure

noncomputable def exposure (x p : Vec ℝ) : Except Fault ℝ := do
  return (← x.get 0) * (← p.get 0)

theorem exposure_eq (a b : ℝ) : exposure ⟨[a]⟩ ⟨[b]⟩ = .ok (a * b) := rfl

theorem exposure_worst_iff (a w : ℝ) :
    (∃ p, worstCase .minimize exposure ⟨[a]⟩ [⟨[-1]⟩, ⟨[1]⟩] = .ok (w, p)) ↔ w = |a| := by
  rw [Exact.worstCase_iff]
  simp only [List.mem_cons, List.not_mem_nil, or_false, exists_eq_or_imp, exists_eq_left,
    forall_eq_or_imp, forall_eq, exposure_eq, Except.ok.injEq, exists_eq_left', Sense.NoWorse,
    mul_neg, mul_one]
  constructor
  · rintro ⟨rfl | rfl, hleft, hright⟩
    · exact (abs_eq_neg_self.mpr (by linarith)).symm
    · exact (abs_eq_self.mpr (by linarith)).symm
  · rintro rfl
    refine ⟨?_, neg_le_abs a, le_abs_self a⟩
    rcases abs_choice a with h | h
    · exact Or.inr h.symm
    · exact Or.inl h.symm

theorem exposure_lifted_optimal :
    ([⟨[-1]⟩, ⟨[1]⟩] : List (Vec ℝ)) ≠ [] ∧
      (epigraph 1 .minimize exposure [firstAtLeastOne] [⟨[-1]⟩, ⟨[1]⟩]).Optimal
        ((⟨[1]⟩ : Vec ℝ).extend 1) := by
  have hpoints : ([⟨[-1]⟩, ⟨[1]⟩] : List (Vec ℝ)) ≠ [] := by simp
  have hhold (a : ℝ) : Constraint.AllHold [firstAtLeastOne] ⟨[a]⟩ ↔ 1 - a ≤ 0 := by
    have hresidual : firstAtLeastOne.residual ⟨[a]⟩ = .ok (1 - a) := rfl
    simp only [Constraint.AllHold, List.mem_singleton, forall_eq, hresidual, Except.ok.injEq,
      exists_eq_left']
    rfl
  refine ⟨hpoints, ?_⟩
  obtain ⟨-, -, hoptimal⟩ :=
    epigraph_is_worst_case_problem 1 .minimize exposure [firstAtLeastOne] hpoints
  refine (hoptimal ⟨[1]⟩ 1 rfl).mpr ⟨(hhold 1).mpr (by norm_num), ?_, ?_⟩
  · exact (exposure_worst_iff 1 1).mpr abs_one.symm
  · intro y w q hy hholds hworst
    obtain ⟨a, rfl⟩ := Vec.exists_of_size_one hy
    obtain rfl := (exposure_worst_iff a w).mp ⟨q, hworst⟩
    have ha := (hhold a).mp hholds
    exact (by linarith : 1 ≤ a).trans (le_abs_self a)

end Exposure

end Optima
