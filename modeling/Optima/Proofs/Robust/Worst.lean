import Optima.Proofs.Scalar.Real
import Optima.Proofs.Success
import Optima.Robust.Worst

/-!
The worst case over a list of points. `NoWorse` compares two values from the side of a sense: no
more when minimizing, no less when maximizing. As long as no value is undefined, the worst case is
one of the cases, and no other case is worse. Over the reals this determines its value.
-/

namespace Optima

/-- The first value hurts no more than the second. -/
def Sense.NoWorse {β : Type} [LE β] : Sense → β → β → Prop
  | minimize, v, w => v ≤ w
  | maximize, v, w => w ≤ v

namespace Sense.NoWorse

variable {β : Type} {sense : Sense} {u v w : β}

theorem refl [Preorder β] (sense : Sense) (v : β) : sense.NoWorse v v := by
  cases sense with
  | minimize => exact le_refl v
  | maximize => exact le_refl v

theorem trans [Preorder β] (huv : sense.NoWorse u v) (hvw : sense.NoWorse v w) :
    sense.NoWorse u w := by
  cases sense with
  | minimize => exact le_trans huv hvw
  | maximize => exact le_trans hvw huv

theorem antisymm [PartialOrder β] (hvw : sense.NoWorse v w) (hwv : sense.NoWorse w v) :
    v = w := by
  cases sense with
  | minimize => exact le_antisymm hvw hwv
  | maximize => exact le_antisymm hwv hvw

end Sense.NoWorse

open Scalar Ranked

variable {α : Type} [Scalar α]

/-- Of two defined values, the challenger is taken if it is strictly worse. -/
theorem Sense.worseCase_eq {sense : Sense} {a b : α × Vec α} (ha : Defined a.1)
    (hb : Defined b.1) :
    sense.worseCase a b = if sense.isWorse b.1 a.1 then b else a := by
  have hdefined {v : α} (hv : Defined v) : isUndefined v = false := by
    unfold isUndefined
    rw [hv]
    rfl
  simp only [Sense.worseCase, hdefined ha, hdefined hb, Bool.not_false, Bool.true_and,
    Bool.false_or]

section Cases

variable {objective : Vec α → Vec α → Except Fault α} {x : Vec α} {points : List (Vec α)}

theorem worstCase_eq_ok {sense : Sense} {w : α} {p : Vec α} :
    worstCase sense objective x points = .ok (w, p) ↔
      ∃ first rest, casesAt objective x points = .ok (first :: rest) ∧
        rest.foldl sense.worseCase first = (w, p) := by
  simp only [worstCase, bind_eq_ok]
  constructor
  · rintro ⟨listed, hcases, h⟩
    cases listed with
    | nil => exact absurd h throw_ne_ok
    | cons first rest => exact ⟨first, rest, hcases, pure_eq_ok.mp h⟩
  · rintro ⟨first, rest, hcases, hfold⟩
    exact ⟨first :: rest, hcases, pure_eq_ok.mpr hfold⟩

omit [Scalar α] in
theorem mem_casesAt {listed : List (α × Vec α)}
    (h : casesAt objective x points = .ok listed) (v : α) (q : Vec α) :
    (v, q) ∈ listed ↔ q ∈ points ∧ objective x q = .ok v := by
  rw [mem_of_mapM h]
  simp only [bind_eq_ok, pure_eq_ok, Prod.mk.injEq]
  constructor
  · rintro ⟨q', hq', v', hv', rfl, rfl⟩
    exact ⟨hq', hv'⟩
  · rintro ⟨hq, hv⟩
    exact ⟨q, hq, v, hv, rfl, rfl⟩

/-- There is a worst case over points, if there is one and all have a value. -/
theorem worstCase_succeeds (sense : Sense) (hpoints : points ≠ [])
    (hvalues : ∀ q ∈ points, ∃ v, objective x q = .ok v) :
    ∃ w p, worstCase sense objective x points = .ok (w, p) := by
  obtain ⟨listed, hcases⟩ : ∃ listed, casesAt objective x points = .ok listed := by
    apply mapM_succeeds
    intro q hq
    obtain ⟨v, hv⟩ := hvalues q hq
    exact ⟨(v, q), bind_eq_ok.mpr ⟨v, hv, rfl⟩⟩
  cases listed with
  | nil =>
      have hlength := (mapM_eq_ok.mp hcases).length_eq
      exact absurd (List.eq_nil_of_length_eq_zero hlength) hpoints
  | cons first rest => exact ⟨_, _, worstCase_eq_ok.mpr ⟨first, rest, hcases, rfl⟩⟩

end Cases

section Ranks

variable [Ranked α] (sense : Sense)

/-- A value is no worse than another one if it does not lie beyond it on the side that hurts. -/
theorem Sense.isWorse_iff {v w : α} (hv : Defined v) (hw : Defined w) :
    sense.isWorse v w = false ↔ sense.NoWorse (rank v) (rank w) := by
  cases sense with
  | minimize => simp [Sense.isWorse, Sense.NoWorse, less_eq_decide hw hv]
  | maximize => simp [Sense.isWorse, Sense.NoWorse, less_eq_decide hv hw]

/-- The worse of two cases is one of them, and neither is worse than it. -/
theorem Sense.worseCase_cases {a b : α × Vec α} (ha : Defined a.1) (hb : Defined b.1) :
    (sense.worseCase a b = a ∨ sense.worseCase a b = b) ∧
      sense.NoWorse (rank a.1) (rank (sense.worseCase a b).1) ∧
      sense.NoWorse (rank b.1) (rank (sense.worseCase a b).1) := by
  rw [Sense.worseCase_eq ha hb]
  cases hworse : sense.isWorse b.1 a.1 with
  | true =>
      refine ⟨Or.inr rfl, ?_, .refl sense _⟩
      -- What is worse than the other is not better than it.
      cases sense with
      | minimize => exact ((less_iff _ _).mp hworse).2.2.le
      | maximize => exact ((less_iff _ _).mp hworse).2.2.le
  | false => exact ⟨Or.inl rfl, .refl sense _, (sense.isWorse_iff hb ha).mp hworse⟩

/-- The fold ends at a member that is no better than any other one. -/
theorem Sense.foldl_worseCase {first : α × Vec α} {rest : List (α × Vec α)}
    (hdefined : ∀ case ∈ first :: rest, Defined case.1) :
    rest.foldl sense.worseCase first ∈ first :: rest ∧
      ∀ case ∈ first :: rest,
        sense.NoWorse (rank case.1) (rank (rest.foldl sense.worseCase first).1) := by
  induction rest generalizing first with
  | nil =>
      refine ⟨by simp, ?_⟩
      intro case hcase
      rw [List.mem_singleton.mp hcase]
      exact .refl sense _
  | cons second rest ih =>
      have hfirst : Defined first.1 := hdefined first (by simp)
      have hsecond : Defined second.1 := hdefined second (by simp)
      obtain ⟨hchoice, hleft, hright⟩ := sense.worseCase_cases hfirst hsecond
      have hmem : sense.worseCase first second ∈ first :: second :: rest := by
        rcases hchoice with h | h <;> simp [h]
      have htail : ∀ case ∈ sense.worseCase first second :: rest, Defined case.1 := by
        intro case hcase
        rcases List.mem_cons.mp hcase with rfl | hcase
        · exact hdefined _ hmem
        · exact hdefined case (by simp [hcase])
      obtain ⟨hlast, hbound⟩ := ih htail
      rw [List.foldl_cons]
      refine ⟨?_, ?_⟩
      · rcases List.mem_cons.mp hlast with hlast | hlast
        · rw [hlast]
          exact hmem
        · simp [hlast]
      · have htop := hbound _ (List.mem_cons_self ..)
        simp only [List.forall_mem_cons]
        exact ⟨hleft.trans htop, hright.trans htop, fun case hcase => hbound case (by simp [hcase])⟩

/-- If no value is undefined, the worst case is attained at one of the points,
and no point is worse. -/
theorem worstCase_spec {sense : Sense} {objective : Vec α → Vec α → Except Fault α} {x : Vec α}
    {points : List (Vec α)} {w : α} {p : Vec α}
    (hdefined : ∀ q ∈ points, ∀ v, objective x q = .ok v → Defined v)
    (h : worstCase sense objective x points = .ok (w, p)) :
    p ∈ points ∧ objective x p = .ok w ∧
      ∀ q ∈ points, ∃ v, objective x q = .ok v ∧ sense.NoWorse (rank v) (rank w) := by
  obtain ⟨first, rest, hcases, hfold⟩ := worstCase_eq_ok.mp h
  have hmem := mem_casesAt hcases
  have hvalues : ∀ case ∈ first :: rest, Defined case.1 := by
    intro case hcase
    obtain ⟨hq, hv⟩ := (hmem case.1 case.2).mp hcase
    exact hdefined case.2 hq case.1 hv
  obtain ⟨hlast, hbound⟩ := sense.foldl_worseCase hvalues
  rw [hfold] at hlast hbound
  obtain ⟨hp, hw⟩ := (hmem w p).mp hlast
  refine ⟨hp, hw, ?_⟩
  intro q hq
  obtain ⟨case, hcase, hvalue⟩ := result_of_mapM hcases hq
  obtain ⟨v, hv, rfl⟩ : ∃ v, objective x q = .ok v ∧ (v, q) = case := by
    simpa only [bind_eq_ok, pure_eq_ok] using hvalue
  exact ⟨v, hv, hbound _ hcase⟩

end Ranks

/-- Over the reals, a number is the value of the worst case exactly when it is
attained at one of the points and no point is worse. -/
theorem Exact.worstCase_iff {sense : Sense} {objective : Vec ℝ → Vec ℝ → Except Fault ℝ}
    {x : Vec ℝ} {points : List (Vec ℝ)} {w : ℝ} :
    (∃ p, worstCase sense objective x points = .ok (w, p)) ↔
      (∃ p ∈ points, objective x p = .ok w) ∧
        ∀ q ∈ points, ∃ v, objective x q = .ok v ∧ sense.NoWorse v w := by
  constructor
  · rintro ⟨p, h⟩
    obtain ⟨hp, hw, hbound⟩ := worstCase_spec (fun _ _ v _ => Exact.defined v) h
    exact ⟨⟨p, hp, hw⟩, hbound⟩
  · rintro ⟨⟨p, hp, hw⟩, hbound⟩
    obtain ⟨w', p', h⟩ := worstCase_succeeds sense (List.ne_nil_of_mem hp)
      fun q hq => (hbound q hq).imp fun _ hv => hv.1
    obtain ⟨hp', hw', hbound'⟩ := worstCase_spec (fun _ _ v _ => Exact.defined v) h
    obtain ⟨v, hv, hle⟩ := hbound' p hp
    obtain ⟨v', hv', hle'⟩ := hbound p' hp'
    rw [hw] at hv
    rw [hw'] at hv'
    cases hv
    cases hv'
    exact ⟨p', Sense.NoWorse.antisymm hle' hle ▸ h⟩

end Optima
