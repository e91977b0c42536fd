import Mathlib.Data.List.Count
import Optima.Proofs.Success

/-!
Lists with other members inserted. Both lists keep their order in the result, and every position is
allowed. Whatever leaves the inserted members out gives what it gives without them.
-/

namespace Optima

/-- The last list is made of the first one by inserting the members of the second in order. -/
inductive Interleaved {β : Type} : List β → List β → List β → Prop where
  | nil : Interleaved [] [] []
  | kept {x : β} {xs ys zs : List β} : Interleaved xs ys zs → Interleaved (x :: xs) ys (x :: zs)
  | inserted {y : β} {xs ys zs : List β} : Interleaved xs ys zs → Interleaved xs (y :: ys) (y :: zs)

namespace Interleaved

variable {β γ : Type} {xs ys zs : List β}

theorem refl (xs : List β) : Interleaved xs [] xs := by
  induction xs with
  | nil => exact nil
  | cons x xs ih => exact kept ih

/-- All members may be inserted at one place. -/
theorem between (front inserted rest : List β) :
    Interleaved (front ++ rest) inserted (front ++ inserted ++ rest) := by
  induction front with
  | nil =>
      induction inserted with
      | nil => exact refl rest
      | cons y ys ih => exact .inserted ih
  | cons x xs ih => exact kept ih

theorem mem_iff (h : Interleaved xs ys zs) {z : β} : z ∈ zs ↔ z ∈ xs ∨ z ∈ ys := by
  induction h with
  | nil => simp
  | kept _ ih => rw [List.mem_cons, ih, List.mem_cons, or_assoc]
  | inserted _ ih => rw [List.mem_cons, ih, List.mem_cons, or_left_comm]

theorem length_eq (h : Interleaved xs ys zs) : zs.length = xs.length + ys.length := by
  induction h with
  | nil => rfl
  | kept _ ih => rw [List.length_cons, List.length_cons, ih]; omega
  | inserted _ ih => rw [List.length_cons, List.length_cons, ih]; omega

theorem map (h : Interleaved xs ys zs) (f : β → γ) :
    Interleaved (xs.map f) (ys.map f) (zs.map f) := by
  induction h with
  | nil => exact nil
  | kept _ ih => exact kept ih
  | inserted _ ih => exact inserted ih

theorem countP_eq (h : Interleaved xs ys zs) (p : β → Bool) :
    zs.countP p = xs.countP p + ys.countP p := by
  induction h with
  | nil => rfl
  | kept _ ih => rw [List.countP_cons, List.countP_cons, ih]; omega
  | inserted _ ih => rw [List.countP_cons, List.countP_cons, ih]; omega

theorem filter_eq (h : Interleaved xs ys zs) {p : β → Bool} (hp : ∀ y ∈ ys, p y = false) :
    zs.filter p = xs.filter p := by
  induction h with
  | nil => rfl
  | kept _ ih => rw [List.filter_cons, List.filter_cons, ih hp]
  | inserted _ ih =>
      obtain ⟨hfirst, hrest⟩ := List.forall_mem_cons.mp hp
      rw [List.filter_cons, hfirst, ih hrest]
      rfl

theorem any_eq (h : Interleaved xs ys zs) {p : β → Bool} (hp : ∀ y ∈ ys, p y = false) :
    zs.any p = xs.any p := by
  rw [Bool.eq_iff_iff, List.any_eq_true, List.any_eq_true]
  constructor
  · rintro ⟨z, hz, hpz⟩
    rcases h.mem_iff.mp hz with hz | hz
    · exact ⟨z, hz, hpz⟩
    · rw [hp z hz] at hpz
      cases hpz
  · rintro ⟨x, hx, hpx⟩
    exact ⟨x, h.mem_iff.mpr (Or.inl hx), hpx⟩

section Steps

variable {f : β → Except Fault γ}

/-- A check that passes for every inserted member fails where it failed before. -/
theorem forM_eq {f : β → Except Fault Unit} (h : Interleaved xs ys zs)
    (hf : ∀ y ∈ ys, f y = .ok ()) : zs.forM f = xs.forM f := by
  induction h with
  | nil => rfl
  | kept _ ih => simp only [List.forM, ih hf]
  | inserted _ ih =>
      obtain ⟨hfirst, hrest⟩ := List.forall_mem_cons.mp hf
      simp only [List.forM, hfirst, ih hrest]
      rfl

/-- Results of inserted members stand where the members stand. If there is a
fault, it is the one that there is without them. -/
theorem mapM_eq (h : Interleaved xs ys zs) {results : List γ} (hf : ys.mapM f = .ok results) :
    ∃ merge : List γ → List γ, zs.mapM f = merge <$> xs.mapM f ∧
      ∀ others, others.length = xs.length →
        Interleaved (xs.zip others) (ys.zip results) (zs.zip (merge others)) := by
  induction h generalizing results with
  | nil =>
      refine ⟨id, rfl, ?_⟩
      intro others _
      rw [List.zip_nil_left, List.zip_nil_left, List.zip_nil_left]
      exact nil
  | @kept x xs ys zs _ ih =>
      obtain ⟨merge, hmerge, hzip⟩ := ih hf
      refine ⟨fun others => others.take 1 ++ merge (others.drop 1), ?_, ?_⟩
      · rw [List.mapM_cons, List.mapM_cons, hmerge]
        cases f x with
        | error fault => rfl
        | ok result =>
            cases xs.mapM f with
            | error fault => rfl
            | ok others => rfl
      · intro others hlength
        cases others with
        | nil => cases hlength
        | cons first rest => exact kept (hzip rest (Nat.succ.inj hlength))
  | @inserted y xs ys zs _ ih =>
      rw [List.mapM_cons] at hf
      simp only [bind_eq_ok, pure_eq_ok] at hf
      obtain ⟨result, hresult, rest, hrest, rfl⟩ := hf
      obtain ⟨merge, hmerge, hzip⟩ := ih hrest
      refine ⟨fun others => result :: merge others, ?_, ?_⟩
      · rw [List.mapM_cons, hresult, hmerge]
        cases xs.mapM f with
        | error fault => rfl
        | ok others => rfl
      · intro others hlength
        exact inserted (hzip others hlength)

/-- Members that stand for nothing add nothing. -/
theorem flatten_eq {f g : β → Except Fault (List γ)} (h : Interleaved xs ys zs)
    (hkept : ∀ x ∈ xs, f x = g x) (hinserted : ∀ y ∈ ys, f y = .ok []) :
    List.flatten <$> zs.mapM f = List.flatten <$> xs.mapM g := by
  have hcons (first : β) (rest : List β) (f : β → Except Fault (List γ)) :
      List.flatten <$> (first :: rest).mapM f =
        (f first >>= fun found => (found ++ ·) <$> (List.flatten <$> rest.mapM f)) := by
    rw [List.mapM_cons]
    cases f first with
    | error fault => rfl
    | ok found =>
        cases rest.mapM f with
        | error fault => rfl
        | ok others => rfl
  induction h with
  | nil => rfl
  | kept _ ih =>
      obtain ⟨hfirst, hrest⟩ := List.forall_mem_cons.mp hkept
      rw [hcons, hcons, hfirst, ih hrest hinserted]
  | @inserted y xs _ _ _ ih =>
      obtain ⟨hfirst, hrest⟩ := List.forall_mem_cons.mp hinserted
      rw [hcons, hfirst, ih hkept hrest]
      cases xs.mapM g with
      | error fault => rfl
      | ok others => rfl

end Steps

end Interleaved

end Optima
