import Mathlib.Data.List.Forall2
import Optima.Fault

/-!
What it takes for a computation that may end in a fault to end in a result. A chain of steps gives a
result exactly when every step does, and a list is worked through exactly when every member is. Two
computations agree if both end with the same fault, or with results that are related.
-/

namespace Optima

variable {β γ : Type}

theorem bind_eq_ok {x : Except Fault β} {f : β → Except Fault γ} {c : γ} :
    (x >>= f) = .ok c ↔ ∃ b, x = .ok b ∧ f b = .ok c := by
  cases x with
  | error fault => simp [bind, Except.bind]
  | ok b => simp [bind, Except.bind]

theorem pure_eq_ok {b c : β} : (pure b : Except Fault β) = .ok c ↔ b = c := by
  simp [pure, Except.pure]

theorem throw_ne_ok {fault : Fault} {c : β} :
    (throw fault : Except Fault β) ≠ .ok c := by
  simp [throw, throwThe, MonadExceptOf.throw]

/-- A result that passes a check can be found by running the check. -/
theorem exists_ok_of_any {x : Except Fault β} {check : β → Bool}
    (h : x.toOption.any check = true) : ∃ b, x = .ok b ∧ check b = true := by
  cases x with
  | error fault => cases h
  | ok b => exact ⟨b, rfl, h⟩

/-- Either all values are as they should be, or there is a first one that is not. -/
theorem all_or_first (p : β → Prop) (values : List β) : (∀ value ∈ values, p value) ∨
    ∃ before value after, values = before ++ value :: after ∧ (∀ other ∈ before, p other) ∧
      ¬ p value := by
  induction values with
  | nil => exact Or.inl nofun
  | cons value rest ih =>
      by_cases hvalue : p value
      · rcases ih with hall | ⟨before, first, after, rfl, hbefore, hfirst⟩
        · exact Or.inl (List.forall_mem_cons.mpr ⟨hvalue, hall⟩)
        · exact Or.inr ⟨value :: before, first, after, rfl,
            List.forall_mem_cons.mpr ⟨hvalue, hbefore⟩, hfirst⟩
      · exact Or.inr ⟨[], value, rest, rfl, nofun, hvalue⟩

/-- A list is worked through exactly when each of its members is, and the
results stand in the order of the members. -/
theorem mapM_eq_ok {f : β → Except Fault γ} {members : List β} {results : List γ} :
    members.mapM f = .ok results ↔
      List.Forall₂ (fun member result => f member = .ok result) members results := by
  induction members generalizing results with
  | nil =>
      rw [List.mapM_nil, pure_eq_ok, List.forall₂_nil_left_iff, eq_comm]
  | cons member rest ih =>
      rw [List.mapM_cons, List.forall₂_cons_left_iff]
      simp only [bind_eq_ok, pure_eq_ok, ih]
      constructor
      · rintro ⟨result, hresult, others, hothers, rfl⟩
        exact ⟨result, others, hresult, hothers, rfl⟩
      · rintro ⟨result, others, hresult, hothers, rfl⟩
        exact ⟨result, hresult, others, hothers, rfl⟩

/-- A list whose members have the results of a function has its image as results. -/
theorem mapM_eq_map {f : β → Except Fault γ} {g : β → γ} {members : List β}
    (h : ∀ member ∈ members, f member = .ok (g member)) :
    members.mapM f = .ok (members.map g) := by
  rw [mapM_eq_ok, List.forall₂_map_right_iff, List.forall₂_same]
  exact h

/-- A list whose members all have a result is worked through. -/
theorem mapM_succeeds {f : β → Except Fault γ} {members : List β}
    (h : ∀ member ∈ members, ∃ result, f member = .ok result) :
    ∃ results, members.mapM f = .ok results := by
  induction members with
  | nil => exact ⟨[], rfl⟩
  | cons member rest ih =>
      obtain ⟨result, hresult⟩ := h member (by simp)
      obtain ⟨results, hresults⟩ := ih fun other hother => h other (by simp [hother])
      refine ⟨result :: results, ?_⟩
      rw [mapM_eq_ok] at hresults ⊢
      exact .cons hresult hresults

/-- A list is folded if every member can be taken in, whatever came before. -/
theorem foldlM_succeeds {f : γ → β → Except Fault γ} {members : List β}
    (h : ∀ c, ∀ member ∈ members, ∃ c', f c member = .ok c') (c : γ) :
    ∃ c', members.foldlM f c = .ok c' := by
  induction members generalizing c with
  | nil => exact ⟨c, rfl⟩
  | cons member rest ih =>
      obtain ⟨next, hnext⟩ := h c member (by simp)
      obtain ⟨last, hlast⟩ := ih (fun c' other hother => h c' other (by simp [hother])) next
      exact ⟨last, by rw [List.foldlM_cons, bind_eq_ok]; exact ⟨next, hnext, hlast⟩⟩

/-- The results of a list are the results of its members. -/
theorem mem_of_mapM {f : β → Except Fault γ} {members : List β} {results : List γ}
    (h : members.mapM f = .ok results) (result : γ) :
    result ∈ results ↔ ∃ member ∈ members, f member = .ok result := by
  rw [mapM_eq_ok] at h
  induction h with
  | nil => simp
  | cons hmember _ ih =>
      rw [List.mem_cons, ih, List.exists_mem_cons_iff, hmember]
      simp [eq_comm]

/-- A member of a list that is worked through has a result. -/
theorem result_of_mapM {f : β → Except Fault γ} {members : List β} {results : List γ}
    (h : members.mapM f = .ok results) {member : β} (hmember : member ∈ members) :
    ∃ result ∈ results, f member = .ok result := by
  rw [mapM_eq_ok] at h
  induction h with
  | nil => simp at hmember
  | cons hhead _ ih =>
      rcases List.mem_cons.mp hmember with rfl | hrest
      · exact ⟨_, by simp, hhead⟩
      · obtain ⟨result, hresult, heq⟩ := ih hrest
        exact ⟨result, by simp [hresult], heq⟩

/-- A list passes a check exactly when each of its members does. -/
theorem forM_eq_ok {check : β → Except Fault Unit} {members : List β} :
    members.forM check = .ok () ↔ ∀ member ∈ members, check member = .ok () := by
  induction members with
  | nil => simp [List.forM, pure_eq_ok]
  | cons member rest ih =>
      rw [List.forall_mem_cons, ← ih, List.forM, bind_eq_ok]
      constructor
      · rintro ⟨_, hmember, hrest⟩
        exact ⟨hmember, hrest⟩
      · rintro ⟨hmember, hrest⟩
        exact ⟨(), hmember, hrest⟩

/-- A list is sifted exactly when each of its members has an answer, and then
the members with the answer yes are kept. -/
theorem filterM_eq_ok {check : β → Except Fault Bool} {members kept : List β} :
    members.filterM check = .ok kept ↔
      (∀ member ∈ members, ∃ answer, check member = .ok answer) ∧
        members.filter (fun member => (check member).toOption.getD false) = kept := by
  -- The members kept so far stand in front, the last one first.
  have hsifted (members found result : List β) :
      members.filterAuxM check found = .ok result ↔
        (∀ member ∈ members, ∃ answer, check member = .ok answer) ∧
          (members.filter fun member => (check member).toOption.getD false).reverse ++ found =
            result := by
    induction members generalizing found with
    | nil => simp [List.filterAuxM, pure_eq_ok]
    | cons member rest ih =>
        rw [List.filterAuxM, bind_eq_ok, List.forall_mem_cons]
        cases hcheck : check member with
        | error fault => simp
        | ok answer =>
            cases answer with
            | false => simp [ih, hcheck, Except.toOption]
            | true => simp [ih, hcheck, Except.toOption]
  simp only [List.filterM, bind_eq_ok, pure_eq_ok, hsifted, List.append_nil]
  constructor
  · rintro ⟨_, ⟨hall, rfl⟩, hreverse⟩
    exact ⟨hall, by rwa [List.reverse_reverse] at hreverse⟩
  · rintro ⟨hall, hkept⟩
    exact ⟨_, ⟨hall, rfl⟩, by rwa [List.reverse_reverse]⟩

/-- If members of a list can only fail in one way and one does, then so does the
list. -/
theorem mapM_eq_error {f : β → Except Fault γ} {members : List β} {fault : Fault}
    (halike : ∀ member ∈ members, ∀ other, f member = .error other → other = fault)
    (hfault : ∃ member ∈ members, f member = .error fault) : members.mapM f = .error fault := by
  induction members with
  | nil => simp at hfault
  | cons first rest ih =>
      obtain ⟨hfirst, hrest⟩ := List.forall_mem_cons.mp halike
      rw [List.mapM_cons]
      cases hresult : f first with
      | error other =>
          rw [hfirst other hresult]
          rfl
      | ok result =>
          rw [List.exists_mem_cons_iff, hresult] at hfault
          rw [ih hrest (hfault.resolve_left nofun)]
          rfl

/-- A list fails as the first of its members that fails does, whatever comes
after it. -/
theorem mapM_eq_error_of_first {f : β → Except Fault γ} {before after : List β} {member : β}
    {fault : Fault} (hbefore : ∀ other ∈ before, ∃ result, f other = .ok result)
    (hmember : f member = .error fault) : (before ++ member :: after).mapM f = .error fault := by
  obtain ⟨results, hresults⟩ := mapM_succeeds hbefore
  rw [List.mapM_append, hresults, List.mapM_cons, hmember]
  rfl

theorem mapM_congr {f g : β → Except Fault γ} {members : List β}
    (h : ∀ member ∈ members, f member = g member) :
    members.mapM f = members.mapM g := by
  have hmap := congrArg (List.mapM id) (List.map_congr_left h)
  simpa only [List.mapM_map, Function.id_comp] using hmap

/-- What differs only where it fails with one fault agrees on all lists on which it does not fail
with it. -/
theorem mapM_eq_of_ne {f g : β → Except Fault γ} {members : List β} {fault : Fault}
    (h : ∀ member ∈ members, f member ≠ .error fault → g member = f member)
    (hmembers : members.mapM f ≠ .error fault) : members.mapM g = members.mapM f := by
  induction members with
  | nil => rfl
  | cons member rest ih =>
      have hmember : f member ≠ .error fault := by
        intro hfault
        rw [List.mapM_cons, hfault] at hmembers
        exact hmembers rfl
      rw [List.mapM_cons, List.mapM_cons, h member List.mem_cons_self hmember]
      cases hresult : f member with
      | error other => rfl
      | ok result =>
          have hrest : rest.mapM f ≠ .error fault := by
            intro hfault
            rw [List.mapM_cons, hresult, hfault] at hmembers
            exact hmembers rfl
          rw [ih (fun other hother => h other (List.mem_cons_of_mem _ hother)) hrest]

/-- The fold fails with the only fault there is, whichever member raises it first. -/
theorem foldlM_eq_error {f : γ → β → Except Fault γ} {members : List β} {fault : Fault}
    (halike : ∀ c, ∀ member ∈ members, ∀ other, f c member = .error other → other = fault)
    (hfault : ∃ member ∈ members, ∀ c, f c member = .error fault) (c : γ) :
    members.foldlM f c = .error fault := by
  induction members generalizing c with
  | nil => simp at hfault
  | cons first rest ih =>
      rw [List.foldlM_cons]
      cases hresult : f c first with
      | error other =>
          rw [halike c first List.mem_cons_self other hresult]
          rfl
      | ok next =>
          rw [List.exists_mem_cons_iff] at hfault
          refine
            ih (fun c member hmember => halike c member (List.mem_cons_of_mem _ hmember)) ?_ next
          refine hfault.resolve_left ?_
          intro hfirst
          rw [hfirst c] at hresult
          cases hresult

/-- Two computations end with the same fault, or with results that are related. -/
def Agree {β γ : Type} (R : β → γ → Prop) : Except Fault β → Except Fault γ → Prop
  | .ok b, .ok c => R b c
  | .error fault, .error other => fault = other
  | _, _ => False

theorem Agree.chain {β γ δ ε : Type} {Q : β → γ → Prop} {R : δ → ε → Prop} {x : Except Fault β}
    {y : Except Fault γ} {f : β → Except Fault δ} {g : γ → Except Fault ε} (hxy : Agree Q x y)
    (h : ∀ b c, Q b c → Agree R (f b) (g c)) : Agree R (x >>= f) (y >>= g) := by
  cases x with
  | error fault =>
      cases y with
      | error other => exact hxy
      | ok c => cases hxy
  | ok b =>
      cases y with
      | error other => cases hxy
      | ok c => exact h b c hxy

theorem Agree.bind {β γ δ : Type} {R : γ → δ → Prop} {x : Except Fault β}
    {f : β → Except Fault γ} {g : β → Except Fault δ}
    (h : ∀ b, x = .ok b → Agree R (f b) (g b)) : Agree R (x >>= f) (x >>= g) := by
  cases x with
  | error fault => exact rfl
  | ok b => exact h b rfl

theorem Agree.mono {β γ : Type} {Q R : β → γ → Prop} {x : Except Fault β} {y : Except Fault γ}
    (hxy : Agree Q x y) (h : ∀ b c, Q b c → R b c) : Agree R x y := by
  cases x with
  | error fault =>
      cases y with
      | error other => exact hxy
      | ok c => cases hxy
  | ok b =>
      cases y with
      | error other => cases hxy
      | ok c => exact h b c hxy

theorem Agree.and_ok {β γ : Type} {R : β → γ → Prop} {x : Except Fault β} {y : Except Fault γ}
    (hxy : Agree R x y) : Agree (fun b c => x = .ok b ∧ R b c) x y := by
  cases x with
  | error fault =>
      cases y with
      | error other => exact hxy
      | ok c => cases hxy
  | ok b =>
      cases y with
      | error other => cases hxy
      | ok c => exact ⟨rfl, hxy⟩

theorem Agree.eq_map {β γ : Type} {f : β → γ} {x : Except Fault β} {y : Except Fault γ}
    (hxy : Agree (fun b c => c = f b) x y) : y = f <$> x := by
  cases x with
  | error fault =>
      cases y with
      | error other => exact congrArg Except.error hxy.symm
      | ok c => cases hxy
  | ok b =>
      cases y with
      | error other => cases hxy
      | ok c => exact congrArg Except.ok hxy

theorem Agree.of_ok {β γ : Type} {R : β → γ → Prop} {b : β} {y : Except Fault γ}
    (h : Agree R (.ok b) y) : ∃ c, y = .ok c ∧ R b c := by
  cases y with
  | error fault => cases h
  | ok c => exact ⟨c, rfl, h⟩

theorem Agree.of_ok_right {β γ : Type} {R : β → γ → Prop} {x : Except Fault β} {c : γ}
    (h : Agree R x (.ok c)) : ∃ b, x = .ok b ∧ R b c := by
  cases x with
  | error fault => cases h
  | ok b => exact ⟨b, rfl, h⟩

end Optima
