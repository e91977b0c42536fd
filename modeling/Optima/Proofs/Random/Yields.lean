import Mathlib.Data.List.Forall2
import Optima.Proofs.Success
import Optima.Random.Source

/-!
What a draw yields. A draw yields a property if it ends in a value with the property, whatever the
state of the source. Repeated draws yield for all their values what each of them yields.
-/

namespace Optima.Draw

variable {σ β γ : Type}

/-- One more draw adds its value at the end. -/
theorem many_succ {draw : Draw σ β} {count : Nat} {s s' s'' : σ} {bs : List β} {b : β}
    (hmany : many draw count s = .ok (bs, s')) (hdraw : draw s' = .ok (b, s'')) :
    many draw (count + 1) s = .ok (bs ++ [b], s'') := by
  induction count generalizing s bs with
  | zero =>
      cases hmany
      change (draw s' >>= fun r => .ok ([r.1], r.2)) = _
      rw [hdraw]
      rfl
  | succ count ih =>
      have hstep (n : Nat) : many draw (n + 1) s =
          draw s >>= fun r => many draw n r.2 >>= fun r' => .ok (r.1 :: r'.1, r'.2) := rfl
      rw [hstep, bind_eq_ok] at hmany
      obtain ⟨⟨first, t⟩, hfirst, hothers⟩ := hmany
      obtain ⟨⟨rest, t'⟩, hrest, hpair⟩ := bind_eq_ok.mp hothers
      cases hpair
      rw [hstep, bind_eq_ok]
      refine ⟨(first, t), hfirst, ?_⟩
      rw [ih hrest]
      rfl

/-- From every state the draw ends in a value with the property. -/
def Yields (draw : Draw σ β) (P : β → Prop) : Prop :=
  ∀ s, ∃ b s', draw s = .ok (b, s') ∧ P b

namespace Yields

variable {draw : Draw σ β} {P : β → Prop} {Q : γ → Prop}

theorem pure {b : β} (h : P b) : (Pure.pure b : Draw σ β).Yields P :=
  fun s => ⟨b, s, rfl, h⟩

theorem imp {P' : β → Prop} (h : draw.Yields P) (hall : ∀ b, P b → P' b) : draw.Yields P' := by
  intro s
  obtain ⟨b, s', hdraw, hb⟩ := h s
  exact ⟨b, s', hdraw, hall b hb⟩

/-- Draws are chained like computations: the second one starts from what the first one yields. -/
theorem bind {next : β → Draw σ γ} (h : draw.Yields P)
    (hnext : ∀ b, P b → (next b).Yields Q) : (draw >>= next).Yields Q := by
  intro s
  obtain ⟨b, s', hdraw, hb⟩ := h s
  obtain ⟨c, s'', hlast, hc⟩ := hnext b hb s'
  refine ⟨c, s'', ?_, hc⟩
  change (draw s >>= fun r => next r.1 r.2) = _
  rw [hdraw]
  exact hlast

theorem ofStep {step : σ → β × σ} (h : ∀ s, P (step s).1) : (ofStep step).Yields P :=
  fun s => ⟨(step s).1, (step s).2, rfl, h s⟩

theorem many (h : draw.Yields P) (count : Nat) :
    (many draw count).Yields fun bs => bs.length = count ∧ ∀ b ∈ bs, P b := by
  induction count with
  | zero => exact pure ⟨rfl, by simp⟩
  | succ count ih =>
      refine h.bind fun first hfirst => ih.bind fun rest hrest => pure ?_
      obtain ⟨hlength, hall⟩ := hrest
      exact ⟨by rw [List.length_cons, hlength], List.forall_mem_cons.mpr ⟨hfirst, hall⟩⟩

/-- The results stand in the order of the members that they are drawn for. -/
theorem each {draw : γ → Draw σ β} {R : γ → β → Prop} {items : List γ}
    (h : ∀ item ∈ items, (draw item).Yields (R item)) :
    (each draw items).Yields (List.Forall₂ R items) := by
  induction items with
  | nil => exact pure .nil
  | cons item rest ih =>
      obtain ⟨hitem, hrest⟩ := List.forall_mem_cons.mp h
      exact hitem.bind fun first hfirst => (ih hrest).bind fun others hothers =>
        pure (.cons hfirst hothers)

/-- The value of a draw that ended has what the draw yields. -/
theorem value {s s' : σ} {b : β} (h : draw.Yields P) (hdraw : draw s = .ok (b, s')) : P b := by
  obtain ⟨c, t, hc, hP⟩ := h s
  rw [hdraw] at hc
  cases hc
  exact hP

end Yields

end Optima.Draw
