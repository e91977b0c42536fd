import Mathlib.Data.List.Count
import Optima.Proofs.Success
import Optima.Scenario.Label

/-!
When two names stand for the same thing. A name that things can be stored under has a key, and it is
the same as another name exactly if both have that key, unless the key is the undefined number. So
among such names being the same is symmetric and transitive. A list of names has repetitions exactly
if one of them is the same as two members of the list.
-/

namespace Optima

namespace Datum

theorem key?_eq_number {a : Datum} {p : Quantity} :
    a.key? = some (.number p) ↔ a.quantity? = some p := by
  cases a with
  | null => simp [key?, quantity?, whole?]
  | text value => simp [key?, quantity?, whole?]
  | flag value => simp [key?]
  | whole value => simp [key?]
  | real value => simp [key?]
  | list items => simp [key?]
  | record fields => simp [key?]
  | vector components => simp [key?]

/-- Numbers are the same name if they are the same exact number, however they are stored. -/
theorem same_iff_quantity? {a b : Datum} {p : Quantity} (h : a.quantity? = some p) :
    a.same b = true ↔ b.quantity? = some p ∧ p ≠ .undefined := by
  cases hb : b.quantity? with
  | none =>
      have hsame : a.same b = false := by
        cases a with
        | flag value => simp only [same, h, hb]
        | whole value => simp only [same, h, hb]
        | real value => simp only [same, h, hb]
        | _ => cases h
      simp [hsame]
  | some q =>
      have hsame : a.same b = p.same q := by
        cases a with
        | flag value => simp only [same, h, hb]
        | whole value => simp only [same, h, hb]
        | real value => simp only [same, h, hb]
        | _ => cases h
      simp only [hsame, Quantity.same, Bool.and_eq_true, beq_iff_eq, bne_iff_ne, ne_eq,
        Option.some.injEq, eq_comm (a := p)]

/-- A value with a key is the same as the values with this key. -/
theorem same_iff_key {a b : Datum} {k : Key} (ha : a.key? = some k) :
    a.same b = true ↔ b.key? = some k ∧ k ≠ .number .undefined := by
  cases k with
  | number p =>
      rw [same_iff_quantity? (key?_eq_number.mp ha), key?_eq_number, ne_eq, ne_eq, Key.number.injEq]
  | nothing =>
      cases a with
      | null => cases b <;> simp [same, key?, quantity?, whole?]
      | _ => simp [key?] at ha
  | text value =>
      cases a with
      | text value' =>
          cases ha
          cases b <;> simp [same, key?, quantity?, whole?, eq_comm (a := value)]
      | _ => simp [key?] at ha

/-- What is the same as a value with a key has this key. -/
theorem key?_of_same {a b : Datum} {k : Key} (hb : b.key? = some k) (h : a.same b = true) :
    a.key? = some k ∧ k ≠ .number .undefined := by
  cases ha : a.key? with
  | some k' =>
      obtain ⟨hb', hk⟩ := (same_iff_key ha).mp h
      rw [hb] at hb'
      cases hb'
      exact ⟨rfl, hk⟩
  | none =>
      cases a with
      | list items => cases b <;> simp [same, key?, quantity?, whole?] at h hb
      | record fields => cases b <;> simp [same, key?, quantity?, whole?] at h hb
      | vector components => cases b <;> simp [same, key?, quantity?, whole?] at h hb
      | _ => simp [key?, quantity?, whole?] at ha

end Datum

namespace Label

theorem check_eq_ok {name : Label} : name.check = .ok () ↔ ∃ k, name.value.key? = some k := by
  simp only [check, Datum.key, bind_eq_ok, pure_eq_ok]
  cases name.value.key? with
  | none => simp
  | some k => simp

theorem same_symm {a b : Label} (hb : b.check = .ok ()) (h : a.same b = true) :
    b.same a = true := by
  obtain ⟨k, hk⟩ := check_eq_ok.mp hb
  exact (Datum.same_iff_key hk).mpr (Datum.key?_of_same hk h)

/-- What is the same as a name that things can be stored under is such a name. -/
theorem check_of_same {a b : Label} (hb : b.check = .ok ()) (h : a.same b = true) :
    a.check = .ok () := by
  obtain ⟨k, hk⟩ := check_eq_ok.mp hb
  exact check_eq_ok.mpr ⟨k, (Datum.key?_of_same hk h).1⟩

theorem same_trans {a b c : Label} (hc : c.check = .ok ()) (hab : a.same b = true)
    (hbc : b.same c = true) : a.same c = true := by
  obtain ⟨k, hk⟩ := check_eq_ok.mp hc
  obtain ⟨hb, hnumber⟩ := Datum.key?_of_same hk hbc
  obtain ⟨ha, -⟩ := Datum.key?_of_same hb hab
  exact (Datum.same_iff_key ha).mpr ⟨hk, hnumber⟩

/-- No name is repeated exactly if every name is the same as no other one. -/
theorem repeated_eq_nil {names : List Label} :
    repeated names = [] ↔ ∀ name ∈ names, names.countP name.same ≤ 1 := by
  have hdistinct (listed kept : List Label) (h : kept ≠ []) :
      listed.foldl (fun kept name => if kept.any name.same then kept else kept ++ [name]) kept ≠
        [] := by
    induction listed generalizing kept with
    | nil => exact h
    | cons name rest ih =>
        rw [List.foldl_cons]
        apply ih
        split
        · exact h
        · exact List.append_ne_nil_of_left_ne_nil h _
  have hnil (listed : List Label) : distinct listed = [] ↔ listed = [] := by
    cases listed with
    | nil => simp [distinct]
    | cons name rest =>
        simp only [reduceCtorEq, iff_false]
        exact hdistinct rest [name] (List.cons_ne_nil _ _)
  rw [repeated, hnil, List.filter_eq_nil_iff]
  simp only [decide_eq_true_eq, Nat.not_lt]

/-- Names of which none is the same as a later one are not repeated. -/
theorem countP_same_le_one {names : List Label} (hcheck : ∀ name ∈ names, name.check = .ok ())
    (h : names.Pairwise fun a b => a.same b = false) {name : Label} (hname : name ∈ names) :
    names.countP name.same ≤ 1 := by
  induction names with
  | nil => cases hname
  | cons first rest ih =>
      obtain ⟨hfirst, hrest⟩ := List.pairwise_cons.mp h
      obtain ⟨-, hchecks⟩ := List.forall_mem_cons.mp hcheck
      rw [List.countP_cons]
      rcases List.mem_cons.mp hname with rfl | hmember
      · have hnone : rest.countP name.same = 0 := by
          rw [List.countP_eq_zero]
          intro other hother
          rw [hfirst other hother]
          exact Bool.false_ne_true
        rw [hnone]
        split <;> omega
      · have hother : name.same first = false := by
          rw [← Bool.not_eq_true]
          intro hsame
          have hback := same_symm (hcheck first List.mem_cons_self) hsame
          rw [hfirst name hmember] at hback
          cases hback
        have hcount := ih hchecks hrest hmember
        simp only [hother, Bool.false_eq_true, if_false]
        omega

end Label

end Optima
