import Optima.Proofs.Scenario.Scope

/-!
Flattening of nested lists. A way to flatten takes some leaves, each as one member, and refuses all
others by their kind. What it makes of a nested list then depends on the leaves alone: they are its
members in order, or the first one that is not taken is refused. The main statement says so of the
constraints on a decision, with and without scenarios; constraints on trajectories are flattened to
the same order.
-/

namespace Optima

namespace Nested

variable {β γ : Type}

@[simp] theorem leavesOf_append (items others : List (Nested β)) :
    leavesOf (items ++ others) = leavesOf items ++ leavesOf others := by
  induction items with
  | nil => rfl
  | cons item rest ih => simp only [List.cons_append, leavesOf, ih, List.append_assoc]

theorem leavesOf_map_leaf (values : List β) : leavesOf (values.map leaf) = values := by
  induction values with
  | nil => rfl
  | cons value rest ih => rw [List.map_cons, leavesOf, ih]; rfl

/-- Leaves that stand for a member are taken as it, all others are refused. -/
structure Takes (accept : β → Except Fault (List γ)) (wrap : γ → β) (refusal : β → Fault) :
    Prop where
  accepts : ∀ member, accept (wrap member) = .ok [member]
  refuses : ∀ leaf, (∀ member, leaf ≠ wrap member) → accept leaf = .error (refusal leaf)

theorem exists_eq_map {wrap : γ → β} {values : List β}
    (h : ∀ value ∈ values, ∃ member, value = wrap member) :
    ∃ members, values = List.map wrap members := by
  have hrange : values ∈ Set.range (List.map wrap) := by
    rw [Set.range_list_map]
    exact fun value hvalue => (h value hvalue).imp fun _ => Eq.symm
  obtain ⟨members, rfl⟩ := hrange
  exact ⟨members, rfl⟩

/-- Either all values are wrapped members, or there is a first one that is not. -/
theorem all_wrapped_or_first (wrap : γ → β) (values : List β) :
    (∃ members, values = List.map wrap members) ∨
      ∃ before value after, values = List.map wrap before ++ value :: after ∧
        ∀ member, value ≠ wrap member := by
  rcases all_or_first (fun value => ∃ member, value = wrap member) values with
    hall | ⟨before, value, after, hvalues, hbefore, hvalue⟩
  · obtain ⟨members, hmembers⟩ := exists_eq_map hall
    exact Or.inl ⟨members, hmembers⟩
  · obtain ⟨members, rfl⟩ := exists_eq_map hbefore
    exact Or.inr ⟨members, value, after, hvalues, not_exists.mp hvalue⟩

namespace Takes

variable {accept : β → Except Fault (List γ)} {wrap : γ → β} {refusal : β → Fault}
  {items : List (Nested β)}

theorem gatherAll_refuses (h : Takes accept wrap refusal) {before : List γ} {leaf : β}
    {after : List β} (hleaves : leavesOf items = before.map wrap ++ leaf :: after)
    (hleaf : ∀ member, leaf ≠ wrap member) :
    gatherAll accept items = .error (refusal leaf) := by
  have hbefore : ∀ other ∈ before.map wrap, ∃ found, accept other = .ok found := by
    intro other hother
    obtain ⟨member, -, rfl⟩ := List.mem_map.mp hother
    exact ⟨[member], h.accepts member⟩
  rw [gatherAll_eq, hleaves, mapM_eq_error_of_first hbefore (h.refuses leaf hleaf)]
  rfl

/-- Gathering succeeds with exactly the members that the leaves stand for. -/
theorem gatherAll_eq_ok (h : Takes accept wrap refusal) {members : List γ} :
    gatherAll accept items = .ok members ↔ leavesOf items = members.map wrap := by
  constructor
  · intro hgather
    rcases all_wrapped_or_first wrap (leavesOf items) with
      ⟨others, hleaves⟩ | ⟨before, leaf, after, hleaves, hleaf⟩
    · rw [gatherAll_of_leaves h.accepts hleaves] at hgather
      cases hgather
      exact hleaves
    · rw [h.gatherAll_refuses hleaves hleaf] at hgather
      cases hgather
  · exact gatherAll_of_leaves h.accepts

/-- The first leaf that stands for no member is the one that is reported. -/
theorem gatherAll_eq_error (h : Takes accept wrap refusal) {fault : Fault} :
    gatherAll accept items = .error fault ↔ ∃ before leaf after,
      leavesOf items = List.map wrap before ++ leaf :: after ∧ (∀ member, leaf ≠ wrap member) ∧
        fault = refusal leaf := by
  constructor
  · intro hgather
    rcases all_wrapped_or_first wrap (leavesOf items) with
      ⟨others, hleaves⟩ | ⟨before, leaf, after, hleaves, hleaf⟩
    · rw [gatherAll_of_leaves h.accepts hleaves] at hgather
      cases hgather
    · rw [h.gatherAll_refuses hleaves hleaf] at hgather
      cases hgather
      exact ⟨before, leaf, after, hleaves, hleaf, rfl⟩
  · rintro ⟨before, leaf, after, hleaves, hleaf, rfl⟩
    exact h.gatherAll_refuses hleaves hleaf

end Takes

theorem gatherAll_append (accept : β → Except Fault (List γ)) (items others : List (Nested β)) :
    gatherAll accept (items ++ others) = do
      let members ← gatherAll accept items
      return members ++ (← gatherAll accept others) := by
  simp only [gatherAll_eq, leavesOf_append, List.mapM_append]
  simp

end Nested

variable {α : Type}

/-- How nested lists are flattened to their leaves. Members are leaves of some kinds, and what else
stands among the leaves is refused as something other than what was wanted. -/
structure FlattensLeaves {γ : Type} (flatten : Nested (Item α) → Except Fault (List γ))
    (wrap : γ → Item α) (wanted : Ingredient) : Prop where
  succeeds_iff : ∀ items, (∃ members, flatten (.group items) = .ok members) ↔
    ∀ leaf ∈ Nested.leavesOf items, ∃ member, leaf = wrap member
  in_order : ∀ items members, flatten (.group items) = .ok members ↔
    Nested.leavesOf items = members.map wrap
  refuses_first : ∀ items fault, flatten (.group items) = .error fault ↔ ∃ before leaf after,
    Nested.leavesOf items = List.map wrap before ++ leaf :: after ∧
      (∀ member, leaf ≠ wrap member) ∧ fault = .misuse (.unexpected wanted leaf.kindName)
  leaves_decide : ∀ items others, Nested.leavesOf items = Nested.leavesOf others →
    flatten (.group items) = flatten (.group others)
  append : ∀ items others, flatten (.group (items ++ others)) = do
    let members ← flatten (.group items)
    return members ++ (← flatten (.group others))
  idempotent : ∀ items members, flatten (.group items) = .ok members →
    flatten (.group ((members.map wrap).map .leaf)) = .ok members

/-- What is gathered leaf by leaf does not depend on how the list is nested. -/
theorem flattensLeaves_of_takes {γ : Type} {flatten : Nested (Item α) → Except Fault (List γ)}
    {accept : Item α → Except Fault (List γ)} {wrap : γ → Item α} {wanted : Ingredient}
    (hgroup : ∀ items, flatten (.group items) = Nested.gatherAll accept items)
    (h : Nested.Takes accept wrap fun leaf => .misuse (.unexpected wanted leaf.kindName)) :
    FlattensLeaves flatten wrap wanted where
  succeeds_iff items := by
    simp only [hgroup, h.gatherAll_eq_ok]
    constructor
    · rintro ⟨members, hleaves⟩ leaf hleaf
      rw [hleaves, List.mem_map] at hleaf
      obtain ⟨member, -, hmember⟩ := hleaf
      exact ⟨member, hmember.symm⟩
    · intro hall
      rcases Nested.all_wrapped_or_first wrap (Nested.leavesOf items) with
        hmembers | ⟨before, leaf, after, hleaves, hleaf⟩
      · exact hmembers
      · obtain ⟨member, hmember⟩ := hall leaf (by simp [hleaves])
        exact absurd hmember (hleaf member)
  in_order items members := by rw [hgroup, h.gatherAll_eq_ok]
  refuses_first items fault := by rw [hgroup, h.gatherAll_eq_error]
  leaves_decide items others hleaves := by
    rw [hgroup, hgroup, Nested.gatherAll_eq, Nested.gatherAll_eq, hleaves]
  append items others := by simp only [hgroup, Nested.gatherAll_append]
  idempotent items members _ := by
    rw [hgroup, h.gatherAll_eq_ok, Nested.leavesOf_map_leaf]

theorem asConstraint_takes : Nested.Takes (Item.asConstraint (α := α)) .decision
    fun leaf => .misuse (.unexpected .constraint leaf.kindName) where
  accepts _ := rfl
  refuses leaf hleaf := by
    cases leaf with
    | decision c => exact absurd rfl (hleaf c)
    | period c => rfl
    | scenario c => rfl
    | other value => rfl

theorem asDecision_takes : Nested.Takes (Item.asDecision (α := α)) DecisionConstraint.item
    fun leaf => .misuse (.unexpected .scopedConstraint leaf.kindName) where
  accepts member := by
    cases member with
    | plain c => rfl
    | tagged c => rfl
  refuses leaf hleaf := by
    cases leaf with
    | decision c => exact absurd rfl (hleaf (.plain c))
    | period c => rfl
    | scenario c => exact absurd rfl (hleaf (.tagged c))
    | other value => rfl

theorem unexpected_message (wanted : Ingredient) (kind : String) :
    (Fault.misuse (.unexpected wanted kind)).message? =
      some ("Invalid input: " ++ ("expected " ++ (wanted.phrase ++ (", got " ++ kind)))) := by
  change some ("Invalid input: " ++ s!"expected {wanted.phrase}, got {kind}") = _
  simp only [toString, String.append_assoc]

/-- Nested lists are flattened to their leaves, from the first to the last one. A leaf that is no
constraint of the kinds wanted is refused by its kind, the first one if there are several. -/
theorem nested_lists_flatten_to_leaves (α : Type) :
    FlattensLeaves (α := α) flattenConstraints .decision .constraint ∧
    FlattensLeaves (α := α) flattenDecisions DecisionConstraint.item .scopedConstraint ∧
    (∀ wanted kind, (Fault.misuse (.unexpected wanted kind)).message? =
      some ("Invalid input: " ++ ("expected " ++ (wanted.phrase ++ (", got " ++ kind))))) ∧
    ∀ (items : List (Nested (Item α))) (members : List (PeriodConstraint α)),
      Nested.leavesOf items = members.map Item.period →
        flattenPeriods (.group items) = .ok members := by
  refine ⟨flattensLeaves_of_takes (fun _ => rfl) asConstraint_takes,
    flattensLeaves_of_takes (fun _ => rfl) asDecision_takes, unexpected_message, ?_⟩
  intro items members hleaves
  exact flattenPeriods_group hleaves

section Requests

/-- A budget behind an empty list, then a limit in one scenario and a text, two lists deep. -/
def budgetLimitText : List (Nested (Item Float)) :=
  [.group [], .leaf (.decision .budget),
    .group [.group [.leaf (.scenario upLimit)], .group [.leaf (.other (.text "cap"))]]]

def budgetTurnover : List (Nested (Item Float)) :=
  [.group [.group [], .leaf (.period .budgetEachPeriod)], .leaf (.period (.turnoverLimit 0.5))]

/-- Where limits in scenarios are wanted, the text is the first to be refused. -/
theorem budgetLimitText_refused :
    flattenConstraints (.group budgetLimitText) =
      .error (.misuse (.unexpected .constraint "ScenarioConstraint")) ∧
    flattenDecisions (.group budgetLimitText) =
      .error (.misuse (.unexpected .scopedConstraint "str")) ∧
    flattenPeriods (.group budgetTurnover) = .ok [.budgetEachPeriod, .turnoverLimit 0.5] := by
  obtain ⟨hplain, hscoped, -, hperiods⟩ := nested_lists_flatten_to_leaves Float
  refine ⟨?_, ?_, hperiods budgetTurnover _ rfl⟩
  · apply (hplain.refuses_first _ _).mpr
    exact ⟨[.budget], .scenario upLimit, [.other (.text "cap")], rfl, nofun, rfl⟩
  · apply (hscoped.refuses_first _ _).mpr
    refine ⟨[.plain .budget, .tagged upLimit], .other (.text "cap"), [], rfl, ?_, rfl⟩
    intro member hmember
    cases member <;> cases hmember

end Requests

end Optima
