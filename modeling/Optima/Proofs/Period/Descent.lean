import Optima.Input.ConstraintSpec
import Optima.Proofs.Constraint.Flattening

/-!
How deep flattening goes. Constraints on trajectories are flattened by calls within calls: a call
goes through what is inside of its value, keeps the constraints and calls itself on everything else.
What counts as nothing has no inside, a number cannot be gone through, and a text consists of texts
again. So the calls come to an end, not deeper than the value is nested, unless a text stands before
everything else that cannot be used. If they do, flattening gives the constraints in order, or
refuses the value for the first thing in it that is neither a constraint nor a collection.
-/

namespace Optima

variable {α : Type}

namespace Nested

/-- What is inside of a value: the items of a list, the members of anything else that counts as
present. A constraint has no inside. -/
def inside : Nested (Item α) → Except Fault (List (Nested (Item α)))
  | group items => .ok items
  | leaf (.other value) =>
    if value.isPresent then do return (← value.members).map fun member => leaf (.other member)
    else .ok []
  | leaf _ => .error .wrongKind

def keepOr (call : Nested (Item α) → Except Fault (List (PeriodConstraint α))) :
    Nested (Item α) → Except Fault (List (PeriodConstraint α))
  | leaf (.period c) => .ok [c]
  | item => call item

/-- Flattening by calls within calls, of which only so many may be open at a time. -/
def flattenWithin : (calls : Nat) → Nested (Item α) → Except Fault (List (PeriodConstraint α))
  | 0, _ => .error .endlessNesting
  | calls + 1, value => do
    let items ← value.inside
    return (← items.mapM (keepOr (flattenWithin calls))).flatten

mutual

def depth : Nested (Item α) → Nat
  | leaf (.other (.record _)) | leaf (.other (.vector _)) => 1
  | leaf _ => 0
  | group items => depthOf items + 1

def depthOf : List (Nested (Item α)) → Nat
  | [] => 0
  | item :: rest => max (depth item) (depthOf rest)

end

/-- No list stands among the leaves. -/
def ListsAreGroups (value : Nested (Item α)) : Prop :=
  ∀ items, .other (.list items) ∉ value.leaves

end Nested

namespace Item

/-- What is met in a leaf: the keys of a record, the components of a vector, and anything else as it
is. -/
def parts : Item α → List (Item α)
  | other (.record fields) => fields.map fun entry => other (.text entry.1)
  | other (.vector components) => components.map fun x => other (.real x)
  | item => [item]

def IsUsable : Item α → Prop
  | period _ => True
  | other value => value.isPresent = false
  | _ => False

def period? : Item α → Option (PeriodConstraint α)
  | period c => some c
  | _ => none

end Item

namespace Nested

def met (value : Nested (Item α)) : List (Item α) := value.leaves.flatMap Item.parts

/-- The first thing met that cannot be used. -/
def FirstObstacle (value : Nested (Item α)) (item : Item α) : Prop :=
  ∃ before after, value.met = before ++ item :: after ∧ (∀ other ∈ before, other.IsUsable) ∧
    ¬ item.IsUsable

/-! What a leaf adds -/

/-- What can be used contributes its constraint, if it is one, and nothing else. -/
theorem asPeriod_of_isUsable {item : Item α} (h : item.IsUsable) :
    item.asPeriod = .ok item.period?.toList := by
  cases item with
  | decision c => cases h
  | scenario c => cases h
  | period c => rfl
  | other value =>
      change value.isPresent = false at h
      cases value with
      | text s =>
          have hempty : s = "" := by simpa [Datum.isPresent] using h
          rw [hempty]
          rfl
      | record fields =>
          cases fields with
          | nil => rfl
          | cons entry rest => cases h
      | vector components =>
          cases components with
          | nil => rfl
          | cons x rest => cases h
      | null | flag b | whole n | real x | list items =>
          simp only [Item.asPeriod, Item.emptyUnlessPresent, h]
          rfl

theorem asPeriod_of_text {s : String} (h : ¬ (Item.other (α := α) (.text s)).IsUsable) :
    (Item.other (α := α) (.text s)).asPeriod = .error .endlessNesting := by
  have hs : (s == "") = false := by simpa [Item.IsUsable, Datum.isPresent] using h
  simp only [Item.asPeriod, Item.throughText, hs]
  rfl

/-- Parts have no parts of their own. -/
theorem parts_of_mem_parts {leaf item : Item α} (h : item ∈ leaf.parts) : item.parts = [item] := by
  have hsame (hsingle : leaf.parts = [leaf]) : item.parts = [item] := by
    rw [hsingle, List.mem_singleton] at h
    rw [h, hsingle]
  cases leaf with
  | decision c | period c | scenario c => exact hsame rfl
  | other value =>
      cases value with
      | record fields =>
          obtain ⟨entry, -, rfl⟩ := List.mem_map.mp h
          rfl
      | vector components =>
          obtain ⟨x, -, rfl⟩ := List.mem_map.mp h
          rfl
      | null | flag b | whole n | real x | text s | list items => exact hsame rfl

/-- What cannot be used has the wrong kind, unless it is a text. -/
theorem asPeriod_of_obstacle {item : Item α} (hpart : item.parts = [item])
    (h : ¬ item.IsUsable) (htext : ∀ s, item ≠ .other (.text s)) :
    item.asPeriod = .error .wrongKind := by
  cases item with
  | decision c | scenario c => rfl
  | period c => exact absurd trivial h
  | other value =>
      have hpresent : value.isPresent = true := Bool.not_eq_false _ ▸ h
      cases value with
      | text s => exact absurd rfl (htext s)
      | record fields => cases fields <;> cases hpart
      | vector components => cases components <;> cases hpart
      | null | flag b | whole n | real x | list items =>
          simp only [Item.asPeriod, Item.emptyUnlessPresent, hpresent]
          rfl

theorem asPeriod_eq_parts (item : Item α) :
    item.asPeriod = List.flatten <$> item.parts.mapM Item.asPeriod := by
  have hsingle (hparts : item.parts = [item]) :
      item.asPeriod = List.flatten <$> item.parts.mapM Item.asPeriod := by
    rw [hparts, List.mapM_cons, List.mapM_nil]
    cases item.asPeriod with
    | error fault => rfl
    | ok found => exact congrArg Except.ok (List.append_nil found).symm
  cases item with
  | decision c | period c | scenario c => exact hsingle rfl
  | other value =>
      cases value with
      | record fields =>
          rw [Item.parts, List.mapM_map]
          rfl
      | vector components =>
          rw [Item.parts, List.mapM_map]
          rfl
      | null | flag b | whole n | real x | text s | list items => exact hsingle rfl

/-- Gathering meets the parts of the leaves, one after the other. -/
theorem gather_eq_met (value : Nested (Item α)) :
    value.gather Item.asPeriod = List.flatten <$> value.met.mapM Item.asPeriod := by
  have hparts (leaves : List (Item α)) : List.flatten <$> leaves.mapM Item.asPeriod =
      List.flatten <$> (leaves.flatMap Item.parts).mapM Item.asPeriod := by
    induction leaves with
    | nil => rfl
    | cons leaf rest ih =>
        rw [List.flatMap_cons, List.mapM_append, List.mapM_cons, asPeriod_eq_parts leaf]
        simp only [map_bind, bind_map_left, map_pure, List.flatten_append, List.flatten_cons]
          at ih ⊢
        refine bind_congr fun found => ?_
        have hshift := congrArg (List.append found.flatten <$> ·) ih
        simpa using hshift
  rw [gather_eq, hparts]
  rfl

/-! What calls within calls come to -/

/-- A collection that counts as present has its members inside, and no other one has members. -/
theorem inside_eq_map {β : Type} {value : Datum} {wrap : β → Datum} {members : List β}
    (hmembers : value.members = .ok (members.map wrap))
    (hpresent : value.isPresent = !members.isEmpty) :
    inside (leaf (Item.other (α := α) value)) =
      .ok (members.map fun member => leaf (.other (wrap member))) := by
  cases members with
  | nil => simp [inside, hpresent]
  | cons member rest =>
      simp only [inside, hpresent, hmembers, List.isEmpty_cons, Bool.not_false, if_true]
      change Except.ok (((member :: rest).map wrap).map _) = _
      rw [List.map_map]
      rfl

theorem inside_text (s : String) : inside (leaf (Item.other (α := α) (.text s))) =
    .ok (s.toList.map fun c => leaf (.other (.text (String.ofList [c])))) := by
  refine inside_eq_map rfl ?_
  by_cases hs : s = ""
  · rw [hs]
    rfl
  · have hchars : s.toList ≠ [] := fun hnil => hs (String.toList_eq_nil_iff.mp hnil)
    rw [List.isEmpty_eq_false_iff.mpr hchars]
    simpa [Datum.isPresent] using hs

theorem flattenWithin_of_inside {value : Nested (Item α)} {items : List (Nested (Item α))}
    (hinside : value.inside = .ok items) {calls : Nat} :
    flattenWithin (calls + 1) value =
      List.flatten <$> items.mapM (keepOr (flattenWithin calls)) := by
  rw [flattenWithin, hinside]
  rfl

/-- The first character of a text is a text again, so no number of calls is enough. -/
theorem flattenWithin_text {s : String} (hs : s ≠ "") (calls : Nat) :
    flattenWithin calls (leaf (Item.other (α := α) (.text s))) = .error .endlessNesting := by
  induction calls generalizing s with
  | zero => rfl
  | succ calls ih =>
      rw [flattenWithin, inside_text]
      cases hchars : s.toList with
      | nil => exact absurd (String.toList_eq_nil_iff.mp hchars) hs
      | cons c rest =>
          have hfirst : keepOr (flattenWithin (α := α) calls)
              (leaf (.other (.text (String.ofList [c])))) = .error .endlessNesting :=
            ih (by simp)
          have hall : ([] ++ leaf (Item.other (.text (String.ofList [c]))) ::
              rest.map fun c => leaf (Item.other (.text (String.ofList [c])))).mapM
                (keepOr (flattenWithin calls)) = .error .endlessNesting :=
            mapM_eq_error_of_first nofun hfirst
          exact congrArg (· >>= fun found => Except.ok found.flatten) hall

theorem flattenWithin_text_succ (s : String) (calls : Nat) :
    flattenWithin (calls + 1) (leaf (Item.other (α := α) (.text s))) = Item.throughText s := by
  by_cases hs : s = ""
  · rw [hs]
    rfl
  · rw [flattenWithin_text hs]
    exact (asPeriod_of_text (by simpa [Item.IsUsable, Datum.isPresent] using hs)).symm

theorem flattenWithin_number_succ (x : Float) (calls : Nat) :
    flattenWithin (calls + 1) (leaf (Item.other (α := α) (.real x))) =
      Item.emptyUnlessPresent (.real x) := by
  simp only [flattenWithin, inside, Item.emptyUnlessPresent]
  cases (Datum.real x).isPresent <;> rfl

/-- What is inside of a collection is gone through with one call less. -/
theorem flattenWithin_members {β : Type} {value : Datum} {wrap : β → Datum} {members : List β}
    {calls : Nat} {accept : β → Except Fault (List (PeriodConstraint α))}
    (hmembers : value.members = .ok (members.map wrap))
    (hpresent : value.isPresent = !members.isEmpty)
    (haccept : ∀ member, flattenWithin calls (leaf (.other (wrap member))) = accept member) :
    flattenWithin (calls + 1) (leaf (Item.other (α := α) value)) =
      List.flatten <$> members.mapM accept := by
  rw [flattenWithin_of_inside (inside_eq_map hmembers hpresent), List.mapM_map]
  exact congrArg (fun call => List.flatten <$> members.mapM call) (funext haccept)

/-- A leaf is done with as soon as there are more calls than it is deep. -/
theorem flattenWithin_leaf {value : Datum} (hlist : ∀ items, value ≠ .list items) {calls : Nat}
    (hdeep : depth (leaf (Item.other (α := α) value)) < calls) :
    flattenWithin calls (leaf (Item.other (α := α) value)) = (Item.other value).asPeriod := by
  cases calls with
  | zero => cases hdeep
  | succ calls =>
      cases value with
      | list items => exact absurd rfl (hlist items)
      | null => rfl
      | flag b => cases b <;> rfl
      | whole n =>
          simp only [flattenWithin, inside, Item.asPeriod, Item.emptyUnlessPresent]
          cases (Datum.whole n).isPresent <;> rfl
      | real x => exact flattenWithin_number_succ x calls
      | text s => exact flattenWithin_text_succ s calls
      | record fields =>
          obtain ⟨calls, rfl⟩ := Nat.exists_eq_succ_of_ne_zero
            (Nat.ne_zero_of_lt (Nat.lt_of_succ_lt_succ hdeep))
          exact flattenWithin_members rfl rfl
            fun entry : String × Datum => flattenWithin_text_succ entry.1 calls
      | vector components =>
          obtain ⟨calls, rfl⟩ := Nat.exists_eq_succ_of_ne_zero
            (Nat.ne_zero_of_lt (Nat.lt_of_succ_lt_succ hdeep))
          exact flattenWithin_members rfl rfl fun x : Float => flattenWithin_number_succ x calls

theorem depth_le_depthOf {item : Nested (Item α)} {items : List (Nested (Item α))}
    (h : item ∈ items) : depth item ≤ depthOf items := by
  induction items with
  | nil => cases h
  | cons first rest ih =>
      rw [depthOf]
      cases h with
      | head => exact Nat.le_max_left _ _
      | tail _ hrest => exact Nat.le_trans (ih hrest) (Nat.le_max_right _ _)

theorem listsAreGroups_of_mem {item : Nested (Item α)} {items : List (Nested (Item α))}
    (h : (group items).ListsAreGroups) (hitem : item ∈ items) : item.ListsAreGroups := by
  intro list hlist
  refine h list ?_
  rw [leaves]
  clear h
  induction items with
  | nil => cases hitem
  | cons first rest ih =>
      rw [leavesOf, List.mem_append]
      cases hitem with
      | head => exact Or.inl hlist
      | tail _ hrest => exact Or.inr (ih hrest)

theorem gatherAll_eq_mapM {β γ : Type} (accept : β → Except Fault (List γ))
    (items : List (Nested β)) :
    gatherAll accept items = List.flatten <$> items.mapM (gather accept) := by
  induction items with
  | nil => rfl
  | cons item rest ih =>
      rw [gatherAll, ih, List.mapM_cons]
      simp

/-- A value is done with as soon as there are more calls than it is deep. -/
theorem flattenWithin_eq {value : Nested (Item α)} (hlists : value.ListsAreGroups) {calls : Nat}
    (hdeep : value.depth < calls) : flattenWithin calls value = flattenPeriods value := by
  induction calls generalizing value with
  | zero => cases hdeep
  | succ calls ih =>
      cases value with
      | leaf item =>
          cases item with
          | decision c => rfl
          | period c => rfl
          | scenario c => rfl
          | other value =>
              exact flattenWithin_leaf (fun items hitems => hlists items (by simp [leaves, hitems]))
                hdeep
      | group items =>
          have hitems : ∀ item ∈ items,
              keepOr (flattenWithin calls) item = item.gather Item.asPeriod := by
            intro item hitem
            have hless : item.depth < calls :=
              Nat.lt_of_le_of_lt (depth_le_depthOf hitem) (Nat.lt_of_succ_lt_succ hdeep)
            have hcall := ih (listsAreGroups_of_mem hlists hitem) hless
            match item with
            | leaf (.period c) => rfl
            | leaf (.decision c) | leaf (.scenario c) | leaf (.other value) | group others =>
              exact hcall
          rw [flattenWithin_of_inside rfl, mapM_congr hitems, ← gatherAll_eq_mapM]
          rfl

/-- What has come to an end stays as it is with more calls. -/
theorem flattenWithin_succ {calls : Nat} {value : Nested (Item α)}
    (h : flattenWithin calls value ≠ .error .endlessNesting) :
    flattenWithin (calls + 1) value = flattenWithin calls value := by
  induction calls generalizing value with
  | zero => exact absurd rfl h
  | succ calls ih =>
      have hkeep (item : Nested (Item α))
          (hitem : keepOr (flattenWithin calls) item ≠ .error .endlessNesting) :
          keepOr (flattenWithin (calls + 1)) item = keepOr (flattenWithin calls) item :=
        match item with
        | leaf (.period c) => rfl
        | leaf (.decision c) | leaf (.scenario c) | leaf (.other value) | group others => ih hitem
      cases hinside : value.inside with
      | error fault => rw [flattenWithin, flattenWithin, hinside]; rfl
      | ok items =>
          rw [flattenWithin_of_inside hinside] at h
          rw [flattenWithin_of_inside hinside, flattenWithin_of_inside hinside,
            mapM_eq_of_ne (fun item _ => hkeep item)]
          intro hitems
          exact h (by rw [hitems]; rfl)

/-- An answer that was reached within some number of calls stays the same with more of them. -/
theorem flattenWithin_add {calls : Nat} {value : Nested (Item α)}
    (h : flattenWithin calls value ≠ .error .endlessNesting) (more : Nat) :
    flattenWithin (calls + more) value = flattenWithin calls value := by
  induction more with
  | zero => rfl
  | succ more ih =>
      rw [← Nat.add_assoc, flattenWithin_succ (ih ▸ h), ih]

/-- Calls come to an end just if flattening is not endless. -/
theorem flattenWithin_ends_iff {value : Nested (Item α)} (hlists : value.ListsAreGroups) :
    (∃ calls, flattenWithin calls value ≠ .error .endlessNesting) ↔
      flattenPeriods value ≠ .error .endlessNesting := by
  constructor
  · rintro ⟨calls, hends⟩
    have hdeep : value.depth < calls + (value.depth + 1) := by omega
    rwa [← flattenWithin_eq hlists hdeep, flattenWithin_add hends]
  · intro hends
    exact ⟨value.depth + 1, by rwa [flattenWithin_eq hlists (Nat.lt_succ_self _)]⟩

/-! What flattening comes to -/

/-- Either everything that is met can be used, or something stands in the way first. -/
theorem usable_or_obstacle (value : Nested (Item α)) :
    (∀ item ∈ value.met, item.IsUsable) ∨ ∃ item, value.FirstObstacle item := by
  rcases all_or_first Item.IsUsable value.met with
    hall | ⟨before, item, after, hmet, hbefore, hitem⟩
  · exact Or.inl hall
  · exact Or.inr ⟨item, before, after, hmet, hbefore, hitem⟩

theorem flattenPeriods_eq_met {value : Nested (Item α)} (h : ∀ c, value ≠ leaf (.period c)) :
    flattenPeriods value = List.flatten <$> value.met.mapM Item.asPeriod := by
  rw [← gather_eq_met]
  match value with
  | leaf (.period c) => exact absurd rfl (h c)
  | leaf (.decision c) | leaf (.scenario c) | leaf (.other datum) | group items => rfl

theorem filterMap_parts (item : Item α) :
    item.parts.filterMap Item.period? = item.period?.toList := by
  cases item with
  | decision c | period c | scenario c => rfl
  | other value =>
      cases value with
      | record fields => simp [Item.parts, Item.period?]
      | vector components => simp [Item.parts, Item.period?]
      | null | flag b | whole n | real x | text s | list items => rfl

theorem flattenPeriods_of_isUsable {value : Nested (Item α)}
    (hbare : ∀ c, value ≠ leaf (.period c)) (h : ∀ item ∈ value.met, item.IsUsable) :
    flattenPeriods value = .ok (value.leaves.filterMap Item.period?) := by
  have hmet : value.met.mapM Item.asPeriod =
      .ok (value.met.map fun item => item.period?.toList) :=
    mapM_eq_map fun item hitem => asPeriod_of_isUsable (h item hitem)
  rw [flattenPeriods_eq_met hbare, hmet]
  change Except.ok (value.met.map fun item => item.period?.toList).flatten = _
  rw [← List.flatMap_def, ← List.filterMap_eq_flatMap_toList, met, List.filterMap_flatMap]
  simp only [filterMap_parts]
  rw [← List.filterMap_eq_flatMap_toList]

theorem FirstObstacle.mem_met {value : Nested (Item α)} {item : Item α}
    (h : value.FirstObstacle item) : item ∈ value.met := by
  obtain ⟨before, after, hmet, -, -⟩ := h
  simp [hmet]

theorem FirstObstacle.not_isUsable {value : Nested (Item α)} {item : Item α}
    (h : value.FirstObstacle item) : ¬ item.IsUsable := by
  obtain ⟨before, after, -, -, hitem⟩ := h
  exact hitem

theorem FirstObstacle.flattenPeriods_eq {value : Nested (Item α)} {item : Item α} {fault : Fault}
    (h : value.FirstObstacle item) (hfault : item.asPeriod = .error fault) :
    flattenPeriods value = .error fault := by
  have hbare (c : PeriodConstraint α) : value ≠ leaf (.period c) := by
    rintro rfl
    have hitem : item = .period c := List.mem_singleton.mp h.mem_met
    exact h.not_isUsable (hitem ▸ trivial)
  obtain ⟨before, after, hmet, hbefore, -⟩ := h
  have hsucceeds : ∀ other ∈ before, ∃ found, other.asPeriod = .ok found :=
    fun other hother => ⟨_, asPeriod_of_isUsable (hbefore other hother)⟩
  rw [flattenPeriods_eq_met hbare, hmet, mapM_eq_error_of_first hsucceeds hfault]
  rfl

theorem FirstObstacle.parts_eq {value : Nested (Item α)} {item : Item α}
    (h : value.FirstObstacle item) : item.parts = [item] := by
  obtain ⟨leaf, -, hpart⟩ := List.mem_flatMap.mp h.mem_met
  exact parts_of_mem_parts hpart

theorem FirstObstacle.text_isEndless {value : Nested (Item α)} {s : String}
    (h : value.FirstObstacle (.other (.text s))) :
    flattenPeriods value = .error .endlessNesting :=
  h.flattenPeriods_eq (asPeriod_of_text h.not_isUsable)

theorem FirstObstacle.isRefused {value : Nested (Item α)} {item : Item α}
    (h : value.FirstObstacle item) (htext : ∀ s, item ≠ .other (.text s)) :
    flattenPeriods value = .error .wrongKind :=
  h.flattenPeriods_eq (asPeriod_of_obstacle h.parts_eq h.not_isUsable htext)

/-- Texts are the only values whose members never end: each of them is a text again. -/
theorem flattenPeriods_endless_iff {value : Nested (Item α)} :
    flattenPeriods value = .error .endlessNesting ↔
      ∃ s, value.FirstObstacle (.other (.text s)) := by
  constructor
  · intro hendless
    by_contra! hnone
    rcases usable_or_obstacle value with hall | ⟨item, hitem⟩
    · by_cases hbare : ∃ c, value = leaf (.period c)
      · obtain ⟨c, rfl⟩ := hbare
        cases hendless
      · rw [flattenPeriods_of_isUsable (not_exists.mp hbare) hall] at hendless
        cases hendless
    · rw [hitem.isRefused fun s hs => hnone s (hs ▸ hitem)] at hendless
      cases hendless
  · rintro ⟨s, hs⟩
    exact hs.text_isEndless

end Nested

/-! What is read -/

namespace ConstraintSpec

open Nested

variable {fields : List (String × Datum)} {value : Nested (Item Float)}

theorem listsAreGroups_of_wrapped {γ : Type} {wrap : γ → Item Float}
    (hwrap : ∀ member items, wrap member ≠ .other (.list items)) (members : List γ) :
    (Nested.group (members.map fun member => leaf (wrap member))).ListsAreGroups := by
  intro items
  rw [leaves]
  induction members with
  | nil => nofun
  | cons member rest ih => simpa [leavesOf, leaves, (hwrap member items).symm] using ih

theorem group_listsAreGroups (cs : List (Constraint Float)) : (group cs).ListsAreGroups :=
  listsAreGroups_of_wrapped nofun cs

theorem single_listsAreGroups (c : Constraint Float) : (single c).ListsAreGroups := by
  simp [Nested.ListsAreGroups, single, leaves]

theorem family_listsAreGroups {name : String} {args : List Datum}
    (h : family name args = .ok value) : value.ListsAreGroups := by
  unfold family at h
  split at h
  case h_1 | h_7 =>
    obtain rfl := pure_eq_ok.mp h
    exact single_listsAreGroups _
  case h_2 | h_3 | h_4 =>
    obtain ⟨n, -, h⟩ := bind_eq_ok.mp h
    obtain rfl := pure_eq_ok.mp h
    exact group_listsAreGroups _
  case h_5 =>
    obtain ⟨crossed, -, h⟩ := bind_eq_ok.mp h
    cases crossed with
    | true => cases h
    | false =>
        obtain ⟨n, -, h⟩ := bind_eq_ok.mp h
        split at h <;> obtain rfl := pure_eq_ok.mp h <;> exact group_listsAreGroups _
  case h_6 =>
    obtain ⟨returns, -, h⟩ := bind_eq_ok.mp h
    obtain rfl := pure_eq_ok.mp h
    exact single_listsAreGroups _
  case h_8 => exact absurd h throw_ne_ok

theorem decision_listsAreGroups {sort : Datum} (h : decision sort fields = .ok value) :
    value.ListsAreGroups := by
  unfold decision at h
  split at h
  case h_1 | h_2 =>
    obtain rfl := pure_eq_ok.mp h
    exact single_listsAreGroups _
  case h_3 =>
    obtain ⟨args, -, h⟩ := bind_eq_ok.mp h
    exact family_listsAreGroups h
  case h_4 => exact absurd h throw_ne_ok

theorem period_listsAreGroups {sort : Datum} (h : period sort fields = .ok value) :
    value.ListsAreGroups := by
  have hleaf (c : PeriodConstraint Float) : (leaf (Item.period c)).ListsAreGroups := by
    simp [Nested.ListsAreGroups, leaves]
  unfold period at h
  split at h
  case h_1 | h_2 | h_3 | h_4 | h_5 =>
    obtain rfl := pure_eq_ok.mp h
    exact hleaf _
  case h_6 | h_7 =>
    obtain ⟨bound, -, h⟩ := bind_eq_ok.mp h
    obtain rfl := pure_eq_ok.mp h
    exact hleaf _
  case h_8 =>
    obtain ⟨args, -, h⟩ := bind_eq_ok.mp h
    split at h
    case h_1 | h_3 =>
      obtain rfl := pure_eq_ok.mp h
      exact hleaf _
    case h_2 =>
      obtain ⟨n, -, h⟩ := bind_eq_ok.mp h
      obtain rfl := pure_eq_ok.mp h
      exact listsAreGroups_of_wrapped nofun _
    all_goals exact absurd h throw_ne_ok
  case h_9 => exact absurd h throw_ne_ok

mutual

/-- What is read has no lists among its leaves. -/
theorem read_listsAreGroups : {datum : Datum} → {value : Nested (Item Float)} →
    (h : read datum = .ok value) → value.ListsAreGroups
  | .list items, value, h => by
      rw [read] at h
      obtain ⟨read, hread, h⟩ := bind_eq_ok.mp h
      obtain rfl := pure_eq_ok.mp h
      exact readAll_listsAreGroups hread
  | .record fields, value, h => by
      rw [read] at h
      split at h
      · exact decision_listsAreGroups h
      · exact period_listsAreGroups h
      · obtain ⟨c, -, h⟩ := bind_eq_ok.mp h
        obtain rfl := pure_eq_ok.mp h
        simp [Nested.ListsAreGroups, leaves]
      · cases h
        simp [Nested.ListsAreGroups, leaves]
  | .null, value, h | .flag _, value, h | .whole _, value, h | .real _, value, h
  | .text _, value, h | .vector _, value, h => by
      cases h
      simp [Nested.ListsAreGroups, leaves]

theorem readAll_listsAreGroups : {datums : List Datum} → {items : List (Nested (Item Float))} →
    (h : readAll datums = .ok items) → (Nested.group items).ListsAreGroups
  | [], items, h => by
      cases h
      simp [Nested.ListsAreGroups, leaves, leavesOf]
  | datum :: rest, items, h => by
      rw [readAll] at h
      obtain ⟨first, hfirst, h⟩ := bind_eq_ok.mp h
      obtain ⟨others, hothers, h⟩ := bind_eq_ok.mp h
      obtain rfl := pure_eq_ok.mp h
      intro list hlist
      rw [leaves, leavesOf, List.mem_append] at hlist
      rcases hlist with hlist | hlist
      · exact read_listsAreGroups hfirst list hlist
      · exact readAll_listsAreGroups hothers list hlist

end

end ConstraintSpec

open Nested

/-- Flattening by calls within calls comes to an end unless a text stands before everything else
that cannot be used. Then there are never more calls open than lists, records and vectors are
nested, and flattening gives the constraints in order, or refuses the value for the first thing in
it that cannot be used. A constraint is no list of constraints, so alone it is refused. -/
theorem flattening_ends_unless_text_first {value : Nested (Item α)}
    (hlists : value.ListsAreGroups) :
    ((∃ calls, flattenWithin calls value ≠ .error .endlessNesting) ↔
      ¬ ∃ s, value.FirstObstacle (.other (.text s))) ∧
    (∀ calls, value.depth < calls → flattenWithin calls value = flattenPeriods value) ∧
    ((∀ c, value ≠ leaf (.period c)) → (∀ item ∈ value.met, item.IsUsable) →
      flattenPeriods value = .ok (value.leaves.filterMap Item.period?)) ∧
    (∀ c, value = leaf (.period c) → flattenPeriods value = .error .wrongKind) ∧
    ∀ item, value.FirstObstacle item → (∀ s, item ≠ .other (.text s)) →
      flattenPeriods value = .error .wrongKind := by
  refine ⟨?_, fun calls => flattenWithin_eq hlists, flattenPeriods_of_isUsable, ?_,
    fun item hitem => hitem.isRefused⟩
  · rw [flattenWithin_ends_iff hlists, Ne, flattenPeriods_endless_iff]
  · rintro c rfl
    rfl

section Requests

/-- A budget beside nothing, a record with an empty key, then a number before a text. -/
def numberBeforeText : Datum :=
  .list [.list [.record [("pc", .text "budget_each_period")], .null], .record [("", .whole 1)],
    .list [.whole 3, .text "cap"]]

def numberBeforeTextItems : Nested (Item Float) :=
  group [group [leaf (.period .budgetEachPeriod), leaf (.other .null)],
    leaf (.other (.record [("", .whole 1)])),
    group [leaf (.other (.whole 3)), leaf (.other (.text "cap"))]]

theorem read_numberBeforeText :
    ConstraintSpec.read numberBeforeText = .ok numberBeforeTextItems := rfl

/-- The number is refused before the text is looked at, within three calls. -/
theorem numberBeforeText_refused :
    numberBeforeTextItems.ListsAreGroups ∧
    numberBeforeTextItems.FirstObstacle (.other (.whole 3)) ∧
    flattenWithin 3 numberBeforeTextItems = .error .wrongKind ∧
    ¬ ∃ s, numberBeforeTextItems.FirstObstacle (.other (.text s)) := by
  have hlists := ConstraintSpec.read_listsAreGroups read_numberBeforeText
  have hnumber : numberBeforeTextItems.FirstObstacle (.other (.whole 3)) := by
    refine ⟨[.period .budgetEachPeriod, .other .null, .other (.text "")], [.other (.text "cap")],
      rfl, ?_, nofun⟩
    intro item hitem
    fin_cases hitem <;> trivial
  obtain ⟨hends, hdeep, -, -, hrefused⟩ := flattening_ends_unless_text_first hlists
  have hrefused := hrefused _ hnumber nofun
  have hthree : flattenWithin 3 numberBeforeTextItems = .error .wrongKind := by
    rw [hdeep 3 (by decide), hrefused]
  refine ⟨hlists, hnumber, hthree, hends.mp ⟨3, ?_⟩⟩
  rw [hthree]
  nofun

/-- A text among constraints is gone through without an end. -/
theorem text_never_ends :
    ¬ ∃ calls, flattenWithin calls (group [leaf (Item.other (α := Float) (.text "cap"))]) ≠
      .error .endlessNesting := by
  have hlists : (group [leaf (Item.other (α := Float) (.text "cap"))]).ListsAreGroups := by
    simp [ListsAreGroups, leaves, leavesOf]
  rw [flattenWithin_ends_iff hlists, not_not, flattenPeriods_endless_iff]
  exact ⟨"cap", [], [], rfl, nofun, nofun⟩

end Requests

end Optima
