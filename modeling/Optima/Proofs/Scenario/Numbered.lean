import Mathlib.Data.List.Forall2
import Mathlib.Data.List.Induction
import Mathlib.Data.List.Nodup
import Optima.Input.ScenarioSpec
import Optima.Proofs.Scenario.Names

/-!
What equally likely scenarios keep of the draws they are made from. A number can be read off a
numbered name, so numbered names are all different, and neither parameters without names nor
scenarios get one name twice. A draw whose parameters have different names keeps each of them: it is
found under its own name, and storing the parameters one after the other replaces none.
-/

namespace Optima

/-- The number behind a label can be read off. -/
theorem numbered_injective {label : String} {i j : ℕ} (h : numbered label i = numbered label j) :
    i = j := by
  have hcharacters := congrArg String.toList h
  rw [numbered, numbered, String.toList_append, String.toList_append] at hcharacters
  have hdigits := congrArg (fun digits => Nat.ofDigitChars 10 digits 0)
    (List.append_cancel_left hcharacters)
  simpa [Nat.toString_eq_ofList_toDigits] using hdigits

section Entries

variable {β : Type} {entries : List (String × β)}

theorem mem_iff_find?_of_nodup (h : (entries.map Prod.fst).Nodup) {key : String} {value : β} :
    (key, value) ∈ entries ↔
      (entries.find? fun entry => entry.1 == key).map Prod.snd = some value := by
  induction entries with
  | nil => simp
  | cons entry rest ih =>
      obtain ⟨name, first⟩ := entry
      rw [List.map_cons, List.nodup_cons] at h
      obtain ⟨hfresh, hrest⟩ := h
      rw [List.mem_cons, List.find?_cons, Prod.mk.injEq]
      by_cases hname : name = key
      · subst hname
        have hnone : (name, value) ∉ rest := fun hmem => hfresh (List.mem_map.mpr ⟨_, hmem, rfl⟩)
        simp [hnone, eq_comm]
      · rw [beq_false_of_ne hname, ih hrest]
        simp [Ne.symm hname]

theorem Datum.store_of_fresh {key : String} (value : β) (h : key ∉ entries.map Prod.fst) :
    store (· == ·) entries key value = entries ++ [(key, value)] := by
  have hnone : (entries.any fun entry => entry.1 == key) = false := by
    rw [List.any_eq_false]
    intro entry hentry hsame
    exact h (eq_of_beq hsame ▸ List.mem_map_of_mem hentry)
  rw [store, hnone]
  rfl

/-- Storing entries under different names replaces none of them. -/
theorem Datum.storeAll_eq_self (h : (entries.map Prod.fst).Nodup) :
    storeAll (· == ·) entries = entries := by
  induction entries using List.reverseRecOn with
  | nil => rfl
  | append_singleton entries entry ih =>
      rw [List.map_append, List.map_singleton, List.nodup_append_comm] at h
      obtain ⟨hfresh, hentries⟩ := List.nodup_cons.mp h
      rw [storeAll, List.foldl_append]
      change store (· == ·) (storeAll (· == ·) entries) entry.1 entry.2 = _
      rw [ih hentries]
      exact store_of_fresh entry.2 hfresh

theorem keys_numberedParameters (label : String) (values : List β) :
    (numberedParameters label values).map Prod.fst =
      (List.range values.length).map (numbered label) := by
  calc (numberedParameters label values).map Prod.fst
      = (values.zipIdx.map Prod.snd).map (numbered label) := by
        rw [numberedParameters, List.map_map, List.map_map]
        rfl
    _ = (List.range values.length).map (numbered label) := by
        rw [List.zipIdx_map_snd, List.range_eq_range']

theorem values_numberedParameters (label : String) (values : List β) :
    (numberedParameters label values).map Prod.snd = values := by
  rw [numberedParameters, List.map_map]
  exact List.zipIdx_map_fst 0 values

theorem nodup_keys_numberedParameters (label : String) (values : List β) :
    ((numberedParameters label values).map Prod.fst).Nodup := by
  rw [keys_numberedParameters]
  exact List.nodup_range.map fun _ _ => numbered_injective

theorem mem_numberedParameters {label : String} {values : List β} {j : ℕ} {value : β} :
    (numbered label j, value) ∈ numberedParameters label values ↔ values[j]? = some value := by
  rw [numberedParameters, List.mem_map]
  constructor
  · rintro ⟨⟨found, i⟩, hfound, hentry⟩
    obtain ⟨hkey, rfl⟩ := Prod.mk.inj hentry
    rw [← numbered_injective hkey]
    exact List.mem_zipIdx_iff_getElem?.mp hfound
  · exact fun hplace => ⟨(value, j), List.mem_zipIdx_iff_getElem?.mpr hplace, rfl⟩

end Entries

section Drafts

variable {α : Type}

/-- A draw whose parameters have different names. Values without names are numbered. -/
def Draft.IsKeyed : Draft α → Prop
  | .scenario s => s.parameterNames.Nodup
  | .mapping entries => (entries.map Prod.fst).Nodup
  | .values _ => True

theorem Draft.IsKeyed.nodup {draft : Draft α} (h : draft.IsKeyed) :
    (draft.parameters.map Prod.fst).Nodup := by
  cases draft with
  | scenario s => exact h
  | mapping entries => exact h
  | values items => exact nodup_keys_numberedParameters "param_" items

/-- A scenario with all parameters of a draw, each of them under its own name. -/
structure Draft.KeptBy (draft : Draft α) (s : Scenario α) : Prop where
  parameters : s.parameters = draft.parameters
  nodup : s.parameterNames.Nodup
  stored : Datum.storeAll (· == ·) s.parameters = s.parameters
  found {key : String} {value : α} :
    (key, value) ∈ draft.parameters ↔ s.get? key = some value
  /-- Values without names stand in the order of the draw. -/
  inOrder {items : List α} : draft = .values items →
    s.values = items ∧ ∀ j, s.get? (numbered "param_" j) = items[j]?

theorem Draft.IsKeyed.keptBy {draft : Draft α} (h : draft.IsKeyed) {s : Scenario α}
    (hs : s.parameters = draft.parameters) : draft.KeptBy s := by
  have hnodup := h.nodup
  have hfound {key : String} {value : α} :
      (key, value) ∈ draft.parameters ↔ s.get? key = some value := by
    rw [Scenario.get?, hs]
    exact mem_iff_find?_of_nodup hnodup
  refine ⟨hs, ?_, ?_, hfound, ?_⟩
  · rw [Scenario.parameterNames, hs]
    exact hnodup
  · rw [hs]
    exact Datum.storeAll_eq_self hnodup
  · rintro items rfl
    refine ⟨?_, fun j => Option.ext fun value => ?_⟩
    · rw [Scenario.values, hs]
      exact values_numberedParameters "param_" items
    · rw [← hfound]
      exact mem_numberedParameters

variable [Scalar α]

/-- Scenarios that stand for draws: one for each, in order, with its parameters. They are numbered
and equally likely. -/
structure Scenario.Represents (drafts : List (Draft α)) (scenarios : List (Scenario α)) : Prop where
  kept : List.Forall₂ Draft.KeptBy drafts scenarios
  names : scenarios.map (·.name) =
    (List.range drafts.length).map fun i => Label.ofText (numbered "scenario_" i)
  apart : scenarios.Pairwise fun s t => s.name.same t.name = false
  probability : ∀ s ∈ scenarios, s.probability = 1 / Scalar.natural drafts.length

theorem Label.same_ofText (a b : String) : (Label.ofText a).same (Label.ofText b) = (a == b) := rfl

namespace Scenario

variable {drafts : List (Draft α)} {scenarios : List (Scenario α)}

theorem Represents.map_parameters (h : Represents drafts scenarios) :
    scenarios.map (·.parameters) = drafts.map Draft.parameters := by
  rw [← List.forall₂_eq_eq_eq, List.forall₂_map_left_iff, List.forall₂_map_right_iff]
  exact h.kept.flip.imp fun _ _ hkept => hkept.parameters

theorem Represents.map_values {rows : List (List α)} (h : Represents (rows.map .values) scenarios) :
    scenarios.map values = rows := by
  rw [← List.forall₂_eq_eq_eq, List.forall₂_map_left_iff]
  exact (List.forall₂_map_left_iff.mp h.kept).flip.imp fun _ _ hkept => (hkept.inOrder rfl).1

theorem names_ofDrafts (drafts : List (Draft α)) : (ofDrafts drafts).map (·.name) =
    (List.range drafts.length).map fun i => Label.ofText (numbered "scenario_" i) := by
  calc (ofDrafts drafts).map (·.name)
      = (drafts.zipIdx.map Prod.snd).map fun i => Label.ofText (numbered "scenario_" i) := by
        rw [ofDrafts, List.map_map, List.map_map]
        rfl
    _ = _ := by rw [List.zipIdx_map_snd, List.range_eq_range']

/-- Scenarios from draws stand for them. -/
theorem represents_ofDrafts (h : ∀ draft ∈ drafts, draft.IsKeyed) :
    Represents drafts (ofDrafts drafts) := by
  have hnames := names_ofDrafts drafts
  refine ⟨?_, hnames, ?_, ?_⟩
  · have hkept : List.Forall₂ Draft.KeptBy (drafts.zipIdx.map Prod.fst) (ofDrafts drafts) := by
      rw [ofDrafts, List.forall₂_map_left_iff, List.forall₂_map_right_iff, List.forall₂_same]
      rintro ⟨draft, i⟩ hentry
      exact (h draft (List.fst_mem_of_mem_zipIdx hentry)).keptBy rfl
    rwa [List.zipIdx_map_fst] at hkept
  · have happart : ((ofDrafts drafts).map (·.name)).Pairwise fun a b => a.same b = false := by
      rw [hnames, List.pairwise_map]
      refine List.nodup_range.imp fun hne => ?_
      rw [Label.same_ofText]
      exact beq_false_of_ne fun hequal => hne (numbered_injective hequal)
    exact List.pairwise_map.mp happart
  · rw [ofDrafts, List.forall_mem_map]
    exact fun _ _ => rfl

end Scenario

end Drafts

end Optima
