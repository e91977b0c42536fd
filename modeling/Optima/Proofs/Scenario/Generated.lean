import Mathlib
import Optima.Input.Generator
import Optima.Proofs.Random.Shaped
import Optima.Proofs.Scalar.Reciprocal
import Optima.Proofs.Scenario.Mass
import Optima.Proofs.Scenario.Numbered

/-!
Generated scenarios are faithful to the draws they are made from, and they can always be used. A
distribution gives a scenario for each row of its sample, with the numbers of the row in order; a
generator of any kind gives one for each draw and keeps its parameters. Equally likely scenarios
pass every check of those who use them: none is left out, and all have the same weight. In exact
arithmetic the weight is one divided by their number, and what is optimized is the plain average.
Only a number of scenarios that is too large for a double gives none.
-/

namespace Optima

open Scalar

section Weights

variable {α : Type} [Scalar α] [Ranked α] {p : α}

theorem Ranked.less_eq_false_of_less {x y : α} (h : less x y = true) : less y x = false := by
  rw [← Bool.not_eq_true]
  intro hback
  exact lt_asymm ((Ranked.less_iff x y).mp h).2.2 ((Ranked.less_iff y x).mp hback).2.2

theorem Ranked.atMost_eq_false_of_less {x y : α} (h : less x y = true) : atMost y x = false := by
  rw [← Bool.not_eq_true]
  intro hback
  exact ((Ranked.less_iff x y).mp h).2.2.not_ge ((Ranked.atMost_iff y x).mp hback).2.2

/-- Equal probabilities get equal weights. -/
theorem normalizedWeights_replicate
    (hadd : ∀ x y : α, less 0 x = true → less 0 y = true → less 0 (x + y) = true)
    (hp : less 0 p = true) (hfinite : isFinite p = true) {n : ℕ} (hn : 0 < n) :
    normalizedWeights (List.replicate n p) =
      .ok (List.replicate n (p / total (List.replicate n p))) := by
  have hmembers : ∀ q ∈ List.replicate n p, q = p := fun _ => List.eq_of_mem_replicate
  have haccepted : ((List.replicate n p).any fun q => less q 0 || !isFinite q) = false := by
    rw [List.any_eq_false]
    intro q hq
    rw [hmembers q hq, Ranked.less_eq_false_of_less hp, hfinite]
    exact Bool.false_ne_true
  have hpossible : (List.replicate n p).filter isPossible = List.replicate n p :=
    List.filter_eq_self.mpr fun q hq => hmembers q hq ▸ hp
  have htotal : less 0 (total (List.replicate n p)) = true := by
    have hne : List.replicate n p ≠ [] := List.ne_nil_of_length_pos (by simpa using hn)
    exact total_of_closed hadd hne fun q hq => hmembers q hq ▸ hp
  simp only [normalizedWeights, haccepted, hpossible, Ranked.atMost_eq_false_of_less htotal,
    Bool.false_eq_true, if_false, List.map_replicate]

/-- An outlook that leaves out none of its scenarios and gives all of them the same weight. -/
structure Outlook.IsUniform (o : Outlook α) (scenarios : List (Scenario α)) (weight : α) :
    Prop where
  listed : o.scenarios = scenarios
  mask : o.mask = List.replicate scenarios.length true
  active : o.active = scenarios
  weights : o.weights = List.replicate scenarios.length weight

/-- Scenarios that stand for draws are accepted if their number has a positive finite reciprocal. -/
theorem Scenario.Represents.accepted {drafts : List (Draft α)} {scenarios : List (Scenario α)}
    (h : Represents drafts scenarios)
    (hadd : ∀ x y : α, less 0 x = true → less 0 y = true → less 0 (x + y) = true)
    (hp : p = 1 / natural drafts.length) (hpositive : less 0 p = true)
    (hfinite : isFinite p = true) (hdrafts : 0 < drafts.length) :
    ∃ o, Outlook.ofScenarios scenarios = .ok o ∧
      o.IsUniform scenarios (p / total (List.replicate drafts.length p)) := by
  have hlength : scenarios.length = drafts.length := h.kept.length_eq.symm
  have hne : scenarios ≠ [] := List.ne_nil_of_length_pos (hlength ▸ hdrafts)
  have hprobabilities : scenarios.map (·.probability) = List.replicate scenarios.length p := by
    rw [List.map_eq_replicate_iff, hp]
    exact h.probability
  have hchecked : ∀ name ∈ scenarios.map (·.name), name.check = .ok () := by
    rw [h.names, List.forall_mem_map]
    exact fun i _ => Label.check_eq_ok.mpr ⟨_, rfl⟩
  have hrepeated : Label.repeated (scenarios.map (·.name)) = [] := by
    rw [Label.repeated_eq_nil]
    exact fun name hname =>
      Label.countP_same_le_one hchecked (List.pairwise_map.mpr h.apart) hname
  let o : Outlook α :=
    ⟨scenarios, List.replicate scenarios.length (p / total (List.replicate scenarios.length p))⟩
  have haccepted : Outlook.ofScenarios scenarios = .ok o := by
    refine Outlook.ofScenarios_eq_ok.mpr ⟨hne, hrepeated, rfl, ?_⟩
    rw [hprobabilities]
    exact normalizedWeights_replicate hadd hpositive hfinite (hlength ▸ hdrafts)
  rw [← hlength]
  refine ⟨o, haccepted, rfl, ?_, ?_, rfl⟩
  · change (scenarios.map (·.probability)).map isPossible = _
    rw [hprobabilities, List.map_replicate]
    exact congrArg _ hpositive
  · rw [Outlook.active_eq_filter, List.filter_eq_self]
    intro s hs
    rw [h.probability s hs, ← hp]
    exact hpositive

end Weights

section Exactly

variable {drafts : List (Draft ℝ)} {scenarios : List (Scenario ℝ)}

/-- In exact arithmetic the weight is one divided by the number of scenarios. -/
theorem Scenario.Represents.accepted_exactly (h : Represents drafts scenarios)
    (hdrafts : 0 < drafts.length) :
    ∃ o, Outlook.ofScenarios scenarios = .ok o ∧ o.IsUniform scenarios (1 / drafts.length) := by
  have hcount : (0 : ℝ) < drafts.length := Nat.cast_pos.mpr hdrafts
  have hpositive : less 0 (1 / (drafts.length : ℝ)) = true := by
    rw [Exact.less_iff]
    exact one_div_pos.mpr hcount
  have hshare : 1 / (drafts.length : ℝ) /
      total (List.replicate drafts.length (1 / (drafts.length : ℝ))) = 1 / drafts.length := by
    rw [Exact.total_eq, List.sum_replicate, nsmul_eq_mul, mul_one_div_cancel hcount.ne', div_one]
  rw [← hshare]
  exact h.accepted (fun _ _ => Exact.add_positive) rfl hpositive rfl hdrafts

/-- A sum in which everything counts alike is a multiple of the plain sum, and it fails where that
fails. -/
theorem foldlM_uniform {β : Type} (value : β → Except Fault ℝ) (weight start : ℝ)
    (members : List β) :
    (members.map fun b => (weight, b)).foldlM (fun total (entry : ℝ × β) => do
        return total + entry.1 * (← value entry.2)) start =
      (fun values => start + weight * values.sum) <$> members.mapM value := by
  induction members generalizing start with
  | nil =>
      change Except.ok start = Except.ok (start + weight * [].sum)
      rw [List.sum_nil, mul_zero, add_zero]
  | cons b rest ih =>
      rw [List.map_cons, List.foldlM_cons, List.mapM_cons]
      cases hvalue : value b with
      | error fault => rfl
      | ok v =>
          change List.foldlM _ (start + weight * v) _ = _
          rw [ih]
          cases hrest : rest.mapM value with
          | error fault => rfl
          | ok values =>
              change Except.ok _ = Except.ok (start + weight * (v :: values).sum)
              rw [List.sum_cons, mul_add, ← add_assoc]

/-- With equal weights the expected objective is the plain average. -/
theorem Outlook.IsUniform.objective_eq {o : Outlook ℝ}
    (h : o.IsUniform scenarios (1 / scenarios.length))
    (objective : Vec ℝ → Scenario ℝ → Except Fault ℝ) (constraints : List (Constraint ℝ))
    (sense : Sense) (x : Vec ℝ) :
    (o.problem objective constraints sense).objective x =
      (fun values : List ℝ => values.sum / scenarios.length) <$> scenarios.mapM (objective x) := by
  have hweights : o.weights = scenarios.map fun _ => 1 / (scenarios.length : ℝ) := by
    rw [h.weights, List.map_const']
  change o.expected objective x = _
  rw [expected, hweights, h.active, zip_map_self, foldlM_uniform]
  refine congrFun (congrArg _ (funext fun values => ?_)) _
  rw [zero_add, one_div, inv_mul_eq_div]

/-- The optimized objective is the plain average over the scenarios. Where only parameters are
looked at, it is the one over the draws. -/
structure Outlook.AveragesOver (o : Outlook ℝ) (drafts : List (Draft ℝ)) : Prop where
  scenarios (objective : Vec ℝ → Scenario ℝ → Except Fault ℝ) (constraints : List (Constraint ℝ))
    (sense : Sense) (x : Vec ℝ) :
    (o.problem objective constraints sense).objective x =
      (fun values : List ℝ => values.sum / drafts.length) <$> o.scenarios.mapM (objective x)
  draws (rule : Vec ℝ → List (String × ℝ) → Except Fault ℝ) (constraints : List (Constraint ℝ))
    (sense : Sense) (x : Vec ℝ) :
    (o.problem (fun y s => rule y s.parameters) constraints sense).objective x =
      (fun values : List ℝ => values.sum / drafts.length) <$>
        drafts.mapM fun draft => rule x draft.parameters

/-- Equal weights make the expected objective a plain average. -/
theorem Scenario.Represents.averagesOver (h : Represents drafts scenarios) {o : Outlook ℝ}
    (ho : o.IsUniform scenarios (1 / drafts.length)) : o.AveragesOver drafts := by
  have hlength : scenarios.length = drafts.length := h.kept.length_eq.symm
  have haverage (objective : Vec ℝ → Scenario ℝ → Except Fault ℝ)
      (constraints : List (Constraint ℝ)) (sense : Sense) (x : Vec ℝ) :
      (o.problem objective constraints sense).objective x =
        (fun values : List ℝ => values.sum / drafts.length) <$> scenarios.mapM (objective x) := by
    rw [← hlength] at ho ⊢
    exact ho.objective_eq objective constraints sense x
  refine ⟨?_, fun rule constraints sense x => ?_⟩
  · rw [ho.listed]
    exact haverage
  · have hdraws : (scenarios.mapM fun s => rule x s.parameters) =
        drafts.mapM fun draft => rule x draft.parameters := by
      calc (scenarios.mapM fun s => rule x s.parameters)
          = (scenarios.map (·.parameters)).mapM (rule x) := List.mapM_map.symm
        _ = (drafts.map Draft.parameters).mapM (rule x) := by rw [h.map_parameters]
        _ = drafts.mapM fun draft => rule x draft.parameters := List.mapM_map
    rw [haverage, hdraws]

end Exactly

section Doubles

/-- Scenarios that stand for draws, each of them with a probability, and accepted as a whole. -/
structure Scenario.Faithful (drafts : List (Draft Float)) (scenarios : List (Scenario Float)) :
    Prop where
  represents : Represents drafts scenarios
  valid : ∀ s ∈ scenarios, Scenario.checked s.name s.probability s.parameters = .ok s
  accepted : ∃ o weight, Outlook.ofScenarios scenarios = .ok o ∧ o.IsUniform scenarios weight

theorem Scenario.checked_eq_ok {s : Scenario Float} (hfinite : s.probability.isFinite = true)
    (hpositive : less 0 s.probability = true) (hone : atMost s.probability 1.0 = true) :
    checked s.name s.probability s.parameters = .ok s := by
  have hnonneg : atMost 0.0 s.probability = true := by
    obtain ⟨hzero, hdefined, hlt⟩ := (Ranked.less_iff _ _).mp hpositive
    exact (Ranked.atMost_iff _ _).mpr ⟨hzero, hdefined, hlt.le⟩
  have hbounds : (s.probability.isFinite && decide (0.0 ≤ s.probability) &&
      decide (s.probability ≤ 1.0)) = true := by
    rw [Bool.and_eq_true, Bool.and_eq_true]
    exact ⟨⟨hfinite, hnonneg⟩, hone⟩
  unfold checked
  rw [if_pos hbounds]

/-- Scenarios from draws are faithful if their number is finite as a double. -/
theorem Scenario.faithful_ofDrafts {drafts : List (Draft Float)}
    (hkeyed : ∀ draft ∈ drafts, draft.IsKeyed) (hdrafts : 0 < drafts.length)
    (hfinite : (natural drafts.length : Float).isFinite = true) :
    Faithful drafts (ofDrafts drafts) := by
  have hrepresents := represents_ofDrafts hkeyed
  obtain ⟨hpositive, hshare, hone⟩ := Binary64.one_div_natural hdrafts hfinite
  refine ⟨hrepresents, fun s hs => ?_, ?_⟩
  · have hprobability : s.probability = 1.0 / natural drafts.length := hrepresents.probability s hs
    apply checked_eq_ok
    · rw [hprobability]
      exact hshare
    · rw [hprobability]
      exact hpositive
    · rw [hprobability]
      exact hone
  · obtain ⟨o, haccepted, huniform⟩ :=
      hrepresents.accepted (fun _ _ => Binary64.add_positive) rfl hpositive hshare hdrafts
    exact ⟨o, _, haccepted, huniform⟩

/-- Scenarios for the rows of an array: as many as there are rows, each with the numbers of its row
in order, and with as many parameters. -/
structure Scenario.FromRows (count dimension : ℕ) (entries : List Float)
    (scenarios : List (Scenario Float)) : Prop where
  length : scenarios.length = count
  faithful : Faithful ((Tensor.rows dimension count entries).map .values) scenarios
  arrays : scenarios.mapM (·.array .null) = .ok (Tensor.rows dimension count entries)
  flatten : (Tensor.rows dimension count entries).flatten = entries
  width : ∀ s ∈ scenarios, s.parameters.length = dimension

/-- Cutting an array into rows and numbering them keeps every number at its place. -/
theorem Scenario.fromRows_ofDrafts {n dimension : ℕ} {entries : List Float} (hn : 0 < n)
    (hentries : entries.length = n * dimension) (hfinite : (natural n : Float).isFinite = true) :
    FromRows n dimension entries
      (ofDrafts ((Tensor.rows dimension n entries).map .values)) := by
  obtain ⟨hcount, hcolumns, hflatten⟩ := Tensor.rows_of_length hentries
  have hlength :
      ((Tensor.rows dimension n entries).map (Draft.values (α := Float))).length = n := by
    rw [List.length_map, hcount]
  have hfaithful : Faithful ((Tensor.rows dimension n entries).map .values)
      (ofDrafts ((Tensor.rows dimension n entries).map .values)) := by
    refine faithful_ofDrafts (List.forall_mem_map.mpr fun _ _ => trivial) ?_ ?_
    · rw [hlength]
      exact hn
    · rw [hlength]
      exact hfinite
  have hvalues := hfaithful.represents.map_values
  refine ⟨?_, hfaithful, ?_, hflatten, fun s hs => ?_⟩
  · rw [← hfaithful.represents.kept.length_eq, hlength]
  · exact (mapM_eq_map fun _ _ => rfl).trans (congrArg Except.ok hvalues)
  · have hrow : s.values ∈ Tensor.rows dimension n entries := hvalues ▸ List.mem_map_of_mem hs
    rw [← hcolumns _ hrow, values, List.length_map]

end Doubles

section Generators

variable {σ : Type} {draw : ℕ → Draw σ (Draft Float)} {n : ℕ} {s s' : σ}
  {drafts : List (Draft Float)}

theorem Draw.length_of_each {β γ : Type} {draw : γ → Draw σ β} {items : List γ} {results : List β}
    (h : Draw.each draw items s = .ok (results, s')) : results.length = items.length := by
  induction items generalizing s results with
  | nil =>
      cases h
      rfl
  | cons item rest ih =>
      obtain ⟨⟨first, t⟩, -, hothers⟩ := bind_eq_ok.mp h
      obtain ⟨⟨others, t'⟩, hrest, hpair⟩ := bind_eq_ok.mp hothers
      cases hpair
      rw [List.length_cons, List.length_cons, ih hrest]

theorem Scenario.generate_eq_ok (hfinite : (natural n : Float).isFinite = true)
    (hdraws : Draw.each draw (List.range n) s = .ok (drafts, s')) :
    generate draw n s = .ok (ofDrafts drafts, s') := by
  have hcount : Scalar.isFinite (natural n : Float) = true := hfinite
  unfold generate
  rw [hcount]
  change (Draw.each draw (List.range n) s >>= _) = _
  rw [hdraws]
  rfl

/-- A number that is too large is found out after the first draw. -/
theorem Scenario.generate_eq_error (hfinite : (natural n : Float).isFinite = false) (hn : 0 < n)
    (hdraws : Draw.each draw (List.range n) s = .ok (drafts, s')) :
    generate draw n s = .error .tooLarge := by
  have hcount : Scalar.isFinite (natural n : Float) = false := hfinite
  obtain ⟨k, rfl⟩ := Nat.exists_eq_add_one.mpr hn
  rw [List.range_succ_eq_map] at hdraws
  obtain ⟨⟨first, t⟩, hfirst, -⟩ := bind_eq_ok.mp hdraws
  unfold generate
  rw [hcount]
  change (draw 0 s >>= _) = _
  rw [hfirst]
  rfl

end Generators

/-- Scenarios drawn from a distribution are those of the rows of its sample. -/
theorem Scenario.ofDistribution_fromRows [Random.Environment] {d : Distribution Float}
    (hshaped : d.IsShaped) {count seed : Datum} {n : ℕ} {t : Tensor}
    (hcount : Check.count count "number_of_scenarios" = .ok n)
    (ht : d.sampleGiven (.whole n) seed = .ok t) :
    t.shape = [n, d.dimension] ∧ ∃ scenarios, ofDistribution d count seed = .ok scenarios ∧
      FromRows n d.dimension t.entries scenarios := by
  obtain ⟨hn, -, -⟩ := Check.count_eq_ok.mp hcount
  obtain ⟨hshape, hentries, hmemory⟩ := hshaped.of_sampleGiven hn ht
  have hlog : n.log2 < 33 := (Nat.log2_lt hn.ne').mpr hmemory
  have hfinite := Binary64.natural_isFinite hn (hlog.trans (by decide))
  refine ⟨hshape, _, ?_, fromRows_ofDrafts hn hentries hfinite⟩
  rw [ofDistribution, hcount]
  change (d.sampleGiven (.whole n) seed >>= _) = _
  rw [ht]
  rfl

section Requests

def observedOnce : List (String × Datum) :=
  [("kind", .text "empirical"), ("observations", .list [.list [.real 1.0, .real 2.0]])]

theorem ofFields_observedOnce :
    Distribution.ofFields observedOnce = .ok (.empirical ⟨[1.0, 2.0]⟩ []) := rfl

def namedDraw : ℕ → Draw Unit (Draft Float) := fun _ =>
  return .mapping [("rate", 0.5), ("growth", -1.0)]

end Requests

end Optima
