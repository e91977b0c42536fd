import Optima.Proofs.Minimizer.Confined
import Optima.Proofs.Solver.Lockstep

/-!
Problems that match: on a domain of points their objectives differ by a map that no test sees, their
weights make up for it, and their constraints give the same answers. As long as the minimizer finds
the same points for both, the problems have one outcome, up to the map of the objectives. A case of
it are problems without known gradients that agree at all points of a dimension.
-/

namespace Optima

variable {α : Type} [Scalar α]

structure Problem.Matches (φ : α → α) (D : Vec α → Prop) (problem problem' : Problem α) :
    Prop where
  objective {x : Vec α} : D x → problem'.objective x = φ <$> problem.objective x
  weight (v : α) : problem'.weight * φ v = problem.weight * v
  relations : problem'.constraints.map (·.relation) = problem.constraints.map (·.relation)
  residuals {x : Vec α} : D x → problem'.residuals x = problem.residuals x
  degenerate (step tolerance minDerivative : α) {x : Vec α} : D x →
    Lagrangian.hasDegenerateViolation step tolerance minDerivative x problem'.constraints =
      Lagrangian.hasDegenerateViolation step tolerance minDerivative x problem.constraints

namespace Problem.Matches

variable {φ : α → α} {D : Vec α → Prop} {problem problem' : Problem α}

/-- The Lagrangians have the same values, whatever the multipliers are. -/
theorem value_eq (h : problem.Matches φ D problem') {L : Lagrangian α} (hL : L.problem = problem)
    {x : Vec α} (hx : D x) :
    ({ L with problem := problem' } : Lagrangian α).value x = L.value x := by
  subst hL
  unfold Lagrangian.value
  dsimp only
  rw [h.objective hx, h.residuals hx]
  simp only [bind_map_left, h.weight]
  rfl

omit [Scalar α] in
/-- The size of a group can be read off the relations. -/
theorem parts_length (problem : Problem α) :
    problem.parts.equalities.length =
        ((problem.constraints.map (·.relation)).filter (· == .equality)).length ∧
      problem.parts.inequalities.length =
        ((problem.constraints.map (·.relation)).filter fun r => !(r == .equality)).length := by
  simp only [Problem.parts, List.filter_map, List.length_map]
  exact ⟨rfl, rfl⟩

theorem start_eq (h : problem.Matches φ D problem') (step penalty : α) :
    Lagrangian.start problem' step penalty =
      { Lagrangian.start problem step penalty with problem := problem' } := by
  obtain ⟨hequalities, hinequalities⟩ := parts_length problem
  obtain ⟨hequalities', hinequalities'⟩ := parts_length problem'
  rw [h.relations, ← hequalities] at hequalities'
  rw [h.relations, ← hinequalities] at hinequalities'
  simp only [Lagrangian.start, hequalities', hinequalities']

/-- A Lagrangian of one problem corresponds to the one of the other problem
with the same multipliers and the same penalty. -/
def Related (problem problem' : Problem α) (L L' : Lagrangian α) : Prop :=
  L.problem = problem ∧ L' = { L with problem := problem' }

variable {minimizer : Minimizer α} {settings : Settings α}

theorem updated (h : problem.Matches φ D problem') {L L' : Lagrangian α}
    (hL : Related problem problem' L L') {x : Vec α} (hx : D x) :
    Agree (Related problem problem') (L.updateMultipliers x) (L'.updateMultipliers x) := by
  obtain ⟨rfl, rfl⟩ := hL
  unfold Lagrangian.updateMultipliers
  dsimp only
  rw [h.residuals hx]
  apply Agree.bind
  intro r _
  exact ⟨rfl, rfl⟩

theorem lockstep (h : problem.Matches φ D problem') (hunseen : Unseen φ)
    (hfound : ∀ {L : Lagrangian α} {x : Vec α}, L.problem = problem → D x →
      minimizer { L with problem := problem' : Lagrangian α }.value
        { L with problem := problem' : Lagrangian α }.gradient x = minimizer L.value L.gradient x)
    (hkept : ∀ {L : Lagrangian α} {x y slope : Vec α}, L.problem = problem → D x →
      minimizer L.value L.gradient x = .ok (y, slope) → D y) :
    Lockstep minimizer settings φ D (Related problem problem') where
  unseen := hunseen
  penalty := by
    rintro L _ ⟨rfl, rfl⟩
    rfl
  raised := by
    rintro L _ ⟨rfl, rfl⟩
    exact ⟨rfl, rfl⟩
  found := by
    rintro L _ x ⟨hL, rfl⟩ hx
    exact hfound hL hx
  kept := fun hL hx hy => hkept hL.1 hx hy
  objective := by
    rintro L _ x ⟨rfl, rfl⟩ hx
    exact h.objective hx
  violation := by
    rintro L _ x ⟨rfl, rfl⟩ hx
    simp only [Lagrangian.maxViolation, h.residuals hx]
  updated := fun hL hx => h.updated hL hx
  degenerate := by
    rintro L _ x ⟨rfl, rfl⟩ hx
    exact h.degenerate _ _ _ hx

/-- Problems that match have the same outcome, up to the map of objectives,
with a solution in the domain. -/
theorem optimize_agree (h : problem.Matches φ D problem') (hunseen : Unseen φ)
    (hfound : ∀ {L : Lagrangian α} {x : Vec α}, L.problem = problem → D x →
      minimizer { L with problem := problem' : Lagrangian α }.value
        { L with problem := problem' : Lagrangian α }.gradient x = minimizer L.value L.gradient x)
    (hkept : ∀ {L : Lagrangian α} {x y slope : Vec α}, L.problem = problem → D x →
      minimizer L.value L.gradient x = .ok (y, slope) → D y)
    {start : Vec α} (hstart : D start) {interrupt interrupt' : Snapshot α → Bool}
    (hinterrupt : ∀ s, interrupt' (s.recast φ) = interrupt s) :
    Agree (fun o o' => D o.solution ∧ o' = o.recast φ)
      (problem.optimize minimizer settings start interrupt)
      (problem'.optimize minimizer settings start interrupt') := by
  have hlockstep : Lockstep minimizer settings φ D (Related problem problem') :=
    h.lockstep hunseen hfound hkept
  have hagree := hlockstep.optimize_agree hinterrupt hstart
    ⟨rfl, h.start_eq settings.differenceStep settings.initialPenalty⟩
  apply hagree.mono
  rintro o o' ⟨hsolution, L, L', ⟨rfl, rfl⟩, hmultipliers, rfl⟩
  have hsame : ({ L with problem := problem' } : Lagrangian α).multipliersInOrder =
      o.multipliers := by
    rw [hmultipliers]
    simp only [Lagrangian.multipliersInOrder, h.relations]
  refine ⟨hsolution, ?_⟩
  rw [hsame]
  rfl

/-- Problems without known gradients that match at the points of a dimension
have the same outcome, and a solution of this dimension. -/
theorem optimize_agree_of_confined {n : Nat}
    (h : problem.Matches id (fun x => x.size = n) problem') (hgradient : problem.gradient = none)
    (hgradient' : problem'.gradient = none) (hminimizer : minimizer.Confined n) {start : Vec α}
    (hstart : start.size = n) (interrupt : Snapshot α → Bool) :
    Agree (fun o o' => o.solution.size = n ∧ o' = o)
      (problem.optimize minimizer settings start interrupt)
      (problem'.optimize minimizer settings start interrupt) := by
  have hnumerical {L : Lagrangian α} (hL : L.problem.gradient = none) :
      L.gradient = numericalGradient L.value L.step := by
    funext x
    simp only [Lagrangian.gradient, hL]
  have hsize {L : Lagrangian α} (hL : L.problem = problem) (y d : Vec α) (hy : y.size = n)
      (hd : L.gradient y = .ok d) : d.size = n := by
    rw [hnumerical (hL ▸ hgradient)] at hd
    exact (size_of_numericalGradient hd).trans hy
  have hfound : ∀ {L : Lagrangian α} {x : Vec α}, L.problem = problem → x.size = n →
      minimizer { L with problem := problem' : Lagrangian α }.value
        { L with problem := problem' : Lagrangian α }.gradient x =
          minimizer L.value L.gradient x := by
    intro L x hL hx
    apply hminimizer.congr hx
    · exact fun y hy => h.value_eq hL hy
    · intro y hy
      rw [hnumerical hgradient', hnumerical (hL ▸ hgradient)]
      exact numericalGradient_congr (fun z hz => h.value_eq hL (hz.trans hy)) L.step
    · exact hsize hL
  have hkept : ∀ {L : Lagrangian α} {x y slope : Vec α}, L.problem = problem → x.size = n →
      minimizer L.value L.gradient x = .ok (y, slope) → y.size = n :=
    fun hL hx hy => hminimizer.size_eq hx (hsize hL) hy
  have hagree : Agree _ (problem.optimize minimizer settings start interrupt)
      (problem'.optimize minimizer settings start interrupt) :=
    h.optimize_agree unseen_id hfound hkept hstart fun _ => rfl
  apply hagree.mono
  rintro o o' ⟨hsolution, rfl⟩
  exact ⟨hsolution, o.recast_id⟩

end Problem.Matches

section Coincidence

/-- Two constraints that cannot be told apart at points of a dimension. -/
structure Constraint.Coincides (n : Nat) (c c' : Constraint α) : Prop where
  relation : c'.relation = c.relation
  gradient : c'.gradient = c.gradient
  residual : ∀ x, x.size = n → c'.residual x = c.residual x

variable {n : Nat} {cs cs' : List (Constraint α)} (h : List.Forall₂ (Constraint.Coincides n) cs cs')

include h

omit [Scalar α] in
theorem map_relation_of_coincides :
    cs'.map (·.relation) = cs.map (·.relation) := by
  induction h with
  | nil => rfl
  | cons hc _ ih => rw [List.map_cons, List.map_cons, ih, hc.relation]

omit [Scalar α] in
/-- The residuals of the constraints that are picked by their relations. -/
theorem mapM_residual_of_coincides (pick : Relation → Bool) {x : Vec α} (hx : x.size = n) :
    (cs'.filter fun c => pick c.relation).mapM (fun c => c.residual x) =
      (cs.filter fun c => pick c.relation).mapM fun c => c.residual x := by
  induction h with
  | nil => rfl
  | @cons c c' cs cs' hc _ ih =>
      cases hpick : pick c.relation with
      | true =>
          have hpick' : pick c'.relation = true := by rw [hc.relation, hpick]
          simp only [List.filter_cons_of_pos, hpick, hpick', List.mapM_cons, hc.residual x hx, ih]
      | false =>
          have hpick' : pick c'.relation = false := by rw [hc.relation, hpick]
          simp only [hpick, hpick', Bool.false_eq_true, not_false_eq_true,
            List.filter_cons_of_neg, ih]

theorem hasDegenerateViolation_of_coincides (step tolerance minDerivative : α) {x : Vec α}
    (hx : x.size = n) :
    Lagrangian.hasDegenerateViolation step tolerance minDerivative x cs' =
      Lagrangian.hasDegenerateViolation step tolerance minDerivative x cs := by
  induction h with
  | nil => rfl
  | @cons c c' cs cs' hc _ ih =>
      have hviolation : c'.violation x = c.violation x := by
        simp only [Constraint.violation, hc.residual x hx, hc.relation]
      have hslope : c'.gradientAt step x = c.gradientAt step x := by
        unfold Constraint.gradientAt
        rw [hc.gradient, numericalGradient_congr fun y hy => hc.residual y (hy.trans hx)]
      simp only [Lagrangian.hasDegenerateViolation, hviolation, hslope, ih]

/-- Problems match at the points of a dimension if their objectives agree there
and their constraints cannot be told apart. -/
theorem Problem.matches_of_coincides {problem problem' : Problem α}
    (hobjective : ∀ x, x.size = n → problem'.objective x = problem.objective x)
    (hweight : problem'.weight = problem.weight) (hcs : problem.constraints = cs)
    (hcs' : problem'.constraints = cs') :
    problem.Matches id (fun x => x.size = n) problem' where
  objective hx := by rw [hobjective _ hx, id_map]
  weight v := by rw [hweight, id]
  relations := by rw [hcs, hcs', map_relation_of_coincides h]
  residuals {x} hx := by
    have hequalities := mapM_residual_of_coincides h (· == .equality) hx
    have hinequalities := mapM_residual_of_coincides h (fun r => !(r == .equality)) hx
    simp only [Problem.residuals, Problem.parts, Constraint.isEquality, hcs, hcs', hequalities,
      hinequalities]
  degenerate step tolerance minDerivative x hx := by
    rw [hcs, hcs', hasDegenerateViolation_of_coincides h _ _ _ hx]

end Coincidence

end Optima
