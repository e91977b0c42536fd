import Optima.Proofs.Solver.Run

/-!
Two solves in step. A solve learns about its problem from a few answers: what the minimizer finds,
the objective and the violation there, how the multipliers move, and whether a violation is
degenerate. If these answers correspond wherever two solves ask, every iteration of one takes the
branch that the iteration of the other takes, and the two end alike. The objectives may differ by a
map that no test sees, such as a change of sign.
-/

namespace Optima

variable {α : Type}

def Snapshot.recast (φ : α → α) (s : Snapshot α) : Snapshot α :=
  { s with objective := φ s.objective }

def Outcome.recast (φ : α → α) (o : Outcome α) : Outcome α :=
  { o with
    objective := φ o.objective
    history := o.history.map (Snapshot.recast φ)
    delivered := o.delivered.map (Snapshot.recast φ) }

theorem Outcome.recast_id (o : Outcome α) : o.recast id = o := by
  have hsnapshot : Snapshot.recast (id : α → α) = id := rfl
  simp only [recast, hsnapshot, List.map_id, id_eq]

def Progress.recast (φ : α → α) (L : Lagrangian α) (p : Progress α) : Progress α where
  lagrangian := L
  point := p.point
  objective := φ p.objective
  violation := p.violation
  previous := p.previous.map (Prod.map φ id)
  iterations := p.iterations
  history := p.history.map (Snapshot.recast φ)
  delivered := p.delivered.map (Snapshot.recast φ)

variable [Scalar α]

/-- A map of objectives that no test of a solve sees. -/
structure Unseen (φ : α → α) : Prop where
  isFinite (v : α) : Scalar.isFinite (φ v) = Scalar.isFinite v
  magnitude (v : α) : Scalar.magnitude (φ v) = Scalar.magnitude v
  distance (v w : α) : Scalar.magnitude (φ v - φ w) = Scalar.magnitude (v - w)

theorem unseen_id : Unseen (id : α → α) := ⟨fun _ => rfl, fun _ => rfl, fun _ _ => rfl⟩

theorem isStalled_recast {φ : α → α} (h : Unseen φ) (tolerance : α) (previous : Option (α × α))
    (v : α) :
    isStalled tolerance (previous.map (Prod.map φ id)) (φ v) = isStalled tolerance previous v := by
  cases previous with
  | none => rfl
  | some old =>
      simp only [isStalled, Option.map_some, Prod.map, h.distance, h.magnitude]

theorem isSticky_recast (φ : α → α) (previous : Option (α × α)) (violation : α) :
    isSticky (previous.map (Prod.map φ id)) violation = isSticky previous violation := by
  cases previous with
  | none => rfl
  | some old => rfl

/-- What two solves learn corresponds, at points of a domain that the
minimizer does not leave and for Lagrangians that are related. The relation
survives updates and raised penalties. -/
structure Lockstep (minimizer : Minimizer α) (settings : Settings α) (φ : α → α)
    (D : Vec α → Prop) (R : Lagrangian α → Lagrangian α → Prop) : Prop where
  unseen : Unseen φ
  penalty {L L' : Lagrangian α} : R L L' → L'.penalty = L.penalty
  raised {L L' : Lagrangian α} : R L L' →
    R { L with penalty := settings.raised L.penalty }
      { L' with penalty := settings.raised L.penalty }
  found {L L' : Lagrangian α} {x : Vec α} : R L L' → D x →
    minimizer L'.value L'.gradient x = minimizer L.value L.gradient x
  kept {L L' : Lagrangian α} {x y slope : Vec α} : R L L' → D x →
    minimizer L.value L.gradient x = .ok (y, slope) → D y
  objective {L L' : Lagrangian α} {x : Vec α} : R L L' → D x →
    L'.problem.objective x = φ <$> L.problem.objective x
  violation {L L' : Lagrangian α} {x : Vec α} : R L L' → D x → L'.maxViolation x = L.maxViolation x
  updated {L L' : Lagrangian α} {x : Vec α} : R L L' → D x →
    Agree R (L.updateMultipliers x) (L'.updateMultipliers x)
  degenerate {L L' : Lagrangian α} {x : Vec α} : R L L' → D x →
    Lagrangian.hasDegenerateViolation L'.step settings.constraintTolerance settings.minDerivative x
        L'.problem.constraints =
      Lagrangian.hasDegenerateViolation L.step settings.constraintTolerance settings.minDerivative x
        L.problem.constraints

section Step

variable {minimizer : Minimizer α} {settings : Settings α} {φ : α → α} {D : Vec α → Prop}
  {R : Lagrangian α → Lagrangian α → Prop} {interrupt interrupt' : Snapshot α → Bool}

omit [Scalar α] in
/-- A state of the second solve that corresponds to one of the first. -/
structure Progress.Follows (φ : α → α) (D : Vec α → Prop) (R : Lagrangian α → Lagrangian α → Prop)
    (p p' : Progress α) : Prop where
  lagrangian : R p.lagrangian p'.lagrangian
  point : D p.point
  rest : p' = p.recast φ p'.lagrangian

/-- Advances of the two solves that take the same branch. -/
inductive Advance.Follows (φ : α → α) (D : Vec α → Prop) (R : Lagrangian α → Lagrangian α → Prop) :
    Advance α → Advance α → Prop where
  | broken {p p' : Progress α} : p.Follows φ D R p' → Follows φ D R (.broken p) (.broken p')
  | moved {p p' : Progress α} {s : Snapshot α} : p.Follows φ D R p' →
      Follows φ D R (.moved p s) (.moved p' (s.recast φ))

/-- Verdicts of the two solves that take the same branch. -/
inductive Verdict.Follows (φ : α → α) (D : Vec α → Prop) (R : Lagrangian α → Lagrangian α → Prop) :
    Verdict α → Verdict α → Prop where
  | proceed {p p' : Progress α} : p.Follows φ D R p' → Follows φ D R (.proceed p) (.proceed p')
  | stop (status : Status) {p p' : Progress α} : p.Follows φ D R p' →
      Follows φ D R (.stop status p) (.stop status p')

/-- Up to the moved multipliers, both iterations come to the same thing. -/
theorem Lockstep.advance_agree (h : Lockstep minimizer settings φ D R) {p p' : Progress α}
    (hp : p.Follows φ D R p') :
    Agree (Advance.Follows φ D R) (advance minimizer settings p)
      (advance minimizer settings p') := by
  obtain ⟨hR, hD, hrest⟩ := hp
  generalize p'.lagrangian = L' at hR hrest
  subst hrest
  unfold advance
  dsimp only [Progress.recast]
  rw [h.found hR hD]
  apply Agree.bind
  rintro ⟨x, slope⟩ hfound
  have hx := h.kept hR hD hfound
  dsimp only
  cases x.isFinite with
  | false => exact .broken ⟨hR, hD, rfl⟩
  | true =>
      rw [h.objective hR hx, h.violation hR hx, h.penalty hR]
      simp only [Bool.not_true, Bool.false_eq_true, if_false, bind_map_left]
      apply Agree.bind
      intro objective _
      apply Agree.bind
      intro violation _
      rw [h.unseen.isFinite]
      cases Scalar.isFinite objective && Scalar.isFinite violation with
      | false => exact .broken ⟨hR, hx, rfl⟩
      | true =>
          simp only [Bool.not_true, Bool.false_eq_true, if_false]
          apply (h.updated hR hx).chain
          intro updated updated' hupdated
          refine .moved ⟨hupdated, hx, ?_⟩
          cases settings.recordHistory with
          | false => rfl
          | true =>
              simp only [if_true, Progress.recast, List.map_append]
              rfl

/-- Penalties are raised together. -/
theorem Lockstep.penalized (h : Lockstep minimizer settings φ D R) {p p' : Progress α}
    (hp : p.Follows φ D R p') :
    R { p.lagrangian with penalty := nextPenalty settings p }
      { p'.lagrangian with penalty := nextPenalty settings p' } := by
  have hpenalty := h.penalty hp.lagrangian
  have hsame : nextPenalty settings p' = nextPenalty settings p := by
    rw [hp.rest]
    simp only [nextPenalty, Progress.recast, isSticky_recast, hpenalty]
  have hkept : R { p.lagrangian with penalty := p.lagrangian.penalty }
      { p'.lagrangian with penalty := p.lagrangian.penalty } := by
    rw [← hpenalty]
    nth_rewrite 1 [hpenalty]
    exact hp.lagrangian
  rw [hsame]
  unfold nextPenalty
  split
  · exact hkept
  · split
    · exact h.raised hp.lagrangian
    · exact hkept

theorem Lockstep.shown (h : Lockstep minimizer settings φ D R) {p p' : Progress α}
    (hp : p.Follows φ D R p') (s : Snapshot α) :
    (p.shown settings s).Follows φ D R (p'.shown settings (s.recast φ)) := by
  refine ⟨h.penalized hp, hp.point, ?_⟩
  rw [hp.rest]
  simp only [Progress.shown, Progress.recast, List.map_append, List.map_cons, List.map_nil]

/-- The caller cannot tell the two solves apart, so both are stopped or neither is. -/
theorem Lockstep.deliver_follows (h : Lockstep minimizer settings φ D R)
    (hinterrupt : ∀ s, interrupt' (s.recast φ) = interrupt s) {p p' : Progress α}
    (hp : p.Follows φ D R p') (s : Snapshot α) :
    Verdict.Follows φ D R (deliver settings interrupt p s)
      (deliver settings interrupt' p' (s.recast φ)) := by
  have hshown := h.shown hp s
  unfold deliver
  rw [hinterrupt]
  cases interrupt s with
  | true => exact .stop .interrupted hshown
  | false =>
      refine .proceed ⟨hshown.lagrangian, hshown.point, ?_⟩
      rw [hp.rest]
      simp only [Progress.shown, Progress.recast, List.map_append, List.map_cons, List.map_nil,
        Option.map_some, Prod.map, id_eq]

/-- Moved multipliers are judged alike. -/
theorem Lockstep.judge_agree (h : Lockstep minimizer settings φ D R)
    (hinterrupt : ∀ s, interrupt' (s.recast φ) = interrupt s) {p p' : Progress α}
    (hp : p.Follows φ D R p') (s : Snapshot α) :
    Agree (Verdict.Follows φ D R) (judge settings interrupt p s)
      (judge settings interrupt' p' (s.recast φ)) := by
  have hdeliver := h.deliver_follows hinterrupt hp s
  have hviolation : p'.violation = p.violation := by rw [hp.rest]; rfl
  have hpoint : p'.point = p.point := by rw [hp.rest]; rfl
  have hstalled : isStalled settings.tolerance p'.previous p'.objective =
      isStalled settings.tolerance p.previous p.objective := by
    rw [hp.rest]
    exact isStalled_recast h.unseen _ _ _
  unfold judge
  have hnorm : (s.recast φ).gradientNorm = s.gradientNorm := rfl
  simp only [hviolation, hpoint, hstalled, hnorm, h.degenerate hp.lagrangian hp.point]
  cases Scalar.atMost p.violation settings.constraintTolerance with
  | true =>
      simp only [if_true]
      cases Scalar.atMost s.gradientNorm settings.gradientTolerance ||
          isStalled settings.tolerance p.previous p.objective with
      | true => exact .stop .optimal hp
      | false => exact hdeliver
  | false =>
      simp only [Bool.false_eq_true, if_false]
      apply Agree.bind
      intro degenerate _
      cases degenerate with
      | true => exact .stop .numericalError hp
      | false => exact hdeliver

/-- One iteration of both solves comes to the same verdict. -/
theorem Lockstep.iterate_agree (h : Lockstep minimizer settings φ D R)
    (hinterrupt : ∀ s, interrupt' (s.recast φ) = interrupt s) {p p' : Progress α}
    (hp : p.Follows φ D R p') :
    Agree (Verdict.Follows φ D R) (iterate minimizer settings interrupt p)
      (iterate minimizer settings interrupt' p') := by
  unfold iterate
  apply (h.advance_agree hp).chain
  intro a a' ha
  cases ha with
  | broken hq => exact .stop .numericalError hq
  | moved hq => exact h.judge_agree hinterrupt hq _

/-- Both solves use up their budgets together, or stop together. -/
theorem Lockstep.run_agree (h : Lockstep minimizer settings φ D R)
    (hinterrupt : ∀ s, interrupt' (s.recast φ) = interrupt s) (budget : Nat) {p p' : Progress α}
    (hp : p.Follows φ D R p') :
    Agree (fun last last' => last'.1 = last.1 ∧ last.2.Follows φ D R last'.2)
      (run minimizer settings interrupt budget p)
      (run minimizer settings interrupt' budget p') := by
  induction budget generalizing p p' with
  | zero => exact ⟨rfl, hp⟩
  | succ budget ih =>
      unfold run
      apply (h.iterate_agree hinterrupt hp).chain
      intro verdict verdict' hverdict
      cases hverdict with
      | proceed hq => exact ih hq
      | stop status hq => exact ⟨rfl, hq⟩

end Step

/-- An outcome of the second solve that corresponds to one of the first: they
differ by the map of objectives and by the multipliers of related Lagrangians. -/
structure Outcome.Follows (φ : α → α) (D : Vec α → Prop) (R : Lagrangian α → Lagrangian α → Prop)
    (o o' : Outcome α) : Prop where
  solution : D o.solution
  rest : ∃ L L', R L L' ∧ o.multipliers = L.multipliersInOrder ∧
    o' = { o.recast φ with multipliers := L'.multipliersInOrder }

omit [Scalar α] in
theorem Progress.Follows.outcome {φ : α → α} {D : Vec α → Prop}
    {R : Lagrangian α → Lagrangian α → Prop} {p p' : Progress α} (h : p.Follows φ D R p')
    (status : Status) : (p.outcome status).Follows φ D R (p'.outcome status) := by
  refine ⟨h.point, p.lagrangian, p'.lagrangian, h.lagrangian, rfl, ?_⟩
  rw [h.rest]
  rfl

section Solve

variable {minimizer : Minimizer α} {settings : Settings α} {φ : α → α} {D : Vec α → Prop}
  {R : Lagrangian α → Lagrangian α → Prop} {interrupt interrupt' : Snapshot α → Bool}
  {problem problem' : Problem α} {start : Vec α}

/-- Two solves in lockstep end after the same iteration and with the same status. -/
theorem Lockstep.solve_agree (h : Lockstep minimizer settings φ D R)
    (hinterrupt : ∀ s, interrupt' (s.recast φ) = interrupt s) (hD : D start)
    (hR : R (Lagrangian.start problem settings.differenceStep settings.initialPenalty)
      (Lagrangian.start problem' settings.differenceStep settings.initialPenalty)) :
    Agree (Outcome.Follows φ D R) (problem.solve minimizer settings start interrupt)
      (problem'.solve minimizer settings start interrupt') := by
  have hobjective : problem'.objective start = φ <$> problem.objective start :=
    h.objective hR hD
  unfold Problem.solve
  dsimp only
  rw [hobjective, h.violation hR hD]
  simp only [bind_map_left]
  apply Agree.bind
  intro objective _
  apply Agree.bind
  intro violation _
  rw [h.unseen.isFinite]
  have hopening : Progress.Follows φ D R
      { lagrangian := Lagrangian.start problem settings.differenceStep settings.initialPenalty
        point := start, objective, violation }
      { lagrangian := Lagrangian.start problem' settings.differenceStep settings.initialPenalty
        point := start, objective := φ objective, violation } := ⟨hR, hD, rfl⟩
  cases Scalar.isFinite objective with
  | false => exact hopening.outcome .numericalError
  | true =>
      apply (h.run_agree hinterrupt settings.maxIterations hopening).chain
      rintro ⟨status, last⟩ ⟨_, last'⟩ ⟨rfl, hlast⟩
      exact hlast.outcome _

/-- Two solves that begin with related Lagrangians at a point of the domain
end with the same fault, or with outcomes that correspond. -/
theorem Lockstep.optimize_agree (h : Lockstep minimizer settings φ D R)
    (hinterrupt : ∀ s, interrupt' (s.recast φ) = interrupt s) (hD : D start)
    (hR : R (Lagrangian.start problem settings.differenceStep settings.initialPenalty)
      (Lagrangian.start problem' settings.differenceStep settings.initialPenalty)) :
    Agree (Outcome.Follows φ D R) (problem.optimize minimizer settings start interrupt)
      (problem'.optimize minimizer settings start interrupt') := by
  unfold Problem.optimize
  cases start.toList.isEmpty with
  | true => exact rfl
  | false =>
      cases start.isFinite with
      | false => exact rfl
      | true => exact h.solve_agree hinterrupt hD hR

end Solve

end Optima
