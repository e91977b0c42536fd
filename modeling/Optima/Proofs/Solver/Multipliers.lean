import Optima.Proofs.Solver.CallerOrder
import Optima.Proofs.Solver.Soundness

/-!
How multipliers come about. `Reaches` holds of the Lagrangians that updates lead to from zero, at
any points and with any penalties; it keeps the penalties and the points of the updates. There is
one multiplier for every constraint, and it has followed the rule of that constraint through the
updates, whatever the other constraints are. A solve reaches its Lagrangians by updates at the
points of its own iterations.
-/

namespace Optima

variable {α : Type} [Scalar α]

structure Step (α : Type) where
  penalty : α
  point : Vec α

/-- The Lagrangians of a problem that a sequence of updates leads to. The
penalty may be set to anything between two of them. -/
inductive Problem.Reaches (problem : Problem α) : List (Step α) → Lagrangian α → Prop where
  | start (step penalty : α) : Reaches problem [] (Lagrangian.start problem step penalty)
  | penalized {steps : List (Step α)} {L : Lagrangian α} (penalty : α) :
      Reaches problem steps L → Reaches problem steps { L with penalty }
  | updated {steps : List (Step α)} {L next : Lagrangian α} {x : Vec α} :
      Reaches problem steps L → L.updateMultipliers x = .ok next →
      Reaches problem (steps ++ [⟨L.penalty, x⟩]) next

/-- The multiplier that a constraint arrives at if it starts from zero and
moves by its own residual in every step. -/
def Constraint.multiplierAfter (c : Constraint α) (steps : List (Step α)) : Except Fault α :=
  steps.foldlM (fun m s => do return Lagrangian.shift s.penalty ⟨c, m, ← c.residual s.point⟩) 0

theorem Constraint.multiplierAfter_append {c : Constraint α} {steps : List (Step α)} {s : Step α}
    {m : α} :
    c.multiplierAfter (steps ++ [s]) = .ok m ↔
      ∃ old r, c.multiplierAfter steps = .ok old ∧ c.residual s.point = .ok r ∧
        Lagrangian.shift s.penalty ⟨c, old, r⟩ = m := by
  unfold multiplierAfter
  simp only [List.foldlM_append, List.foldlM_cons, List.foldlM_nil, bind_eq_ok, pure_eq_ok]
  constructor
  · rintro ⟨old, hold, _, ⟨r, hr, hshift⟩, rfl⟩
    exact ⟨old, r, hold, hr, hshift⟩
  · rintro ⟨old, r, hold, hr, hshift⟩
    exact ⟨old, hold, m, ⟨r, hr, hshift⟩, rfl⟩

namespace Problem.Reaches

open Entry

variable {problem : Problem α} {steps : List (Step α)} {L : Lagrangian α}

theorem problem_eq (h : problem.Reaches steps L) : L.problem = problem := by
  induction h with
  | start step penalty => rfl
  | penalized penalty _ ih => exact ih
  | updated _ hupdated ih =>
      obtain ⟨r, -, rfl⟩ := Lagrangian.updateMultipliers_eq_ok.mp hupdated
      exact ih

theorem balanced (h : problem.Reaches steps L) : L.Balanced := by
  induction h with
  | start step penalty =>
      exact ⟨List.length_replicate, List.length_replicate⟩
  | penalized penalty _ ih => exact ⟨ih.equalities, ih.inequalities⟩
  | updated _ hupdated ih => exact ih.updated hupdated

end Problem.Reaches

/-- In the beginning every constraint has the multiplier zero. -/
theorem Lagrangian.multipliersInOrder_start (problem : Problem α) (step penalty : α) :
    (Lagrangian.start problem step penalty).multipliersInOrder =
      problem.constraints.map fun _ => 0 := by
  let entries : List (Entry α) := problem.constraints.map fun c => ⟨c, 0, 0⟩
  have hmultipliers :
      (Lagrangian.start problem step penalty).multipliers = Entry.sorted (fun _ => 0) entries := by
    simp only [start, Problem.parts, entries, Entry.sorted, List.filter_map, List.map_map,
      ByRelation.mk.injEq]
    exact ⟨(List.map_const' ..).symm, (List.map_const' ..).symm⟩
  have horder := Entry.inOrder_sorted (fun _ => 0) entries
  unfold multipliersInOrder
  rw [hmultipliers]
  simp only [entries, List.map_map] at horder ⊢
  exact horder

/-- Reached multipliers stand in the order of the constraints, one for each,
and each of them has followed its own constraint. -/
theorem Problem.Reaches.multipliersInOrder {problem : Problem α} {steps : List (Step α)}
    {L : Lagrangian α} (h : problem.Reaches steps L) :
    List.Forall₂ (fun c m => c.multiplierAfter steps = .ok m) problem.constraints
      L.multipliersInOrder := by
  induction h with
  | start step penalty =>
      rw [Lagrangian.multipliersInOrder_start, List.forall₂_map_right_iff, List.forall₂_same]
      intro c _
      rfl
  | penalized penalty _ ih => exact ih
  | @updated steps L next x hreaches hupdated ih =>
      obtain ⟨r, hr, -⟩ := Lagrangian.updateMultipliers_eq_ok.mp hupdated
      obtain ⟨entries, hlists⟩ := Lagrangian.exists_lists hreaches.balanced hr
      rw [hlists.multipliersInOrder_updated hupdated]
      rw [hlists.multipliersInOrder_eq] at ih
      rw [← hreaches.problem_eq, ← hlists.constraints, List.forall₂_map_left_iff,
        List.forall₂_map_right_iff, List.forall₂_same] at ih ⊢
      intro e he
      rw [Constraint.multiplierAfter_append]
      exact ⟨e.multiplier, e.residual, ih e he, hlists.residuals e he, rfl⟩

section Solve

variable {problem : Problem α} {minimizer : Minimizer α} {settings : Settings α} {start : Vec α}
  {interrupt : Snapshot α → Bool}

/-- The states of a solve between two of its iterations, with the penalties
and the points of the iterations so far. -/
inductive Problem.Trail (problem : Problem α) (minimizer : Minimizer α) (settings : Settings α)
    (start : Vec α) (interrupt : Snapshot α → Bool) : List (Step α) → Progress α → Prop where
  | opening {p : Progress α} : problem.Opens settings start p →
      Trail problem minimizer settings start interrupt [] p
  | proceed {steps : List (Step α)} {p q next : Progress α} {snapshot : Snapshot α} :
      Trail problem minimizer settings start interrupt steps p →
      advance minimizer settings p = .ok (.moved q snapshot) →
      iterate minimizer settings interrupt p = .ok (.proceed next) →
      Trail problem minimizer settings start interrupt
        (steps ++ [⟨p.lagrangian.penalty, q.point⟩]) next

/-- Every state of a solve has a trail: each iteration adds its penalty and its point. -/
theorem Problem.Visits.trail {p : Progress α}
    (h : problem.Visits minimizer settings start interrupt p) :
    ∃ steps, problem.Trail minimizer settings start interrupt steps p := by
  induction h with
  | opening hopens _ => exact ⟨[], .opening hopens⟩
  | proceed _ hiterate ih =>
      obtain ⟨steps, htrail⟩ := ih
      obtain ⟨q, snapshot, hadvance, -, -⟩ := iterate_proceed hiterate
      exact ⟨_, htrail.proceed hadvance hiterate⟩

/-- An iteration that moves the multipliers adds one update. -/
theorem Problem.Reaches.moved {steps : List (Step α)} {p q : Progress α} {snapshot : Snapshot α}
    (h : problem.Reaches steps p.lagrangian)
    (hadvance : advance minimizer settings p = .ok (.moved q snapshot)) :
    problem.Reaches (steps ++ [⟨p.lagrangian.penalty, q.point⟩]) q.lagrangian := by
  obtain ⟨slope, hmoves⟩ := advance_moved hadvance
  exact h.updated hmoves.updated

/-- The iterations of a solve are the updates of its multipliers. -/
theorem Problem.Trail.reaches {steps : List (Step α)} {p : Progress α}
    (h : problem.Trail minimizer settings start interrupt steps p) :
    problem.Reaches steps p.lagrangian := by
  induction h with
  | opening hopens =>
      obtain ⟨_, _, -, -, rfl⟩ := hopens
      exact .start _ _
  | proceed _ hadvance hiterate ih =>
      obtain ⟨q, snapshot, hadvance', -, rfl⟩ := iterate_proceed hiterate
      rw [hadvance] at hadvance'
      cases hadvance'
      exact .penalized _ (ih.moved hadvance)

end Solve

end Optima
