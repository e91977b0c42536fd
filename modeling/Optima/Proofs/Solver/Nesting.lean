import Optima.Optimizer.Decision
import Optima.Proofs.Success

/-!
Solves whose constraints stand in a nested list. Gathering looks at the leaves one after the other,
so it sees nothing of the nesting. A solve with numbers of any kind is the solve that callers ask
for, once the start has been read.
-/

namespace Optima

namespace Nested

variable {β γ : Type}

mutual

theorem gather_eq (accept : β → Except Fault (List γ)) :
    (item : Nested β) → gather accept item = List.flatten <$> (leaves item).mapM accept
  | leaf value => by simp [gather, leaves]
  | group items => by
      rw [gather, leaves]
      exact gatherAll_eq accept items

/-- Members are gathered from the leaves alone. -/
theorem gatherAll_eq (accept : β → Except Fault (List γ)) :
    (items : List (Nested β)) → gatherAll accept items =
      List.flatten <$> (leavesOf items).mapM accept
  | [] => rfl
  | item :: rest => by
      rw [gatherAll, leavesOf, gather_eq accept item, gatherAll_eq accept rest, List.mapM_append]
      simp

end

/-- If every leaf stands for a single member, the members are gathered as they
stand. -/
theorem gatherAll_of_leaves {accept : β → Except Fault (List γ)} {wrap : γ → β}
    (haccept : ∀ member, accept (wrap member) = .ok [member]) {items : List (Nested β)}
    {members : List γ} (h : leavesOf items = members.map wrap) :
    gatherAll accept items = .ok members := by
  have hleaves : (members.map wrap).mapM accept = .ok (members.map fun member => [member]) := by
    rw [mapM_eq_ok, List.forall₂_map_left_iff, List.forall₂_map_right_iff, List.forall₂_same]
    exact fun member _ => haccept member
  rw [gatherAll_eq, h, hleaves]
  change Except.ok (members.map fun member => [member]).flatten = Except.ok members
  rw [← List.flatMap_def, List.flatMap_singleton']

end Nested

variable {α : Type}

theorem flattenConstraints_group {items : List (Nested (Item α))}
    {constraints : List (Constraint α)}
    (h : Nested.leavesOf items = constraints.map Item.decision) :
    flattenConstraints (.group items) = .ok constraints := by
  have haccept (c : Constraint α) : (Item.decision c).asConstraint = .ok [c] := rfl
  exact Nested.gatherAll_of_leaves haccept h

theorem flattenPeriods_group {items : List (Nested (Item α))}
    {constraints : List (PeriodConstraint α)}
    (h : Nested.leavesOf items = constraints.map Item.period) :
    flattenPeriods (.group items) = .ok constraints := by
  have haccept (c : PeriodConstraint α) : (Item.period c).asPeriod = .ok [c] := rfl
  exact Nested.gatherAll_of_leaves haccept h

variable [Scalar α]

def optimizeNested (minimizer : Minimizer α) (settings : Settings α)
    (objective : Vec α → Except Fault α) (gradient : Option (Vec α → Except Fault (Vec α)))
    (start : Vec α) (items : Nested (Item α)) (sense : Sense) (interrupt : Snapshot α → Bool) :
    Except Fault (Outcome α) := do
  let constraints ← flattenConstraints items
  let problem : Problem α := { objective, gradient, constraints, weight := sense.sign }
  problem.optimize minimizer settings start interrupt

/-- With doubles this is what is done once the start has been read. -/
theorem optimizeDecisionWith_eq (minimizer : Minimizer Float) (settings : Settings Float)
    (objective : Vec Float → Except Fault Float)
    (gradient : Option (Vec Float → Except Fault (Vec Float))) (given : Datum)
    (items : Nested (Item Float)) (sense : Sense) (interrupt : Snapshot Float → Bool) :
    optimizeDecisionWith minimizer settings objective gradient given items sense interrupt =
      (do
        let start ← Check.array given "initial_state"
        optimizeNested minimizer settings objective gradient start items sense interrupt) := rfl

/-- The nesting of constraints does not matter. -/
theorem optimizeNested_group {minimizer : Minimizer α} {settings : Settings α}
    {objective : Vec α → Except Fault α} {gradient : Option (Vec α → Except Fault (Vec α))}
    {start : Vec α} {items : List (Nested (Item α))} {constraints : List (Constraint α)}
    {sense : Sense} {interrupt : Snapshot α → Bool}
    (h : Nested.leavesOf items = constraints.map Item.decision) :
    optimizeNested minimizer settings objective gradient start (.group items) sense interrupt =
      ({ objective, gradient, constraints, weight := sense.sign } : Problem α).optimize minimizer
        settings start interrupt := by
  rw [optimizeNested, flattenConstraints_group h]
  rfl

end Optima
