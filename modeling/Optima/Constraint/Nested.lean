import Optima.Fault

/-!
Nested lists. Families of constraints are lists, and callers mix them freely with single
constraints; gathering walks the nesting depth-first from left to right and stops at the first leaf
that is not accepted.
-/

namespace Optima

inductive Nested (β : Type) where
  | leaf (value : β)
  | group (items : List (Nested β))

namespace Nested

variable {β γ : Type}

mutual

def gather (accept : β → Except Fault (List γ)) : Nested β → Except Fault (List γ)
  | leaf value => accept value
  | group items => gatherAll accept items

def gatherAll (accept : β → Except Fault (List γ)) : List (Nested β) → Except Fault (List γ)
  | [] => .ok []
  | item :: rest => do
    let first ← gather accept item
    return first ++ (← gatherAll accept rest)

end

mutual

def leaves : Nested β → List β
  | leaf value => [value]
  | group items => leavesOf items

def leavesOf : List (Nested β) → List β
  | [] => []
  | item :: rest => leaves item ++ leavesOf rest

end

end Nested

end Optima
