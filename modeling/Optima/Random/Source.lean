import Optima.Fault

/-!
Sources of random numbers. Everything that samples is written over a source, so that a law about
samples holds for whatever the source delivers. Draws are made one after the other; a fault in
between leaves no draw behind.
-/

namespace Optima

abbrev Draw (σ β : Type) := StateT σ (Except Fault) β

/-- What can be drawn: numbers from the unit interval, numbers with the standard normal
distribution, and positions in a list of a given length. -/
structure Source (σ α : Type) where
  unit : σ → α × σ
  normal : σ → α × σ
  position : Nat → σ → Nat × σ

namespace Draw

variable {σ β : Type}

def ofStep (step : σ → β × σ) : Draw σ β := fun s => .ok (step s)

def many (draw : Draw σ β) : Nat → Draw σ (List β)
  | 0 => pure []
  | count + 1 => do
    let first ← draw
    return first :: (← many draw count)

def each {γ : Type} (draw : γ → Draw σ β) : List γ → Draw σ (List β)
  | [] => pure []
  | item :: rest => do
    let first ← draw item
    return first :: (← each draw rest)

end Draw

end Optima
