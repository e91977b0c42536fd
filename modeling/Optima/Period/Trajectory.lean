import Optima.Vec

/-!
Trajectories: the states of consecutive periods. There is at least one period and all states have
one dimension. A trajectory and the flat vector of its states, one after the other, determine each
other.
-/

namespace Optima

structure Trajectory (α : Type) where
  first : Vec α
  rest : List (Vec α)
  uniform : ∀ v ∈ rest, v.size = first.size

namespace Trajectory

variable {α : Type}

def states (t : Trajectory α) : List (Vec α) := t.first :: t.rest

def periods (t : Trajectory α) : Nat := t.states.length

def dimension (t : Trajectory α) : Nat := t.first.size

def last (t : Trajectory α) : Vec α := t.rest.getLast?.getD t.first

def misfit? (dimension : Nat) (period : Nat) : List (Vec α) → Option (Nat × Nat)
  | [] => none
  | v :: rest =>
    if v.size == dimension then misfit? dimension (period + 1) rest else some (period, v.size)

theorem size_of_misfit?_eq_none {dimension period : Nat} {vs : List (Vec α)}
    (h : misfit? dimension period vs = none) : ∀ v ∈ vs, v.size = dimension := by
  induction vs generalizing period with
  | nil => simp
  | cons v rest ih =>
    unfold misfit? at h
    split at h
    · rename_i hv
      intro w hw
      cases List.mem_cons.1 hw with
      | inl hw => subst hw; simpa using hv
      | inr hw => exact ih h w hw
    · simp at h

def ofStates : List (Vec α) → Except Fault (Trajectory α)
  | [] => .error (.misuse .noPeriods)
  | first :: rest =>
    match h : misfit? first.size 1 rest with
    | none => .ok ⟨first, rest, size_of_misfit?_eq_none h⟩
    | some (period, size) => .error (.mismatch (.periodSize period size first.size))

def split (dimension : Nat) : (count : Nat) → List α → List (Vec α)
  | 0, _ => []
  | count + 1, xs => ⟨xs.take dimension⟩ :: split dimension count (xs.drop dimension)

/-- The trajectory whose states, one after the other, make up a flat vector. -/
def ofFlat (flat : Vec α) (periods dimension : Nat) : Except Fault (Trajectory α) :=
  if flat.size == periods * dimension then ofStates (split dimension periods flat.toList)
  else .error (.mismatch (.flatSize flat.size (.whole periods) (.whole dimension)))

def constant (state : Vec α) (periods : Nat) : Except Fault (Trajectory α) :=
  ofStates (List.replicate periods state)

def flatten (t : Trajectory α) : Vec α := ⟨t.states.flatMap Vec.toList⟩

/-- The state of a period, counted from the end if negative. -/
def get (t : Trajectory α) (index : Int) : Except Fault (Vec α) :=
  match Vec.position? t.periods index with
  | some i =>
    match t.states[i]? with
    | some v => .ok v
    | none => .error .outOfRange
  | none => .error .outOfRange

variable [Scalar α]

/-- How much the components move from one state to another. -/
def movement (v w : Vec α) : α :=
  Scalar.total (List.zipWith (fun x y => Scalar.magnitude (y - x)) v.toList w.toList)

def turnover (t : Trajectory α) : List α := List.zipWith movement t.states t.rest

def same (t u : Trajectory α) : Bool :=
  t.periods == u.periods && (List.zipWith Vec.same t.states u.states).all id

omit [Scalar α] in
def text (t : Trajectory α) : String :=
  s!"Trajectory(periods={t.periods}, dimension={t.dimension})"

end Trajectory

end Optima
