import Optima.Fault

/-!
Seeds. A seed is a list of 32-bit words of any length. It is hashed into a pool of four words in
which every word of the seed reaches every word of the pool, and the pool is expanded into as much
state as a generator needs.
-/

namespace Optima.Random

/-- The state of a hash: what the next word is combined and multiplied with. -/
structure Mixer where
  multiplier : UInt32
  growth : UInt32

namespace Mixer

def entry : Mixer := ⟨0x43b0d7e5, 0x931e8875⟩

def exit : Mixer := ⟨0x8b51f9dd, 0x58f38ded⟩

def hash (m : Mixer) (word : UInt32) : UInt32 × Mixer :=
  let grown := m.multiplier * m.growth
  let v := (word ^^^ m.multiplier) * grown
  (v ^^^ (v >>> 16), { m with multiplier := grown })

def hashAll (m : Mixer) : List UInt32 → List UInt32 × Mixer
  | [] => ([], m)
  | word :: rest =>
    let (h, m) := m.hash word
    let (hs, m) := m.hashAll rest
    (h :: hs, m)

end Mixer

def combine (x y : UInt32) : UInt32 :=
  let r := 0xca01f9dd * x - 0x4973f715 * y
  r ^^^ (r >>> 16)

def poolSize : Nat := 4

def absorb (word : UInt32) : List Nat → List UInt32 × Mixer → List UInt32 × Mixer
  | [], state => state
  | i :: rest, (pool, m) =>
    let (h, m) := m.hash word
    absorb word rest (pool.modify i (combine · h), m)

def stir : List Nat → List UInt32 × Mixer → List UInt32 × Mixer
  | [], state => state
  | s :: rest, (pool, m) =>
    let others := (List.range poolSize).filter (· != s)
    stir rest (absorb (pool.getD s 0) others (pool, m))

/-- The pool of a seed: the first words enter directly, the pool is stirred, and the further words
are mixed into all of it. -/
def pool (seed : List UInt32) : List UInt32 :=
  let first := (List.range poolSize).map fun i => seed.getD i 0
  let stirred := stir (List.range poolSize) (Mixer.entry.hashAll first)
  let mixed := (seed.drop poolSize).foldl
    (fun state word => absorb word (List.range poolSize) state) stirred
  mixed.1

def expand (seed : List UInt32) (count : Nat) : List UInt32 :=
  let p := pool seed
  (Mixer.exit.hashAll ((List.range count).map fun i => p.getD (i % poolSize) 0)).1

def wordsOf (n : Nat) : List UInt32 :=
  if h : n < 0x100000000 then [n.toUInt32]
  else n.toUInt32 :: wordsOf (n / 0x100000000)
termination_by n
decreasing_by omega

end Optima.Random
