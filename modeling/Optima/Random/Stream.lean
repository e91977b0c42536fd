import Optima.Random.Seed

/-!
A stream of random words from a permuted congruential generator: a 128-bit linear recurrence whose
state is folded to 64 bits and rotated. Numbers from the unit interval take the upper 53 bits of a
word; positions in short lists take half a word, and the other half is kept for the next one.
-/

namespace Optima.Random

structure Stream where
  state : BitVec 128
  increment : BitVec 128
  /-- The half of a word that is not used yet. -/
  spare : Option UInt32 := none

namespace Stream

def factor : BitVec 128 := 0x2360ed051fc65da44385df649fccf645#128

def step (s : Stream) : Stream := { s with state := s.state * factor + s.increment }

def join (low high : UInt32) : BitVec 64 := BitVec.ofNat 64 (high.toNat * 0x100000000 + low.toNat)

def ofSeed (seed : List UInt32) : Stream :=
  let words := expand seed 8
  let part (i : Nat) : BitVec 64 := join (words.getD (2 * i) 0) (words.getD (2 * i + 1) 0)
  let start : BitVec 128 := part 0 ++ part 1
  let sequence : BitVec 128 := part 2 ++ part 3
  let s : Stream := { state := 0, increment := (sequence <<< 1) ||| 1 }
  let s := s.step
  ({ s with state := s.state + start }).step

def word (s : Stream) : UInt64 × Stream :=
  let s := s.step
  let folded := (s.state >>> 64).setWidth 64 ^^^ s.state.setWidth 64
  let turns := (s.state >>> 122).toNat
  (UInt64.ofBitVec (folded.rotateRight turns), s)

def half (s : Stream) : UInt32 × Stream :=
  match s.spare with
  | some h => (h, { s with spare := none })
  | none =>
    let (w, s) := s.word
    (w.toUInt32, { s with spare := some (w >>> 32).toUInt32 })

/-- A number from the unit interval, one excluded. -/
def unit (s : Stream) : Float × Stream :=
  let (w, s) := s.word
  ((w >>> 11).toFloat / 9007199254740992.0, s)

/-- A position in a list: a half is scaled to the length, and drawn again while its remainder is
below the threshold that would favour some positions. Draws are limited. -/
def scaled (count : UInt64) (threshold : UInt64) : (attempts : Nat) → Stream → Nat × Stream
  | 0, s => (0, s)
  | attempts + 1, s =>
    let (h, s) := s.half
    let product := h.toUInt64 * count
    if (product &&& 0xffffffff) < threshold then scaled count threshold attempts s
    else ((product >>> 32).toNat, s)

/-- A position in a list of a given length; a list with one member needs no draw. -/
def position (count : Nat) (s : Stream) : Nat × Stream :=
  if count ≤ 1 then (0, s)
  else
    let n := count.toUInt64
    scaled n ((0x100000000 - n) % n) 256 s

def scaledWord (count threshold : Nat) : (attempts : Nat) → Stream → Nat × Stream
  | 0, s => (0, s)
  | attempts + 1, s =>
    let (w, s) := s.word
    let product := w.toNat * count
    if product % 0x10000000000000000 < threshold then scaledWord count threshold attempts s
    else (product / 0x10000000000000000, s)

/-- A natural number up to a greatest one. As much of a word is drawn as the greatest number needs.
-/
def upTo (greatest : Nat) (s : Stream) : Nat × Stream :=
  if greatest < 0xffffffff then s.position (greatest + 1)
  else if greatest == 0xffffffff then
    let (h, s) := s.half
    (h.toNat, s)
  else if greatest < 0xffffffffffffffff then
    let count := greatest + 1
    scaledWord count ((0x10000000000000000 - count) % count) 256 s
  else
    let (w, s) := s.word
    (w.toNat, s)

end Stream

end Optima.Random
