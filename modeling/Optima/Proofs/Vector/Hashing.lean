import Mathlib.Data.List.Forall2
import Mathlib.Data.List.Induction
import Optima.Input.Vector
import Optima.Proofs.Scalar.Zero
import Optima.Proofs.Vector.Distinct

/-!
Equality, hashing and repetitions of vectors. A vector is hashed by the bytes of its components
after a zero is added to each of them, which makes one of the two zeros and changes no other number.
So equal vectors have equal bytes, and vectors of defined components with equal bytes are equal. A
dictionary compares keys by their digests first; whatever the digest is, the keys that it keeps are
the first members of the classes of equal vectors. Collisions of digests are allowed, and no digest
is computed here.
-/

namespace Optima

open Scalar

namespace Binary64

open Float.Model Float.Model.UnpackedFloat

variable {x y : Float}

theorem toBits_injective (h : x.toBits = y.toBits) : x = y := by
  obtain ⟨⟨a, ha⟩⟩ := x
  obtain ⟨⟨b, hb⟩⟩ := y
  obtain rfl : a = b := h
  rfl

/-- A zero of either sign becomes the positive one. -/
theorem unpack_add_zero {s : Sign} (h : unpack x = .zero s) :
    unpack (x + 0.0) = .zero .positive := by
  change UnpackedFloat.unpack Format.binary64 (UnpackedFloat.pack Format.binary64
    (UnpackedFloat.add Format.binary64 (unpack x) (.zero .positive))) = _
  rw [h]
  cases s <;> exact unpack_pack_zero .positive

/-- Equal doubles have the same bits once a zero is added. -/
theorem toBits_add_zero_eq (h : same x y = true) : (x + 0.0).toBits = (y + 0.0).toBits := by
  have hdefined : Defined x := ((Ranked.same_iff _ _).mp h).1
  rcases (same_iff_unpack hdefined).mp h with hequal | ⟨s, t, hx, hy⟩
  · rw [unpack_injective hequal]
  · have hsums : unpack (x + 0.0) = unpack (y + 0.0) :=
      (unpack_add_zero hx).trans (unpack_add_zero hy).symm
    rw [unpack_injective hsums]

/-- Doubles that are defined are equal if they have the same bits once a zero is added. -/
theorem same_of_toBits_add_zero (hx : Defined x) (hy : Defined y)
    (h : (x + 0.0).toBits = (y + 0.0).toBits) : same x y = true := by
  have hzero : same (0.0 : Float) 0 = true := by decide +kernel
  have hleft : same x (x + 0.0) = true := same_add_zero hx hzero
  have hright : same y (y + 0.0) = true := same_add_zero hy hzero
  rw [toBits_injective h] at hleft
  exact Ranked.same_trans hleft (Ranked.same_symm hright)

end Binary64

section Bytes

/-- The eight bytes of a machine word, the lowest first. -/
def wordBytes (w : UInt64) : List UInt8 :=
  (List.range 8).map fun i => UInt8.ofNat (w.toNat / 256 ^ i)

@[simp] theorem length_wordBytes (w : UInt64) : (wordBytes w).length = 8 := by
  rw [wordBytes, List.length_map, List.length_range]

/-- A number is known up to a power of the base if that many of its digits are. -/
theorem mod_pow_eq_of_digits {w z base n : ℕ}
    (h : ∀ i < n, w / base ^ i % base = z / base ^ i % base) : w % base ^ n = z % base ^ n := by
  induction n with
  | zero => rw [pow_zero, Nat.mod_one, Nat.mod_one]
  | succ n ih =>
      rw [Nat.mod_pow_succ, Nat.mod_pow_succ, h n (Nat.lt_succ_self n),
        ih fun i hi => h i (Nat.lt_succ_of_lt hi)]

theorem wordBytes_injective {w z : UInt64} (h : wordBytes w = wordBytes z) : w = z := by
  have hdigits : ∀ i < 8, w.toNat / 256 ^ i % 256 = z.toNat / 256 ^ i % 256 := fun i hi =>
    congrArg UInt8.toNat (List.map_inj_left.mp h i (List.mem_range.mpr hi))
  have hw : w.toNat < 256 ^ 8 := w.toNat_lt
  have hz : z.toNat < 256 ^ 8 := z.toNat_lt
  have hequal := mod_pow_eq_of_digits hdigits
  rw [Nat.mod_eq_of_lt hw, Nat.mod_eq_of_lt hz] at hequal
  exact UInt64.toNat_inj.mp hequal

theorem flatMap_wordBytes_ne_nil (w : UInt64) (ws : List UInt64) :
    (w :: ws).flatMap wordBytes ≠ [] := by
  intro h
  have hlength := congrArg List.length h
  simp only [List.flatMap_cons, List.length_append, length_wordBytes, List.length_nil] at hlength
  omega

theorem flatMap_wordBytes_injective {ws zs : List UInt64}
    (h : ws.flatMap wordBytes = zs.flatMap wordBytes) : ws = zs := by
  induction ws generalizing zs with
  | nil =>
      cases zs with
      | nil => rfl
      | cons z zs => exact absurd h.symm (flatMap_wordBytes_ne_nil z zs)
  | cons w ws ih =>
      cases zs with
      | nil => exact absurd h (flatMap_wordBytes_ne_nil w ws)
      | cons z zs =>
          -- All words have the same number of bytes, so the lists part at the same place.
          have hlength : (wordBytes w).length = (wordBytes z).length := by
            rw [length_wordBytes, length_wordBytes]
          rw [List.flatMap_cons, List.flatMap_cons] at h
          obtain ⟨hfirst, hrest⟩ := List.append_inj h hlength
          rw [wordBytes_injective hfirst, ih hrest]

end Bytes

namespace Vec

/-- The bytes that a vector is hashed by. -/
def hashedBytes (v : Vec Float) : List UInt8 := v.key.flatMap wordBytes

def IsDefined (v : Vec Float) : Prop := ∀ x ∈ v.toList, x.isNaN = false

variable {v w : Vec Float}

theorem IsDefined.defined (h : v.IsDefined) {x : Float} (hx : x ∈ v.toList) : Defined x :=
  (Binary64.defined_iff_isNaN x).mpr (h x hx)

theorem IsDefined.same_self (h : v.IsDefined) : v.same v = true :=
  Vec.same_self fun _ => h.defined

/-- Vectors with the same bytes are those with the same key. -/
theorem hashedBytes_eq_iff : v.hashedBytes = w.hashedBytes ↔ v.key = w.key :=
  ⟨flatMap_wordBytes_injective, congrArg (List.flatMap wordBytes)⟩

theorem key_eq_iff : v.key = w.key ↔
    List.Forall₂ (fun x y => (x + 0.0).toBits = (y + 0.0).toBits) v.toList w.toList := by
  rw [← List.forall₂_eq_eq_eq, key, key, List.forall₂_map_left_iff, List.forall₂_map_right_iff]

theorem hashedBytes_eq_of_same (h : v.same w = true) : v.hashedBytes = w.hashedBytes := by
  rw [hashedBytes_eq_iff, key_eq_iff]
  exact (same_iff_forall₂.mp h).imp fun _ _ => Binary64.toBits_add_zero_eq

/-- Only the two zeros share their bytes, so nothing is confused. -/
theorem same_of_hashedBytes_eq (hv : v.IsDefined) (hw : w.IsDefined)
    (h : v.hashedBytes = w.hashedBytes) : v.same w = true := by
  rw [hashedBytes_eq_iff, key_eq_iff] at h
  rw [same_iff_forall₂]
  obtain ⟨xs⟩ := v
  obtain ⟨ys⟩ := w
  dsimp only at h ⊢
  induction h with
  | nil => exact .nil
  | cons hbits _ ih =>
      obtain ⟨hx, hxs⟩ := List.forall_mem_cons.mp hv
      obtain ⟨hy, hys⟩ := List.forall_mem_cons.mp hw
      refine .cons (Binary64.same_of_toBits_add_zero ?_ ?_ hbits) (ih hxs hys)
      · exact (Binary64.defined_iff_isNaN _).mpr hx
      · exact (Binary64.defined_iff_isNaN _).mpr hy

section Occurrences

variable {α : Type} [Scalar α]

/-- The vectors that equal none at an earlier position. -/
def firstOccurrences (vs : List (Vec α)) : List (Vec α) :=
  (vs.zipIdx.filter fun entry => !(vs.take entry.2).any (same entry.1)).map Prod.fst

/-- A vector occurs for the first time if it equals none before it. -/
theorem firstOccurrences_append_singleton (vs : List (Vec α)) (v : Vec α) :
    firstOccurrences (vs ++ [v]) =
      if vs.any (same v) then firstOccurrences vs else firstOccurrences vs ++ [v] := by
  have hearlier : (vs.zipIdx.filter fun entry =>
        !((vs ++ [v]).take entry.2).any (same entry.1)) =
      vs.zipIdx.filter fun entry => !(vs.take entry.2).any (same entry.1) := by
    apply List.filter_congr
    intro entry hentry
    have hposition : entry.2 ≤ vs.length := (List.snd_lt_of_mem_zipIdx hentry).le
    rw [List.take_append_of_le_length hposition]
  rw [firstOccurrences, List.zipIdx_append, List.filter_append, hearlier, List.map_append]
  change firstOccurrences vs ++ _ = _
  cases hany : vs.any (same v) with
  | true => simp [hany]
  | false => simp [hany]

end Occurrences

section Ranks

variable {α : Type} [Scalar α] [Ranked α]

/-- A vector that equals one of a list equals one that is kept of it, and the other way round. -/
theorem any_same_distinct (vs : List (Vec α)) (v : Vec α) :
    (distinct vs).any (same v) = vs.any (same v) := by
  rw [Bool.eq_iff_iff, List.any_eq_true, List.any_eq_true]
  constructor
  · rintro ⟨u, hu, hsame⟩
    exact ⟨u, mem_of_mem_distinct hu, hsame⟩
  · rintro ⟨w, hw, hsame⟩
    have hself : w.same w = true := same_trans (same_symm hsame) hsame
    obtain ⟨u, hu, hkept⟩ := exists_same_distinct hw hself
    exact ⟨u, hu, same_trans hsame hkept⟩

theorem distinct_eq_firstOccurrences (vs : List (Vec α)) : distinct vs = firstOccurrences vs := by
  induction vs using List.reverseRecOn with
  | nil => rfl
  | append_singleton vs v ih =>
      rw [distinct_append_singleton, firstOccurrences_append_singleton, any_same_distinct, ih]

end Ranks

/-- A vector at the place where it is stored. -/
structure Located where
  address : ℕ
  vector : Vec Float

/-- Whether looking up a key finds an entry: the same object, or an equal one with the same digest.
-/
def Located.finds (digest : List UInt8 → ℕ) (key entry : Located) : Bool :=
  entry.address == key.address ||
    (digest entry.vector.hashedBytes == digest key.vector.hashedBytes &&
      entry.vector.same key.vector)

/-- The keys of a dictionary in the order in which they were stored. A key that is found is not
stored again. -/
def storedKeys (digest : List UInt8 → ℕ) (keys : List Located) : List Located :=
  keys.foldl (fun entries key =>
    if entries.any (Located.finds digest key) then entries else entries ++ [key]) []

/-- Objects with defined components, no two of them at one place. -/
structure Located.Separate (keys : List Located) : Prop where
  defined : ∀ key ∈ keys, key.vector.IsDefined
  vector_eq : ∀ key ∈ keys, ∀ entry ∈ keys,
    entry.address = key.address → entry.vector = key.vector

/-- Digests and places decide nothing that equality does not. -/
theorem Located.Separate.finds_eq {keys : List Located} (h : Located.Separate keys)
    (digest : List UInt8 → ℕ) {key entry : Located} (hkey : key ∈ keys) (hentry : entry ∈ keys) :
    Located.finds digest key entry = key.vector.same entry.vector := by
  rw [Vec.same_comm key.vector]
  cases hsame : entry.vector.same key.vector with
  | true => simp [Located.finds, hsame, hashedBytes_eq_of_same hsame]
  | false =>
      have hplaces : entry.address ≠ key.address := by
        intro haddress
        rw [h.vector_eq key hkey entry hentry haddress, (h.defined key hkey).same_self] at hsame
        cases hsame
      simp [Located.finds, hsame, hplaces]

theorem storedKeys_append_singleton (digest : List UInt8 → ℕ) (keys : List Located)
    (key : Located) :
    storedKeys digest (keys ++ [key]) =
      if (storedKeys digest keys).any (Located.finds digest key) then storedKeys digest keys
      else storedKeys digest keys ++ [key] := by
  rw [storedKeys, List.foldl_append]
  rfl

theorem storedKeys_sublist (digest : List UInt8 → ℕ) (keys : List Located) :
    (storedKeys digest keys).Sublist keys := by
  induction keys using List.reverseRecOn with
  | nil => exact List.Sublist.refl []
  | append_singleton keys key ih =>
      rw [storedKeys_append_singleton]
      split
      · exact ih.trans (List.sublist_append_left keys [key])
      · exact ih.append_right [key]

/-- A dictionary keeps what equality alone would keep. -/
theorem map_vector_storedKeys {keys : List Located} (h : Located.Separate keys)
    (digest : List UInt8 → ℕ) :
    (storedKeys digest keys).map Located.vector = distinct (keys.map Located.vector) := by
  induction keys using List.reverseRecOn with
  | nil => rfl
  | append_singleton keys key ih =>
      have hearlier : Located.Separate keys :=
        ⟨fun k hk => h.defined k (List.mem_append_left _ hk),
          fun k hk e he => h.vector_eq k (List.mem_append_left _ hk) e (List.mem_append_left _ he)⟩
      have hfound : (storedKeys digest keys).any (Located.finds digest key) =
          (distinct (keys.map Located.vector)).any (same key.vector) := by
        rw [← ih hearlier, List.any_map, Bool.eq_iff_iff, List.any_eq_true, List.any_eq_true]
        refine exists_congr fun entry => and_congr_right fun hentry => ?_
        have hstored : entry ∈ keys := (storedKeys_sublist digest keys).subset hentry
        rw [h.finds_eq digest (List.mem_append_right _ List.mem_cons_self)
          (List.mem_append_left _ hstored)]
        rfl
      rw [List.map_append, List.map_cons, List.map_nil, distinct_append_singleton,
        storedKeys_append_singleton, hfound]
      split
      · exact ih hearlier
      · rw [List.map_append, ih hearlier, List.map_cons, List.map_nil]

/-- Equality, hashing and leaving out repetitions agree with each other. Equal vectors have equal
bytes, and vectors of defined components with equal bytes are equal; on these, equality is an
equivalence. Of a list of them exactly the first of each class is kept, in order, and a dictionary
keeps the same ones, whatever its digest is. -/
theorem equality_agrees_with_bytes_and_distinct :
    (∀ v w : Vec Float, v.same w = true → v.hashedBytes = w.hashedBytes) ∧
    (∀ v w : Vec Float, v.IsDefined → w.IsDefined → v.hashedBytes = w.hashedBytes →
      v.same w = true) ∧
    Equivalence (fun v w : {v : Vec Float // v.IsDefined} => v.1.same w.1 = true) ∧
    (∀ vs : List (Vec Float), (∀ v ∈ vs, v.IsDefined) →
      ((distinct vs).Pairwise fun u v => u.same v = false) ∧
      distinct vs = firstOccurrences vs ∧
      ∀ v ∈ vs, ∃ u ∈ distinct vs, v.same u = true) ∧
    ∀ (digest : List UInt8 → ℕ) (keys : List Located), Located.Separate keys →
      (storedKeys digest keys).map Located.vector = distinct (keys.map Located.vector) := by
  refine ⟨fun _ _ => hashedBytes_eq_of_same, fun _ _ => same_of_hashedBytes_eq, ?_, ?_,
    fun digest _ hkeys => map_vector_storedKeys hkeys digest⟩
  · exact ⟨fun v => v.2.same_self, fun h => same_symm h, fun h h' => same_trans h h'⟩
  · intro vs hvs
    exact ⟨distinct_pairwise vs, distinct_eq_firstOccurrences vs,
      fun v hv => exists_same_distinct hv (hvs v hv).same_self⟩

theorem signed_zeros_are_one_key :
    let positive : Vec Float := ⟨[0.0, 1.0 / 0.0]⟩
    let negative : Vec Float := ⟨[-0.0, 1.0 / 0.0]⟩
    let least : Vec Float := ⟨[5e-324, -1.0 / 0.0]⟩
    let keys : List Located := [⟨0, positive⟩, ⟨1, least⟩, ⟨2, negative⟩, ⟨0, positive⟩]
    positive.same negative = true ∧ positive.hashedBytes = negative.hashedBytes ∧
      (∀ v ∈ keys.map Located.vector, v.IsDefined) ∧
      distinct (keys.map Located.vector) = firstOccurrences (keys.map Located.vector) ∧
      Located.Separate keys ∧
      (storedKeys List.length keys).map Located.vector = distinct (keys.map Located.vector) ∧
      (distinct (keys.map Located.vector)).length = 2 := by
  intro positive negative least keys
  obtain ⟨hbytes, hequal, -, hlists, hdictionary⟩ := equality_agrees_with_bytes_and_distinct
  have hpositive : positive.IsDefined := by
    unfold IsDefined
    decide +kernel
  have hnegative : negative.IsDefined := by
    unfold IsDefined
    decide +kernel
  have hkeys : ∀ v ∈ keys.map Located.vector, v.IsDefined := by
    unfold IsDefined
    decide +kernel
  have hseparate : Located.Separate keys := by
    refine ⟨fun key hkey => hkeys _ (List.mem_map_of_mem hkey), ?_⟩
    simp [keys]
  have hsame : positive.same negative = true := by decide +kernel
  have hhashed : positive.hashedBytes = negative.hashedBytes := hbytes positive negative hsame
  exact ⟨hequal positive negative hpositive hnegative hhashed, hhashed, hkeys,
    (hlists _ hkeys).2.1, hseparate, hdictionary List.length keys hseparate, by decide +kernel⟩

end Vec

end Optima
