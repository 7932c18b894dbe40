import Mathlib

/-!
# Bytes of numbers

Numbers as fixed-width byte strings, most significant byte first.

## Main definitions

* `bigEndian n x`: the `n` bytes of `x`
* `ofBigEndian bs`: the number of a byte string
* `decodeMany decode n`: a decoder of one frame, for `n` of them

## Main results

* `ofBigEndian_lt`: a string of `n` bytes is below `256 ^ n`
* `ofBigEndian_bigEndian`, `bigEndian_ofBigEndian`: the round trips
* `ofBigEndian_bigEndian_mod`: what a field that is too short keeps of a number
* `decodeMany_flatMap`: a sequence of frames is decoded frame by frame
-/

/-- The lower `n` bytes of `x`, most significant byte first. -/
def bigEndian : Nat → Nat → List UInt8
  | 0, _ => []
  | n + 1, x => bigEndian n (x / 256) ++ [UInt8.ofNat x]

@[simp] theorem length_bigEndian (n x : Nat) : (bigEndian n x).length = n := by
  induction n generalizing x with
  | zero => rfl
  | succ n ih => rw [bigEndian, List.length_append, ih, List.length_singleton]

/-- The number whose bytes, most significant byte first, are `bs`. -/
def ofBigEndian (bs : List UInt8) : Nat := bs.foldl (fun x b => 256 * x + b.toNat) 0

theorem ofBigEndian_append_singleton (bs : List UInt8) (b : UInt8) :
    ofBigEndian (bs ++ [b]) = 256 * ofBigEndian bs + b.toNat := by
  rw [ofBigEndian, List.foldl_append]
  rfl

theorem ofBigEndian_lt (bs : List UInt8) : ofBigEndian bs < 256 ^ bs.length := by
  induction bs using List.reverseRecOn with
  | nil => exact Nat.one_pos
  | append_singleton bs b ih =>
    have hb := b.toNat_lt
    rw [ofBigEndian_append_singleton, List.length_append, List.length_singleton, Nat.pow_succ]
    omega

/-- The lower bytes of a number give it back modulo their bound. -/
theorem ofBigEndian_bigEndian_mod (n x : Nat) : ofBigEndian (bigEndian n x) = x % 256 ^ n := by
  induction n generalizing x with
  | zero => rw [Nat.pow_zero, Nat.mod_one]; rfl
  | succ n ih =>
    have hmod : x % 256 ^ (n + 1) = x % 256 + 256 * (x / 256 % 256 ^ n) := by
      rw [Nat.pow_succ, Nat.mul_comm, Nat.mod_mul]
    rw [bigEndian, ofBigEndian_append_singleton, ih, UInt8.toNat_ofNat', hmod]
    omega

/-- The bytes of a number give it back, if it has no more of them. -/
theorem ofBigEndian_bigEndian {n x : Nat} (h : x < 256 ^ n) : ofBigEndian (bigEndian n x) = x := by
  rw [ofBigEndian_bigEndian_mod, Nat.mod_eq_of_lt h]

/-- The number of a byte string gives its bytes back. -/
theorem bigEndian_ofBigEndian (bs : List UInt8) : bigEndian bs.length (ofBigEndian bs) = bs := by
  induction bs using List.reverseRecOn with
  | nil => rfl
  | append_singleton bs b ih =>
    have hb := b.toNat_lt
    have hdiv : (256 * ofBigEndian bs + b.toNat) / 256 = ofBigEndian bs := by omega
    have hmod : UInt8.ofNat (256 * ofBigEndian bs + b.toNat) = b := by
      apply UInt8.toNat.inj
      rw [UInt8.toNat_ofNat']
      omega
    rw [List.length_append, List.length_singleton, bigEndian, ofBigEndian_append_singleton, hdiv,
      hmod, ih]

/-! ## Sequences of frames -/

/-- Decode `n` frames, each from where the one before it ended. -/
def decodeMany {β : Type} (decode : List UInt8 → Option (β × List UInt8)) :
    Nat → List UInt8 → Option (List β × List UInt8)
  | 0, bs => some ([], bs)
  | n + 1, bs =>
    (decode bs).bind fun r => (decodeMany decode n r.2).map fun rs => (r.1 :: rs.1, rs.2)

/-- A decoder that recognises every frame of a sequence, whatever follows it, recognises the
sequence. -/
theorem decodeMany_flatMap {α β : Type} {decode : List UInt8 → Option (β × List UInt8)}
    {frame : α → List UInt8} {value : α → β} {xs : List α}
    (h : ∀ x ∈ xs, ∀ rest, decode (frame x ++ rest) = some (value x, rest)) (rest : List UInt8) :
    decodeMany decode xs.length (xs.flatMap frame ++ rest) = some (xs.map value, rest) := by
  induction xs with
  | nil => rfl
  | cons x xs ih =>
    rw [List.flatMap_cons, List.append_assoc, List.length_cons, decodeMany,
      h x List.mem_cons_self, Option.bind_some, ih fun y hy => h y (List.mem_cons_of_mem x hy)]
    rfl
