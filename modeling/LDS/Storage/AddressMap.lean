import LDS.Library.Memory
import LDS.Storage.DriverData

/-!
# The address map of `RAIDStorage`

An offset belongs to a stripe, the stripe to a primary minion, and the offset to a local offset on
that minion. A request visits its range chunk by chunk, no chunk crossing a stripe.

## Main definitions

* `Geometry`: the members a `RAIDStorage` fixes at construction
* `Geometry.primaryIndex`, `Geometry.mirrorIndex`, `Geometry.localOffset`: the address map
* `Geometry.chunks`: the chunks a request visits
* `Geometry.InRange`: ranges inside the device
* `Geometry.Partition`: chunks that visit a range of the device exactly
* `Geometry.device`: the flat device that one copy of every primary makes up

## Main results

* `Geometry.localOffset_eq_mod`, `Geometry.primaryIndex_eq_div`: the map inside the device
* `Geometry.chunk_fits`, `Geometry.stripeSize_le_localOffset`: a chunk that starts inside the
  device ends inside its minion, and one that starts outside starts beyond its minion
* `Geometry.partition_chunks`: the chunks of a range of the device partition it
* `Geometry.device_store`, `Geometry.device_load`: a chunk of a minion is a range of the device
-/

namespace LDS

open Memory

/-- `m_num_primary` and `m_stripe_size`; the constructor sets `m_minion_size` to the latter. -/
structure Geometry where
  numPrimary : Nat
  stripeSize : Nat
  numPrimary_pos : 0 < numPrimary

/-- What one pass of the chunk loop moves: `len` bytes from `offset` on, at `bufPos` of the
buffer. -/
structure Chunk where
  offset : Nat
  len : Nat
  bufPos : Nat
  deriving DecidableEq

namespace Geometry

/-- `m_minions.size()`. -/
abbrev numMinions (g : Geometry) : Nat := 2 * g.numPrimary

/-- The number of bytes of the device. -/
abbrev capacity (g : Geometry) : Nat := g.numPrimary * g.stripeSize

/-- `RAIDStorage::PrimaryIndex`. -/
def primaryIndex (g : Geometry) (offset : Nat) : Fin g.numPrimary :=
  ⟨offset / g.stripeSize % g.numPrimary, Nat.mod_lt _ g.numPrimary_pos⟩

/-- `RAIDStorage::MirrorIndex`. -/
def mirrorIndex (g : Geometry) (primaryIdx : Fin g.numPrimary) : Fin g.numMinions :=
  ⟨g.numPrimary + primaryIdx, by simp only [numMinions]; omega⟩

/-- A primary index as an index into `m_minions`. -/
def primary (g : Geometry) (primaryIdx : Fin g.numPrimary) : Fin g.numMinions :=
  ⟨primaryIdx, by simp only [numMinions]; omega⟩

/-- `RAIDStorage::LocalOffset`. -/
def localOffset (g : Geometry) (offset : Nat) : Nat :=
  let stripeIndex := offset / g.stripeSize
  let stripeGroup := stripeIndex / g.numPrimary
  addSize (stripeGroup * g.stripeSize) (offset % g.stripeSize)

/-- `to_read` and `to_write`: what is left of the request, up to the end of the stripe. -/
def chunkLen (g : Geometry) (offset remaining : Nat) : Nat :=
  min remaining (g.stripeSize - offset % g.stripeSize)

theorem chunkLen_pos {g : Geometry} {remaining : Nat} (hr : 0 < remaining)
    (hS : 0 < g.stripeSize) (offset : Nat) : 0 < g.chunkLen offset remaining := by
  have := Nat.mod_lt offset hS
  simp only [chunkLen]
  omega

theorem chunkLen_le (g : Geometry) (offset remaining : Nat) :
    g.chunkLen offset remaining ≤ remaining := Nat.min_le_left _ _

/-- Every pass moves something. -/
theorem sub_chunkLen_lt {g : Geometry} {offset remaining : Nat} (hr : 0 < remaining)
    (hS : ¬ g.stripeSize = 0) : remaining - g.chunkLen offset remaining < remaining := by
  have := chunkLen_pos hr (Nat.pos_of_ne_zero hS) offset
  omega

/-- The chunks visited by the loops of `Read` and `Write`. -/
def chunks (g : Geometry) (offset remaining bufPos : Nat) : List Chunk :=
  if 0 < remaining ∧ 0 < g.stripeSize then
    ⟨offset, g.chunkLen offset remaining, bufPos⟩ ::
      g.chunks (addSize offset (g.chunkLen offset remaining))
        (remaining - g.chunkLen offset remaining) (bufPos + g.chunkLen offset remaining)
  else []
termination_by remaining
decreasing_by
  rename_i h
  exact sub_chunkLen_lt h.1 h.2.ne'

variable {g : Geometry}

@[simp] theorem chunks_zero (offset bufPos : Nat) : g.chunks offset 0 bufPos = [] := by
  rw [chunks, if_neg (by omega)]

theorem chunks_of_pos {remaining : Nat} (hr : 0 < remaining) (hS : 0 < g.stripeSize)
    (offset bufPos : Nat) :
    g.chunks offset remaining bufPos = ⟨offset, g.chunkLen offset remaining, bufPos⟩ ::
      g.chunks (addSize offset (g.chunkLen offset remaining))
        (remaining - g.chunkLen offset remaining) (bufPos + g.chunkLen offset remaining) := by
  rw [chunks, if_pos ⟨hr, hS⟩]

/-- Every mirror index lies beyond the primaries. -/
theorem primary_ne_mirrorIndex (i j : Fin g.numPrimary) : g.primary i ≠ g.mirrorIndex j := by
  intro h
  have := congrArg Fin.val h
  simp only [primary, mirrorIndex] at this
  omega

theorem primary_injective : Function.Injective g.primary := fun i j h =>
  Fin.ext (by simpa [primary] using congrArg Fin.val h)

theorem mirrorIndex_injective : Function.Injective g.mirrorIndex := fun i j h =>
  Fin.ext (by simpa [mirrorIndex] using congrArg Fin.val h)

/-! ## The map inside and outside the device -/

theorem localOffset_eq {offset : Nat} (h : offset < 2 ^ 64) :
    g.localOffset offset =
      offset / g.stripeSize / g.numPrimary * g.stripeSize + offset % g.stripeSize := by
  have h₁ : offset / g.stripeSize / g.numPrimary * g.stripeSize ≤
      offset / g.stripeSize * g.stripeSize := Nat.mul_le_mul_right _ (Nat.div_le_self _ _)
  have h₂ := Nat.div_add_mod' offset g.stripeSize
  exact addSize_eq (by omega)

theorem div_lt_of_lt {offset : Nat} (h : offset < g.capacity) :
    offset / g.stripeSize < g.numPrimary :=
  Nat.div_lt_of_lt_mul (by rwa [Nat.mul_comm])

theorem stripeSize_pos_of_lt {offset : Nat} (h : offset < g.capacity) : 0 < g.stripeSize :=
  Nat.pos_of_mul_pos_left (Nat.zero_lt_of_lt h)

theorem stripeSize_lt (h64 : g.capacity < 2 ^ 64) : g.stripeSize < 2 ^ 64 :=
  Nat.lt_of_le_of_lt (Nat.le_mul_of_pos_left _ g.numPrimary_pos) h64

/-- Inside the device the primary is the stripe. -/
theorem primaryIndex_eq_div {offset : Nat} (h : offset < g.capacity) :
    (g.primaryIndex offset : Nat) = offset / g.stripeSize :=
  Nat.mod_eq_of_lt (div_lt_of_lt h)

/-- Inside the device the local offset is the offset in the stripe. -/
theorem localOffset_eq_mod {offset : Nat} (h : offset < g.capacity) (h64 : offset < 2 ^ 64) :
    g.localOffset offset = offset % g.stripeSize := by
  rw [localOffset_eq h64, Nat.div_eq_of_lt (div_lt_of_lt h), Nat.zero_mul, Nat.zero_add]

/-- A chunk that starts inside the device ends inside it: stripes divide the device. -/
theorem chunk_end_le {offset : Nat} (h : offset < g.capacity) (remaining : Nat) :
    offset + g.chunkLen offset remaining ≤ g.capacity := by
  have h₁ := Nat.div_add_mod' offset g.stripeSize
  have h₂ : (offset / g.stripeSize + 1) * g.stripeSize ≤ g.capacity :=
    Nat.mul_le_mul_right _ (div_lt_of_lt h)
  have h₃ := Nat.mod_lt offset (stripeSize_pos_of_lt h)
  have h₄ : (offset / g.stripeSize + 1) * g.stripeSize =
    offset / g.stripeSize * g.stripeSize + g.stripeSize := Nat.succ_mul _ _
  simp only [chunkLen]
  omega

/-- A chunk that starts inside the device ends inside its minion. -/
theorem chunk_fits {offset : Nat} (h : offset < g.capacity) (h64 : offset < 2 ^ 64)
    (remaining : Nat) :
    g.localOffset offset + g.chunkLen offset remaining ≤ g.stripeSize := by
  rw [localOffset_eq_mod h h64]
  have := Nat.mod_lt offset (stripeSize_pos_of_lt h)
  simp only [chunkLen]
  omega

/-- A chunk that starts outside the device starts at the end of its minion or beyond. -/
theorem stripeSize_le_localOffset {offset : Nat} (hS : 0 < g.stripeSize)
    (h : g.capacity ≤ offset) (h64 : offset < 2 ^ 64) : g.stripeSize ≤ g.localOffset offset := by
  have h₁ : g.numPrimary ≤ offset / g.stripeSize := (Nat.le_div_iff_mul_le hS).mpr h
  have h₂ : 1 ≤ offset / g.stripeSize / g.numPrimary :=
    (Nat.le_div_iff_mul_le g.numPrimary_pos).mpr (by omega)
  have h₃ := Nat.mul_le_mul_right g.stripeSize h₂
  rw [localOffset_eq h64]
  omega

/-- The range is empty, or it lies inside the device and a `size_t` can name its offsets. -/
def InRange (g : Geometry) (offset len : Nat) : Prop :=
  0 < len → offset + len ≤ g.capacity ∧ offset + len ≤ 2 ^ 64

theorem inRange_of_le {offset len : Nat} (h64 : g.capacity < 2 ^ 64)
    (h : offset + len ≤ g.capacity) : g.InRange offset len := fun _ => ⟨h, by omega⟩

theorem inRange_iff {offset len : Nat} (h64 : g.capacity < 2 ^ 64) :
    g.InRange offset len ↔ len = 0 ∨ offset + len ≤ g.capacity := by
  constructor
  · intro h
    rcases Nat.eq_zero_or_pos len with hl | hl
    · exact .inl hl
    · exact .inr (h hl).1
  · rintro (rfl | h)
    · intro hl
      exact absurd hl (Nat.lt_irrefl 0)
    · exact inRange_of_le h64 h

theorem InRange.one {offset len k : Nat} (h : g.InRange offset len) (hk : k < len) :
    g.InRange (offset + k) 1 := by
  intro _
  have := h (by omega)
  omega

/-- `cs` visits the `remaining` bytes from `offset` on: nonempty chunks, one after the other, each
inside one stripe of the device. -/
inductive Partition (g : Geometry) : Nat → Nat → Nat → List Chunk → Prop
  | nil (offset bufPos : Nat) : Partition g offset 0 bufPos []
  | cons {offset n remaining bufPos : Nat} {cs : List Chunk} (hn : 0 < n)
      (hs : offset % g.stripeSize + n ≤ g.stripeSize) (hc : g.InRange offset n)
      (h : Partition g (offset + n) remaining (bufPos + n) cs) :
      Partition g offset (n + remaining) bufPos (⟨offset, n, bufPos⟩ :: cs)

/-- Inside the device the chunks partition the range. -/
theorem partition_chunks {offset remaining : Nat} (h : g.InRange offset remaining) (bufPos : Nat) :
    g.Partition offset remaining bufPos (g.chunks offset remaining bufPos) := by
  induction remaining using Nat.strong_induction_on generalizing offset bufPos with
  | _ remaining ih =>
    rcases Nat.eq_zero_or_pos remaining with rfl | hr
    · rw [chunks_zero]
      exact .nil _ _
    · obtain ⟨hc, h64⟩ := h hr
      have hS : 0 < g.stripeSize := stripeSize_pos_of_lt (by omega : offset < g.capacity)
      have hn := chunkLen_pos hr hS offset
      have hle := chunkLen_le g offset remaining
      have hs : offset % g.stripeSize + g.chunkLen offset remaining ≤ g.stripeSize := by
        have := Nat.mod_lt offset hS
        simp only [chunkLen]
        omega
      have hrest : g.InRange (offset + g.chunkLen offset remaining)
          (remaining - g.chunkLen offset remaining) := fun _ => by omega
      have hp := Partition.cons hn hs (fun _ => by omega)
        (ih _ (sub_chunkLen_lt hr hS.ne') hrest (bufPos + g.chunkLen offset remaining))
      rw [Nat.add_sub_cancel' hle] at hp
      rw [chunks_of_pos hr hS]
      rcases Nat.eq_zero_or_pos (remaining - g.chunkLen offset remaining) with hz | hz
      · -- the last chunk may end at `2 ^ 64`, where `offset` wraps
        rw [hz, chunks_zero] at hp ⊢
        exact hp
      · rwa [addSize_eq (by omega)]

/-- A chunk of a range lies inside the range and inside one stripe of the device. -/
theorem Partition.mem {offset remaining bufPos : Nat} {cs : List Chunk}
    (hp : g.Partition offset remaining bufPos cs) {c : Chunk} (hc : c ∈ cs) :
    0 < c.len ∧ c.offset % g.stripeSize + c.len ≤ g.stripeSize ∧ g.InRange c.offset c.len ∧
      offset ≤ c.offset ∧ c.offset + c.len ≤ offset + remaining ∧
      c.bufPos = bufPos + (c.offset - offset) := by
  induction hp with
  | nil offset bufPos => cases hc
  | @cons offset n remaining bufPos cs hn hs hr hp ih =>
    rcases List.mem_cons.mp hc with rfl | hc
    · exact ⟨hn, hs, hr, le_rfl, by simp only; omega, by simp⟩
    · obtain ⟨h₁, h₂, h₃, h₄, h₅, h₆⟩ := ih hc
      exact ⟨h₁, h₂, h₃, by omega, by omega, by omega⟩

/-- Inside the device the loops visit every stripe once. -/
theorem pairwise_primaryIndex_chunks {offset remaining : Nat} (h : g.InRange offset remaining)
    (bufPos : Nat) : (g.chunks offset remaining bufPos).Pairwise fun c c' =>
      g.primaryIndex c.offset ≠ g.primaryIndex c'.offset := by
  induction remaining using Nat.strong_induction_on generalizing offset bufPos with
  | _ remaining ih =>
    rcases Nat.eq_zero_or_pos remaining with rfl | hr
    · rw [chunks_zero]
      exact .nil
    obtain ⟨hc, h64⟩ := h hr
    have hS : 0 < g.stripeSize := stripeSize_pos_of_lt (by omega : offset < g.capacity)
    have hn := chunkLen_pos hr hS offset
    have hle := chunkLen_le g offset remaining
    rw [chunks_of_pos hr hS]
    rcases Nat.eq_zero_or_pos (remaining - g.chunkLen offset remaining) with hz | hz
    · rw [hz, chunks_zero]
      exact List.pairwise_singleton _ _
    have hadd : addSize offset (g.chunkLen offset remaining) = offset + g.chunkLen offset remaining :=
      addSize_eq (by omega)
    have hrest : g.InRange (offset + g.chunkLen offset remaining)
        (remaining - g.chunkLen offset remaining) := fun _ => by omega
    rw [hadd]
    refine List.pairwise_cons.mpr ⟨fun c hmem => ?_, ih _ (sub_chunkLen_lt hr hS.ne') hrest _⟩
    obtain ⟨hlen, -, -, hfrom, hto, -⟩ := (partition_chunks hrest _).mem hmem
    simp only at hto ⊢
    -- a chunk that is not the last one ends with its stripe
    have hend : offset + g.chunkLen offset remaining = (offset / g.stripeSize + 1) * g.stripeSize := by
      have hd := Nat.div_add_mod' offset g.stripeSize
      have hm := Nat.mod_lt offset hS
      rw [Nat.succ_mul]
      simp only [chunkLen] at hz ⊢
      omega
    have hdiv : offset / g.stripeSize + 1 ≤ c.offset / g.stripeSize :=
      (Nat.le_div_iff_mul_le hS).mpr (by omega)
    intro he
    have he := congrArg Fin.val he
    rw [primaryIndex_eq_div (by omega : offset < g.capacity),
      primaryIndex_eq_div (by omega : c.offset < g.capacity)] at he
    omega

/-- A range of one stripe fits a minion. -/
theorem localOffset_add_le {offset n : Nat} (hn : 0 < n)
    (hs : offset % g.stripeSize + n ≤ g.stripeSize) (hc : g.InRange offset n) :
    g.localOffset offset + n ≤ g.stripeSize := by
  obtain ⟨hc, h64⟩ := hc hn
  rwa [localOffset_eq_mod (by omega) (by omega)]

/-- Ranges of one stripe that follow each other on the device do so on its minion. -/
theorem localOffset_add_le_localOffset {offset n offset' n' : Nat} (hn : 0 < n) (hc : g.InRange offset n)
    (hn' : 0 < n') (hc' : g.InRange offset' n') (hp : g.primaryIndex offset = g.primaryIndex offset')
    (h : offset + n ≤ offset') : g.localOffset offset + n ≤ g.localOffset offset' := by
  obtain ⟨hcap, h64⟩ := hc hn
  obtain ⟨hcap', h64'⟩ := hc' hn'
  have hdiv : offset / g.stripeSize = offset' / g.stripeSize := by
    rw [← primaryIndex_eq_div (by omega : offset < g.capacity), hp,
      primaryIndex_eq_div (by omega : offset' < g.capacity)]
  have h₁ := Nat.div_add_mod' offset g.stripeSize
  have h₂ := Nat.div_add_mod' offset' g.stripeSize
  rw [hdiv] at h₁
  rw [localOffset_eq_mod (by omega) (by omega), localOffset_eq_mod (by omega) (by omega)]
  omega

/-- Every byte of a range is in a chunk. -/
theorem Partition.exists_mem {offset remaining bufPos x : Nat} {cs : List Chunk}
    (hp : g.Partition offset remaining bufPos cs) (h₁ : offset ≤ x) (h₂ : x < offset + remaining) :
    ∃ c ∈ cs, c.offset ≤ x ∧ x < c.offset + c.len := by
  induction hp with
  | nil offset bufPos => omega
  | @cons offset n remaining bufPos cs hn hs hr hp ih =>
    rcases Nat.lt_or_ge x (offset + n) with h | h
    · exact ⟨_, List.mem_cons_self, h₁, h⟩
    · obtain ⟨c, hc, h⟩ := ih h (by omega)
      exact ⟨c, List.mem_cons_of_mem _ hc, h⟩

/-! ## The device -/

/-- The offsets of one stripe follow each other on its minion. -/
theorem add_div_mod {offset k : Nat} (h : offset % g.stripeSize + k < g.stripeSize) :
    (offset + k) / g.stripeSize = offset / g.stripeSize ∧
      (offset + k) % g.stripeSize = offset % g.stripeSize + k := by
  have hS : 0 < g.stripeSize := by omega
  have hd := Nat.div_add_mod' offset g.stripeSize
  have he : offset + k =
    offset % g.stripeSize + k + g.stripeSize * (offset / g.stripeSize) := by
    rw [Nat.mul_comm]
    omega
  rw [he]
  exact ⟨by rw [Nat.add_mul_div_left _ _ hS, Nat.div_eq_of_lt h, Nat.zero_add],
    by rw [Nat.add_mul_mod_self_left, Nat.mod_eq_of_lt h]⟩

/-- The flat device that one copy of every primary makes up: an offset holds the cell at its local
offset. -/
def device (g : Geometry) (copy : Fin g.numPrimary → Nat → Byte) : Nat → Byte :=
  fun offset => copy (g.primaryIndex offset) (g.localOffset offset)

variable {copy : Fin g.numPrimary → Nat → Byte} {offset : Nat}

theorem primaryIndex_add {k : Nat} (h : offset + k < g.capacity)
    (hk : offset % g.stripeSize + k < g.stripeSize) :
    g.primaryIndex (offset + k) = g.primaryIndex offset := by
  refine Fin.ext ?_
  rw [primaryIndex_eq_div h, primaryIndex_eq_div (by omega), (add_div_mod hk).1]

theorem localOffset_add {k : Nat} (h : offset + k < g.capacity) (h64 : offset + k < 2 ^ 64)
    (hk : offset % g.stripeSize + k < g.stripeSize) :
    g.localOffset (offset + k) = g.localOffset offset + k := by
  rw [localOffset_eq_mod h (by omega), localOffset_eq_mod (by omega) (by omega), (add_div_mod hk).2]

/-- A range of one stripe, read from its minion, is a range of the device. -/
theorem device_load (copy : Fin g.numPrimary → Nat → Byte) {n : Nat} (h : g.InRange offset n)
    (hn : offset % g.stripeSize + n ≤ g.stripeSize) :
    load (copy (g.primaryIndex offset)) (g.localOffset offset) n = load (g.device copy) offset n :=
  load_congr fun k hk => by
    obtain ⟨hc, h64⟩ := h (by omega)
    rw [device, primaryIndex_add (by omega) (by omega),
      localOffset_add (by omega) (by omega) (by omega)]

/-- A range of one stripe, stored on its minion, is stored on the device. -/
theorem device_store {buf : List Byte} (h : g.InRange offset buf.length)
    (hn : offset % g.stripeSize + buf.length ≤ g.stripeSize) {x : Nat} (hx : g.InRange x 1) :
    g.device (Function.update copy (g.primaryIndex offset)
        (store (copy (g.primaryIndex offset)) (g.localOffset offset) buf)) x =
      store (g.device copy) offset buf x := by
  obtain ⟨hx, hx64⟩ := hx Nat.one_pos
  by_cases hc : offset ≤ x ∧ x < offset + buf.length
  · -- inside the stored range: the same minion, at the same distance
    obtain ⟨k, rfl⟩ := Nat.exists_eq_add_of_le hc.1
    rw [device, primaryIndex_add hx (by omega), localOffset_add hx hx64 (by omega),
      Function.update_self, store_of_mem (by omega) (by omega),
      store_of_mem hc.1 (by omega)]
    congr 1
    omega
  · rw [store_of_not_mem hc, device, device]
    rcases Nat.eq_zero_or_pos buf.length with h0 | h0
    · rw [List.eq_nil_of_length_eq_zero h0, store_nil, Function.update_eq_self]
    obtain ⟨hcap, h64⟩ := h h0
    by_cases hi : g.primaryIndex x = g.primaryIndex offset
    · -- the same stripe, outside the local range
      have hd : x / g.stripeSize = offset / g.stripeSize := by
        rw [← primaryIndex_eq_div hx, ← primaryIndex_eq_div (by omega : offset < g.capacity), hi]
      have h₁ := Nat.div_add_mod' x g.stripeSize
      have h₂ := Nat.div_add_mod' offset g.stripeSize
      rw [hi, Function.update_self, store_of_not_mem]
      rw [localOffset_eq_mod hx (by omega),
        localOffset_eq_mod (by omega : offset < g.capacity) (by omega)]
      rw [hd] at h₁
      omega
    · rw [Function.update_of_ne hi]

end Geometry

end LDS
