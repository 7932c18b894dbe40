import LDS.Storage.Bounds
import LDS.Storage.StorageFactory

/-!
# The passes of a request

`RAIDStorage` divides by the size of its stripes, which is the size that its minions were created with,
and the size `0` is accepted. A pass of a chunk loop ends at the end of the request or of a stripe, so that
a request makes few of them: an offset that wraps at `2 ^ 64` in the middle of a stripe would cost further
passes, and no minion accepts the chunk before it unless stripes are very long.

## Main definitions

* `Geometry.Fits g c`: the chunk lies inside its minion
* `InBounds μ`: a call of a minion that returns has stayed inside its size
* `RAIDStorage.passes tr`: the lengths of the chunks that a request has begun to move
* `RAIDStorage.Busy μ τ g`: the answers that a request gets while others run
* `RAIDStorage.Processed s isWrite data`: the request divides by no zero and ends

## Main results

* `Geometry.length_le_of_fits`: the number of passes
* `RAIDStorage.passes_readChunks`, `RAIDStorage.passes_writeChunks`: a loop moves a prefix of its chunks
* `RAIDStorage.processed_iff`: which requests are processed
-/

namespace LDS

open Memory

namespace Geometry

variable {g : Geometry} {offset remaining bufPos : Nat}

/-- The chunk lies inside its minion. -/
def Fits (g : Geometry) (c : Chunk) : Prop := g.localOffset c.offset + c.len ≤ g.stripeSize

/-- A chunk that fits its minion starts on the device. -/
theorem Fits.lt_capacity {c : Chunk} (h : g.Fits c) (hc : 0 < c.len) (hS : 0 < g.stripeSize)
    (ho : c.offset < 2 ^ 64) : c.offset < g.capacity := by
  by_contra hout
  have hlocal := stripeSize_le_localOffset hS (Nat.le_of_not_lt hout) ho
  unfold Fits at h
  omega

/-- The chunks move the whole range. -/
theorem sum_len_chunks (hS : 0 < g.stripeSize) (offset remaining bufPos : Nat) :
    ((g.chunks offset remaining bufPos).map Chunk.len).sum = remaining := by
  induction remaining using Nat.strong_induction_on generalizing offset bufPos with
  | _ remaining ih =>
    rcases Nat.eq_zero_or_pos remaining with rfl | hr
    · rw [chunks_zero]
      rfl
    · rw [chunks_of_pos hr hS, List.map_cons, List.sum_cons, ih _ (sub_chunkLen_lt hr hS.ne')]
      exact Nat.add_sub_cancel' (chunkLen_le g offset remaining)

/-- Every chunk moves something, from inside the buffer. -/
theorem mem_chunks {c : Chunk} (hc : c ∈ g.chunks offset remaining bufPos) :
    0 < c.len ∧ c.bufPos + c.len ≤ bufPos + remaining := by
  induction remaining using Nat.strong_induction_on generalizing offset bufPos with
  | _ remaining ih =>
    rw [chunks] at hc
    split at hc
    · rename_i h
      have hle := chunkLen_le g offset remaining
      rcases List.mem_cons.mp hc with rfl | hc
      · exact ⟨chunkLen_pos h.1 h.2 offset, by simp only; omega⟩
      · obtain ⟨hlen, hpos⟩ := ih _ (sub_chunkLen_lt h.1 h.2.ne') hc
        exact ⟨hlen, by omega⟩
    · cases hc

/-- With stripes twice as long as the longest request, the first chunk or the second one is the last. -/
theorem length_chunks_le_two (hS : 2 ^ 33 ≤ g.stripeSize) (hr : remaining < 2 ^ 32)
    (ho : offset < 2 ^ 64) : (g.chunks offset remaining bufPos).length ≤ 2 := by
  have hpos : 0 < g.stripeSize := by omega
  rcases Nat.eq_zero_or_pos remaining with rfl | hr₀
  · rw [chunks_zero]
    exact Nat.zero_le 2
  rw [chunks_of_pos hr₀ hpos]
  rcases Nat.eq_zero_or_pos (remaining - g.chunkLen offset remaining) with hz | hz
  · rw [hz, chunks_zero]
    exact Nat.le_succ 1
  -- the first chunk has come to the end of its stripe
  have hend : g.chunkLen offset remaining = g.stripeSize - offset % g.stripeSize := by
    simp only [chunkLen] at hz ⊢
    omega
  have hle := chunkLen_le g offset remaining
  have hmod := Nat.mod_lt offset hpos
  -- and leaves more than the rest of the request in the next one
  have hnext : addSize offset (g.chunkLen offset remaining) % g.stripeSize ≤ remaining := by
    rcases Nat.lt_or_ge (offset + g.chunkLen offset remaining) (2 ^ 64) with hw | hw
    · have hdiv := Nat.div_add_mod' offset g.stripeSize
      have hsucc : offset + g.chunkLen offset remaining = (offset / g.stripeSize + 1) * g.stripeSize := by
        rw [Nat.succ_mul]
        omega
      rw [addSize_eq hw, hsucc, Nat.mul_mod_left]
      exact Nat.zero_le remaining
    · rw [addSize_wrap ho (by omega) hw]
      exact (Nat.mod_le _ _).trans (by omega)
  have hlast : g.chunkLen (addSize offset (g.chunkLen offset remaining))
      (remaining - g.chunkLen offset remaining) = remaining - g.chunkLen offset remaining := by
    rw [chunkLen, Nat.min_eq_left (by omega)]
  rw [chunks_of_pos hz hpos, hlast, Nat.sub_self, chunks_zero]
  exact Nat.le_refl 2

/-- Where every chunk but the last fits its minion, `offset` does not wrap between two chunks, and all but
the first begin a stripe. -/
theorem length_le_of_fits (hS : 0 < g.stripeSize) (h64 : g.capacity < 2 ^ 64) {moved : List Chunk}
    (ho : offset < 2 ^ 64) (hm : moved <+: g.chunks offset remaining bufPos)
    (hf : ∀ c ∈ moved.dropLast, g.Fits c) :
    moved.length ≤ (offset % g.stripeSize + remaining + g.stripeSize - 1) / g.stripeSize := by
  induction moved generalizing offset remaining bufPos with
  | nil => exact Nat.zero_le _
  | cons c moved ih =>
    rcases Nat.eq_zero_or_pos remaining with rfl | hr
    · rw [chunks_zero] at hm
      cases List.prefix_nil.mp hm
    rw [chunks_of_pos hr hS] at hm
    obtain ⟨rfl, hrest⟩ := List.cons_prefix_cons.mp hm
    cases moved with
    | nil =>
      rw [List.length_singleton, Nat.le_div_iff_mul_le hS]
      omega
    | cons c' moved =>
      have hfit := hf _ List.mem_cons_self
      have hlt := hfit.lt_capacity (chunkLen_pos hr hS offset) hS ho
      have hend := chunk_end_le hlt remaining
      have hle := chunkLen_le g offset remaining
      have hmod := Nat.mod_lt offset hS
      have hadd : addSize offset (g.chunkLen offset remaining) = offset + g.chunkLen offset remaining :=
        addSize_eq (Nat.lt_of_le_of_lt hend h64)
      have hlen := ih (addSize_lt _ _) hrest fun c hc => hf c (List.mem_cons_of_mem _ hc)
      -- there is a next chunk, so this one comes to the end of its stripe
      have hmore : 0 < remaining - g.chunkLen offset remaining := by
        by_contra hz
        rw [Nat.eq_zero_of_not_pos hz, chunks_zero] at hrest
        cases List.prefix_nil.mp hrest
      have hstripe : g.chunkLen offset remaining = g.stripeSize - offset % g.stripeSize := by
        simp only [chunkLen] at hmore ⊢
        omega
      have hzero : (offset + g.chunkLen offset remaining) % g.stripeSize = 0 := by
        have hdiv := Nat.div_add_mod' offset g.stripeSize
        have hsucc : offset + g.chunkLen offset remaining = (offset / g.stripeSize + 1) * g.stripeSize := by
          rw [Nat.succ_mul]
          omega
        rw [hsucc, Nat.mul_mod_left]
      rw [hadd, hzero] at hlen
      rw [List.length_cons]
      calc (c' :: moved).length + 1
          ≤ (0 + (remaining - g.chunkLen offset remaining) + g.stripeSize - 1) / g.stripeSize + 1 :=
            Nat.succ_le_succ hlen
        _ = (0 + (remaining - g.chunkLen offset remaining) + g.stripeSize - 1 + g.stripeSize) /
              g.stripeSize := (Nat.add_div_right _ hS).symm
        _ = (offset % g.stripeSize + remaining + g.stripeSize - 1) / g.stripeSize := by
            congr 1
            omega

/-- **The number of passes** of a request, on a device that ends before `2 ^ 64` or has long stripes. -/
theorem length_le_of_begun (hS : 0 < g.stripeSize) (hg : g.capacity < 2 ^ 64 ∨ 2 ^ 33 ≤ g.stripeSize)
    {moved : List Chunk} (ho : offset < 2 ^ 64) (hr : remaining < 2 ^ 32)
    (hm : moved <+: g.chunks offset remaining bufPos) (hf : ∀ c ∈ moved.dropLast, g.Fits c) :
    moved.length ≤ remaining / g.stripeSize + 2 := by
  rcases hg with h64 | hlong
  · refine (length_le_of_fits hS h64 ho hm hf).trans ?_
    have hmod := Nat.mod_lt offset hS
    rw [← Nat.add_mul_div_right remaining 2 hS]
    exact Nat.div_le_div_right (by omega)
  · exact (hm.length_le.trans (length_chunks_le_two hlong hr ho)).trans (Nat.le_add_left _ _)

end Geometry

/-! ## Calls inside the bounds -/

/-- A call of a minion that returns has stayed inside its size, which never changes; a read hands back a
buffer of the same length. -/
structure InBounds (μ : Type) [IStorageMinion μ] : Prop where
  write_ok : ∀ (m : μ) a buf, (IStorageMinion.write m a buf).1 = .ok () →
    a + buf.length ≤ IStorageMinion.size m
  read_ok : ∀ (m : μ) a buf, (IStorageMinion.read m a buf).1 = .ok () →
    a + buf.length ≤ IStorageMinion.size m
  length_read : ∀ (m : μ) a buf, (IStorageMinion.read m a buf).2.length = buf.length
  size_write : ∀ (m : μ) a buf, IStorageMinion.size (IStorageMinion.write m a buf).2 = IStorageMinion.size m

theorem LawfulMinion.inBounds (μ : Type) [LawfulMinion μ] : InBounds μ where
  write_ok m a buf h := (LawfulMinion.write_ok m a buf h).1
  read_ok m a buf h := (LawfulMinion.read_ok m a buf h).1
  length_read m a buf := LawfulMinion.length_read m a buf
  size_write m a buf := LawfulMinion.size_write m a buf

/-- Whatever its image, a file minion moves no range beyond its size. -/
theorem StorageMinionFile.inBounds : InBounds StorageMinionFile where
  write_ok m a buf h := by
    change (write m a buf).1 = .ok () at h
    unfold write writeBy at h
    split at h
    · cases h
    · rename_i hguard
      by_cases hfile : 2 ^ 63 ≤ a + buf.length
      · rw [pwrite, if_pos hfile] at h
        cases h
      · exact le_of_not_addSize_gt hguard (by omega)
  read_ok m a buf h := by
    change (read m a buf).1 = .ok () at h
    unfold read readBy at h
    split at h
    · cases h
    · rename_i hguard
      by_cases hfile : 2 ^ 63 ≤ a + buf.length
      · rw [pread, if_pos hfile] at h
        cases h
      · exact le_of_not_addSize_gt hguard (by omega)
  length_read m a buf := by
    change (read m a buf).2.length = buf.length
    unfold read readBy
    split
    · rfl
    · cases hp : pread m.image buf.length a with
      | none => rfl
      | some bytes =>
        have hle : bytes.length ≤ buf.length := by
          unfold pread at hp
          split at hp
          · cases hp
          · obtain rfl := Option.some.inj hp
            simp only [slice, List.length_take]
            omega
        simp only
        split <;> simp only [List.length_append, List.length_drop] <;> omega
  size_write m a buf := by
    change (write m a buf).2.size = m.size
    unfold write writeBy
    split
    · rfl
    · split
      · rfl
      · split <;> rfl

namespace Geometry

/-- Every byte of the minions has an address of its own. -/
def Addressable (g : Geometry) : Prop := g.numMinions * g.stripeSize ≤ 2 ^ 64

/-- Every file minion holds a descriptor of its own, an `int` that is not negative. -/
def HasDescriptors (g : Geometry) : Prop := g.numMinions ≤ 2 ^ 31

instance (g : Geometry) : Decidable g.Addressable := inferInstanceAs (Decidable (_ ≤ _))

instance (g : Geometry) : Decidable g.HasDescriptors := inferInstanceAs (Decidable (_ ≤ _))

variable {g : Geometry}

/-- Half of the minions are primaries. -/
theorem Addressable.capacity_lt (h : g.Addressable) : g.capacity < 2 ^ 64 := by
  unfold Addressable at h
  rw [numMinions, Nat.mul_assoc] at h
  change 2 * g.capacity ≤ 2 ^ 64 at h
  omega

/-- Files of more than `2 ^ 64` bytes together are long ones, as there are not many of them. -/
theorem HasDescriptors.lt_or_le (h : g.HasDescriptors) :
    g.capacity < 2 ^ 64 ∨ 2 ^ 33 ≤ g.stripeSize := by
  by_contra hn
  obtain ⟨hcap, hS⟩ := not_or.mp hn
  have hP : g.numPrimary ≤ 2 ^ 30 := by
    unfold HasDescriptors at h
    rw [numMinions] at h
    omega
  have hle : g.capacity ≤ 2 ^ 30 * 2 ^ 33 := Nat.mul_le_mul hP (by omega)
  omega

end Geometry

namespace RAIDStorage

variable {g : Geometry} {isWrite : Bool} {data : DriverData}

/-- A loop of no bytes makes no division, and any other one divides by the size of the stripes. -/
theorem readLoop_eq_of_divisor {remaining : Nat} (h : remaining = 0 ∨ 0 < g.stripeSize)
    (offset bufPos : Nat) (buffer : List Byte) :
    readLoop g offset remaining bufPos buffer =
      readChunks g buffer (g.chunks offset remaining bufPos) :=
  (readLoop_eq_or_abort g offset remaining bufPos buffer).resolve_right (by omega)

theorem writeLoop_eq_of_divisor {remaining : Nat} (h : remaining = 0 ∨ 0 < g.stripeSize)
    (buffer : List Byte) (offset bufPos : Nat) :
    writeLoop g buffer offset remaining bufPos =
      writeChunks g buffer (g.chunks offset remaining bufPos) :=
  (writeLoop_eq_or_abort g buffer offset remaining bufPos).resolve_right (by omega)

/-! ## The passes of an execution -/

/-- The length of the chunk that a call of a primary moves; every pass of a loop begins with one. -/
def passLength? : Exchange (RAIDCall g) RAIDCall.Answer → Option Nat
  | ⟨.minionRead i _ buf, _⟩ => if i < g.numPrimary then some buf.length else none
  | ⟨.minionWrite i _ buf, _⟩ => if i < g.numPrimary then some buf.length else none
  | _ => none

/-- The lengths of the chunks that a request has begun to move. -/
def passes (tr : List (Exchange (RAIDCall g) RAIDCall.Answer)) : List Nat :=
  tr.filterMap passLength?

@[simp] theorem passes_nil : passes ([] : List (Exchange (RAIDCall g) RAIDCall.Answer)) = [] := rfl

@[simp] theorem passes_append (tr tr' : List (Exchange (RAIDCall g) RAIDCall.Answer)) :
    passes (tr ++ tr') = passes tr ++ passes tr' := List.filterMap_append

section Calls

variable {offset : Nat} {buf : List Byte} {tr : List (Exchange (RAIDCall g) RAIDCall.Answer)}
  (j : Fin g.numPrimary)

@[simp] theorem passes_primaryRead (a : Except String Unit × List Byte) :
    passes (⟨.minionRead (g.primary j) offset buf, a⟩ :: tr) = buf.length :: passes tr := by
  simp [passes, passLength?, Geometry.primary]

@[simp] theorem passes_mirrorRead (a : Except String Unit × List Byte) :
    passes (⟨.minionRead (g.mirrorIndex j) offset buf, a⟩ :: tr) = passes tr := by
  simp [passes, passLength?, Geometry.mirrorIndex]

@[simp] theorem passes_primaryWrite (a : Except String Unit) :
    passes (⟨.minionWrite (g.primary j) offset buf, a⟩ :: tr) = buf.length :: passes tr := by
  simp [passes, passLength?, Geometry.primary]

@[simp] theorem passes_mirrorWrite (a : Except String Unit) :
    passes (⟨.minionWrite (g.mirrorIndex j) offset buf, a⟩ :: tr) = passes tr := by
  simp [passes, passLength?, Geometry.mirrorIndex]

end Calls

/-- The request has begun to move the first of the chunks `cs`, and all before the last one fit their
minions. -/
def Moved (g : Geometry) (cs : List Chunk) (tr : List (Exchange (RAIDCall g) RAIDCall.Answer)) : Prop :=
  ∃ moved, moved <+: cs ∧ passes tr = moved.map Chunk.len ∧ ∀ c ∈ moved.dropLast, g.Fits c

section Moved

variable {cs : List Chunk} {c : Chunk} {tr tr' : List (Exchange (RAIDCall g) RAIDCall.Answer)}

theorem Moved.nil (cs : List Chunk) : Moved g cs [] := ⟨[], List.nil_prefix, rfl, nofun⟩

/-- A pass that has not come to its end. -/
theorem Moved.of_begun (h : passes tr <+: [c.len]) : Moved g (c :: cs) tr := by
  cases hp : passes tr with
  | nil => exact ⟨[], List.nil_prefix, hp, nofun⟩
  | cons n ns =>
    rw [hp] at h
    obtain ⟨rfl, hns⟩ := List.cons_prefix_cons.mp h
    obtain rfl := List.prefix_nil.mp hns
    exact ⟨[c], List.cons_prefix_cons.mpr ⟨rfl, List.nil_prefix⟩, hp, nofun⟩

/-- A pass, and those that follow it. -/
theorem Moved.cons (hp : passes tr = [c.len]) (hc : g.Fits c) (h : Moved g cs tr') :
    Moved g (c :: cs) (tr ++ tr') := by
  obtain ⟨moved, hm, hp', hf⟩ := h
  refine ⟨c :: moved, List.cons_prefix_cons.mpr ⟨rfl, hm⟩, by simp [hp, hp'], ?_⟩
  cases moved with
  | nil => nofun
  | cons c' moved => exact List.forall_mem_cons.mpr ⟨hc, hf⟩

theorem Moved.append_right (h : Moved g cs tr) (hp : passes tr' = []) : Moved g cs (tr ++ tr') := by
  obtain ⟨moved, hm, hp', hf⟩ := h
  exact ⟨moved, hm, by rw [passes_append, hp, List.append_nil, hp'], hf⟩

end Moved

section Busy

variable (μ τ : Type) [IStorageMinion μ] [IMetadataStore τ]

/-- What a request is answered while others run: every call comes to the minions in some state, and may
fail. -/
def Busy (g : Geometry) : Environment (RAIDCall g) RAIDCall.Answer Unit :=
  Interfered Answers fun s : RAIDStorage μ τ g => ∀ i, IStorageMinion.size (s.minions i) = g.stripeSize

variable {μ τ} {i : Fin g.numMinions} {offset : Nat} {buf : List Byte} (hμ : InBounds μ)

include hμ

/-- No call changes the size of a minion. -/
theorem sized_of_answers {s s' : RAIDStorage μ τ g} {o : RAIDCall g} {a : o.Answer}
    (h : Answers s o a s') (hs : ∀ i, IStorageMinion.size (s.minions i) = g.stripeSize) :
    ∀ i, IStorageMinion.size (s'.minions i) = g.stripeSize := by
  cases h.effect with
  | none => exact hs
  | @minionWrite j =>
    intro i
    rcases eq_or_ne i j with rfl | hne
    · simpa [setMinion] using (hμ.size_write _ _ _).trans (hs i)
    · simpa [setMinion, hne] using hs i
  | recordSize => exact hs

theorem busy_minionRead {a : Except String Unit × List Byte}
    (h : Busy μ τ g () (.minionRead i offset buf) a ()) :
    a.2.length = buf.length ∧ (a.1 = .ok () → offset + buf.length ≤ g.stripeSize) := by
  obtain ⟨s, s', hs, h | hl⟩ := h
  · obtain ⟨a', ha, he⟩ := Option.map_eq_some_iff.mp h
    obtain ⟨rfl, rfl⟩ := Prod.mk.inj he
    refine ⟨hμ.length_read _ _ _, fun hok => ?_⟩
    obtain rfl : a' = .ok () := hok
    rw [← hs i]
    exact hμ.read_ok _ _ _ (Outcome.answer?_eq_ok.mp ha)
  · exact ⟨hl, fun hok => by cases hok⟩

theorem busy_minionWrite (h : Busy μ τ g () (.minionWrite i offset buf) (.ok ()) ()) :
    offset + buf.length ≤ g.stripeSize := by
  obtain ⟨s, s', hs, h⟩ := h
  cases h with
  | own h =>
    obtain ⟨a', ha, he⟩ := Option.map_eq_some_iff.mp h
    obtain ⟨rfl, rfl⟩ := Prod.mk.inj he
    rw [← hs i]
    exact hμ.write_ok _ _ _ (Outcome.answer?_eq_ok.mp ha)

variable {tr : List (Exchange (RAIDCall g) RAIDCall.Answer)} {c : Chunk}

/-- A pass of the loop of `Read` moves its chunk; it goes on only if the chunk fits. -/
theorem passes_readChunk {q : RAIDProg g (Except String Unit × List Byte)}
    (hs : Steps (Busy μ τ g) (readChunk g c) () tr q ()) :
    passes tr <+: [c.len] ∧ ∀ buf, q = .ret (.ok (), buf) → passes tr = [c.len] ∧ g.Fits c := by
  unfold readChunk minionRead at hs
  rw [Prog.perform_bind] at hs
  rcases hs.call_inv with ⟨rfl, rfl, -⟩ | ⟨⟨a, buf⟩, ⟨⟩, tr₁, rfl, ha, hs⟩
  · exact ⟨List.nil_prefix, nofun⟩
  obtain ⟨hlen, hok⟩ := busy_minionRead hμ ha
  rw [List.length_replicate] at hlen hok
  simp only at hlen hok
  rcases a with what | ⟨⟩
  · -- the mirror, with the buffer that the primary has left
    rcases hs.call_inv with ⟨rfl, rfl, -⟩ | ⟨⟨a, buf'⟩, ⟨⟩, tr₂, rfl, ha, hs⟩
    · exact ⟨by simp, nofun⟩
    obtain ⟨rfl, rfl, -⟩ := hs.ret_inv
    obtain ⟨-, hok⟩ := busy_minionRead hμ ha
    refine ⟨by simp, fun b hb => ⟨by simp, ?_⟩⟩
    rw [hlen] at hok
    exact hok (congrArg Prod.fst (Prog.ret.inj hb))
  · obtain ⟨rfl, rfl, -⟩ := hs.ret_inv
    exact ⟨by simp, fun b hb => ⟨by simp, hok rfl⟩⟩

/-- A pass of the loop of `Write` moves its chunk; it goes on only if the chunk fits. -/
theorem passes_writeChunk {buffer : List Byte} (hl : (slice buffer c.bufPos c.len).length = c.len)
    {q : RAIDProg g (Except String Unit)}
    (hs : Steps (Busy μ τ g) (writeChunk g buffer c) () tr q ()) :
    passes tr <+: [c.len] ∧ (q = .ret (.ok ()) → passes tr = [c.len] ∧ g.Fits c) := by
  unfold writeChunk minionWrite at hs
  rw [Prog.perform_bind] at hs
  rcases hs.call_inv with ⟨rfl, rfl, -⟩ | ⟨a, ⟨⟩, tr₁, rfl, ha, hs⟩
  · exact ⟨List.nil_prefix, nofun⟩
  rcases a with what | ⟨⟩
  · obtain ⟨rfl, rfl, -⟩ := hs.ret_inv
    exact ⟨by simp [hl], nofun⟩
  · have hok := busy_minionWrite hμ ha
    rw [hl] at hok
    rcases hs.call_inv with ⟨rfl, rfl, -⟩ | ⟨a, ⟨⟩, tr₂, rfl, -, hs⟩
    · -- the primary has returned, and the mirror is still to be called
      exact ⟨by simp [hl], nofun⟩
    · obtain ⟨rfl, rfl, -⟩ := hs.ret_inv
      exact ⟨by simp [hl], fun _ => ⟨by simp [hl], hok⟩⟩

/-- The loop of `Read` moves its chunks one after the other. -/
theorem moved_readChunks {buffer : List Byte} {cs : List Chunk}
    {q : RAIDProg g (Except String Unit × List Byte)}
    (hs : Steps (Busy μ τ g) (readChunks g buffer cs) () tr q ()) : Moved g cs tr := by
  induction cs generalizing buffer tr with
  | nil =>
    obtain ⟨rfl, -, -⟩ := hs.ret_inv
    exact .nil []
  | cons c cs ih =>
    unfold readChunks at hs
    rcases hs.bind_inv with ⟨p', hc, -⟩ | ⟨⟨a, buf⟩, ⟨⟩, tr₁, tr₂, rfl, hc, hs⟩
    · -- the loop is in the middle of a chunk
      exact .of_begun (passes_readChunk hμ hc).1
    · obtain ⟨hbegun, hnext⟩ := passes_readChunk hμ hc
      rcases a with what | ⟨⟩
      · obtain ⟨rfl, -, -⟩ := hs.ret_inv
        rw [List.append_nil]
        exact .of_begun hbegun
      · obtain ⟨hp, hfits⟩ := hnext buf rfl
        exact .cons hp hfits (ih hs)

/-- The loop of `Write` moves its chunks one after the other. -/
theorem moved_writeChunks {buffer : List Byte} {cs : List Chunk}
    (hl : ∀ c ∈ cs, c.bufPos + c.len ≤ buffer.length) {q : RAIDProg g (Except String Unit)}
    (hs : Steps (Busy μ τ g) (writeChunks g buffer cs) () tr q ()) : Moved g cs tr := by
  induction cs generalizing tr with
  | nil =>
    obtain ⟨rfl, -, -⟩ := hs.ret_inv
    exact .nil []
  | cons c cs ih =>
    obtain ⟨hc₀, hcs⟩ := List.forall_mem_cons.mp hl
    unfold writeChunks at hs
    rcases hs.bind_inv with ⟨p', hc, -⟩ | ⟨a, ⟨⟩, tr₁, tr₂, rfl, hc, hs⟩
    · -- the loop is in the middle of a chunk
      exact .of_begun (passes_writeChunk hμ (length_slice hc₀) hc).1
    · obtain ⟨hbegun, hnext⟩ := passes_writeChunk hμ (length_slice hc₀) hc
      rcases a with what | ⟨⟩
      · obtain ⟨rfl, -, -⟩ := hs.ret_inv
        rw [List.append_nil]
        exact .of_begun hbegun
      · obtain ⟨hp, hfits⟩ := hnext rfl
        exact .cons hp hfits (ih hcs hs)

/-- The passes of a `READ` or a `WRITE`. -/
theorem moved_request (hdata : data.len = 0 ∨ 0 < g.stripeSize)
    (hl : isWrite → data.buffer.length = data.len) {q : RAIDProg g DriverData}
    (hs : Steps (Busy μ τ g) (request g isWrite data) () tr q ()) :
    Moved g (g.chunks data.offset data.len 0) tr := by
  cases isWrite with
  | false =>
    change Steps _ (read g data) () tr q () at hs
    simp only [read, readLoop_eq_of_divisor hdata] at hs
    rcases hs.bind_inv with ⟨p', hp, -⟩ | ⟨⟨a, buf⟩, ⟨⟩, tr₁, tr₂, rfl, hp, hs⟩
    · exact moved_readChunks hμ hp
    · have htr : tr₂ = [] := by
        rcases a with what | ⟨⟩ <;> exact hs.ret_inv.1
      rw [htr, List.append_nil]
      exact moved_readChunks hμ hp
  | true =>
    change Steps _ (write g data) () tr q () at hs
    simp only [write, hl rfl, writeLoop_eq_of_divisor hdata] at hs
    have hb : ∀ c ∈ g.chunks data.offset data.len 0, c.bufPos + c.len ≤ data.buffer.length := by
      intro c hc
      have := (Geometry.mem_chunks hc).2
      rw [hl rfl]
      omega
    rcases hs.bind_inv with ⟨p', hp, -⟩ | ⟨a, ⟨⟩, tr₁, tr₂, rfl, hp, hs⟩
    · exact moved_writeChunks hμ hb hp
    · refine (moved_writeChunks hμ hb hp).append_right ?_
      -- after the loop there is at most the critical section
      rcases a with what | ⟨⟩
      · rw [hs.ret_inv.1]
        rfl
      · rcases hs.call_inv with ⟨rfl, -, -⟩ | ⟨a, ⟨⟩, tr₃, rfl, -, hs⟩
        · rfl
        · have htr : tr₃ = [] := by
            rcases a with what | ⟨⟩ <;> exact hs.ret_inv.1
          rw [htr]
          rfl

end Busy

/-! ## Zero divisors -/

/-- A contract that only forbids to stop dead. -/
abbrev NoAbort (g : Geometry) : Prog.Contract (RAIDCall g) RAIDCall.Answer Unit :=
  .plain (fun _ _ => True) (fun _ => True) False

theorem obeys_readChunks (buffer : List Byte) (cs : List Chunk) :
    Prog.Obeys (NoAbort g) (fun _ _ => True) () (readChunks g buffer cs) := by
  induction cs generalizing buffer with
  | nil => exact .ret trivial
  | cons c cs ih =>
    unfold readChunks
    refine Prog.Obeys.bind (Q := fun _ _ => True) ?_ ?_
    · refine .call trivial ?_
      rintro ⟨what | ⟨⟩, tempBuf⟩ -
      · exact .call trivial fun _ _ => .ret trivial
      · exact .ret trivial
    · rintro ⟨⟩ ⟨what | ⟨⟩, tempBuf⟩ -
      · exact .ret trivial
      · exact ih _

theorem obeys_writeChunks (buffer : List Byte) (cs : List Chunk) :
    Prog.Obeys (NoAbort g) (fun _ _ => True) () (writeChunks g buffer cs) := by
  induction cs with
  | nil => exact .ret trivial
  | cons c cs ih =>
    unfold writeChunks
    refine Prog.Obeys.bind (Q := fun _ _ => True) ?_ ?_
    · refine .call trivial ?_
      rintro (what | ⟨⟩) -
      · exact .ret trivial
      · exact .call trivial fun _ _ => .ret trivial
    · rintro ⟨⟩ (what | ⟨⟩) -
      · exact .ret trivial
      · exact ih

/-- Where there is nothing to divide, or stripes have some size, a request does not stop dead. -/
theorem obeys_request (hdata : data.len = 0 ∨ 0 < g.stripeSize)
    (hl : isWrite → data.buffer.length = data.len) :
    Prog.Obeys (NoAbort g) (fun _ _ => True) () (request g isWrite data) := by
  cases isWrite with
  | false =>
    -- a division by zero is the only way to stop dead
    change Prog.Obeys _ _ _ (read g data)
    simp only [read, readLoop_eq_of_divisor hdata]
    refine (obeys_readChunks _ _).bind ?_
    rintro ⟨⟩ ⟨what | ⟨⟩, buf⟩ - <;> exact .ret trivial
  | true =>
    change Prog.Obeys _ _ _ (write g data)
    simp only [write, hl rfl, writeLoop_eq_of_divisor hdata]
    refine (obeys_writeChunks _ _).bind ?_
    rintro ⟨⟩ (what | ⟨⟩) -
    · exact .ret trivial
    · refine .call trivial ?_
      rintro (what | ⟨⟩) - <;> exact .ret trivial

/-! ## Requests -/

section Processed

variable {μ τ : Type} [IStorageMinion μ] [IMetadataStore τ] {s : RAIDStorage μ τ g}

/-- A `READ` or a `WRITE` divides by no zero and ends. Whatever else runs and fails meanwhile, every pass
moves some of the bytes that are left, and there are few passes; when nothing else does, the request
comes back with a status, whichever it came with. -/
structure Processed (s : RAIDStorage μ τ g) (isWrite : Bool) (data : DriverData) : Prop where
  divides : ∀ tr q, Steps (Busy μ τ g) (request g isWrite data) () tr q () → q ≠ .abort
  decreases : ∀ tr q, Steps (Busy μ τ g) (request g isWrite data) () tr q () →
    (∀ n ∈ passes tr, 0 < n) ∧ (passes tr).sum ≤ data.len
  bounded : ∀ tr q, Steps (Busy μ τ g) (request g isWrite data) () tr q () →
    (passes tr).length ≤ data.len / g.stripeSize + 2
  ends : ∃ data' s', ∀ status,
    (request g isWrite { data with status := status }).run handler s = some (data', s')

/-- The status that a request comes with is not read. -/
theorem request_status (isWrite : Bool) (data : DriverData) (status : StatusType) :
    request g isWrite { data with status := status } = request g isWrite data := by
  cases isWrite <;> rfl

/-- A request that moves bytes of stripes without size divides by zero. -/
theorem request_eq_abort (hS : g.stripeSize = 0) (hr : 0 < data.len)
    (hl : isWrite → data.buffer.length = data.len) : request g isWrite data = .abort := by
  cases isWrite with
  | false =>
    change read g data = .abort
    rw [read, readLoop, if_pos hr, if_pos hS]
    rfl
  | true =>
    change write g data = .abort
    rw [write, hl rfl, writeLoop, if_pos hr, if_pos hS]
    rfl

theorem not_processed_of_zero (hS : g.stripeSize = 0) (hr : 0 < data.len)
    (hl : isWrite → data.buffer.length = data.len) : ¬ Processed s isWrite data := by
  intro h
  have hq := h.divides [] _ (.refl _ _)
  rw [request_eq_abort hS hr hl] at hq
  exact hq rfl

/-- A request that has nothing to divide, or stripes of some size, is processed if it comes to an end. -/
theorem processed_of_run (hμ : InBounds μ) (hg : g.capacity < 2 ^ 64 ∨ 2 ^ 33 ≤ g.stripeSize)
    (ho : data.offset < 2 ^ 64) (hr : data.len < 2 ^ 32) (hl : isWrite → data.buffer.length = data.len)
    (hdata : data.len = 0 ∨ 0 < g.stripeSize)
    (hrun : ∃ data' s', (request g isWrite data).run handler s = some (data', s')) :
    Processed s isWrite data where
  divides tr q hs := by
    rintro rfl
    obtain ⟨_, hq⟩ := hs.obeys (fun _ _ _ _ _ _ => trivial) (obeys_request hdata hl)
    exact hq.abort_inv
  decreases tr q hs := by
    obtain ⟨moved, ⟨rest, hm⟩, hp, -⟩ := moved_request hμ hdata hl hs
    rw [hp]
    constructor
    · intro n hn
      obtain ⟨c, hc, rfl⟩ := List.mem_map.mp hn
      -- a chunk that was moved is one of the division, and none of those is empty
      have hmem : c ∈ g.chunks data.offset data.len 0 := by
        rw [← hm]
        exact List.mem_append_left _ hc
      exact (Geometry.mem_chunks hmem).1
    · rcases hdata with h | hS
      · rw [h, Geometry.chunks_zero] at hm
        rw [(List.append_eq_nil_iff.mp hm).1]
        exact Nat.zero_le _
      · -- the chunks of the division add up to the length
        have hsum := Geometry.sum_len_chunks hS data.offset data.len 0
        rw [← hm, List.map_append, List.sum_append] at hsum
        omega
  bounded tr q hs := by
    obtain ⟨moved, hm, hp, hf⟩ := moved_request hμ hdata hl hs
    rw [hp, List.length_map]
    rcases hdata with h | hS
    · rw [h, Geometry.chunks_zero] at hm
      rw [List.prefix_nil.mp hm]
      exact Nat.zero_le _
    · exact Geometry.length_le_of_begun hS hg ho hr hm hf
  ends := by
    obtain ⟨data', s', h⟩ := hrun
    refine ⟨data', s', fun status => ?_⟩
    rwa [request_status]

end Processed

/-- In memory a request comes to an end unless its first chunk outside the device wraps. -/
theorem run_request_memory {s : RAIDStorage StorageMinionMemory MemoryMetadataStore g} (hz : s.Sized)
    (hdata : data.len = 0 ∨ 0 < g.stripeSize) (h64 : g.capacity < 2 ^ 64) (ho : data.offset < 2 ^ 64)
    (hl : isWrite → data.buffer.length = data.len) :
    (∃ data' s', (request g isWrite data).run handler s = some (data', s')) ↔
      ¬ g.Wraps data.offset data.len := by
  by_cases h : data.len = 0 ∨ data.offset + data.len ≤ g.capacity
  · -- the request stays on the device
    have hrange : g.InRange data.offset data.len := (Geometry.inRange_iff h64).mpr h
    refine iff_of_true ?_ fun ⟨_, hr, hout, _⟩ => by omega
    cases isWrite with
    | false => exact ⟨_, _, run_read_primary data hz (Geometry.stripeSize_lt h64) hrange⟩
    | true =>
      obtain ⟨s', hs', -⟩ := run_write data hz (Geometry.stripeSize_lt h64) (by rwa [hl rfl]) fun _ _ => rfl
      exact ⟨_, s', hs'⟩
  · -- its first chunk outside decides
    have hr : 0 < data.len := by omega
    have hS : 0 < g.stripeSize := hdata.resolve_left hr.ne'
    have hout : g.capacity < data.offset + data.len := by omega
    rw [← goesAstray_iff hS h64 ho hr hout]
    cases isWrite with
    | false =>
      obtain ⟨hastray, hfails⟩ := run_read_outside StorageMinionMemory.guardsBounds hz hS h64 ho hr hout
      constructor
      · rintro ⟨data', s', hrun⟩ hg
        cases (hastray hg).symm.trans hrun
      · intro hg
        obtain ⟨buffer, hrun⟩ := hfails hg
        exact ⟨_, s, hrun⟩
    | true =>
      have hb := hl rfl
      obtain ⟨hastray, hfails⟩ := run_write_outside StorageMinionMemory.guardsBounds hz hS h64 ho
        (hb ▸ hr) (hb ▸ hout)
      rw [hb] at hastray hfails
      constructor
      · rintro ⟨data', s', hrun⟩ hg
        cases (hastray hg).symm.trans hrun
      · intro hg
        obtain ⟨s', -, hrun⟩ := hfails hg
        exact ⟨_, s', hrun⟩

/-- A `Read` of a file returns or throws. -/
theorem read_ne_undefined (m : StorageMinionFile) (offset : Nat) (buf : List Byte) :
    (StorageMinionFile.read m offset buf).1 ≠ .undefined := by
  unfold StorageMinionFile.read StorageMinionFile.readBy
  split
  · nofun
  · split
    · nofun
    · simp only
      split <;> nofun

/-- A `Write` of a file returns or throws. -/
theorem write_ne_undefined (m : StorageMinionFile) (offset : Nat) (buf : List Byte) :
    (StorageMinionFile.write m offset buf).1 ≠ .undefined := by
  unfold StorageMinionFile.write StorageMinionFile.writeBy
  split
  · nofun
  · split
    · nofun
    · split <;> nofun

/-- The calls of file minions and of the metadata file always come back. -/
theorem handler_file (s : RAIDStorage StorageMinionFile FileMetadataStore g) (o : RAIDCall g) :
    handler o s ≠ none := by
  cases o with
  | minionRead i offset buf =>
    intro hnone
    exact read_ne_undefined _ _ _ (Outcome.answer?_eq_none.mp (Option.map_eq_none_iff.mp hnone))
  | minionWrite i offset buf =>
    intro hnone
    exact write_ne_undefined _ _ _ (Outcome.answer?_eq_none.mp (Option.map_eq_none_iff.mp hnone))
  | recordSize offset size => nofun
  | getDataSize offset => nofun
  | listOffsets => nofun

theorem run_request_file (s : RAIDStorage StorageMinionFile FileMetadataStore g)
    (hdata : data.len = 0 ∨ 0 < g.stripeSize) (hl : isWrite → data.buffer.length = data.len) :
    ∃ data' s', (request g isWrite data).run handler s = some (data', s') := by
  cases hrun : (request g isWrite data).run handler s with
  | some r => exact ⟨r.1, r.2, rfl⟩
  | none =>
    obtain ⟨tr, q, s', hs, hq⟩ := Steps.of_run_none (R := fun s o a s' => handler o s = some (a, s'))
      (fun _ _ _ _ h => h) hrun
    obtain ⟨_, hobeys⟩ := hs.obeys (fun _ _ _ _ _ _ => trivial) (obeys_request hdata hl)
    rcases hq with rfl | ⟨o, k, -, hnone⟩
    · exact hobeys.abort_inv.elim
    · exact absurd hnone (handler_file s' o)

/-- **Requests are processed** if and only if they move no bytes or stripes have some size, and, in
memory, no chunk wraps. -/
theorem processed_iff (ho : data.offset < 2 ^ 64) (hr : data.len < 2 ^ 32)
    (hl : isWrite → data.buffer.length = data.len) :
    (∀ s : RAIDStorage StorageMinionMemory MemoryMetadataStore g, s.Sized → g.Addressable →
      (Processed s isWrite data ↔
        data.len = 0 ∨ 0 < g.stripeSize ∧ ¬ g.Wraps data.offset data.len)) ∧
    ∀ s : RAIDStorage StorageMinionFile FileMetadataStore g, g.HasDescriptors →
      (Processed s isWrite data ↔ data.len = 0 ∨ 0 < g.stripeSize) := by
  constructor
  · intro s hz haddr
    have h64 := haddr.capacity_lt
    constructor
    · intro h
      by_contra hn
      obtain ⟨hr₀, hcond⟩ := not_or.mp hn
      rcases Nat.eq_zero_or_pos g.stripeSize with hS | hS
      · exact not_processed_of_zero hS (Nat.pos_of_ne_zero hr₀) hl h
      · -- past the bounds guard the request has no result
        refine hcond ⟨hS, (run_request_memory hz (.inr hS) h64 ho hl).mp ?_⟩
        obtain ⟨data', s', hrun⟩ := h.ends
        exact ⟨data', s', hrun data.status⟩
    · intro hcond
      have hdata : data.len = 0 ∨ 0 < g.stripeSize := hcond.imp_right And.left
      have hwraps : ¬ g.Wraps data.offset data.len := by
        rcases hcond with h | h
        · rintro ⟨-, hpos, -⟩
          omega
        · exact h.2
      exact processed_of_run (LawfulMinion.inBounds _) (.inl h64) ho hr hl hdata
        ((run_request_memory hz hdata h64 ho hl).mpr hwraps)
  · intro s hdesc
    constructor
    · intro h
      by_contra hn
      exact not_processed_of_zero (by omega) (by omega) hl h
    · intro hdata
      exact processed_of_run StorageMinionFile.inBounds hdesc.lt_or_le ho hr hl hdata
        (run_request_file s hdata hl)

/-- A byte read over a pair of minions without a byte: the constructor builds the storage, and the first
pass divides by zero. -/
theorem zero_divides :
    new (List.replicate 2 (StorageMinionMemory.new 0)) (⟨∅⟩ : MemoryMetadataStore) =
        .ok ⟨⟨1, 0, by decide⟩, inMemory _⟩ ∧
      ¬ Processed (inMemory ⟨1, 0, by decide⟩) false (.new .read 0 0 1) :=
  ⟨new_inMemory ⟨1, 0, by decide⟩, not_processed_of_zero rfl (by decide) (fun h => by cases h)⟩

/-- The same request over a pair of minions of one byte, in memory and in files. -/
theorem processed_one_byte :
    Processed (inMemory ⟨1, 1, by decide⟩) false (.new .read 0 0 1) ∧
      Processed ((BackendDirectory.empty "data").opened ⟨1, 1, by decide⟩) false (.new .read 0 0 1) :=
  ⟨((processed_iff (by decide) (by decide) (fun h => by cases h)).1 _ (blank_inMemory _).sized
      (by decide)).mpr (by decide),
    ((processed_iff (by decide) (by decide) (fun h => by cases h)).2 _ (by decide)).mpr (by decide)⟩

end RAIDStorage

end LDS
