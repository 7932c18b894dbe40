import LDS.Storage.RAIDStorage

/-!
# A `RAIDStorage` as a flat device

While every minion call on its way returns, a `Write` inside the device stores its buffer on the
flat device and keeps each mirror equal to its primary; a `Read` gives the range back as long as
one copy of every chunk answers.

## Main definitions

* `RAIDStorage.device s`, `RAIDStorage.mirrorDevice s`: the flat devices of the two copies
* `RAIDStorage.Mirrored s`: every mirror equals its primary
* `RAIDStorage.faultyReads faults`: the answers when the `Read` calls chosen by `faults` throw

## Main results

* `RAIDStorage.device_writeChunks`, `RAIDStorage.mirrored_writeChunks`: the loop of `Write`
* `RAIDStorage.run_writeChunks`: it succeeds when nothing fails
* `RAIDStorage.run_readChunks`: the loop of `Read` under any faults
-/

namespace LDS

open Memory

namespace RAIDStorage

variable {μ τ : Type} [LawfulMinion μ] {g : Geometry}

/-- The flat device of the primaries. -/
def device (s : RAIDStorage μ τ g) : Nat → Byte := g.device (s.cells ∘ g.primary)

/-- The flat device of the mirrors. -/
def mirrorDevice (s : RAIDStorage μ τ g) : Nat → Byte := g.device (s.cells ∘ g.mirrorIndex)

/-- Every mirror holds what its primary holds. -/
def Mirrored (s : RAIDStorage μ τ g) : Prop := s.cells ∘ g.primary = s.cells ∘ g.mirrorIndex

/-- The minions are of one size and all zero. -/
structure Blank (s : RAIDStorage μ τ g) : Prop where
  sized : s.Sized
  cells_eq : ∀ i, s.cells i = fun _ => 0

theorem blank_fresh [IMetadataStore τ] {m : μ} {st : τ} (hs : IStorageMinion.size m = g.stripeSize)
    (hc : LawfulMinion.cells m = fun _ => 0) : (fresh m st : RAIDStorage μ τ g).Blank :=
  ⟨fun _ => hs, fun _ => hc⟩

/-- Built over new minions in memory and an empty metadata store. -/
def inMemory (g : Geometry) : RAIDStorage StorageMinionMemory MemoryMetadataStore g :=
  fresh (StorageMinionMemory.new g.stripeSize) ⟨∅⟩

theorem new_inMemory (g : Geometry) :
    new (List.replicate g.numMinions (StorageMinionMemory.new g.stripeSize))
      (⟨∅⟩ : MemoryMetadataStore) = .ok ⟨g, inMemory g⟩ := new_replicate g _ _ rfl

theorem blank_inMemory (g : Geometry) : (inMemory g).Blank := blank_fresh rfl view_replicate

theorem Blank.mirrored {s : RAIDStorage μ τ g} (h : s.Blank) : s.Mirrored :=
  funext fun _ => (h.cells_eq _).trans (h.cells_eq _).symm

theorem Blank.device_eq {s : RAIDStorage μ τ g} (h : s.Blank) : s.device = fun _ => 0 := by
  funext x
  rw [device, Geometry.device, Function.comp_apply, h.cells_eq]

theorem device_congr {s s' : RAIDStorage μ τ g} (h : s'.cells = s.cells) : s'.device = s.device := by
  rw [device, h, device]

theorem Mirrored.device_eq {s : RAIDStorage μ τ g} (h : s.Mirrored) : s.mirrorDevice = s.device := by
  rw [mirrorDevice, ← h, device]

/-- A range of one stripe on its primary is a range of the flat device. -/
theorem load_primary {s : RAIDStorage μ τ g} {offset n : Nat} (hc : g.InRange offset n)
    (hs : offset % g.stripeSize + n ≤ g.stripeSize) :
    load (s.cells (g.primary (g.primaryIndex offset))) (g.localOffset offset) n =
      load s.device offset n :=
  Geometry.device_load (s.cells ∘ g.primary) hc hs

/-- A range of one stripe on its mirror is a range of the flat device of the mirrors. -/
theorem load_mirror {s : RAIDStorage μ τ g} {offset n : Nat} (hc : g.InRange offset n)
    (hs : offset % g.stripeSize + n ≤ g.stripeSize) :
    load (s.cells (g.mirrorIndex (g.primaryIndex offset))) (g.localOffset offset) n =
      load s.mirrorDevice offset n :=
  Geometry.device_load (s.cells ∘ g.mirrorIndex) hc hs

/-- A range of one stripe fits every minion. -/
theorem Sized.fits {s : RAIDStorage μ τ g} (hz : s.Sized) {offset n : Nat} (hn : 0 < n)
    (hs : offset % g.stripeSize + n ≤ g.stripeSize) (hc : g.InRange offset n)
    (i : Fin g.numMinions) : g.localOffset offset + n ≤ IStorageMinion.size (s.minions i) := by
  rw [hz i]
  exact Geometry.localOffset_add_le hn hs hc

theorem Sized.size_lt {s : RAIDStorage μ τ g} (hz : s.Sized) (h64 : g.stripeSize < 2 ^ 64)
    (i : Fin g.numMinions) : IStorageMinion.size (s.minions i) < 2 ^ 64 := by
  rwa [hz i]

variable [IMetadataStore τ] {s s' : RAIDStorage μ τ g} {buffer : List Byte} {c : Chunk}
  {tr : List (Exchange (RAIDCall g) RAIDCall.Answer)}

/-! ## Writes -/

/-- The cells after a chunk of `buffer` was written to the minion `i`. -/
def storeCopy (g : Geometry) (buffer : List Byte) (c : Chunk) (i : Fin g.numMinions)
    (cells : Fin g.numMinions → Nat → Byte) : Fin g.numMinions → Nat → Byte :=
  Function.update cells i (store (cells i) (g.localOffset c.offset) (slice buffer c.bufPos c.len))

/-- The cells after a chunk of `buffer` was written to both its copies. -/
def storeChunk (g : Geometry) (buffer : List Byte) (c : Chunk)
    (cells : Fin g.numMinions → Nat → Byte) : Fin g.numMinions → Nat → Byte :=
  storeCopy g buffer c (g.mirrorIndex (g.primaryIndex c.offset))
    (storeCopy g buffer c (g.primary (g.primaryIndex c.offset)) cells)

/-- The call that writes a chunk of `buffer` to the minion `i`. -/
abbrev chunkWrite (g : Geometry) (buffer : List Byte) (c : Chunk) (i : Fin g.numMinions) :
    RAIDCall g :=
  .minionWrite i (g.localOffset c.offset) (slice buffer c.bufPos c.len)

/-- The ways one pass of the loop of `Write` ends: the primary throws, the mirror throws, or both
copies hold the chunk. -/
theorem writeChunk_steps {v : Except String Unit}
    (hs : Steps Answers (writeChunk g buffer c) s tr (.ret v) s') :
    SameIndex s s' ∧
      let primary := g.primary (g.primaryIndex c.offset)
      let mirror := g.mirrorIndex (g.primaryIndex c.offset)
      ((∃ what, v = .error what ∧ s'.cells = s.cells ∧
          tr = [⟨chunkWrite g buffer c primary, .error what⟩]) ∨
        (∃ what, v = .error what ∧ s'.cells = storeCopy g buffer c primary s.cells ∧
          tr = [⟨chunkWrite g buffer c primary, .ok ()⟩,
            ⟨chunkWrite g buffer c mirror, .error what⟩]) ∨
        (v = .ok () ∧ s'.cells = storeChunk g buffer c s.cells ∧
          tr = [⟨chunkWrite g buffer c primary, .ok ()⟩, ⟨chunkWrite g buffer c mirror, .ok ()⟩])) := by
  obtain ⟨r, s₁, tr₁, rfl, hp, hs⟩ := hs.call_ret_inv
  obtain ⟨hi₁, ⟨rfl, -, hc₁⟩ | ⟨what, rfl, hc₁⟩⟩ := answers_minionWrite hp
  · -- the primary holds the chunk; the mirror is next
    obtain ⟨r, s₂, tr₂, rfl, hm, hs⟩ := hs.call_ret_inv
    obtain ⟨rfl, hv, rfl⟩ := hs.ret_inv
    obtain rfl := Prog.ret.inj hv
    obtain ⟨hi₂, ⟨rfl, -, hc₂⟩ | ⟨what, rfl, hc₂⟩⟩ := answers_minionWrite hm
    · refine ⟨hi₁.trans hi₂, .inr (.inr ⟨rfl, ?_, rfl⟩)⟩
      rw [hc₂, hc₁, storeChunk, storeCopy, storeCopy]
    · exact ⟨hi₁.trans hi₂, .inr (.inl ⟨what, rfl, hc₂.trans hc₁, rfl⟩)⟩
  · obtain ⟨rfl, hv, rfl⟩ := hs.ret_inv
    obtain rfl := Prog.ret.inj hv
    exact ⟨hi₁, .inl ⟨what, rfl, hc₁, rfl⟩⟩

/-- A pass that returns has written both copies. -/
theorem writeChunk_ok (hs : Steps Answers (writeChunk g buffer c) s tr (.ret (.ok ())) s') :
    SameIndex s s' ∧ s'.cells = storeChunk g buffer c s.cells := by
  obtain ⟨hi, ⟨_, h, -⟩ | ⟨_, h, -⟩ | ⟨-, hc, -⟩⟩ := writeChunk_steps hs
  · cases h
  · cases h
  · exact ⟨hi, hc⟩

/-- The loop that returns has returned from its first pass, and goes on. -/
theorem writeChunks_cons_ok {cs : List Chunk}
    (hs : Steps Answers (writeChunks g buffer (c :: cs)) s tr (.ret (.ok ())) s') :
    ∃ s₁ tr₁ tr₂, tr = tr₁ ++ tr₂ ∧
      Steps Answers (writeChunk g buffer c) s tr₁ (.ret (.ok ())) s₁ ∧
      Steps Answers (writeChunks g buffer cs) s₁ tr₂ (.ret (.ok ())) s' := by
  obtain ⟨v, s₁, tr₁, tr₂, rfl, hc, hs⟩ := Steps.bind_ret_inv hs
  rcases v with what | ⟨⟩
  · obtain ⟨-, hv, -⟩ := hs.ret_inv
    cases Prog.ret.inj hv
  · exact ⟨s₁, tr₁, tr₂, rfl, hc, hs⟩

/-- What storing a chunk does to the primaries. -/
theorem storeChunk_primary (cells : Fin g.numMinions → Nat → Byte) :
    storeChunk g buffer c cells ∘ g.primary =
      Function.update (cells ∘ g.primary) (g.primaryIndex c.offset)
        (store (cells (g.primary (g.primaryIndex c.offset))) (g.localOffset c.offset)
          (slice buffer c.bufPos c.len)) := by
  rw [storeChunk, storeCopy, Function.update_comp_eq_of_forall_ne _ _
      fun i => Geometry.primary_ne_mirrorIndex i _,
    storeCopy, Function.update_comp_eq_of_injective _ Geometry.primary_injective]

/-- What storing a chunk does to the mirrors. -/
theorem storeChunk_mirror (cells : Fin g.numMinions → Nat → Byte) :
    storeChunk g buffer c cells ∘ g.mirrorIndex =
      Function.update (cells ∘ g.mirrorIndex) (g.primaryIndex c.offset)
        (store (cells (g.mirrorIndex (g.primaryIndex c.offset))) (g.localOffset c.offset)
          (slice buffer c.bufPos c.len)) := by
  rw [storeChunk, storeCopy, Function.update_comp_eq_of_injective _ Geometry.mirrorIndex_injective,
    storeCopy, Function.update_comp_eq_of_forall_ne _ _
      fun i => (Geometry.primary_ne_mirrorIndex _ i).symm,
    Function.update_of_ne (Geometry.primary_ne_mirrorIndex _ _).symm]

/-- Writing both copies keeps the mirrors equal. -/
theorem mirrored_storeChunk {cells : Fin g.numMinions → Nat → Byte}
    (h : cells ∘ g.primary = cells ∘ g.mirrorIndex) :
    storeChunk g buffer c cells ∘ g.primary = storeChunk g buffer c cells ∘ g.mirrorIndex := by
  have hc : cells (g.primary (g.primaryIndex c.offset)) =
      cells (g.mirrorIndex (g.primaryIndex c.offset)) := congrFun h _
  rw [storeChunk_primary, storeChunk_mirror, h, hc]

theorem mirrored_writeChunks {cs : List Chunk}
    (hs : Steps Answers (writeChunks g buffer cs) s tr (.ret (.ok ())) s') (h : s.Mirrored) :
    s'.Mirrored := by
  induction cs generalizing s tr with
  | nil =>
    obtain ⟨-, -, rfl⟩ := hs.ret_inv
    exact h
  | cons c cs ih =>
    obtain ⟨s₁, tr₁, tr₂, -, hc, hs⟩ := writeChunks_cons_ok hs
    refine ih hs ?_
    rw [Mirrored, (writeChunk_ok hc).2]
    exact mirrored_storeChunk h

theorem sameIndex_writeChunks {cs : List Chunk} {v : Except String Unit}
    (hs : Steps Answers (writeChunks g buffer cs) s tr (.ret v) s') : SameIndex s s' := by
  induction cs generalizing s tr with
  | nil =>
    obtain ⟨-, -, rfl⟩ := hs.ret_inv
    exact .refl _
  | cons c cs ih =>
    obtain ⟨w, s₁, tr₁, tr₂, -, hc, hs⟩ := Steps.bind_ret_inv hs
    have hi := (writeChunk_steps hc).1
    rcases w with what | ⟨⟩
    · obtain ⟨-, -, rfl⟩ := hs.ret_inv
      exact hi
    · exact hi.trans (ih hs)

/-- **The loop of `Write`**, when it returns, has stored its range of the buffer on the device. -/
theorem device_writeChunks {offset remaining bufPos : Nat} {cs : List Chunk}
    (hp : g.Partition offset remaining bufPos cs)
    (hb : bufPos + remaining ≤ buffer.length)
    (hs : Steps Answers (writeChunks g buffer cs) s tr (.ret (.ok ())) s') {x : Nat}
    (hx : g.InRange x 1) :
    s'.device x = store s.device offset (slice buffer bufPos remaining) x := by
  induction hp generalizing s tr with
  | nil offset bufPos =>
    obtain ⟨-, -, rfl⟩ := hs.ret_inv
    simp [slice]
  | @cons offset n remaining bufPos cs hn hstripe hc hp ih =>
    obtain ⟨s₁, tr₁, tr₂, -, hs₁, hs⟩ := writeChunks_cons_ok hs
    have hl : (slice buffer bufPos n).length = n := length_slice (by omega)
    -- the first chunk is stored on the device by its primary copy
    have h₁ : ∀ {x}, g.InRange x 1 →
        s₁.device x = store s.device offset (slice buffer bufPos n) x := fun {x} hx => by
      rw [device, (writeChunk_ok hs₁).2, storeChunk_primary]
      have hfit : g.InRange offset (slice buffer bufPos n).length := by rwa [hl]
      exact Geometry.device_store hfit (by rwa [hl]) hx
    rw [ih (by omega) hs, slice_add, ← store_append, hl]
    -- a byte of a later chunk does not depend on the first one
    by_cases hm : offset + n ≤ x ∧ x < offset + n + (slice buffer (bufPos + n) remaining).length
    · exact store_congr_of_mem hm.1 hm.2
    · rw [store_of_not_mem hm, store_of_not_mem hm, h₁ hx]

/-! ## Calls that fit -/

/-- A `Write` that fits its minion returns. -/
theorem handler_minionWrite {i : Fin g.numMinions} {a : Nat} {buf : List Byte}
    (hl : a + buf.length ≤ IStorageMinion.size (s.minions i))
    (h64 : IStorageMinion.size (s.minions i) < 2 ^ 64) :
    handler (.minionWrite i a buf) s =
      some (.ok (), s.setMinion i (IStorageMinion.write (s.minions i) a buf).2) := by
  rw [handler, LawfulMinion.write_fits _ _ _ hl h64]
  rfl

/-- A `Read` that fits its minion returns the range. -/
theorem handler_minionRead {i : Fin g.numMinions} {a : Nat} {buf : List Byte}
    (hl : a + buf.length ≤ IStorageMinion.size (s.minions i))
    (h64 : IStorageMinion.size (s.minions i) < 2 ^ 64) :
    handler (.minionRead i a buf) s = some ((.ok (), load (s.cells i) a buf.length), s) := by
  have hok := LawfulMinion.read_fits _ _ _ hl h64
  simp only [handler, hok, LawfulMinion.read_eq_load hok]
  rfl

/-- Inside the device, and while nothing fails, a pass of the loop of `Write` returns. -/
theorem run_writeChunk (hz : s.Sized) (h64 : g.stripeSize < 2 ^ 64) (hn : 0 < c.len)
    (hs : c.offset % g.stripeSize + c.len ≤ g.stripeSize) (hc : g.InRange c.offset c.len)
    (hb : c.bufPos + c.len ≤ buffer.length) :
    ∃ s', (writeChunk g buffer c).run handler s = some (.ok (), s') := by
  have hl : (slice buffer c.bufPos c.len).length = c.len := length_slice hb
  have h₁ := handler_minionWrite
    (by rw [hl]; exact hz.fits hn hs hc (g.primary (g.primaryIndex c.offset)))
    (hz.size_lt h64 _)
  have hz₁ := (answers_minionWrite (.own h₁)).1.sized hz
  have h₂ := handler_minionWrite
    (by rw [hl]; exact hz₁.fits hn hs hc (g.mirrorIndex (g.primaryIndex c.offset)))
    (hz₁.size_lt h64 _)
  exact ⟨_, (Prog.run_call_of_eq h₁).trans ((Prog.run_call_of_eq h₂).trans rfl)⟩

/-- **The loop of `Write`**, inside the device and while nothing fails, returns. -/
theorem run_writeChunks {offset remaining bufPos : Nat} {cs : List Chunk}
    (hp : g.Partition offset remaining bufPos cs) (hz : s.Sized) (h64 : g.stripeSize < 2 ^ 64)
    (hb : bufPos + remaining ≤ buffer.length) :
    ∃ s', (writeChunks g buffer cs).run handler s = some (.ok (), s') := by
  induction hp generalizing s with
  | nil => exact ⟨s, rfl⟩
  | @cons offset n remaining bufPos cs hn hs hc hp ih =>
    obtain ⟨s₁, h₁⟩ := run_writeChunk (c := ⟨offset, n, bufPos⟩) hz h64 hn hs hc
      (show bufPos + n ≤ buffer.length by omega)
    obtain ⟨tr, hst⟩ := steps_of_run h₁
    obtain ⟨s', h'⟩ := ih ((writeChunk_steps hst).1.sized hz) (by omega)
    refine ⟨s', ?_⟩
    rw [writeChunks, Prog.run_bind, h₁]
    exact h'

/-! ## Reads under faults -/

/-- Which `Read` calls throw: by minion and offset, the exception and the part of the buffer that
the call has filled by then. -/
abbrev Faults (g : Geometry) := Fin g.numMinions → Nat → Option (String × List Byte)

/-- The answers when the `Read` calls chosen by `faults` throw. -/
def faultyReads (faults : Faults g) :
    Prog.Handler (RAIDCall g) RAIDCall.Answer (RAIDStorage μ τ g)
  | .minionRead i offset buf, s =>
    match faults i offset with
    | some (what, filled) =>
      some ((.error what, filled.take buf.length ++ buf.drop filled.length), s)
    | none => handler (.minionRead i offset buf) s
  | c, s => handler c s

/-- One copy of the chunk answers. -/
def Readable (faults : Faults g) (c : Chunk) : Prop :=
  faults (g.primary (g.primaryIndex c.offset)) (g.localOffset c.offset) = none ∨
    faults (g.mirrorIndex (g.primaryIndex c.offset)) (g.localOffset c.offset) = none

variable {faults : Faults g}

/-- Without faults the objects answer by themselves. -/
theorem faultyReads_none :
    (faultyReads fun _ _ => none : Prog.Handler (RAIDCall g) _ (RAIDStorage μ τ g)) = handler := by
  funext o s
  cases o <;> rfl

theorem answers_faultyReads {o : RAIDCall g} {a : o.Answer}
    (h : faultyReads faults o s = some (a, s')) : Answers s o a s' := by
  cases o with
  | minionRead i offset buf =>
    rw [faultyReads] at h
    split at h
    · obtain ⟨rfl, rfl⟩ := Prod.mk.inj (Option.some.inj h)
      exact .readFault (by simp; omega)
    · exact .own h
  | _ => exact .own h

/-- A call that is not to fail, on a range of one stripe. -/
theorem faultyReads_of_none (hz : s.Sized) (h64 : g.stripeSize < 2 ^ 64) (hn : 0 < c.len)
    (hs : c.offset % g.stripeSize + c.len ≤ g.stripeSize) (hc : g.InRange c.offset c.len)
    {i : Fin g.numMinions} (hf : faults i (g.localOffset c.offset) = none) {buf : List Byte}
    (hl : buf.length = c.len) :
    faultyReads faults (.minionRead i (g.localOffset c.offset) buf) s =
      some ((.ok (), load (s.cells i) (g.localOffset c.offset) c.len), s) := by
  simp only [faultyReads, hf]
  rw [handler_minionRead (by rw [hl]; exact hz.fits hn hs hc i) (hz.size_lt h64 i), hl]

/-- A pass of the loop of `Read` gets the range from a copy that answers, and throws if there is
none; either way it changes nothing. -/
theorem run_readChunk (hz : s.Sized) (h64 : g.stripeSize < 2 ^ 64)
    (hn : 0 < c.len) (hs : c.offset % g.stripeSize + c.len ≤ g.stripeSize)
    (hc : g.InRange c.offset c.len) (faults : Faults g) :
    (Readable faults c → ∃ buf, (readChunk g c).run (faultyReads faults) s =
        some ((.ok (), buf), s) ∧
      (buf = load s.device c.offset c.len ∨ buf = load s.mirrorDevice c.offset c.len)) ∧
    (¬ Readable faults c → ∃ what buf, (readChunk g c).run (faultyReads faults) s =
      some ((.error what, buf), s)) := by
  rcases hp : faults (g.primary (g.primaryIndex c.offset)) (g.localOffset c.offset)
    with _ | ⟨what, filled⟩
  · refine ⟨fun _ => ⟨_, ?_, .inl (load_primary hc hs)⟩, fun h => absurd (.inl hp) h⟩
    rw [readChunk, minionRead, Prog.perform_bind, Prog.run_call_of_eq
      (faultyReads_of_none hz h64 hn hs hc hp List.length_replicate)]
    rfl
  · have hp' : faultyReads faults (.minionRead (g.primary (g.primaryIndex c.offset))
        (g.localOffset c.offset) (List.replicate c.len 0)) s =
        some ((.error what, filled.take c.len ++ (List.replicate c.len 0).drop filled.length),
          s) := by
      simp [faultyReads, hp]
    rw [readChunk, minionRead, Prog.perform_bind, Prog.run_call_of_eq hp']
    -- the mirror gets the buffer that the primary has partly filled
    set tempBuf := filled.take c.len ++ (List.replicate c.len (0 : Byte)).drop filled.length
      with ht
    have hl : tempBuf.length = c.len := by
      simp [ht]
      omega
    rcases hq : faults (g.mirrorIndex (g.primaryIndex c.offset)) (g.localOffset c.offset)
      with _ | ⟨what', filled'⟩
    · exact ⟨fun _ => ⟨_, Prog.run_call_of_eq (faultyReads_of_none hz h64 hn hs hc hq hl),
        .inr (load_mirror hc hs)⟩, fun h => absurd (.inr hq) h⟩
    · refine ⟨fun h => ?_, fun _ => ⟨what', filled'.take tempBuf.length ++
        tempBuf.drop filled'.length, Prog.run_call_of_eq (by simp only [faultyReads, hq])⟩⟩
      rcases h with h | h
      · rw [hp] at h
        cases h
      · rw [hq] at h
        cases h

/-- Every byte of `buf` is that of one of the two copies, from `offset` on. -/
def ReadsCopies (s : RAIDStorage μ τ g) (offset : Nat) (buf : List Byte) : Prop :=
  ∀ k (h : k < buf.length), buf[k] = s.device (offset + k) ∨ buf[k] = s.mirrorDevice (offset + k)

omit [IMetadataStore τ] in
/-- Where the two copies agree it does not matter which one was read. -/
theorem ReadsCopies.eq_load {offset : Nat} {buf : List Byte} (h : ReadsCopies s offset buf)
    (hm : ∀ k < buf.length, s.mirrorDevice (offset + k) = s.device (offset + k)) :
    buf = load s.device offset buf.length := by
  apply List.ext_getElem (by simp)
  intro k h₁ h₂
  rw [getElem_load]
  rcases h k h₁ with hk | hk
  · exact hk
  · rw [hk, hm k h₁]

omit [IMetadataStore τ] in
theorem ReadsCopies.append {offset : Nat} {buf buf' : List Byte} (h : ReadsCopies s offset buf)
    (h' : ReadsCopies s (offset + buf.length) buf') : ReadsCopies s offset (buf ++ buf') := by
  intro k hk
  rw [List.getElem_append]
  split
  · exact h k _
  · rename_i hn
    have := h' (k - buf.length) (by rw [List.length_append] at hk; omega)
    rwa [show offset + buf.length + (k - buf.length) = offset + k by omega] at this

omit [IMetadataStore τ] in
theorem readsCopies_load {offset n : Nat} {buf : List Byte}
    (h : buf = load s.device offset n ∨ buf = load s.mirrorDevice offset n) :
    ReadsCopies s offset buf := by
  rcases h with rfl | rfl
  · exact fun k hk => .inl (getElem_load hk)
  · exact fun k hk => .inr (getElem_load hk)

/-- **The loop of `Read`** under any faults: it returns exactly when every chunk has a copy that
answers, with the bytes of the copies in the buffer; and it changes nothing. -/
theorem run_readChunks {offset remaining bufPos : Nat} {cs : List Chunk}
    (hp : g.Partition offset remaining bufPos cs) (hz : s.Sized)
    (h64 : g.stripeSize < 2 ^ 64) (hb : bufPos + remaining ≤ buffer.length) (faults : Faults g) :
    ((∀ c ∈ cs, Readable faults c) → ∃ buf, buf.length = remaining ∧ ReadsCopies s offset buf ∧
      (readChunks g buffer cs).run (faultyReads faults) s =
        some ((.ok (), overwrite buffer bufPos buf), s)) ∧
    (¬ (∀ c ∈ cs, Readable faults c) → ∃ what buffer',
      (readChunks g buffer cs).run (faultyReads faults) s = some ((.error what, buffer'), s)) := by
  induction hp generalizing buffer with
  | nil offset bufPos =>
    refine ⟨fun _ => ⟨[], rfl, fun k hk => absurd hk (Nat.not_lt_zero k), ?_⟩,
      fun h => absurd (fun c hc => by cases hc) h⟩
    rw [overwrite_nil]
    rfl
  | @cons offset n remaining bufPos cs hn hs hc hp ih =>
    obtain ⟨hok, herr⟩ := run_readChunk (c := ⟨offset, n, bufPos⟩) hz h64 hn hs hc faults
    by_cases hr : Readable faults ⟨offset, n, bufPos⟩
    · obtain ⟨buf, he, hcopy⟩ := hok hr
      -- either copy fills the chunk
      have hl : buf.length = n := by rcases hcopy with rfl | rfl <;> exact length_load
      have hb' : bufPos + n + remaining ≤ (overwrite buffer bufPos buf).length := by
        rw [length_overwrite (by omega)]
        omega
      obtain ⟨ihok, iherr⟩ := ih hb'
      simp only [readChunks, Prog.run_bind, he, List.forall_mem_cons, hr, true_and]
      refine ⟨fun h => ?_, fun h => iherr h⟩
      obtain ⟨buf', hl', hcopies, he'⟩ := ihok h
      refine ⟨buf ++ buf', by simp [hl, hl'],
        (readsCopies_load hcopy).append (by rwa [hl]), he'.trans ?_⟩
      rw [← overwrite_append (by omega), hl]
    · -- no copy answers, and the loop ends
      simp only [readChunks, Prog.run_bind, List.forall_mem_cons, hr, false_and]
      obtain ⟨what, tempBuf, he⟩ := herr hr
      exact ⟨False.elim, fun _ => ⟨what, buffer, by rw [he]; rfl⟩⟩

end RAIDStorage

end LDS
