import LDS.Storage.Requests

/-!
# Bounds

A request that leaves the device runs until its first chunk outside. There the guard of the minion
adds the local offset and the length of the chunk in `size_t`: it refuses the chunk, unless the sum
wraps. With two pairs or more the local offset is too small for that; with one pair it is the offset
itself, and a chunk that ends at `2 ^ 64` or beyond is let through to an array it does not fit.

## Main definitions

* `Geometry.Wraps g offset len`: the first chunk outside the device wraps
* `RAIDStorage.ExactBounds s data`: a `Read` and a `Write` of the request stay inside the minions, and
  succeed exactly inside the device

## Main results

* `Geometry.chunks_of_outside`: the chunks of a range that leaves the device
* `Geometry.guard_passes_iff`: which chunks outside the device pass the guard
* `RAIDStorage.exactBounds_iff`: bounds are exact if and only if no chunk wraps
-/

namespace LDS

open Memory

namespace Geometry

variable {g : Geometry} {offset len : Nat}

/-- The offset of the first byte of a range that is not on the device. -/
def firstOutside (g : Geometry) (offset : Nat) : Nat := max offset g.capacity

theorem firstOutside_lt {g : Geometry} (h64 : g.capacity < 2 ^ 64) {offset : Nat} (ho : offset < 2 ^ 64) :
    g.firstOutside offset < 2 ^ 64 := max_lt ho h64

/-- A range that leaves the device does so before its end. -/
theorem firstOutside_lt_end {g : Geometry} {offset len : Nat} (hr : 0 < len) (h : g.capacity < offset + len) :
    g.firstOutside offset < offset + len := max_lt (Nat.lt_add_of_pos_right hr) h

/-- The first chunk of a range that is not on the device. -/
def chunkOutside (g : Geometry) (offset remaining bufPos : Nat) : Chunk where
  offset := g.firstOutside offset
  len := g.chunkLen (g.firstOutside offset) (offset + remaining - g.firstOutside offset)
  bufPos := bufPos + (g.firstOutside offset - offset)

/-- With one pair, the first chunk of the range outside the device ends at `2 ^ 64` or beyond. -/
def Wraps (g : Geometry) (offset len : Nat) : Prop :=
  g.numPrimary = 1 ∧ 0 < len ∧ g.capacity < offset + len ∧
    2 ^ 64 ≤ g.firstOutside offset +
      g.chunkLen (g.firstOutside offset) (offset + len - g.firstOutside offset)

instance : Decidable (g.Wraps offset len) := by
  unfold Wraps
  infer_instance

/-- The chunks of a range that leaves the device: those inside, then the first one outside. -/
theorem chunks_of_outside (hS : 0 < g.stripeSize) (h64 : g.capacity < 2 ^ 64) {remaining : Nat}
    (hr : 0 < remaining) (h : g.capacity < offset + remaining) (bufPos : Nat) :
    ∃ cs rest, g.Partition offset (g.firstOutside offset - offset) bufPos cs ∧
      g.chunks offset remaining bufPos = cs ++ g.chunkOutside offset remaining bufPos :: rest := by
  induction remaining using Nat.strong_induction_on generalizing offset bufPos with
  | _ remaining ih =>
    rcases Nat.lt_or_ge offset g.capacity with ho | ho
    · -- a chunk inside the device, and the rest of the range
      have hend := chunk_end_le ho remaining
      have hn := chunkLen_pos hr hS offset
      have hs : offset % g.stripeSize + g.chunkLen offset remaining ≤ g.stripeSize := by
        have := Nat.mod_lt offset hS
        simp only [chunkLen]
        omega
      obtain ⟨cs, rest, hp, hc⟩ := ih _ (sub_chunkLen_lt hr hS.ne') (by omega)
        (by omega : g.capacity < offset + g.chunkLen offset remaining +
          (remaining - g.chunkLen offset remaining)) (bufPos + g.chunkLen offset remaining)
      have hfirst : g.firstOutside (offset + g.chunkLen offset remaining) =
          g.firstOutside offset := by
        simp only [firstOutside]
        omega
      have hle : offset + g.chunkLen offset remaining ≤ g.firstOutside offset := by
        simp only [firstOutside]
        omega
      have hrem : offset + g.chunkLen offset remaining + (remaining - g.chunkLen offset remaining) -
          g.firstOutside offset = offset + remaining - g.firstOutside offset := by omega
      have hbuf : bufPos + g.chunkLen offset remaining +
          (g.firstOutside offset - (offset + g.chunkLen offset remaining)) =
            bufPos + (g.firstOutside offset - offset) := by omega
      have hlen : g.chunkLen offset remaining +
          (g.firstOutside offset - (offset + g.chunkLen offset remaining)) =
            g.firstOutside offset - offset := by omega
      rw [hfirst] at hp
      rw [chunkOutside, hfirst, hrem, hbuf, ← chunkOutside] at hc
      refine ⟨⟨offset, g.chunkLen offset remaining, bufPos⟩ :: cs, rest, ?_, ?_⟩
      · rw [← hlen]
        exact .cons hn hs (fun _ => by omega) hp
      · rw [chunks_of_pos hr hS, addSize_eq (by omega), hc, List.cons_append]
    · -- the first chunk is outside
      have hfirst : g.firstOutside offset = offset := by
        simp only [firstOutside]
        omega
      rw [chunkOutside, hfirst, chunks_of_pos hr hS, Nat.sub_self, Nat.add_sub_cancel_left]
      exact ⟨[], _, .nil _ _, rfl⟩

/-- With one pair the local offset is the offset. -/
theorem localOffset_eq_self (hP : g.numPrimary = 1) (ho : offset < 2 ^ 64) :
    g.localOffset offset = offset := by
  rw [localOffset_eq ho, hP, Nat.div_one, Nat.div_add_mod']

/-- With more pairs the end of a chunk on its minion does not wrap. -/
theorem chunk_end_lt (hP : 2 ≤ g.numPrimary) (hS : 0 < g.stripeSize) (h64 : g.capacity < 2 ^ 64)
    (ho : offset < 2 ^ 64) (remaining : Nat) :
    g.localOffset offset + g.chunkLen offset remaining < 2 ^ 64 := by
  -- the chunk ends inside the stripe group `k`, at `(k + 1) * stripeSize` at most
  set k := offset / g.stripeSize / g.numPrimary with hk
  have h₁ : k * (g.numPrimary * g.stripeSize) ≤ offset := by
    rw [hk, Nat.div_div_eq_div_mul, Nat.mul_comm g.numPrimary]
    exact Nat.div_mul_le_self _ _
  have h₂ : (k + 1) * (2 * g.stripeSize) ≤ (k + 1) * (g.numPrimary * g.stripeSize) :=
    Nat.mul_le_mul_left _ (Nat.mul_le_mul_right _ hP)
  have h₃ : (k + 1) * (g.numPrimary * g.stripeSize) =
      k * (g.numPrimary * g.stripeSize) + g.capacity := Nat.succ_mul _ _
  have h₄ : (k + 1) * (2 * g.stripeSize) = 2 * (k * g.stripeSize + g.stripeSize) := by ring
  have h₅ := Nat.mod_lt offset hS
  have h₆ : g.chunkLen offset remaining ≤ g.stripeSize - offset % g.stripeSize :=
    Nat.min_le_right _ _
  rw [localOffset_eq ho, ← hk]
  omega

/-- **The guard of a minion** lets a chunk outside the device through exactly when its end wraps,
with a single pair. -/
theorem guard_passes_iff (hS : 0 < g.stripeSize) (h64 : g.capacity < 2 ^ 64)
    (ho : offset < 2 ^ 64) (h : g.capacity ≤ offset) {remaining : Nat} (hr : 0 < remaining) :
    addSize (g.localOffset offset) (g.chunkLen offset remaining) ≤ g.stripeSize ↔
      g.numPrimary = 1 ∧ 2 ^ 64 ≤ offset + g.chunkLen offset remaining := by
  have hn := chunkLen_pos hr hS offset
  have hlocal := stripeSize_le_localOffset hS h ho
  have hlen : g.chunkLen offset remaining ≤ g.stripeSize :=
    (Nat.min_le_right _ _).trans (Nat.sub_le _ _)
  have hs64 := stripeSize_lt h64
  rcases Nat.lt_or_ge g.numPrimary 2 with hP | hP
  · have hP : g.numPrimary = 1 := by
      have := g.numPrimary_pos
      omega
    -- on one pair the local offset is the offset, and its end may wrap
    rw [localOffset_eq_self hP ho] at hlocal ⊢
    rcases Nat.lt_or_ge (offset + g.chunkLen offset remaining) (2 ^ 64) with hw | hw
    · rw [addSize_eq hw]
      omega
    · rw [addSize_wrap ho (by omega) hw]
      omega
  · -- with more pairs the local offset is too small to wrap
    rw [addSize_eq (chunk_end_lt hP hS h64 ho remaining)]
    omega

end Geometry

namespace RAIDStorage

variable {g : Geometry}

/-! ## The first chunk outside -/

theorem writeChunks_append (buffer : List Byte) (cs cs' : List Chunk) :
    writeChunks g buffer (cs ++ cs') = writeChunks g buffer cs >>= fun r => match r with
      | .error what => return .error what
      | .ok () => writeChunks g buffer cs' := by
  induction cs with
  | nil => rfl
  | cons c cs ih =>
    rw [List.cons_append, writeChunks, writeChunks, bind_assoc]
    congr 1
    funext r
    rcases r with what | ⟨⟩
    · rfl
    · exact ih

theorem readChunks_append (buffer : List Byte) (cs cs' : List Chunk) :
    readChunks g buffer (cs ++ cs') = readChunks g buffer cs >>= fun r => match r with
      | (.error what, buffer) => return (.error what, buffer)
      | (.ok (), buffer) => readChunks g buffer cs' := by
  induction cs generalizing buffer with
  | nil => rfl
  | cons c cs ih =>
    rw [List.cons_append, readChunks, readChunks, bind_assoc]
    congr 1
    funext r
    rcases r with ⟨what | ⟨⟩, tempBuf⟩
    · rfl
    · exact ih _

/-- The first chunk outside the device does not fit its minion. -/
theorem firstOutside_end (hS : 0 < g.stripeSize) (h64 : g.capacity < 2 ^ 64) {offset len : Nat}
    (ho : offset < 2 ^ 64) (hr : 0 < len) (h : g.capacity < offset + len) :
    g.stripeSize < g.localOffset (g.chunkOutside offset len 0).offset +
      (g.chunkOutside offset len 0).len := by
  have hlt : g.firstOutside offset < 2 ^ 64 := Geometry.firstOutside_lt h64 ho
  have hrest : 0 < offset + len - g.firstOutside offset :=
    Nat.sub_pos_of_lt (Geometry.firstOutside_lt_end hr h)
  have hlocal := Geometry.stripeSize_le_localOffset hS (Nat.le_max_right offset g.capacity) hlt
  have hn := Geometry.chunkLen_pos hrest hS (g.firstOutside offset)
  rw [Geometry.chunkOutside]
  exact Nat.lt_of_le_of_lt hlocal (Nat.lt_add_of_pos_right hn)

/-- The first chunk outside the device goes astray. -/
def GoesAstray (g : Geometry) (astray : Nat → Nat → Nat → Prop) (offset len : Nat) : Prop :=
  astray g.stripeSize (g.localOffset (g.chunkOutside offset len 0).offset) (g.chunkOutside offset len 0).len

section Guards

variable {μ τ : Type} [LawfulMinion μ] [IMetadataStore τ] {astray : Nat → Nat → Nat → Prop}
  {s s' : RAIDStorage μ τ g} {c : Chunk} {i : Fin g.numMinions} {a : Nat} {buf : List Byte}

/-- A minion throws at the range of a `Write`, and nothing changes. -/
theorem handler_minionWrite_throws {what : String}
    (h : IStorageMinion.write (s.minions i) a buf = (.throws what, s.minions i)) :
    handler (.minionWrite i a buf) s = some (.error what, s) := by
  simp only [handler, h, setMinion, Function.update_eq_self]
  rfl

/-- A minion lets a `Write` through to a range it does not fit. -/
theorem handler_minionWrite_undefined (h : (IStorageMinion.write (s.minions i) a buf).1 = .undefined) :
    handler (.minionWrite i a buf) s = none := by
  simp only [handler, h]
  rfl

theorem handler_minionRead_throws {what : String}
    (h : (IStorageMinion.read (s.minions i) a buf).1 = .throws what) :
    handler (.minionRead i a buf) s =
      some ((.error what, (IStorageMinion.read (s.minions i) a buf).2), s) := by
  simp only [handler, h]
  rfl

/-- A minion lets a `Read` through to a range it does not fit. -/
theorem handler_minionRead_undefined (h : (IStorageMinion.read (s.minions i) a buf).1 = .undefined) :
    handler (.minionRead i a buf) s = none := by
  simp only [handler, h]
  rfl

variable (hμ : GuardsBounds μ astray) (hz : s.Sized)

include hμ hz

/-- A chunk outside the device that goes astray leaves the loop of `Write` without a result, and any other
one ends it. -/
theorem run_writeChunk_outside {buffer : List Byte} (hl : (slice buffer c.bufPos c.len).length = c.len)
    (hout : g.stripeSize < g.localOffset c.offset + c.len) :
    (astray g.stripeSize (g.localOffset c.offset) c.len → (writeChunk g buffer c).run handler s = none) ∧
    (¬ astray g.stripeSize (g.localOffset c.offset) c.len →
      ∃ what, (writeChunk g buffer c).run handler s = some (.error what, s)) := by
  have hsize := hz (g.primary (g.primaryIndex c.offset))
  rw [← hl, ← hsize] at hout
  rw [writeChunk, minionWrite, Prog.perform_bind]
  constructor
  · intro hastray
    rw [← hl, ← hsize] at hastray
    exact Prog.run_call_of_none (handler_minionWrite_undefined (hμ.write_undefined _ _ _ hout hastray))
  · intro hastray
    rw [← hl, ← hsize] at hastray
    obtain ⟨what, hw⟩ := hμ.write_throws _ _ _ hout hastray
    exact ⟨what, (Prog.run_call_of_eq (handler_minionWrite_throws hw)).trans rfl⟩

/-- A chunk outside the device that goes astray leaves the loop of `Read` without a result, and any other
one ends it. -/
theorem run_readChunk_outside (hout : g.stripeSize < g.localOffset c.offset + c.len) :
    (astray g.stripeSize (g.localOffset c.offset) c.len → (readChunk g c).run handler s = none) ∧
    (¬ astray g.stripeSize (g.localOffset c.offset) c.len →
      ∃ what buf, (readChunk g c).run handler s = some ((.error what, buf), s)) := by
  rw [readChunk, minionRead, Prog.perform_bind]
  constructor
  · intro hastray
    have hl : (List.replicate c.len (0 : Byte)).length = c.len := List.length_replicate
    rw [← hz (g.primary (g.primaryIndex c.offset)), ← hl] at hout hastray
    exact Prog.run_call_of_none (handler_minionRead_undefined (hμ.read_undefined _ _ _ hout hastray))
  · intro hastray
    have hthrows : ∀ i (buf : List Byte), buf.length = c.len →
        ∃ what, (IStorageMinion.read (s.minions i) (g.localOffset c.offset) buf).1 = .throws what :=
      fun i buf hb => hμ.read_throws _ _ _ (by rwa [hz i, hb]) (by rwa [hz i, hb])
    obtain ⟨what, hr⟩ := hthrows (g.primary (g.primaryIndex c.offset)) _ List.length_replicate
    rw [Prog.run_call_of_eq (handler_minionRead_throws hr)]
    -- the primary has thrown, and the mirror refuses the chunk as well
    have hbuf := LawfulMinion.length_read (s.minions (g.primary (g.primaryIndex c.offset)))
      (g.localOffset c.offset) (List.replicate c.len 0)
    obtain ⟨what', hr'⟩ := hthrows (g.mirrorIndex (g.primaryIndex c.offset)) _
      (hbuf.trans List.length_replicate)
    exact ⟨what', _, (Prog.run_call_of_eq (handler_minionRead_throws hr')).trans rfl⟩

variable (hS : 0 < g.stripeSize) (h64 : g.capacity < 2 ^ 64) {data : DriverData}
  (ho : data.offset < 2 ^ 64)

include hS h64 ho

/-- The loop of a `Write` that leaves the device comes to its first chunk outside. -/
theorem run_writeLoop_outside (hr : 0 < data.buffer.length)
    (h : g.capacity < data.offset + data.buffer.length) :
    (GoesAstray g astray data.offset data.buffer.length →
      (writeLoop g data.buffer data.offset data.buffer.length 0).run handler s = none) ∧
    (¬ GoesAstray g astray data.offset data.buffer.length → ∃ what s', SameIndex s s' ∧
      (writeLoop g data.buffer data.offset data.buffer.length 0).run handler s =
        some (.error what, s')) := by
  obtain ⟨cs, rest, hp, hc⟩ := Geometry.chunks_of_outside hS h64 hr h 0
  -- the chunks before the first one outside are written
  have hfit : 0 + (g.firstOutside data.offset - data.offset) ≤ data.buffer.length := by
    simp only [Geometry.firstOutside]
    omega
  obtain ⟨s₁, h₁⟩ := run_writeChunks hp hz (Geometry.stripeSize_lt h64) hfit
  obtain ⟨tr, hst⟩ := steps_of_run h₁
  have hsame := sameIndex_writeChunks hst
  have hlen := Geometry.chunkLen_le g (g.firstOutside data.offset)
    (data.offset + data.buffer.length - g.firstOutside data.offset)
  have hend : (g.chunkOutside data.offset data.buffer.length 0).bufPos +
      (g.chunkOutside data.offset data.buffer.length 0).len ≤ data.buffer.length := by
    simp only [Geometry.chunkOutside, Geometry.firstOutside] at hlen ⊢
    omega
  obtain ⟨hastray, hthrows⟩ := run_writeChunk_outside hμ (hsame.sized hz) (length_slice hend)
    (firstOutside_end hS h64 ho hr h)
  -- the loop comes to the first chunk outside
  have hrun : (writeLoop g data.buffer data.offset data.buffer.length 0).run handler s =
      (writeChunks g data.buffer (g.chunkOutside data.offset data.buffer.length 0 :: rest)).run handler s₁ := by
    rw [writeLoop_eq hS, hc, writeChunks_append, Prog.run_bind, h₁, Option.bind_some]
  rw [hrun, writeChunks, Prog.run_bind]
  constructor
  · intro hg
    rw [hastray hg]
    rfl
  · intro hg
    obtain ⟨what, hw⟩ := hthrows hg
    exact ⟨what, s₁, hsame, by rw [hw]; rfl⟩

/-- A `Write` that leaves the device goes astray if its first chunk outside does, and fails otherwise. -/
theorem run_write_outside (hr : 0 < data.buffer.length)
    (h : g.capacity < data.offset + data.buffer.length) :
    (GoesAstray g astray data.offset data.buffer.length → (write g data).run handler s = none) ∧
    (¬ GoesAstray g astray data.offset data.buffer.length → ∃ s', SameIndex s s' ∧
      (write g data).run handler s = some ({ data with status := .failure }, s')) := by
  obtain ⟨hastray, hthrows⟩ := run_writeLoop_outside hμ hz hS h64 ho hr h
  constructor
  · intro hg
    rw [write, Prog.run_bind, hastray hg]
    rfl
  · intro hg
    obtain ⟨what, s', hsame, hw⟩ := hthrows hg
    exact ⟨s', hsame, by rw [write, Prog.run_bind, hw]; rfl⟩

/-- A `Read` that leaves the device goes astray if its first chunk outside does, and fails otherwise. -/
theorem run_read_outside (hr : 0 < data.len) (h : g.capacity < data.offset + data.len) :
    (GoesAstray g astray data.offset data.len → (read g data).run handler s = none) ∧
    (¬ GoesAstray g astray data.offset data.len → ∃ buffer,
      (read g data).run handler s =
        some ({ data with buffer := buffer, status := .failure }, s)) := by
  set buffer := data.buffer.take data.len ++ List.replicate (data.len - data.buffer.length) 0
    with hbuf
  have hl : buffer.length = data.len := length_readBuffer data
  obtain ⟨cs, rest, hp, hc⟩ := Geometry.chunks_of_outside hS h64 hr h 0
  -- the chunks before the first one outside are read
  have hfit : 0 + (g.firstOutside data.offset - data.offset) ≤ buffer.length := by
    simp only [Geometry.firstOutside]
    omega
  obtain ⟨hok, -⟩ := run_readChunks hp hz (Geometry.stripeSize_lt h64) hfit fun _ _ => none
  obtain ⟨buf, -, -, h₁⟩ := hok fun c _ => .inl rfl
  rw [faultyReads_none] at h₁
  obtain ⟨hastray, hthrows⟩ := run_readChunk_outside hμ hz (firstOutside_end hS h64 ho hr h)
  -- the loop comes to the first chunk outside
  have hrun : (readLoop g data.offset data.len 0 buffer).run handler s =
      (readChunks g (overwrite buffer 0 buf) (g.chunkOutside data.offset data.len 0 :: rest)).run handler s := by
    rw [readLoop_eq hS, hc, readChunks_append, Prog.run_bind, h₁, Option.bind_some]
  simp only [readChunks, Prog.run_bind] at hrun
  constructor
  · intro hg
    simp only [read, ← hbuf]
    rw [Prog.run_bind, hrun, hastray hg]
    rfl
  · intro hg
    obtain ⟨what, tempBuf, hw⟩ := hthrows hg
    refine ⟨overwrite buffer 0 buf, ?_⟩
    simp only [read, ← hbuf]
    rw [Prog.run_bind, hrun, hw]
    rfl

end Guards

/-! ## In memory -/

variable {s : RAIDStorage StorageMinionMemory MemoryMetadataStore g} {data : DriverData}

/-- The chunk that starts where a range leaves the device passes the guard exactly when it wraps. -/
theorem goesAstray_iff (hS : 0 < g.stripeSize) (h64 : g.capacity < 2 ^ 64)
    {offset len : Nat} (ho : offset < 2 ^ 64) (hr : 0 < len) (h : g.capacity < offset + len) :
    GoesAstray g (fun S a n => addSize a n ≤ S) offset len ↔ g.Wraps offset len := by
  have hle : g.capacity ≤ g.firstOutside offset := Nat.le_max_right _ _
  have hlt : g.firstOutside offset < 2 ^ 64 := Geometry.firstOutside_lt h64 ho
  have hrest : 0 < offset + len - g.firstOutside offset :=
    Nat.sub_pos_of_lt (Geometry.firstOutside_lt_end hr h)
  rw [GoesAstray, Geometry.chunkOutside, Geometry.guard_passes_iff hS h64 hlt hle hrest]
  simp only [Geometry.Wraps, hr, h, true_and]

/-- A `Read` and a `Write` of the request make no call that leaves an array, and they succeed exactly
inside the device. -/
def ExactBounds (s : RAIDStorage StorageMinionMemory MemoryMetadataStore g) (data : DriverData) :
    Prop :=
  (∃ data' s', (read g data).run handler s = some (data', s') ∧
    (data'.status = .success ↔ data.len = 0 ∨ data.offset + data.len ≤ g.capacity)) ∧
  ∃ data' s', (write g data).run handler s = some (data', s') ∧
    (data'.status = .success ↔ data.len = 0 ∨ data.offset + data.len ≤ g.capacity)

/-- **Bounds are exact** if and only if the range does not wrap on a single pair. -/
theorem exactBounds_iff (hS : 0 < g.stripeSize) (h64 : g.capacity < 2 ^ 64) (hz : s.Sized)
    (ho : data.offset < 2 ^ 64) (hl : data.buffer.length = data.len) :
    ExactBounds s data ↔ ¬ g.Wraps data.offset data.len := by
  by_cases h : data.len = 0 ∨ data.offset + data.len ≤ g.capacity
  · -- inside the device nothing wraps, and both succeed
    have hrange : g.InRange data.offset data.len := (Geometry.inRange_iff h64).mpr h
    obtain ⟨hok, -⟩ := run_read data hz (Geometry.stripeSize_lt h64) hrange fun _ _ => none
    obtain ⟨buf, -, -, hread⟩ := hok fun c _ => .inl rfl
    rw [faultyReads_none] at hread
    obtain ⟨s', hwrite, -⟩ := run_write data hz (Geometry.stripeSize_lt h64) (by rwa [hl])
      fun _ _ => rfl
    refine iff_of_true ⟨⟨_, _, hread, iff_of_true rfl h⟩, _, _, hwrite, iff_of_true rfl h⟩ ?_
    rintro ⟨-, hr, hout, -⟩
    omega
  · have hr : 0 < data.len := by omega
    have hout : g.capacity < data.offset + data.len := by omega
    obtain ⟨hrw, hrf⟩ := run_read_outside StorageMinionMemory.guardsBounds hz hS h64 ho hr hout
    obtain ⟨-, hwf⟩ := run_write_outside StorageMinionMemory.guardsBounds hz hS h64 ho (hl ▸ hr) (hl ▸ hout)
    rw [hl] at hwf
    rw [goesAstray_iff hS h64 ho hr hout] at hrw hrf hwf
    constructor
    · rintro ⟨⟨data', s', hread, -⟩, -⟩ hw
      rw [hrw hw] at hread
      cases hread
    · intro hw
      obtain ⟨buffer, hread⟩ := hrf hw
      obtain ⟨s', -, hwrite⟩ := hwf hw
      exact ⟨⟨_, _, hread, iff_of_false (by simp) h⟩, _, _, hwrite, iff_of_false (by simp) h⟩

/-- The last byte that a `size_t` can name, over a pair of four bytes: the guard adds `1` to it and
gets `0`. -/
theorem bounds_wrap :
    ¬ ExactBounds (inMemory ⟨1, 4, by decide⟩) (.new .write 0 (2 ^ 64 - 1) 1) := by
  rintro ⟨⟨data', s', hread, -⟩, -⟩
  have hnone : ((read ⟨1, 4, by decide⟩ (.new .write 0 (2 ^ 64 - 1) 1)).run handler
      (inMemory ⟨1, 4, by decide⟩)).isNone := by
    decide +kernel
  rw [hread] at hnone
  cases hnone

/-- The same request over two pairs. -/
theorem exactBounds_two_pairs :
    ExactBounds (inMemory ⟨2, 4, by decide⟩) (.new .write 0 (2 ^ 64 - 1) 1) :=
  (exactBounds_iff (by decide) (by decide) (blank_inMemory _).sized (by decide)
    List.length_replicate).mpr (by decide)

end RAIDStorage

end LDS
