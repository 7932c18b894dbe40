import LDS.Storage.IStorage
import LDS.Storage.Passes

/-!
# What comes of a request

A request that keeps away from undefined calls comes back; it comes back with `SUCCESS` only when
all its chunks have been moved, and a `Write` only when its size has been recorded besides.

## Main definitions

* `RAIDStorage.StaysInside`, `RAIDStorage.Defined`: what calls are answered, and which are defined in memory
* `RAIDStorage.Safe g offset len`: nothing is to be divided by zero, and no chunk wraps
* `RAIDStorage.CarriedOut g request tr`: the calls of a request have carried out its operation

## Main results

* `RAIDStorage.obeys_read_defined`, `RAIDStorage.obeys_write_defined`: a safe request makes defined calls
* `RAIDStorage.read_returns`, `RAIDStorage.write_returns`: a request that succeeds has been carried out
-/

namespace LDS

open Memory

namespace RAIDStorage

variable {g : Geometry} {data : DriverData}

/-! ## Defined calls -/

/-- What a call of a minion is answered: it succeeds inside the minion only, and a read keeps the length of
its buffer. -/
def StaysInside (g : Geometry) : (o : RAIDCall g) → o.Answer → Prop
  | .minionRead _ offset buf, a =>
    a.2.length = buf.length ∧ (a.1 = .ok () → offset + buf.length ≤ g.stripeSize)
  | .minionWrite _ offset buf, a => a = .ok () → offset + buf.length ≤ g.stripeSize
  | _, _ => True

/-- A range that a minion in memory does not have is refused by its guard. -/
def Defined (g : Geometry) : RAIDCall g → Prop
  | .minionRead _ offset buf =>
    addSize offset buf.length ≤ g.stripeSize → offset + buf.length ≤ g.stripeSize
  | .minionWrite _ offset buf =>
    addSize offset buf.length ≤ g.stripeSize → offset + buf.length ≤ g.stripeSize
  | _ => True

theorem bounded_of_busy {μ τ : Type} [IStorageMinion μ] [IMetadataStore τ] (hμ : InBounds μ)
    {o : RAIDCall g} {a : o.Answer} (h : Busy μ τ g () o a ()) : StaysInside g o a := by
  cases o with
  | minionRead i offset buf => exact busy_minionRead hμ h
  | minionWrite i offset buf =>
    intro hok
    exact busy_minionWrite hμ (hok ▸ h)
  | recordSize offset size => trivial
  | getDataSize offset => trivial
  | listOffsets => trivial

/-- In memory a call is defined in every state where the minions have their size. -/
theorem handler_memory {s : RAIDStorage StorageMinionMemory MemoryMetadataStore g}
    (hz : ∀ i, IStorageMinion.size (s.minions i) = g.stripeSize) {o : RAIDCall g} (ho : Defined g o) :
    handler o s ≠ none := by
  cases o with
  | minionRead i offset buf =>
    intro hnone
    -- a call of a minion has no answer where its copy leaves the array
    have hundefined := Outcome.answer?_eq_none.mp (Option.map_eq_none_iff.mp hnone)
    obtain ⟨hguard, hout⟩ := StorageMinionMemory.read_undefined_iff.mp hundefined
    have hsize : (s.minions i).size = g.stripeSize := hz i
    rw [hsize] at hguard hout
    exact absurd (ho hguard) (Nat.not_le_of_lt hout)
  | minionWrite i offset buf =>
    intro hnone
    have hundefined := Outcome.answer?_eq_none.mp (Option.map_eq_none_iff.mp hnone)
    obtain ⟨hguard, hout⟩ := StorageMinionMemory.write_undefined_iff.mp hundefined
    have hsize : (s.minions i).size = g.stripeSize := hz i
    rw [hsize] at hguard hout
    exact absurd (ho hguard) (Nat.not_le_of_lt hout)
  | recordSize offset size => nofun
  | getDataSize offset => nofun
  | listOffsets => nofun

/-- Nothing is to be divided by zero, and no chunk wraps. -/
def Safe (g : Geometry) (offset len : Nat) : Prop :=
  len = 0 ∨ 0 < g.stripeSize ∧ ¬ g.Wraps offset len

section Safe

variable {offset remaining : Nat} (h64 : g.capacity < 2 ^ 64) (ho : offset < 2 ^ 64) (hr : 0 < remaining)
  (hs : Safe g offset remaining)

include h64 ho hr hs

/-- The chunk that a safe request begins with is defined. -/
theorem Safe.defined : addSize (g.localOffset offset) (g.chunkLen offset remaining) ≤ g.stripeSize →
    g.localOffset offset + g.chunkLen offset remaining ≤ g.stripeSize := by
  intro hguard
  obtain ⟨hS, hwraps⟩ := hs.resolve_left hr.ne'
  rcases Nat.lt_or_ge offset g.capacity with hin | hout
  · exact Geometry.chunk_fits hin ho remaining
  · -- past the guard from outside the device: this is the chunk that wraps
    obtain ⟨hP, hend⟩ := (Geometry.guard_passes_iff hS h64 ho hout hr).mp hguard
    have hfirst : g.firstOutside offset = offset := Nat.max_eq_left hout
    refine absurd ⟨hP, hr, by omega, ?_⟩ hwraps
    rwa [hfirst, Nat.add_sub_cancel_left]

/-- After a chunk that fits, the rest of a safe request is safe. -/
theorem Safe.next (hfits : g.localOffset offset + g.chunkLen offset remaining ≤ g.stripeSize) :
    Safe g (addSize offset (g.chunkLen offset remaining)) (remaining - g.chunkLen offset remaining) := by
  obtain ⟨hS, hwraps⟩ := hs.resolve_left hr.ne'
  have hin : offset < g.capacity := Geometry.Fits.lt_capacity (c := ⟨offset, _, 0⟩) hfits
    (Geometry.chunkLen_pos hr hS offset) hS ho
  have hend := Geometry.chunk_end_le hin remaining
  have hle := g.chunkLen_le offset remaining
  rcases Nat.eq_zero_or_pos (remaining - g.chunkLen offset remaining) with hz | hz
  · exact .inl hz
  refine .inr ⟨hS, ?_⟩
  rw [addSize_eq (by omega)]
  rintro ⟨hP, -, hcap, hend'⟩
  -- the rest of the request meets the same stripe outside
  have hfirst : g.firstOutside (offset + g.chunkLen offset remaining) = g.firstOutside offset := by
    simp only [Geometry.firstOutside]
    omega
  have hsum : offset + g.chunkLen offset remaining + (remaining - g.chunkLen offset remaining) =
      offset + remaining := by omega
  rw [hsum] at hcap
  rw [hfirst, hsum] at hend'
  exact hwraps ⟨hP, hr, hcap, hend'⟩

end Safe

/-- The contract of a request whose calls are all defined. -/
abbrev MakesDefined (g : Geometry) : Prog.Contract (RAIDCall g) RAIDCall.Answer Unit :=
  .plain (StaysInside g) (Defined g) False

theorem obeys_readLoop_defined (h64 : g.capacity < 2 ^ 64) {offset remaining : Nat}
    (ho : offset < 2 ^ 64) (hs : Safe g offset remaining) (bufPos : Nat) (buffer : List Byte) :
    Prog.Obeys (MakesDefined g) (fun _ _ => True) () (readLoop g offset remaining bufPos buffer) := by
  induction remaining using Nat.strong_induction_on generalizing offset bufPos buffer with
  | _ remaining ih =>
    rw [readLoop]
    split
    · rename_i hr
      obtain ⟨hS, -⟩ := id (hs.resolve_left hr.ne')
      rw [if_neg hS.ne']
      have hdefined := hs.defined h64 ho hr
      have hnext : g.localOffset offset + g.chunkLen offset remaining ≤ g.stripeSize → ∀ tempBuf,
          Prog.Obeys (MakesDefined g) (fun _ _ => True) ()
            (readLoop g (addSize offset (g.chunkLen offset remaining))
              (remaining - g.chunkLen offset remaining) (bufPos + g.chunkLen offset remaining)
              (overwrite buffer bufPos tempBuf)) := fun hfits tempBuf =>
        ih _ (Geometry.sub_chunkLen_lt hr hS.ne') (addSize_lt _ _) (hs.next h64 ho hr hfits) _ _
      have hcall : ∀ i (buf : List Byte), buf.length = g.chunkLen offset remaining →
          Defined g (.minionRead i (g.localOffset offset) buf) := fun i buf hbuf => by
        simp only [Defined, hbuf]
        exact hdefined
      refine .call (hcall (g.primary (g.primaryIndex offset)) (List.replicate _ 0) List.length_replicate) ?_
      rintro ⟨what | ⟨⟩, tempBuf⟩ ⟨hlen, hok⟩
      · -- the primary has thrown, and the mirror gets the same range
        simp only [List.length_replicate] at hlen
        refine .call (hcall (g.mirrorIndex (g.primaryIndex offset)) tempBuf hlen) ?_
        rintro ⟨what | ⟨⟩, tempBuf'⟩ ⟨-, hok⟩
        · exact .ret trivial
        · simp only [hlen] at hok
          exact hnext (hok trivial) _
      · simp only [List.length_replicate] at hok
        exact hnext (hok trivial) _
    · exact .ret trivial

theorem obeys_writeLoop_defined (h64 : g.capacity < 2 ^ 64) {offset remaining : Nat}
    (ho : offset < 2 ^ 64) (hs : Safe g offset remaining) {bufPos : Nat} {buffer : List Byte}
    (hb : bufPos + remaining ≤ buffer.length) :
    Prog.Obeys (MakesDefined g) (fun _ _ => True) () (writeLoop g buffer offset remaining bufPos) := by
  induction remaining using Nat.strong_induction_on generalizing offset bufPos with
  | _ remaining ih =>
    rw [writeLoop]
    split
    · rename_i hr
      obtain ⟨hS, -⟩ := id (hs.resolve_left hr.ne')
      rw [if_neg hS.ne']
      have hdefined := hs.defined h64 ho hr
      have hle := g.chunkLen_le offset remaining
      have hlen : (slice buffer bufPos (g.chunkLen offset remaining)).length =
          g.chunkLen offset remaining := length_slice (by omega)
      -- both copies get the same range
      have hcall : ∀ i, Defined g (.minionWrite i (g.localOffset offset)
          (slice buffer bufPos (g.chunkLen offset remaining))) := fun i => by
        simp only [Defined, hlen]
        exact hdefined
      refine .call (hcall (g.primary (g.primaryIndex offset))) ?_
      rintro (what | ⟨⟩) hok
      · exact .ret trivial
      have hfits := hok rfl
      simp only [hlen] at hfits
      refine .call (hcall (g.mirrorIndex (g.primaryIndex offset))) ?_
      rintro (what | ⟨⟩) -
      · exact .ret trivial
      · -- the chunk has fitted, so the rest of the request is safe
        exact ih _ (Geometry.sub_chunkLen_lt hr hS.ne') (addSize_lt _ _) (hs.next h64 ho hr hfits)
          (by omega)
    · exact .ret trivial

/-- A safe `Read` makes defined calls only. -/
theorem obeys_read_defined (h64 : g.capacity < 2 ^ 64) (ho : data.offset < 2 ^ 64)
    (hs : Safe g data.offset data.len) :
    Prog.Obeys (MakesDefined g) (fun _ _ => True) () (read g data) := by
  refine (obeys_readLoop_defined h64 ho hs 0 _).bind ?_
  rintro ⟨⟩ ⟨what | ⟨⟩, buf⟩ - <;> exact .ret trivial

/-- A safe `Write` makes defined calls only. -/
theorem obeys_write_defined (h64 : g.capacity < 2 ^ 64) (ho : data.offset < 2 ^ 64)
    (hs : Safe g data.offset data.buffer.length) :
    Prog.Obeys (MakesDefined g) (fun _ _ => True) () (write g data) := by
  refine (obeys_writeLoop_defined h64 ho hs (by omega)).bind ?_
  rintro ⟨⟩ (what | ⟨⟩) -
  · exact .ret trivial
  · refine .call trivial ?_
    rintro (what | ⟨⟩) - <;> exact .ret trivial

/-! ## Operations carried out -/

section CarriedOut

variable {tr tr' : List (Exchange (RAIDCall g) RAIDCall.Answer)} {c : Chunk}

/-- One of the copies of the chunk has been read. -/
def ChunkRead (g : Geometry) (c : Chunk) (tr : List (Exchange (RAIDCall g) RAIDCall.Answer)) : Prop :=
  ∃ i buf buf', (i = g.primary (g.primaryIndex c.offset) ∨ i = g.mirrorIndex (g.primaryIndex c.offset)) ∧
    buf.length = c.len ∧ ⟨.minionRead i (g.localOffset c.offset) buf, (.ok (), buf')⟩ ∈ tr

/-- Both copies of the chunk have been written. -/
def ChunkWritten (g : Geometry) (buffer : List Byte) (c : Chunk)
    (tr : List (Exchange (RAIDCall g) RAIDCall.Answer)) : Prop :=
  ∀ i, i = g.primary (g.primaryIndex c.offset) ∨ i = g.mirrorIndex (g.primaryIndex c.offset) →
    ⟨.minionWrite i (g.localOffset c.offset) (slice buffer c.bufPos c.len), .ok ()⟩ ∈ tr

/-- The calls of a request have carried out its operation: every chunk has been moved, and the size of a
`Write` recorded. -/
def CarriedOut (g : Geometry) (request : DriverData)
    (tr : List (Exchange (RAIDCall g) RAIDCall.Answer)) : Prop :=
  match request.type with
  | .read => ∀ c ∈ g.chunks request.offset request.len 0, ChunkRead g c tr
  | .write => (∀ c ∈ g.chunks request.offset request.buffer.length 0, ChunkWritten g request.buffer c tr) ∧
      ⟨.recordSize request.offset request.buffer.length, .ok ()⟩ ∈ tr
  | _ => True

theorem ChunkRead.append_left (h : ChunkRead g c tr) : ChunkRead g c (tr ++ tr') := by
  obtain ⟨i, buf, buf', hi, hl, hm⟩ := h
  exact ⟨i, buf, buf', hi, hl, List.mem_append_left _ hm⟩

theorem ChunkRead.append_right (h : ChunkRead g c tr') : ChunkRead g c (tr ++ tr') := by
  obtain ⟨i, buf, buf', hi, hl, hm⟩ := h
  exact ⟨i, buf, buf', hi, hl, List.mem_append_right _ hm⟩

variable {E : Environment (RAIDCall g) RAIDCall.Answer Unit} (hE : ∀ o a, E () o a () → StaysInside g o a)

include hE in
/-- A pass of the loop of `Read` that goes on has read its chunk. -/
theorem chunkRead_of_steps {buf : List Byte}
    (hs : Steps E (readChunk g c) () tr (.ret (.ok (), buf)) ()) : ChunkRead g c tr := by
  unfold readChunk minionRead at hs
  rw [Prog.perform_bind] at hs
  obtain ⟨⟨a, buf₁⟩, ⟨⟩, tr₁, rfl, ha, hs⟩ := hs.call_ret_inv
  obtain ⟨hlen, -⟩ := hE _ _ ha
  rw [List.length_replicate] at hlen
  rcases a with what | ⟨⟩
  · obtain ⟨⟨a, buf₂⟩, ⟨⟩, tr₂, rfl, -, hs⟩ := hs.call_ret_inv
    obtain ⟨-, hq, -⟩ := hs.ret_inv
    obtain ⟨rfl, -⟩ := Prod.mk.inj (Prog.ret.inj hq)
    exact ⟨_, _, buf₂, .inr rfl, hlen, List.mem_cons_of_mem _ List.mem_cons_self⟩
  · exact ⟨_, _, buf₁, .inl rfl, List.length_replicate, List.mem_cons_self⟩

include hE in
/-- A loop of `Read` that comes to its end has read all its chunks. -/
theorem chunkRead_of_readChunks {buffer buf : List Byte} {cs : List Chunk}
    (hs : Steps E (readChunks g buffer cs) () tr (.ret (.ok (), buf)) ()) :
    ∀ c ∈ cs, ChunkRead g c tr := by
  induction cs generalizing buffer tr with
  | nil => nofun
  | cons c cs ih =>
    unfold readChunks at hs
    obtain ⟨⟨a, tempBuf⟩, ⟨⟩, tr₁, tr₂, rfl, hc, hs⟩ := hs.bind_ret_inv
    rcases a with what | ⟨⟩
    · cases hs.ret_inv.2.1
    · exact List.forall_mem_cons.mpr
        ⟨(chunkRead_of_steps hE hc).append_left, fun c' hc' => (ih hs c' hc').append_right⟩

/-- A loop of `Write` that comes to its end has written all its chunks. -/
theorem chunkWritten_of_writeChunks {buffer : List Byte} {cs : List Chunk}
    (hs : Steps E (writeChunks g buffer cs) () tr (.ret (.ok ())) ()) :
    ∀ c ∈ cs, ChunkWritten g buffer c tr := by
  induction cs generalizing tr with
  | nil => nofun
  | cons c cs ih =>
    unfold writeChunks at hs
    obtain ⟨a, ⟨⟩, tr₁, tr₂, rfl, hc, hs⟩ := hs.bind_ret_inv
    rcases a with what | ⟨⟩
    · -- a chunk that throws ends the loop
      cases hs.ret_inv.2.1
    refine List.forall_mem_cons.mpr ⟨?_, fun c' hc' i hi => List.mem_append_right _ (ih hs c' hc' i hi)⟩
    unfold writeChunk minionWrite at hc
    rw [Prog.perform_bind] at hc
    obtain ⟨a, ⟨⟩, tr₃, rfl, -, hc⟩ := hc.call_ret_inv
    rcases a with what | ⟨⟩
    · cases hc.ret_inv.2.1
    obtain ⟨a, ⟨⟩, tr₄, rfl, -, hc⟩ := hc.call_ret_inv
    obtain ⟨-, hq, -⟩ := hc.ret_inv
    obtain rfl := Prog.ret.inj hq
    rintro i (rfl | rfl)
    · exact List.mem_append_left _ List.mem_cons_self
    · exact List.mem_append_left _ (List.mem_cons_of_mem _ List.mem_cons_self)

include hE in
/-- What a `Read` comes back with. -/
theorem read_returns (hdata : data.len = 0 ∨ 0 < g.stripeSize) {data' : DriverData}
    (hs : Steps E (read g data) () tr (.ret data') ()) : SameRequest data data' ∧
      (data'.status = .success → ∀ c ∈ g.chunks data.offset data.len 0, ChunkRead g c tr) := by
  simp only [read, readLoop_eq_of_divisor hdata] at hs
  obtain ⟨⟨a, buf⟩, ⟨⟩, tr₁, tr₂, rfl, hl, hs⟩ := hs.bind_ret_inv
  rcases a with what | ⟨⟩
  · obtain ⟨-, hq, -⟩ := hs.ret_inv
    obtain rfl := Prog.ret.inj hq
    exact ⟨⟨rfl, rfl, rfl, rfl⟩, fun h => by cases h⟩
  · obtain ⟨-, hq, -⟩ := hs.ret_inv
    obtain rfl := Prog.ret.inj hq
    exact ⟨⟨rfl, rfl, rfl, rfl⟩, fun _ c hc => (chunkRead_of_readChunks hE hl c hc).append_left⟩

/-- What a `Write` comes back with. -/
theorem write_returns (hdata : data.buffer.length = 0 ∨ 0 < g.stripeSize) {data' : DriverData}
    (hs : Steps E (write g data) () tr (.ret data') ()) : SameRequest data data' ∧
      (data'.status = .success →
        (∀ c ∈ g.chunks data.offset data.buffer.length 0, ChunkWritten g data.buffer c tr) ∧
          ⟨.recordSize data.offset data.buffer.length, .ok ()⟩ ∈ tr) := by
  simp only [write, writeLoop_eq_of_divisor hdata] at hs
  obtain ⟨a, ⟨⟩, tr₁, tr₂, rfl, hl, hs⟩ := hs.bind_ret_inv
  rcases a with what | ⟨⟩
  · obtain ⟨-, hq, -⟩ := hs.ret_inv
    obtain rfl := Prog.ret.inj hq
    exact ⟨⟨rfl, rfl, rfl, rfl⟩, nofun⟩
  · -- the loop is done, and the record decides
    obtain ⟨a, ⟨⟩, tr₃, rfl, -, hs⟩ := hs.call_ret_inv
    rcases a with what | ⟨⟩
    · obtain ⟨-, hq, -⟩ := hs.ret_inv
      obtain rfl := Prog.ret.inj hq
      exact ⟨⟨rfl, rfl, rfl, rfl⟩, nofun⟩
    · obtain ⟨-, hq, -⟩ := hs.ret_inv
      obtain rfl := Prog.ret.inj hq
      refine ⟨⟨rfl, rfl, rfl, rfl⟩, fun _ => ⟨fun c hc i hi => ?_, ?_⟩⟩
      · exact List.mem_append_left _ (chunkWritten_of_writeChunks hl c hc i hi)
      · exact List.mem_append_right _ List.mem_cons_self

end CarriedOut

end RAIDStorage

end LDS
