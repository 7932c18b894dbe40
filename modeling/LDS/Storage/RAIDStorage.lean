import LDS.Library.Program
import LDS.Storage.AddressMap
import LDS.Storage.Minion
import LDS.Storage.MetadataStore

/-!
# `RAIDStorage`

`RAIDStorage` stripes a device over its primary minions and mirrors each of them. `Read` and
`Write` are programs over the calls that other threads can see: one call of a minion, which runs
under that minion's lock, and one critical section of the index, which runs under
`m_offsets_lock`.

## Main definitions

* `RAIDStorage μ τ g`: the state, over minions `μ` and a metadata store `τ`
* `RAIDCall g`: the calls of the programs
* `RAIDStorage.read`, `RAIDStorage.write`: the programs
* `RAIDStorage.handler`: what the objects themselves answer
* `RAIDStorage.Answers`: what they answer when calls may fail
* `RAIDStorage.new`: the constructor

## Main results

* `RAIDStorage.writeLoop_eq`, `RAIDStorage.readLoop_eq`: the loops visit `Geometry.chunks`
* `RAIDStorage.answers_minionWrite`: what one `Write` of a minion can do
-/

namespace LDS

open Memory

/-- The members of a `RAIDStorage` that change. -/
structure RAIDStorage (μ τ : Type) (g : Geometry) where
  minions : Fin g.numMinions → μ
  offsetSizes : SizeMap
  metadataStore : τ

/-- The calls of `RAIDStorage`'s programs. `recordSize` is the critical section that ends `Write`:
the new index entry and `Save`. -/
inductive RAIDCall (g : Geometry)
  | minionRead (i : Fin g.numMinions) (offset : Nat) (buf : List Byte)
  | minionWrite (i : Fin g.numMinions) (offset : Nat) (buf : List Byte)
  | recordSize (offset size : Nat)
  | getDataSize (offset : Nat)
  | listOffsets

/-- What a call answers: `.error` is an exception. A read hands the caller's buffer back. -/
abbrev RAIDCall.Answer {g : Geometry} : RAIDCall g → Type
  | minionRead _ _ _ => Except String Unit × List Byte
  | minionWrite _ _ _ => Except String Unit
  | recordSize _ _ => Except String Unit
  | getDataSize _ => Nat
  | listOffsets => List (Nat × Nat)

/-- A program of a `RAIDStorage`. -/
abbrev RAIDProg (g : Geometry) := Prog (RAIDCall g) RAIDCall.Answer

namespace RAIDStorage

/-! ## The programs -/

variable {g : Geometry}

/-- `m_minions[i]->Read(offset, buf)`. -/
def minionRead (i : Fin g.numMinions) (offset : Nat) (buf : List Byte) :
    RAIDProg g (Except String Unit × List Byte) :=
  Prog.perform (RAIDCall.minionRead i offset buf)

/-- `m_minions[i]->Write(offset, buf)`. -/
def minionWrite (i : Fin g.numMinions) (offset : Nat) (buf : List Byte) :
    RAIDProg g (Except String Unit) :=
  Prog.perform (RAIDCall.minionWrite i offset buf)

/-- The critical section of `Write`. -/
def recordSize (offset size : Nat) : RAIDProg g (Except String Unit) :=
  Prog.perform (RAIDCall.recordSize offset size)

/-- The chunk loop of `RAIDStorage::Read`; the division by `m_stripe_size` kills the process when
it is `0`. -/
def readLoop (g : Geometry) (offset remaining bufPos : Nat) (buffer : List Byte) :
    RAIDProg g (Except String Unit × List Byte) :=
  if 0 < remaining then
    if g.stripeSize = 0 then .abort
    else do
      let primaryIdx := g.primaryIndex offset
      let mirrorIdx := g.mirrorIndex primaryIdx
      let localOffset := g.localOffset offset
      let toRead := g.chunkLen offset remaining
      let (result, tempBuf) ←
        minionRead (g.primary primaryIdx) localOffset (List.replicate toRead 0)
      let (result, tempBuf) ← match result with
        | .ok () => pure (result, tempBuf)
        | .error _ => minionRead mirrorIdx localOffset tempBuf
      match result with
      | .error what => return (.error what, buffer)
      | .ok () =>
        readLoop g (addSize offset toRead) (remaining - toRead) (bufPos + toRead)
          (overwrite buffer bufPos tempBuf)
  else return (.ok (), buffer)
termination_by remaining
decreasing_by exact Geometry.sub_chunkLen_lt ‹_› ‹_›

/-- `RAIDStorage::Read`. -/
def read (g : Geometry) (data : DriverData) : RAIDProg g DriverData := do
  let buffer := data.buffer.take data.len ++ List.replicate (data.len - data.buffer.length) 0
  match ← readLoop g data.offset data.len 0 buffer with
  | (.ok (), buffer) => return { data with buffer := buffer, status := .success }
  | (.error _, buffer) => return { data with buffer := buffer, status := .failure }

/-- The buffer that `Read` fills is as long as the request says. -/
theorem length_readBuffer (data : DriverData) :
    (data.buffer.take data.len ++ List.replicate (data.len - data.buffer.length) 0).length = data.len := by
  rw [List.length_append, List.length_take, List.length_replicate]
  omega

/-- The chunk loop of `RAIDStorage::Write`. -/
def writeLoop (g : Geometry) (buffer : List Byte) (offset remaining bufPos : Nat) :
    RAIDProg g (Except String Unit) :=
  if 0 < remaining then
    if g.stripeSize = 0 then .abort
    else do
      let primaryIdx := g.primaryIndex offset
      let mirrorIdx := g.mirrorIndex primaryIdx
      let localOffset := g.localOffset offset
      let toWrite := g.chunkLen offset remaining
      let chunk := slice buffer bufPos toWrite
      match ← minionWrite (g.primary primaryIdx) localOffset chunk with
      | .error what => return .error what
      | .ok () =>
        match ← minionWrite mirrorIdx localOffset chunk with
        | .error what => return .error what
        | .ok () =>
          writeLoop g buffer (addSize offset toWrite) (remaining - toWrite) (bufPos + toWrite)
  else return .ok ()
termination_by remaining
decreasing_by exact Geometry.sub_chunkLen_lt ‹_› ‹_›

/-- `RAIDStorage::Write`. -/
def write (g : Geometry) (data : DriverData) : RAIDProg g DriverData := do
  let originalOffset := data.offset
  let originalSize := data.buffer.length
  match ← writeLoop g data.buffer data.offset data.buffer.length 0 with
  | .error _ => return { data with status := .failure }
  | .ok () =>
    match ← recordSize originalOffset originalSize with
    | .error _ => return { data with status := .failure }
    | .ok () => return { data with status := .success }

/-- `RAIDStorage::GetDataSize`. -/
def getDataSize (offset : Nat) : RAIDProg g Nat := Prog.perform (RAIDCall.getDataSize offset)

/-- `RAIDStorage::ListOffsets`. -/
def listOffsets : RAIDProg g (List (Nat × Nat)) := Prog.perform RAIDCall.listOffsets

/-! ## The loops, chunk by chunk -/

/-- One pass of the loop of `Read`: the mirror when the primary throws. -/
def readChunk (g : Geometry) (c : Chunk) : RAIDProg g (Except String Unit × List Byte) := do
  let (result, tempBuf) ← minionRead (g.primary (g.primaryIndex c.offset)) (g.localOffset c.offset)
    (List.replicate c.len 0)
  match result with
  | .ok () => return (result, tempBuf)
  | .error _ =>
    minionRead (g.mirrorIndex (g.primaryIndex c.offset)) (g.localOffset c.offset) tempBuf

/-- The loop of `Read` over its chunks. -/
def readChunks (g : Geometry) : List Byte → List Chunk → RAIDProg g (Except String Unit × List Byte)
  | buffer, [] => return (.ok (), buffer)
  | buffer, c :: cs => do
    match ← readChunk g c with
    | (.error what, _) => return (.error what, buffer)
    | (.ok (), tempBuf) => readChunks g (overwrite buffer c.bufPos tempBuf) cs

/-- One pass of the loop of `Write`: the primary, then the mirror. -/
def writeChunk (g : Geometry) (buffer : List Byte) (c : Chunk) :
    RAIDProg g (Except String Unit) := do
  match ← minionWrite (g.primary (g.primaryIndex c.offset)) (g.localOffset c.offset)
      (slice buffer c.bufPos c.len) with
  | .error what => return .error what
  | .ok () =>
    minionWrite (g.mirrorIndex (g.primaryIndex c.offset)) (g.localOffset c.offset)
      (slice buffer c.bufPos c.len)

/-- The loop of `Write` over its chunks. -/
def writeChunks (g : Geometry) (buffer : List Byte) :
    List Chunk → RAIDProg g (Except String Unit)
  | [] => return .ok ()
  | c :: cs => do
    match ← writeChunk g buffer c with
    | .error what => return .error what
    | .ok () => writeChunks g buffer cs

/-- The loop of `Write` visits `Geometry.chunks`. -/
theorem writeLoop_eq (hS : 0 < g.stripeSize) (buffer : List Byte) (offset remaining bufPos : Nat) :
    writeLoop g buffer offset remaining bufPos =
      writeChunks g buffer (g.chunks offset remaining bufPos) := by
  induction remaining using Nat.strong_induction_on generalizing offset bufPos with
  | _ remaining ih =>
    rw [writeLoop]
    split
    · rename_i hr
      rw [if_neg hS.ne', Geometry.chunks_of_pos hr hS, writeChunks, writeChunk]
      simp only [minionWrite, Prog.perform_bind]
      congr 1
      funext a
      rcases a with what | ⟨⟩
      · rfl
      · simp only [Prog.perform]
        congr 1
        funext a
        rcases a with what | ⟨⟩
        · rfl
        · exact ih _ (Geometry.sub_chunkLen_lt hr hS.ne') _ _
    · rename_i hr
      rw [Nat.eq_zero_of_not_pos hr, Geometry.chunks_zero, writeChunks]

/-- The loop of `Read` visits `Geometry.chunks`. -/
theorem readLoop_eq (hS : 0 < g.stripeSize) (offset remaining bufPos : Nat) (buffer : List Byte) :
    readLoop g offset remaining bufPos buffer =
      readChunks g buffer (g.chunks offset remaining bufPos) := by
  induction remaining using Nat.strong_induction_on generalizing offset bufPos buffer with
  | _ remaining ih =>
    rw [readLoop]
    split
    · rename_i hr
      rw [if_neg hS.ne', Geometry.chunks_of_pos hr hS, readChunks, readChunk]
      simp only [minionRead, Prog.perform_bind]
      congr 1
      funext a
      rcases a with ⟨what | ⟨⟩, tempBuf⟩
      · -- the primary throws, and the mirror is read
        simp only [Prog.perform]
        congr 1
        funext a
        rcases a with ⟨what | ⟨⟩, tempBuf⟩
        · rfl
        · exact ih _ (Geometry.sub_chunkLen_lt hr hS.ne') _ _ _
      · exact ih _ (Geometry.sub_chunkLen_lt hr hS.ne') _ _ _
    · rename_i hr
      rw [Nat.eq_zero_of_not_pos hr, Geometry.chunks_zero, readChunks]

/-! ## The answers -/

/-- `m_minions[i]` replaced by `m`. -/
def setMinion {μ τ : Type} (s : RAIDStorage μ τ g) (i : Fin g.numMinions) (m : μ) :
    RAIDStorage μ τ g :=
  { s with minions := Function.update s.minions i m }

section Answers

variable {μ τ : Type} [IStorageMinion μ] [IMetadataStore τ]

/-- What the minions, the index and the metadata store answer by themselves. -/
def handler : Prog.Handler (RAIDCall g) RAIDCall.Answer (RAIDStorage μ τ g)
  | .minionRead i offset buf, s =>
    let r := IStorageMinion.read (s.minions i) offset buf
    r.1.answer?.map fun a => ((a, r.2), s)
  | .minionWrite i offset buf, s =>
    let r := IStorageMinion.write (s.minions i) offset buf
    r.1.answer?.map fun a => (a, s.setMinion i r.2)
  | .recordSize offset size, s =>
    let offsetSizes := s.offsetSizes.insert offset size
    let r := IMetadataStore.save s.metadataStore offsetSizes
    r.1.answer?.map fun a => (a, { s with offsetSizes := offsetSizes, metadataStore := r.2 })
  | .getDataSize offset, s => some (s.offsetSizes[offset]?.getD 0, s)
  | .listOffsets, s => some (s.offsetSizes.toList, s)

/-- What the calls answer when any of them may fail: a failing minion call throws and leaves the
minion as it was, having filled any part of the caller's buffer; a failing `Save` throws with the
index already changed, and leaves the store in any state. -/
inductive Answers : Environment (RAIDCall g) RAIDCall.Answer (RAIDStorage μ τ g)
  | own {s s' : RAIDStorage μ τ g} {c : RAIDCall g} {a : c.Answer}
      (h : handler c s = some (a, s')) : Answers s c a s'
  | readFault {s : RAIDStorage μ τ g} {i : Fin g.numMinions} {offset : Nat} {buf buf' : List Byte}
      {what : String} (hl : buf'.length = buf.length) :
      Answers s (.minionRead i offset buf) (.error what, buf') s
  | writeFault {s : RAIDStorage μ τ g} {i : Fin g.numMinions} {offset : Nat} {buf : List Byte}
      {what : String} : Answers s (.minionWrite i offset buf) (.error what) s
  | saveFault {s : RAIDStorage μ τ g} {offset size : Nat} {what : String} (st : τ) :
      Answers s (.recordSize offset size) (.error what)
        { s with offsetSizes := s.offsetSizes.insert offset size, metadataStore := st }

/-- What an exchange can do to the objects: nothing, or what its call is for. A size is recorded even if the
metadata store throws. -/
inductive Effect (s : RAIDStorage μ τ g) :
    Exchange (RAIDCall g) RAIDCall.Answer → RAIDStorage μ τ g → Prop
  | none {e : Exchange (RAIDCall g) RAIDCall.Answer} (h : ∀ offset size, e.1 ≠ .recordSize offset size) :
      Effect s e s
  | minionWrite {i : Fin g.numMinions} {offset : Nat} {buf : List Byte} {a : Except String Unit}
      (h : (IStorageMinion.write (s.minions i) offset buf).1.answer? = some a) :
      Effect s ⟨.minionWrite i offset buf, a⟩
        (s.setMinion i (IStorageMinion.write (s.minions i) offset buf).2)
  | recordSize {offset size : Nat} {a : Except String Unit} (st : τ) :
      Effect s ⟨.recordSize offset size, a⟩
        { s with offsetSizes := s.offsetSizes.insert offset size, metadataStore := st }

theorem Answers.effect {s s' : RAIDStorage μ τ g} {o : RAIDCall g} {a : o.Answer} (h : Answers s o a s') :
    Effect s ⟨o, a⟩ s' := by
  cases h with
  | own h =>
    cases o with
    | minionRead i offset buf =>
      obtain ⟨a', -, he⟩ := Option.map_eq_some_iff.mp h
      obtain ⟨-, rfl⟩ := Prod.mk.inj he
      exact .none fun _ _ he => by cases he
    | minionWrite i offset buf =>
      obtain ⟨a', ha, he⟩ := Option.map_eq_some_iff.mp h
      obtain ⟨rfl, rfl⟩ := Prod.mk.inj he
      exact .minionWrite ha
    | recordSize offset size =>
      obtain ⟨a', -, he⟩ := Option.map_eq_some_iff.mp h
      obtain ⟨-, rfl⟩ := Prod.mk.inj he
      exact .recordSize _
    | getDataSize offset =>
      obtain ⟨-, rfl⟩ := Prod.mk.inj (Option.some.inj h)
      exact .none fun _ _ he => by cases he
    | listOffsets =>
      obtain ⟨-, rfl⟩ := Prod.mk.inj (Option.some.inj h)
      exact .none fun _ _ he => by cases he
  | readFault => exact .none fun _ _ he => by cases he
  | writeFault => exact .none fun _ _ he => by cases he
  | saveFault st => exact .recordSize st

/-- What the objects do by themselves is one of the ways things can go. -/
theorem steps_of_run {α : Type} {p : RAIDProg g α} {s s' : RAIDStorage μ τ g} {v : α}
    (h : p.run handler s = some (v, s')) : ∃ tr, Steps Answers p s tr (.ret v) s' :=
  Steps.of_run (h := handler) (fun _ _ _ _ => Answers.own) h

/-- `RAIDStorage::RAIDStorage`. -/
def new (minions : List μ) (metadataStore : τ) : Except String (Σ g, RAIDStorage μ τ g) :=
  if h₀ : minions.length = 0 then .error "RAIDStorage requires at least 2 minions"
  else if h₁ : minions.length % 2 ≠ 0 then
    .error "RAIDStorage requires an even number of minions"
  else if h₂ : minions.length / 2 = 0 then
    .error "RAIDStorage requires at least one primary minion"
  else .ok ⟨
    { numPrimary := minions.length / 2
      stripeSize := IStorageMinion.size (minions.get ⟨0, Nat.pos_of_ne_zero h₀⟩)
      numPrimary_pos := Nat.pos_of_ne_zero h₂ },
    { minions := fun i => minions.get ⟨i, by have := i.isLt; simp only [Geometry.numMinions] at this; omega⟩
      offsetSizes := IMetadataStore.load metadataStore
      metadataStore := metadataStore }⟩

/-- Built over copies of the minion `m`. -/
def fresh (m : μ) (metadataStore : τ) : RAIDStorage μ τ g where
  minions := fun _ => m
  offsetSizes := IMetadataStore.load metadataStore
  metadataStore := metadataStore

theorem new_eq (g : Geometry) (minions : List μ) (st : τ) (hl : minions.length = g.numMinions)
    (hm : ∀ h, IStorageMinion.size (minions.get ⟨0, h⟩) = g.stripeSize) :
    new minions st = .ok ⟨g,
      { minions := fun i => minions.get (i.cast hl.symm)
        offsetSizes := IMetadataStore.load st
        metadataStore := st }⟩ := by
  obtain ⟨P, S, hP⟩ := g
  change minions.length = 2 * P at hl
  obtain rfl : minions.length / 2 = P := by omega
  obtain rfl := hm (by omega)
  rw [new, dif_neg (by omega), dif_neg (by omega), dif_neg (by omega)]
  rfl

/-- A storage that could be built, and its sizes. -/
theorem new_inv {minions : List μ} {metadataStore : τ} {r : Σ g, RAIDStorage μ τ g}
    (h : new minions metadataStore = .ok r) :
    minions.length = r.1.numMinions ∧ ∃ m ∈ minions, IStorageMinion.size m = r.1.stripeSize := by
  rw [new] at h
  split at h
  · cases h
  split at h
  · cases h
  split at h
  · cases h
  obtain rfl := Except.ok.inj h
  refine ⟨?_, _, List.get_mem _ _, rfl⟩
  change minions.length = 2 * (minions.length / 2)
  omega

theorem new_replicate (g : Geometry) (m : μ) (st : τ) (hm : IStorageMinion.size m = g.stripeSize) :
    new (List.replicate g.numMinions m) st = .ok ⟨g, fresh m st⟩ := by
  rw [new_eq g _ st List.length_replicate (fun _ => by simpa using hm)]
  simp [fresh]

end Answers

/-! ## What one call can do -/

section Lawful

variable {μ τ : Type} [LawfulMinion μ]

/-- The memories of the minions. -/
def cells (s : RAIDStorage μ τ g) : Fin g.numMinions → Nat → Byte :=
  fun i => LawfulMinion.cells (s.minions i)

theorem cells_setMinion (s : RAIDStorage μ τ g) (i : Fin g.numMinions) (m : μ) :
    (s.setMinion i m).cells = Function.update s.cells i (LawfulMinion.cells m) := by
  funext j
  rcases eq_or_ne j i with rfl | hj
  · simp [cells, setMinion]
  · simp [cells, setMinion, hj]

/-- Every minion has the size of the first one. -/
def Sized (s : RAIDStorage μ τ g) : Prop :=
  ∀ i, IStorageMinion.size (s.minions i) = g.stripeSize

/-- Nothing but cells changes: neither a size nor the index nor the metadata store. -/
structure SameIndex (s s' : RAIDStorage μ τ g) : Prop where
  size : ∀ i, IStorageMinion.size (s'.minions i) = IStorageMinion.size (s.minions i)
  offsetSizes : s'.offsetSizes = s.offsetSizes
  metadataStore : s'.metadataStore = s.metadataStore

theorem SameIndex.refl (s : RAIDStorage μ τ g) : SameIndex s s := ⟨fun _ => rfl, rfl, rfl⟩

theorem SameIndex.trans {s s₁ s' : RAIDStorage μ τ g} (h₁ : SameIndex s s₁)
    (h₂ : SameIndex s₁ s') : SameIndex s s' :=
  ⟨fun i => (h₂.size i).trans (h₁.size i), h₂.offsetSizes.trans h₁.offsetSizes,
    h₂.metadataStore.trans h₁.metadataStore⟩

theorem SameIndex.sized {s s' : RAIDStorage μ τ g} (h : SameIndex s s') (hs : s.Sized) :
    s'.Sized := fun i => (h.size i).trans (hs i)

theorem SameIndex.setMinion (s : RAIDStorage μ τ g) (i : Fin g.numMinions) {m : μ}
    (hm : IStorageMinion.size m = IStorageMinion.size (s.minions i)) :
    SameIndex s (s.setMinion i m) := by
  refine ⟨fun j => ?_, rfl, rfl⟩
  rcases eq_or_ne j i with rfl | hj
  · simpa [RAIDStorage.setMinion] using hm
  · simp [RAIDStorage.setMinion, hj]

variable [IMetadataStore τ] {s s' : RAIDStorage μ τ g} {i : Fin g.numMinions} {offset size : Nat}
  {buf : List Byte}

/-- A `Write` of a minion stores its buffer, or throws and changes nothing. -/
theorem answers_minionWrite {a : Except String Unit}
    (h : Answers s (.minionWrite i offset buf) a s') :
    SameIndex s s' ∧
      ((a = .ok () ∧ offset + buf.length ≤ IStorageMinion.size (s.minions i) ∧
          s'.cells = Function.update s.cells i (store (s.cells i) offset buf)) ∨
        ∃ what, a = .error what ∧ s'.cells = s.cells) := by
  rcases h with h | _ | _ | _
  · obtain ⟨a', ha, he⟩ := Option.map_eq_some_iff.mp h
    obtain ⟨rfl, rfl⟩ := Prod.mk.inj he
    refine ⟨.setMinion s i (LawfulMinion.size_write _ _ _), ?_⟩
    rw [cells_setMinion]
    rcases a' with what | ⟨⟩
    · refine .inr ⟨what, rfl, ?_⟩
      -- a `Write` that throws has stored nothing
      have hc := LawfulMinion.write_throws _ _ _ _ (Outcome.answer?_eq_error.mp ha)
      rw [LawfulMinion.cells, hc]
      exact Function.update_eq_self i s.cells
    · have hok := Outcome.answer?_eq_ok.mp ha
      exact .inl ⟨rfl, (LawfulMinion.write_ok _ _ _ hok).1, by rw [LawfulMinion.cells_write hok]; rfl⟩
  · exact ⟨.refl s, .inr ⟨_, rfl, rfl⟩⟩

/-- A `Read` of a minion changes nothing; one that returns fills the buffer with its range. -/
theorem answers_minionRead {a : Except String Unit × List Byte}
    (h : Answers s (.minionRead i offset buf) a s') :
    s' = s ∧ a.2.length = buf.length ∧ (a.1 = .ok () → a.2 = load (s.cells i) offset buf.length) := by
  rcases h with h | hl
  · obtain ⟨a', ha, he⟩ := Option.map_eq_some_iff.mp h
    obtain ⟨rfl, rfl⟩ := Prod.mk.inj he
    refine ⟨rfl, LawfulMinion.length_read _ _ _, fun hok => ?_⟩
    obtain rfl : a' = .ok () := hok
    exact LawfulMinion.read_eq_load (Outcome.answer?_eq_ok.mp ha)
  · exact ⟨rfl, hl, fun hok => by cases hok⟩

/-- The critical section of `Write` records the size, whether or not `Save` throws. -/
theorem answers_recordSize {a : Except String Unit} (h : Answers s (.recordSize offset size) a s') :
    s'.minions = s.minions ∧ s'.offsetSizes = s.offsetSizes.insert offset size := by
  rcases h with h | _ | _ | _
  · obtain ⟨a', ha, he⟩ := Option.map_eq_some_iff.mp h
    obtain ⟨rfl, rfl⟩ := Prod.mk.inj he
    exact ⟨rfl, rfl⟩
  · exact ⟨rfl, rfl⟩

end Lawful

end RAIDStorage

end LDS
