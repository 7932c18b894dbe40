import LDS.Library.Service
import LDS.Storage.RAIDStorage

/-!
# Storages

A storage is what a mediator serves requests from: `RAIDStorage`, or `LocalStorage`, one array under
one lock. Its members are programs; an exception that leaves one of them is its result.

## Main definitions

* `IStorage Op Ans`: the interface
* `RAIDStorage.toIStorage g`, `LocalStorage.toIStorage`: the two storages
* `IStorage.serve`: the program of one request

## Main results

* `LocalStorage.read_cases`, `LocalStorage.write_cases`: the outcomes of a call
-/

namespace LDS

open Memory

/-- `IStorage`. A result `.error` is an exception. -/
structure IStorage (Op : Type) (Ans : Op → Type) where
  read : DriverData → Prog Op Ans (Except String DriverData)
  write : DriverData → Prog Op Ans (Except String DriverData)
  getDataSize : Nat → Prog Op Ans Nat
  listOffsets : Prog Op Ans (List (Nat × Nat))

/-- `RAIDStorage` catches the exceptions of its minions. -/
def RAIDStorage.toIStorage (g : Geometry) : IStorage (RAIDCall g) RAIDCall.Answer where
  read data := do return .ok (← RAIDStorage.read g data)
  write data := do return .ok (← RAIDStorage.write g data)
  getDataSize := RAIDStorage.getDataSize
  listOffsets := RAIDStorage.listOffsets

/-! ## `LocalStorage` -/

/-- `LocalStorage`. -/
structure LocalStorage where
  storage : List Byte
  offsetSizes : SizeMap

/-- The members of `LocalStorage`; each runs under `m_lock`. -/
inductive LocalCall
  | read (data : DriverData)
  | write (data : DriverData)
  | getDataSize (offset : Nat)
  | listOffsets

/-- What a member returns. -/
abbrev LocalCall.Answer : LocalCall → Type
  | read _ => Except String DriverData
  | write _ => Except String DriverData
  | getDataSize _ => Nat
  | listOffsets => List (Nat × Nat)

namespace LocalStorage

/-- `LocalStorage::LocalStorage`. -/
def new (size : Nat) : LocalStorage where
  storage := List.replicate size 0
  offsetSizes := ∅

/-- `LocalStorage::Read`. A copy from outside `m_storage` is undefined. -/
def read (ls : LocalStorage) (data : DriverData) : Outcome DriverData :=
  if addSize data.offset data.buffer.length > ls.storage.length then
    .throws "Read exceeds storage bounds"
  else if data.offset + data.buffer.length ≤ ls.storage.length then
    .ok { data with buffer := slice ls.storage data.offset data.buffer.length }
  else .undefined

/-- `LocalStorage::Write`. A copy to outside `m_storage` is undefined. -/
def write (ls : LocalStorage) (data : DriverData) : Outcome LocalStorage :=
  if addSize data.offset data.buffer.length > ls.storage.length then
    .throws "Write exceeds storage bounds"
  else if data.offset + data.buffer.length ≤ ls.storage.length then
    .ok { storage := overwrite ls.storage data.offset data.buffer
          offsetSizes := ls.offsetSizes.insert data.offset data.buffer.length }
  else .undefined

/-- `LocalStorage::GetDataSize`. -/
def getDataSize (ls : LocalStorage) (offset : Nat) : Nat := ls.offsetSizes[offset]?.getD 0

/-- `LocalStorage::ListOffsets`. -/
def listOffsets (ls : LocalStorage) : List (Nat × Nat) := ls.offsetSizes.toList

/-- What the members do. -/
def handler : Prog.Handler LocalCall LocalCall.Answer LocalStorage
  | .read data, ls => match read ls data with
    | .ok data' => some (.ok data', ls)
    | .throws what => some (.error what, ls)
    | .undefined => none
  | .write data, ls => match write ls data with
    | .ok ls' => some (.ok data, ls')
    | .throws what => some (.error what, ls)
    | .undefined => none
  | .getDataSize offset, ls => some (getDataSize ls offset, ls)
  | .listOffsets, ls => some (listOffsets ls, ls)

/-- `LocalStorage` lets the exceptions of its members through. -/
def toIStorage : IStorage LocalCall LocalCall.Answer where
  read data := .call (LocalCall.read data) .ret
  write data := .call (LocalCall.write data) .ret
  getDataSize offset := .call (LocalCall.getDataSize offset) .ret
  listOffsets := .call LocalCall.listOffsets .ret

variable {ls : LocalStorage} {data : DriverData}

/-- A `Read` throws at the guard, leaves the array, or fills the buffer. -/
theorem read_cases (ls : LocalStorage) (data : DriverData) :
    (ls.storage.length < addSize data.offset data.buffer.length ∧
      read ls data = .throws "Read exceeds storage bounds") ∨
    (addSize data.offset data.buffer.length ≤ ls.storage.length ∧
      ls.storage.length < data.offset + data.buffer.length ∧ read ls data = .undefined) ∨
    (addSize data.offset data.buffer.length ≤ ls.storage.length ∧
      data.offset + data.buffer.length ≤ ls.storage.length ∧
      read ls data =
        .ok { data with buffer := slice ls.storage data.offset data.buffer.length }) := by
  by_cases hg : addSize data.offset data.buffer.length > ls.storage.length
  · exact .inl ⟨hg, if_pos hg⟩
  by_cases h : data.offset + data.buffer.length ≤ ls.storage.length
  · exact .inr (.inr ⟨by omega, h, by rw [read, if_neg hg, if_pos h]⟩)
  · exact .inr (.inl ⟨by omega, by omega, by rw [read, if_neg hg, if_neg h]⟩)

/-- A `Write` throws at the guard, leaves the array, or stores the buffer. -/
theorem write_cases (ls : LocalStorage) (data : DriverData) :
    (ls.storage.length < addSize data.offset data.buffer.length ∧
      write ls data = .throws "Write exceeds storage bounds") ∨
    (addSize data.offset data.buffer.length ≤ ls.storage.length ∧
      ls.storage.length < data.offset + data.buffer.length ∧ write ls data = .undefined) ∨
    (addSize data.offset data.buffer.length ≤ ls.storage.length ∧
      data.offset + data.buffer.length ≤ ls.storage.length ∧
      write ls data = .ok
        { storage := overwrite ls.storage data.offset data.buffer
          offsetSizes := ls.offsetSizes.insert data.offset data.buffer.length }) := by
  by_cases hg : addSize data.offset data.buffer.length > ls.storage.length
  · exact .inl ⟨hg, if_pos hg⟩
  by_cases h : data.offset + data.buffer.length ≤ ls.storage.length
  · exact .inr (.inr ⟨by omega, h, by rw [write, if_neg hg, if_pos h]⟩)
  · exact .inr (.inl ⟨by omega, by omega, by rw [write, if_neg hg, if_neg h]⟩)

end LocalStorage

/-! ## What a storage leaves alone -/

/-- The request is the same, whatever has become of its buffer and status. -/
structure SameRequest (data data' : DriverData) : Prop where
  type : data'.type = data.type
  handle : data'.handle = data.handle
  offset : data'.offset = data.offset
  sourceFd : data'.sourceFd = data.sourceFd

/-- A storage whose calls are answered as `A` says gives back the request it was given. -/
structure IStorage.Keeps {Op : Type} {Ans : Op → Type} (S : IStorage Op Ans)
    (A : (o : Op) → Ans o → Prop) : Prop where
  read : ∀ data, Prog.Obeys (.plain A (fun _ => True) True)
    (fun _ r => ∀ data', r = .ok data' → SameRequest data data') () (S.read data)
  write : ∀ data, Prog.Obeys (.plain A (fun _ => True) True)
    (fun _ r => ∀ data', r = .ok data' → SameRequest data data') () (S.write data)

theorem RAIDStorage.keeps (g : Geometry) : (RAIDStorage.toIStorage g).Keeps fun _ _ => True where
  read data := by
    -- whatever the loop does, the reply has the fields of the request
    have hread : Prog.Obeys (.plain (fun _ _ => True) (fun _ => True) True)
        (fun _ data' => SameRequest data data') () (RAIDStorage.read g data) := by
      refine Prog.Obeys.bind (Q := fun _ _ => True) (.of_allowed (fun _ _ => trivial) trivial
        fun _ _ => trivial) ?_
      rintro _ ⟨what | ⟨⟩, buffer⟩ - <;> exact .ret ⟨rfl, rfl, rfl, rfl⟩
    exact hread.bind fun _ _ h => .ret fun _ hd => Except.ok.inj hd ▸ h
  write data := by
    have hwrite : Prog.Obeys (.plain (fun _ _ => True) (fun _ => True) True)
        (fun _ data' => SameRequest data data') () (RAIDStorage.write g data) := by
      refine Prog.Obeys.bind (Q := fun _ _ => True) (.of_allowed (fun _ _ => trivial) trivial
        fun _ _ => trivial) ?_
      rintro _ (what | ⟨⟩) -
      · exact .ret ⟨rfl, rfl, rfl, rfl⟩
      · refine .call trivial ?_
        rintro (what | ⟨⟩) - <;> exact .ret ⟨rfl, rfl, rfl, rfl⟩
    exact hwrite.bind fun _ _ h => .ret fun _ hd => Except.ok.inj hd ▸ h

/-- What `LocalStorage` answers. -/
def LocalStorage.Answered : (o : LocalCall) → o.Answer → Prop
  | .read data, a => ∀ data', a = .ok data' → SameRequest data data'
  | .write data, a => ∀ data', a = .ok data' → SameRequest data data'
  | _, _ => True

theorem LocalStorage.keeps : LocalStorage.toIStorage.Keeps LocalStorage.Answered where
  read _ := .call trivial fun _ ha => .ret ha
  write _ := .call trivial fun _ ha => .ret ha

/-- A `Read` that succeeds leaves as many bytes in the buffer as were asked for. -/
structure IStorage.Fills {Op : Type} {Ans : Op → Type} (S : IStorage Op Ans)
    (A : (o : Op) → Ans o → Prop) : Prop where
  read : ∀ data : DriverData, data.buffer.length = data.len →
    Prog.Obeys (.plain A (fun _ => True) True) (fun _ r => ∀ data', r = .ok data' →
      data'.status = .success → data'.buffer.length = data.len) () (S.read data)

/-- What the calls of a `RAIDStorage` answer: a `Read` of a minion keeps the length of its buffer. -/
def RAIDStorage.Answered {g : Geometry} : (o : RAIDCall g) → o.Answer → Prop
  | .minionRead _ _ buf, a => a.2.length = buf.length
  | _, _ => True

/-- The loop of `Read` stays inside its buffer. -/
theorem RAIDStorage.obeys_readLoop {g : Geometry} (offset remaining bufPos : Nat)
    (buffer : List Byte) (h : bufPos + remaining ≤ buffer.length) :
    Prog.Obeys (.plain RAIDStorage.Answered (fun _ => True) True)
      (fun _ r => r.2.length = buffer.length) ()
      (RAIDStorage.readLoop g offset remaining bufPos buffer) := by
  induction remaining using Nat.strong_induction_on generalizing offset bufPos buffer with
  | _ remaining ih =>
    rw [readLoop]
    split
    · rename_i hr
      split
      · exact .abort trivial
      · rename_i hS
        -- one chunk, read from either copy
        have hle := g.chunkLen_le offset remaining
        have hnext : ∀ tempBuf : List Byte, tempBuf.length = g.chunkLen offset remaining →
            Prog.Obeys (.plain RAIDStorage.Answered (fun _ => True) True)
              (fun _ r => r.2.length = buffer.length) ()
              (readLoop g (addSize offset (g.chunkLen offset remaining))
                (remaining - g.chunkLen offset remaining) (bufPos + g.chunkLen offset remaining)
                (overwrite buffer bufPos tempBuf)) := fun tempBuf ht => by
          have hl : (overwrite buffer bufPos tempBuf).length = buffer.length :=
            length_overwrite (by omega)
          rw [← hl]
          exact ih _ (Geometry.sub_chunkLen_lt hr hS) _ _ _ (by omega)
        refine .call trivial ?_
        rintro ⟨what | ⟨⟩, tempBuf⟩ ha
        · refine .call trivial ?_
          rintro ⟨what | ⟨⟩, tempBuf'⟩ ha'
          · exact .ret rfl
          · exact hnext _ (ha'.trans (ha.trans List.length_replicate))
        · exact hnext _ (ha.trans List.length_replicate)
    · exact .ret rfl

theorem RAIDStorage.fills (g : Geometry) : (RAIDStorage.toIStorage g).Fills Answered where
  read data hl := by
    have hresize := length_readBuffer data
    refine Prog.Obeys.bind (Q := fun _ data' => data'.buffer.length = data.len) ?_
      fun _ _ h => .ret fun _ hd _ => Except.ok.inj hd ▸ h
    refine (obeys_readLoop data.offset data.len 0 _ (by omega)).bind ?_
    rintro _ ⟨what | ⟨⟩, buffer⟩ h <;> exact .ret (h.trans hresize)

/-- What `LocalStorage` answers to a `Read`: a buffer of the length it was given. -/
def LocalStorage.Fitted : (o : LocalCall) → o.Answer → Prop
  | .read data, a => ∀ data', a = .ok data' → data'.buffer.length = data.buffer.length
  | _, _ => True

theorem LocalStorage.fills : LocalStorage.toIStorage.Fills LocalStorage.Fitted where
  read _ hl := .call trivial fun _ ha => .ret fun data' hd _ => (ha data' hd).trans hl

/-! ## Requests -/

/-- A request to a storage. -/
inductive Request
  | read (handle offset len : Nat)
  | write (handle offset : Nat) (buffer : List Byte)
  | getDataSize (offset : Nat)
  | listOffsets

/-- What a request gets. -/
inductive Response
  | read (status : StatusType) (buffer : List Byte)
  | write (status : StatusType)
  | dataSize (size : Nat)
  | offsets (entries : List (Nat × Nat))
  | threw (what : String)
  deriving DecidableEq

/-- The `DriverData` of a `READ`. -/
def DriverData.ofRead (handle offset len : Nat) : DriverData := .new .read handle offset len

/-- The `DriverData` of a `WRITE`, with its payload. -/
def DriverData.ofWrite (handle offset : Nat) (buffer : List Byte) : DriverData :=
  { DriverData.new .write handle offset buffer.length with buffer := buffer }

/-- The program of one request. -/
def IStorage.serve {Op : Type} {Ans : Op → Type} (S : IStorage Op Ans) :
    Request → Prog Op Ans Response
  | .read handle offset len => do
    match ← S.read (.ofRead handle offset len) with
    | .ok data => return .read data.status data.buffer
    | .error what => return .threw what
  | .write handle offset buffer => do
    match ← S.write (.ofWrite handle offset buffer) with
    | .ok data => return .write data.status
    | .error what => return .threw what
  | .getDataSize offset => do return .dataSize (← S.getDataSize offset)
  | .listOffsets => do return .offsets (← S.listOffsets)

end LDS
