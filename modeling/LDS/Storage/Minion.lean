import LDS.Library.Memory
import LDS.Storage.DriverData

/-!
# Minions

A minion is one of the arrays a `RAIDStorage` is built over. The RAID layer knows it through
`IStorageMinion` only; what its proofs need of a minion is `LawfulMinion`: there are contents, a
call that returns moved exactly the range asked for, and a call that throws changed nothing.

## Main definitions

* `IStorageMinion`: the interface
* `LawfulMinion`: a minion with its contents
* `GuardsBounds μ astray`: the ranges outside its bounds that a minion throws at
* `StorageMinionMemory`: the in-memory minion

## Main results

* `StorageMinionMemory.write_undefined_iff`, `StorageMinionMemory.read_undefined_iff`: the bounds
  guard lets a copy outside the array through exactly when the end of the range wraps to it
* the instance `LawfulMinion StorageMinionMemory`
-/

namespace LDS

open Memory

/-- `IStorageMinion`. `read` returns the caller's buffer as the call leaves it. -/
class IStorageMinion (μ : Type) where
  read : μ → Nat → List Byte → Outcome Unit × List Byte
  write : μ → Nat → List Byte → Outcome Unit × μ
  getDataSize : μ → Nat → Nat
  size : μ → Nat

/-- A minion with contents. -/
class LawfulMinion (μ : Type) extends IStorageMinion μ where
  contents : μ → List Byte
  length_contents : ∀ m, (contents m).length = size m
  size_write : ∀ m a buf, size (write m a buf).2 = size m
  write_ok : ∀ m a buf, (write m a buf).1 = .ok () →
    a + buf.length ≤ size m ∧ contents (write m a buf).2 = overwrite (contents m) a buf
  write_throws : ∀ m a buf what, (write m a buf).1 = .throws what →
    contents (write m a buf).2 = contents m
  write_fits : ∀ m a buf, a + buf.length ≤ size m → size m < 2 ^ 64 → (write m a buf).1 = .ok ()
  length_read : ∀ m a buf, (read m a buf).2.length = buf.length
  read_ok : ∀ m a buf, (read m a buf).1 = .ok () →
    a + buf.length ≤ size m ∧ (read m a buf).2 = slice (contents m) a buf.length
  read_fits : ∀ m a buf, a + buf.length ≤ size m → size m < 2 ^ 64 → (read m a buf).1 = .ok ()

namespace LawfulMinion

variable {μ : Type} [LawfulMinion μ]

/-- The memory of a minion. -/
def cells (m : μ) : Nat → Byte := view 0 (contents m)

/-- A `Write` that returns stores its buffer. -/
theorem cells_write {m : μ} {a : Nat} {buf : List Byte}
    (h : (IStorageMinion.write m a buf).1 = .ok ()) :
    cells (IStorageMinion.write m a buf).2 = store (cells m) a buf := by
  obtain ⟨hfit, hc⟩ := write_ok m a buf h
  rw [cells, hc, view_overwrite (by rwa [length_contents]), cells]

/-- A `Read` that returns fills its buffer with the range. -/
theorem read_eq_load {m : μ} {a : Nat} {buf : List Byte}
    (h : (IStorageMinion.read m a buf).1 = .ok ()) :
    (IStorageMinion.read m a buf).2 = load (cells m) a buf.length := by
  obtain ⟨hfit, hc⟩ := read_ok m a buf h
  rw [hc, slice_eq_load (by rwa [length_contents]), cells]

/-- Minions of one size with the same memory have the same contents. -/
theorem contents_eq_of_cells {m m' : μ} (hs : IStorageMinion.size m = IStorageMinion.size m')
    (h : cells m = cells m') : contents m = contents m' :=
  eq_of_view (by rw [length_contents, length_contents, hs]) h

end LawfulMinion

/-- What a minion does about a range that it does not have: it throws, unless the range goes `astray`. -/
structure GuardsBounds (μ : Type) [LawfulMinion μ] (astray : Nat → Nat → Nat → Prop) : Prop where
  write_undefined : ∀ (m : μ) a buf, IStorageMinion.size m < a + buf.length →
    astray (IStorageMinion.size m) a buf.length → (IStorageMinion.write m a buf).1 = .undefined
  write_throws : ∀ (m : μ) a buf, IStorageMinion.size m < a + buf.length →
    ¬ astray (IStorageMinion.size m) a buf.length →
    ∃ what, IStorageMinion.write m a buf = (.throws what, m)
  read_undefined : ∀ (m : μ) a buf, IStorageMinion.size m < a + buf.length →
    astray (IStorageMinion.size m) a buf.length → (IStorageMinion.read m a buf).1 = .undefined
  read_throws : ∀ (m : μ) a buf, IStorageMinion.size m < a + buf.length →
    ¬ astray (IStorageMinion.size m) a buf.length →
    ∃ what, (IStorageMinion.read m a buf).1 = .throws what

/-! ## The in-memory minion -/

/-- What the caller sees of a call: nothing can be said of an undefined one. -/
def Outcome.answer? : Outcome Unit → Option (Except String Unit)
  | .ok () => some (.ok ())
  | .throws what => some (.error what)
  | .undefined => none

theorem Outcome.answer?_eq_ok {o : Outcome Unit} : o.answer? = some (.ok ()) ↔ o = .ok () := by
  cases o <;> simp [answer?]

theorem Outcome.answer?_eq_error {o : Outcome Unit} {what : String} :
    o.answer? = some (.error what) ↔ o = .throws what := by
  cases o <;> simp [answer?]

theorem Outcome.answer?_eq_none {o : Outcome Unit} : o.answer? = none ↔ o = .undefined := by
  cases o <;> simp [answer?]

/-- `StorageMinionMemory`. -/
structure StorageMinionMemory where
  size : Nat
  data : List Byte
  offsetSizes : SizeMap
  length_data : data.length = size

namespace StorageMinionMemory

/-- `StorageMinionMemory::StorageMinionMemory`. -/
def new (sizeBytes : Nat := 5 * 1024 * 1024) : StorageMinionMemory where
  size := sizeBytes
  data := List.replicate sizeBytes 0
  offsetSizes := ∅
  length_data := List.length_replicate

/-- `StorageMinionMemory::Read`. A copy from outside `m_data` is undefined. -/
def read (m : StorageMinionMemory) (offset : Nat) (buf : List Byte) : Outcome Unit × List Byte :=
  if addSize offset buf.length > m.size then (.throws "Read exceeds minion bounds", buf)
  else if offset + buf.length ≤ m.data.length then (.ok (), slice m.data offset buf.length)
  else (.undefined, buf)

/-- The copy and the record of a `Write`. -/
def copyIn (m : StorageMinionMemory) (offset : Nat) (buf : List Byte)
    (h : offset + buf.length ≤ m.data.length) : StorageMinionMemory where
  size := m.size
  data := overwrite m.data offset buf
  offsetSizes := m.offsetSizes.insert offset buf.length
  length_data := (length_overwrite h).trans m.length_data

/-- `StorageMinionMemory::Write`. A copy to outside `m_data` is undefined. -/
def write (m : StorageMinionMemory) (offset : Nat) (buf : List Byte) :
    Outcome Unit × StorageMinionMemory :=
  if addSize offset buf.length > m.size then (.throws "Write exceeds minion bounds", m)
  else if h : offset + buf.length ≤ m.data.length then (.ok (), m.copyIn offset buf h)
  else (.undefined, m)

/-- `StorageMinionMemory::GetDataSize`. -/
def getDataSize (m : StorageMinionMemory) (offset : Nat) : Nat := m.offsetSizes[offset]?.getD 0

instance : IStorageMinion StorageMinionMemory where
  read := read
  write := write
  getDataSize := getDataSize
  size := size

variable {m : StorageMinionMemory} {offset : Nat} {buf : List Byte}

/-- A `Write` throws at the guard, leaves the array, or stores its buffer. -/
theorem write_cases (m : StorageMinionMemory) (offset : Nat) (buf : List Byte) :
    (m.size < addSize offset buf.length ∧
      write m offset buf = (.throws "Write exceeds minion bounds", m)) ∨
    (addSize offset buf.length ≤ m.size ∧ m.size < offset + buf.length ∧
      write m offset buf = (.undefined, m)) ∨
    ∃ h, addSize offset buf.length ≤ m.size ∧ offset + buf.length ≤ m.size ∧
      write m offset buf = (.ok (), m.copyIn offset buf h) := by
  have hl := m.length_data
  by_cases hg : addSize offset buf.length > m.size
  · exact .inl ⟨hg, if_pos hg⟩
  by_cases h : offset + buf.length ≤ m.data.length
  · exact .inr (.inr ⟨h, by omega, by omega, by rw [write, if_neg hg, dif_pos h]⟩)
  · exact .inr (.inl ⟨by omega, by omega, by rw [write, if_neg hg, dif_neg h]⟩)

/-- A `Read` throws at the guard, leaves the array, or fills its buffer. -/
theorem read_cases (m : StorageMinionMemory) (offset : Nat) (buf : List Byte) :
    (m.size < addSize offset buf.length ∧
      read m offset buf = (.throws "Read exceeds minion bounds", buf)) ∨
    (addSize offset buf.length ≤ m.size ∧ m.size < offset + buf.length ∧
      read m offset buf = (.undefined, buf)) ∨
    (addSize offset buf.length ≤ m.size ∧ offset + buf.length ≤ m.size ∧
      read m offset buf = (.ok (), slice m.data offset buf.length)) := by
  have hl := m.length_data
  by_cases hg : addSize offset buf.length > m.size
  · exact .inl ⟨hg, if_pos hg⟩
  by_cases h : offset + buf.length ≤ m.data.length
  · exact .inr (.inr ⟨by omega, by omega, by rw [read, if_neg hg, if_pos h]⟩)
  · exact .inr (.inl ⟨by omega, by omega, by rw [read, if_neg hg, if_neg h]⟩)

/-- The guard of `Write` passes, and the copy leaves the array. -/
theorem write_undefined_iff : (write m offset buf).1 = .undefined ↔
    addSize offset buf.length ≤ m.size ∧ m.size < offset + buf.length := by
  rcases write_cases m offset buf with ⟨hg, h⟩ | ⟨hg, hl, h⟩ | ⟨_, hg, hl, h⟩ <;> rw [h]
  · simp; omega
  · simp [hg, hl]
  · simp; omega

/-- The guard of `Read` passes, and the copy leaves the array. -/
theorem read_undefined_iff : (read m offset buf).1 = .undefined ↔
    addSize offset buf.length ≤ m.size ∧ m.size < offset + buf.length := by
  rcases read_cases m offset buf with ⟨hg, h⟩ | ⟨hg, hl, h⟩ | ⟨hg, hl, h⟩ <;> rw [h]
  · simp; omega
  · simp [hg, hl]
  · simp; omega

instance : LawfulMinion StorageMinionMemory where
  contents := data
  length_contents := length_data
  size_write m a buf := by
    change (write m a buf).2.size = m.size
    rcases write_cases m a buf with ⟨-, h⟩ | ⟨-, -, h⟩ | ⟨_, -, -, h⟩
    · rw [h]
    · rw [h]
    · rw [h, copyIn]
  write_ok m a buf hok := by
    change (write m a buf).1 = .ok () at hok
    change a + buf.length ≤ m.size ∧ (write m a buf).2.data = overwrite m.data a buf
    rcases write_cases m a buf with ⟨-, h⟩ | ⟨-, -, h⟩ | ⟨_, -, hl, h⟩ <;> rw [h] at hok ⊢
    · cases hok
    · cases hok
    · exact ⟨hl, rfl⟩
  write_throws m a buf what ht := by
    change (write m a buf).1 = .throws what at ht
    change (write m a buf).2.data = m.data
    rcases write_cases m a buf with ⟨-, h⟩ | ⟨-, -, h⟩ | ⟨_, -, -, h⟩
    · rw [h]
    · rw [h]
    · rw [h] at ht
      cases ht
  write_fits m a buf hl hm := by
    change (write m a buf).1 = .ok ()
    have hg := not_addSize_gt hl hm
    rcases write_cases m a buf with ⟨hg', -⟩ | ⟨-, hl', -⟩ | ⟨_, -, -, h⟩
    · exact absurd hg' hg
    · exact absurd hl (Nat.not_le_of_lt hl')
    · rw [h]
  length_read m a buf := by
    change (read m a buf).2.length = buf.length
    rcases read_cases m a buf with ⟨-, h⟩ | ⟨-, -, h⟩ | ⟨-, hl, h⟩ <;> rw [h]
    exact length_slice (by rwa [m.length_data])
  read_ok m a buf hok := by
    change (read m a buf).1 = .ok () at hok
    change a + buf.length ≤ m.size ∧ (read m a buf).2 = slice m.data a buf.length
    rcases read_cases m a buf with ⟨-, h⟩ | ⟨-, -, h⟩ | ⟨-, hl, h⟩ <;> rw [h] at hok ⊢
    · cases hok
    · cases hok
    · exact ⟨hl, rfl⟩
  read_fits m a buf hl hm := by
    change (read m a buf).1 = .ok ()
    have hg := not_addSize_gt hl hm
    rcases read_cases m a buf with ⟨hg', -⟩ | ⟨-, hl', -⟩ | ⟨-, -, h⟩
    · exact absurd hg' hg
    · exact absurd hl (Nat.not_le_of_lt hl')
    · rw [h]

/-- The guard lets a range through whose end wraps to the array. -/
theorem guardsBounds : GuardsBounds StorageMinionMemory fun S a n => addSize a n ≤ S where
  write_undefined _ _ _ hout hw := write_undefined_iff.mpr ⟨hw, hout⟩
  write_throws _ _ _ _ hw := ⟨_, if_pos (Nat.lt_of_not_le hw)⟩
  read_undefined _ _ _ hout hw := read_undefined_iff.mpr ⟨hw, hout⟩
  read_throws _ _ _ _ hw := ⟨_, congrArg Prod.fst (if_pos (Nat.lt_of_not_le hw))⟩

end StorageMinionMemory

end LDS
