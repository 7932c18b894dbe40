import LDS.Storage.Minion

/-!
# The file minion

`StorageMinionFile` keeps its bytes in an image file and moves them with one `pread` or `pwrite` a
call. The kernel moves at most `maxTransfer` bytes in one call, so the minion is lawful as long as
its image is whole and no larger than that.

## Main definitions

* `pread`, `pwrite`: the system calls on the image, without I/O errors
* `StorageMinionFile`: the minion
* `StorageMinionFile.Transfers`: the system calls move all that they are asked to
* `StorageMinionFile.Whole`: the image has the size of the minion, and one call can move it

## Main results

* `StorageMinionFile.Transfers.lawfulMinion`: complete transfers make minions lawful
* the instance `LawfulMinion` on whole minions
* `StorageMinionFile.new_reopen`: opening an image again gives its bytes back
-/

namespace LDS

open Memory

/-! ## The system calls -/

/-- The number of bytes that Linux moves in one `read` or `write`, at most. -/
def maxTransfer : Nat := 0x7ffff000

/-- `pread`: the bytes moved, or an error when the range is beyond the largest file offset. -/
def pread (image : List Byte) (count offset : Nat) : Option (List Byte) :=
  if 2 ^ 63 ≤ offset + count then none
  else some (slice image offset (min count maxTransfer))

/-- `pwrite`: the number of bytes moved and the new image, or an error when the range is beyond the
largest file offset. A gap before `offset` is filled with zeros. -/
def pwrite (image buf : List Byte) (offset : Nat) : Option (Nat × List Byte) :=
  if 2 ^ 63 ≤ offset + buf.length then none
  else
    let moved := buf.take maxTransfer
    if moved = [] then some (0, image)
    else some (moved.length,
      overwrite (image ++ List.replicate (offset - image.length) 0) offset moved)

variable {image buf : List Byte} {offset count : Nat}

/-- A range that one call can move is read whole. -/
theorem pread_eq (h : offset + count ≤ maxTransfer) :
    pread image count offset = some (slice image offset count) := by
  rw [maxTransfer] at h
  rw [pread, if_neg (by omega), Nat.min_eq_left (by rw [maxTransfer]; omega)]

/-- A range of the image that one call can move is written whole. -/
theorem pwrite_eq (h : offset + buf.length ≤ image.length) (hm : image.length ≤ maxTransfer) :
    pwrite image buf offset = some (buf.length, overwrite image offset buf) := by
  have ht : buf.take maxTransfer = buf := List.take_of_length_le (by omega)
  rw [maxTransfer] at hm
  rw [pwrite, if_neg (by omega)]
  simp only [ht]
  split
  · rename_i hb
    rw [hb, overwrite_nil]
    rfl
  · rw [Nat.sub_eq_zero_of_le (by omega), List.replicate_zero, List.append_nil]

/-! ## The minion -/

/-- `StorageMinionFile`, with the bytes of its file. -/
structure StorageMinionFile where
  filePath : String
  size : Nat
  image : List Byte
  offsetSizes : SizeMap

namespace StorageMinionFile

/-- `StorageMinionFile::StorageMinionFile`, where `content` is what the file holds: nothing when it
was just created. `ftruncate` fails on a size that is no file offset. -/
def new (filePath : String) (content : List Byte) (sizeBytes : Nat) :
    Except String StorageMinionFile :=
  if content = [] then
    if 2 ^ 63 ≤ sizeBytes then .error ("Failed to allocate file: " ++ filePath)
    else .ok ⟨filePath, sizeBytes, List.replicate sizeBytes 0, ∅⟩
  else .ok ⟨filePath, sizeBytes, content, ∅⟩

/-- `StorageMinionFile::Read`, over the system call `pread`. -/
def readBy (pread : List Byte → Nat → Nat → Option (List Byte)) (m : StorageMinionFile) (offset : Nat)
    (buf : List Byte) : Outcome Unit × List Byte :=
  if addSize offset buf.length > m.size then (.throws "Read exceeds minion bounds", buf)
  else match pread m.image buf.length offset with
    | none => (.throws "pread failed", buf)
    | some bytes =>
      let buf' := bytes ++ buf.drop bytes.length
      if bytes.length ≠ buf.length then
        (.throws "pread returned fewer bytes than requested", buf')
      else (.ok (), buf')

/-- `StorageMinionFile::Write`, over the system call `pwrite`. -/
def writeBy (pwrite : List Byte → List Byte → Nat → Option (Nat × List Byte)) (m : StorageMinionFile)
    (offset : Nat) (buf : List Byte) : Outcome Unit × StorageMinionFile :=
  if addSize offset buf.length > m.size then (.throws "Write exceeds minion bounds", m)
  else match pwrite m.image buf offset with
    | none => (.throws "pwrite failed", m)
    | some (n, image) =>
      if n ≠ buf.length then
        (.throws "pwrite wrote fewer bytes than requested", { m with image := image })
      else
        (.ok (), { m with image := image, offsetSizes := m.offsetSizes.insert offset buf.length })

/-- `StorageMinionFile::Read`, on Linux. -/
def read (m : StorageMinionFile) (offset : Nat) (buf : List Byte) : Outcome Unit × List Byte :=
  readBy pread m offset buf

/-- `StorageMinionFile::Write`, on Linux. -/
def write (m : StorageMinionFile) (offset : Nat) (buf : List Byte) : Outcome Unit × StorageMinionFile :=
  writeBy pwrite m offset buf

/-- `StorageMinionFile::GetDataSize`. -/
def getDataSize (m : StorageMinionFile) (offset : Nat) : Nat := m.offsetSizes[offset]?.getD 0

instance : IStorageMinion StorageMinionFile where
  read := read
  write := write
  getDataSize := getDataSize
  size := size

/-! ## Complete transfers -/

/-- On the images of the minions in `P` the system calls move all that they are asked to; they fail beyond the
largest file offset. -/
structure Transfers (pread : List Byte → Nat → Nat → Option (List Byte))
    (pwrite : List Byte → List Byte → Nat → Option (Nat × List Byte)) (P : StorageMinionFile → Prop) : Prop where
  length_image : ∀ m, P m → m.image.length = m.size
  size_lt : ∀ m, P m → m.size < 2 ^ 63
  keeps : ∀ m image sizes, P m → image.length = m.size → P { m with image := image, offsetSizes := sizes }
  pread_eq : ∀ m offset count, P m → offset + count ≤ m.size →
    pread m.image count offset = some (slice m.image offset count)
  pread_none : ∀ image offset count, 2 ^ 63 ≤ offset + count → pread image count offset = none
  pwrite_eq : ∀ m offset buf, P m → offset + buf.length ≤ m.size →
    pwrite m.image buf offset = some (buf.length, overwrite m.image offset buf)
  pwrite_none : ∀ image offset (buf : List Byte), 2 ^ 63 ≤ offset + buf.length → pwrite image buf offset = none

namespace Transfers

variable {pread : List Byte → Nat → Nat → Option (List Byte)}
  {pwrite : List Byte → List Byte → Nat → Option (Nat × List Byte)} {P : StorageMinionFile → Prop}
  {m : StorageMinionFile}

/-- A range beyond the end is stopped by the guard, or is no range of a file. -/
theorem guarded (h : Transfers pread pwrite P) (hm : P m) {n : Nat} (hout : m.size < offset + n)
    (hg : ¬ addSize offset n > m.size) : 2 ^ 63 ≤ offset + n := by
  by_contra hn
  have hs := h.size_lt m hm
  exact absurd (le_of_not_addSize_gt hg (by omega)) (Nat.not_le_of_lt hout)

/-- A `Write` throws and changes nothing, or stores its buffer. -/
theorem write_cases (h : Transfers pread pwrite P) (hm : P m) (offset : Nat) (buf : List Byte) :
    (m.size < offset + buf.length ∧ ∃ what, writeBy pwrite m offset buf = (.throws what, m)) ∨
    (offset + buf.length ≤ m.size ∧ writeBy pwrite m offset buf = (.ok (), { m with
      image := overwrite m.image offset buf
      offsetSizes := m.offsetSizes.insert offset buf.length })) := by
  rcases Nat.lt_or_ge m.size (offset + buf.length) with hout | hfit
  · refine .inl ⟨hout, ?_⟩
    by_cases hg : addSize offset buf.length > m.size
    · exact ⟨_, if_pos hg⟩
    · exact ⟨_, by rw [writeBy, if_neg hg, h.pwrite_none _ _ _ (h.guarded hm hout hg)]⟩
  · refine .inr ⟨hfit, ?_⟩
    have hs := h.size_lt m hm
    have hg : ¬ addSize offset buf.length > m.size := not_addSize_gt hfit (by omega)
    rw [writeBy, if_neg hg, h.pwrite_eq m _ _ hm hfit]
    simp only [ne_eq, not_true, ↓reduceIte]

/-- A `Read` throws, or fills its buffer. -/
theorem read_cases (h : Transfers pread pwrite P) (hm : P m) (offset : Nat) (buf : List Byte) :
    (m.size < offset + buf.length ∧ ∃ what, readBy pread m offset buf = (.throws what, buf)) ∨
    (offset + buf.length ≤ m.size ∧
      readBy pread m offset buf = (.ok (), slice m.image offset buf.length)) := by
  rcases Nat.lt_or_ge m.size (offset + buf.length) with hout | hfit
  · refine .inl ⟨hout, ?_⟩
    by_cases hg : addSize offset buf.length > m.size
    · exact ⟨_, if_pos hg⟩
    · exact ⟨_, by rw [readBy, if_neg hg, h.pread_none _ _ _ (h.guarded hm hout hg)]⟩
  · refine .inr ⟨hfit, ?_⟩
    have hs := h.size_lt m hm
    have hl := h.length_image m hm
    have hg : ¬ addSize offset buf.length > m.size := not_addSize_gt hfit (by omega)
    have hb : (slice m.image offset buf.length).length = buf.length := length_slice (by omega)
    rw [readBy, if_neg hg, h.pread_eq m _ _ hm hfit]
    simp [hb]

/-- A `Write` leaves a minion in `P`. -/
theorem write_mem (h : Transfers pread pwrite P) (hm : P m) (offset : Nat) (buf : List Byte) :
    P (writeBy pwrite m offset buf).2 := by
  rcases h.write_cases hm offset buf with ⟨-, _, he⟩ | ⟨hfit, he⟩ <;> rw [he]
  · exact hm
  · have hl := h.length_image m hm
    exact h.keeps m _ _ hm ((length_overwrite (by omega)).trans hl)

/-- Minions whose transfers are complete are lawful. -/
abbrev lawfulMinion (h : Transfers pread pwrite P) : LawfulMinion { m : StorageMinionFile // P m } where
  read m := readBy pread m.1
  write m offset buf := ((writeBy pwrite m.1 offset buf).1, ⟨_, h.write_mem m.2 offset buf⟩)
  getDataSize m := getDataSize m.1
  size m := m.1.size
  contents m := m.1.image
  length_contents m := h.length_image m.1 m.2
  size_write m a buf := by
    rcases h.write_cases m.2 a buf with ⟨-, _, he⟩ | ⟨-, he⟩ <;> simp only [he]
  write_ok m a buf hok := by
    rcases h.write_cases m.2 a buf with ⟨-, _, he⟩ | ⟨hl, he⟩ <;> simp only [he] at hok ⊢
    · cases hok
    · exact ⟨hl, trivial⟩
  write_throws m a buf what ht := by
    rcases h.write_cases m.2 a buf with ⟨-, _, he⟩ | ⟨-, he⟩ <;> simp only [he] at ht ⊢
    cases ht
  write_fits m a buf hl _ := by
    rcases h.write_cases m.2 a buf with ⟨hl', -⟩ | ⟨-, he⟩
    · exact absurd hl (Nat.not_le_of_lt hl')
    · exact congrArg Prod.fst he
  length_read m a buf := by
    rcases h.read_cases m.2 a buf with ⟨-, _, he⟩ | ⟨hl, he⟩ <;> rw [he]
    exact length_slice (by rwa [h.length_image m.1 m.2])
  read_ok m a buf hok := by
    rcases h.read_cases m.2 a buf with ⟨-, _, he⟩ | ⟨hl, he⟩ <;> rw [he] at hok ⊢
    · cases hok
    · exact ⟨hl, rfl⟩
  read_fits m a buf hl _ := by
    rcases h.read_cases m.2 a buf with ⟨hl', -⟩ | ⟨-, he⟩
    · exact absurd hl (Nat.not_le_of_lt hl')
    · rw [he]

end Transfers

/-! ## Whole images -/

/-- The image has the size of the minion, and one call can move all of it. -/
structure Whole (m : StorageMinionFile) : Prop where
  length_image : m.image.length = m.size
  size_le : m.size ≤ maxTransfer

/-- Linux moves all of a whole image. -/
theorem transfers_whole : Transfers pread pwrite Whole where
  length_image _ hm := hm.length_image
  size_lt _ hm := Nat.lt_of_le_of_lt hm.size_le (by decide)
  keeps _ _ _ hm hl := ⟨hl, hm.size_le⟩
  pread_eq _ _ _ hm hfit := pread_eq (hfit.trans hm.size_le)
  pread_none _ _ _ hbig := if_pos hbig
  pwrite_eq _ _ _ hm hfit := pwrite_eq (by rwa [hm.length_image]) (hm.length_image.trans_le hm.size_le)
  pwrite_none _ _ _ hbig := if_pos hbig

instance : LawfulMinion { m : StorageMinionFile // m.Whole } := transfers_whole.lawfulMinion

/-- A whole minion opened again. -/
def reopen (m : { m : StorageMinionFile // m.Whole }) : { m : StorageMinionFile // m.Whole } :=
  ⟨{ m.1 with offsetSizes := ∅ }, m.2.length_image, m.2.size_le⟩

/-- Opening the image of a whole minion again gives its bytes back. -/
theorem new_reopen (m : { m : StorageMinionFile // m.Whole }) :
    new m.1.filePath m.1.image m.1.size = .ok (reopen m).1 := by
  by_cases hi : m.1.image = []
  · have hs : m.1.size = 0 := by rw [← m.2.length_image, hi, List.length_nil]
    have hr : List.replicate m.1.size 0 = m.1.image := by rw [hs, hi, List.replicate_zero]
    rw [new, if_pos hi, if_neg (by omega), hr, reopen]
  · rw [new, if_neg hi, reopen]

end StorageMinionFile

end LDS
