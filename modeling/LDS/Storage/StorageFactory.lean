import LDS.Storage.FileMetadataStore
import LDS.Storage.RAIDStorage
import LDS.Storage.StorageMinionFile

/-!
# The file backend

`StorageFactory` builds the minions and the metadata store of the file backend over what a directory
holds: an image for every minion and the metadata file. What a `RAIDStorage` leaves there when it is
stopped is what the next one finds.

## Main definitions

* `CompleteFile`: a file minion whose transfers are all complete
* `BackendDirectory`: the directory of the backend
* `BackendDirectory.createMinions`, `BackendDirectory.createMetadataStore`: the factory
* `BackendDirectory.start`: the storage that `LDS.cpp` builds over a directory
* `BackendDirectory.stop`: the directory that a storage leaves behind

## Main results

* the instance `LawfulMinion` on complete files
* `BackendDirectory.start_eq`, `BackendDirectory.start_inv`: when a storage can be built, and which one
-/

namespace LDS

open Memory

/-! ## Complete transfers -/

/-- A `pread` that moves all it is asked for, up to the end of the file. -/
def completePread (image : List Byte) (count offset : Nat) : Option (List Byte) :=
  if 2 ^ 63 ≤ offset + count then none else some (slice image offset count)

/-- A `pwrite` that moves all it is given. -/
def completePwrite (image buf : List Byte) (offset : Nat) : Option (Nat × List Byte) :=
  if 2 ^ 63 ≤ offset + buf.length then none
  else if buf = [] then some (0, image)
  else some (buf.length, overwrite (image ++ List.replicate (offset - image.length) 0) offset buf)

/-- A file minion whose image has its size, which is the size of a file. -/
abbrev CompleteFile := { m : StorageMinionFile // m.image.length = m.size ∧ m.size < 2 ^ 63 }

namespace CompleteFile

open StorageMinionFile

theorem transfers_complete :
    Transfers completePread completePwrite fun m => m.image.length = m.size ∧ m.size < 2 ^ 63 where
  length_image _ hm := hm.1
  size_lt _ hm := hm.2
  keeps _ _ _ hm hl := ⟨hl, hm.2⟩
  pread_eq m offset count hm hfit := if_neg (by omega)
  pread_none _ _ _ hbig := if_pos hbig
  pwrite_eq m offset buf hm hfit := by
    rw [completePwrite, if_neg (by omega), Nat.sub_eq_zero_of_le (by omega), List.replicate_zero, List.append_nil]
    split
    · rename_i hb
      rw [hb, overwrite_nil, List.length_nil]
    · rfl
  pwrite_none _ _ _ hbig := if_pos hbig

instance : LawfulMinion CompleteFile := transfers_complete.lawfulMinion

/-- An image without bytes is as if it had just been allocated. -/
theorem image_eq (m : CompleteFile) :
    (if m.1.image = [] then List.replicate m.1.size 0 else m.1.image) = m.1.image := by
  split
  · rename_i h
    rw [← m.2.1, h]
    rfl
  · rfl

/-- A range that a file does not have is never let through. -/
theorem guardsBounds : GuardsBounds CompleteFile fun _ _ _ => False where
  write_undefined _ _ _ _ hf := hf.elim
  write_throws m a buf hout _ := by
    rcases transfers_complete.write_cases m.2 a buf with ⟨-, what, h⟩ | ⟨hl, -⟩
    · have hfst : (IStorageMinion.write m a buf).1 = .throws what := congrArg Prod.fst h
      have hsnd : (IStorageMinion.write m a buf).2 = m := Subtype.ext (congrArg Prod.snd h)
      exact ⟨what, Prod.ext hfst hsnd⟩
    · exact absurd hl (Nat.not_le_of_lt hout)
  read_undefined _ _ _ _ hf := hf.elim
  read_throws m a buf hout _ := by
    rcases transfers_complete.read_cases m.2 a buf with ⟨-, what, h⟩ | ⟨hl, -⟩
    · exact ⟨what, congrArg Prod.fst h⟩
    · exact absurd hl (Nat.not_le_of_lt hout)

end CompleteFile

/-! ## The factory -/

/-- The directory of the file backend: what `minionK.img` holds, nothing when it is not there, and the
metadata file. -/
structure BackendDirectory where
  path : String
  images : Nat → List Byte
  metadata : Option (List Byte)

namespace BackendDirectory

/-- A directory with nothing in it. -/
def empty (path : String) : BackendDirectory := ⟨path, fun _ => [], none⟩

/-- `backend_path + "/minion" + std::to_string(i) + ".img"`. -/
def imagePath (dir : BackendDirectory) (i : Nat) : String :=
  dir.path ++ "/minion" ++ toString i ++ ".img"

/-- `StorageFactory::CreateMinions`, for the file backend. -/
def createMinions (dir : BackendDirectory) (numMinions minionSize : Nat) :
    Except String (List StorageMinionFile) :=
  if numMinions = 0 then .error "StorageFactory requires at least 1 minion"
  else if dir.path = "" then .error "FILE backend requires backend_path"
  else (List.range numMinions).mapM fun i =>
    StorageMinionFile.new (dir.imagePath i) (dir.images i) minionSize

/-- `StorageFactory::CreateMetadataStore`, for the file backend. -/
def createMetadataStore (dir : BackendDirectory) : Except String FileMetadataStore :=
  if dir.path = "" then .error "FILE metadata store requires backend_path"
  else .ok (.new dir.path dir.metadata)

/-- The minions and the metadata store of `LDS.cpp`, and the `RAIDStorage` over them. -/
def start (dir : BackendDirectory) (numMinions minionSize : Nat) :
    Except String (Σ g, RAIDStorage StorageMinionFile FileMetadataStore g) := do
  let minions ← dir.createMinions numMinions minionSize
  let metadataStore ← dir.createMetadataStore
  RAIDStorage.new minions metadataStore

/-- The directory after a storage over it was stopped: the files of its minions and the metadata file
are as the storage has left them. -/
def stop {g : Geometry} (dir : BackendDirectory)
    (s : RAIDStorage StorageMinionFile FileMetadataStore g) : BackendDirectory where
  path := dir.path
  images i := if h : i < g.numMinions then (s.minions ⟨i, h⟩).image else dir.images i
  metadata := s.metadataStore.file

/-! ## What is built -/

/-- The minion `i` over the directory. -/
def openedMinion (dir : BackendDirectory) (size i : Nat) : StorageMinionFile where
  filePath := dir.imagePath i
  size := size
  image := if dir.images i = [] then List.replicate size 0 else dir.images i
  offsetSizes := ∅

/-- The storage over the directory. -/
def opened (dir : BackendDirectory) (g : Geometry) :
    RAIDStorage StorageMinionFile FileMetadataStore g where
  minions i := dir.openedMinion g.stripeSize i
  offsetSizes := FileMetadataStore.load (.new dir.path dir.metadata)
  metadataStore := .new dir.path dir.metadata

/-- Objects are built one by one, until one cannot be. -/
theorem mapM_eq_ok_iff {α β : Type} {f : α → Except String β} {l : List α} {bs : List β} :
    l.mapM f = .ok bs ↔ List.Forall₂ (fun a b => f a = .ok b) l bs := by
  induction l generalizing bs with
  | nil =>
    rw [List.forall₂_nil_left_iff]
    constructor
    · exact fun h => (Except.ok.inj h).symm
    · rintro rfl
      rfl
  | cons a l ih =>
    rw [List.mapM_cons, List.forall₂_cons_left_iff]
    constructor
    · intro h
      obtain ⟨b, ha, h⟩ := bind_eq_ok_iff.mp h
      obtain ⟨bs', hl, h⟩ := bind_eq_ok_iff.mp h
      exact ⟨b, bs', ha, ih.mp hl, (Except.ok.inj h).symm⟩
    · rintro ⟨b, bs', ha, hl, rfl⟩
      rw [ha, ih.mpr hl]
      rfl

variable {dir : BackendDirectory} {g : Geometry}

theorem new_openedMinion {size i : Nat} (h : dir.images i = [] → size < 2 ^ 63) :
    StorageMinionFile.new (dir.imagePath i) (dir.images i) size = .ok (dir.openedMinion size i) := by
  rw [StorageMinionFile.new, openedMinion]
  split
  · rename_i hi
    rw [if_neg (Nat.not_le_of_lt (h hi))]
  · rfl

/-- **The storage over a directory**, where every image that is to be allocated is no larger than a
file. -/
theorem start_eq (hp : dir.path ≠ "")
    (hi : ∀ i < g.numMinions, dir.images i = [] → g.stripeSize < 2 ^ 63) :
    dir.start g.numMinions g.stripeSize = .ok ⟨g, dir.opened g⟩ := by
  -- none of the constructors throws
  have hn : g.numMinions ≠ 0 := by
    have := g.numPrimary_pos
    simp only [Geometry.numMinions]
    omega
  have hminions : dir.createMinions g.numMinions g.stripeSize =
      .ok ((List.range g.numMinions).map (dir.openedMinion g.stripeSize)) := by
    rw [createMinions, if_neg hn, if_neg hp]
    exact mapM_eq_ok_iff.mpr (List.forall₂_map_right_iff.mpr (List.forall₂_same.mpr fun i hmem =>
      new_openedMinion (hi i (List.mem_range.mp hmem))))
  have hstore : dir.createMetadataStore = .ok (.new dir.path dir.metadata) := if_neg hp
  have hnew := RAIDStorage.new_eq g ((List.range g.numMinions).map (dir.openedMinion g.stripeSize))
    (FileMetadataStore.new dir.path dir.metadata) (by simp) (fun h => by simp [IStorageMinion.size, openedMinion])
  rw [start, hminions, hstore]
  refine hnew.trans ?_
  simp [opened]
  rfl

/-- A storage that could be built, and from what. -/
theorem start_inv {numMinions minionSize : Nat}
    {r : Σ g, RAIDStorage StorageMinionFile FileMetadataStore g}
    (h : dir.start numMinions minionSize = .ok r) :
    ∃ g : Geometry, numMinions = g.numMinions ∧ minionSize = g.stripeSize ∧ dir.path ≠ "" ∧
      (∀ i < numMinions, dir.images i = [] → minionSize < 2 ^ 63) ∧ r = ⟨g, dir.opened g⟩ := by
  have hstart := h
  rw [start] at h
  obtain ⟨minions, hm, h⟩ := bind_eq_ok_iff.mp h
  obtain ⟨metadataStore, -, h⟩ := bind_eq_ok_iff.mp h
  rw [createMinions] at hm
  split at hm
  · cases hm
  split at hm
  · cases hm
  rename_i hn hp
  obtain ⟨hlen, hok⟩ := List.forall₂_iff_get.mp (mapM_eq_ok_iff.mp hm)
  rw [List.length_range] at hlen
  -- the constructor of an image that is to be allocated
  have hi : ∀ i < numMinions, dir.images i = [] → minionSize < 2 ^ 63 := by
    intro i hi hnil
    have hnew := hok i (by rwa [List.length_range]) (hlen ▸ hi)
    rw [List.get_eq_getElem, List.getElem_range, StorageMinionFile.new, if_pos hnil] at hnew
    by_contra hge
    rw [if_pos (Nat.not_lt.mp hge)] at hnew
    cases hnew
  obtain ⟨hpairs, -⟩ := RAIDStorage.new_inv h
  obtain rfl : numMinions = 2 * r.1.numPrimary := hlen.trans hpairs
  refine ⟨⟨r.1.numPrimary, minionSize, r.1.numPrimary_pos⟩, rfl, rfl, hp, hi, ?_⟩
  exact Except.ok.inj (hstart.symm.trans
    (start_eq (g := ⟨r.1.numPrimary, minionSize, r.1.numPrimary_pos⟩) hp hi))

end BackendDirectory

end LDS
