import LDS.Server.NBDDriverComm
import LDS.Storage.StorageFactory

/-!
# NBD mode

`RunNBDMode` builds the minions, the storage over them and the driver of a block device. It hands on the
one size that it is given: every minion has that many bytes, and so has the device. A stripe is as large as a
minion, so the offsets of the device are those of the first stripe.

## Main definitions

* `MinionBackend`: the backends, with their minions and metadata stores
* `StorageFactory.createMinions`, `StorageFactory.createMetadataStore`: the factory
* `NBDDriverComm.new`: the driver, over what the kernel answers
* `runNBDMode`: what is built before the server runs
* `NBDServer.Spread`: every primary holds some offset of the device

## Main results

* `runNBDMode_inv`: the sizes of what is built
* `NBDServer.spread_iff`: the device is spread over its primaries if there is one of them
-/

namespace LDS

/-- `MinionBackend`. -/
inductive MinionBackend
  | memory
  | file

namespace MinionBackend

/-- The minions of a backend. -/
abbrev Minion : MinionBackend → Type
  | memory => StorageMinionMemory
  | file => StorageMinionFile

/-- The metadata store of a backend. -/
abbrev MetadataStore : MinionBackend → Type
  | memory => MemoryMetadataStore
  | file => FileMetadataStore

instance : (backend : MinionBackend) → IStorageMinion backend.Minion
  | memory => inferInstanceAs (IStorageMinion StorageMinionMemory)
  | file => inferInstanceAs (IStorageMinion StorageMinionFile)

instance : (backend : MinionBackend) → IMetadataStore backend.MetadataStore
  | memory => inferInstanceAs (IMetadataStore MemoryMetadataStore)
  | file => inferInstanceAs (IMetadataStore FileMetadataStore)

end MinionBackend

/-! ## The factory -/

namespace StorageFactory

/-- `StorageFactory::CreateMinions`. Only the file backend looks at the directory. -/
def createMinions (dir : BackendDirectory) (numMinions minionSize : Nat) :
    (backend : MinionBackend) → Except String (List backend.Minion)
  | .memory =>
    if numMinions = 0 then .error "StorageFactory requires at least 1 minion"
    else .ok (List.replicate numMinions (StorageMinionMemory.new minionSize))
  | .file => dir.createMinions numMinions minionSize

/-- `StorageFactory::CreateMetadataStore`. -/
def createMetadataStore (dir : BackendDirectory) :
    (backend : MinionBackend) → Except String backend.MetadataStore
  | .memory => .ok ⟨∅⟩
  | .file => dir.createMetadataStore

/-- As many minions as asked for, each of the size asked for. -/
theorem createMinions_inv {backend : MinionBackend} {dir : BackendDirectory} {numMinions minionSize : Nat}
    {minions : List backend.Minion} (h : createMinions dir numMinions minionSize backend = .ok minions) :
    minions.length = numMinions ∧ ∀ m ∈ minions, IStorageMinion.size m = minionSize := by
  cases backend with
  | memory =>
    rw [createMinions] at h
    split at h
    · cases h
    obtain rfl := Except.ok.inj h
    refine ⟨List.length_replicate, fun m hm => ?_⟩
    obtain rfl := List.eq_of_mem_replicate hm
    rfl
  | file =>
    rw [createMinions, BackendDirectory.createMinions] at h
    split at h
    · cases h
    split at h
    · cases h
    obtain ⟨hlen, hnew⟩ := List.forall₂_iff_get.mp (BackendDirectory.mapM_eq_ok_iff.mp h)
    refine ⟨hlen.symm.trans List.length_range, fun m hm => ?_⟩
    obtain ⟨i, rfl⟩ := List.mem_iff_get.mp hm
    have hnew := hnew i (hlen.symm ▸ i.isLt) i.isLt
    rw [StorageMinionFile.new] at hnew
    split at hnew
    · split at hnew
      · cases hnew
      · exact (congrArg IStorageMinion.size (Except.ok.inj hnew)).symm
    · exact (congrArg IStorageMinion.size (Except.ok.inj hnew)).symm

end StorageFactory

/-! ## The driver -/

/-- The block device that a driver serves: its path, and the size that the kernel was told. -/
structure NBDDevice where
  path : String
  capacity : Nat

/-- What the constructor of `NBDDriverComm` asks of the kernel, and throws on. -/
inductive NBDSetup
  | openDevice (path : String)
  | setSize (capacity : Nat)
  | clearSock
  | setSock

/-- `NBDDriverComm::NBDDriverComm`, where `fails` gives the text of `errno` for a call that fails. -/
def NBDDriverComm.new (fails : NBDSetup → Option String) (path : String) (capacity : Nat) :
    Except String NBDDevice :=
  match fails (.openDevice path) with
  | some err => .error ("Failed to open " ++ path ++ ": " ++ err)
  | none =>
    match fails (.setSize capacity) with
    | some err => .error ("NBD_SET_SIZE failed: " ++ err)
    | none =>
      match fails .clearSock with
      | some err => .error ("NBD_CLEAR_SOCK failed: " ++ err)
      | none =>
        match fails .setSock with
        | some err => .error ("NBD_SET_SOCK failed: " ++ err)
        | none => .ok ⟨path, capacity⟩

theorem NBDDriverComm.new_inv {fails : NBDSetup → Option String} {path : String} {capacity : Nat}
    {d : NBDDevice} (h : NBDDriverComm.new fails path capacity = .ok d) : d = ⟨path, capacity⟩ := by
  unfold NBDDriverComm.new at h
  split at h
  · cases h
  split at h
  · cases h
  split at h
  · cases h
  split at h
  · cases h
  exact (Except.ok.inj h).symm

/-! ## The server -/

/-- What `RunNBDMode` runs: a storage, and the driver of the device. -/
structure NBDServer (backend : MinionBackend) where
  geometry : Geometry
  storage : RAIDStorage backend.Minion backend.MetadataStore geometry
  driver : NBDDevice

/-- `RunNBDMode`, up to `RunServer`. -/
def runNBDMode (backend : MinionBackend) (dir : BackendDirectory) (fails : NBDSetup → Option String)
    (device : String) (size numMinions : Nat) : Except String (NBDServer backend) := do
  let minions ← StorageFactory.createMinions dir numMinions size backend
  let metadataStore ← StorageFactory.createMetadataStore dir backend
  let ⟨g, storage⟩ ← RAIDStorage.new minions metadataStore
  let driver ← NBDDriverComm.new fails device size
  return ⟨g, storage, driver⟩

variable {backend : MinionBackend} {dir : BackendDirectory} {fails : NBDSetup → Option String}
  {device : String} {size numMinions : Nat} {s : NBDServer backend}

/-- The stripes and the device have the size of a minion. -/
theorem runNBDMode_inv (h : runNBDMode backend dir fails device size numMinions = .ok s) :
    numMinions = s.geometry.numMinions ∧ s.geometry.stripeSize = size ∧ s.driver.capacity = size := by
  rw [runNBDMode] at h
  obtain ⟨minions, hminions, h⟩ := bind_eq_ok_iff.mp h
  obtain ⟨metadataStore, -, h⟩ := bind_eq_ok_iff.mp h
  obtain ⟨⟨g, storage⟩, hstorage, h⟩ := bind_eq_ok_iff.mp h
  obtain ⟨driver, hdriver, h⟩ := bind_eq_ok_iff.mp h
  obtain rfl := Except.ok.inj h
  -- the storage takes its geometry from the minions, the driver its capacity from the same argument
  obtain ⟨hlen, hsize⟩ := StorageFactory.createMinions_inv hminions
  obtain ⟨hlen', m, hmem, hm⟩ := RAIDStorage.new_inv hstorage
  obtain rfl := NBDDriverComm.new_inv hdriver
  exact ⟨hlen.symm.trans hlen', hm.symm.trans (hsize m hmem), rfl⟩

namespace NBDServer

/-- Every primary is that of some offset of the device. -/
def Spread (s : NBDServer backend) : Prop :=
  ∀ i, ∃ offset < s.driver.capacity, s.geometry.primaryIndex offset = i

end NBDServer

/-- The first stripe is on the first primary. -/
theorem Geometry.primaryIndex_of_lt {g : Geometry} {offset : Nat} (h : offset < g.stripeSize) :
    (g.primaryIndex offset : Nat) = 0 := by
  change offset / g.stripeSize % g.numPrimary = 0
  rw [Nat.div_eq_of_lt h, Nat.zero_mod]

namespace NBDServer

/-- **Striping.** The device that `RunNBDMode` serves reaches its first primary only: it is spread over the
primaries exactly if there is one of them. -/
theorem spread_iff {P : Nat} (hP : 1 ≤ P) (hS : P ≤ size)
    (h : runNBDMode backend dir fails device size (2 * P) = .ok s) : s.Spread ↔ P = 1 := by
  obtain ⟨hn, hstripe, hcapacity⟩ := runNBDMode_inv h
  have hp : s.geometry.numPrimary = P := by
    simp only [Geometry.numMinions] at hn
    omega
  constructor
  · intro hspread
    -- an offset of the last primary would be in the first stripe
    obtain ⟨offset, hlt, hi⟩ := hspread ⟨P - 1, by omega⟩
    have h₀ : (s.geometry.primaryIndex offset : Nat) = 0 := Geometry.primaryIndex_of_lt (by omega)
    rw [hi] at h₀
    simp only at h₀
    omega
  · rintro rfl i
    refine ⟨0, by omega, Fin.ext ?_⟩
    have hlt := i.isLt
    rw [Geometry.primaryIndex_of_lt (by omega)]
    omega

/-- One pair of minions of four bytes. -/
theorem spread_one_pair : ∃ s, runNBDMode .memory (.empty "") (fun _ => none) "/dev/nbd0" 4 (2 * 1) = .ok s ∧
    s.Spread := by
  have h : runNBDMode .memory (.empty "") (fun _ => none) "/dev/nbd0" 4 (2 * 1) = .ok _ := rfl
  exact ⟨_, h, (spread_iff le_rfl (by decide) h).mpr rfl⟩

/-- Two pairs of minions of two bytes: the second pair holds nothing of the device. -/
theorem second_pair_unreached :
    ∃ s, runNBDMode .memory (.empty "") (fun _ => none) "/dev/nbd0" 2 (2 * 2) = .ok s ∧ ¬ s.Spread := by
  refine ⟨_, rfl, fun hspread => ?_⟩
  obtain ⟨offset, hlt, hi⟩ := hspread ⟨1, by decide⟩
  have h₀ := Geometry.primaryIndex_of_lt (g := ⟨2, 2, Nat.two_pos⟩) hlt
  exact absurd ((congrArg Fin.val hi).symm.trans h₀) (by decide)

end NBDServer

end LDS
