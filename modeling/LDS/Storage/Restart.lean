import LDS.Storage.IStorage
import LDS.Storage.Scripts
import LDS.Storage.StorageFactory

/-!
# Restart

Requests run side by side over the file backend, the storage is stopped when they are done, and another
one is built over the directory that it left behind. Every `Save` writes the index that its critical
section has just changed, and an image that is there is opened as it is, so the new storage goes on
where the old one stopped.

## Main definitions

* `RAIDStorage.Unfaulted`: the answers when no file operation fails
* `RAIDStorage.Saved`: the metadata file tells the index
* `RAIDStorage.reopened`: the storage over the directory of a storage that was stopped

## Main results

* `RAIDStorage.saved_run`: after every run the metadata file tells the index
* `RAIDStorage.restart_recovers`: index and bytes after a restart
-/

namespace LDS

open Memory FileMetadataStore

namespace RAIDStorage

variable {g : Geometry}

/-- The storage over the files, without what is known of them. -/
def raw (s : RAIDStorage CompleteFile FileMetadataStore g) :
    RAIDStorage StorageMinionFile FileMetadataStore g where
  minions i := (s.minions i).1
  offsetSizes := s.offsetSizes
  metadataStore := s.metadataStore

section Saved

variable {μ : Type} [LawfulMinion μ] {s s' : RAIDStorage μ FileMetadataStore g}

/-- What the minions, the index and the metadata store answer by themselves. -/
def Unfaulted : Environment (RAIDCall g) RAIDCall.Answer (RAIDStorage μ FileMetadataStore g) :=
  fun s o a s' => handler o s = some (a, s')

/-- The index is one of `size_t`s, and what `Load` would return. -/
structure Saved (s : RAIDStorage μ FileMetadataStore g) : Prop where
  bounded : Bounded s.offsetSizes.toList
  load_eq : load s.metadataStore = s.offsetSizes

/-- The critical section of `Write` saves the index with the new entry. -/
theorem saved_recordSize {offset size : Nat} {a : Except String Unit} (hs : s.Saved)
    (ho : offset < 2 ^ 64) (hsize : size < 2 ^ 64)
    (h : Unfaulted s (.recordSize offset size) a s') : a = .ok () ∧ s'.Saved := by
  obtain ⟨rfl, rfl⟩ := Prod.mk.inj (Option.some.inj h)
  have hb := bounded_insert hs.bounded ho hsize
  exact ⟨rfl, hb, load_save hb s.metadataStore⟩

/-- A `Write` of a minion that fits it returns, and leaves the index alone. -/
theorem saved_minionWrite {i : Fin g.numMinions} {offset : Nat} {buf : List Byte}
    {a : Except String Unit} (hs : s.Saved) (hz : s.Sized) (h64 : g.stripeSize < 2 ^ 64)
    (hfit : offset + buf.length ≤ g.stripeSize)
    (h : Unfaulted s (.minionWrite i offset buf) a s') : a = .ok () ∧ s'.Saved := by
  have hok := handler_minionWrite (s := s) (i := i) (by rwa [hz i]) (hz.size_lt h64 i)
  obtain ⟨rfl, rfl⟩ := Prod.mk.inj (Option.some.inj (hok.symm.trans h))
  exact ⟨rfl, hs.bounded, hs.load_eq⟩

/-- **A run of writers** over the file backend: the metadata file tells the index in every state, and every
program follows its script. -/
theorem saved_run {ι : Type} [DecidableEq ι] {data : ι → DriverData} {s₀ : RAIDStorage μ FileMetadataStore g}
    {T : ι → RAIDProg g DriverData} {tr : List (ι × Exchange (RAIDCall g) RAIDCall.Answer)}
    (hdata : ∀ t, (data t).offset < 2 ^ 64 ∧ (data t).buffer.length < 2 ^ 64 ∧
      g.InRange (data t).offset (data t).buffer.length)
    (h64 : g.stripeSize < 2 ^ 64) (hz : s₀.Sized) (h₀ : s₀.Saved)
    (hr : Pool.Run Unfaulted (fun t => write g (data t)) s₀ tr T s) :
    (s.Sized ∧ s.Saved) ∧ ∀ t, ∃ todo,
      writeScript g (data t) = (Pool.own t tr).map Sigma.fst ++ todo ∧
      Prog.Obeys (.script Succeeds) (fun x _ => x.1 = [] ∧ True) (todo, Pool.own t tr) (T t) := by
  refine Pool.Run.script (I := fun s => s.Sized ∧ s.Saved) (Q := fun _ _ _ => True) ⟨hz, h₀⟩ ?_
    (fun t => obeys_write_script (hdata t).2.2) hr
  rintro s t o a s' ⟨hz, hs⟩ ho h
  obtain ⟨hoffset, hsize, hrange⟩ := hdata t
  have hz' : s'.Sized := fun i => (answers_size (.own h) i).trans (hz i)
  -- a `Write` to a minion leaves the index and the file alone
  rcases mem_writeScript hrange ho with ⟨i, b, buf, rfl, hfit⟩ | rfl
  · obtain ⟨rfl, hs'⟩ := saved_minionWrite hs hz h64 hfit h
    exact ⟨rfl, hz', hs'⟩
  · exact ⟨trivial, hz', (saved_recordSize hs hoffset hsize h).2⟩

end Saved

/-! ## Stopping and starting -/

variable {s s₀ : RAIDStorage CompleteFile FileMetadataStore g} {dir : BackendDirectory}

/-- The storage over the directory that `s` leaves behind. -/
def reopened (dir : BackendDirectory) (s : RAIDStorage CompleteFile FileMetadataStore g) :
    RAIDStorage CompleteFile FileMetadataStore g where
  minions i := ⟨{ (s.minions i).1 with filePath := dir.imagePath i, offsetSizes := ∅ }, (s.minions i).2⟩
  offsetSizes := load s.metadataStore
  metadataStore := .new dir.path s.metadataStore.file

theorem stripeSize_lt_of_sized (hz : s.Sized) : g.stripeSize < 2 ^ 63 := by
  rw [← hz (g.primary ⟨0, g.numPrimary_pos⟩)]
  exact (s.minions _).2.2

/-- A storage that was stopped can be built again, over the bytes and the index file it has left. -/
theorem start_stop (hp : dir.path ≠ "") (hz : s.Sized) :
    (dir.stop s.raw).start g.numMinions g.stripeSize = .ok ⟨g, (s.reopened dir).raw⟩ := by
  have hnew : (dir.stop s.raw).start g.numMinions g.stripeSize = .ok ⟨g, (dir.stop s.raw).opened g⟩ :=
    BackendDirectory.start_eq hp fun i _ _ => stripeSize_lt_of_sized hz
  -- every image is found under its name, and taken as it is
  have hminion : ∀ i : Fin g.numMinions,
      (dir.stop s.raw).openedMinion g.stripeSize i = ((s.reopened dir).minions i).1 := by
    intro i
    have himage : (dir.stop s.raw).images i = (s.minions i).1.image := dif_pos i.isLt
    have hsize : (s.minions i).1.size = g.stripeSize := hz i
    rw [BackendDirectory.openedMinion, himage, ← hsize, CompleteFile.image_eq]
    rfl
  have hstate : (dir.stop s.raw).opened g = (s.reopened dir).raw :=
    congrArg (RAIDStorage.mk · (load s.metadataStore) (FileMetadataStore.new dir.path s.metadataStore.file))
      (funext hminion)
  rw [hnew, hstate]

/-- What is built over an empty directory. -/
theorem start_empty_inv {path : String} {numMinions minionSize : Nat}
    (h : (BackendDirectory.empty path).start numMinions minionSize = .ok ⟨g, s₀.raw⟩) :
    numMinions = g.numMinions ∧ minionSize = g.stripeSize ∧ path ≠ "" ∧ s₀.Sized ∧ s₀.Saved ∧
      s₀.offsetSizes = ∅ := by
  obtain ⟨g', hn, hs, hp, -, he⟩ := BackendDirectory.start_inv h
  obtain ⟨rfl, he⟩ := Sigma.mk.inj he
  have he : s₀.raw = (BackendDirectory.empty path).opened g := eq_of_heq he
  -- the geometry is the same, so the parts can be compared
  have hindex : s₀.offsetSizes = ∅ := congrArg offsetSizes he
  have hstore : s₀.metadataStore = .new path none := congrArg metadataStore he
  refine ⟨hn, hs, hp, fun i => ?_, ⟨?_, ?_⟩, hindex⟩
  · exact congrArg StorageMinionFile.size (congrFun (congrArg minions he) i)
  · rw [hindex]
    exact bounded_empty
  · rw [hstore, hindex]
    rfl

/-- **Restart.** Writers inside the device run side by side from an empty directory, in any interleaving;
when all are done the storage is stopped, and built again with the same numbers. `Load` returns the index
of the old storage, which has the offsets that were written, each with the size of a write there; and
every `Read` inside the device returns what the old storage would have returned. -/
theorem restart_recovers {path : String} {numMinions minionSize : Nat}
    (h₀ : (BackendDirectory.empty path).start numMinions minionSize = .ok ⟨g, s₀.raw⟩)
    {ι : Type} [DecidableEq ι] {data : ι → DriverData}
    (hdata : ∀ t, (data t).offset < 2 ^ 64 ∧ (data t).buffer.length < 2 ^ 64 ∧
      g.InRange (data t).offset (data t).buffer.length)
    {T : ι → RAIDProg g DriverData} {tr : List (ι × Exchange (RAIDCall g) RAIDCall.Answer)}
    (hr : Pool.Run Unfaulted (fun t => write g (data t)) s₀ tr T s)
    (hdone : ∀ t, ∃ data', T t = .ret data' ∧ data'.status = .success) :
    let dir := (BackendDirectory.empty path).stop s.raw
    (∃ st, dir.createMetadataStore = .ok st ∧ load st = s.offsetSizes) ∧
    (∀ k, k ∈ s.offsetSizes ↔ ∃ t, (data t).offset = k) ∧
    (∀ k v, s.offsetSizes[k]? = some v → ∃ t, (data t).offset = k ∧ (data t).buffer.length = v) ∧
    ∃ s' : RAIDStorage CompleteFile FileMetadataStore g,
      dir.start numMinions minionSize = .ok ⟨g, s'.raw⟩ ∧ s'.offsetSizes = s.offsetSizes ∧
      ∀ d, g.InRange d.offset d.len → ∃ d', d'.status = .success ∧
        (read g d).run handler s = some (d', s) ∧ (read g d).run handler s' = some (d', s') := by
  intro dir
  obtain ⟨rfl, rfl, hp, hz₀, hs₀, hindex⟩ := start_empty_inv h₀
  have h64 : g.stripeSize < 2 ^ 64 := Nat.lt_trans (stripeSize_lt_of_sized hz₀) (by decide)
  obtain ⟨⟨hz, hs⟩, hscript⟩ := saved_run hdata h64 hz₀ hs₀ hr
  -- the index is made up of the records of the run
  have hfold : s.offsetSizes = (tr.map Prod.snd).foldl recordCall ∅ := by
    rw [← hindex]
    exact run_offsetSizes (hr.mono fun _ _ _ _ => .own)
  have hmade : ∀ t, (Pool.own t tr).map Sigma.fst = writeScript g (data t) := by
    intro t
    obtain ⟨todo, hcalls, hobeys⟩ := hscript t
    obtain ⟨data', hT, -⟩ := hdone t
    exact (Pool.done_of_script (Q := fun _ _ => True) hcalls hobeys (by rw [hT]; rfl)).1
  have hrecorded : ∀ e ∈ tr.map Prod.snd, ∀ k v, e.1 = .recordSize k v →
      ∃ t, (data t).offset = k ∧ (data t).buffer.length = v := by
    intro e hmem k v he
    obtain ⟨⟨t, e⟩, htr, rfl⟩ := List.mem_map.mp hmem
    have hcall : e.1 ∈ writeScript g (data t) := by
      rw [← hmade t]
      exact List.mem_map_of_mem (Pool.mem_own.mpr htr)
    rcases mem_writeScript (hdata t).2.2 hcall with ⟨i, a, buf, he', -⟩ | he'
    · cases he.symm.trans he'
    · obtain ⟨rfl, rfl⟩ := RAIDCall.recordSize.inj (he.symm.trans he')
      exact ⟨t, rfl, rfl⟩
  have hvalues : ∀ k v, s.offsetSizes[k]? = some v →
      ∃ t, (data t).offset = k ∧ (data t).buffer.length = v := by
    intro k v hk
    rw [hfold] at hk
    rcases getElem?_foldl_recordCall hk with hk | ⟨e, hmem, he⟩
    · simp at hk
    · exact hrecorded e hmem k v he
  have hkeys : ∀ t, (data t).offset ∈ s.offsetSizes := by
    intro t
    have hcall := recordSize_mem_writeScript (g := g) (data t)
    rw [← hmade t] at hcall
    obtain ⟨e, hmem, he⟩ := List.mem_map.mp hcall
    rw [hfold]
    exact mem_foldl_recordCall
      (.inr ⟨e, List.mem_map_of_mem (Pool.mem_own.mp hmem), he⟩)
  have hload : (FileMetadataStore.new path s.metadataStore.file).load = s.offsetSizes := hs.load_eq
  refine ⟨⟨_, if_neg hp, hload⟩, fun k => ⟨fun hk => ?_, ?_⟩, hvalues, s.reopened (.empty path),
    start_stop hp hz, hs.load_eq, fun d hd => ?_⟩
  · obtain ⟨v, hv⟩ := Option.isSome_iff_exists.mp (Std.ExtTreeMap.isSome_getElem?_iff_mem.mpr hk)
    obtain ⟨t, ht, -⟩ := hvalues k v hv
    exact ⟨t, ht⟩
  · rintro ⟨t, rfl⟩
    exact hkeys t
  · -- the images are the same, and a `Read` sees nothing else
    have hdevice : (s.reopened (.empty path)).device = s.device := device_congr rfl
    have hnew := run_read_primary (s := s.reopened (.empty path)) d hz h64 hd
    rw [hdevice] at hnew
    exact ⟨_, rfl, run_read_primary d hz h64 hd, hnew⟩

/-- The storage over an empty directory. -/
def inFiles (path : String) (g : Geometry) (hS : g.stripeSize < 2 ^ 63) :
    RAIDStorage CompleteFile FileMetadataStore g where
  minions i := ⟨(BackendDirectory.empty path).openedMinion g.stripeSize i, List.length_replicate, hS⟩
  offsetSizes := ∅
  metadataStore := .new path none

theorem start_inFiles {path : String} (hp : path ≠ "") (g : Geometry) (hS : g.stripeSize < 2 ^ 63) :
    (BackendDirectory.empty path).start g.numMinions g.stripeSize = .ok ⟨g, (inFiles path g hS).raw⟩ :=
  BackendDirectory.start_eq hp fun _ _ _ => hS

/-- Two writers of one offset, whose calls take turns. -/
theorem restart_recovers_two_writers :
    ∃ s s' : RAIDStorage CompleteFile FileMetadataStore ⟨1, 2, by decide⟩,
      ((BackendDirectory.empty "data").stop s.raw).start 2 2 = .ok ⟨_, s'.raw⟩ ∧
      s'.offsetSizes = s.offsetSizes ∧ 0 ∈ s'.offsetSizes := by
  set data : Fin 2 → DriverData := fun t => .ofWrite t 0 (List.replicate (t + 1) 7) with hdata
  -- both have succeeded when the process stops
  have hexec : (Pool.exec handler [0, 1, 1, 0, 0, 1] (fun t => write ⟨1, 2, by decide⟩ (data t))
      (inFiles "data" ⟨1, 2, by decide⟩ (by decide))).map (fun r =>
        decide (∀ t, (r.2.1 t).value?.map DriverData.status = some .success)) = some true := by
    decide +kernel
  obtain ⟨⟨tr, T, s⟩, he, hproj⟩ := Option.map_eq_some_iff.mp hexec
  have hdone : ∀ t, ∃ data', T t = .ret data' ∧ data'.status = .success := fun t => by
    obtain ⟨data', hT, hst⟩ := Option.map_eq_some_iff.mp (of_decide_eq_true hproj t)
    exact ⟨data', Prog.value?_eq_some.mp hT, hst⟩
  have hlen : ∀ t, (data t).buffer.length ≤ 2 := fun t => by
    simp only [hdata, DriverData.ofWrite, List.length_replicate]
    omega
  obtain ⟨-, hkeys, -, s', hstart, hindex, -⟩ := restart_recovers
    (start_inFiles (by decide : "data" ≠ "") ⟨1, 2, by decide⟩ (by decide))
    (fun t => ⟨by simp [hdata, DriverData.ofWrite, DriverData.new],
      Nat.lt_of_le_of_lt (hlen t) (by decide),
      Geometry.inRange_of_le (by decide) (by
        have := hlen t
        simpa [hdata, DriverData.ofWrite, DriverData.new, Geometry.capacity] using this)⟩)
    (Pool.run_of_exec (fun _ _ _ _ h => h) he) hdone
  exact ⟨s, s', hstart, hindex, hindex ▸ (hkeys 0).mpr ⟨0, rfl⟩⟩

end RAIDStorage

end LDS
