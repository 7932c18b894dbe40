import LDS.Library.Bytes
import LDS.Library.Memory
import LDS.Storage.MetadataStore

/-!
# The metadata file

`FileMetadataStore` keeps the index in `raid_metadata.dat`: for every entry eight bytes of offset and
eight of size, as they are in memory. Every `Save` opens the file, which empties it, and writes it
anew.

## Main definitions

* `FileMetadataStore`: the store, with the bytes of its file
* `FileMetadataStore.image`: the bytes that `Save` writes
* `FileMetadataStore.saveWith io`: `Save`, as its I/O goes
* `FileMetadataStore.Complete`: the file opens and takes all of the index

## Main results

* `FileMetadataStore.load_image_take`: what `Load` makes of a file that was cut
* `FileMetadataStore.load_save`: `Load` undoes a complete `Save`
* `FileMetadataStore.crash_atomic_iff`: when a `Save` that is cut off leaves an old or a new index
-/

namespace LDS

open Memory

/-- The bytes of a `size_t` in memory, least significant byte first. -/
def sizeBytes (x : Nat) : List Byte := (bigEndian 8 x).reverse

/-- The `size_t` of eight bytes in memory. -/
def ofSizeBytes (bytes : List Byte) : Nat := ofBigEndian bytes.reverse

@[simp] theorem length_sizeBytes (x : Nat) : (sizeBytes x).length = 8 := by simp [sizeBytes]

theorem ofSizeBytes_sizeBytes {x : Nat} (h : x < 2 ^ 64) : ofSizeBytes (sizeBytes x) = x := by
  rw [ofSizeBytes, sizeBytes, List.reverse_reverse]
  exact ofBigEndian_bigEndian h

/-- Eight bytes are a `size_t`. -/
theorem ofSizeBytes_lt {bytes : List Byte} (h : bytes.length ≤ 8) : ofSizeBytes bytes < 2 ^ 64 := by
  have hlt := ofBigEndian_lt bytes.reverse
  rw [List.length_reverse] at hlt
  calc ofSizeBytes bytes < 256 ^ bytes.length := hlt
    _ ≤ 256 ^ 8 := Nat.pow_le_pow_right (by decide) h
    _ = 2 ^ 64 := by decide

/-- `FileMetadataStore`, with the bytes of its file, if there is one. -/
structure FileMetadataStore where
  filePath : String
  file : Option (List Byte)

namespace FileMetadataStore

/-- `FileMetadataStore::FileMetadataStore`, where `file` is what the directory holds. -/
def new (metadataPath : String) (file : Option (List Byte)) : FileMetadataStore :=
  ⟨metadataPath ++ "/raid_metadata.dat", file⟩

/-- The loop of `Load`. An entry of which the size is cut off clears the index; one of which the offset
is cut off is the end of the file. -/
def loadLoop (bytes : List Byte) (metadata : SizeMap) : SizeMap :=
  if bytes.length < 8 then metadata
  else if bytes.length < 16 then ∅
  else
    loadLoop (bytes.drop 16)
      (metadata.insert (ofSizeBytes (slice bytes 0 8)) (ofSizeBytes (slice bytes 8 8)))
termination_by bytes.length
decreasing_by
  rw [List.length_drop]
  omega

/-- `FileMetadataStore::Load`, of a file that can be read. -/
def load (st : FileMetadataStore) : SizeMap :=
  match st.file with
  | none => ∅
  | some bytes => loadLoop bytes ∅

/-- The bytes of an entry. -/
def record (e : Nat × Nat) : List Byte := sizeBytes e.1 ++ sizeBytes e.2

/-- The bytes that `Save` writes, in the order of the index. -/
def image (metadata : SizeMap) : List Byte := metadata.toList.flatMap record

/-- How the I/O of a `Save` goes: the file does not open, or opens and takes so many bytes before a
write fails or the process stops. -/
inductive SaveIO
  | notOpened
  | written (n : Nat)

/-- `FileMetadataStore::Save`. Neither a file that does not open nor a failing write throws. -/
def saveWith (io : SaveIO) (st : FileMetadataStore) (metadata : SizeMap) :
    Outcome Unit × FileMetadataStore :=
  match io with
  | .notOpened => (.ok (), st)
  | .written n => (.ok (), { st with file := some ((image metadata).take n) })

/-- `FileMetadataStore::Save`, when its I/O does not fail. -/
def save (st : FileMetadataStore) (metadata : SizeMap) : Outcome Unit × FileMetadataStore :=
  saveWith (.written (image metadata).length) st metadata

/-- `FileMetadataStore::Clear`. -/
def clear (st : FileMetadataStore) : FileMetadataStore := { st with file := none }

instance : IMetadataStore FileMetadataStore where
  load := load
  save := save
  clear := clear

instance : LawfulMetadataStore FileMetadataStore where
  save_ok _ _ := rfl
  save_save _ _ _ := rfl

/-! ## Loading -/

/-- The index of a list of entries, later ones first. -/
def ofEntries (metadata : SizeMap) (es : List (Nat × Nat)) : SizeMap :=
  es.foldl (fun m e => m.insert e.1 e.2) metadata

@[simp] theorem length_record (e : Nat × Nat) : (record e).length = 16 := by simp [record]

theorem length_flatMap_record (es : List (Nat × Nat)) :
    (es.flatMap record).length = 16 * es.length := by
  induction es with
  | nil => rfl
  | cons e es ih =>
    rw [List.flatMap_cons, List.length_append, length_record, ih, List.length_cons]
    omega

/-- Every number of the entries is a `size_t`. -/
def Bounded (es : List (Nat × Nat)) : Prop := ∀ e ∈ es, e.1 < 2 ^ 64 ∧ e.2 < 2 ^ 64

theorem bounded_empty : Bounded (∅ : SizeMap).toList := fun e he => by
  rw [Std.ExtTreeMap.mem_toList_iff_getElem?_eq_some, Std.ExtTreeMap.getElem?_empty] at he
  cases he

theorem bounded_insert {m : SizeMap} (hm : Bounded m.toList) {k v : Nat} (hk : k < 2 ^ 64)
    (hv : v < 2 ^ 64) : Bounded (m.insert k v).toList := by
  intro e he
  rw [Std.ExtTreeMap.mem_toList_iff_getElem?_eq_some, Std.ExtTreeMap.getElem?_insert] at he
  split at he
  · rename_i hc
    obtain rfl := Nat.compare_eq_eq.mp hc
    exact ⟨hk, Option.some.inj he ▸ hv⟩
  · exact hm e (Std.ExtTreeMap.mem_toList_iff_getElem?_eq_some.mpr he)

theorem bounded_loadLoop (bytes : List Byte) {metadata : SizeMap} (hm : Bounded metadata.toList) :
    Bounded (loadLoop bytes metadata).toList := by
  induction bytes, metadata using loadLoop.induct with
  | case1 bytes metadata h => rwa [loadLoop, if_pos h]
  | case2 bytes metadata h h' =>
    rw [loadLoop, if_neg h, if_pos h']
    exact bounded_empty
  | case3 bytes metadata h h' ih =>
    rw [loadLoop, if_neg h, if_neg h']
    refine ih (bounded_insert hm ?_ ?_) <;>
    · apply ofSizeBytes_lt
      rw [slice, List.length_take]
      omega

/-- What `Load` returns are `size_t`s, whatever is in the file. -/
theorem bounded_load (st : FileMetadataStore) : Bounded (load st).toList := by
  rw [load]
  split
  · exact bounded_empty
  · exact bounded_loadLoop _ bounded_empty

/-- The offset of an entry is its first half. -/
theorem slice_record_offset (e : Nat × Nat) (bytes : List Byte) :
    slice (record e ++ bytes) 0 8 = sizeBytes e.1 := by
  rw [record, List.append_assoc, slice_append_left (by simp), slice_self (by simp)]

/-- The size of an entry is its second half. -/
theorem slice_record_size (e : Nat × Nat) (bytes : List Byte) :
    slice (record e ++ bytes) 8 8 = sizeBytes e.2 := by
  rw [slice_append_left (by simp), record, slice_append_right (by simp), length_sizeBytes,
    Nat.sub_self, slice_self (by simp)]

/-- `Load` reads an entry, and goes on behind it. -/
theorem loadLoop_record {e : Nat × Nat} (he : e.1 < 2 ^ 64 ∧ e.2 < 2 ^ 64) (bytes : List Byte)
    (metadata : SizeMap) :
    loadLoop (record e ++ bytes) metadata = loadLoop bytes (metadata.insert e.1 e.2) := by
  have hdrop : (record e ++ bytes).drop 16 = bytes := List.drop_left' (length_record e)
  have hlen : (record e ++ bytes).length = 16 + bytes.length := by simp
  rw [loadLoop, if_neg (by omega), if_neg (by omega), slice_record_offset, slice_record_size, hdrop,
    ofSizeBytes_sizeBytes he.1, ofSizeBytes_sizeBytes he.2]

/-- What `Load` makes of the first `n` bytes: the entries that are whole, unless more than the offset
of the next one is there. -/
theorem loadLoop_take {es : List (Nat × Nat)} (hes : Bounded es) (metadata : SizeMap) {n : Nat}
    (hn : n ≤ 16 * es.length) :
    loadLoop ((es.flatMap record).take n) metadata =
      if n % 16 < 8 then ofEntries metadata (es.take (n / 16)) else ∅ := by
  induction es generalizing metadata n with
  | nil =>
    obtain rfl : n = 0 := by simpa using hn
    rw [List.take_zero, loadLoop]
    rfl
  | cons e es ih =>
    obtain ⟨he, hes⟩ := List.forall_mem_cons.mp hes
    rw [List.length_cons] at hn
    rw [List.flatMap_cons]
    rcases Nat.lt_or_ge n 16 with h | h
    · -- the first entry is cut
      have hl : ((record e ++ es.flatMap record).take n).length = n := by
        rw [List.length_take, List.length_append, length_record]
        omega
      rw [loadLoop, hl, Nat.mod_eq_of_lt h, Nat.div_eq_of_lt h, List.take_zero, if_pos h]
      split <;> rfl
    · have htake : (record e ++ es.flatMap record).take n =
          record e ++ (es.flatMap record).take (n - 16) := by
        rw [List.take_append, length_record, List.take_of_length_le (by simpa using h)]
      have hmod : n % 16 = (n - 16) % 16 := by omega
      have hdiv : n / 16 = (n - 16) / 16 + 1 := by omega
      rw [htake, loadLoop_record he, ih hes _ (by omega), hmod, hdiv, List.take_succ_cons, ofEntries,
        ofEntries, List.foldl_cons]

theorem getElem?_ofEntries_of_not_mem {es : List (Nat × Nat)} {k : Nat} (h : k ∉ es.map Prod.fst)
    (metadata : SizeMap) : (ofEntries metadata es)[k]? = metadata[k]? := by
  induction es generalizing metadata with
  | nil => rfl
  | cons e es ih =>
    rw [List.map_cons, List.mem_cons, not_or] at h
    rw [ofEntries, List.foldl_cons, ← ofEntries, ih h.2, Std.ExtTreeMap.getElem?_insert,
      if_neg fun he => h.1 (Nat.compare_eq_eq.mp he).symm]

theorem getElem?_ofEntries_of_mem {es : List (Nat × Nat)} {e : Nat × Nat}
    (hd : (es.map Prod.fst).Nodup) (h : e ∈ es) (metadata : SizeMap) :
    (ofEntries metadata es)[e.1]? = some e.2 := by
  induction es generalizing metadata with
  | nil => cases h
  | cons e' es ih =>
    obtain ⟨hne, hd⟩ := List.nodup_cons.mp hd
    rw [ofEntries, List.foldl_cons, ← ofEntries]
    rcases List.mem_cons.mp h with rfl | h
    · rw [getElem?_ofEntries_of_not_mem hne, Std.ExtTreeMap.getElem?_insert_self]
    · exact ih hd h _

theorem nodup_keys (metadata : SizeMap) : (metadata.toList.map Prod.fst).Nodup := by
  rw [List.Nodup, List.pairwise_map]
  exact metadata.distinct_keys_toList.imp fun h he => h (Nat.compare_eq_eq.mpr he)

/-- The entries of an index make it up. -/
theorem ofEntries_toList (metadata : SizeMap) : ofEntries ∅ metadata.toList = metadata := by
  apply Std.ExtTreeMap.ext_getElem?
  intro k
  cases hk : metadata[k]? with
  | some v =>
    exact getElem?_ofEntries_of_mem (nodup_keys metadata)
      (Std.ExtTreeMap.mem_toList_iff_getElem?_eq_some.mpr hk) ∅
  | none =>
    rw [getElem?_ofEntries_of_not_mem, Std.ExtTreeMap.getElem?_empty]
    rintro hmem
    obtain ⟨e, he, rfl⟩ := List.mem_map.mp hmem
    rw [Std.ExtTreeMap.mem_toList_iff_getElem?_eq_some.mp he] at hk
    cases hk

theorem length_image (metadata : SizeMap) : (image metadata).length = 16 * metadata.toList.length :=
  length_flatMap_record _

/-- **A metadata file that was cut** after `n` bytes: the entries that are whole, in ascending order of
their offsets, or nothing at all when more than the offset of the next one is there. -/
theorem load_image_take {metadata : SizeMap} (hm : Bounded metadata.toList) {n : Nat}
    (hn : n ≤ (image metadata).length) (filePath : String) :
    load ⟨filePath, some ((image metadata).take n)⟩ =
      if n % 16 < 8 then ofEntries ∅ (metadata.toList.take (n / 16)) else ∅ :=
  loadLoop_take hm ∅ (length_image metadata ▸ hn)

/-- `Load` undoes a complete `Save`. -/
theorem load_save {metadata : SizeMap} (hm : Bounded metadata.toList) (st : FileMetadataStore) :
    load (save st metadata).2 = metadata := by
  have h := load_image_take hm le_rfl st.filePath
  rw [length_image, Nat.mul_mod_right, if_pos (by decide), Nat.mul_div_cancel_left _ (by decide),
    List.take_length, ofEntries_toList, ← length_image] at h
  exact h

/-! ## A `Save` that fails -/

/-- The file opens, and takes all bytes of the index. -/
def Complete (metadata : SizeMap) (io : SaveIO) : Prop :=
  ∃ n, io = .written n ∧ (image metadata).length ≤ n

theorem saveWith_of_complete {metadata : SizeMap} {io : SaveIO} (h : Complete metadata io)
    (st : FileMetadataStore) : saveWith io st metadata = save st metadata := by
  obtain ⟨n, rfl, hn⟩ := h
  rw [save, saveWith, saveWith, List.take_of_length_le hn, List.take_length]

/-! ## A `Save` that is cut off -/

/-- An index is not made up by fewer entries than it has. -/
theorem ofEntries_take_ne {metadata : SizeMap} {i : Nat} (hi : i < metadata.toList.length) :
    ofEntries ∅ (metadata.toList.take i) ≠ metadata := by
  intro h
  have hmem : metadata.toList[i] ∈ metadata.toList := List.getElem_mem hi
  have hkey := Std.ExtTreeMap.mem_toList_iff_getElem?_eq_some.mp hmem
  -- the entry that is left out has a key of its own
  have hnot : metadata.toList[i].1 ∉ (metadata.toList.take i).map Prod.fst := by
    have hd := nodup_keys metadata
    rw [← List.take_append_drop i metadata.toList, List.map_append, List.nodup_append] at hd
    intro hk
    refine hd.2.2 _ hk _ (List.mem_map_of_mem ?_) rfl
    rw [List.drop_eq_getElem_cons hi]
    exact List.mem_cons_self
  have hnone := getElem?_ofEntries_of_not_mem hnot ∅
  rw [h] at hnone
  cases hkey.symm.trans hnone

/-- **A `Save` of `m₁` that the process does not survive**, over a saved `m₀`: the file holds one of
the two if and only if all of it was written, or `m₀` is the whole entries of what was written, or
`m₀` is empty. -/
theorem crash_atomic_iff (st : FileMetadataStore) {m₀ m₁ : SizeMap} (hm : Bounded m₁.toList) {n : Nat}
    (hn : n ≤ (image m₁).length) :
    let file := (saveWith (.written n) (save st m₀).2 m₁).2
    load file = m₀ ∨ load file = m₁ ↔
      n = (image m₁).length ∨ (n % 16 < 8 ∧ m₀ = ofEntries ∅ (m₁.toList.take (n / 16))) ∨
        (8 ≤ n % 16 ∧ m₀ = ∅) := by
  intro file
  have hload : load file = if n % 16 < 8 then ofEntries ∅ (m₁.toList.take (n / 16)) else ∅ :=
    load_image_take hm hn _
  have hlen := length_image m₁
  constructor
  · rintro (h | h)
    · -- the old index, by luck
      rw [hload] at h
      split at h
      · exact .inr (.inl ⟨‹_›, h.symm⟩)
      · exact .inr (.inr ⟨by omega, h.symm⟩)
    · rw [hload] at h
      split at h
      · refine .inl ?_
        by_contra hne
        exact ofEntries_take_ne (by omega) h
      · have hnil : m₁.toList = [] := by
          rw [← h]
          exact Std.ExtTreeMap.toList_eq_nil_iff.mpr rfl
        rw [hnil, List.length_nil] at hlen
        omega
  · rintro (rfl | ⟨hlt, rfl⟩ | ⟨hge, rfl⟩)
    · right
      rw [hload, if_pos (by omega), List.take_of_length_le (by omega), ofEntries_toList]
    · left
      rw [hload, if_pos hlt]
    · left
      rw [hload, if_neg (by omega)]

/-- The two entries `0 ↦ 1` and `8 ↦ 1` are being saved over the first of them, and the process stops
when the file has been opened. -/
theorem crash_loses_entry :
    ¬ ∀ (m₀ m₁ : SizeMap) (n : Nat), Bounded m₀.toList → Bounded m₁.toList → n ≤ (image m₁).length →
      let file := (saveWith (.written n) (save (new "data" none) m₀).2 m₁).2
      load file = m₀ ∨ load file = m₁ := by
  intro h
  -- `Save` truncates the file before it writes
  have hempty : load ⟨"data/raid_metadata.dat", some []⟩ = ∅ := by
    change loadLoop [] ∅ = ∅
    rw [loadLoop]
    rfl
  have hb : ∀ es : List (Nat × Nat), (∀ e ∈ es, e.1 < 2 ^ 64 ∧ e.2 < 2 ^ 64) → Bounded es := fun _ h => h
  rcases h ((∅ : SizeMap).insert 0 1) (((∅ : SizeMap).insert 0 1).insert 8 1) 0
    (hb _ (by decide +kernel)) (hb _ (by decide +kernel)) (Nat.zero_le _) with h | h
  · have hz := congrArg (fun m : SizeMap => m[0]?) (hempty.symm.trans h)
    simp at hz
  · have hz := congrArg (fun m : SizeMap => m[0]?) (hempty.symm.trans h)
    simp at hz

/-- A `Save` over an index of which it keeps the first entries, cut after them. -/
theorem crash_atomic_whole_entries :
    let file := (saveWith (.written 16) (save (new "data" none) ((∅ : SizeMap).insert 0 1)).2
      (((∅ : SizeMap).insert 0 1).insert 8 1)).2
    load file = (∅ : SizeMap).insert 0 1 ∨ load file = ((∅ : SizeMap).insert 0 1).insert 8 1 := by
  refine (crash_atomic_iff (new "data" none) ?_ ?_).mpr (.inr (.inl ⟨by decide, ?_⟩))
  · intro e he
    revert e he
    decide +kernel
  · decide +kernel
  · decide +kernel

end FileMetadataStore

end LDS
