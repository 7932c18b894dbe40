import LDS.Library.InputStream
import LDS.Library.Records
import LDS.Storage.FileMetadataStore

/-!
# Loading the metadata file

`Load` reads entry after entry, whatever is in the file. It takes a file for corrupted when the last entry
ends within its size, and not when it ends within its offset.

## Main definitions

* `FileMetadataStore.format`: the records of the file
* `FileMetadataStore.readLoop`: the loop of `Load`, over the stream

## Main results

* `FileMetadataStore.readLoop_eq`: what the two reads make of the bytes
* `FileMetadataStore.loadLoop_eq`: the index that is loaded, in terms of the records and the tail
* `FileMetadataStore.load_whole_records_iff`: when exactly the files of whole records are loaded
-/

namespace LDS

namespace FileMetadataStore

open Memory

variable {bytes : List Byte} {metadata : SizeMap}

/-! ## The two reads of the loop -/

/-- The loop of `Load`. A stream in a condition is true unless it has failed. -/
def readLoop (file : InputStream) (metadata : SizeMap) : SizeMap :=
  if _hoffset : (file.read 8).2.fail = true then metadata
  else if _hsize : ((file.read 8).2.read 8).2.fail = true then ∅
  else
    readLoop ((file.read 8).2.read 8).2
      (metadata.insert (ofSizeBytes (file.read 8).1) (ofSizeBytes ((file.read 8).2.read 8).1))
termination_by file.rest.length
decreasing_by
  have hread := InputStream.length_read_of_not_fail (eq_false_of_ne_true _hoffset)
  have hread' := InputStream.length_read_of_not_fail (eq_false_of_ne_true _hsize)
  omega

/-- A read that fails in the offset ends the loop, one that fails in the size clears the index. -/
theorem readLoop_eq (bytes : List Byte) (metadata : SizeMap) :
    readLoop (.ofBytes bytes) metadata = loadLoop bytes metadata := by
  induction bytes, metadata using loadLoop.induct with
  | case1 bytes metadata h =>
    rw [loadLoop, if_pos h, readLoop, InputStream.read_of_lt h]
    exact dif_pos rfl
  | case2 bytes metadata h h' =>
    have hrest : (bytes.drop 8).length < 8 := by
      rw [List.length_drop]
      omega
    rw [loadLoop, if_neg h, if_pos h', readLoop, InputStream.read_of_le (Nat.not_lt.mp h)]
    simp only [InputStream.read_of_lt hrest]
    rfl
  | case3 bytes metadata h h' ih =>
    have hrest : 8 ≤ (bytes.drop 8).length := by
      rw [List.length_drop]
      omega
    rw [loadLoop, if_neg h, if_neg h', ← ih, readLoop, InputStream.read_of_le (Nat.not_lt.mp h)]
    simp only [InputStream.read_of_le hrest, List.drop_drop]
    rfl

/-! ## The records -/

/-- The entry at the front of a file. -/
def decodeRecord (bytes : List Byte) : Option ((Nat × Nat) × List Byte) :=
  if bytes.length < 16 then none
  else some ((ofSizeBytes (slice bytes 0 8), ofSizeBytes (slice bytes 8 8)), bytes.drop 16)

theorem sizeBytes_ofSizeBytes (h : bytes.length = 8) : sizeBytes (ofSizeBytes bytes) = bytes := by
  rw [sizeBytes, ofSizeBytes]
  have hlen : bytes.reverse.length = 8 := List.length_reverse.trans h
  rw [← hlen, bigEndian_ofBigEndian, List.reverse_reverse]

theorem record_ne_nil (e : Nat × Nat) : record e ≠ [] := by
  intro he
  have hlen := length_record e
  rw [he] at hlen
  cases hlen

/-- An entry whose fields fit their eight bytes is read back. -/
theorem decodeRecord_record {e : Nat × Nat} (he : e.1 < 2 ^ 64 ∧ e.2 < 2 ^ 64) (rest : List Byte) :
    decodeRecord (record e ++ rest) = some (e, rest) := by
  have hlen : (record e ++ rest).length = 16 + rest.length := by simp
  rw [decodeRecord, if_neg (by omega), slice_record_offset, slice_record_size,
    List.drop_left' (length_record e), ofSizeBytes_sizeBytes he.1, ofSizeBytes_sizeBytes he.2]

/-- What is read is the record of what was read. -/
theorem of_decodeRecord {bytes rest : List Byte} {e : Nat × Nat}
    (h : decodeRecord bytes = some (e, rest)) :
    (e.1 < 2 ^ 64 ∧ e.2 < 2 ^ 64) ∧ bytes = record e ++ rest := by
  rw [decodeRecord] at h
  split at h
  · cases h
  · rename_i hlen
    cases h
    have hoffset : (slice bytes 0 8).length = 8 := length_slice (by omega)
    have hsize : (slice bytes 8 8).length = 8 := length_slice (by omega)
    refine ⟨⟨ofSizeBytes_lt hoffset.le, ofSizeBytes_lt hsize.le⟩, ?_⟩
    rw [record, sizeBytes_ofSizeBytes hoffset, sizeBytes_ofSizeBytes hsize, ← slice_add 8 8]
    exact (List.take_append_drop 16 bytes).symm

/-- The format of the file. -/
def format : RecordFormat (Nat × Nat) where
  Valid e := e.1 < 2 ^ 64 ∧ e.2 < 2 ^ 64
  encode := record
  decode := decodeRecord
  encode_ne_nil := record_ne_nil
  decode_encode := decodeRecord_record
  of_decode := of_decodeRecord

/-- The tail is what is left of the last sixteen bytes. -/
theorem length_records (bytes : List Byte) : 16 * (format.records bytes).1.length +
    (format.records bytes).2.length = bytes.length ∧ (format.records bytes).2.length < 16 := by
  obtain ⟨-, htail, hbytes⟩ := format.flatMap_records bytes
  refine ⟨?_, ?_⟩
  · have hlen := congrArg List.length hbytes
    rw [← length_flatMap_record (format.records bytes).1]
    exact List.length_append.symm.trans hlen
  · by_contra hge
    have hsome : decodeRecord (format.records bytes).2 = none := htail
    rw [decodeRecord, if_neg hge] at hsome
    cases hsome

/-- What `Load` makes of a file, in terms of its records and of the tail. -/
theorem loadLoop_eq (bytes : List Byte) (metadata : SizeMap) : loadLoop bytes metadata =
    if (format.records bytes).2.length < 8 then ofEntries metadata (format.records bytes).1 else ∅ := by
  induction bytes, metadata using loadLoop.induct with
  | case1 bytes metadata h =>
    have hnone : format.decode bytes = none := if_pos (by omega)
    rw [loadLoop, if_pos h, RecordFormat.records_of_none hnone, if_pos h]
    rfl
  | case2 bytes metadata h h' =>
    have hnone : format.decode bytes = none := if_pos h'
    rw [loadLoop, if_neg h, if_pos h', RecordFormat.records_of_none hnone, if_neg h]
  | case3 bytes metadata h h' ih =>
    have hsome : format.decode bytes = some (_, bytes.drop 16) := if_neg h'
    rw [loadLoop, if_neg h, if_neg h', ih, RecordFormat.records_of_some hsome]
    rfl

/-- An index with an entry stays one. -/
theorem ofEntries_ne_empty {es : List (Nat × Nat)} (h : metadata ≠ ∅ ∨ es ≠ []) :
    ofEntries metadata es ≠ ∅ := by
  induction es generalizing metadata with
  | nil => exact h.resolve_right fun hne => hne rfl
  | cons e es ih =>
    rw [ofEntries, List.foldl_cons, ← ofEntries]
    refine ih (.inl fun hempty => ?_)
    have hget : (metadata.insert e.1 e.2)[e.1]? = some e.2 := Std.ExtTreeMap.getElem?_insert_self
    rw [hempty] at hget
    cases hget

/-- **A file of whole records is loaded, any other one is taken for corrupted**, unless a file that has whole
records ends within the offset of the next one. What has been loaded can be saved and loaded again. -/
theorem load_whole_records_iff (filePath : String) (bytes : List Byte) :
    let st : FileMetadataStore := ⟨filePath, some bytes⟩
    (bytes.length % 16 = 0 → load st = ofEntries ∅ (format.records bytes).1) ∧
        (bytes.length % 16 ≠ 0 → load st = ∅) ∧ load (save st (load st)).2 = load st ↔
      bytes.length % 16 = 0 ∨ 8 ≤ bytes.length % 16 ∨ bytes.length < 16 := by
  intro st
  obtain ⟨hlen, hlt⟩ := length_records bytes
  have hload : load st =
      if (format.records bytes).2.length < 8 then ofEntries ∅ (format.records bytes).1 else ∅ :=
    loadLoop_eq bytes ∅
  have hsave : load (save st (load st)).2 = load st := load_save (bounded_load st) st
  constructor
  · rintro ⟨-, hcut, -⟩
    by_contra! hcond
    -- there are whole records, and part of an offset
    have hrecords : (format.records bytes).1 ≠ [] := by
      intro hnil
      rw [hnil, List.length_nil] at hlen
      omega
    have hempty := hcut hcond.1
    rw [hload, if_pos (by omega)] at hempty
    exact ofEntries_ne_empty (.inr hrecords) hempty
  · intro hcond
    refine ⟨fun hzero => ?_, fun hcut => ?_, hsave⟩
    · rw [hload, if_pos (by omega)]
    · rw [hload]
      split
      · have hnil : (format.records bytes).1 = [] := List.length_eq_zero_iff.mp (by omega)
        rw [hnil]
        rfl
      · rfl

/-- A file of one record, and the first byte of the next one. -/
theorem load_seventeen_bytes : ¬ ∀ (filePath : String) (bytes : List Byte),
    let st : FileMetadataStore := ⟨filePath, some bytes⟩
    (bytes.length % 16 = 0 → load st = ofEntries ∅ (format.records bytes).1) ∧
      (bytes.length % 16 ≠ 0 → load st = ∅) ∧ load (save st (load st)).2 = load st := by
  intro h
  have hempty := (h "raid_metadata.dat" (List.replicate 17 0)).2.1 (by decide)
  have hload : load ⟨"raid_metadata.dat", some (List.replicate 17 0)⟩ = (∅ : SizeMap).insert 0 0 := by
    decide +kernel
  rw [hload] at hempty
  have hget := congrArg (fun m : SizeMap => m[0]?) hempty
  simp at hget

end FileMetadataStore

end LDS
