import LDS.Library.Bytes
import LDS.Library.InputStream
import LDS.Library.Memory
import LDS.Library.Records
import LDS.Storage.DriverData

/-!
# The allocation file

The TCP driver keeps its allocations in `.tcp_allocations`: for every offset eight bytes of offset, eight
bytes of size and the data. `LoadAllocations` believes the size of a record before it has seen the data, and
keeps a record that the end of the file cuts off.

## Main definitions

* `TCPDriverComm.loadAllocations`: `LoadAllocations`, with the vectors that it asks for
* `TCPDriverComm.saveAllocations`: `SaveAllocations`
* `TCPDriverComm.allocationFormat`: the records of the file

## Main results

* `TCPDriverComm.loadLoop_flatMap`: whole records are loaded one after the other
* `TCPDriverComm.loadLoop_tail`: what becomes of the tail of the file
* `TCPDriverComm.load_allocations_iff`: when exactly a file is loaded up to its last whole record
* `TCPDriverComm.load_saved_allocations`: what has been saved is loaded
-/

namespace LDS

open Memory

namespace TCPDriverComm

/-- `std::map<size_t, std::vector<char>>`. -/
abbrev AllocationMap := Std.ExtTreeMap Nat (List Byte)

/-- How `LoadAllocations` ends, with the sizes of the vectors that it has asked for. -/
structure Loading where
  outcome : Outcome Unit
  allocations : AllocationMap
  asked : List Nat

/-- The two reads at the head of a record; `none` is a `break`. -/
def readHeader (file : InputStream) : Option ((Nat × Nat) × InputStream) :=
  let (offBytes, file₁) := file.read 8
  if file₁.good then
    let (sizeBytes, file₂) := file₁.read 8
    if file₂.good then some ((ofBigEndian offBytes, ofBigEndian sizeBytes), file₂)
    else none
  else none

theorem length_readHeader {file file₁ : InputStream} {header : Nat × Nat}
    (h : readHeader file = some (header, file₁)) : file₁.rest.length + 16 = file.rest.length := by
  simp only [readHeader] at h
  split at h
  · rename_i hoff
    split at h
    · rename_i hsize
      obtain ⟨-, rfl⟩ := Prod.mk.inj (Option.some.inj h)
      have hread := InputStream.length_read_of_good hoff
      have hread' := InputStream.length_read_of_good hsize
      omega
    · cases h
  · cases h

/-- The loop of `LoadAllocations`. `vector n` is how the construction of a vector of `n` bytes ends. -/
def loadLoop (vector : Nat → Outcome Unit) (file : InputStream) (allocations : AllocationMap)
    (asked : List Nat) : Loading :=
  if file.good then
    match _h : readHeader file with
    | none => ⟨.ok (), allocations, asked⟩
    | some ((offset, size), file₁) =>
      match vector size with
      | .ok () =>
        if !(file₁.read size).2.good && !(file₁.read size).2.eof then ⟨.ok (), allocations, asked ++ [size]⟩
        else
          -- the vector was filled with zeros, and keeps those over which nothing was read
          let data := (file₁.read size).1 ++ List.replicate (size - (file₁.read size).1.length) 0
          loadLoop vector (file₁.read size).2 (allocations.insert offset data) (asked ++ [size])
      | .throws what => ⟨.throws what, allocations, asked ++ [size]⟩
      | .undefined => ⟨.undefined, allocations, asked ++ [size]⟩
  else ⟨.ok (), allocations, asked⟩
termination_by file.rest.length
decreasing_by
  have hheader := length_readHeader _h
  have hdata := InputStream.length_read_le size file₁
  omega

/-- `LoadAllocations`; `none` is a file that does not open. -/
def loadAllocations (vector : Nat → Outcome Unit) (file : Option (List Byte)) (allocations : AllocationMap) :
    Loading :=
  match file with
  | none => ⟨.ok (), allocations, []⟩
  | some bytes => loadLoop vector (.ofBytes bytes) allocations []

/-- The bytes of a record. -/
def allocationRecord (e : Nat × List Byte) : List Byte :=
  bigEndian 8 e.1 ++ bigEndian 8 e.2.length ++ e.2

/-- `SaveAllocations`, without I/O errors: what is in the file afterwards. -/
def saveAllocations (allocations : AllocationMap) : List Byte :=
  allocations.toList.flatMap allocationRecord

/-! ## The records -/

/-- The size field of a record. -/
def sizeField (bytes : List Byte) : Nat := ofBigEndian (slice bytes 8 8)

/-- The record at the front of a file. -/
def decodeAllocation (bytes : List Byte) : Option ((Nat × List Byte) × List Byte) :=
  if bytes.length < 16 then none
  else if bytes.length < 16 + sizeField bytes then none
  else some ((ofBigEndian (slice bytes 0 8), slice bytes 16 (sizeField bytes)), bytes.drop (16 + sizeField bytes))

@[simp] theorem length_allocationRecord (e : Nat × List Byte) : (allocationRecord e).length = 16 + e.2.length := by
  simp only [allocationRecord, List.length_append, length_bigEndian]

variable {e : Nat × List Byte} {bytes rest tail : List Byte}

/-- The fields of a record, whatever follows it. -/
theorem slice_allocationRecord (e : Nat × List Byte) (rest : List Byte) :
    slice (allocationRecord e ++ rest) 0 8 = bigEndian 8 e.1 ∧
      slice (allocationRecord e ++ rest) 8 8 = bigEndian 8 e.2.length ∧
      slice (allocationRecord e ++ rest) 16 e.2.length = e.2 := by
  simp [allocationRecord, slice, List.drop_append, List.take_append]

theorem sizeField_allocationRecord (he : e.2.length < 2 ^ 64) (rest : List Byte) :
    sizeField (allocationRecord e ++ rest) = e.2.length := by
  rw [sizeField, (slice_allocationRecord e rest).2.1, ofBigEndian_bigEndian he]

theorem bigEndian_slice {a : Nat} (h : a + 8 ≤ bytes.length) : bigEndian 8 (ofBigEndian (slice bytes a 8)) = slice bytes a 8 := by
  have hlen : (slice bytes a 8).length = 8 := length_slice h
  have hback := bigEndian_ofBigEndian (slice bytes a 8)
  rwa [hlen] at hback

/-- The format of the file. -/
def allocationFormat : RecordFormat (Nat × List Byte) where
  Valid e := e.1 < 2 ^ 64 ∧ e.2.length < 2 ^ 64
  encode := allocationRecord
  decode := decodeAllocation
  encode_ne_nil e he := by
    have hlen := length_allocationRecord e
    rw [he, List.length_nil] at hlen
    omega
  decode_encode := by
    intro e he rest
    obtain ⟨hoffset, -, hdata⟩ := slice_allocationRecord e rest
    have hsize := sizeField_allocationRecord he.2 rest
    have hlen : (allocationRecord e ++ rest).length = 16 + e.2.length + rest.length := by simp
    rw [decodeAllocation, hsize, if_neg (by omega), if_neg (by omega), hoffset, hdata,
      ofBigEndian_bigEndian he.1, List.drop_left' (length_allocationRecord e)]
  of_decode := by
    intro bytes e rest h
    simp only [decodeAllocation] at h
    split at h
    · cases h
    · split at h
      · cases h
      · rename_i hheader hlen
        cases h
        have hdata : (slice bytes 16 (sizeField bytes)).length = sizeField bytes := length_slice (by omega)
        have hoffset : (slice bytes 0 8).length = 8 := length_slice (by omega)
        have hsize : (slice bytes 8 8).length = 8 := length_slice (by omega)
        refine ⟨⟨?_, ?_⟩, ?_⟩
        · have hlt := ofBigEndian_lt (slice bytes 0 8)
          rwa [hoffset] at hlt
        · rw [hdata]
          have hlt := ofBigEndian_lt (slice bytes 8 8)
          rwa [hsize] at hlt
        · rw [allocationRecord, hdata, bigEndian_slice (by omega), sizeField, bigEndian_slice (by omega),
            ← slice_add 8 8, ← slice_add 16]
          exact (List.take_append_drop _ bytes).symm

/-- A tail has no whole record: its header is cut off, or its data. -/
theorem decode_tail_eq_none : allocationFormat.decode tail = none ↔
    tail.length < 16 ∨ tail.length < 16 + sizeField tail := by
  change decodeAllocation tail = none ↔ _
  unfold decodeAllocation
  split
  · simp [*]
  · split <;> simp [*]

/-! ## Loading -/

variable {vector : Nat → Outcome Unit} {file file₁ : InputStream} {allocations : AllocationMap}
  {asked : List Nat} {offset size : Nat}

theorem readHeader_of_le (h : 16 ≤ bytes.length) : readHeader (.ofBytes bytes) =
    some ((ofBigEndian (slice bytes 0 8), sizeField bytes), .ofBytes (bytes.drop 16)) := by
  have hrest : 8 ≤ (bytes.drop 8).length := by
    rw [List.length_drop]
    omega
  have hoffset : 8 ≤ bytes.length := by omega
  rw [readHeader, InputStream.read_of_le hoffset]
  simp only [InputStream.read_of_le hrest, List.drop_drop]
  rfl

theorem readHeader_of_lt (h : bytes.length < 16) : readHeader (.ofBytes bytes) = none := by
  rw [readHeader]
  rcases Nat.lt_or_ge bytes.length 8 with hlt | hge
  · rw [InputStream.read_of_lt hlt]
    rfl
  · have hrest : (bytes.drop 8).length < 8 := by
      rw [List.length_drop]
      omega
    rw [InputStream.read_of_le hge]
    simp only [InputStream.read_of_lt hrest]
    rfl

/-- The loop breaks at the end of the file. -/
theorem loadLoop_of_break (h : readHeader file = none) :
    loadLoop vector file allocations asked = ⟨.ok (), allocations, asked⟩ := by
  rw [loadLoop]
  split
  · split
    · rfl
    · rename_i h'
      cases h.symm.trans h'
  · rfl

/-- It goes on when it has a vector for the data, and has read it or come to the end of the file. -/
theorem loadLoop_of_header (hgood : file.good) (h : readHeader file = some ((offset, size), file₁))
    (hvector : vector size = .ok ()) (hread : (file₁.read size).2.good ∨ (file₁.read size).2.eof) :
    loadLoop vector file allocations asked = loadLoop vector (file₁.read size).2
      (allocations.insert offset ((file₁.read size).1 ++ List.replicate (size - (file₁.read size).1.length) 0))
      (asked ++ [size]) := by
  -- only a stream that is bad leaves the loop here
  have hgo : ¬ (!(file₁.read size).2.good && !(file₁.read size).2.eof) = true := by
    rcases hread with hread | hread <;> simp [hread]
  rw [loadLoop, if_pos hgood]
  split
  · rename_i h'
    cases h.symm.trans h'
  · rename_i h'
    cases h.symm.trans h'
    rw [hvector]
    exact if_neg hgo

/-- A vector that cannot be made ends the loop. -/
theorem loadLoop_of_not_ok (hgood : file.good) (h : readHeader file = some ((offset, size), file₁))
    (hvector : vector size ≠ .ok ()) : (loadLoop vector file allocations asked).outcome ≠ .ok () := by
  rw [loadLoop, if_pos hgood]
  split
  · rename_i h'
    cases h.symm.trans h'
  · rename_i h'
    cases h.symm.trans h'
    split
    · exact absurd ‹_› hvector
    · nofun
    · nofun

/-- A whole record is loaded. -/
theorem loadLoop_record (he : allocationFormat.Valid e) (hvector : vector e.2.length = .ok ()) :
    loadLoop vector (.ofBytes (allocationRecord e ++ rest)) allocations asked =
      loadLoop vector (.ofBytes rest) (allocations.insert e.1 e.2) (asked ++ [e.2.length]) := by
  have hlen : (allocationRecord e ++ rest).length = 16 + e.2.length + rest.length := by simp
  have hsize := sizeField_allocationRecord he.2 rest
  have hoffset : ofBigEndian (slice (allocationRecord e ++ rest) 0 8) = e.1 := by
    rw [(slice_allocationRecord e rest).1, ofBigEndian_bigEndian he.1]
  have hheader : readHeader (.ofBytes (allocationRecord e ++ rest)) = _ := readHeader_of_le (by omega)
  -- behind the header come the bytes of the record
  have hdrop : (allocationRecord e ++ rest).drop 16 = e.2 ++ rest := by
    rw [allocationRecord, List.append_assoc]
    exact List.drop_left' (by simp)
  rw [hoffset, hsize, hdrop] at hheader
  have hread : (InputStream.ofBytes (e.2 ++ rest)).read e.2.length = (e.2, .ofBytes rest) := by
    rw [InputStream.read_of_le (by simp), List.take_left, List.drop_left]
  rw [loadLoop_of_header rfl hheader hvector (by rw [hread]; exact .inl rfl), hread, Nat.sub_self,
    List.replicate_zero, List.append_nil]

/-- Whole records are loaded one after the other. -/
theorem loadLoop_flatMap {es : List (Nat × List Byte)} (hes : ∀ e ∈ es, allocationFormat.Valid e)
    (hvector : ∀ e ∈ es, vector e.2.length = .ok ()) :
    loadLoop vector (.ofBytes (es.flatMap allocationRecord ++ tail)) allocations asked =
      loadLoop vector (.ofBytes tail) (allocations.insertMany es) (asked ++ es.map (·.2.length)) := by
  induction es generalizing allocations asked with
  | nil => rw [Std.ExtTreeMap.insertMany_nil, List.map_nil, List.append_nil]; rfl
  | cons e es ih =>
    obtain ⟨he, hes⟩ := List.forall_mem_cons.mp hes
    obtain ⟨hv, hvector⟩ := List.forall_mem_cons.mp hvector
    rw [List.flatMap_cons, List.append_assoc, loadLoop_record he hv, ih hes hvector,
      Std.ExtTreeMap.insertMany_cons, List.append_assoc]
    rfl

/-- What is kept of a record whose data is cut off. -/
def cutData (tail : List Byte) : List Byte :=
  tail.drop 16 ++ List.replicate (16 + sizeField tail - tail.length) 0

/-- A record whose data is cut off is kept, if there is a vector for it. -/
theorem loadLoop_tail (hge : 16 ≤ tail.length) (hlt : tail.length < 16 + sizeField tail)
    (hvector : vector (sizeField tail) = .ok ()) :
    loadLoop vector (.ofBytes tail) allocations asked =
      ⟨.ok (), allocations.insert (ofBigEndian (slice tail 0 8)) (cutData tail), asked ++ [sizeField tail]⟩ := by
  have hdrop : (tail.drop 16).length < sizeField tail := by
    rw [List.length_drop]
    omega
  have hread := InputStream.read_of_lt hdrop
  rw [loadLoop_of_header rfl (readHeader_of_le hge) hvector (by rw [hread]; exact .inr rfl), hread,
    loadLoop_of_break rfl, cutData]
  have hzeros : sizeField tail - (tail.drop 16).length = 16 + sizeField tail - tail.length := by
    rw [List.length_drop]
    omega
  rw [hzeros]

/-- A record of the file is no longer than the file. -/
theorem length_le_of_mem {es : List (Nat × List Byte)} (he : e ∈ es) :
    e.2.length ≤ (es.flatMap allocationRecord).length := by
  have hle := (List.sublist_flatten_of_mem (List.mem_map_of_mem (f := allocationRecord) he)).length_le
  rw [length_allocationRecord] at hle
  exact (Nat.le_add_left _ 16).trans hle

theorem insert_eq_self_iff {k : Nat} {data : List Byte} :
    allocations.insert k data = allocations ↔ allocations[k]? = some data := by
  constructor
  · intro h
    rw [← h, Std.ExtTreeMap.getElem?_insert_self]
  · intro h
    apply Std.ExtTreeMap.ext_getElem?
    intro k'
    rw [Std.ExtTreeMap.getElem?_insert]
    split
    · rename_i hk
      obtain rfl := Nat.compare_eq_eq.mp hk
      exact h.symm
    · rfl

/-- **A file is loaded up to its last whole record**, without an exception and without a vector that is longer
than the file, unless there is a whole header behind that record; and then only if what is kept of the record
that is cut off is what its offset has already. -/
theorem load_allocations_iff (hvector : ∀ n ≤ bytes.length, vector n = .ok ()) :
    let records := (allocationFormat.records bytes).1
    let tail := (allocationFormat.records bytes).2
    let loading := loadAllocations vector (some bytes) ∅
    loading.outcome = .ok () ∧ (∀ n ∈ loading.asked, n ≤ bytes.length) ∧
        loading.allocations = (∅ : AllocationMap).insertMany records ↔
      tail.length < 16 ∨ (sizeField tail ≤ bytes.length ∧
        ((∅ : AllocationMap).insertMany records)[ofBigEndian (slice tail 0 8)]? = some (cutData tail)) := by
  intro records tail loading
  obtain ⟨hvalid, htail, hbytes⟩ := allocationFormat.flatMap_records bytes
  have hlen : ∀ e ∈ records, e.2.length ≤ bytes.length := by
    intro e he
    rw [← hbytes, List.length_append]
    exact (length_le_of_mem he).trans (Nat.le_add_right _ _)
  have hload : loading =
      loadLoop vector (.ofBytes tail) ((∅ : AllocationMap).insertMany records) (records.map (·.2.length)) := by
    change loadLoop vector (.ofBytes bytes) ∅ [] = _
    rw [← List.nil_append (records.map _), ← loadLoop_flatMap hvalid fun e he => hvector _ (hlen e he)]
    exact congrArg (fun bs => loadLoop vector (.ofBytes bs) ∅ []) hbytes.symm
  have hasked : ∀ n ∈ records.map (·.2.length), n ≤ bytes.length := by
    intro n hn
    obtain ⟨e, he, rfl⟩ := List.mem_map.mp hn
    exact hlen e he
  rcases Nat.lt_or_ge tail.length 16 with hlt | hge
  · rw [hload, loadLoop_of_break (readHeader_of_lt hlt)]
    exact ⟨fun _ => .inl hlt, fun _ => ⟨rfl, hasked, rfl⟩⟩
  have hcut : tail.length < 16 + sizeField tail := (decode_tail_eq_none.mp htail).resolve_left hge.not_gt
  by_cases hv : vector (sizeField tail) = .ok ()
  · -- there is a vector for the record that is cut off
    rw [hload, loadLoop_tail hge hcut hv]
    simp only [List.mem_append, List.mem_singleton, insert_eq_self_iff, true_and]
    constructor
    · rintro ⟨hle, hget⟩
      exact .inr ⟨hle _ (.inr rfl), hget⟩
    · rintro (hlt | ⟨hle, hget⟩)
      · omega
      · refine ⟨?_, hget⟩
        rintro n (hn | rfl)
        · exact hasked n hn
        · exact hle
  · constructor
    · rintro ⟨hok, -⟩
      rw [hload] at hok
      exact absurd hok (loadLoop_of_not_ok rfl (readHeader_of_le hge) hv)
    · rintro (hlt | ⟨hle, -⟩)
      · omega
      · exact absurd (hvector _ hle) hv

/-- How the construction of a vector ends that there is memory for. -/
def makeVector (n : Nat) : Outcome Unit :=
  if n < 2 ^ 63 then .ok () else .throws "cannot create std::vector larger than max_size()"

theorem makeVector_of_le {m n : Nat} (hm : m < 2 ^ 63) (hle : n ≤ m) : makeVector n = .ok () :=
  if_pos (hle.trans_lt hm)

/-- A file of one record and one byte more. -/
theorem load_one_record :
    let loading := loadAllocations makeVector (some (allocationRecord (8, [7]) ++ [0])) ∅
    loading.outcome = .ok () ∧ (∀ n ∈ loading.asked, n ≤ 18) ∧
      loading.allocations = (∅ : AllocationMap).insertMany [(8, [7])] := by
  have hvalid : ∀ e ∈ [(8, [7])], allocationFormat.Valid e := by
    intro e he
    obtain rfl := List.mem_singleton.mp he
    exact ⟨by decide, by decide⟩
  have hrecords : allocationFormat.records (allocationRecord (8, [7]) ++ [0]) = ([(8, [7])], [0]) :=
    RecordFormat.records_flatMap hvalid (decode_tail_eq_none.mpr (.inl (by decide)))
  have hvector : ∀ n ≤ (allocationRecord (8, [7]) ++ [0]).length, makeVector n = .ok () :=
    fun n hn => makeVector_of_le (by decide) hn
  have h := (load_allocations_iff hvector).mpr (.inl (by rw [hrecords]; decide))
  rwa [hrecords] at h

/-- A header that announces four bytes, and two of them. -/
theorem load_cut_record : ¬ ∀ bytes : List Byte, (∀ n ≤ bytes.length, makeVector n = .ok ()) →
    let loading := loadAllocations makeVector (some bytes) ∅
    loading.outcome = .ok () ∧ (∀ n ∈ loading.asked, n ≤ bytes.length) ∧
      loading.allocations = (∅ : AllocationMap).insertMany (allocationFormat.records bytes).1 := by
  intro h
  have hsize : sizeField (bigEndian 8 0 ++ bigEndian 8 4 ++ [1, 2]) = 4 := by decide
  -- a record that is cut off is no record
  have hnone : allocationFormat.decode (bigEndian 8 0 ++ bigEndian 8 4 ++ [1, 2]) = none :=
    decode_tail_eq_none.mpr (.inr (by rw [hsize]; decide))
  have hload := (h (bigEndian 8 0 ++ bigEndian 8 4 ++ [1, 2]) fun n hn => makeVector_of_le (by decide) hn).2.2
  rw [RecordFormat.records_of_none hnone, loadAllocations,
    loadLoop_tail (by decide) (by rw [hsize]; decide) (by rw [hsize]; rfl)] at hload
  have hoffset : ofBigEndian (slice (bigEndian 8 0 ++ bigEndian 8 4 ++ [1, 2]) 0 8) = 0 := by decide
  rw [hoffset] at hload
  have hget := congrArg (fun m : AllocationMap => m[0]?) hload
  simp at hget

/-! ## Saving and loading -/

/-- The entries of a map make it up. -/
theorem insertMany_toList (allocations : AllocationMap) :
    (∅ : AllocationMap).insertMany allocations.toList = allocations := by
  apply Std.ExtTreeMap.ext_getElem?
  intro k
  cases hk : allocations[k]? with
  | some data =>
    exact Std.ExtTreeMap.getElem?_insertMany_list_of_mem (Nat.compare_eq_eq.mpr rfl)
      allocations.distinct_keys_toList (Std.ExtTreeMap.mem_toList_iff_getElem?_eq_some.mpr hk)
  | none =>
    rw [Std.ExtTreeMap.getElem?_insertMany_list_of_contains_eq_false, Std.ExtTreeMap.getElem?_empty]
    rw [List.contains_eq_mem, decide_eq_false_iff_not]
    -- an offset of an entry has an allocation
    intro hmem
    obtain ⟨e, he, rfl⟩ := List.mem_map.mp hmem
    rw [Std.ExtTreeMap.mem_toList_iff_getElem?_eq_some.mp he] at hk
    cases hk

/-- **What has been saved is loaded.** -/
theorem load_saved_allocations (hkeys : ∀ k ∈ allocations, k < 2 ^ 64)
    (hfile : (saveAllocations allocations).length < 2 ^ 63)
    (hvector : ∀ n ≤ (saveAllocations allocations).length, vector n = .ok ()) :
    (loadAllocations vector (some (saveAllocations allocations)) ∅).outcome = .ok () ∧
      (loadAllocations vector (some (saveAllocations allocations)) ∅).allocations = allocations := by
  have hlen : ∀ e ∈ allocations.toList, e.2.length ≤ (saveAllocations allocations).length :=
    fun e he => length_le_of_mem he
  have hvalid : ∀ e ∈ allocations.toList, allocationFormat.Valid e := by
    intro e he
    have hmem := Std.ExtTreeMap.mem_toList_iff_getElem?_eq_some.mp he
    refine ⟨hkeys e.1 ?_, (hlen e he).trans_lt (hfile.trans (by decide))⟩
    exact Std.ExtTreeMap.mem_iff_isSome_getElem?.mpr (by rw [hmem]; rfl)
  -- behind the last record the header is missing
  have hbreak : readHeader (.ofBytes []) = none := readHeader_of_lt (Nat.zero_lt_succ 15)
  have hload : loadAllocations vector (some (saveAllocations allocations)) ∅ =
      ⟨.ok (), allocations, allocations.toList.map (·.2.length)⟩ := by
    rw [loadAllocations, saveAllocations, ← List.append_nil (List.flatMap _ _),
      loadLoop_flatMap hvalid fun e he => hvector _ (hlen e he), loadLoop_of_break hbreak, insertMany_toList,
      List.nil_append]
  rw [hload]
  exact ⟨rfl, rfl⟩

/-- The map with no data at one offset, and a byte at another one. -/
theorem load_saved_two : (loadAllocations makeVector
    (some (saveAllocations (((∅ : AllocationMap).insert 0 []).insert 8 [7]))) ∅).outcome = .ok () ∧
      (loadAllocations makeVector
        (some (saveAllocations (((∅ : AllocationMap).insert 0 []).insert 8 [7]))) ∅).allocations =
          ((∅ : AllocationMap).insert 0 []).insert 8 [7] := by
  have hlen : (saveAllocations (((∅ : AllocationMap).insert 0 []).insert 8 [7])).length = 33 := by decide +kernel
  refine load_saved_allocations (fun k hk => ?_) (by rw [hlen]; decide) fun n hn => ?_
  · simp only [Std.ExtTreeMap.mem_insert, Nat.compare_eq_eq, Std.ExtTreeMap.not_mem_empty, or_false] at hk
    omega
  · exact makeVector_of_le (by rw [hlen]; decide) hn

end TCPDriverComm

end LDS
