import LDS.Storage.PartialWrite
import LDS.Storage.Restart

/-!
# A changed geometry

Neither the number of minions nor their size is recorded with the images, and the images keep their names:
a storage that is built over the directory of another geometry takes the files for whatever minions they
are now. Nothing tells it from one that is right.

## Main definitions

* `RAIDStorage.Stopped path s`: a storage over an empty directory was stopped in the state `s`
* `RAIDStorage.servedByte s x`: the byte `x` as `s` serves it
* `RAIDStorage.ServedAsBefore`: a start with other numbers fails, or serves the same bytes

## Main results

* `RAIDStorage.byteFrom_of_read`: where the bytes of a successful `Read` come from
* `RAIDStorage.servedAsBefore_iff`: the geometries that serve the same bytes
-/

namespace LDS

open Memory

namespace StorageMinionFile

variable {m : StorageMinionFile} {offset : Nat} {buf : List Byte}

/-- A `Read` throws, or has read a range of the minion, all of it from the image. -/
theorem read_outcome (m : StorageMinionFile) (offset : Nat) (buf : List Byte) :
    (∃ what buf', buf'.length = buf.length ∧ read m offset buf = (.throws what, buf')) ∨
    (offset + buf.length ≤ m.size ∧ (0 < buf.length → offset + buf.length ≤ m.image.length) ∧
      read m offset buf = (.ok (), slice m.image offset buf.length)) := by
  by_cases hg : addSize offset buf.length > m.size
  · exact .inl ⟨_, buf, rfl, if_pos hg⟩
  by_cases hw : 2 ^ 63 ≤ offset + buf.length
  · exact .inl ⟨_, buf, rfl, by rw [read, readBy, if_neg hg, pread, if_pos hw]⟩
  have hfit : offset + buf.length ≤ m.size := le_of_not_addSize_gt hg (by omega)
  have hp : pread m.image buf.length offset =
      some (slice m.image offset (min buf.length maxTransfer)) := if_neg hw
  have hlen : (slice m.image offset (min buf.length maxTransfer)).length =
      min (min buf.length maxTransfer) (m.image.length - offset) := by
    rw [slice, List.length_take, List.length_drop]
  rw [read, readBy, if_neg hg, hp]
  by_cases hs : (slice m.image offset (min buf.length maxTransfer)).length = buf.length
  · refine .inr ⟨hfit, fun _ => by omega, ?_⟩
    -- a transfer that is complete has moved all of it
    have hmin : min buf.length maxTransfer = buf.length := by omega
    rw [hmin] at hs ⊢
    simp only [hs, ne_eq, not_true, ↓reduceIte, List.drop_length, List.append_nil]
  · refine .inl ⟨_, _, ?_, by simp only [ne_eq, hs, not_false_eq_true, ↓reduceIte]; rfl⟩
    rw [List.length_append, List.length_drop]
    omega

theorem read_first {m : StorageMinionFile} {b : Byte} (hs : 0 < m.size) (h : m.image[0]? = some b) :
    read m 0 [0] = (.ok (), [b]) := by
  obtain ⟨rest, hrest⟩ := List.head?_eq_some_iff.mp (List.head?_eq_getElem?.trans h)
  have hg : ¬ addSize 0 1 > m.size := Nat.not_lt.mpr hs
  have hp : pread m.image 1 0 = some [b] := by
    rw [hrest]
    rfl
  rw [read, readBy, List.length_singleton, if_neg hg, hp]
  rfl

end StorageMinionFile

namespace RAIDStorage

variable {g : Geometry}

/-! ## Where the bytes of a `Read` come from -/

section Reads

variable {s s' : RAIDStorage StorageMinionFile FileMetadataStore g}

/-- The byte `b` stands for `x` in one of the two images of its pair. -/
def ByteFrom (s : RAIDStorage StorageMinionFile FileMetadataStore g) (x : Nat) (b : Byte) : Prop :=
  x < g.capacity ∧ ∃ i, (i = g.primary (g.primaryIndex x) ∨ i = g.mirrorIndex (g.primaryIndex x)) ∧
    (s.minions i).image[x % g.stripeSize]? = some b

/-- What a call of a `Read` answers. -/
def ReadsImage (s : RAIDStorage StorageMinionFile FileMetadataStore g) : (o : RAIDCall g) → o.Answer → Prop
  | .minionRead i a buf, r => r.2.length = buf.length ∧ (r.1 = .ok () → 0 < buf.length →
      a + buf.length ≤ (s.minions i).size ∧ a + buf.length ≤ (s.minions i).image.length ∧
        r.2 = slice (s.minions i).image a buf.length)
  | _, _ => True

theorem readsImage_of_handler {i : Fin g.numMinions} {offset : Nat} {buf : List Byte}
    {a : Except String Unit × List Byte} (h : handler (.minionRead i offset buf) s = some (a, s')) :
    ReadsImage s (.minionRead i offset buf) a ∧ s' = s := by
  obtain ⟨r, hr, he⟩ := Option.map_eq_some_iff.mp h
  obtain ⟨rfl, rfl⟩ := Prod.mk.inj he
  rcases StorageMinionFile.read_outcome (s.minions i) offset buf with
    ⟨what, buf', hl, hread⟩ | ⟨hfit, himage, hread⟩
  · have hread : IStorageMinion.read (s.minions i) offset buf = (.throws what, buf') := hread
    rw [hread] at hr ⊢
    obtain rfl := Option.some.inj hr
    exact ⟨⟨hl, fun h => by cases h⟩, rfl⟩
  · have hread : IStorageMinion.read (s.minions i) offset buf =
        (.ok (), slice (s.minions i).image offset buf.length) := hread
    rw [hread] at hr ⊢
    refine ⟨⟨?_, fun _ hpos => ⟨hfit, himage hpos, rfl⟩⟩, rfl⟩
    -- an empty buffer is filled anywhere
    rcases Nat.eq_zero_or_pos buf.length with h0 | hpos
    · rw [h0, slice, List.take_zero]
      rfl
    · exact length_slice (himage hpos)

/-- A chunk that was read from a minion has come from its image, and lies inside the device. -/
theorem byteFrom_of_chunk {s : RAIDStorage StorageMinionFile FileMetadataStore g} {offset n : Nat}
    (hz : ∀ i, (s.minions i).size = g.stripeSize)
    (hn : 0 < n) (hS : 0 < g.stripeSize) (h64 : offset < 2 ^ 64)
    (hs : offset % g.stripeSize + n ≤ g.stripeSize) {i : Fin g.numMinions}
    (hi : i = g.primary (g.primaryIndex offset) ∨ i = g.mirrorIndex (g.primaryIndex offset))
    {r : Except String Unit × List Byte} {buf : List Byte} (hl : buf.length = n)
    (h : ReadsImage s (.minionRead i (g.localOffset offset) buf) r) (hok : r.1 = .ok ()) :
    r.2.length = n ∧ ∀ k (hk : k < r.2.length), ByteFrom s (offset + k) r.2[k] := by
  obtain ⟨hlen, hread⟩ := h
  obtain ⟨hfit, himage, hbytes⟩ := hread hok (by omega)
  rw [hl] at hlen hfit himage hbytes
  rw [hz i] at hfit
  -- beyond the device a chunk starts beyond its minion
  have hin : offset < g.capacity := by
    by_contra hout
    have := Geometry.stripeSize_le_localOffset hS (Nat.not_lt.mp hout) h64
    omega
  have hend : offset + n ≤ g.capacity := by
    have hchunk := Geometry.chunk_end_le hin n
    rwa [Geometry.chunkLen, Nat.min_eq_left (by omega)] at hchunk
  refine ⟨hlen, fun k hk => ⟨by omega, i, ?_, ?_⟩⟩
  · rwa [Geometry.primaryIndex_add (by omega) (by omega)]
  · rw [(Geometry.add_div_mod (by omega : offset % g.stripeSize + k < g.stripeSize)).2]
    rw [Geometry.localOffset_eq_mod hin h64] at hbytes himage
    have hk' : (slice (s.minions i).image (offset % g.stripeSize) n)[k]? = some r.2[k] := by
      rw [← hbytes]
      exact List.getElem?_eq_getElem hk
    rwa [slice, List.getElem?_take_of_lt (by omega), List.getElem?_drop] at hk'

/-- The loop of `Read` over images. -/
theorem obeys_readLoop_bytes (hz : ∀ i, (s.minions i).size = g.stripeSize)
    (offset remaining bufPos : Nat) (buffer : List Byte)
    (h64 : offset + remaining ≤ 2 ^ 64) (hb : bufPos + remaining ≤ buffer.length) :
    Prog.Obeys (.plain (ReadsImage s) (fun o => ∃ i a buf, o = .minionRead i a buf) True)
      (fun _ r => r.1 = .ok () → ∃ bytes, bytes.length = remaining ∧
        r.2 = overwrite buffer bufPos bytes ∧
        ∀ k (hk : k < bytes.length), ByteFrom s (offset + k) bytes[k])
      () (readLoop g offset remaining bufPos buffer) := by
  induction remaining using Nat.strong_induction_on generalizing offset bufPos buffer with
  | _ remaining ih =>
    rw [readLoop]
    split
    · rename_i hr
      split
      · exact .abort trivial
      · rename_i hS
        have hS' := Nat.pos_of_ne_zero hS
        have hn := Geometry.chunkLen_pos hr hS' offset
        have hle := g.chunkLen_le offset remaining
        have hs : offset % g.stripeSize + g.chunkLen offset remaining ≤ g.stripeSize := by
          have := Nat.mod_lt offset hS'
          simp only [Geometry.chunkLen]
          omega
        generalize hc : g.chunkLen offset remaining = n at hn hle hs
        -- a chunk that was read, and the rest of the loop behind it
        have hnext : ∀ (i : Fin g.numMinions) (buf : List Byte)
            (r : Except String Unit × List Byte),
            (i = g.primary (g.primaryIndex offset) ∨ i = g.mirrorIndex (g.primaryIndex offset)) →
            buf.length = n → ReadsImage s (.minionRead i (g.localOffset offset) buf) r →
            r.1 = .ok () →
            Prog.Obeys (.plain (ReadsImage s) (fun o => ∃ i a buf, o = .minionRead i a buf) True)
              (fun _ r => r.1 = .ok () → ∃ bytes, bytes.length = remaining ∧
                r.2 = overwrite buffer bufPos bytes ∧
                ∀ k (hk : k < bytes.length), ByteFrom s (offset + k) bytes[k])
              () (readLoop g (addSize offset n) (remaining - n) (bufPos + n)
                (overwrite buffer bufPos r.2)) := by
          intro i buf r hi hl hread hok
          obtain ⟨hlen, hbytes⟩ := byteFrom_of_chunk hz hn hS' (by omega) hs hi hl hread hok
          have hb' : (overwrite buffer bufPos r.2).length = buffer.length :=
            length_overwrite (by omega)
          have hoffset : addSize offset n = offset + n ∨ remaining - n = 0 := by
            rcases Nat.lt_or_ge (offset + n) (2 ^ 64) with h | h
            · exact .inl (addSize_eq h)
            · exact .inr (by omega)
          have h64' : addSize offset n + (remaining - n) ≤ 2 ^ 64 := by
            have := addSize_lt offset n
            omega
          refine (ih _ (by omega) _ _ _ h64' (by omega)).mono ?_
          rintro - r' hrest hok'
          obtain ⟨bytes, hlen', hbuf, hbytes'⟩ := hrest hok'
          refine ⟨r.2 ++ bytes, by rw [List.length_append]; omega, ?_, fun k hk => ?_⟩
          · rw [hbuf, ← overwrite_append (by omega), hlen]
          · rw [List.getElem_append]
            split
            · exact hbytes k _
            · rename_i hkn
              rw [List.length_append] at hk
              have hb := hbytes' (k - r.2.length) (by omega)
              rwa [show addSize offset n + (k - r.2.length) = offset + k by omega] at hb
        refine .call ⟨_, _, _, rfl⟩ ?_
        rintro ⟨what | ⟨⟩, tempBuf⟩ ha
        · refine .call ⟨_, _, _, rfl⟩ ?_
          rintro ⟨what | ⟨⟩, tempBuf'⟩ ha'
          · exact .ret fun h => by cases h
          · exact hnext _ _ _ (.inr rfl) (ha.1.trans (by simp)) ha' rfl
        · exact hnext _ _ _ (.inl rfl) (by simp) ha rfl
    · rename_i hr
      obtain rfl := Nat.eq_zero_of_not_pos hr
      exact .ret fun _ => ⟨[], rfl, overwrite_nil.symm, fun k hk => by cases hk⟩

/-- **The bytes of a `Read` that succeeds** come from the images of their pairs. -/
theorem byteFrom_of_read (hz : ∀ i, (s.minions i).size = g.stripeSize) {data data' : DriverData}
    (h64 : data.offset + data.len ≤ 2 ^ 64) (h : (read g data).run handler s = some (data', s'))
    (hst : data'.status = .success) :
    data'.buffer.length = data.len ∧
      ∀ k (hk : k < data'.buffer.length), ByteFrom s (data.offset + k) data'.buffer[k] := by
  have hl := length_readBuffer data
  have hp : Prog.Obeys (.plain (ReadsImage s) (fun o => ∃ i a buf, o = .minionRead i a buf) True)
      (fun _ data' => data'.status = .success → data'.buffer.length = data.len ∧
        ∀ k (hk : k < data'.buffer.length), ByteFrom s (data.offset + k) data'.buffer[k])
      () (read g data) := by
    refine (obeys_readLoop_bytes hz _ _ _ _ h64 (by omega)).bind ?_
    rintro - ⟨what | ⟨⟩, buffer⟩ hbytes
    · exact .ret fun h => by cases h
    · obtain ⟨bytes, hlen, hbuf, hbytes⟩ := hbytes rfl
      -- the loop fills the buffer from its start to its end
      obtain rfl : buffer = bytes := hbuf.trans (overwrite_eq_of_length (by omega))
      exact .ret fun _ => ⟨hlen, hbytes⟩
  obtain ⟨-, -, hQ⟩ := hp.of_run (I := (· = s)) (by
    rintro - s₁ o a s₂ rfl ⟨i, b, buf, rfl⟩ hh
    exact readsImage_of_handler hh) rfl h
  exact hQ hst

end Reads

/-! ## Stopping and starting with other numbers -/

section Start

variable {path : String} {s : RAIDStorage CompleteFile FileMetadataStore g} {numMinions minionSize : Nat}

/-- The state in which a storage over an empty directory is stopped, when all its requests are done, and
the copies are equal. Any calls may have failed. -/
inductive Stopped (path : String) (s : RAIDStorage CompleteFile FileMetadataStore g) : Prop
  | run {s₀ : RAIDStorage CompleteFile FileMetadataStore g} {ι : Type} [DecidableEq ι]
      {isWrite : ι → Bool} {data : ι → DriverData} {T : ι → RAIDProg g DriverData}
      {tr : List (ι × Exchange (RAIDCall g) RAIDCall.Answer)}
      (h₀ : (BackendDirectory.empty path).start g.numMinions g.stripeSize = .ok ⟨g, s₀.raw⟩)
      (hr : Pool.Run Answers (fun t => request g (isWrite t) (data t)) s₀ tr T s)
      (hdone : ∀ t, (T t).value?.isSome) (hm : s.Mirrored) : Stopped path s

/-- The byte `x` that the storage serves, zero where it has none. -/
def servedByte (s : RAIDStorage CompleteFile FileMetadataStore g) (x : Nat) : Byte :=
  if x < g.capacity then s.device x else 0

/-- A start over what `s` has left behind throws, or every `Read` that succeeds returns the bytes that `s`
served, and every primary equals its mirror. -/
def ServedAsBefore (path : String) (s : RAIDStorage CompleteFile FileMetadataStore g)
    (numMinions minionSize : Nat) : Prop :=
  ∀ g' s', ((BackendDirectory.empty path).stop s.raw).start numMinions minionSize = .ok ⟨g', s'⟩ →
    (∀ data data' s'', data.offset + data.len ≤ 2 ^ 64 →
      (read g' data).run handler s' = some (data', s'') → data'.status = .success →
      ∀ k < data.len, data'.buffer[k]? = some (servedByte s (data.offset + k))) ∧
    ∀ i, (s'.minions (g'.primary i)).image = (s'.minions (g'.mirrorIndex i)).image

/-- What the file of the minion `i` holds. -/
def imageOf (s : RAIDStorage CompleteFile FileMetadataStore g) (i : Nat) : List Byte :=
  if h : i < g.numMinions then (s.minions ⟨i, h⟩).1.image else []

theorem imageOf_val (s : RAIDStorage CompleteFile FileMetadataStore g) (i : Fin g.numMinions) :
    s.imageOf i = (s.minions i).1.image := dif_pos i.isLt

theorem length_imageOf (hz : s.Sized) (i : Fin g.numMinions) : (s.imageOf i).length = g.stripeSize := by
  rw [imageOf_val, (s.minions i).2.1]
  exact hz i

/-- A byte of a file is a cell of its minion. -/
theorem getElem?_imageOf {i : Fin g.numMinions} {r : Nat} {b : Byte} (h : (s.imageOf i)[r]? = some b) :
    s.cells i r = b := by
  rw [imageOf_val] at h
  obtain ⟨hr, hb⟩ := List.getElem?_eq_some_iff.mp h
  exact (view_of_lt hr).trans hb

theorem getElem?_imageOf_of_lt (hz : s.Sized) {i : Fin g.numMinions} {r : Nat} (hr : r < g.stripeSize) :
    (s.imageOf i)[r]? = some (s.cells i r) := by
  have hlt : r < (s.imageOf i).length := by rwa [length_imageOf hz]
  rw [List.getElem?_eq_getElem hlt, getElem?_imageOf (List.getElem?_eq_getElem hlt)]

theorem Stopped.sized (hs : Stopped path s) : s.Sized := by
  obtain ⟨h₀, hr, -, -⟩ := hs
  obtain ⟨-, -, -, hz, -⟩ := start_empty_inv h₀
  exact hr.invariant (I := fun _ _ s => s.Sized) hz fun tr T s e T' s' hs hz => by
    cases hs with
    | call _ hR => exact fun i => (answers_size hR i).trans (hz i)

theorem Stopped.mirrored (hs : Stopped path s) : s.Mirrored := by
  obtain ⟨-, -, -, hm⟩ := hs
  exact hm

/-- The copies of a pair are the same files. -/
theorem Stopped.imageOf_mirror (hs : Stopped path s) (i : Fin g.numPrimary) :
    s.imageOf (g.mirrorIndex i) = s.imageOf (g.primary i) := by
  rw [imageOf_val, imageOf_val]
  exact LawfulMinion.contents_eq_of_cells ((hs.sized _).trans (hs.sized _).symm)
    (congrFun hs.mirrored i).symm

/-- What is built over the directory that `s` has left behind. -/
theorem start_stop_inv {g' : Geometry} {s' : RAIDStorage StorageMinionFile FileMetadataStore g'}
    (h : ((BackendDirectory.empty path).stop s.raw).start numMinions minionSize = .ok ⟨g', s'⟩) :
    numMinions = g'.numMinions ∧ minionSize = g'.stripeSize ∧
      (∀ i < numMinions, s.imageOf i = [] → minionSize < 2 ^ 63) ∧
      (∀ i, (s'.minions i).size = g'.stripeSize) ∧
      ∀ i, (s'.minions i).image =
        if s.imageOf i = [] then List.replicate g'.stripeSize 0 else s.imageOf i := by
  obtain ⟨g₁, hn, hsize, -, hi, he⟩ := BackendDirectory.start_inv h
  obtain ⟨rfl, he⟩ := Sigma.mk.inj he
  obtain rfl := eq_of_heq he
  exact ⟨hn, hsize, hi, fun _ => rfl, fun _ => rfl⟩

/-! ## The geometries that serve the same bytes -/

/-- Over empty files everything is zero. -/
theorem Stopped.served_of_empty (hs : Stopped path s) (hS : g.stripeSize = 0) :
    ServedAsBefore path s numMinions minionSize := by
  intro g' s' h
  obtain ⟨-, -, -, hz, himage⟩ := start_stop_inv h
  -- a minion of size zero has an empty image
  have hnil : ∀ i, s.imageOf i = [] := by
    intro i
    rw [imageOf]
    split
    · rename_i hi
      have hl := length_imageOf hs.sized ⟨i, hi⟩
      rw [imageOf_val, hS] at hl
      exact List.eq_nil_of_length_eq_zero hl
    · rfl
  simp only [hnil, if_true] at himage
  refine ⟨fun data data' s'' h64 hread hst k hk => ?_, fun i => by rw [himage, himage]⟩
  obtain ⟨hl, hbytes⟩ := byteFrom_of_read hz h64 hread hst
  obtain ⟨-, i, -, hb⟩ := hbytes k (by omega)
  rw [himage, List.getElem?_replicate] at hb
  split at hb
  · rw [List.getElem?_eq_getElem (by omega), ← Option.some.inj hb, servedByte, if_neg]
    rw [Geometry.capacity, hS, Nat.mul_zero]
    omega
  · cases hb

/-- With as many minions, of the same size or in one pair, the files are still in their places. -/
theorem Stopped.served_of_places (hs : Stopped path s) (hS : 0 < g.stripeSize)
    (hn : numMinions = g.numMinions) (hsize : minionSize = g.stripeSize ∨ g.numPrimary = 1) :
    ServedAsBefore path s numMinions minionSize := by
  intro g' s' h
  obtain ⟨hn', rfl, -, hz, himage⟩ := start_stop_inv h
  have hP : g'.numPrimary = g.numPrimary := by
    simp only [Geometry.numMinions] at hn hn'
    omega
  have hopened : ∀ i, (s'.minions i).image = s.imageOf i := by
    intro i
    have hl := length_imageOf hs.sized (i.cast (by rw [← hn', hn]))
    rw [himage, if_neg]
    intro hnil
    rw [Fin.val_cast, hnil] at hl
    exact hS.ne hl
  refine ⟨fun data data' s'' h64 hread hst k hk => ?_, fun i => ?_⟩
  · obtain ⟨hl, hbytes⟩ := byteFrom_of_read hz h64 hread hst
    obtain ⟨hcap, i, hi, hb⟩ := hbytes k (by omega)
    rw [List.getElem?_eq_getElem (by omega)]
    generalize hx : data.offset + k = x at hcap hi hb
    generalize data'.buffer[k] = b at hb
    rw [hopened] at hb
    have hmod : x % g'.stripeSize < g.stripeSize := by
      obtain ⟨hlt, -⟩ := List.getElem?_eq_some_iff.mp hb
      have hlen := length_imageOf hs.sized (i.cast (by rw [← hn', hn]))
      rw [Fin.val_cast] at hlen
      exact hlen ▸ hlt
    -- the byte has the same place in both geometries
    obtain ⟨hin, hoffset, hpair⟩ : x < g.capacity ∧ x % g'.stripeSize = x % g.stripeSize ∧
        (g'.primaryIndex x : Nat) = g.primaryIndex x := by
      simp only [Geometry.primaryIndex, hP, Geometry.capacity] at hcap ⊢
      rcases hsize with hS' | hP₁
      · rw [hS'] at hcap ⊢
        exact ⟨hcap, rfl, rfl⟩
      · rw [hP₁, Nat.one_mul] at hcap ⊢
        rw [Nat.mod_eq_of_lt hcap] at hmod ⊢
        rw [Nat.mod_eq_of_lt hmod, Nat.mod_one, Nat.mod_one]
        exact ⟨hmod, rfl, rfl⟩
    have hcell : s.cells (g.primary (g.primaryIndex x)) (x % g.stripeSize) = b := by
      rw [hoffset] at hb
      rcases hi with rfl | rfl
      · exact getElem?_imageOf (i := g.primary (g.primaryIndex x)) (by
          rwa [show (g.primary (g.primaryIndex x) : Nat) = g'.primary (g'.primaryIndex x) from hpair.symm])
      · refine (congrFun (congrFun hs.mirrored (g.primaryIndex x)) _).trans ?_
        exact getElem?_imageOf (i := g.mirrorIndex (g.primaryIndex x)) (by
          rwa [show (g.mirrorIndex (g.primaryIndex x) : Nat) = g'.mirrorIndex (g'.primaryIndex x) by
            simp only [Geometry.mirrorIndex, hP, hpair]])
    rw [servedByte, if_pos hin, device, Geometry.device, Function.comp_apply,
      Geometry.localOffset_eq_mod hin (by omega), hcell]
  · rw [hopened, hopened]
    have hmirror := hs.imageOf_mirror (i.cast hP)
    simp only [Geometry.mirrorIndex, Geometry.primary, Fin.val_cast, hP] at hmirror ⊢
    exact hmirror.symm

/-! ## The geometries that do not -/

theorem blank_inFiles (path : String) (g : Geometry) (hS : g.stripeSize < 2 ^ 63) :
    (inFiles path g hS).Blank where
  sized _ := rfl
  cells_eq _ := view_replicate

/-- One byte is written at the start of a stripe, and the storage is stopped. -/
theorem exists_stopped (g : Geometry) (hp : path ≠ "") (hS : g.stripeSize < 2 ^ 63) (hS₀ : 0 < g.stripeSize)
    (j : Fin g.numPrimary) (hj : j * g.stripeSize < 2 ^ 63) :
    ∃ s : RAIDStorage CompleteFile FileMetadataStore g, Stopped path s ∧
      (∀ i, s.cells i 0 = if i = g.primary j ∨ i = g.mirrorIndex j then 1 else 0) ∧
      ∀ x, g.InRange x 1 → x ≠ j * g.stripeSize → s.device x = 0 := by
  set data := DriverData.ofWrite 0 (j * g.stripeSize) [1] with hdata
  have hblank := blank_inFiles path g hS
  have hcap : j * g.stripeSize + g.stripeSize ≤ g.capacity := by
    rw [← Nat.succ_mul]
    exact Nat.mul_le_mul_right _ j.isLt
  have hr : g.InRange data.offset data.buffer.length := fun _ => by
    simp only [hdata, DriverData.ofWrite, DriverData.new, List.length_singleton]
    omega
  obtain ⟨s, hrun, -⟩ := run_write data hblank.sized (by omega) hr fun _ _ => rfl
  obtain ⟨tr, hsteps⟩ := steps_of_run hrun
  have hu := unfailing_write hsteps rfl
  have hpool : Pool.Run Answers (fun _ : Unit => request g true data) (inFiles path g hS) _ _ s :=
    .of_steps (i := ()) hsteps
  refine ⟨s, .run (start_inFiles hp g hS) hpool (fun t => ?_) (mirrored_write hsteps hu hblank.mirrored),
    fun i => ?_, fun x hx hne => ?_⟩
  · rw [Function.update_self]
    rfl
  · -- the loop has made one pass, at the start of the minions of the pair
    obtain ⟨s₁, tr₁, hloop, hminions⟩ := write_inv_of_unfailing hsteps hu
    obtain ⟨-, hcells⟩ := writeChunks_ok hloop
    have hchunks : g.chunks data.offset data.buffer.length 0 = [⟨j * g.stripeSize, 1, 0⟩] := by
      have hlen : g.chunkLen (j * g.stripeSize) 1 = 1 := by
        rw [Geometry.chunkLen, Nat.mul_mod_left]
        omega
      change g.chunks (j * g.stripeSize) 1 0 = _
      rw [Geometry.chunks_of_pos Nat.one_pos hS₀, hlen, Nat.sub_self, Geometry.chunks_zero]
    have hindex : g.primaryIndex (j * g.stripeSize) = j :=
      Fin.ext ((Geometry.primaryIndex_eq_div (by omega)).trans (Nat.mul_div_cancel _ hS₀))
    have hlocal : g.localOffset (j * g.stripeSize) = 0 := by
      rw [Geometry.localOffset_eq_mod (by omega) (by omega), Nat.mul_mod_left]
    rw [cells_eq_of_minions hminions, hcells, hchunks]
    have hbuf : slice data.buffer 0 1 = [1] := rfl
    simp only [storeChunks, List.foldl_cons, List.foldl_nil, storeChunk, storeCopy, hindex, hlocal, hbuf]
    have hone : ∀ f : Nat → Byte, store f 0 [1] 0 = 1 := fun f => rfl
    rcases eq_or_ne i (g.mirrorIndex j) with rfl | hm
    · rw [Function.update_self, hone, if_pos (.inr rfl)]
    · rw [Function.update_of_ne hm]
      rcases eq_or_ne i (g.primary j) with rfl | hpr
      · rw [Function.update_self, hone, if_pos (.inl rfl)]
      · rw [Function.update_of_ne hpr, hblank.cells_eq, if_neg]
        rintro (h | h)
        · exact hpr h
        · exact hm h
  · rw [device_write hsteps hu hr hx, hblank.device_eq, store_of_not_mem]
    simp only [hdata, DriverData.ofWrite, DriverData.new, List.length_singleton]
    omega

/-- No image of a storage over stripes of some size is empty. -/
theorem Stopped.imageOf_ne_nil (hs : Stopped path s) (hS : 0 < g.stripeSize) :
    ∀ i < g.numMinions, s.imageOf i ≠ [] := by
  intro i hi hnil
  have hl := length_imageOf hs.sized ⟨i, hi⟩
  rw [hnil] at hl
  exact hS.ne hl

/-- With another number of minions the file of a mirror is not that of its primary. -/
theorem Stopped.not_served_of_ne (hs : Stopped path s) (hp : path ≠ "") (hS : 0 < g.stripeSize)
    (g' : Geometry) (hS' : 0 < g'.stripeSize) (hne : g'.numPrimary ≠ g.numPrimary)
    (hnew : g.numPrimary < g'.numPrimary → g'.stripeSize < 2 ^ 63)
    (hcells : ∀ i, s.cells i 0 = if i = g.primary ⟨0, g.numPrimary_pos⟩ ∨
      i = g.mirrorIndex ⟨0, g.numPrimary_pos⟩ then 1 else 0) :
    ¬ ServedAsBefore path s g'.numMinions g'.stripeSize := by
  intro h
  have hP := g.numPrimary_pos
  have hP' := g'.numPrimary_pos
  have himage := hs.imageOf_ne_nil hS
  have hstart : ((BackendDirectory.empty path).stop s.raw).start g'.numMinions g'.stripeSize =
      .ok ⟨g', ((BackendDirectory.empty path).stop s.raw).opened g'⟩ :=
    BackendDirectory.start_eq hp fun i hi hnil => hnew (by
      by_contra hle
      exact himage i (by simp only [Geometry.numMinions] at hi ⊢; omega) hnil)
  obtain ⟨-, -, -, -, hopened⟩ := start_stop_inv hstart
  have hpair := (h g' _ hstart).2 ⟨0, hP'⟩
  rw [hopened, hopened] at hpair
  -- the first byte of either file
  have hprimary : (s.imageOf 0)[0]? = some 1 := by
    have hb := getElem?_imageOf_of_lt hs.sized (i := g.primary ⟨0, hP⟩) hS
    rwa [hcells, if_pos (.inl rfl)] at hb
  have hmirror : (if s.imageOf g'.numPrimary = [] then List.replicate g'.stripeSize 0
      else s.imageOf g'.numPrimary)[0]? = some 0 := by
    split
    · rw [List.getElem?_replicate, if_pos hS']
    · rename_i hnil
      have hlt : g'.numPrimary < g.numMinions := by
        by_contra hge
        exact hnil (dif_neg hge)
      have hb := getElem?_imageOf_of_lt hs.sized (i := ⟨g'.numPrimary, hlt⟩) hS
      rwa [hcells, if_neg] at hb
      rintro (he | he) <;> have he := congrArg Fin.val he <;>
        simp only [Geometry.primary, Geometry.mirrorIndex] at he <;> omega
  have hzero : (g'.primary ⟨0, hP'⟩ : Nat) = 0 := rfl
  have hfirst : (g'.mirrorIndex ⟨0, hP'⟩ : Nat) = g'.numPrimary := rfl
  rw [hzero, hfirst, if_neg (himage 0 (by simp only [Geometry.numMinions]; omega))] at hpair
  rw [← hpair, hprimary] at hmirror
  exact absurd (Option.some.inj hmirror) (by decide)

/-- With another size the second stripe starts elsewhere. -/
theorem Stopped.not_served_of_size (hs : Stopped path s) (hp : path ≠ "") (hS : 0 < g.stripeSize)
    (g' : Geometry) (hS' : 0 < g'.stripeSize) (h64 : g'.stripeSize < 2 ^ 64)
    (hP : g'.numPrimary = g.numPrimary) (hP₁ : 1 < g.numPrimary) (hne : g'.stripeSize ≠ g.stripeSize)
    (hcell : s.cells (g.primary ⟨1, hP₁⟩) 0 = 1)
    (hdevice : ∀ x, g.InRange x 1 → x ≠ g.stripeSize → s.device x = 0) :
    ¬ ServedAsBefore path s g'.numMinions g'.stripeSize := by
  intro h
  have himage := hs.imageOf_ne_nil hS
  have hstart : ((BackendDirectory.empty path).stop s.raw).start g'.numMinions g'.stripeSize =
      .ok ⟨g', ((BackendDirectory.empty path).stop s.raw).opened g'⟩ :=
    BackendDirectory.start_eq hp fun i hi hnil => absurd hnil (himage i (by simpa only [Geometry.numMinions, hP] using hi))
  obtain ⟨-, -, -, hz, hopened⟩ := start_stop_inv hstart
  set s' := ((BackendDirectory.empty path).stop s.raw).opened g'
  have hfirst : (s'.minions (g'.primary (g'.primaryIndex g'.stripeSize))).image[0]? = some 1 := by
    have hone : (g'.primary (g'.primaryIndex g'.stripeSize) : Nat) = g.primary ⟨1, hP₁⟩ := by
      simp only [Geometry.primary, Geometry.primaryIndex, Nat.div_self hS', hP]
      exact Nat.mod_eq_of_lt hP₁
    rw [hopened, hone, if_neg (himage _ (g.primary ⟨1, hP₁⟩).isLt), getElem?_imageOf_of_lt hs.sized hS, hcell]
  -- the first byte of the second stripe is that of the second file, as before
  have hread : (read g' (.ofRead 0 g'.stripeSize 1)).run handler s' =
      some ({ DriverData.ofRead 0 g'.stripeSize 1 with buffer := [1], status := .success }, s') := by
    have hlen : g'.chunkLen g'.stripeSize 1 = 1 := by
      rw [Geometry.chunkLen, Nat.mod_self]
      omega
    have hlocal : g'.localOffset g'.stripeSize = 0 := by
      rw [Geometry.localOffset_eq h64, Nat.div_self hS', Nat.mod_self,
        Nat.div_eq_of_lt (hP ▸ hP₁), Nat.zero_mul]
    have hcall : handler (.minionRead (g'.primary (g'.primaryIndex g'.stripeSize)) 0 [0]) s' =
        some ((.ok (), [1]), s') := by
      have hr := StorageMinionFile.read_first (by rw [hz]; exact hS') hfirst
      have hr : IStorageMinion.read (s'.minions (g'.primary (g'.primaryIndex g'.stripeSize))) 0 [0] =
        (.ok (), [1]) := hr
      simp only [handler, hr]
      rfl
    have hchunks : g'.chunks g'.stripeSize 1 0 = [⟨g'.stripeSize, 1, 0⟩] := by
      rw [Geometry.chunks_of_pos Nat.one_pos hS', hlen, Nat.sub_self, Geometry.chunks_zero]
    have hchunk : (readChunk g' ⟨g'.stripeSize, 1, 0⟩).run handler s' = some ((.ok (), [1]), s') := by
      rw [readChunk, minionRead, Prog.perform_bind, hlocal]
      exact Prog.run_call_of_eq hcall
    change ((readLoop g' g'.stripeSize 1 0 [0]) >>= _).run handler s' = _
    rw [readLoop_eq hS', hchunks, readChunks, Prog.run_bind, Prog.run_bind, hchunk]
    rfl
  have hbyte := (h g' s' hstart).1 _ _ _ (by
    simp only [DriverData.ofRead, DriverData.new]
    omega) hread rfl 0 Nat.one_pos
  have hzero : servedByte s g'.stripeSize = 0 := by
    rw [servedByte]
    split
    · exact hdevice _ (fun _ => ⟨by omega, by omega⟩) hne
    · rfl
  rw [show (DriverData.ofRead 0 g'.stripeSize 1).offset + 0 = g'.stripeSize from rfl, hzero] at hbyte
  exact absurd (Option.some.inj hbyte) (by decide)

/-- **A changed geometry.** A start over the files of the geometry `g` with the numbers of `g'` throws, or
serves what was served before, after every run if and only if the old minions had no bytes, or a new file
would be larger than a file can be, or there are as many minions and they have the old size or make up one
pair. -/
theorem servedAsBefore_iff (hp : path ≠ "") (hS : g.stripeSize < 2 ^ 63) (g' : Geometry)
    (hS' : 0 < g'.stripeSize) (h64 : g'.stripeSize < 2 ^ 64) :
    (∀ s : RAIDStorage CompleteFile FileMetadataStore g, Stopped path s →
      ServedAsBefore path s g'.numMinions g'.stripeSize) ↔
    g.stripeSize = 0 ∨ (g.numPrimary < g'.numPrimary ∧ 2 ^ 63 ≤ g'.stripeSize) ∨
      (g'.numPrimary = g.numPrimary ∧ (g'.stripeSize = g.stripeSize ∨ g.numPrimary = 1)) := by
  constructor
  · intro h
    by_contra hnot
    obtain ⟨h₁, hnot⟩ := not_or.mp hnot
    obtain ⟨h₂, h₃⟩ := not_or.mp hnot
    have hS₀ := Nat.pos_of_ne_zero h₁
    by_cases hP : g'.numPrimary = g.numPrimary
    · have hP₁ : 1 < g.numPrimary := by
        have := g.numPrimary_pos
        by_contra hle
        exact h₃ ⟨hP, .inr (by omega)⟩
      obtain ⟨s, hs, hcells, hdevice⟩ := exists_stopped g hp hS hS₀ ⟨1, hP₁⟩ (by simpa using hS)
      rw [Nat.one_mul] at hdevice
      refine hs.not_served_of_size hp hS₀ g' hS' h64 hP hP₁ (fun he => h₃ ⟨hP, .inl he⟩) ?_ hdevice (h s hs)
      rw [hcells, if_pos (.inl rfl)]
    · obtain ⟨s, hs, hcells, -⟩ := exists_stopped g hp hS hS₀ ⟨0, g.numPrimary_pos⟩ (by simp)
      refine hs.not_served_of_ne hp hS₀ g' hS' hP (fun hlt => ?_) hcells (h s hs)
      by_contra hge
      exact h₂ ⟨hlt, Nat.not_lt.mp hge⟩
  · rintro (h | ⟨hlt, hge⟩ | ⟨hP, hsize⟩) s hs
    · exact hs.served_of_empty h
    · intro g₁ s₁ h
      obtain ⟨-, -, hi, -, -⟩ := start_stop_inv h
      -- the first of the new files cannot be allocated
      have hnil : s.imageOf g.numMinions = [] := dif_neg (Nat.lt_irrefl _)
      have := hi g.numMinions (by simp only [Geometry.numMinions]; omega) hnil
      omega
    · rcases Nat.eq_zero_or_pos g.stripeSize with h₀ | h₀
      · exact hs.served_of_empty h₀
      · exact hs.served_of_places h₀ (by simp only [Geometry.numMinions, hP]) hsize

/-- A storage of two minions of one byte, started again over four. -/
theorem four_minions_diverge :
    ¬ ∀ s : RAIDStorage CompleteFile FileMetadataStore ⟨1, 1, by decide⟩, Stopped "data" s →
      ServedAsBefore "data" s 4 1 := by
  intro h
  obtain ⟨s, hs, hcells, -⟩ := exists_stopped ⟨1, 1, by decide⟩ (by decide : "data" ≠ "") (by decide)
    (by decide) 0 (by decide)
  exact hs.not_served_of_ne (by decide) (by decide) ⟨2, 1, by decide⟩ (by decide) (by decide)
    (by decide) hcells (h s hs)

/-- One pair, started again with a larger size. -/
theorem one_pair_grows :
    ∃ s : RAIDStorage CompleteFile FileMetadataStore ⟨1, 1, by decide⟩, Stopped "data" s ∧
      ServedAsBefore "data" s 2 3 := by
  obtain ⟨s, hs, -⟩ := exists_stopped ⟨1, 1, by decide⟩ (by decide : "data" ≠ "") (by decide)
    (by decide) 0 (by decide)
  have hserved := (servedAsBefore_iff (g := ⟨1, 1, by decide⟩) (by decide : "data" ≠ "") (by decide)
    ⟨1, 3, by decide⟩ (by decide) (by decide)).mpr (.inr (.inr ⟨rfl, .inr rfl⟩))
  exact ⟨s, hs, hserved s hs⟩

end Start

end RAIDStorage

end LDS
