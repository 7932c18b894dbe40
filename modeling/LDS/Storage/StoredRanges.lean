import LDS.Library.Total
import LDS.Storage.Bounds
import LDS.Storage.IStorage
import LDS.Storage.Scripts
import LDS.Storage.StorageFactory

/-!
# What the index describes

A `Write` records its offset and size when its loop is done, without a check of its own. So the index
describes stored ranges as far as the loop ends only for them: it does not run at all for a request of no
bytes, which is recorded at any offset, and it may go astray where a range wraps.

## Main definitions

* `RAIDStorage.MinionsAnswer`: the answers when no minion fails, whatever becomes of the saved index
* `RAIDStorage.Describes s offset size`: the device has the range, and a `Read` of it succeeds
* `RAIDStorage.Sound g astray data`: a request that leaves the index as it should be

## Main results

* `RAIDStorage.total_write`: a sound `Write` keeps the index
* `RAIDStorage.index_describes_iff`: sequences of `WRITE`s
-/

namespace LDS

namespace RAIDStorage

variable {g : Geometry}

section

variable {μ τ : Type} [LawfulMinion μ] [IMetadataStore τ]
  {s s₀ : RAIDStorage μ τ g} {data : DriverData} {datas : List DriverData}
  {astray : Nat → Nat → Nat → Prop}

/-- The call is no record of a size. -/
def NoRecord (o : RAIDCall g) : Prop := ∀ offset size, o ≠ .recordSize offset size

/-- The minions answer by themselves; saving the index may fail. -/
def MinionsAnswer : Environment (RAIDCall g) RAIDCall.Answer (RAIDStorage μ τ g) := fun s o a s' =>
  Answers s o a s' ∧ (NoRecord o → handler o s = some (a, s'))

theorem minionsAnswer_iff (s : RAIDStorage μ τ g) (o : RAIDCall g) (a : o.Answer)
    (s' : RAIDStorage μ τ g) (ho : NoRecord o) : MinionsAnswer s o a s' ↔ handler o s = some (a, s') :=
  ⟨fun h => h.2 ho, fun h => ⟨.own h, fun _ => h⟩⟩

/-- The range lies on the device, and a `READ` of exactly that range reports `SUCCESS`. -/
structure Describes (s : RAIDStorage μ τ g) (offset size : Nat) : Prop where
  le : offset + size ≤ g.capacity
  read : ∀ handle, Prog.Total MinionsAnswer (fun data _ => data.status = .success)
    (read g (.ofRead handle offset size)) s

/-- Every entry that `GetDataSize` and `ListOffsets` report describes a range of the device. -/
def IndexDescribes (s : RAIDStorage μ τ g) : Prop :=
  ∀ offset size, s.offsetSizes[offset]? = some size → Describes s offset size

/-- The `WRITE` has bytes or an offset on the device, and no chunk of it goes astray. -/
def Sound (g : Geometry) (astray : Nat → Nat → Nat → Prop) (data : DriverData) : Prop :=
  (data.buffer.length = 0 → data.offset ≤ g.capacity) ∧
  (0 < data.buffer.length → 0 < g.stripeSize ∧
    (g.capacity < data.offset + data.buffer.length →
      ¬ GoesAstray g astray data.offset data.buffer.length))

/-! ## Requests -/

/-- The invariant: the minions have their sizes, and no entry of the index leaves the device. -/
structure Kept (s : RAIDStorage μ τ g) : Prop where
  sized : s.Sized
  le : ∀ offset size, s.offsetSizes[offset]? = some size → offset + size ≤ g.capacity

theorem obeys_read_noRecord (data : DriverData) :
    Prog.Obeys (.plain (fun _ _ => True) NoRecord True) (fun _ _ => True) () (read g data) := by
  refine (obeys_readLoop_of_leads (P := fun _ => True) (fun _ _ _ _ _ => ⟨?_, fun _ _ => trivial⟩)
    trivial _ _ _ _ trivial).bind ?_
  · exact fun _ _ he => by cases he
  · rintro _ ⟨what | ⟨⟩, buffer⟩ - <;> exact .ret trivial

theorem obeys_writeLoop_noRecord (buffer : List Byte) (offset remaining bufPos : Nat) :
    Prog.Obeys (.plain (fun _ _ => True) NoRecord True) (fun _ _ => True) ()
      (writeLoop g buffer offset remaining bufPos) := by
  refine obeys_writeLoop_of_leads (P := fun _ => True) (fun _ _ _ _ _ => ⟨?_, fun _ _ => trivial⟩)
    trivial _ _ _ _ trivial
  exact fun _ _ he => by cases he

/-- An entry that does not leave the device describes a range of it. -/
theorem Kept.indexDescribes (h : s.Kept) (h64 : g.capacity < 2 ^ 64) : s.IndexDescribes := by
  intro offset size hentry
  have hle := h.le offset size hentry
  refine ⟨hle, fun handle => ?_⟩
  have hrun := run_read_primary (.ofRead handle offset size) h.sized (Geometry.stripeSize_lt h64)
    (Geometry.inRange_of_le h64 hle)
  refine (Prog.Total.of_run minionsAnswer_iff (obeys_read_noRecord _) hrun).mono ?_
  rintro _ _ ⟨rfl, rfl⟩
  rfl

/-- The critical section of a `Write` of a range on the device. -/
theorem Kept.record (h : s.Kept) (hle : data.offset + data.buffer.length ≤ g.capacity) :
    Prog.Total MinionsAnswer (fun _ s' => s'.Kept)
      (.call (.recordSize data.offset data.buffer.length) fun a => .ret (writeReply data a)) s := by
  refine .call ⟨.error "", _, .saveFault s.metadataStore, fun ho => absurd rfl (ho _ _)⟩ ?_
  rintro a s' ⟨ha, -⟩
  obtain ⟨hm, hi⟩ := answers_recordSize ha
  refine .ret ⟨fun i => hm ▸ h.sized i, fun offset size hentry => ?_⟩
  rw [hi, Std.ExtTreeMap.getElem?_insert] at hentry
  split at hentry
  · rename_i he
    obtain rfl := Nat.compare_eq_eq.mp he
    obtain rfl := Option.some.inj hentry
    exact hle
  · exact h.le offset size hentry

/-- A `Write` whose loop comes to its end records its range. -/
theorem Kept.write_of_loop {s' : RAIDStorage μ τ g} (hs : s'.Kept)
    (hle : data.offset + data.buffer.length ≤ g.capacity)
    (hrun : (writeLoop g data.buffer data.offset data.buffer.length 0).run handler s = some (.ok (), s')) :
    Prog.Total MinionsAnswer (fun _ s' => s'.Kept) (write g data) s := by
  have hloop := Prog.Total.of_run minionsAnswer_iff (obeys_writeLoop_noRecord _ _ _ _) hrun
  rw [write]
  refine hloop.bind ?_
  rintro _ _ ⟨rfl, rfl⟩
  change Prog.Total MinionsAnswer _ (.call (.recordSize data.offset data.buffer.length) _) _
  convert hs.record hle using 2
  funext a
  rcases a with what | ⟨⟩ <;> rfl

variable (hμ : GuardsBounds μ astray) (h64 : g.capacity < 2 ^ 64)

include hμ h64

/-- **A sound `Write`** ends, and leaves no entry that leaves the device. -/
theorem total_write (hs : s.Kept) (ho : data.offset < 2 ^ 64) (hsound : Sound g astray data) :
    Prog.Total MinionsAnswer (fun _ s' => s'.Kept) (write g data) s := by
  obtain ⟨hempty, hpos⟩ := hsound
  rcases Nat.eq_zero_or_pos data.buffer.length with hl | hl
  · -- the loop does not run
    have hle := hempty hl
    refine hs.write_of_loop (by omega) ?_
    rw [hl, writeLoop, if_neg (Nat.lt_irrefl 0)]
    rfl
  obtain ⟨hS, hnot⟩ := hpos hl
  rcases Nat.lt_or_ge g.capacity (data.offset + data.buffer.length) with hout | hle
  · -- the loop ends at the first chunk outside
    obtain ⟨what, s', hsame, hrun⟩ := (run_writeLoop_outside hμ hs.sized hS h64 ho hl hout).2 (hnot hout)
    have hloop := Prog.Total.of_run minionsAnswer_iff (obeys_writeLoop_noRecord _ _ _ _) hrun
    rw [write]
    refine hloop.bind ?_
    rintro _ _ ⟨rfl, rfl⟩
    refine .ret ⟨hsame.sized hs.sized, fun offset size hentry => ?_⟩
    rw [hsame.offsetSizes] at hentry
    exact hs.le offset size hentry
  · -- the loop visits all chunks
    have hr := Geometry.inRange_of_le h64 hle
    obtain ⟨s', hrun⟩ := run_writeChunks (Geometry.partition_chunks hr 0) hs.sized
      (Geometry.stripeSize_lt h64) (by omega : 0 + data.buffer.length ≤ data.buffer.length)
    obtain ⟨tr, hst⟩ := steps_of_run hrun
    have hsame := sameIndex_writeChunks hst
    have hkept : s'.Kept := by
      refine ⟨hsame.sized hs.sized, fun offset size hentry => ?_⟩
      rw [hsame.offsetSizes] at hentry
      exact hs.le offset size hentry
    exact hkept.write_of_loop hle (by rwa [writeLoop_eq hS])

/-- An unsound `Write` does not end, or leaves an entry that leaves the device. -/
theorem sound_of_total (hs : s.Kept) (ho : data.offset < 2 ^ 64)
    (ht : Prog.Total MinionsAnswer (fun _ s' => s'.IndexDescribes) (write g data) s) :
    Sound g astray data := by
  refine ⟨fun hl => ?_, fun hl => ?_⟩
  · -- the record of no bytes is in the index
    rw [write_of_empty hl] at ht
    obtain ⟨-, hrest⟩ := ht.call_inv
    have hfault : MinionsAnswer s (.recordSize data.offset 0) (.error "")
        { s with offsetSizes := s.offsetSizes.insert data.offset 0 } :=
      ⟨.saveFault s.metadataStore, fun hn => absurd rfl (hn _ _)⟩
    have hdescribes := (hrest _ _ hfault).ret_inv data.offset 0 Std.ExtTreeMap.getElem?_insert_self
    exact hdescribes.le
  · -- the loop has a result
    have hne := ht.of_bind.run_ne_none minionsAnswer_iff (obeys_writeLoop_noRecord _ _ _ _)
    have hS : 0 < g.stripeSize := by
      refine Nat.pos_of_ne_zero fun hS => hne ?_
      rw [writeLoop, if_pos hl, if_pos hS]
      rfl
    exact ⟨hS, fun hout hg => hne ((run_writeLoop_outside hμ hs.sized hS h64 ho hl hout).1 hg)⟩

/-! ## Sequences -/

theorem total_writes (hs : s.Kept) (h : ∀ data ∈ datas, data.offset < 2 ^ 64 ∧ Sound g astray data) :
    Prog.Total MinionsAnswer (fun _ s' => s'.Kept) (datas.mapM (write g)) s := by
  induction datas generalizing s with
  | nil => exact .ret hs
  | cons data datas ih =>
    obtain ⟨⟨ho, hsound⟩, hrest⟩ := List.forall_mem_cons.mp h
    rw [List.mapM_cons]
    apply (total_write hμ h64 hs ho hsound).bind
    intro _ s₁ hs₁
    exact (ih hs₁ hrest).bind fun _ _ hs' => .ret hs'

/-- In every state that the first of some `WRITE`s lead to, the index describes stored ranges: exactly if
all of them are sound. -/
theorem indexDescribes_writes_iff (hs : s.Kept) (ho : ∀ data ∈ datas, data.offset < 2 ^ 64) :
    (∀ first, first <+: datas →
      Prog.Total MinionsAnswer (fun _ s' => s'.IndexDescribes) (first.mapM (write g)) s) ↔
      ∀ data ∈ datas, Sound g astray data := by
  constructor
  · intro h
    induction datas using List.reverseRecOn with
    | nil => exact fun data hd => absurd hd List.not_mem_nil
    | append_singleton datas data ih =>
      obtain ⟨hos, hod⟩ := List.forall_mem_append.mp ho
      have hsound := ih hos fun first hfirst => h first (hfirst.trans (List.prefix_append _ _))
      refine List.forall_mem_append.mpr ⟨hsound, fun d hd => ?_⟩
      obtain rfl := List.mem_singleton.mp hd
      -- the sound requests before it come to an end
      obtain ⟨tr, v, s', hsteps, hs'⟩ :=
        (total_writes hμ h64 hs fun d hd => ⟨hos d hd, hsound d hd⟩).exists_ret
      have hall := h _ List.prefix_rfl
      rw [List.mapM_append, List.mapM_cons] at hall
      have hlast := hall.steps (hsteps.bind (.refl _ _))
      exact sound_of_total hμ h64 hs' (hod d hd) (hlast.of_bind.of_bind.mono fun _ _ h => h.ret_inv.ret_inv)
  · rintro h first ⟨rest, rfl⟩
    refine (total_writes hμ h64 hs fun d hd => ⟨ho d ?_, h d ?_⟩).mono fun _ s' hs' => hs'.indexDescribes h64
    · exact List.mem_append_left _ hd
    · exact List.mem_append_left _ hd

end

/-! ## Both backends -/

variable {data : DriverData}

theorem kept_of_empty {μ τ : Type} [LawfulMinion μ] {s : RAIDStorage μ τ g} (hz : s.Sized)
    (h : s.offsetSizes = ∅) : s.Kept := by
  refine ⟨hz, fun offset size hentry => ?_⟩
  rw [h] at hentry
  simp at hentry

/-- In memory a chunk goes astray where it wraps. -/
theorem sound_memory_iff (h64 : g.capacity < 2 ^ 64) (ho : data.offset < 2 ^ 64) :
    Sound g (fun S a n => addSize a n ≤ S) data ↔
      (data.buffer.length = 0 → data.offset ≤ g.capacity) ∧
      (0 < data.buffer.length → 0 < g.stripeSize ∧ ¬ g.Wraps data.offset data.buffer.length) := by
  apply and_congr_right
  intro _
  apply forall_congr'
  intro hl
  apply and_congr_right
  intro hS
  constructor
  · intro h hw
    exact h hw.2.2.1 ((goesAstray_iff hS h64 ho hl hw.2.2.1).mpr hw)
  · intro h hout hg
    exact h ((goesAstray_iff hS h64 ho hl hout).mp hg)

/-- **The index describes stored ranges** in every state that a sequence of `WRITE`s leads to from an empty
index, exactly if each of them without bytes has an offset on the device, and each of them with bytes is
made on stripes of some size and does not wrap; over files nothing wraps. -/
theorem index_describes_iff (τ : Type) [IMetadataStore τ] (h64 : g.capacity < 2 ^ 64)
    {datas : List DriverData} (ho : ∀ data ∈ datas, data.offset < 2 ^ 64) :
    (∀ s₀ : RAIDStorage StorageMinionMemory τ g, s₀.Sized → s₀.offsetSizes = ∅ →
      ((∀ first, first <+: datas →
        Prog.Total MinionsAnswer (fun _ s => s.IndexDescribes) (first.mapM (write g)) s₀) ↔
        ∀ data ∈ datas, (data.buffer.length = 0 → data.offset ≤ g.capacity) ∧
          (0 < data.buffer.length → 0 < g.stripeSize ∧ ¬ g.Wraps data.offset data.buffer.length))) ∧
    (∀ s₀ : RAIDStorage CompleteFile τ g, s₀.Sized → s₀.offsetSizes = ∅ →
      ((∀ first, first <+: datas →
        Prog.Total MinionsAnswer (fun _ s => s.IndexDescribes) (first.mapM (write g)) s₀) ↔
        ∀ data ∈ datas, (data.buffer.length = 0 → data.offset ≤ g.capacity) ∧
          (0 < data.buffer.length → 0 < g.stripeSize))) := by
  constructor
  · intro s₀ hz h₀
    rw [indexDescribes_writes_iff StorageMinionMemory.guardsBounds h64 (kept_of_empty hz h₀) ho]
    exact forall₂_congr fun data hd => sound_memory_iff h64 (ho data hd)
  · intro s₀ hz h₀
    rw [indexDescribes_writes_iff CompleteFile.guardsBounds h64 (kept_of_empty hz h₀) ho]
    apply forall₂_congr
    intro data hd
    apply and_congr_right
    intro _
    apply forall_congr'
    intro hl
    exact and_iff_left fun _ hf => hf

/-- A `WRITE` of no bytes behind the last byte of the device. -/
theorem empty_write_beyond :
    ¬ ∀ (g : Geometry) (datas : List DriverData), g.capacity < 2 ^ 64 →
      (∀ data ∈ datas, data.offset < 2 ^ 64) → ∀ first, first <+: datas →
        Prog.Total MinionsAnswer (fun _ s => s.IndexDescribes) (first.mapM (write g)) (inMemory g) := by
  intro h
  have ho : ∀ data ∈ [DriverData.ofWrite 0 5 []], data.offset < 2 ^ 64 := by decide
  have hall := h ⟨1, 4, by decide⟩ [.ofWrite 0 5 []] (by decide) ho
  have hkept := kept_of_empty (blank_inMemory ⟨1, 4, by decide⟩).sized rfl
  have hsound := (indexDescribes_writes_iff StorageMinionMemory.guardsBounds (by decide) hkept ho).mp hall
    _ (List.mem_singleton_self _)
  exact absurd (hsound.1 rfl) (by decide)

/-- A `WRITE` on a pair of four bytes, one of no bytes at its end, and one that leaves it. -/
theorem index_describes_three :
    (∀ first, first <+: [DriverData.ofWrite 0 1 [5, 6], .ofWrite 0 4 [], .ofWrite 0 3 [7, 8]] →
      Prog.Total MinionsAnswer (fun _ s => s.IndexDescribes) (first.mapM (write ⟨1, 4, by decide⟩))
        (inMemory ⟨1, 4, by decide⟩)) ↔
      ∀ data ∈ [DriverData.ofWrite 0 1 [5, 6], .ofWrite 0 4 [], .ofWrite 0 3 [7, 8]],
        (data.buffer.length = 0 → data.offset ≤ 4) ∧
          (0 < data.buffer.length → 0 < 4 ∧
            ¬ Geometry.Wraps ⟨1, 4, by decide⟩ data.offset data.buffer.length) :=
  (index_describes_iff MemoryMetadataStore (by decide) (by decide)).1 (inMemory _)
    (blank_inMemory _).sized rfl

end RAIDStorage

end LDS
