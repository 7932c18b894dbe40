import LDS.Library.Commutation
import LDS.Storage.FileMetadataStore
import LDS.Storage.Scripts

/-!
# Disjoint writers

`Write` requests of disjoint ranges and of distinct offsets run side by side. Their chunks are disjoint on
the minions too, so that the calls of different requests commute: whatever the interleaving, minions, index
and metadata store end up as if the requests had been executed one by one, in any order.

## Main definitions

* `RAIDStorage.storeOp`, `RAIDStorage.recordOp`: what a call that does not fail does
* `RAIDStorage.DisjointWrites`: the ranges of the requests are disjoint, their offsets are distinct
* `RAIDStorage.Written`: a state after the requests, one by one

## Main results

* `RAIDStorage.storeOp_comm`, `RAIDStorage.recordOp_comm`: calls of different requests commute
* `RAIDStorage.written_run`: every finished run ends in such a state, whatever the order
* `RAIDStorage.disjoint_writers`: a finished run ends as the sequential execution does
-/

namespace LDS

open Memory

namespace RAIDStorage

variable {g : Geometry}

/-! ## The calls -/

/-- What a call that does not fail does to the memories. -/
def storeOp (cells : Fin g.numMinions → Nat → Byte) : RAIDCall g → Fin g.numMinions → Nat → Byte
  | .minionWrite i a buf => Function.update cells i (store (cells i) a buf)
  | _ => cells

/-- What a call does to the index. -/
def recordOp (offsetSizes : SizeMap) : RAIDCall g → SizeMap
  | .recordSize offset size => offsetSizes.insert offset size
  | _ => offsetSizes

theorem storeCall_eq {cells : Fin g.numMinions → Nat → Byte} {e : Exchange (RAIDCall g) RAIDCall.Answer}
    (h : Succeeds e.1 e.2) : storeCall cells e = storeOp cells e.1 := by
  obtain ⟨o, a⟩ := e
  cases o with
  | minionWrite i b buf =>
    obtain rfl : a = .ok () := h
    rfl
  | _ => rfl

theorem recordCall_eq (offsetSizes : SizeMap) (e : Exchange (RAIDCall g) RAIDCall.Answer) :
    recordCall offsetSizes e = recordOp offsetSizes e.1 := by
  obtain ⟨o, a⟩ := e
  cases o <;> rfl

section Save

variable {τ : Type} [LawfulMetadataStore τ]

/-- What a call that does not fail does to the index and to the metadata store. -/
def saveOp (x : SizeMap × τ) : RAIDCall g → SizeMap × τ
  | .recordSize offset size =>
    (x.1.insert offset size, (IMetadataStore.save x.2 (x.1.insert offset size)).2)
  | _ => x

theorem fst_saveOp (x : SizeMap × τ) (o : RAIDCall g) : (saveOp x o).1 = recordOp x.1 o := by
  cases o <;> rfl

end Save

/-- Calls that write other bytes, or other minions, commute. -/
theorem storeOp_comm {o o' : RAIDCall g}
    (h : ∀ i a buf a' buf', o = .minionWrite i a buf → o' = .minionWrite i a' buf' →
      a + buf.length ≤ a' ∨ a' + buf'.length ≤ a) (cells : Fin g.numMinions → Nat → Byte) :
    storeOp (storeOp cells o) o' = storeOp (storeOp cells o') o := by
  cases o with
  | minionWrite i a buf =>
    cases o' with
    | minionWrite i' a' buf' =>
      rcases eq_or_ne i i' with rfl | hne
      · -- on one minion the ranges are disjoint
        simp only [storeOp, Function.update_self, Function.update_idem]
        rw [store_comm (h i a buf a' buf' rfl rfl)]
      · simp only [storeOp, Function.update_of_ne hne, Function.update_of_ne hne.symm]
        exact Function.update_comm hne _ _ _
    | _ => rfl
  | _ => rfl

/-- Calls that record the sizes of different offsets commute. -/
theorem recordOp_comm {o o' : RAIDCall g}
    (h : ∀ offset size size', o = .recordSize offset size → o' ≠ .recordSize offset size')
    (offsetSizes : SizeMap) :
    recordOp (recordOp offsetSizes o) o' = recordOp (recordOp offsetSizes o') o := by
  cases o with
  | recordSize offset size =>
    cases o' with
    | recordSize offset' size' =>
      have hne : offset ≠ offset' := by
        rintro rfl
        exact h offset size size' rfl rfl
      refine Std.ExtTreeMap.ext_getElem? fun k => ?_
      simp only [recordOp, Std.ExtTreeMap.getElem?_insert, Nat.compare_eq_eq]
      by_cases hk : offset = k
      · have hk' : offset' ≠ k := fun he => hne (hk.trans he.symm)
        simp [hk, hk']
      · simp [hk]
    | _ => rfl
  | _ => rfl

/-- The last `Save` writes the whole index, and nothing of the one before it is left. -/
theorem saveOp_comm {τ : Type} [LawfulMetadataStore τ] {o o' : RAIDCall g}
    (h : ∀ offset size size', o = .recordSize offset size → o' ≠ .recordSize offset size')
    (x : SizeMap × τ) : saveOp (saveOp x o) o' = saveOp (saveOp x o') o := by
  have hindex : (saveOp (saveOp x o) o').1 = (saveOp (saveOp x o') o).1 := by
    simp only [fst_saveOp]
    exact recordOp_comm h x.1
  refine Prod.ext hindex ?_
  cases o with
  | recordSize offset size =>
    cases o' with
    | recordSize offset' size' =>
      simp only [saveOp] at hindex ⊢
      -- the last `Save` decides, and both indices are the same
      rw [LawfulMetadataStore.save_save, LawfulMetadataStore.save_save, hindex]
    | _ => rfl
  | _ => rfl

/-! ## The requests -/

variable {ι : Type} {data : ι → DriverData}

/-- The requests lie inside the device, their ranges are disjoint, and their offsets are distinct. -/
structure DisjointWrites (g : Geometry) (data : ι → DriverData) : Prop where
  inRange : ∀ t, g.InRange (data t).offset (data t).buffer.length
  disjoint : ∀ t t', t ≠ t' →
    Disjoint (Set.Ico (data t).offset ((data t).offset + (data t).buffer.length))
      (Set.Ico (data t').offset ((data t').offset + (data t').buffer.length))
  distinct : ∀ t t', t ≠ t' → (data t).offset ≠ (data t').offset

/-- A write of the script is that of a chunk, to the primary or to the mirror. -/
theorem mem_writeScript_minionWrite {data : DriverData} (hr : g.InRange data.offset data.buffer.length)
    {i : Fin g.numMinions} {a : Nat} {buf : List Byte} (h : .minionWrite i a buf ∈ writeScript g data) :
    ∃ offset, 0 < buf.length ∧ g.InRange offset buf.length ∧ data.offset ≤ offset ∧
      offset + buf.length ≤ data.offset + data.buffer.length ∧ a = g.localOffset offset ∧
      (i = g.primary (g.primaryIndex offset) ∨ i = g.mirrorIndex (g.primaryIndex offset)) := by
  rcases List.mem_append.mp h with h | h
  · obtain ⟨c, hc, h⟩ := List.mem_flatMap.mp h
    obtain ⟨hn, -, hin, hle, hend, hpos⟩ := (Geometry.partition_chunks hr 0).mem hc
    have hl : (slice data.buffer c.bufPos c.len).length = c.len := length_slice (by omega)
    simp only [writeCalls, List.mem_cons, List.not_mem_nil, or_false, RAIDCall.minionWrite.injEq] at h
    rcases h with ⟨rfl, rfl, rfl⟩ | ⟨rfl, rfl, rfl⟩ <;> rw [hl]
    · exact ⟨c.offset, hn, hin, hle, hend, rfl, .inl rfl⟩
    · exact ⟨c.offset, hn, hin, hle, hend, rfl, .inr rfl⟩
  · cases List.mem_singleton.mp h

/-- The writes of different requests to one minion are of different bytes. -/
theorem DisjointWrites.disjoint_minionWrite (h : DisjointWrites g data) {t t' : ι} (hne : t ≠ t')
    {i : Fin g.numMinions} {a a' : Nat} {buf buf' : List Byte}
    (ho : .minionWrite i a buf ∈ writeScript g (data t))
    (ho' : .minionWrite i a' buf' ∈ writeScript g (data t')) :
    a + buf.length ≤ a' ∨ a' + buf'.length ≤ a := by
  obtain ⟨x, hn, hc, hle, hend, rfl, hi⟩ := mem_writeScript_minionWrite (h.inRange t) ho
  obtain ⟨x', hn', hc', hle', hend', rfl, hi'⟩ := mem_writeScript_minionWrite (h.inRange t') ho'
  -- one minion is a copy of one stripe
  have hp : g.primaryIndex x = g.primaryIndex x' := by
    rcases hi with rfl | rfl <;> rcases hi' with hi' | hi'
    · exact Geometry.primary_injective hi'
    · exact absurd hi' (Geometry.primary_ne_mirrorIndex _ _)
    · exact absurd hi'.symm (Geometry.primary_ne_mirrorIndex _ _)
    · exact Geometry.mirrorIndex_injective hi'
  have hd := Set.Ico_disjoint_Ico.mp (h.disjoint t t' hne)
  rcases (by omega : x + buf.length ≤ x' ∨ x' + buf'.length ≤ x) with hd | hd
  · exact .inl (Geometry.localOffset_add_le_localOffset hn hc hn' hc' hp hd)
  · exact .inr (Geometry.localOffset_add_le_localOffset hn' hc' hn hc hp.symm hd)

/-- The calls of different requests commute on the memories. -/
theorem DisjointWrites.storeOp_comm (h : DisjointWrites g data) {t t' : ι} (hne : t ≠ t') {o o' : RAIDCall g}
    (ho : o ∈ writeScript g (data t)) (ho' : o' ∈ writeScript g (data t'))
    (cells : Fin g.numMinions → Nat → Byte) :
    storeOp (storeOp cells o) o' = storeOp (storeOp cells o') o := by
  refine RAIDStorage.storeOp_comm ?_ cells
  rintro i a buf a' buf' rfl rfl
  exact h.disjoint_minionWrite hne ho ho'

/-- Different requests record different offsets. -/
theorem DisjointWrites.recordSize_ne (h : DisjointWrites g data) {t t' : ι} (hne : t ≠ t') {o o' : RAIDCall g}
    (ho : o ∈ writeScript g (data t)) (ho' : o' ∈ writeScript g (data t')) (offset size size' : Nat)
    (he : o = .recordSize offset size) : o' ≠ .recordSize offset size' := by
  rintro rfl
  subst he
  rcases mem_writeScript (h.inRange t) ho with ⟨_, _, _, he, -⟩ | he
  · cases he
  rcases mem_writeScript (h.inRange t') ho' with ⟨_, _, _, he', -⟩ | he'
  · cases he'
  exact h.distinct t t' hne ((RAIDCall.recordSize.inj he).1.symm.trans (RAIDCall.recordSize.inj he').1)

/-- The calls of the requests, one request after the other. -/
def writeScripts (g : Geometry) (data : ι → DriverData) (order : List ι) : List (RAIDCall g) :=
  order.flatMap fun t => writeScript g (data t)

/-! ## Runs -/

section Runs

variable {μ τ : Type} [LawfulMinion μ] [LawfulMetadataStore τ] [DecidableEq ι] {s₀ s s' : RAIDStorage μ τ g}
  {T : ι → RAIDProg g DriverData} {tr : List (ι × Exchange (RAIDCall g) RAIDCall.Answer)} {order : List ι}

/-- Every program of a finished run has made the calls of its script. -/
theorem own_eq_writeScript (hd : DisjointWrites g data)
    (hr : Pool.Run NoFailures (fun t => write g (data t)) s₀ tr T s) (hdone : ∀ t, (T t).value?.isSome) (t : ι) :
    (Pool.own t tr).map Sigma.fst = writeScript g (data t) := by
  obtain ⟨-, hscript⟩ := Pool.Run.script (I := fun _ => True) (Q := fun _ _ _ => True) trivial
    (fun _ _ _ _ _ _ _ hR => ⟨hR.2, trivial⟩) (fun t => obeys_write_script (hd.inRange t)) hr
  obtain ⟨todo, hcalls, hobeys⟩ := hscript t
  exact (Pool.done_of_script (Q := fun _ _ => True) hcalls hobeys (hdone t)).1

omit [LawfulMinion μ] [LawfulMetadataStore τ] in
/-- The exchanges of a run whose programs have made their calls, request by request, where the calls of
different requests commute. -/
theorem foldl_writeScripts {β : Type} {act : β → Exchange (RAIDCall g) RAIDCall.Answer → β}
    {op : β → RAIDCall g → β} (hact : ∀ e ∈ tr, ∀ b, act b e.2 = op b e.2.1)
    (hcomm : ∀ t t', t ≠ t' → ∀ o ∈ writeScript g (data t), ∀ o' ∈ writeScript g (data t'), ∀ b,
      op (op b o) o' = op (op b o') o)
    (hown : ∀ t, (Pool.own t tr).map Sigma.fst = writeScript g (data t)) (hn : order.Nodup)
    (hall : ∀ t, t ∈ order) (b : β) :
    (tr.map Prod.snd).foldl act b = (writeScripts g data order).foldl op b := by
  have hmem : ∀ e ∈ tr, e.2.1 ∈ writeScript g (data e.1) := fun e he => by
    rw [← hown e.1]
    exact List.mem_map_of_mem (Pool.mem_own.mpr he)
  calc (tr.map Prod.snd).foldl act b
      = (tr.map Prod.snd).foldl (fun b e => op b e.1) b := by
        apply List.foldl_ext _ _ _
        intro b e he
        obtain ⟨e', he', rfl⟩ := List.mem_map.mp he
        exact hact e' he' b
    _ = (order.flatMap fun t => Pool.own t tr).foldl (fun b e => op b e.1) b :=
        Pool.foldl_own hn (fun e _ => hall e.1) (fun e he e' he' hne b =>
          hcomm e'.1 e.1 hne.symm _ (hmem e' he') _ (hmem e he) b) b
    _ = ((order.flatMap fun t => Pool.own t tr).map Sigma.fst).foldl op b := List.foldl_map.symm
    _ = (writeScripts g data order).foldl op b := by
        rw [List.map_flatMap, writeScripts, List.flatMap_congr fun t _ => hown t]

/-- The exchange is no `Save` that throws. -/
def SaveSucceeds : Exchange (RAIDCall g) RAIDCall.Answer → Prop
  | ⟨.recordSize _ _, a⟩ => a = .ok ()
  | _ => True

/-- Index and metadata store after one call. -/
theorem save_of_answers {o : RAIDCall g} {a : o.Answer} (h : Answers s o a s') (hs : SaveSucceeds ⟨o, a⟩) :
    (s'.offsetSizes, s'.metadataStore) = saveOp (s.offsetSizes, s.metadataStore) o := by
  cases o with
  | recordSize offset size =>
    obtain rfl : a = .ok () := hs
    rcases h with h | _ | _ | _
    obtain ⟨a, -, he⟩ := Option.map_eq_some_iff.mp h
    obtain ⟨-, rfl⟩ := Prod.mk.inj he
    rfl
  | _ => cases h.effect <;> rfl

/-- Index and metadata store after a run in which no `Save` throws. -/
theorem run_save (hr : Pool.Run Answers (fun t => write g (data t)) s₀ tr T s)
    (hs : ∀ e ∈ tr, SaveSucceeds e.2) :
    (s.offsetSizes, s.metadataStore) =
      (tr.map Prod.snd).foldl (fun x e => saveOp x e.1) (s₀.offsetSizes, s₀.metadataStore) := by
  refine hr.invariant (I := fun tr _ s => (∀ e ∈ tr, SaveSucceeds e.2) →
    (s.offsetSizes, s.metadataStore) =
      (tr.map Prod.snd).foldl (fun x e => saveOp x e.1) (s₀.offsetSizes, s₀.metadataStore)) (fun _ => rfl) ?_ hs
  rintro tr T s _ T' s' hstep ih hs
  obtain ⟨htr, he⟩ := List.forall_mem_append.mp hs
  cases hstep with
  | call _ hR =>
    rw [save_of_answers hR (he _ (List.mem_singleton_self _)), ih htr, List.map_append, List.foldl_append]
    rfl

/-! ## One by one -/

/-- The state after a call that does not fail. -/
def applyOp (s : RAIDStorage μ τ g) : RAIDCall g → RAIDStorage μ τ g
  | .minionWrite i a buf => s.setMinion i (IStorageMinion.write (s.minions i) a buf).2
  | .recordSize offset size =>
    { s with
      offsetSizes := s.offsetSizes.insert offset size
      metadataStore := (IMetadataStore.save s.metadataStore (s.offsetSizes.insert offset size)).2 }
  | _ => s

/-- A call of a `Write` inside the device, answered by the objects themselves. -/
theorem handler_of_mem_writeScript {data : DriverData} (hr : g.InRange data.offset data.buffer.length)
    (h64 : g.stripeSize < 2 ^ 64) (hz : s.Sized) {o : RAIDCall g} (ho : o ∈ writeScript g data) :
    ∃ a, Succeeds o a ∧ SaveSucceeds ⟨o, a⟩ ∧ handler o s = some (a, applyOp s o) := by
  rcases mem_writeScript hr ho with ⟨i, a, buf, rfl, hfit⟩ | rfl
  · exact ⟨.ok (), rfl, trivial, handler_minionWrite (by rwa [hz i]) (hz.size_lt h64 i)⟩
  · refine ⟨.ok (), trivial, rfl, ?_⟩
    simp only [handler, LawfulMetadataStore.save_ok]
    rfl

/-- A state after the calls, one after the other. -/
structure Written (s₀ : RAIDStorage μ τ g) (calls : List (RAIDCall g)) (s : RAIDStorage μ τ g) : Prop where
  sized : s.Sized
  cells_eq : s.cells = calls.foldl storeOp s₀.cells
  save_eq : (s.offsetSizes, s.metadataStore) = calls.foldl saveOp (s₀.offsetSizes, s₀.metadataStore)

theorem Written.trans {s₁ : RAIDStorage μ τ g} {calls calls' : List (RAIDCall g)} (h : Written s₀ calls s₁)
    (h' : Written s₁ calls' s) : Written s₀ (calls ++ calls') s where
  sized := h'.sized
  cells_eq := by rw [h'.cells_eq, h.cells_eq, List.foldl_append]
  save_eq := by rw [h'.save_eq, h.save_eq, List.foldl_append]

/-- One call of a `Write`. -/
theorem written_applyOp {data : DriverData} (hr : g.InRange data.offset data.buffer.length)
    (h64 : g.stripeSize < 2 ^ 64) (hz : s.Sized) {o : RAIDCall g} (ho : o ∈ writeScript g data) :
    Written s [o] (applyOp s o) := by
  obtain ⟨a, ha, hsave, hh⟩ := handler_of_mem_writeScript hr h64 hz ho
  refine ⟨fun i => (answers_size (.own hh) i).trans (hz i), ?_, save_of_answers (.own hh) hsave⟩
  rw [cells_of_answers (.own hh), storeCall_eq ha]
  rfl

/-- Some calls of a `Write`. -/
theorem written_foldl {data : DriverData} (hr : g.InRange data.offset data.buffer.length)
    (h64 : g.stripeSize < 2 ^ 64) (hz : s.Sized) {calls : List (RAIDCall g)}
    (hcalls : ∀ o ∈ calls, o ∈ writeScript g data) : Written s calls (calls.foldl applyOp s) := by
  induction calls generalizing s with
  | nil => exact ⟨hz, rfl, rfl⟩
  | cons o calls ih =>
    obtain ⟨ho, hcalls⟩ := List.forall_mem_cons.mp hcalls
    have hfirst := written_applyOp hr h64 hz ho
    exact hfirst.trans (ih hfirst.sized hcalls)

/-- A `Write` inside the device, run alone. -/
theorem run_write_written {data : DriverData} (hr : g.InRange data.offset data.buffer.length)
    (h64 : g.stripeSize < 2 ^ 64) (hz : s.Sized) :
    ∃ s', (write g data).run handler s = some (writeReply data (.ok ()), s') ∧
      Written s (writeScript g data) s' := by
  obtain ⟨s', hs', -⟩ := run_write data hz h64 hr LawfulMetadataStore.save_ok
  obtain ⟨v, hv, -⟩ := (obeys_write_script hr).run_script (h := handler)
    (I := fun s : RAIDStorage μ τ g => s.Sized) (fun _ _ h => h.1) (fun s₁ o hz₁ ho => by
      obtain ⟨a, ha, -, hh⟩ := handler_of_mem_writeScript hr h64 hz₁ ho
      exact ⟨a, ha, hh, (written_applyOp hr h64 hz₁ ho).sized⟩) hz
  obtain ⟨-, rfl⟩ := Prod.mk.inj (Option.some.inj (hs'.symm.trans hv))
  exact ⟨_, hs', written_foldl hr h64 hz fun _ ho => ho⟩

omit [DecidableEq ι] in
/-- The requests, run one by one. -/
theorem run_writes_written (hr : ∀ t, g.InRange (data t).offset (data t).buffer.length)
    (h64 : g.stripeSize < 2 ^ 64) (hz : s.Sized) (order : List ι) :
    ∃ s', (order.mapM fun t => write g (data t)).run handler s =
        some (order.map fun t => writeReply (data t) (.ok ()), s') ∧
      Written s (writeScripts g data order) s' := by
  induction order generalizing s with
  | nil => exact ⟨s, rfl, hz, rfl, rfl⟩
  | cons t order ih =>
    obtain ⟨s₁, h₁, hw₁⟩ := run_write_written (hr t) h64 hz
    obtain ⟨s', h', hw'⟩ := ih hw₁.sized
    refine ⟨s', ?_, hw₁.trans hw'⟩
    rw [List.mapM_cons, Prog.run_bind, h₁, Option.bind_some, Prog.run_bind, h']
    rfl

/-! ## Side by side -/

/-- The index after some calls is that of the pair. -/
theorem fst_foldl_saveOp (calls : List (RAIDCall g)) (x : SizeMap × τ) :
    (calls.foldl saveOp x).1 = calls.foldl recordOp x.1 := by
  induction calls generalizing x with
  | nil => rfl
  | cons o calls ih => rw [List.foldl_cons, List.foldl_cons, ih, fst_saveOp]

/-- **Disjoint writers** inside the device run side by side, no minion fails, and all of them are done. They
leave the contents of all minions and the index as the sequential execution in any order does; and the
metadata store, unless a `Save` has thrown. -/
theorem disjoint_writers (h64 : g.stripeSize < 2 ^ 64) (hz : s₀.Sized) (hd : DisjointWrites g data)
    (hr : Pool.Run NoFailures (fun t => write g (data t)) s₀ tr T s) (hdone : ∀ t, (T t).value?.isSome)
    (hn : order.Nodup) (hall : ∀ t, t ∈ order) :
    ∃ s', (order.mapM fun t => write g (data t)).run handler s₀ =
        some (order.map fun t => writeReply (data t) (.ok ()), s') ∧
      (∀ i, LawfulMinion.contents (s.minions i) = LawfulMinion.contents (s'.minions i)) ∧
      s.offsetSizes = s'.offsetSizes ∧
      ((∀ e ∈ tr, SaveSucceeds e.2) → s.metadataStore = s'.metadataStore) := by
  obtain ⟨s', hs', hw⟩ := run_writes_written hd.inRange h64 hz order
  have hown := own_eq_writeScript hd hr hdone
  have hanswers := hr.mono fun _ _ _ _ h => h.1
  have hsized := run_sized hanswers hz
  refine ⟨s', hs', fun i => ?_, ?_, fun hsaves => ?_⟩
  · -- stores of different requests commute, so the order of the calls does not matter
    have hcells : s.cells = s'.cells := by
      rw [run_cells hanswers, hw.cells_eq]
      exact foldl_writeScripts (fun e he _ => storeCall_eq (succeeds_of_run hr e he))
        (fun _ _ hne _ ho _ ho' => hd.storeOp_comm hne ho ho') hown hn hall _
    exact LawfulMinion.contents_eq_of_cells ((hsized i).trans (hw.sized i).symm) (congrFun hcells i)
  · -- and so do their records, which have different offsets
    have hindex : s'.offsetSizes = (writeScripts g data order).foldl recordOp s₀.offsetSizes :=
      (congrArg Prod.fst hw.save_eq).trans (fst_foldl_saveOp _ _)
    rw [run_offsetSizes hanswers, hindex]
    exact foldl_writeScripts (fun e _ b => recordCall_eq b e.2)
      (fun _ _ hne _ ho _ ho' => recordOp_comm (hd.recordSize_ne hne ho ho')) hown hn hall _
  · have hstore := (run_save hanswers hsaves).trans (foldl_writeScripts (fun _ _ _ => rfl)
      (fun _ _ hne _ ho _ ho' => saveOp_comm (hd.recordSize_ne hne ho ho')) hown hn hall _)
    exact congrArg Prod.snd (hstore.trans hw.save_eq.symm)

end Runs

/-- Two bytes for each half of a minion. -/
def halfWrite (t : Fin 2) : DriverData :=
  { DriverData.new .write t (2 * t) 2 with buffer := if t.val = 0 then [1, 1] else [2, 2] }

/-- Two writers whose calls take turns, and the same two one by one, the second one first. -/
theorem disjoint_writers_halves :
    ∃ s s' : RAIDStorage StorageMinionMemory MemoryMetadataStore ⟨1, 4, by decide⟩,
      (([1, 0] : List (Fin 2)).mapM fun t => write _ (halfWrite t)).run handler (inMemory _) =
        some (([1, 0] : List (Fin 2)).map fun t => writeReply (halfWrite t) (.ok ()), s') ∧
      (s.minions 0).data = [1, 1, 2, 2] ∧ (s'.minions 0).data = [1, 1, 2, 2] ∧
      s.offsetSizes = s'.offsetSizes := by
  -- the two take turns, call by call
  have hexec : (Pool.exec handler [0, 1, 1, 0, 0, 1]
      (fun t => write ⟨1, 4, by decide⟩ (halfWrite t)) (inMemory _)).map (fun r =>
        (decide (∀ e ∈ r.1, Succeeds e.2.1 e.2.2), decide (∀ t, (r.2.1 t).value?.isSome),
          (r.2.2.minions 0).data)) = some (true, true, [1, 1, 2, 2]) := by
    decide +kernel
  obtain ⟨⟨tr, T, s⟩, he, hproj⟩ := Option.map_eq_some_iff.mp hexec
  obtain ⟨hsucc, hdone, hdata⟩ : (∀ e ∈ tr, Succeeds e.2.1 e.2.2) ∧ (∀ t, (T t).value?.isSome) ∧
      (s.minions 0).data = [1, 1, 2, 2] := by
    simpa using hproj
  have hrun := run_noFailures (Pool.run_of_exec (h := handler) (fun _ _ _ _ => Answers.own) he) hsucc
  have hdisjoint : DisjointWrites ⟨1, 4, by decide⟩ halfWrite := by
    refine ⟨fun t => Geometry.inRange_of_le (by decide) ?_, fun t t' hne => ?_, fun t t' hne => ?_⟩
    · revert t
      decide
    · rw [Set.Ico_disjoint_Ico]
      revert t t'
      decide
    · revert t t'
      decide
  obtain ⟨s', hs', hcontents, hindex, -⟩ := disjoint_writers (by decide) (blank_inMemory _).sized hdisjoint
    hrun hdone (by decide : ([1, 0] : List (Fin 2)).Nodup) (by decide)
  exact ⟨s, s', hs', hdata, (hcontents 0).symm.trans hdata, hindex⟩

end RAIDStorage

end LDS
