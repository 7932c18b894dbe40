import LDS.Storage.IStorage
import LDS.Storage.Restart

/-!
# Saves that fail

`FileMetadataStore::Save` neither throws when the metadata file does not open nor looks at the state of
its stream, so `Write` reports `SUCCESS` whatever has become of the file. As long as every `Save` is
complete, the file tells every entry that has been acknowledged.

## Main definitions

* `RAIDStorage.Saves P`: the answers when every `Save` goes as `P` allows
* `RAIDStorage.recorded tr`: the requests of a run that have recorded their sizes, in order

## Main results

* `RAIDStorage.success_persisted`: with complete `Save`s an acknowledged entry is in the file
* `RAIDStorage.success_unsaved`: a `WRITE` that succeeds over a file that does not open
-/

namespace LDS

open Memory FileMetadataStore

namespace RAIDStorage

variable {g : Geometry}

/-! ## Requests -/

/-- The contract of a request: it records no size but that of its own `WRITE`. -/
def records (g : Geometry) (isWrite : Bool) (data : DriverData) :
    Prog.Contract (RAIDCall g) RAIDCall.Answer (List (Exchange (RAIDCall g) RAIDCall.Answer)) :=
  .history (fun _ _ => True) (fun _ o => ∀ k n, o = .recordSize k n →
    isWrite = true ∧ k = data.offset ∧ n = data.buffer.length) True

/-- A `WRITE` that succeeds has recorded its size last. -/
def Recorded (isWrite : Bool) (data : DriverData) (made : List (Exchange (RAIDCall g) RAIDCall.Answer))
    (data' : DriverData) : Prop :=
  isWrite = true → data'.status = .success → ∃ made',
    made = made' ++ [⟨.recordSize data.offset data.buffer.length, .ok ()⟩]

theorem obeys_request_records (isWrite : Bool) (data : DriverData) :
    Prog.Obeys (records g isWrite data) (Recorded isWrite data) [] (request g isWrite data) := by
  cases isWrite with
  | false =>
    refine (obeys_readLoop_of_leads (P := fun _ => True) (fun _ _ _ _ _ => ⟨?_, fun _ _ => trivial⟩)
      trivial _ _ _ _ trivial).bind ?_
    · intro k n h
      cases h
    · rintro made ⟨what | ⟨⟩, buf⟩ - <;> exact .ret (fun h => by cases h)
  | true =>
    refine (obeys_writeLoop_of_leads (P := fun _ => True) (fun _ _ _ _ _ => ⟨?_, fun _ _ => trivial⟩)
      trivial _ _ _ _ trivial).bind ?_
    · intro k n h
      cases h
    · rintro made (what | ⟨⟩) -
      · exact .ret (fun _ h => by cases h)
      · refine .call (fun k n h => ?_) ?_
        · -- after the loop, the one call that records
          obtain ⟨rfl, rfl⟩ := RAIDCall.recordSize.inj h
          exact ⟨rfl, rfl, rfl⟩
        · rintro (what | ⟨⟩) -
          · exact .ret (fun _ h => by cases h)
          · exact .ret (fun _ _ => ⟨made, rfl⟩)

/-! ## Runs -/

/-- The requests that have recorded their sizes, in the order of their critical sections. -/
def recorded {ι : Type} (tr : List (ι × Exchange (RAIDCall g) RAIDCall.Answer)) : List ι :=
  tr.filterMap fun
    | (t, ⟨.recordSize _ _, _⟩) => some t
    | _ => none

theorem mem_recorded {ι : Type} {tr : List (ι × Exchange (RAIDCall g) RAIDCall.Answer)} {t : ι}
    {k n : Nat} {a : Except String Unit} (h : (t, ⟨.recordSize k n, a⟩) ∈ tr) : t ∈ recorded tr :=
  List.mem_filterMap.mpr ⟨_, h, rfl⟩

theorem recorded_snoc {ι : Type} (tr : List (ι × Exchange (RAIDCall g) RAIDCall.Answer)) (t : ι)
    (k n : Nat) (a : Except String Unit) :
    recorded (tr ++ [(t, ⟨.recordSize k n, a⟩)]) = recorded tr ++ [t] := by
  rw [recorded, List.filterMap_append]
  rfl

theorem recorded_snoc_of_ne {ι : Type} (tr : List (ι × Exchange (RAIDCall g) RAIDCall.Answer)) (t : ι)
    {o : RAIDCall g} (ho : ∀ k n, o ≠ .recordSize k n) (a : o.Answer) :
    recorded (tr ++ [(t, ⟨o, a⟩)]) = recorded tr := by
  rw [recorded, List.filterMap_append]
  cases o with
  | recordSize k n => exact absurd rfl (ho k n)
  | _ => exact List.append_nil _

/-- The index with the entries of the requests `order`, one after the other. -/
def recordAll {ι : Type} (data : ι → DriverData) (offsetSizes : SizeMap) (order : List ι) : SizeMap :=
  order.foldl (fun m t => m.insert (data t).offset (data t).buffer.length) offsetSizes

theorem recordAll_snoc {ι : Type} (data : ι → DriverData) (offsetSizes : SizeMap) (order : List ι) (t : ι) :
    recordAll data offsetSizes (order ++ [t]) =
      (recordAll data offsetSizes order).insert (data t).offset (data t).buffer.length := by
  rw [recordAll, List.foldl_append]
  rfl

/-- What the calls answer when every `Save` of an index goes as `P` allows. A `Save` never throws; a call
of a minion may. -/
inductive Saves {μ : Type} [LawfulMinion μ] (P : SizeMap → SaveIO → Prop) :
    Environment (RAIDCall g) RAIDCall.Answer (RAIDStorage μ FileMetadataStore g)
  | save {s : RAIDStorage μ FileMetadataStore g} {k n : Nat} {io : SaveIO}
      (h : P (s.offsetSizes.insert k n) io) {a : Except String Unit}
      (ha : (saveWith io s.metadataStore (s.offsetSizes.insert k n)).1.answer? = some a) :
      Saves P s (.recordSize k n) a { s with
        offsetSizes := s.offsetSizes.insert k n
        metadataStore := (saveWith io s.metadataStore (s.offsetSizes.insert k n)).2 }
  | other {s s' : RAIDStorage μ FileMetadataStore g} {o : RAIDCall g} {a : o.Answer}
      (ho : ∀ k n, o ≠ .recordSize k n) (h : Answers s o a s') : Saves P s o a s'

section Runs

variable {μ : Type} [LawfulMinion μ] {s₀ s s' : RAIDStorage μ FileMetadataStore g}
  {ι : Type} [DecidableEq ι] {isWrite : ι → Bool} {data : ι → DriverData}
  {T T' : ι → RAIDProg g DriverData} {tr : List (ι × Exchange (RAIDCall g) RAIDCall.Answer)}

omit [DecidableEq ι] in
/-- Only the critical section of `Write` changes the index or the file. -/
theorem sameIndex_of_answers {o : RAIDCall g} {a : o.Answer} (ho : ∀ k n, o ≠ .recordSize k n)
    (h : Answers s o a s') : SameIndex s s' := by
  cases h.effect with
  | none => exact .refl _
  | minionWrite => exact (answers_minionWrite h).1
  | recordSize => exact absurd rfl (ho _ _)

/-- The requests of a run make the records that they are to make. -/
theorem history_request {P : SizeMap → SaveIO → Prop}
    (hr : Pool.Run (Saves P) (fun t => request g (isWrite t) (data t)) s₀ tr T s) (t : ι) :
    Prog.Obeys (records g (isWrite t) (data t)) (Recorded (isWrite t) (data t)) (Pool.own t tr) (T t) :=
  hr.history (fun _ _ _ _ _ => trivial) (fun t => obeys_request_records (isWrite t) (data t)) t

/-- With complete `Save`s the file tells the index, which has the entries recorded so far. -/
theorem saved_recorded (hdata : ∀ t, (data t).offset < 2 ^ 64 ∧ (data t).buffer.length < 2 ^ 64)
    (h₀ : s₀.offsetSizes = load s₀.metadataStore)
    (hr : Pool.Run (Saves Complete) (fun t => request g (isWrite t) (data t)) s₀ tr T s) :
    s.Saved ∧ s.offsetSizes = recordAll data s₀.offsetSizes (recorded tr) ∧
      ∀ t ∈ recorded tr, isWrite t = true := by
  induction hr with
  | nil => exact ⟨⟨h₀ ▸ bounded_load _, h₀.symm⟩, rfl, fun t ht => by cases ht⟩
  | snoc hr hs ih =>
    obtain ⟨hsaved, hindex, hwrites⟩ := ih
    cases hs with
    | @call t o k a s s' hT hR =>
      cases hR with
      | @save s k n io hio a ha =>
        -- the arguments are those of the request that makes the call
        have hp := history_request hr t
        rw [hT] at hp
        obtain ⟨hw, rfl, rfl⟩ := hp.call_inv.1 _ _ rfl
        have hb := bounded_insert hsaved.bounded (hdata t).1 (hdata t).2
        rw [saveWith_of_complete hio]
        refine ⟨⟨hb, load_save hb _⟩, ?_, ?_⟩
        · rw [recorded_snoc, recordAll_snoc, ← hindex]
        · rw [recorded_snoc]
          exact List.forall_mem_append.mpr ⟨hwrites, List.forall_mem_singleton.mpr hw⟩
      | other ho h =>
        -- no other call touches the index or the file
        have hsame := sameIndex_of_answers ho h
        rw [recorded_snoc_of_ne _ _ ho, hsame.offsetSizes]
        refine ⟨⟨?_, ?_⟩, hindex, hwrites⟩
        · rw [hsame.offsetSizes]
          exact hsaved.bounded
        · rw [hsame.metadataStore, hsame.offsetSizes]
          exact hsaved.load_eq

/-- A `WRITE` that has succeeded has made its record last. -/
theorem recorded_of_success {P : SizeMap → SaveIO → Prop}
    (hr : Pool.Run (Saves P) (fun t => request g (isWrite t) (data t)) s₀ tr T s) {t : ι}
    (hw : isWrite t = true) {data' : DriverData} (hret : T t = .ret data')
    (hst : data'.status = .success) :
    ∃ made, Pool.own t tr =
      made ++ [⟨.recordSize (data t).offset (data t).buffer.length, .ok ()⟩] := by
  have hp := history_request hr t
  rw [hret] at hp
  exact hp.ret_inv hw hst

/-- **Acknowledged means saved**, as long as every `Save` is complete. The last step of a `WRITE` that
succeeds leaves a file that tells its size, and the entries of all `WRITE`s that had succeeded before, in
the order in which they were recorded. -/
theorem success_persisted
    (hdata : ∀ t, (data t).offset < 2 ^ 64 ∧ (data t).buffer.length < 2 ^ 64)
    (h₀ : s₀.offsetSizes = load s₀.metadataStore)
    (hr : Pool.Run (Saves Complete) (fun t => request g (isWrite t) (data t)) s₀ tr T s) {t : ι}
    {e : Exchange (RAIDCall g) RAIDCall.Answer} (hs : Pool.Step (Saves Complete) T s (t, e) T' s')
    (hw : isWrite t = true) {data' : DriverData} (hret : T' t = .ret data')
    (hst : data'.status = .success) :
    (load s'.metadataStore)[(data t).offset]? = some (data t).buffer.length ∧
    ∃ order, (∀ u ∈ order, isWrite u = true) ∧
      (∀ u data', isWrite u = true → T u = .ret data' → data'.status = .success → u ∈ order) ∧
      load s'.metadataStore = recordAll data s₀.offsetSizes (order ++ [t]) := by
  have hr' := hr.snoc hs
  -- the last call of the request was its record
  obtain ⟨made, hmade⟩ := recorded_of_success hr' hw hret hst
  rw [Pool.own_snoc_self] at hmade
  obtain ⟨-, rfl⟩ : Pool.own t tr = made ∧ e = _ := by simpa using List.append_inj' hmade rfl
  obtain ⟨hsaved, hindex, -⟩ := saved_recorded hdata h₀ hr'
  rw [recorded_snoc] at hindex
  rw [hsaved.load_eq, hindex]
  refine ⟨?_, recorded tr, (saved_recorded hdata h₀ hr).2.2, fun u data'' hwu hu hstu => ?_, rfl⟩
  · rw [recordAll_snoc]
    exact Std.ExtTreeMap.getElem?_insert_self
  · obtain ⟨made', hmade'⟩ := recorded_of_success hr hwu hu hstu
    have hmem := List.mem_append_right made' (List.mem_singleton_self
      (⟨.recordSize (data u).offset (data u).buffer.length, .ok ()⟩ :
        Exchange (RAIDCall g) RAIDCall.Answer))
    rw [← hmade'] at hmem
    exact mem_recorded (Pool.mem_own.mp hmem)

end Runs

/-! ## A file that does not open -/

/-- The objects by themselves, where the I/O of a `Save` goes as `io` says. -/
def savesBy {μ : Type} [LawfulMinion μ] (io : SizeMap → SaveIO) :
    Prog.Handler (RAIDCall g) RAIDCall.Answer (RAIDStorage μ FileMetadataStore g)
  | .recordSize k n, s =>
    let offsetSizes := s.offsetSizes.insert k n
    let r := saveWith (io offsetSizes) s.metadataStore offsetSizes
    r.1.answer?.map fun a => (a, { s with offsetSizes := offsetSizes, metadataStore := r.2 })
  | o, s => handler o s

theorem saves_of_savesBy {μ : Type} [LawfulMinion μ] {P : SizeMap → SaveIO → Prop} {io : SizeMap → SaveIO}
    (hP : ∀ m, P m (io m)) (s : RAIDStorage μ FileMetadataStore g) (o : RAIDCall g) (a : o.Answer)
    (s' : RAIDStorage μ FileMetadataStore g) (h : savesBy io o s = some (a, s')) : Saves P s o a s' := by
  cases o with
  | recordSize k n =>
    obtain ⟨a', ha, he⟩ := Option.map_eq_some_iff.mp h
    obtain ⟨rfl, rfl⟩ := Prod.mk.inj he
    exact .save (hP _) ha
  | _ => exact .other (fun k n he => by cases he) (.own h)

/-- Two minions of one byte in memory, and the metadata file of an empty directory. -/
def oneByte : RAIDStorage StorageMinionMemory FileMetadataStore ⟨1, 1, Nat.one_pos⟩ :=
  fresh (StorageMinionMemory.new 1) (FileMetadataStore.new "data" none)

/-- One byte is written while the metadata file does not open. -/
theorem success_unsaved :
    ¬ ∀ (tr : List (Unit × Exchange (RAIDCall ⟨1, 1, by decide⟩) RAIDCall.Answer)) T s,
      Pool.Run (Saves fun _ _ => True) (fun _ => request _ true (.ofWrite 0 0 [7]))
        oneByte tr T s →
      ∀ data', T () = .ret data' → data'.status = .success →
        s.metadataStore.load[0]? = some 1 := by
  intro h
  -- the file cannot be opened, and nobody looks at the stream
  have hexec : (Pool.exec (savesBy fun _ => .notOpened) [(), (), ()]
      (fun _ : Unit => request ⟨1, 1, by decide⟩ true (.ofWrite 0 0 [7])) oneByte).map (fun r =>
        ((r.2.1 ()).value?.map DriverData.status, r.2.2.metadataStore.load[0]?)) =
      some (some .success, none) := by
    decide +kernel
  obtain ⟨⟨tr, T, s⟩, he, hproj⟩ := Option.map_eq_some_iff.mp hexec
  obtain ⟨hT, hload⟩ := Prod.mk.inj hproj
  obtain ⟨data', hT, hst⟩ := Option.map_eq_some_iff.mp hT
  have hload' := h tr T s (Pool.run_of_exec (saves_of_savesBy fun _ => trivial) he) data'
    (Prog.value?_eq_some.mp hT) hst
  cases hload.symm.trans hload'

/-- The same `WRITE`, when the file opens and takes all of the index. -/
theorem success_saved :
    ∃ s : RAIDStorage StorageMinionMemory FileMetadataStore ⟨1, 1, by decide⟩,
      s.metadataStore.load[0]? = some 1 := by
  have hexec : (Pool.exec (savesBy fun m => .written (image m).length) [(), (), ()]
      (fun _ : Unit => request ⟨1, 1, by decide⟩ true (.ofWrite 0 0 [7])) oneByte).map (fun r =>
        ((r.2.1 ()).value?.map DriverData.status, r.1.length)) = some (some .success, 3) := by
    decide +kernel
  obtain ⟨⟨tr, T, s⟩, he, hproj⟩ := Option.map_eq_some_iff.mp hexec
  obtain ⟨hT, hlen⟩ := Prod.mk.inj hproj
  obtain ⟨data', hT, hst⟩ := Option.map_eq_some_iff.mp hT
  have hrun := Pool.run_of_exec (saves_of_savesBy (P := Complete) fun m => ⟨_, rfl, le_rfl⟩) he
  cases hrun with
  | nil => cases hlen
  | @snoc tr T T' s s' e hr hs =>
    obtain ⟨⟨⟩, e⟩ := e
    exact ⟨_, (success_persisted (fun _ => by decide) rfl hr hs rfl
      (Prog.value?_eq_some.mp hT) hst).1⟩

end RAIDStorage

end LDS
