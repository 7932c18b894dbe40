import LDS.Storage.Device

/-!
# One request at a time

What a whole `Write` and a whole `Read` do, on top of their chunk loops: a `Write` ends inside its
loop, with the failure of a minion call, or after it, with the answer of the critical section; a
`Read` inside the device succeeds exactly when every chunk has a copy that answers.

## Main definitions

* `RAIDStorage.request`: the program of a `READ` or a `WRITE`
* `RAIDStorage.writeReply`: the reply of a `Write`
* `RAIDStorage.Unfailing tr`: no `Write` of a minion throws in `tr`

## Main results

* `RAIDStorage.write_inv`: the executions of `Write`
* `RAIDStorage.device_write`, `RAIDStorage.mirrored_write`: a `Write` inside the device during
  which no minion fails
* `RAIDStorage.unfailing_write`: a `Write` that succeeds is one
* `RAIDStorage.run_write`, `RAIDStorage.run_read`: the results inside the device
* `RAIDStorage.run_read_primary`: the result of a `Read` while nothing fails
-/

namespace LDS

open Memory

namespace RAIDStorage

variable {g : Geometry}

/-- A loop of no bytes, or over stripes of some size, visits its chunks. -/
theorem writeLoop_eq_or_abort (g : Geometry) (buffer : List Byte) (offset remaining bufPos : Nat) :
    writeLoop g buffer offset remaining bufPos =
        writeChunks g buffer (g.chunks offset remaining bufPos) ∨
      0 < remaining ∧ g.stripeSize = 0 ∧ writeLoop g buffer offset remaining bufPos = .abort := by
  rcases Nat.eq_zero_or_pos g.stripeSize with hS | hS
  · rcases Nat.eq_zero_or_pos remaining with rfl | hr
    · left
      rw [writeLoop, if_neg (by omega), Geometry.chunks_zero, writeChunks]
    · right
      rw [writeLoop, if_pos hr, if_pos hS]
      exact ⟨hr, hS, rfl⟩
  · exact .inl (writeLoop_eq hS _ _ _ _)

/-- A loop of no bytes, or over stripes of some size, visits its chunks. -/
theorem readLoop_eq_or_abort (g : Geometry) (offset remaining bufPos : Nat) (buffer : List Byte) :
    readLoop g offset remaining bufPos buffer =
        readChunks g buffer (g.chunks offset remaining bufPos) ∨
      0 < remaining ∧ g.stripeSize = 0 ∧ readLoop g offset remaining bufPos buffer = .abort := by
  rcases Nat.eq_zero_or_pos g.stripeSize with hS | hS
  · rcases Nat.eq_zero_or_pos remaining with rfl | hr
    · left
      rw [readLoop, if_neg (by omega), Geometry.chunks_zero, readChunks]
    · right
      rw [readLoop, if_pos hr, if_pos hS]
      exact ⟨hr, hS, rfl⟩
  · exact .inl (readLoop_eq hS _ _ _ _)

theorem not_abort_of_inRange {offset remaining : Nat} (h : g.InRange offset remaining) :
    ¬ (0 < remaining ∧ g.stripeSize = 0) := fun ⟨hr, hS⟩ => by
  have hc := (h hr).1
  rw [Geometry.capacity, hS, Nat.mul_zero] at hc
  omega

/-- Inside the device the loop of `Write` visits its chunks. -/
theorem writeLoop_eq_of_inRange {offset remaining : Nat} (h : g.InRange offset remaining)
    (buffer : List Byte) (bufPos : Nat) :
    writeLoop g buffer offset remaining bufPos =
      writeChunks g buffer (g.chunks offset remaining bufPos) :=
  (writeLoop_eq_or_abort g buffer offset remaining bufPos).resolve_right
    fun ⟨hr, hS, _⟩ => not_abort_of_inRange h ⟨hr, hS⟩

/-- Inside the device the loop of `Read` visits its chunks. -/
theorem readLoop_eq_of_inRange {offset remaining : Nat} (h : g.InRange offset remaining)
    (bufPos : Nat) (buffer : List Byte) :
    readLoop g offset remaining bufPos buffer =
      readChunks g buffer (g.chunks offset remaining bufPos) :=
  (readLoop_eq_or_abort g offset remaining bufPos buffer).resolve_right
    fun ⟨hr, hS, _⟩ => not_abort_of_inRange h ⟨hr, hS⟩

/-- The program of a `READ` or a `WRITE`. -/
def request (g : Geometry) (isWrite : Bool) (data : DriverData) : RAIDProg g DriverData :=
  if isWrite then write g data else read g data

/-- The loop of `Write` keeps what its calls keep. -/
theorem obeys_writeLoop_of_leads {φ : Type} {C : Prog.Contract (RAIDCall g) RAIDCall.Answer φ} {P : φ → Prop}
    (hP : ∀ i a buf, C.Leads P P (.minionWrite i a buf)) (habort : C.mayAbort) (buffer : List Byte)
    (offset remaining bufPos : Nat) {x : φ} (hx : P x) :
    Prog.Obeys C (fun y _ => P y) x (writeLoop g buffer offset remaining bufPos) := by
  induction remaining using Nat.strong_induction_on generalizing offset bufPos x with
  | _ remaining ih =>
    rw [writeLoop]
    split
    · split
      · exact .abort habort
      · refine .call_of_leads (hP _ _ _) hx ?_
        rintro y (what | ⟨⟩) hy
        · exact .ret hy
        -- the mirror, after the primary
        refine .call_of_leads (hP _ _ _) hy ?_
        rintro z (what | ⟨⟩) hz
        · exact .ret hz
        · exact ih _ (Geometry.sub_chunkLen_lt ‹_› ‹_›) _ _ hz
    · exact .ret hx

/-- The loop of `Read` keeps what its calls keep. -/
theorem obeys_readLoop_of_leads {φ : Type} {C : Prog.Contract (RAIDCall g) RAIDCall.Answer φ} {P : φ → Prop}
    (hP : ∀ i a buf, C.Leads P P (.minionRead i a buf)) (habort : C.mayAbort)
    (offset remaining bufPos : Nat) (buffer : List Byte) {x : φ} (hx : P x) :
    Prog.Obeys C (fun y _ => P y) x (readLoop g offset remaining bufPos buffer) := by
  induction remaining using Nat.strong_induction_on generalizing offset bufPos buffer x with
  | _ remaining ih =>
    rw [readLoop]
    split
    · split
      · exact .abort habort
      · refine .call_of_leads (hP _ _ _) hx ?_
        rintro y ⟨what | ⟨⟩, tempBuf⟩ hy
        · -- the mirror, where the primary throws
          refine .call_of_leads (hP _ _ _) hy ?_
          rintro z ⟨what | ⟨⟩, tempBuf'⟩ hz
          · exact .ret hz
          · exact ih _ (Geometry.sub_chunkLen_lt ‹_› ‹_›) _ _ _ hz
        · exact ih _ (Geometry.sub_chunkLen_lt ‹_› ‹_›) _ _ _ hy
    · exact .ret hx

variable {μ τ : Type} [LawfulMinion μ] [IMetadataStore τ] {s s' : RAIDStorage μ τ g}
  {data data' : DriverData} {tr : List (Exchange (RAIDCall g) RAIDCall.Answer)}

/-! ## `Write` -/

/-- The reply of a `Write` that got the answer `a` in the end. -/
def writeReply (data : DriverData) : Except String Unit → DriverData
  | .ok () => { data with status := .success }
  | .error _ => { data with status := .failure }

/-- The status says whether the `Write` threw. -/
theorem writeReply_status (data : DriverData) (a : Except String Unit) :
    (writeReply data a).status = .success ↔ a = .ok () := by
  rcases a with what | ⟨⟩ <;> simp [writeReply]

/-- A `Write` of no bytes makes its record, and nothing else. -/
theorem write_of_empty (h : data.buffer.length = 0) :
    write g data = .call (.recordSize data.offset 0) fun a => .ret (writeReply data a) := by
  have hloop : writeLoop g data.buffer data.offset 0 0 = .ret (.ok ()) := by
    rw [writeLoop, if_neg (Nat.lt_irrefl 0)]
    rfl
  rw [write, h, hloop, Prog.ret_bind]
  refine congrArg (Prog.call _) (funext fun a => ?_)
  rcases a with what | ⟨⟩ <;> rfl

/-- A `Write` ends in its loop with an exception, or with the answer of the critical section. -/
theorem write_inv (hs : Steps Answers (write g data) s tr (.ret data') s') :
    (∃ what, data' = writeReply data (.error what) ∧
      Steps Answers (writeChunks g data.buffer (g.chunks data.offset data.buffer.length 0)) s tr
        (.ret (.error what)) s') ∨
    ∃ s₁ tr₁ a, data' = writeReply data a ∧
      tr = tr₁ ++ [⟨.recordSize data.offset data.buffer.length, a⟩] ∧
      Steps Answers (writeChunks g data.buffer (g.chunks data.offset data.buffer.length 0)) s tr₁
        (.ret (.ok ())) s₁ ∧
      Answers s₁ (.recordSize data.offset data.buffer.length) a s' := by
  obtain ⟨v, s₁, tr₁, tr₂, rfl, hl, hs⟩ := Steps.bind_ret_inv hs
  rcases writeLoop_eq_or_abort g data.buffer data.offset data.buffer.length 0 with he | ⟨-, -, he⟩
  · rw [he] at hl
    rcases v with what | ⟨⟩
    · obtain ⟨rfl, hv, rfl⟩ := hs.ret_inv
      -- the loop has thrown
      obtain rfl := Prog.ret.inj hv
      exact .inl ⟨what, rfl, by rwa [List.append_nil]⟩
    · obtain ⟨a, s₂, tr₃, rfl, ha, hs⟩ := Steps.call_ret_inv hs
      -- the loop is done, and the size is recorded
      refine .inr ⟨s₁, tr₁, a, ?_⟩
      rcases a with what | ⟨⟩ <;>
      · obtain ⟨rfl, hv, rfl⟩ := hs.ret_inv
        obtain rfl := Prog.ret.inj hv
        exact ⟨rfl, rfl, hl, ha⟩
  · rw [he] at hl
    cases hl.abort_inv.2.1

/-- No `Write` of a minion throws. -/
def Unfailing (tr : List (Exchange (RAIDCall g) RAIDCall.Answer)) : Prop :=
  ∀ i a buf what, (⟨.minionWrite i a buf, .error what⟩ : Exchange _ _) ∉ tr

/-- A `Write` of a minion threw. -/
def writeThrew : Exchange (RAIDCall g) RAIDCall.Answer → Bool
  | ⟨.minionWrite _ _ _, .error _⟩ => true
  | _ => false

instance (tr : List (Exchange (RAIDCall g) RAIDCall.Answer)) : Decidable (Unfailing tr) :=
  decidable_of_iff (∀ e ∈ tr, writeThrew e = false) <| by
    constructor
    · intro h i a buf what hm
      cases h _ hm
    · rintro h ⟨o, a⟩ hm
      cases o with
      | minionWrite i b buf =>
        rcases a with what | ⟨⟩
        · exact absurd hm (h _ _ _ _)
        · rfl
      | _ => rfl

omit [LawfulMinion μ] [IMetadataStore τ] in
theorem Unfailing.of_append_left {tr tr' : List (Exchange (RAIDCall g) RAIDCall.Answer)}
    (h : Unfailing (tr ++ tr')) : Unfailing tr :=
  fun i a buf what hm => h i a buf what (List.mem_append_left _ hm)

omit [LawfulMinion μ] [IMetadataStore τ] in
theorem Unfailing.of_append_right {tr tr' : List (Exchange (RAIDCall g) RAIDCall.Answer)}
    (h : Unfailing (tr ++ tr')) : Unfailing tr' :=
  fun i a buf what hm => h i a buf what (List.mem_append_right _ hm)

/-- The loop of `Write` throws only what a minion throws. -/
theorem writeChunks_ok_of_unfailing {buffer : List Byte} {cs : List Chunk} {v : Except String Unit}
    (hs : Steps Answers (writeChunks g buffer cs) s tr (.ret v) s') (hu : Unfailing tr) :
    v = .ok () := by
  induction cs generalizing s tr with
  | nil => exact Prog.ret.inj hs.ret_inv.2.1
  | cons c cs ih =>
    obtain ⟨w, s₁, tr₁, tr₂, rfl, hc, hs⟩ := Steps.bind_ret_inv hs
    rcases w with what | ⟨⟩
    · -- a chunk that fails has a call that fails
      obtain ⟨-, ⟨_, -, -, ht⟩ | ⟨_, -, -, ht⟩ | ⟨h, -⟩⟩ := writeChunk_steps hc
      · rw [ht] at hu
        exact absurd List.mem_cons_self (hu.of_append_left _ _ _ _)
      · rw [ht] at hu
        exact absurd (List.mem_cons_of_mem _ List.mem_cons_self) (hu.of_append_left _ _ _ _)
      · cases h
    · exact ih hs hu.of_append_right

/-- The loop of `Write` throws when a minion does. -/
theorem unfailing_writeChunks {buffer : List Byte} {cs : List Chunk}
    (hs : Steps Answers (writeChunks g buffer cs) s tr (.ret (.ok ())) s') : Unfailing tr := by
  induction cs generalizing s tr with
  | nil =>
    obtain ⟨rfl, -, -⟩ := hs.ret_inv
    exact fun i a buf what hm => absurd hm List.not_mem_nil
  | cons c cs ih =>
    obtain ⟨s₁, tr₁, tr₂, rfl, hc, hrest⟩ := writeChunks_cons_ok hs
    obtain ⟨-, ⟨_, h, -⟩ | ⟨_, h, -⟩ | ⟨-, -, rfl⟩⟩ := writeChunk_steps hc
    · cases h
    · cases h
    · intro i a buf what hm
      rcases List.mem_append.mp hm with hm | hm
      · simp at hm
      · exact ih hrest i a buf what hm

/-- A `Write` during which no minion fails has completed its loop. -/
theorem write_inv_of_unfailing (hs : Steps Answers (write g data) s tr (.ret data') s')
    (hu : Unfailing tr) :
    ∃ s₁ tr₁, Steps Answers (writeChunks g data.buffer
        (g.chunks data.offset data.buffer.length 0)) s tr₁ (.ret (.ok ())) s₁ ∧
      s'.minions = s₁.minions := by
  rcases write_inv hs with ⟨what, -, hl⟩ | ⟨s₁, tr₁, a, -, -, hl, ha⟩
  · cases writeChunks_ok_of_unfailing hl hu
  · exact ⟨s₁, tr₁, hl, (answers_recordSize ha).1⟩

omit [IMetadataStore τ] in
theorem cells_eq_of_minions (h : s'.minions = s.minions) : s'.cells = s.cells := by
  funext i
  rw [cells, cells, h]

/-- The call is no `Write` of a minion. -/
def NoWrite (o : RAIDCall g) : Prop := ∀ i a buf, o ≠ .minionWrite i a buf

/-- Only a `Write` of a minion changes a cell. -/
theorem cells_of_noWrite {o : RAIDCall g} {a : o.Answer} (ho : NoWrite o) (h : Answers s o a s') :
    s'.cells = s.cells := by
  cases h.effect with
  | none => rfl
  | minionWrite => exact absurd rfl (ho _ _ _)
  | recordSize => exact cells_eq_of_minions rfl

theorem answers_size {o : RAIDCall g} {a : o.Answer} (h : Answers s o a s') (i : Fin g.numMinions) :
    IStorageMinion.size (s'.minions i) = IStorageMinion.size (s.minions i) := by
  cases h.effect with
  | none => rfl
  | minionWrite => exact (answers_minionWrite h).1.size i
  | recordSize => rfl

theorem sized_write (hs : Steps Answers (write g data) s tr (.ret data') s') (hz : s.Sized) :
    s'.Sized := by
  rcases write_inv hs with ⟨what, -, hl⟩ | ⟨s₁, tr₁, a, -, -, hl, ha⟩
  · exact (sameIndex_writeChunks hl).sized hz
  · intro i
    rw [(answers_recordSize ha).1]
    exact (sameIndex_writeChunks hl).sized hz i

/-- A `Write` during which no minion fails keeps the mirrors equal. -/
theorem mirrored_write (hs : Steps Answers (write g data) s tr (.ret data') s')
    (hu : Unfailing tr) (h : s.Mirrored) : s'.Mirrored := by
  obtain ⟨s₁, tr₁, hl, hm⟩ := write_inv_of_unfailing hs hu
  rw [Mirrored, cells_eq_of_minions hm]
  exact mirrored_writeChunks hl h

/-- A `Write` inside the device during which no minion fails has stored its buffer, whatever
becomes of the index. -/
theorem device_write (hs : Steps Answers (write g data) s tr (.ret data') s') (hu : Unfailing tr)
    (hr : g.InRange data.offset data.buffer.length) {x : Nat} (hx : g.InRange x 1) :
    s'.device x = store s.device data.offset data.buffer x := by
  obtain ⟨s₁, tr₁, hl, hm⟩ := write_inv_of_unfailing hs hu
  have hd := device_writeChunks (Geometry.partition_chunks hr 0) (by omega) hl hx
  rwa [slice_zero_length, ← device_congr (cells_eq_of_minions hm)] at hd

/-- During a `Write` that succeeds no minion fails. -/
theorem unfailing_write (hs : Steps Answers (write g data) s tr (.ret data') s')
    (h : data'.status = .success) : Unfailing tr := by
  rcases write_inv hs with ⟨what, rfl, -⟩ | ⟨s₁, tr₁, a, -, rfl, hl, -⟩
  · cases (writeReply_status data _).mp h
  · intro i b buf what hm
    rcases List.mem_append.mp hm with hm | hm
    · exact unfailing_writeChunks hl i b buf what hm
    · simp at hm

/-- A `Write` inside the device, while nothing fails and the index can be saved, succeeds. -/
theorem run_write (data : DriverData) (hz : s.Sized) (h64 : g.stripeSize < 2 ^ 64)
    (hr : g.InRange data.offset data.buffer.length)
    (hsave : ∀ (st : τ) sizes, (IMetadataStore.save st sizes).1 = .ok ()) :
    ∃ s', (write g data).run handler s = some ({ data with status := .success }, s') ∧
      s'.offsetSizes = s.offsetSizes.insert data.offset data.buffer.length := by
  have hb : 0 + data.buffer.length ≤ data.buffer.length := by omega
  obtain ⟨s₁, h₁⟩ := run_writeChunks (Geometry.partition_chunks hr 0) hz h64 hb
  obtain ⟨tr, hst⟩ := steps_of_run h₁
  -- the loop is done; the size is recorded and saved
  obtain ⟨s', hrec, hi⟩ : ∃ s', handler (.recordSize data.offset data.buffer.length) s₁ =
      some (.ok (), s') ∧ s'.offsetSizes = s₁.offsetSizes.insert data.offset data.buffer.length := by
    simp only [handler, hsave]
    exact ⟨_, rfl, rfl⟩
  refine ⟨s', ?_, by rw [hi, (sameIndex_writeChunks hst).offsetSizes]⟩
  simp only [write, writeLoop_eq_of_inRange hr, Prog.run_bind, h₁, Option.bind_some, recordSize,
    Prog.perform_bind]
  rw [Prog.run_call_of_eq hrec]
  rfl

/-! ## `Read` -/

/-- **A `Read` inside the device** under any faults succeeds exactly when every chunk has a copy
that answers; its buffer then holds the bytes of the copies. It changes nothing. -/
theorem run_read (data : DriverData) (hz : s.Sized) (h64 : g.stripeSize < 2 ^ 64)
    (hr : g.InRange data.offset data.len) (faults : Faults g) :
    ((∀ c ∈ g.chunks data.offset data.len 0, Readable faults c) →
      ∃ buf, buf.length = data.len ∧ ReadsCopies s data.offset buf ∧
        (read g data).run (faultyReads faults) s =
          some ({ data with buffer := buf, status := .success }, s)) ∧
    (¬ (∀ c ∈ g.chunks data.offset data.len 0, Readable faults c) →
      ∃ buf, (read g data).run (faultyReads faults) s =
        some ({ data with buffer := buf, status := .failure }, s)) := by
  set buffer := data.buffer.take data.len ++ List.replicate (data.len - data.buffer.length) 0
    with hbuf
  have hl : buffer.length = data.len := length_readBuffer data
  have hb : 0 + data.len ≤ buffer.length := by omega
  obtain ⟨hok, herr⟩ := run_readChunks (Geometry.partition_chunks hr 0) hz h64 hb faults
  simp only [read, ← hbuf, readLoop_eq_of_inRange hr, Prog.run_bind]
  refine ⟨fun h => ?_, fun h => ?_⟩
  · -- the loop fills the whole buffer
    obtain ⟨buf, hlb, hcopies, he⟩ := hok h
    refine ⟨buf, hlb, hcopies, ?_⟩
    rw [he, overwrite_eq_of_length (by omega)]
    rfl
  · obtain ⟨what, buf, he⟩ := herr h
    exact ⟨buf, by rw [he]; rfl⟩

/-- While nothing fails the loop of `Read` gets every chunk from its primary. -/
theorem run_readChunks_primary {offset remaining bufPos : Nat} {cs : List Chunk}
    (hp : g.Partition offset remaining bufPos cs) (hz : s.Sized) (h64 : g.stripeSize < 2 ^ 64)
    {buffer : List Byte} (hb : bufPos + remaining ≤ buffer.length) :
    (readChunks g buffer cs).run handler s =
      some ((.ok (), overwrite buffer bufPos (load s.device offset remaining)), s) := by
  induction hp generalizing buffer with
  | nil offset bufPos =>
    rw [load_zero, overwrite_nil]
    rfl
  | @cons offset n remaining bufPos cs hn hs hc hp ih =>
    have hfit := hz.fits hn hs hc (g.primary (g.primaryIndex offset))
    -- the primary answers with the bytes of the device
    have hread : handler (.minionRead (g.primary (g.primaryIndex offset)) (g.localOffset offset)
        (List.replicate n 0)) s = some ((.ok (), load s.device offset n), s) := by
      rw [handler_minionRead (by rwa [List.length_replicate]) (hz.size_lt h64 _),
        List.length_replicate, load_primary hc hs]
    have hchunk : (readChunk g ⟨offset, n, bufPos⟩).run handler s =
        some ((.ok (), load s.device offset n), s) := by
      rw [readChunk, minionRead, Prog.perform_bind, Prog.run_call_of_eq hread]
      rfl
    have hb' : bufPos + n + remaining ≤ (overwrite buffer bufPos (load s.device offset n)).length := by
      rw [length_overwrite (by rw [length_load]; omega)]
      omega
    rw [readChunks, Prog.run_bind, hchunk]
    refine (ih hb').trans ?_
    rw [load_add, ← overwrite_append (by rw [length_load]; omega), length_load]

/-- **A `Read` inside the device** while nothing fails returns the bytes of the primaries. -/
theorem run_read_primary (data : DriverData) (hz : s.Sized) (h64 : g.stripeSize < 2 ^ 64)
    (hr : g.InRange data.offset data.len) :
    (read g data).run handler s = some ({ data with
      buffer := load s.device data.offset data.len
      status := .success }, s) := by
  have hl := length_readBuffer data
  rw [read, readLoop_eq_of_inRange hr, Prog.run_bind,
    run_readChunks_primary (Geometry.partition_chunks hr 0) hz h64 (by omega),
    overwrite_eq_of_length (by rw [length_load, hl])]
  rfl

end RAIDStorage

end LDS
