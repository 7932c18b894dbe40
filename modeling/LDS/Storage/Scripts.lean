import LDS.Storage.Requests

/-!
# Requests as scripts

While no minion fails, a request inside the device makes the same calls whatever they answer: a `Write`
every chunk to the primary and to the mirror and then the record of its size, a `Read` every chunk from
the primary. Requests that run side by side interleave their scripts, and what they leave behind can be
read off the exchanges of the run.

## Main definitions

* `RAIDStorage.NoFailures`: the answers when no minion fails
* `RAIDStorage.writeScript`, `RAIDStorage.readScript`, `RAIDStorage.requestScript`: the calls of a request
* `RAIDStorage.storeCall`, `RAIDStorage.recordCall`: what an exchange does to the memories and the index

## Main results

* `RAIDStorage.obeys_write_script`, `RAIDStorage.obeys_read_script`: the programs follow their scripts
* `RAIDStorage.run_cells`, `RAIDStorage.run_offsetSizes`: the state after a run
-/

namespace LDS

open Memory

namespace RAIDStorage

variable {g : Geometry}

/-- The call is no `Read` or `Write` of a minion that throws. -/
def Succeeds : (o : RAIDCall g) → o.Answer → Prop
  | .minionRead _ _ buf, a => a.1 = .ok () ∧ a.2.length = buf.length
  | .minionWrite _ _ _, a => a = .ok ()
  | _, _ => True

instance : (o : RAIDCall g) → (a : o.Answer) → Decidable (Succeeds o a)
  | .minionRead _ _ buf, (.ok (), l) => decidable_of_iff (l.length = buf.length) (by simp [Succeeds])
  | .minionRead _ _ _, (.error _, _) => .isFalse fun h => by cases h.1
  | .minionWrite _ _ _, .ok () => .isTrue rfl
  | .minionWrite _ _ _, .error _ => .isFalse fun h => by cases h
  | .recordSize _ _, _ => .isTrue trivial
  | .getDataSize _, _ => .isTrue trivial
  | .listOffsets, _ => .isTrue trivial

/-- The calls of a `Write` for one chunk. -/
def writeCalls (g : Geometry) (buffer : List Byte) (c : Chunk) : List (RAIDCall g) :=
  [.minionWrite (g.primary (g.primaryIndex c.offset)) (g.localOffset c.offset)
      (slice buffer c.bufPos c.len),
    .minionWrite (g.mirrorIndex (g.primaryIndex c.offset)) (g.localOffset c.offset)
      (slice buffer c.bufPos c.len)]

/-- The calls of a `Write`. -/
def writeScript (g : Geometry) (data : DriverData) : List (RAIDCall g) :=
  (g.chunks data.offset data.buffer.length 0).flatMap (writeCalls g data.buffer) ++
    [.recordSize data.offset data.buffer.length]

/-- The call of a `Read` for one chunk. -/
def readCall (g : Geometry) (c : Chunk) : RAIDCall g :=
  .minionRead (g.primary (g.primaryIndex c.offset)) (g.localOffset c.offset) (List.replicate c.len 0)

/-- The calls of a `Read`. -/
def readScript (g : Geometry) (data : DriverData) : List (RAIDCall g) :=
  (g.chunks data.offset data.len 0).map (readCall g)

/-- The number of bytes that a request moves. -/
def requestLen (isWrite : Bool) (data : DriverData) : Nat :=
  if isWrite then data.buffer.length else data.len

/-- The calls of a `READ` or a `WRITE`. -/
def requestScript (g : Geometry) (isWrite : Bool) (data : DriverData) : List (RAIDCall g) :=
  if isWrite then writeScript g data else readScript g data

/-- The bytes that a minion has answered. -/
def answeredBytes : Exchange (RAIDCall g) RAIDCall.Answer → List Byte
  | ⟨.minionRead _ _ _, a⟩ => a.2
  | _ => []

/-- The bytes that the minions have answered. -/
def readBytes (made : List (Exchange (RAIDCall g) RAIDCall.Answer)) : List Byte :=
  made.flatMap answeredBytes

/-- The calls of a `Write` inside the device: writes that fit their minions, and the record of the size. -/
theorem mem_writeScript {data : DriverData} (hr : g.InRange data.offset data.buffer.length)
    {o : RAIDCall g} (h : o ∈ writeScript g data) :
    (∃ i a buf, o = .minionWrite i a buf ∧ a + buf.length ≤ g.stripeSize) ∨
      o = .recordSize data.offset data.buffer.length := by
  rcases List.mem_append.mp h with h | h
  · obtain ⟨c, hc, h⟩ := List.mem_flatMap.mp h
    obtain ⟨hn, hs, hin, hle, hend, hpos⟩ := (Geometry.partition_chunks hr 0).mem hc
    have hl : (slice data.buffer c.bufPos c.len).length = c.len := length_slice (by omega)
    have hfit := Geometry.localOffset_add_le hn hs hin
    simp only [writeCalls, List.mem_cons, List.not_mem_nil, or_false] at h
    rcases h with rfl | rfl <;> exact .inl ⟨_, _, _, rfl, by rwa [hl]⟩
  · exact .inr (List.mem_singleton.mp h)

theorem recordSize_mem_writeScript (data : DriverData) :
    (.recordSize data.offset data.buffer.length : RAIDCall g) ∈ writeScript g data :=
  List.mem_append_right _ (List.mem_singleton_self _)

/-! ## The programs -/

theorem obeys_writeChunks_script (buffer : List Byte) (cs : List Chunk) (rest : List (RAIDCall g))
    (made : List (Exchange (RAIDCall g) RAIDCall.Answer)) :
    Prog.Obeys (.script Succeeds) (fun x r => x.1 = rest ∧ r = .ok ())
      (cs.flatMap (writeCalls g buffer) ++ rest, made) (writeChunks g buffer cs) := by
  induction cs generalizing made with
  | nil => exact .ret ⟨rfl, rfl⟩
  | cons c cs ih =>
    rw [List.flatMap_cons, List.append_assoc]
    refine Prog.Obeys.script_call ?_
    rintro _ rfl
    refine Prog.Obeys.script_call ?_
    rintro _ rfl
    exact ih _

/-- A `Write` inside the device follows its script. -/
theorem obeys_write_script {data : DriverData} (hr : g.InRange data.offset data.buffer.length) :
    Prog.Obeys (.script Succeeds) (fun x _ => x.1 = [] ∧ True) (writeScript g data, [])
      (write g data) := by
  rw [writeScript, write, writeLoop_eq_of_inRange hr]
  refine (obeys_writeChunks_script _ _ _ _).bind ?_
  rintro ⟨todo, made⟩ _ ⟨rfl, rfl⟩
  refine Prog.Obeys.script_call ?_
  rintro (what | ⟨⟩) - <;> exact .ret ⟨rfl, trivial⟩

theorem obeys_readChunks_script {offset remaining bufPos : Nat} {cs : List Chunk}
    (hp : g.Partition offset remaining bufPos cs) {buffer : List Byte}
    (hb : bufPos + remaining ≤ buffer.length)
    (made : List (Exchange (RAIDCall g) RAIDCall.Answer)) :
    Prog.Obeys (.script Succeeds) (fun x r => x.1 = [] ∧ ∃ new, x.2 = made ++ new ∧
        (readBytes new).length = remaining ∧ r = (.ok (), overwrite buffer bufPos (readBytes new)))
      (cs.map (readCall g), made) (readChunks g buffer cs) := by
  induction hp generalizing buffer made with
  | nil offset bufPos =>
    exact .ret ⟨rfl, [], (List.append_nil _).symm, rfl, by rw [readBytes]; simp⟩
  | @cons offset n remaining bufPos cs hn hs hc hp ih =>
    rw [List.map_cons]
    refine Prog.Obeys.script_call ?_
    -- the primary answers; the mirror is not asked
    rintro ⟨_, bytes⟩ ⟨rfl, hl⟩
    have hl : bytes.length = n := hl.trans List.length_replicate
    have hb' : bufPos + n + remaining ≤ (overwrite buffer bufPos bytes).length := by
      rw [length_overwrite (by omega)]
      omega
    refine (ih hb' _).mono ?_
    rintro ⟨todo, made'⟩ r ⟨rfl, new, rfl, hlen, rfl⟩
    have hcons : readBytes (⟨readCall g ⟨offset, n, bufPos⟩, (.ok (), bytes)⟩ :: new) =
        bytes ++ readBytes new := rfl
    refine ⟨rfl, ⟨readCall g ⟨offset, n, bufPos⟩, (.ok (), bytes)⟩ :: new, by simp, ?_, ?_⟩
    · rw [hcons, List.length_append, hl, hlen]
    · rw [hcons, ← overwrite_append (by omega), hl]

/-- A `Read` inside the device follows its script, and returns the bytes that it was answered. -/
theorem obeys_read_script {data : DriverData} (hr : g.InRange data.offset data.len) :
    Prog.Obeys (.script Succeeds)
      (fun x data' => x.1 = [] ∧ data'.buffer = readBytes x.2 ∧ (readBytes x.2).length = data.len ∧
        data'.status = .success)
      (readScript g data, []) (read g data) := by
  rw [readScript, read, readLoop_eq_of_inRange hr]
  have hl := length_readBuffer data
  refine (obeys_readChunks_script (Geometry.partition_chunks hr 0) (by omega) []).bind ?_
  rintro ⟨todo, made⟩ _ ⟨rfl, new, rfl, hlen, rfl⟩
  refine .ret ⟨rfl, ?_, hlen, rfl⟩
  exact overwrite_eq_of_length (hlen.trans hl.symm)

/-- A request inside the device follows its script. -/
theorem obeys_request_script {isWrite : Bool} {data : DriverData}
    (hr : g.InRange data.offset (requestLen isWrite data)) :
    Prog.Obeys (.script Succeeds)
      (fun x data' => x.1 = [] ∧ (isWrite = false → data'.buffer = readBytes x.2 ∧
        (readBytes x.2).length = data.len ∧ data'.status = .success))
      (requestScript g isWrite data, []) (request g isWrite data) := by
  cases isWrite with
  | true => exact (obeys_write_script hr).mono fun _ _ h => ⟨h.1, fun h => by cases h⟩
  | false => exact (obeys_read_script hr).mono fun _ _ h => ⟨h.1, fun _ => h.2⟩

/-! ## The state after a run -/

/-- What an exchange does to the memories. -/
def storeCall (cells : Fin g.numMinions → Nat → Byte) :
    Exchange (RAIDCall g) RAIDCall.Answer → Fin g.numMinions → Nat → Byte
  | ⟨.minionWrite i a buf, .ok ()⟩ => Function.update cells i (store (cells i) a buf)
  | _ => cells

/-- What an exchange does to the index. -/
def recordCall (offsetSizes : SizeMap) : Exchange (RAIDCall g) RAIDCall.Answer → SizeMap
  | ⟨.recordSize offset size, _⟩ => offsetSizes.insert offset size
  | _ => offsetSizes

/-- An entry of the index after some exchanges was there before or was recorded by one of them. -/
theorem getElem?_foldl_recordCall {es : List (Exchange (RAIDCall g) RAIDCall.Answer)}
    {offsetSizes : SizeMap} {k v : Nat} (h : (es.foldl recordCall offsetSizes)[k]? = some v) :
    offsetSizes[k]? = some v ∨ ∃ e ∈ es, e.1 = .recordSize k v := by
  induction es generalizing offsetSizes with
  | nil => exact .inl h
  | cons e es ih =>
    -- the last record of the offset, or an earlier one
    rcases ih h with hk | ⟨e', he', h⟩
    · obtain ⟨o, a⟩ := e
      cases o with
      | recordSize offset size =>
        rw [recordCall, Std.ExtTreeMap.getElem?_insert] at hk
        split at hk
        · rename_i he
          obtain rfl := Nat.compare_eq_eq.mp he
          obtain rfl := Option.some.inj hk
          exact .inr ⟨_, List.mem_cons_self, rfl⟩
        · exact .inl hk
      | _ => exact .inl hk
    · exact .inr ⟨e', List.mem_cons_of_mem e he', h⟩

/-- What was recorded is in the index. -/
theorem mem_foldl_recordCall {es : List (Exchange (RAIDCall g) RAIDCall.Answer)}
    {offsetSizes : SizeMap} {k v : Nat}
    (h : k ∈ offsetSizes ∨ ∃ e ∈ es, e.1 = .recordSize k v) : k ∈ es.foldl recordCall offsetSizes := by
  induction es generalizing offsetSizes with
  | nil => exact h.resolve_right fun ⟨e, he, _⟩ => List.not_mem_nil he
  | cons e es ih =>
    apply ih
    -- an offset that is there stays
    have hmem : k ∈ offsetSizes → k ∈ recordCall offsetSizes e := by
      intro hk
      obtain ⟨o, a⟩ := e
      cases o with
      | recordSize offset size => exact Std.ExtTreeMap.mem_insert.mpr (.inr hk)
      | _ => exact hk
    rcases h with h | ⟨e', he', h⟩
    · exact .inl (hmem h)
    · rcases List.mem_cons.mp he' with rfl | he'
      · obtain ⟨o, a⟩ := e'
        obtain rfl := h
        exact .inl Std.ExtTreeMap.mem_insert_self
      · exact .inr ⟨e', he', h⟩

variable {μ τ : Type} [LawfulMinion μ] [IMetadataStore τ] {s s' : RAIDStorage μ τ g}

/-- The answers of the calls when no minion fails. -/
def NoFailures : Environment (RAIDCall g) RAIDCall.Answer (RAIDStorage μ τ g) :=
  fun s o a s' => Answers s o a s' ∧ Succeeds o a

theorem succeeds_of_noFailures (s : RAIDStorage μ τ g) (o : RAIDCall g) (a : o.Answer)
    (s' : RAIDStorage μ τ g) (h : NoFailures s o a s') : Succeeds o a := h.2

/-- One call, as its exchange tells it. -/
theorem cells_of_answers {o : RAIDCall g} {a : o.Answer} (h : Answers s o a s') :
    s'.cells = storeCall s.cells ⟨o, a⟩ := by
  cases o with
  | minionWrite i b buf =>
    obtain ⟨-, ⟨rfl, -, hc⟩ | ⟨what, rfl, hc⟩⟩ := answers_minionWrite h <;> exact hc
  | _ => exact cells_of_noWrite (fun i b buf he => by cases he) h

theorem offsetSizes_of_answers {o : RAIDCall g} {a : o.Answer} (h : Answers s o a s') :
    s'.offsetSizes = recordCall s.offsetSizes ⟨o, a⟩ := by
  cases h.effect with
  | none hne =>
    cases o with
    | recordSize offset size => exact absurd rfl (hne offset size)
    | _ => rfl
  | minionWrite => rfl
  | recordSize => rfl

section Runs

variable {ι α : Type} [DecidableEq ι] {s₀ : RAIDStorage μ τ g} {T₀ T : ι → RAIDProg g α}
  {tr : List (ι × Exchange (RAIDCall g) RAIDCall.Answer)}

/-- The memories after a run are those before it with the exchanges done to them. -/
theorem run_cells (hr : Pool.Run Answers T₀ s₀ tr T s) :
    s.cells = (tr.map Prod.snd).foldl storeCall s₀.cells := by
  refine hr.invariant (I := fun tr _ s => s.cells = (tr.map Prod.snd).foldl storeCall s₀.cells) rfl ?_
  rintro tr T s _ T' s' hs ih
  cases hs with
  | call _ hR =>
    rw [cells_of_answers hR, ih, List.map_append, List.foldl_append]
    rfl

/-- The index after a run is that before it with the exchanges done to it. -/
theorem run_offsetSizes (hr : Pool.Run Answers T₀ s₀ tr T s) :
    s.offsetSizes = (tr.map Prod.snd).foldl recordCall s₀.offsetSizes := by
  refine hr.invariant
    (I := fun tr _ s => s.offsetSizes = (tr.map Prod.snd).foldl recordCall s₀.offsetSizes) rfl ?_
  rintro tr T s _ T' s' hs ih
  cases hs with
  | call _ hR =>
    rw [offsetSizes_of_answers hR, ih, List.map_append, List.foldl_append]
    rfl

/-- Nothing changes the sizes of the minions. -/
theorem run_sized (hr : Pool.Run Answers T₀ s₀ tr T s) (h : s₀.Sized) : s.Sized := by
  refine hr.invariant (I := fun _ _ s => s.Sized) h ?_
  rintro tr T s _ T' s' hs hz i
  cases hs with
  | call _ hR => exact (answers_size hR i).trans (hz i)

/-- In a run without failures no minion has failed. -/
theorem succeeds_of_run (hr : Pool.Run NoFailures T₀ s₀ tr T s) : ∀ e ∈ tr, Succeeds e.2.1 e.2.2 := by
  refine hr.invariant (I := fun tr _ _ => ∀ e ∈ tr, Succeeds e.2.1 e.2.2) (by simp) ?_
  rintro tr T s _ T' s' hs ih e he
  rcases List.mem_append.mp he with he | he
  · exact ih e he
  · obtain rfl := List.mem_singleton.mp he
    cases hs with
    | call _ hR => exact succeeds_of_noFailures _ _ _ _ hR

/-- A run in which no minion has failed is one without failures. -/
theorem run_noFailures (hr : Pool.Run Answers T₀ s₀ tr T s) (h : ∀ e ∈ tr, Succeeds e.2.1 e.2.2) :
    Pool.Run NoFailures T₀ s₀ tr T s := by
  induction hr with
  | nil => exact .nil
  | snoc hr hs ih =>
    obtain ⟨htr, he⟩ := List.forall_mem_append.mp h
    cases hs with
    | call hT hR => exact .snoc (ih htr) (.call hT ⟨hR, he _ (List.mem_singleton_self _)⟩)

end Runs

end RAIDStorage

end LDS
