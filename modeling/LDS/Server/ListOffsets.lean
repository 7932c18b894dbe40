import LDS.Server.ReplyDecoding
import LDS.Storage.FileMetadataStore
import LDS.Storage.Scripts

/-!
# The list of offsets

The reply to `LIST_OFFSETS` is the whole index, sixteen bytes an entry, behind a header whose `len` has 32
bits. All bytes of the buffer are written, but a client reads as many as the header says.

## Main definitions

* `TCPDriverComm.recvOffsets`: the client
* `TCPDriverComm.Lossless index frame`: the client obtains the index from the reply `frame`
* `Request.OnWire`: requests whose offset and length have their widths on the wire
* `Listing fd`: the environment of a worker that answers the client of `fd`

## Main results

* `TCPDriverComm.lossless_replyFrame_iff`: which indexes fit a reply
* `RAIDStorage.listOffsets_lossless_iff`: the reply of the mediator over a storage that has been in use
-/

namespace LDS

open Memory FileMetadataStore

namespace TCPDriverComm

/-! ## The client -/

/-- One entry of the reply. -/
def decodeEntry (bytes : List Byte) : Option ((Nat × Nat) × List Byte) :=
  if bytes.length < 16 then none
  else some ((ofBigEndian (slice bytes 0 8), ofBigEndian (slice bytes 8 8)), bytes.drop 16)

/-- The entries of a payload; a part of an entry at its end is dropped. -/
def splitOffsets (data : List Byte) : List (Nat × Nat) :=
  ((decodeMany decodeEntry (data.length / 16) data).map Prod.fst).getD []

/-- The client reads a header, and then as many bytes as its `len` says. -/
def recvOffsets (bytes : List Byte) : Option (List (Nat × Nat) × List Byte) :=
  let error := ofBigEndian (slice bytes 0 4)
  let len := ofBigEndian (slice bytes 12 4)
  if error ≠ 0 ∨ bytes.length < 16 + len then none
  else some (splitOffsets (slice bytes 16 len), bytes.drop (16 + len))

/-- The client obtains the entries of the index, each once and in ascending order, and finds behind them
what follows the reply. -/
def Lossless (index : SizeMap) (frame : List Byte) : Prop :=
  ∀ rest, ∃ entries, recvOffsets (frame ++ rest) = some (entries, rest) ∧
    entries.Pairwise (fun e e' => e.1 < e'.1) ∧
    ∀ offset size, (offset, size) ∈ entries ↔ index[offset]? = some size

/-! ## The encoder -/

@[simp] theorem length_packOffsets (entries : List (Nat × Nat)) :
    (InputMediator.packOffsets entries).length = 16 * entries.length := by
  induction entries with
  | nil => rfl
  | cons e entries ih =>
    rw [InputMediator.packOffsets, List.flatMap_cons, List.length_append, ← InputMediator.packOffsets, ih]
    simp only [List.length_append, length_bigEndian, List.length_cons]
    omega

theorem decodeEntry_append {offset size : Nat} (ho : offset < 2 ^ 64) (hs : size < 2 ^ 64)
    (rest : List Byte) :
    decodeEntry (bigEndian 8 offset ++ bigEndian 8 size ++ rest) = some ((offset, size), rest) := by
  have hoffset : slice (bigEndian 8 offset ++ bigEndian 8 size ++ rest) 0 8 = bigEndian 8 offset := by
    rw [List.append_assoc, slice_append_left (by simp), slice_self (by simp)]
  have hsize : slice (bigEndian 8 offset ++ bigEndian 8 size ++ rest) 8 8 = bigEndian 8 size := by
    rw [slice_append_left (by simp), slice_append_right (by simp), length_bigEndian, Nat.sub_self,
      slice_self (by simp)]
  have hdrop : (bigEndian 8 offset ++ bigEndian 8 size ++ rest).drop 16 = rest :=
    List.drop_left' (by simp)
  have hfit : ¬ (bigEndian 8 offset ++ bigEndian 8 size ++ rest).length < 16 := by
    simp only [List.length_append, length_bigEndian]
    omega
  rw [decodeEntry, if_neg hfit, hoffset, hsize, hdrop, ofBigEndian_bigEndian ho,
    ofBigEndian_bigEndian hs]

/-- The bytes of one entry. -/
def packEntry (e : Nat × Nat) : List Byte := bigEndian 8 e.1 ++ bigEndian 8 e.2

/-- A payload is split into the entries that it was packed from. -/
theorem splitOffsets_packOffsets {entries : List (Nat × Nat)} (hb : Bounded entries) :
    splitOffsets (InputMediator.packOffsets entries) = entries := by
  have hentry : ∀ e ∈ entries, ∀ rest, decodeEntry (packEntry e ++ rest) = some (id e, rest) :=
    fun e he rest => decodeEntry_append (hb e he).1 (hb e he).2 rest
  have hmany := decodeMany_flatMap hentry []
  have hpack : InputMediator.packOffsets entries = entries.flatMap packEntry := rfl
  rw [List.append_nil, List.map_id, ← hpack] at hmany
  rw [splitOffsets, length_packOffsets, Nat.mul_div_cancel_left _ (by decide), hmany]
  rfl

/-! ## The length field -/

/-- A reply to `LIST_OFFSETS`. -/
structure ListsOffsets (index : SizeMap) (data : DriverData) : Prop where
  type : data.type = .listOffsets
  status : data.status = .success
  buffer : data.buffer = InputMediator.packOffsets index.toList

variable {index : SizeMap} {data : DriverData}

/-- What the client gets of a reply: it reads as many bytes as are left of the length in 32 bits. -/
theorem recvOffsets_replyFrame (h : ListsOffsets index data) (rest : List Byte) :
    recvOffsets (replyFrame data ++ rest) =
      some (splitOffsets (slice (data.buffer ++ rest) 0 (data.buffer.length % 2 ^ 32)),
        (data.buffer ++ rest).drop (data.buffer.length % 2 ^ 32)) := by
  have hpayload : payload data = data.buffer := by
    rw [payload, sendsPayload, h.status, h.type]
    cases data.buffer <;> rfl
  have hframe : replyFrame data ++ rest = replyHeader data ++ (data.buffer ++ rest) := by
    rw [replyFrame_eq, hpayload, List.append_assoc]
  obtain ⟨herror, -, hlen⟩ := replyHeader_fields data
  have hreplyLen : replyLen data = data.buffer.length := by
    rw [replyLen, h.status, h.type]
  rw [if_pos h.status] at herror
  rw [hreplyLen] at hlen
  have hle := Nat.mod_le data.buffer.length (2 ^ 32)
  -- the frame is at least as long as its length in 32 bits says
  have hfit : ¬ (0 ≠ 0 ∨ (replyFrame data ++ rest).length < 16 + data.buffer.length % 2 ^ 32) := by
    simp only [hframe, List.length_append, length_replyHeader]
    omega
  have hslice : slice (replyFrame data ++ rest) 16 (data.buffer.length % 2 ^ 32) =
      slice (data.buffer ++ rest) 0 (data.buffer.length % 2 ^ 32) := by
    rw [hframe, slice_append_right (by simp), length_replyHeader, Nat.sub_self]
  have hdrop : (replyFrame data ++ rest).drop (16 + data.buffer.length % 2 ^ 32) =
      (data.buffer ++ rest).drop (data.buffer.length % 2 ^ 32) := by
    rw [hframe, List.drop_append, List.drop_eq_nil_of_le (by simp), List.nil_append, length_replyHeader,
      Nat.add_sub_cancel_left]
  unfold recvOffsets
  simp only [slice_replyFrame_append, Nat.reduceAdd, Nat.reduceLeDiff, Nat.le_refl, herror, hlen, hslice, hdrop]
  exact if_neg hfit

/-- **A reply is lossless** exactly if the length of the list fits its field. -/
theorem lossless_replyFrame_iff (hb : Bounded index.toList) (h : ListsOffsets index data) :
    Lossless index (replyFrame data) ↔ index.size < 2 ^ 28 := by
  have hlen : data.buffer.length = 16 * index.size := by
    rw [h.buffer, length_packOffsets, Std.ExtTreeMap.length_toList]
  constructor
  · intro hl
    by_contra hbig
    obtain ⟨entries, hrecv, -⟩ := hl []
    rw [recvOffsets_replyFrame h, List.append_nil] at hrecv
    -- a part of the payload is left in the stream
    have hdrop := congrArg List.length (Prod.mk.inj (Option.some.inj hrecv)).2
    have hmod := Nat.mod_lt data.buffer.length (by decide : 0 < 2 ^ 32)
    rw [List.length_drop, List.length_nil] at hdrop
    omega
  · intro hsmall rest
    refine ⟨index.toList, ?_, ?_, fun offset size => Std.ExtTreeMap.mem_toList_iff_getElem?_eq_some⟩
    · have hmod : data.buffer.length % 2 ^ 32 = data.buffer.length := Nat.mod_eq_of_lt (by omega)
      rw [recvOffsets_replyFrame h, hmod, List.drop_left, slice_append_left (by omega), slice_zero_length,
        h.buffer, splitOffsets_packOffsets hb]
    · exact Std.ExtTreeMap.ordered_keys_toList.imp Nat.compare_eq_lt.mp

end TCPDriverComm

/-! ## Indexes -/

/-- The fields of the request have their widths on the wire. -/
def Request.OnWire : Request → Prop
  | .read _ offset len => offset < 2 ^ 64 ∧ len < 2 ^ 32
  | .write _ offset buffer => offset < 2 ^ 64 ∧ buffer.length < 2 ^ 32
  | .getDataSize offset => offset < 2 ^ 64
  | .listOffsets => True

namespace RAIDStorage

variable {g : Geometry}

/-- The contract of a request: the entry that it records is one of `size_t`s. -/
def recordsBounded (g : Geometry) : Prog.Contract (RAIDCall g) RAIDCall.Answer Unit :=
  .plain (fun _ _ => True)
    (fun o => ∀ offset size, o = .recordSize offset size → offset < 2 ^ 64 ∧ size < 2 ^ 64) True

theorem obeys_read_recordsBounded (data : DriverData) :
    Prog.Obeys (recordsBounded g) (fun _ _ => True) () (read g data) := by
  refine (obeys_readLoop_of_leads (P := fun _ => True) (fun _ _ _ _ _ => ⟨?_, fun _ _ => trivial⟩)
    trivial _ _ _ _ trivial).bind ?_
  · exact fun _ _ he => by cases he
  · rintro _ ⟨what | ⟨⟩, buffer⟩ - <;> exact .ret trivial

theorem obeys_write_recordsBounded {data : DriverData} (hoffset : data.offset < 2 ^ 64)
    (hlen : data.buffer.length < 2 ^ 64) :
    Prog.Obeys (recordsBounded g) (fun _ _ => True) () (write g data) := by
  refine (obeys_writeLoop_of_leads (P := fun _ => True) (fun _ _ _ _ _ => ⟨?_, fun _ _ => trivial⟩)
    trivial _ _ _ _ trivial).bind ?_
  · exact fun _ _ he => by cases he
  · rintro _ (what | ⟨⟩) -
    · exact .ret trivial
    · refine .call ?_ ?_
      · rintro _ _ ⟨⟩
        exact ⟨hoffset, hlen⟩
      · rintro (what | ⟨⟩) - <;> exact .ret trivial

theorem obeys_serve_recordsBounded {r : Request} (hr : r.OnWire) :
    Prog.Obeys (recordsBounded g) (fun _ _ => True) () ((toIStorage g).serve r) := by
  cases r with
  | read handle offset len =>
    refine Prog.Obeys.bind (?_ : Prog.Obeys _ (fun _ _ => True) _ _) fun _ r _ => ?_
    · exact (obeys_read_recordsBounded _).bind fun _ _ _ => .ret trivial
    · rcases r with what | data <;> exact .ret trivial
  | write handle offset buffer =>
    obtain ⟨hoffset, hlen⟩ := hr
    refine Prog.Obeys.bind (?_ : Prog.Obeys _ (fun _ _ => True) _ _) fun _ r _ => ?_
    · exact (obeys_write_recordsBounded hoffset (Nat.lt_trans hlen (by decide))).bind fun _ _ _ => .ret trivial
    · rcases r with what | data <;> exact .ret trivial
  | getDataSize offset => exact .call (fun _ _ he => by cases he) fun _ _ => .ret trivial
  | listOffsets => exact .call (fun _ _ he => by cases he) fun _ _ => .ret trivial

variable {μ τ ι : Type} [LawfulMinion μ] [IMetadataStore τ] [DecidableEq ι] {s s₀ : RAIDStorage μ τ g}
  {requests : ι → Request} {T : ι → RAIDProg g Response}
  {tr : List (ι × Exchange (RAIDCall g) RAIDCall.Answer)}

/-- The index of a storage that has served requests is one of `size_t`s. -/
theorem bounded_run (hwire : ∀ t, (requests t).OnWire) (h₀ : Bounded s₀.offsetSizes.toList)
    (hr : Pool.Run Answers (fun t => (toIStorage g).serve (requests t)) s₀ tr T s) :
    Bounded s.offsetSizes.toList := by
  refine (hr.invariant (I := fun _ T s => Bounded s.offsetSizes.toList ∧
    ∀ t, Prog.Obeys (recordsBounded g) (fun _ _ => True) () (T t)) ?_ ?_).1
  · exact ⟨h₀, fun t => obeys_serve_recordsBounded (hwire t)⟩
  · rintro tr T s _ _ s' hs ⟨hb, hobeys⟩
    cases hs with
    | @call t o k a _ _ ht hR =>
      have hp := hobeys t
      rw [ht] at hp
      obtain ⟨ho, hk⟩ := hp.call_inv
      constructor
      · -- only `recordSize` changes the index
        rw [offsetSizes_of_answers hR]
        cases o with
        | recordSize offset size =>
          obtain ⟨hoffset, hsize⟩ := ho offset size rfl
          exact bounded_insert hb hoffset hsize
        | _ => exact hb
      · intro t'
        rcases eq_or_ne t' t with rfl | hne
        · rw [Function.update_self]
          exact hk a trivial
        · rw [Function.update_of_ne hne]
          exact hobeys t'

/-! ## The reply of the mediator -/

/-- The calls of a worker that answers the client of `fd`, which has been sent `bytes`. -/
inductive Listing (fd : Int) :
    Environment (JobCall (RAIDCall g)) (JobCall.Answer RAIDCall.Answer) (RAIDStorage μ τ g × List Byte)
  | storage {s s' : RAIDStorage μ τ g} {bytes : List Byte} {o : RAIDCall g} {a : o.Answer}
      (h : Answers s o a s') : Listing fd (s, bytes) (.storage o) a (s', bytes)
  | server {s : RAIDStorage μ τ g} {bytes bytes' : List Byte} {o : ServerCall} {a : o.Answer}
      (h : Accepts fd bytes o a bytes') : Listing fd (s, bytes) (.server o) a (s, bytes')

omit [DecidableEq ι] in
/-- The calls of the driver leave the storage alone. -/
theorem listing_server {fd : Int} (bytes : List Byte) (o : ServerCall) (a : o.Answer)
    (x : RAIDStorage μ τ g × List Byte) :
    Listing fd (s, bytes) (.server o) a x ↔ ∃ bytes', x = (s, bytes') ∧ Accepts fd bytes o a bytes' := by
  constructor
  · intro h
    cases h with
    | server h => exact ⟨_, rfl, h⟩
  · rintro ⟨bytes', rfl, h⟩
    exact .server h

/-- The reply of the `LIST_OFFSETS` handler. -/
def listReply (request : DriverData) (entries : List (Nat × Nat)) : DriverData :=
  { request with
    buffer := InputMediator.packOffsets entries
    len := (InputMediator.packOffsets entries).length
    status := .success }

omit [DecidableEq ι] in
/-- A worker sends the entries of the index, as it is when the storage is asked. -/
theorem total_listOffsets {request : DriverData} (htype : request.type = .listOffsets)
    (hfd : 0 ≤ request.sourceFd) (listenFd : Int) (sent : List Byte) :
    Prog.Total (Listing request.sourceFd)
      (fun _ x => x = (s, sent ++ TCPDriverComm.replyFrame (listReply request s.offsetSizes.toList)))
      (InputMediator.job (TCPDriverComm.toIDriverComm listenFd) (toIStorage g) request) (s, sent) := by
  have hjob : InputMediator.job (TCPDriverComm.toIDriverComm listenFd) (toIStorage g) request =
      .call (.storage .listOffsets) fun entries =>
        Prog.lift (JobCall.Answer RAIDCall.Answer) JobCall.server
          (TCPDriverComm.sendReply (listReply request entries)) >>= .ret := by
    rw [InputMediator.job, InputMediator.command, htype]
    rfl
  rw [hjob]
  refine .call ⟨_, _, .storage (.own rfl)⟩ fun entries x hx => ?_
  cases hx with
  | storage h =>
    rcases h with h | _ | _ | _
    obtain ⟨rfl, rfl⟩ := Prod.mk.inj (Option.some.inj h)
    set data := listReply request s.offsetSizes.toList with hdata
    -- the reply is sent whole
    have hsend : Prog.Total (Accepts request.sourceFd)
        (fun _ bytes => bytes = sent ++ TCPDriverComm.replyFrame data) (TCPDriverComm.sendReply data) sent := by
      have hreply : SendsReply request.sourceFd (TCPDriverComm.sendReply data) (TCPDriverComm.replyFrame data) :=
        .tcp rfl hfd
      refine (total_of_sends (obeys_sendsReply hreply)).mono ?_
      rintro _ bytes ⟨rest, hbytes, rfl⟩
      rwa [List.append_nil] at hbytes
    -- the index stays as it was when the storage was asked
    have hlift : Prog.Total (Listing request.sourceFd)
        (fun _ x => ∃ bytes, x = (s, bytes) ∧ bytes = sent ++ TCPDriverComm.replyFrame data)
        (Prog.lift (JobCall.Answer RAIDCall.Answer) JobCall.server (TCPDriverComm.sendReply data)) (s, sent) :=
      Prog.Total.lift (g := fun bytes => (s, bytes)) listing_server hsend
    refine hlift.bind ?_
    rintro _ _ ⟨bytes, rfl, rfl⟩
    exact .ret rfl

/-- **Listing the offsets.** The storage has served any requests, in any interleaving and under any faults,
from an empty index: the client obtains exactly the index exactly if it has less than `2 ^ 28` entries. -/
theorem listOffsets_lossless_iff (hwire : ∀ t, (requests t).OnWire) (h₀ : s₀.offsetSizes = ∅)
    (hr : Pool.Run Answers (fun t => (toIStorage g).serve (requests t)) s₀ tr T s)
    {request : DriverData} (htype : request.type = .listOffsets) (hfd : 0 ≤ request.sourceFd)
    (listenFd : Int) (sent : List Byte) :
    Prog.Total (Listing request.sourceFd)
      (fun _ x => ∃ frame, x.2 = sent ++ frame ∧
        (TCPDriverComm.Lossless s.offsetSizes frame ↔ s.offsetSizes.size < 2 ^ 28))
      (InputMediator.job (TCPDriverComm.toIDriverComm listenFd) (toIStorage g) request) (s, sent) := by
  have hb : Bounded s.offsetSizes.toList := bounded_run hwire (h₀ ▸ bounded_empty) hr
  refine (total_listOffsets htype hfd listenFd sent).mono ?_
  rintro _ _ rfl
  exact ⟨_, rfl, TCPDriverComm.lossless_replyFrame_iff hb ⟨htype, rfl, rfl⟩⟩

/-! ## Large indexes -/

/-- `WRITE`s of no bytes, one at every offset. -/
def emptyWrite (t : Nat) : Request := .write 0 (t % 2 ^ 64) []

/-- The first `n` of them, one after the other, make an index of `n` entries. -/
theorem exists_run_emptyWrite (g : Geometry) {n : Nat} (hn : n ≤ 2 ^ 64) :
    ∃ tr T, ∃ s : RAIDStorage StorageMinionMemory MemoryMetadataStore g,
      Pool.Run Answers (fun t => (toIStorage g).serve (emptyWrite t)) (inMemory g) tr T s ∧
        s.offsetSizes.size = n ∧ (∀ k ∈ s.offsetSizes, k < n) ∧
        ∀ t, n ≤ t → T t = (toIStorage g).serve (emptyWrite t) := by
  induction n with
  | zero => exact ⟨[], _, _, .nil, rfl, fun k hk => absurd hk Std.ExtTreeMap.not_mem_empty, fun t _ => rfl⟩
  | succ n ih =>
    obtain ⟨tr, T, s, hr, hsize, hlt, hrest⟩ := ih (by omega)
    -- an empty `WRITE` records its size, and touches no minion
    obtain ⟨k, hk⟩ : ∃ k, (toIStorage g).serve (emptyWrite n) = .call (.recordSize n 0) k := by
      apply Exists.intro
      rw [emptyWrite, Nat.mod_eq_of_lt (by omega), IStorage.serve, toIStorage]
      have hwrite : write g (.ofWrite 0 n []) =
          .call (.recordSize n 0) fun a => .ret (writeReply (.ofWrite 0 n []) a) := write_of_empty rfl
      simp only [hwrite]
      rfl
    have hstep : Answers s (.recordSize n 0) (.ok ())
        { s with offsetSizes := s.offsetSizes.insert n 0, metadataStore := ⟨s.offsetSizes.insert n 0⟩ } :=
      .own rfl
    -- an offset that is not there yet makes one more entry
    have hnew : n ∉ s.offsetSizes := fun h => Nat.lt_irrefl n (hlt n h)
    refine ⟨_, _, _, hr.snoc (.call ((hrest n le_rfl).trans hk) hstep), ?_, ?_, ?_⟩
    · rw [Std.ExtTreeMap.size_insert, if_neg (by rwa [Std.ExtTreeMap.contains_iff_mem]), hsize]
    · intro k hk
      rcases Std.ExtTreeMap.mem_insert.mp hk with h | h
      · exact Nat.lt_succ_of_le (Nat.compare_eq_eq.mp h).ge
      · exact Nat.lt_succ_of_lt (hlt k h)
    · intro t ht
      rw [Function.update_of_ne (by omega)]
      exact hrest t (by omega)

theorem onWire_emptyWrite (t : Nat) : (emptyWrite t).OnWire := ⟨Nat.mod_lt _ (by decide), by decide⟩

/-- A `LIST_OFFSETS` of the client of descriptor 5. -/
def listRequest : DriverData := { DriverData.new .listOffsets 0 0 0 with sourceFd := 5 }

theorem type_listRequest : listRequest.type = .listOffsets := rfl

theorem sourceFd_listRequest : 0 ≤ listRequest.sourceFd := by decide

/-- An index of `2 ^ 28` entries, whose list has `2 ^ 32` bytes: the header says that there are none. -/
theorem large_index_lost :
    ¬ ∀ (g : Geometry) (requests : Nat → Request) (tr : List (Nat × Exchange (RAIDCall g) RAIDCall.Answer))
      (T : Nat → RAIDProg g Response) (s : RAIDStorage StorageMinionMemory MemoryMetadataStore g),
      (∀ t, (requests t).OnWire) →
      Pool.Run Answers (fun t => (toIStorage g).serve (requests t)) (inMemory g) tr T s →
      Prog.Total (Listing 5)
        (fun _ x => ∃ frame, x.2 = [] ++ frame ∧ TCPDriverComm.Lossless s.offsetSizes frame)
        (InputMediator.job (TCPDriverComm.toIDriverComm 3) (toIStorage g) listRequest) (s, []) := by
  intro h
  obtain ⟨tr, T, s, hr, hsize, -⟩ := exists_run_emptyWrite ⟨1, 4, by decide⟩ (n := 2 ^ 28) (by decide)
  obtain ⟨_, _, x, hs, frame, hx, hlossless⟩ := (h _ _ tr T s onWire_emptyWrite hr).exists_ret
  -- the same execution sends a frame that is lossless only if the index is small
  have hiff := listOffsets_lossless_iff onWire_emptyWrite rfl hr type_listRequest sourceFd_listRequest 3 []
  obtain ⟨frame', hx', hiff⟩ := (hiff.steps hs).ret_inv
  obtain rfl := List.append_cancel_left (hx.symm.trans hx')
  have hlt := hiff.mp hlossless
  omega

/-- An index of two entries. -/
theorem list_of_two : ∃ s : RAIDStorage StorageMinionMemory MemoryMetadataStore ⟨1, 4, by decide⟩,
    s.offsetSizes.size = 2 ∧ Prog.Total (Listing 5)
      (fun _ x => ∃ frame, x.2 = [] ++ frame ∧
        (TCPDriverComm.Lossless s.offsetSizes frame ↔ s.offsetSizes.size < 2 ^ 28))
      (InputMediator.job (TCPDriverComm.toIDriverComm 3) (toIStorage _) listRequest) (s, []) := by
  obtain ⟨tr, T, s, hr, hsize, -⟩ := exists_run_emptyWrite ⟨1, 4, by decide⟩ (n := 2) (by decide)
  exact ⟨s, hsize, listOffsets_lossless_iff onWire_emptyWrite rfl hr type_listRequest sourceFd_listRequest 3 []⟩

end RAIDStorage

end LDS
