import LDS.Server.InputMediator
import LDS.Server.ReplyFrames
import LDS.Server.RequestFrames

/-!
# Replies as their peer reads them

The `len` of a TCP reply is the length of its payload, a size, or nothing, as its type and status say,
and an NBD reply has none. A peer that remembers what it asked under which handle reads a header, knows
from it how much is to follow, and finds the next header behind that.

## Main definitions

* `TCPDriverComm.decodeReply`, `NBDDriverComm.decodeReply`: the peers
* `Processed request data`: `data` is the reply to `request`
* `TCPDriverComm.Recovers`, `NBDDriverComm.Recovers`: what a peer is to learn of a reply
* `sendAll driver`: calls of `SendReply`, one after the other

## Main results

* `Processed.replies`: what the mediator makes of a request before it replies
* `replies_recovered`: a sequence of replies is read as it was sent
-/

namespace LDS

open Memory

/-! ## Processed requests -/

/-- What the reply to a request has of the request. -/
structure RepliesTo (request data : DriverData) : Prop where
  type : data.type = request.type
  handle : data.handle = request.handle
  sourceFd : data.sourceFd = request.sourceFd
  read : data.type = .read → data.status = .success → data.buffer.length = request.len

section Processed

variable {Op : Type} {Ans : Op → Type}

/-- The contract of a command whose storage answers as `A` says: what it replies is in `P`. -/
abbrev replies (A : (o : Op) → Ans o → Prop) (P : DriverData → Prop) :
    Prog.Contract (CommandCall Op) (CommandCall.Answer Ans) Unit :=
  .plain (fun | .storage o, a => A o a | .sendReply _, _ => True)
    (fun | .storage _ => True | .sendReply data => P data) True

/-- A command passes on what it was asked, and as many bytes as were asked for. -/
theorem obeys_command_replies {A A' : (o : Op) → Ans o → Prop} {S : IStorage Op Ans}
    (hS : S.Keeps A) (hS' : S.Fills A') {request : DriverData}
    (hl : request.buffer.length = request.len) :
    Prog.Obeys (replies (fun o a => A o a ∧ A' o a) (RepliesTo request)) (fun _ _ => True) ()
      (InputMediator.command S request) := by
  have hreply : ∀ data : DriverData, RepliesTo request data →
      Prog.Obeys (replies (fun o a => A o a ∧ A' o a) (RepliesTo request)) (fun _ _ => True) ()
        (InputMediator.sendReply data : InputMediator.CommandProg Ans _) := fun data h =>
    .call h fun _ _ => .ret trivial
  -- a request of another type has no payload in its reply
  have hother : ∀ data : DriverData, data.type = request.type → data.handle = request.handle →
      data.sourceFd = request.sourceFd → request.type ≠ .read → RepliesTo request data :=
    fun data ht hh hf hne => ⟨ht, hh, hf, fun h => absurd (ht.symm.trans h) hne⟩
  have hany : ∀ {α : Type} (p : Prog Op Ans α),
      Prog.Obeys (replies (fun o a => A o a ∧ A' o a) (RepliesTo request)) (fun _ _ => True) ()
        (InputMediator.callStorage p) := fun p =>
    Prog.Obeys.lift (.of_allowed (fun _ _ => trivial) trivial fun _ _ => trivial)
  rw [InputMediator.command]
  cases ht : request.type with
  | read =>
    refine (Prog.Obeys.lift ((hS.read request).and (hS'.read request hl))).bind ?_
    rintro _ (what | data) ⟨hsame, hfill⟩
    · exact .ret trivial
    · obtain ⟨htype, hhandle, -, hfd⟩ := hsame data rfl
      exact hreply data ⟨htype, hhandle, hfd, fun _ => hfill data rfl⟩
  | write =>
    have hall : Prog.Obeys (.plain A' (fun _ => True) True) (fun _ _ => True) () (S.write request) :=
      .of_allowed (fun _ _ => trivial) trivial fun _ _ => trivial
    refine (Prog.Obeys.lift ((hS.write request).and hall)).bind ?_
    rintro _ (what | data) ⟨hsame, -⟩
    · exact .ret trivial
    · obtain ⟨htype, hhandle, -, hfd⟩ := hsame data rfl
      exact hreply data (hother data htype hhandle hfd (by simp [ht]))
  | disconnect => exact .ret trivial
  | flush => exact hreply _ (hother _ rfl rfl rfl (by simp [ht]))
  | trim => exact hreply _ (hother _ rfl rfl rfl (by simp [ht]))
  | getSize => exact (hany _).bind fun _ _ _ => hreply _ (hother _ rfl rfl rfl (by simp [ht]))
  | listOffsets => exact (hany _).bind fun _ _ _ => hreply _ (hother _ rfl rfl rfl (by simp [ht]))
  | other code => exact .ret trivial

/-- The executions of a command whose storage answers as `A` says. -/
def served (A : (o : Op) → Ans o → Prop) :
    Environment (CommandCall Op) (CommandCall.Answer Ans) Unit := fun _ o a _ =>
  match o, a with
  | .storage o, a => A o a
  | .sendReply _, _ => True

theorem served_mono {A A' : (o : Op) → Ans o → Prop} (h : ∀ o a, A o a → A' o a) (s : Unit)
    (o : CommandCall Op) (a : CommandCall.Answer Ans o) (s' : Unit) (ha : served A s o a s') :
    served A' s o a s' := by
  cases o with
  | storage o => exact h o a ha
  | sendReply data => trivial

/-- Some execution of the command of `request` comes to the reply `data`. -/
def CommandReplies (A : (o : Op) → Ans o → Prop) (S : IStorage Op Ans) (request data : DriverData) :
    Prop :=
  ∃ tr k, Steps (served A) (InputMediator.command S request) () tr (.call (.sendReply data) k) ()

theorem repliesTo_of_commandReplies {A A₁ A₂ : (o : Op) → Ans o → Prop} {S : IStorage Op Ans}
    (hS : S.Keeps A₁) (hS' : S.Fills A₂) (hA : ∀ o a, A o a → A₁ o a ∧ A₂ o a)
    {request data : DriverData} (hl : request.buffer.length = request.len)
    (h : CommandReplies A S request data) : RepliesTo request data := by
  obtain ⟨tr, k, hs⟩ := h
  obtain ⟨y, hy⟩ := (hs.mono (served_mono hA)).obeys (fun _ o a _ ha _ => by cases o <;> exact ha)
    (obeys_command_replies hS hS' hl)
  exact hy.call_inv.1

end Processed

/-- `data` is the reply to `request` of a mediator over a `RAIDStorage`, of any minions and any metadata
store, or over a `LocalStorage`. Each call of the command is answered as in some state, so that other
workers may have been at work since the one before. -/
inductive Processed (request data : DriverData) : Prop
  | raid {μ τ : Type} [LawfulMinion μ] [IMetadataStore τ] (g : Geometry)
      (h : CommandReplies (fun o a => ∃ s s' : RAIDStorage μ τ g, RAIDStorage.Answers s o a s')
        (RAIDStorage.toIStorage g) request data)
  | single
      (h : CommandReplies (fun o a => ∃ s s', LocalStorage.handler o s = some (a, s'))
        LocalStorage.toIStorage request data)

/-- What `LocalStorage` answers keeps the request and the length of its buffer. -/
theorem LocalStorage.answered_handler {o : LocalCall} {a : o.Answer} {s s' : LocalStorage}
    (h : LocalStorage.handler o s = some (a, s')) : Answered o a ∧ Fitted o a := by
  cases o with
  | read data =>
    rcases read_cases s data with ⟨-, hr⟩ | ⟨-, -, hr⟩ | ⟨-, hl, hr⟩ <;>
      simp only [handler, hr, Option.some.injEq, Prod.mk.injEq, reduceCtorEq] at h
    · -- the guard throws
      obtain ⟨rfl, -⟩ := h
      exact ⟨fun _ hd => (by cases hd), fun _ hd => (by cases hd)⟩
    · obtain ⟨rfl, -⟩ := h
      constructor
      · intro data' hd
        obtain rfl := Except.ok.inj hd
        exact ⟨rfl, rfl, rfl, rfl⟩
      · intro data' hd
        obtain rfl := Except.ok.inj hd
        exact length_slice hl
  | write data =>
    rcases write_cases s data with ⟨-, hr⟩ | ⟨-, -, hr⟩ | ⟨-, hl, hr⟩ <;>
      simp only [handler, hr, Option.some.injEq, Prod.mk.injEq, reduceCtorEq] at h
    · obtain ⟨rfl, -⟩ := h
      exact ⟨fun _ hd => (by cases hd), trivial⟩
    · obtain ⟨rfl, -⟩ := h
      exact ⟨fun data' hd => Except.ok.inj hd ▸ ⟨rfl, rfl, rfl, rfl⟩, trivial⟩
  | getDataSize offset => exact ⟨trivial, trivial⟩
  | listOffsets => exact ⟨trivial, trivial⟩

/-- What the mediator makes of a request before it replies. -/
theorem Processed.replies {request data : DriverData} (hl : request.buffer.length = request.len)
    (h : Processed request data) : RepliesTo request data := by
  rcases h with @⟨μ, τ, _, _, g, h⟩ | h
  · refine repliesTo_of_commandReplies (RAIDStorage.keeps g) (RAIDStorage.fills g) ?_ hl h
    rintro o a ⟨s, s', h⟩
    refine ⟨trivial, ?_⟩
    cases o with
    | minionRead i offset buf => exact (RAIDStorage.answers_minionRead h).2.1
    | _ => trivial
  · refine repliesTo_of_commandReplies LocalStorage.keeps LocalStorage.fills ?_ hl h
    rintro o a ⟨s, s', h⟩
    exact LocalStorage.answered_handler h

/-! ## TCP -/

namespace TCPDriverComm

/-- What a client reads of a reply. -/
structure Reply where
  status : StatusType
  handle : Nat
  len : Nat
  payload : List Byte

/-- A client that remembers the type it asked for under each handle. It reads a header, and `len` bytes
more if a `READ` or a `LIST_OFFSETS` has succeeded. -/
def decodeReply (typeOf : Nat → ActionType) (bytes : List Byte) : Option (Reply × List Byte) :=
  let error := ofBigEndian (slice bytes 0 4)
  let handle := ofBigEndian (slice bytes 4 8)
  let len := ofBigEndian (slice bytes 12 4)
  let payloadLen :=
    if error = 0 ∧ (typeOf handle = .read ∨ typeOf handle = .listOffsets) then len else 0
  if bytes.length < 16 + payloadLen then none
  else some
    ({ status := if error = 0 then .success else .failure
       handle := handle
       len := len
       payload := slice bytes 16 payloadLen },
      bytes.drop (16 + payloadLen))

/-- The payload of a reply. -/
def payload (data : DriverData) : List Byte := if sendsPayload data then data.buffer else []

/-- A payload is as long as the header says, if the type says that there is one. -/
theorem length_payload (data : DriverData) : (payload data).length =
    if data.status = .success ∧ (data.type = .read ∨ data.type = .listOffsets) then replyLen data
    else 0 := by
  have hbuffer : (if (!data.buffer.isEmpty) = true then data.buffer else []).length =
      data.buffer.length := by
    cases data.buffer <;> rfl
  rw [payload, sendsPayload.eq_def, replyLen.eq_def]
  cases data.status <;> cases data.type <;> first | exact hbuffer | rfl

/-- What the client reads of the reply `data`. -/
def replyOf (data : DriverData) : Reply where
  status := data.status
  handle := data.handle
  len := replyLen data
  payload := payload data

/-- The fields of the header of a reply are where a client looks for them. -/
theorem replyHeader_fields (data : DriverData) :
    ofBigEndian (slice (replyHeader data) 0 4) = (if data.status = .success then 0 else eio) ∧
      ofBigEndian (slice (replyHeader data) 4 8) = data.handle % 2 ^ 64 ∧
      ofBigEndian (slice (replyHeader data) 12 4) = replyLen data % 2 ^ 32 := by
  refine ⟨?_, ?_, ?_⟩ <;>
    simp only [replyHeader, slice_append_right, slice_append_left, slice_self, List.length_append,
      length_bigEndian, Nat.reduceAdd, Nat.reduceSub, Nat.reduceLeDiff, Nat.le_refl]
  · exact ofBigEndian_bigEndian (by split <;> decide)
  · exact ofBigEndian_bigEndian_mod 8 data.handle
  · exact ofBigEndian_bigEndian_mod 4 (replyLen data)

theorem replyFrame_eq (data : DriverData) : replyFrame data = replyHeader data ++ payload data := rfl

/-- A stream that begins with a reply begins with its header. -/
theorem slice_replyFrame_append {data : DriverData} {a n : Nat} (h : a + n ≤ 16) (rest : List Byte) :
    slice (replyFrame data ++ rest) a n = slice (replyHeader data) a n := by
  rw [replyFrame_eq, List.append_assoc, slice_append_left (by rwa [length_replyHeader])]

/-- A client reads a reply as it was sent, whatever follows it. -/
theorem decodeReply_replyFrame {typeOf : Nat → ActionType} {data : DriverData}
    (htype : typeOf data.handle = data.type) (hhandle : data.handle < 2 ^ 64)
    (hlen : replyLen data < 2 ^ 32) (rest : List Byte) :
    decodeReply typeOf (replyFrame data ++ rest) = some (replyOf data, rest) := by
  obtain ⟨herror, hh, hl⟩ := replyHeader_fields data
  rw [Nat.mod_eq_of_lt hhandle] at hh
  rw [Nat.mod_eq_of_lt hlen] at hl
  have hok : (if data.status = .success then 0 else eio) = 0 ↔ data.status = .success := by
    cases data.status <;> simp [eio]
  have hstatus : (if data.status = .success then StatusType.success else .failure) = data.status := by
    cases data.status <;> rfl
  -- what follows the header is the payload
  have hpayload := length_payload data
  unfold decodeReply
  simp only [slice_replyFrame_append, Nat.reduceAdd, Nat.reduceLeDiff, Nat.le_refl, herror, hh, hl, htype,
    hok, hstatus, ← hpayload]
  have hdrop : (replyFrame data ++ rest).drop (16 + (payload data).length) = rest := by
    rw [replyFrame_eq]
    exact List.drop_left' (by simp)
  have hslice : slice (replyFrame data ++ rest) 16 (payload data).length = payload data := by
    rw [replyFrame_eq, List.append_assoc, slice_append_right (by simp), length_replyHeader, Nat.sub_self,
      slice_append_left (by simp), slice_self rfl]
  have hfit : ¬ (replyFrame data ++ rest).length < 16 + (payload data).length := by
    simp only [replyFrame_eq, List.length_append, length_replyHeader]
    omega
  rw [if_neg hfit, hdrop, hslice, replyOf]

/-- What a client is to learn of the reply `data` to its request `r`. -/
structure Recovers (r : RequestFrame) (data : DriverData) (reply : Reply) : Prop where
  status : reply.status = data.status
  handle : reply.handle = r.handle
  read : .ofCode r.code = ActionType.read → data.status = .success →
    reply.payload = data.buffer ∧ reply.payload.length = r.len
  getSize : .ofCode r.code = ActionType.getSize → data.status = .success → reply.len = data.len

/-- `data` is the reply to the request `r` that was read from `fd`, and no length or size in it is too
large for its field. -/
structure Served (fd : Int) (r : RequestFrame) (data : DriverData) : Prop where
  processed : Processed (r.data fd) data
  buffer_lt : data.buffer.length < 2 ^ 32
  size_lt : data.type = .getSize → data.len < 2 ^ 32

variable {fd : Int} {r : RequestFrame} {data : DriverData}

theorem Served.repliesTo (h : Served fd r data) : RepliesTo (r.data fd) data := by
  refine h.processed.replies ?_
  have hpayload := r.length_payload
  rw [RequestFrame.data]
  dsimp only
  split
  · rename_i hw
    rw [hpayload, if_pos hw]
  · exact List.length_replicate

theorem Served.replyLen_lt (h : Served fd r data) : replyLen data < 2 ^ 32 := by
  have hbuffer := h.buffer_lt
  have hsize := h.size_lt
  rw [replyLen.eq_def]
  split
  · exact hbuffer
  · exact hbuffer
  · exact hsize ‹_›
  · decide

/-- What a client reads of the reply is what it is to learn. -/
theorem Served.recovers (h : Served fd r data) : Recovers r data (replyOf data) := by
  obtain ⟨htype, hhandle, -, hread⟩ := h.repliesTo
  refine ⟨rfl, hhandle, fun hr hok => ?_, fun hg hok => ?_⟩
  · have hr' : data.type = .read := htype.trans hr
    have hlen : (payload data).length = r.len := by
      rw [length_payload, if_pos ⟨hok, .inl hr'⟩, replyLen, hok, hr']
      exact hread hr' hok
    refine ⟨?_, hlen⟩
    change payload data = data.buffer
    rw [payload, sendsPayload, hok, hr']
    cases data.buffer <;> rfl
  · have hg' : data.type = .getSize := htype.trans hg
    change replyLen data = data.len
    rw [replyLen, hok, hg']

end TCPDriverComm

/-! ## NBD -/

namespace NBDDriverComm

/-- What the kernel reads of a reply. -/
structure Reply where
  status : StatusType
  handle : List Byte
  payload : List Byte

/-- The kernel's block device, which remembers the type and the length that it asked for under each
handle. It reads an `nbd_reply`, and the length it asked for if a `READ` has succeeded. -/
def decodeReply (askedFor : List Byte → ActionType × Nat) (bytes : List Byte) :
    Option (Reply × List Byte) :=
  let magic := ofBigEndian (slice bytes 0 4)
  let error := ofBigEndian (slice bytes 4 4)
  let handle := slice bytes 8 8
  let payloadLen := if error = 0 ∧ (askedFor handle).1 = .read then (askedFor handle).2 else 0
  if magic ≠ replyMagic ∨ bytes.length < 16 + payloadLen then none
  else some
    ({ status := if error = 0 then .success else .failure
       handle := handle
       payload := slice bytes 16 payloadLen },
      bytes.drop (16 + payloadLen))

/-- The payload of a reply. -/
def payload (data : DriverData) : List Byte :=
  if data.type = .read ∧ data.status = .success then data.buffer else []

/-- What the kernel reads of the reply `data`. -/
def replyOf (data : DriverData) : Reply where
  status := data.status
  handle := (bigEndian 8 data.handle).reverse
  payload := payload data

/-- The kernel reads a reply as it was sent, whatever follows it. -/
theorem decodeReply_replyFrame {askedFor : List Byte → ActionType × Nat} {data : DriverData} {len : Nat}
    (hasked : askedFor (bigEndian 8 data.handle).reverse = (data.type, len))
    (hlen : data.type = .read → data.status = .success → data.buffer.length = len)
    (rest : List Byte) :
    decodeReply askedFor (replyFrame data ++ rest) = some (replyOf data, rest) := by
  have hframe : replyFrame data ++ rest = replyHeader data ++ (payload data ++ rest) := by
    rw [replyFrame, payload, List.append_assoc]
  have hmagic : ofBigEndian (slice (replyFrame data ++ rest) 0 4) = replyMagic := by
    rw [hframe, slice_append_left (by simp)]
    simp only [replyHeader, slice_append_left, slice_self, List.length_append, length_bigEndian,
      Nat.reduceAdd, Nat.reduceLeDiff, Nat.le_refl]
    exact ofBigEndian_bigEndian (by decide)
  have herror : ofBigEndian (slice (replyFrame data ++ rest) 4 4) =
      if data.status = .success then 0 else eio := by
    rw [hframe, slice_append_left (by simp)]
    simp only [replyHeader, slice_append_right, slice_append_left, slice_self, List.length_append,
      length_bigEndian, Nat.reduceAdd, Nat.reduceSub, Nat.le_refl]
    exact ofBigEndian_bigEndian (by split <;> decide)
  have hh : slice (replyFrame data ++ rest) 8 8 = (bigEndian 8 data.handle).reverse := by
    rw [hframe, slice_append_left (by simp)]
    simp only [replyHeader, slice_append_right, slice_self, List.length_append, List.length_reverse,
      length_bigEndian, Nat.reduceAdd, Nat.reduceSub, Nat.le_refl]
  have hok : (if data.status = .success then 0 else eio) = 0 ↔ data.status = .success := by
    cases data.status <;> simp [eio]
  have hstatus : (if data.status = .success then StatusType.success else .failure) = data.status := by
    cases data.status <;> rfl
  -- what follows the header is the payload
  have hpayload : (if data.status = .success ∧ data.type = .read then len else 0) =
      (payload data).length := by
    rw [payload]
    by_cases h : data.type = .read ∧ data.status = .success
    · rw [if_pos h.symm, if_pos h, hlen h.1 h.2]
    · rw [if_neg fun h' => h h'.symm, if_neg h, List.length_nil]
  unfold decodeReply
  simp only [hmagic, herror, hh, hasked, hok, hstatus, hpayload]
  have hdrop : (replyFrame data ++ rest).drop (16 + (payload data).length) = rest := by
    rw [hframe, ← List.append_assoc]
    exact List.drop_left' (by simp)
  have hslice : slice (replyFrame data ++ rest) 16 (payload data).length = payload data := by
    rw [hframe, slice_append_right (by simp), length_replyHeader, Nat.sub_self,
      slice_append_left (by simp), slice_self rfl]
  have hfit : ¬ (replyMagic ≠ replyMagic ∨
      (replyFrame data ++ rest).length < 16 + (payload data).length) := by
    simp only [hframe, List.length_append, length_replyHeader, ne_eq, not_true_eq_false, false_or]
    omega
  rw [if_neg hfit, hdrop, hslice, replyOf]

/-- What the kernel is to learn of the reply `data` to its request `r`. -/
structure Recovers (r : RequestFrame) (data : DriverData) (reply : Reply) : Prop where
  status : reply.status = data.status
  handle : reply.handle = r.handle
  read : r.action = .read → data.status = .success →
    reply.payload = data.buffer ∧ reply.payload.length = r.len

variable {fd : Int} {r : RequestFrame} {data : DriverData}

theorem repliesTo_of_processed (h : Processed (r.data fd) data) : RepliesTo (r.data fd) data := by
  refine h.replies ?_
  have hpayload := r.length_payload
  rw [RequestFrame.data]
  dsimp only
  split
  · rename_i hw
    rw [hpayload, if_pos hw]
  · exact List.length_replicate

/-- The bytes of a handle come back as they are. -/
theorem handle_of_processed (h : Processed (r.data fd) data) :
    (bigEndian 8 data.handle).reverse = r.handle := by
  rw [(repliesTo_of_processed h).handle, RequestFrame.data]
  dsimp only
  have hl : r.handle.reverse.length = 8 := by rw [List.length_reverse, r.length_handle]
  rw [← hl, bigEndian_ofBigEndian, List.reverse_reverse]

/-- What the kernel reads of the reply is what it is to learn. -/
theorem recovers_of_processed (h : Processed (r.data fd) data) : Recovers r data (replyOf data) := by
  obtain ⟨htype, -, -, hread⟩ := repliesTo_of_processed h
  refine ⟨rfl, handle_of_processed h, fun hr hok => ?_⟩
  have hr' : data.type = .read := htype.trans hr
  have hp : (replyOf data).payload = data.buffer := if_pos ⟨hr', hok⟩
  exact ⟨hp, hp ▸ hread hr' hok⟩

end NBDDriverComm

/-! ## Sequences -/

/-- Calls of `SendReply`, one after the other. A worker drops what they throw. -/
def sendAll (driver : IDriverComm) : List DriverData → ServerProg Unit
  | [] => return ()
  | data :: rest => do
    let _ ← driver.sendReply data
    sendAll driver rest

/-- The peer receives the bytes of one reply after the other. -/
theorem total_sendAll {fd : Int} {driver : IDriverComm} (frame : DriverData → List Byte)
    {datas : List DriverData}
    (h : ∀ data ∈ datas, SendsReply fd (driver.sendReply data) (frame data)) (s : List Byte) :
    Prog.Total (Accepts fd) (fun _ s' => s' = s ++ datas.flatMap frame) (sendAll driver datas) s := by
  induction datas generalizing s with
  | nil => exact .ret (List.append_nil s).symm
  | cons data datas ih =>
    refine (total_of_sends (obeys_sendsReply (h data List.mem_cons_self))).bind ?_
    rintro _ s' ⟨rest, hs', rfl⟩
    rw [List.append_nil] at hs'
    rw [hs', List.flatMap_cons, ← List.append_assoc]
    exact ih (fun data' h' => h data' (List.mem_cons_of_mem data h')) _

/-- **Replies are read as they were sent**, from both drivers: whatever part of its buffer each `write`
takes, the calls end, and a peer that knows by its handle what it asked for decodes what it was sent
into one reply for each request, in their order, and ends at whatever follows. -/
theorem replies_recovered {fd : Int} (hfd : 0 ≤ fd) (s rest : List Byte) :
    (∀ (typeOf : Nat → ActionType) (served : List (TCPDriverComm.RequestFrame × DriverData)),
      (∀ p ∈ served, TCPDriverComm.Served fd p.1 p.2 ∧ typeOf p.1.handle = .ofCode p.1.code) →
      ∀ listenFd, Prog.Total (Accepts fd)
        (fun _ s' => ∃ bytes replies, s' = s ++ bytes ∧
          decodeMany (TCPDriverComm.decodeReply typeOf) served.length (bytes ++ rest) =
            some (replies, rest) ∧
          List.Forall₂ (fun p reply => TCPDriverComm.Recovers p.1 p.2 reply) served replies)
        (sendAll (TCPDriverComm.toIDriverComm listenFd) (served.map Prod.snd)) s) ∧
    (∀ (askedFor : List Byte → ActionType × Nat)
        (served : List (NBDDriverComm.RequestFrame × DriverData)) (requestFd : Int),
      (∀ p ∈ served, Processed (p.1.data requestFd) p.2 ∧
        askedFor p.1.handle = (p.1.action, p.1.len)) →
      Prog.Total (Accepts fd)
        (fun _ s' => ∃ bytes replies, s' = s ++ bytes ∧
          decodeMany (NBDDriverComm.decodeReply askedFor) served.length (bytes ++ rest) =
            some (replies, rest) ∧
          List.Forall₂ (fun p reply => NBDDriverComm.Recovers p.1 p.2 reply) served replies)
        (sendAll (NBDDriverComm.toIDriverComm fd) (served.map Prod.snd)) s) := by
  constructor
  · intro typeOf served hserved listenFd
    refine (total_sendAll TCPDriverComm.replyFrame ?_ s).mono fun _ s' hs' => ?_
    · intro data hdata
      obtain ⟨p, hp, rfl⟩ := List.mem_map.mp hdata
      exact .tcp (hserved p hp).1.repliesTo.sourceFd hfd
    · refine ⟨_, served.map fun p => TCPDriverComm.replyOf p.2, hs', ?_, ?_⟩
      · -- each reply is read by the type of the request that it names
        rw [List.flatMap_map]
        refine decodeMany_flatMap (fun p hp rest => ?_) rest
        obtain ⟨h, htype⟩ := hserved p hp
        obtain ⟨htype', hhandle, -, -⟩ := h.repliesTo
        refine TCPDriverComm.decodeReply_replyFrame ?_ ?_ h.replyLen_lt rest
        · rw [htype', hhandle]
          exact htype
        · rw [hhandle]
          exact p.1.handle_lt
      · rw [List.forall₂_map_right_iff]
        exact List.forall₂_same.mpr fun p hp => (hserved p hp).1.recovers
  · intro askedFor served requestFd hserved
    refine (total_sendAll NBDDriverComm.replyFrame (fun _ _ => .nbd) s).mono
      fun _ s' hs' => ?_
    refine ⟨_, served.map fun p => NBDDriverComm.replyOf p.2, hs', ?_, ?_⟩
    · rw [List.flatMap_map]
      refine decodeMany_flatMap (fun p hp rest => ?_) rest
      obtain ⟨h, hasked⟩ := hserved p hp
      obtain ⟨htype, -, -, hread⟩ := NBDDriverComm.repliesTo_of_processed h
      refine NBDDriverComm.decodeReply_replyFrame ?_ hread rest
      rw [NBDDriverComm.handle_of_processed h, hasked, htype]
      rfl
    · rw [List.forall₂_map_right_iff]
      exact List.forall₂_same.mpr fun p hp =>
        NBDDriverComm.recovers_of_processed (hserved p hp).1

/-- A `READ` of one byte at offset 0. -/
def TCPDriverComm.RequestFrame.readByte : TCPDriverComm.RequestFrame :=
  ⟨0, 7, 0, 1, [], by decide, by decide, by decide, by decide, rfl⟩

/-- A `FLUSH`. -/
def TCPDriverComm.RequestFrame.flush : TCPDriverComm.RequestFrame :=
  ⟨3, 9, 0, 0, [], by decide, by decide, by decide, by decide, rfl⟩

/-- The replies of a `LocalStorage` of four bytes to a `READ` and a `FLUSH`, read as they were sent. -/
theorem replies_recovered_readFlush :
    Prog.Total (Accepts 5)
      (fun _ s' => ∃ bytes replies, s' = [] ++ bytes ∧
        decodeMany (TCPDriverComm.decodeReply fun handle => if handle = 7 then .read else .flush) 2 (bytes ++ []) =
          some (replies, []) ∧
        List.Forall₂ (fun p reply => TCPDriverComm.Recovers p.1 p.2 reply)
          [(TCPDriverComm.RequestFrame.readByte, TCPDriverComm.RequestFrame.readByte.data 5),
            (TCPDriverComm.RequestFrame.flush, TCPDriverComm.RequestFrame.flush.data 5)] replies)
      (sendAll (TCPDriverComm.toIDriverComm 3)
        [TCPDriverComm.RequestFrame.readByte.data 5, TCPDriverComm.RequestFrame.flush.data 5]) [] := by
  refine (replies_recovered (by decide) [] []).1 (fun handle => if handle = 7 then .read else .flush)
    [(_, _), (_, _)] ?_ 3
  have hread : CommandReplies (fun o a => ∃ s s', LocalStorage.handler o s = some (a, s'))
      LocalStorage.toIStorage (TCPDriverComm.RequestFrame.readByte.data 5)
      (TCPDriverComm.RequestFrame.readByte.data 5) :=
    ⟨_, _, .call ⟨LocalStorage.new 4, _, rfl⟩ (.refl _ _)⟩
  have hflush : CommandReplies (fun o a => ∃ s s', LocalStorage.handler o s = some (a, s'))
      LocalStorage.toIStorage (TCPDriverComm.RequestFrame.flush.data 5)
      (TCPDriverComm.RequestFrame.flush.data 5) := ⟨_, _, .refl _ _⟩
  refine List.forall_mem_cons.mpr ⟨⟨⟨.single hread, by decide, fun h => by cases h⟩, rfl⟩, ?_⟩
  exact List.forall_mem_singleton.mpr ⟨⟨.single hflush, by decide, fun h => by cases h⟩, rfl⟩

end LDS
