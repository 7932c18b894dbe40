import LDS.Server.ListOffsets
import LDS.Server.ReplyDecoding
import LDS.Server.RequestPool
import LDS.Server.RequestStreams

/-!
# Streams of replies

A client reads the replies off its stream one after the other. It knows what it has asked for, and so where each
of them ends.

## Main definitions

* `FitReply request data`: a reply to the request that fits its frame
* `TCPDriverComm.readReplies`: a client that reads its replies
* `TCPDriverComm.Settles request w`: the request is done with, and `w` was written for it

## Main results

* `InputMediator.obeys_outcome`: what the reply to a request is
* `TCPDriverComm.decodeReply_eq_none`: a part of a reply is no reply
* `TCPDriverComm.exists_replies_of_settles`: what is written for requests are their replies
-/

namespace LDS

open Memory

variable {Op : Type} {Ans : Op → Type} {σ : Type}

/-! ## Replies -/

/-- A storage whose calls are answered as `A` says reports sizes, and lists of offsets, that fit a reply. -/
structure IStorage.Fits (S : IStorage Op Ans) (A : (o : Op) → Ans o → Prop) : Prop where
  getDataSize : ∀ offset, Prog.Obeys (.plain A (fun _ => True) True) (fun _ r => r < 2 ^ 32) () (S.getDataSize offset)
  listOffsets : Prog.Obeys (.plain A (fun _ => True) True) (fun _ r => 16 * r.length < 2 ^ 32) () S.listOffsets

/-- What the metadata of a `RAIDStorage` answer: sizes, and lists of offsets, that fit a reply. -/
def RAIDStorage.Brief {g : Geometry} : (o : RAIDCall g) → o.Answer → Prop
  | .getDataSize _, a => a < 2 ^ 32
  | .listOffsets, a => 16 * a.length < 2 ^ 32
  | _, _ => True

theorem RAIDStorage.fits (g : Geometry) : (RAIDStorage.toIStorage g).Fits Brief where
  getDataSize _ := .call trivial fun _ ha => .ret ha
  listOffsets := .call trivial fun _ ha => .ret ha

/-- The request is answered: all but a `DISCONNECT`, and codes that nobody handles. -/
def ActionType.expectsReply : ActionType → Bool
  | .disconnect => false
  | .other _ => false
  | _ => true

/-- A reply to the request, whose length or size fits its field. -/
structure FitReply (request data : DriverData) : Prop where
  repliesTo : RepliesTo request data
  len_lt : TCPDriverComm.replyLen data < 2 ^ 32

namespace InputMediator

/-- The reply to a request: of its type, under its handle, for its descriptor, with as many bytes as a `READ` has
asked for. -/
theorem obeys_outcome {A A₁ A₂ : (o : Op) → Ans o → Prop} {S : IStorage Op Ans} (hS : S.Keeps A) (hS₁ : S.Fills A₁)
    (hS₂ : S.Fits A₂) {request : DriverData} (hl : request.buffer.length = request.len) (hlen : request.len < 2 ^ 32) :
    Prog.Obeys (.plain (fun o a => (A o a ∧ A₁ o a) ∧ A₂ o a) (fun _ => True) True)
      (fun _ r => ∀ data, r = .ok (some data) → request.type.expectsReply ∧ FitReply request data) ()
      (outcome S request) := by
  have hall : ∀ {α : Type} (A : (o : Op) → Ans o → Prop) (p : Prog Op Ans α),
      Prog.Obeys (.plain A (fun _ => True) True) (fun _ _ => True) () p := fun A p =>
    .of_allowed (fun _ _ => trivial) trivial fun _ _ => trivial
  -- a reply that is no `READ`'s
  have hother : ∀ {data : DriverData}, data.type = request.type → data.handle = request.handle →
      data.sourceFd = request.sourceFd → request.type ≠ .read → TCPDriverComm.replyLen data < 2 ^ 32 →
      FitReply request data :=
    fun ht hh hf hne hlt => ⟨⟨ht, hh, hf, fun h => absurd (ht.symm.trans h) hne⟩, hlt⟩
  rw [outcome.eq_def]
  split
  · rename_i ht
    refine (((hS.read request).and (hS₁.read request hl)).and (hall A₂ _)).bind ?_
    rintro _ (what | data) ⟨⟨hsame, hfill⟩, -⟩
    · exact .ret fun data hd => by cases hd
    · refine .ret fun _ hd => ?_
      obtain rfl : data = _ := Option.some.inj (Except.ok.inj hd)
      obtain ⟨htype, hhandle, -, hfd⟩ := hsame data rfl
      refine ⟨by rw [ht]; rfl, ⟨htype, hhandle, hfd, fun _ => hfill data rfl⟩, ?_⟩
      rw [TCPDriverComm.replyLen, htype, ht]
      cases hstatus : data.status with
      | success =>
        have hbuf := hfill data rfl hstatus
        change data.buffer.length < 2 ^ 32
        omega
      | failure => exact Nat.two_pow_pos 32
  · rename_i ht
    refine (((hS.write request).and (hall A₁ _)).and (hall A₂ _)).bind ?_
    rintro _ (what | data) ⟨⟨hsame, -⟩, -⟩
    · exact .ret fun data hd => by cases hd
    · refine .ret fun _ hd => ?_
      obtain rfl : data = _ := Option.some.inj (Except.ok.inj hd)
      obtain ⟨htype, hhandle, -, hfd⟩ := hsame data rfl
      refine ⟨by rw [ht]; rfl, hother htype hhandle hfd (by simp [ht]) ?_⟩
      rw [TCPDriverComm.replyLen, htype, ht]
      cases data.status <;> exact Nat.two_pow_pos 32
  · rename_i ht
    refine .ret fun _ hd => ?_
    obtain rfl := Option.some.inj (Except.ok.inj hd)
    refine ⟨by rw [ht]; rfl, hother rfl rfl rfl (by simp [ht]) ?_⟩
    simp only [TCPDriverComm.replyLen, ht]
    exact Nat.two_pow_pos 32
  · rename_i ht
    refine .ret fun _ hd => ?_
    obtain rfl := Option.some.inj (Except.ok.inj hd)
    refine ⟨by rw [ht]; rfl, hother rfl rfl rfl (by simp [ht]) ?_⟩
    simp only [TCPDriverComm.replyLen, ht]
    exact Nat.two_pow_pos 32
  · exact .ret fun data hd => by cases hd
  · rename_i ht
    refine (((hall A _).and (hall A₁ _)).and (hS₂.getDataSize request.offset)).bind ?_
    rintro _ len ⟨-, hlt⟩
    refine .ret fun _ hd => ?_
    obtain rfl := Option.some.inj (Except.ok.inj hd)
    refine ⟨by rw [ht]; rfl, hother rfl rfl rfl (by simp [ht]) ?_⟩
    simpa only [TCPDriverComm.replyLen, ht] using hlt
  · rename_i ht
    refine (((hall A _).and (hall A₁ _)).and hS₂.listOffsets).bind ?_
    rintro _ offsets ⟨-, hlt⟩
    refine .ret fun _ hd => ?_
    obtain rfl := Option.some.inj (Except.ok.inj hd)
    refine ⟨by rw [ht]; rfl, hother rfl rfl rfl (by simp [ht]) ?_⟩
    simpa only [TCPDriverComm.replyLen, ht, TCPDriverComm.length_packOffsets] using hlt
  · exact .ret fun data hd => by cases hd

end InputMediator

/-! ## The client's side -/

namespace TCPDriverComm

/-- A client that has asked for `types`, one after the other, reads the replies off its stream. -/
def readReplies : List ActionType → List Byte → Option (List Reply × List Byte)
  | [], bytes => some ([], bytes)
  | t :: ts, bytes => (decodeReply (fun _ => t) bytes).bind fun r =>
    (readReplies ts r.2).map fun rs => (r.1 :: rs.1, rs.2)

theorem readReplies_append (ts ts' : List ActionType) (bytes : List Byte) :
    readReplies (ts ++ ts') bytes = (readReplies ts bytes).bind fun r =>
      (readReplies ts' r.2).map fun r' => (r.1 ++ r'.1, r'.2) := by
  induction ts generalizing bytes with
  | nil =>
    rw [List.nil_append, readReplies, Option.bind_some]
    cases readReplies ts' bytes <;> rfl
  | cons t ts ih =>
    rw [List.cons_append, readReplies, readReplies]
    cases decodeReply (fun _ => t) bytes with
    | none => rfl
    | some r =>
      rw [Option.bind_some, Option.bind_some, ih]
      cases readReplies ts r.2 with
      | none => rfl
      | some rs =>
        simp only [Option.bind_some, Option.map_some]
        cases readReplies ts' rs.2 <;> rfl

variable {t : ActionType} {data : DriverData} {bytes : List Byte}

/-- A client does not take a part of a reply for a reply. -/
theorem decodeReply_eq_none (htype : data.type = t) (hlen : replyLen data < 2 ^ 32)
    (hpre : bytes <+: replyFrame data) (hne : bytes ≠ replyFrame data) :
    decodeReply (fun _ => t) bytes = none := by
  have hlt : bytes.length < (replyFrame data).length := by
    refine lt_of_le_of_ne hpre.length_le fun hl => hne ?_
    exact hpre.eq_of_length hl
  unfold decodeReply
  by_cases hshort : bytes.length < 16
  · rw [if_pos (by omega)]
  · -- the header is there, and tells how much is missing
    obtain ⟨rest, hrest⟩ := hpre
    obtain ⟨herror, -, hl⟩ := replyHeader_fields data
    rw [Nat.mod_eq_of_lt hlen] at hl
    have hfield : ∀ a n, a + n ≤ 16 → slice bytes a n = slice (replyHeader data) a n := by
      intro a n han
      have h := @slice_replyFrame_append data _ _ han []
      rwa [List.append_nil, ← hrest, slice_append_left (by omega)] at h
    have hok : (if data.status = .success then 0 else eio) = 0 ↔ data.status = .success := by
      cases data.status <;> simp [eio]
    have hpayload := length_payload data
    simp only [hfield, Nat.reduceAdd, Nat.reduceLeDiff, Nat.le_refl, herror, hl, hok, ← htype]
    rw [← hpayload, if_pos]
    rwa [replyFrame_eq, List.length_append, length_replyHeader] at hlt

/-- The client reads the replies that it has been sent. -/
theorem readReplies_flatMap {replies : List DriverData}
    (h : ∀ data ∈ replies, data.handle < 2 ^ 64 ∧ replyLen data < 2 ^ 32) (rest : List Byte) :
    readReplies (replies.map DriverData.type) (replies.flatMap replyFrame ++ rest) =
      some (replies.map replyOf, rest) := by
  induction replies with
  | nil => rfl
  | cons data replies ih =>
    obtain ⟨⟨hhandle, hlen⟩, hall⟩ := List.forall_mem_cons.mp h
    rw [List.map_cons, List.flatMap_cons, List.append_assoc, readReplies,
      decodeReply_replyFrame rfl hhandle hlen, Option.bind_some, ih hall]
    rfl

namespace RequestFrame

/-- The request is answered. -/
def expects (r : RequestFrame) : Bool := (ActionType.ofCode r.code).expectsReply

theorem bytes_ne_nil (r : RequestFrame) : r.bytes ≠ [] := by
  apply List.ne_nil_of_length_pos
  rw [bytes, List.length_append, r.length_header]
  omega

/-- The buffer of a request is as long as it says. -/
theorem length_buffer (r : RequestFrame) (fd : Int) : (r.data fd).buffer.length = (r.data fd).len := by
  have hpayload := r.length_payload
  rw [data]
  dsimp only
  by_cases hw : r.code = 1
  · rwa [if_pos hw] at hpayload ⊢
  · rw [if_neg hw]
    exact List.length_replicate

theorem ofCode_inj {code code' : Nat} (h : ActionType.ofCode code = ActionType.ofCode code') : code = code' := by
  revert h
  unfold ActionType.ofCode
  split <;> split <;> intro h <;> first | rfl | cases h <;> rfl

/-- A request tells the frame that it was received from. -/
theorem data_inj {r r' : RequestFrame} {fd fd' : Int} (h : r.data fd = r'.data fd') : r = r' := by
  obtain ⟨code, handle, offset, len, payload, _, _, _, _, hp⟩ := r
  obtain ⟨code', handle', offset', len', payload', _, _, _, _, hp'⟩ := r'
  simp only [data, DriverData.mk.injEq] at h
  obtain ⟨htype, rfl, rfl, rfl, -, hbuf, -⟩ := h
  obtain rfl := ofCode_inj htype
  congr 1
  by_cases hw : code = 1
  · rwa [if_pos hw, if_pos hw] at hbuf
  · rw [if_neg hw] at hp hp'
    rw [List.eq_nil_of_length_eq_zero hp, List.eq_nil_of_length_eq_zero hp']

/-- A stream tells its first requests, and what follows them. -/
theorem exists_append_of_flatMap {frames frames' : List RequestFrame} {rest part : List Byte}
    (h : frames.flatMap RequestFrame.bytes ++ rest = frames'.flatMap RequestFrame.bytes ++ part)
    (hpart : ¬ HoldsRequest part) :
    ∃ more, frames' = frames ++ more ∧ rest = more.flatMap RequestFrame.bytes ++ part := by
  induction frames generalizing frames' with
  | nil => exact ⟨frames', rfl, h⟩
  | cons r frames ih =>
    rw [List.flatMap_cons, List.append_assoc] at h
    cases frames' with
    | nil => exact absurd (holdsRequest_iff.mpr ⟨r, _, h.symm⟩) hpart
    | cons r' frames' =>
      rw [List.flatMap_cons, List.append_assoc] at h
      obtain ⟨rfl, htail⟩ := bytes_append_inj h
      obtain ⟨more, rfl, hrest⟩ := ih htail
      exact ⟨more, rfl, hrest⟩

end RequestFrame

/-! ## Requests and their replies -/

/-- The types of the requests that are to be answered. -/
def asks (frames : List RequestFrame) : List ActionType :=
  (frames.filter RequestFrame.expects).map fun r => .ofCode r.code

/-- The requests that are to be answered. -/
def toAnswer (requests : List DriverData) : List DriverData := requests.filter fun r => r.type.expectsReply

theorem toAnswer_append (requests requests' : List DriverData) :
    toAnswer (requests ++ requests') = toAnswer requests ++ toAnswer requests' := by
  simp [toAnswer]

theorem toAnswer_cons_of_pos {request : DriverData} {requests : List DriverData}
    (h : request.type.expectsReply = true) : toAnswer (request :: requests) = request :: toAnswer requests := by
  rw [toAnswer, List.filter_cons, if_pos h, toAnswer]

theorem toAnswer_cons_of_neg {request : DriverData} {requests : List DriverData}
    (h : ¬ request.type.expectsReply = true) : toAnswer (request :: requests) = toAnswer requests := by
  rw [toAnswer, List.filter_cons, if_neg h, toAnswer]

theorem asks_append (frames frames' : List RequestFrame) : asks (frames ++ frames') = asks frames ++ asks frames' := by
  simp [asks]

theorem asks_eq (fd : Int) (frames : List RequestFrame) :
    asks frames = (toAnswer (frames.map (RequestFrame.data fd))).map DriverData.type := by
  rw [asks, toAnswer, List.filter_map, List.map_map]
  rfl

/-- The request is done with: `w` is its reply, or there is none. -/
def Settles (request : DriverData) (w : List Byte) : Prop :=
  if request.type.expectsReply then ∃ data, FitReply request data ∧ w = replyFrame data else w = []

/-- What is written for requests that are done with are their replies. -/
theorem exists_replies_of_settles {α : Type} {entries : List α} (request : α → DriverData) (w : α → List Byte)
    (h : ∀ e ∈ entries, Settles (request e) (w e)) :
    ∃ replies, List.Forall₂ FitReply (toAnswer (entries.map request)) replies ∧
      entries.flatMap w = replies.flatMap replyFrame := by
  induction entries with
  | nil => exact ⟨[], .nil, rfl⟩
  | cons e entries ih =>
    obtain ⟨he, hall⟩ := List.forall_mem_cons.mp h
    obtain ⟨replies, hfit, hw⟩ := ih hall
    rw [Settles] at he
    by_cases hexpects : (request e).type.expectsReply
    · rw [if_pos hexpects] at he
      obtain ⟨data, hdata, hframe⟩ := he
      refine ⟨data :: replies, ?_, by rw [List.flatMap_cons, List.flatMap_cons, hframe, hw]⟩
      rw [List.map_cons, toAnswer_cons_of_pos hexpects]
      exact .cons hdata hfit
    · rw [if_neg hexpects] at he
      refine ⟨replies, ?_, by rw [List.flatMap_cons, he, hw, List.nil_append]⟩
      rwa [List.map_cons, toAnswer_cons_of_neg hexpects]

/-- A client reads the replies to its requests. -/
theorem readReplies_of_fit {requests replies : List DriverData} (h : List.Forall₂ FitReply requests replies)
    (hhandle : ∀ request ∈ requests, request.handle < 2 ^ 64) (rest : List Byte) :
    readReplies (requests.map DriverData.type) (replies.flatMap replyFrame ++ rest) =
      some (replies.map replyOf, rest) := by
  have htypes : requests.map DriverData.type = replies.map DriverData.type := by
    clear hhandle
    induction h with
    | nil => rfl
    | cons hfit _ ih => rw [List.map_cons, List.map_cons, hfit.repliesTo.type, ih]
  rw [htypes]
  apply readReplies_flatMap
  clear htypes
  induction h with
  | nil => exact fun data hmem => absurd hmem List.not_mem_nil
  | cons hfit _ ih =>
    obtain ⟨hlt, hhandle⟩ := List.forall_mem_cons.mp hhandle
    refine List.forall_mem_cons.mpr ⟨⟨?_, hfit.len_lt⟩, ih hhandle⟩
    rwa [hfit.repliesTo.handle]

/-- There is no reply in an empty stream. -/
theorem decodeReply_nil (t : ActionType) : decodeReply (fun _ => t) [] = none := by
  unfold decodeReply
  rw [if_pos]
  rw [List.length_nil]
  omega

theorem eq_nil_of_readReplies_nil {ts : List ActionType} {r : List Reply × List Byte}
    (h : readReplies ts [] = some r) : ts = [] := by
  cases ts with
  | nil => rfl
  | cons t ts =>
    rw [readReplies, decodeReply_nil] at h
    cases h

end TCPDriverComm

end LDS
