import LDS.Server.Survival

/-!
# The requests of every connection

The kernel cuts the stream of a client into pieces as it likes, and the server reads the streams of its clients
by turns. The requests that it queues for a connection are nevertheless those that its client has sent, each
once and in their order, and what it drops of what it has read is an incomplete request at most.

## Main definitions

* `Cursor`: where `Notify` is in the stream of its client
* `TCPDriverComm.framing fd`: the contract of `Notify`, with its cursor
* `Networked.arrived id tr`: what the client of a connection has sent
* `Server.requestsFrom id jobs`: the requests that were queued for a connection

## Main results

* `holdsRequest_iff`: bytes that hold a request begin with a frame
* `TCPDriverComm.obeys_notify_framing`: what `Notify` queues is what it has read
* `Networked.requests_framed`: the streams of all connections, in every run
-/

namespace LDS

open Memory

/-! ## Frames -/

namespace TCPDriverComm

/-- A header, with the payload that it announces, is a request. -/
theorem RequestFrame.exists_of_bytes {header : List Byte} (payload : List Byte) (hl : header.length = 24)
    (hp : payload.length = if ofBigEndian (slice header 0 4) = 1 then ofBigEndian (slice header 20 4) else 0) :
    ∃ r : RequestFrame, r.header = header ∧ r.payload = payload ∧ r.code = ofBigEndian (slice header 0 4) ∧
      r.handle = ofBigEndian (slice header 4 8) ∧ r.offset = ofBigEndian (slice header 12 8) ∧
      r.len = ofBigEndian (slice header 20 4) := by
  refine ⟨⟨_, _, _, _, payload, ofBigEndian_slice_lt header 0 4, ofBigEndian_slice_lt header 4 8,
    ofBigEndian_slice_lt header 12 8, ofBigEndian_slice_lt header 20 4, hp⟩, ?_, rfl, rfl, rfl, rfl, rfl⟩
  -- the bytes of a field are those that it was read from
  have hfield : ∀ a n, a + n ≤ 24 → bigEndian n (ofBigEndian (slice header a n)) = slice header a n := by
    intro a n han
    have hlen : (slice header a n).length = n := length_slice (by omega)
    have h := bigEndian_ofBigEndian (slice header a n)
    rwa [hlen] at h
  rw [RequestFrame.header, hfield 0 4 (by omega), hfield 4 8 (by omega), hfield 12 8 (by omega),
    hfield 20 4 (by omega)]
  simp only [slice, List.drop_zero]
  rw [← List.take_add, ← List.take_add, ← List.take_add, List.take_of_length_le (by omega)]

end TCPDriverComm

/-- Bytes that hold a request begin with its frame. -/
theorem holdsRequest_iff {bytes : List Byte} :
    HoldsRequest bytes ↔ ∃ (r : TCPDriverComm.RequestFrame) (rest : List Byte), bytes = r.bytes ++ rest := by
  constructor
  · rintro ⟨hl, hp⟩
    have hheader : ∀ a n, a + n ≤ 24 → slice (slice bytes 0 24) a n = slice bytes a n := by
      intro a n han
      simp only [slice, List.drop_zero]
      rw [List.drop_take, List.take_take, Nat.min_eq_left (by omega)]
    have hlen : (slice bytes 0 24).length = 24 := length_slice (by omega)
    let size := if ofBigEndian (slice bytes 0 4) = 1 then ofBigEndian (slice bytes 20 4) else 0
    have hsize : 24 + size ≤ bytes.length := by
      dsimp only [size]
      split
      · exact hp ‹_›
      · omega
    obtain ⟨r, hr, hpay, -⟩ := TCPDriverComm.RequestFrame.exists_of_bytes (slice bytes 24 size) hlen (by
      rw [length_slice (by omega), hheader 0 4 (by omega), hheader 20 4 (by omega)])
    refine ⟨r, bytes.drop (24 + size), ?_⟩
    rw [TCPDriverComm.RequestFrame.bytes, hr, hpay]
    simp only [slice, List.drop_zero]
    rw [← List.drop_drop, List.append_assoc, List.take_append_drop, List.take_append_drop]
  · rintro ⟨r, rest, rfl⟩
    have hl := r.length_header
    obtain ⟨hcode, -, -, hlen⟩ := r.fields
    have hpayload := r.length_payload
    rw [HoldsRequest, TCPDriverComm.RequestFrame.bytes, List.append_assoc, slice_append_left (by omega),
      slice_append_left (by omega), hcode, hlen]
    simp only [List.length_append]
    refine ⟨by omega, fun hw => ?_⟩
    rw [if_pos hw] at hpayload
    omega

/-! ## What `Notify` queues -/

/-- Where `Notify` is in the stream of its client: it has read a part of a request; it has queued one; it has
given the client up; it has closed the socket; or it has accepted a client. -/
inductive Cursor
  | reading (part : List Byte)
  | queued
  | gone
  | closed
  | accepted (newFd : Nat)

/-- When `Notify` returns, nothing is left of a request. -/
def Cursor.Ends (x : Cursor) (r : Except String Unit) : Prop :=
  r = .ok () → x = .reading [] ∨ x = .queued ∨ x = .closed ∨ ∃ newFd, x = .accepted newFd

/-- What was read of the stream behind the last request, if the client is connected. -/
def Cursor.Says : Cursor → List Byte → Prop
  | .reading part, rest => rest = part
  | .gone, rest => ¬ HoldsRequest rest
  | .closed, _ => False
  | _, rest => rest = []

namespace TCPDriverComm

/-- The contract of `Notify` for `fd`. It queues what it has read, and gives a client up only if that is no
request. -/
def framing (fd : Int) : Prog.Contract ServerCall ServerCall.Answer Cursor where
  answers _ _ _ := True
  calls
    | .reading _, .read fd' _ => fd' = fd
    | .reading part, .accept fd' => fd' = fd ∧ part = []
    | .reading part, .addCommand request => ∃ r : RequestFrame, part = r.bytes ∧ request = r.data fd
    | .reading part, .epollDel fd' => fd' = fd ∧ ¬ HoldsRequest part
    | .reading _, .updateAllocation _ _ => True
    | .reading _, .saveAllocations => True
    | .gone, .eraseClient _ => True
    | .gone, .getClientIP _ => True
    | .gone, .forgetClientIP _ => True
    | .gone, .close fd' => fd' = fd
    | .accepted _, .insertClient _ => True
    | .accepted _, .recordClientIP _ _ => True
    | .accepted newFd, .epollAdd fd' => fd' = newFd
    | _, _ => False
  next
    | .reading part, .read _ _, .ok bytes => .reading (part ++ bytes.1)
    | .reading _, .accept _, .ok (newFd, _) => .accepted newFd
    | .reading _, .addCommand _, _ => .queued
    | .reading _, .epollDel _, true => .gone
    | .gone, .close _, _ => .closed
    | x, _, _ => x
  mayAbort := False

variable {failed : String → String} {text : String} {fd l : Int} {part : List Byte}

/-- `ReadAll` reads what it returns; when it throws it has read less. -/
theorem obeys_readAll_framing (count : Nat) :
    Prog.Obeys (framing fd) (fun x r => ∃ bytes, x = .reading (part ++ bytes) ∧
      (r = .ok bytes ∧ bytes.length = count ∨ (∃ what, r = .error what) ∧ bytes.length < count))
      (.reading part) (LDS.readAll failed text fd count) := by
  induction count using Nat.strong_induction_on generalizing part with
  | _ count ih =>
    rw [LDS.readAll]
    split
    · rename_i hpos
      refine .call rfl ?_
      rintro (errno | ⟨_ | ⟨b, bytes⟩, hlen⟩) -
      · exact .ret ⟨[], by simp [framing], .inr ⟨⟨_, rfl⟩, hpos⟩⟩
      · exact .ret ⟨[], by simp [framing], .inr ⟨⟨_, rfl⟩, hpos⟩⟩
      · simp only [List.length_cons] at hlen ⊢
        refine (@ih (count - (bytes.length + 1)) (by omega) (part ++ b :: bytes)).bind ?_
        rintro _ (what | rest) ⟨more, rfl, hmore⟩
        · -- the rest has not come
          refine .ret ⟨b :: bytes ++ more, by rw [List.append_assoc], .inr ⟨⟨_, rfl⟩, ?_⟩⟩
          rcases hmore with ⟨h, -⟩ | ⟨-, h⟩
          · cases h
          · simp only [List.length_append, List.length_cons]
            omega
        · rcases hmore with ⟨h, hl⟩ | ⟨⟨what, h⟩, -⟩
          · obtain rfl := Except.ok.inj h
            refine .ret ⟨b :: bytes ++ rest, by rw [List.append_assoc], .inl ⟨rfl, ?_⟩⟩
            simp only [List.length_append, List.length_cons]
            omega
          · cases h
    · rename_i hzero
      exact .ret ⟨[], by rw [List.append_nil], .inl ⟨rfl, by rw [List.length_nil]; omega⟩⟩

/-- `ReceiveRequest` returns the request that it has read; when it throws it has read none. -/
theorem obeys_receiveRequest_framing (fd : Int) :
    Prog.Obeys (framing fd) (fun x r => ∃ part, x = .reading part ∧
      ((∃ frame : RequestFrame, part = frame.bytes ∧ r = .ok (frame.data fd)) ∨
        (∃ what, r = .error what) ∧ ¬ HoldsRequest part)) (.reading []) (receiveRequest fd) := by
  refine (obeys_readAll_framing 24).bind ?_
  rintro _ r ⟨header, rfl, ⟨rfl, hl⟩ | ⟨⟨what, rfl⟩, hl⟩⟩
  · rw [List.nil_append]
    dsimp only
    split
    · rename_i hwrite
      have hcode : ofBigEndian (slice header 0 4) = 1 := ActionType.ofCode_eq_write.mp hwrite
      refine (obeys_readAll_framing _).bind ?_
      rintro _ r ⟨payload, rfl, ⟨rfl, hp⟩ | ⟨⟨what, rfl⟩, hp⟩⟩
      · refine .call trivial fun _ _ => .call trivial fun _ _ => .ret ⟨header ++ payload, rfl, .inl ?_⟩
        obtain ⟨frame, hh, hpay, hcode', hhandle, hoffset, hlen⟩ :=
          RequestFrame.exists_of_bytes payload hl (by rw [if_pos hcode]; exact hp)
        refine ⟨frame, by rw [RequestFrame.bytes, hh, hpay], ?_⟩
        rw [RequestFrame.data, hcode', hhandle, hoffset, hlen, hpay, if_pos hcode]
        rfl
      · -- a part of the payload is missing
        refine .ret ⟨header ++ payload, rfl, .inr ⟨⟨what, rfl⟩, fun h => ?_⟩⟩
        rw [HoldsRequest, slice_append_left (by omega), slice_append_left (by omega), List.length_append] at h
        have := h.2 hcode
        omega
    · rename_i hwrite
      have hcode : ofBigEndian (slice header 0 4) ≠ 1 := fun h => hwrite (ActionType.ofCode_eq_write.mpr h)
      refine .ret ⟨header, rfl, .inl ?_⟩
      obtain ⟨frame, hh, hpay, hcode', hhandle, hoffset, hlen⟩ :=
        RequestFrame.exists_of_bytes [] hl (by rw [if_neg hcode]; rfl)
      refine ⟨frame, by rw [RequestFrame.bytes, hh, hpay, List.append_nil], ?_⟩
      rw [RequestFrame.data, hcode', hhandle, hoffset, hlen, if_neg hcode]
      rfl
  · refine .ret ⟨header, by rw [List.nil_append], .inr ⟨⟨what, rfl⟩, fun h => ?_⟩⟩
    have := h.1
    omega

/-- What `Notify` queues is what it has read. -/
theorem obeys_notify_framing (l fd : Int) :
    Prog.Obeys (framing fd) Cursor.Ends (.reading []) (InputMediator.notify (toIDriverComm l) fd) := by
  have haccept : Prog.Obeys (framing fd) (fun x (newFd : Int) => x = .reading [] ∧ newFd = -1 ∨
      ∃ fd' : Nat, x = .accepted fd' ∧ newFd = fd') (.reading []) (tryAccept l fd) := by
    rw [tryAccept]
    split
    · exact .ret (.inl ⟨rfl, rfl⟩)
    · rename_i hfd
      have hfd : fd = l := not_not.mp hfd
      refine .call ⟨hfd.symm, rfl⟩ ?_
      rintro (errno | ⟨newFd, ip⟩) -
      · exact .ret (.inl ⟨rfl, rfl⟩)
      · exact .call trivial fun _ _ => .call trivial fun _ _ => .ret (.inr ⟨newFd, rfl, rfl⟩)
  refine haccept.bind ?_
  rintro _ newFd (⟨rfl, rfl⟩ | ⟨fd', rfl, rfl⟩)
  · rw [if_neg (by decide)]
    refine (obeys_receiveRequest_framing fd).bind ?_
    rintro _ r ⟨part, rfl, ⟨frame, rfl, rfl⟩ | ⟨⟨what, rfl⟩, hpart⟩⟩
    · exact .call ⟨frame, rfl, rfl⟩ fun _ _ => .ret fun _ => .inr (.inl rfl)
    · refine .call ⟨rfl, hpart⟩ ?_
      rintro (_ | _) -
      · exact .ret fun h => by cases h
      · exact .call trivial fun _ _ => .call trivial fun _ _ => .call trivial fun _ _ =>
          .call rfl fun _ _ => .ret fun _ => .inr (.inr (.inl rfl))
  · rw [if_pos (Int.natCast_nonneg fd')]
    refine .call rfl ?_
    rintro (_ | _) -
    · exact .ret fun h => by cases h
    · exact .ret fun _ => .inr (.inr (.inr ⟨fd', rfl⟩))

end TCPDriverComm

/-! ## Streams -/

variable {Op : Type} {Ans : Op → Type} {σ : Type}

/-- When a server begins, nothing but its listening socket is open. -/
theorem Server.not_connection_start (listenFd : Int) (allocations : Std.ExtTreeMap Nat (List Byte)) (storage : σ)
    (fd : Int) (id : Nat) :
    (start listenFd allocations storage : Server Ans σ).kernel.fds fd ≠ some (.connection id) := by
  by_cases hfd : fd = listenFd
  · subst hfd
    simp [start]
  · simp [start, hfd]

/-- The bytes that an action brings to a connection. -/
def NetworkAction.brings (id : Nat) : NetworkAction Ans → List Byte
  | .arrive id' bytes => if id' = id then bytes else []
  | _ => []

theorem NetworkAction.brings_server {id : Nat} {act : Action Ans} :
    (NetworkAction.server act).brings id = [] := rfl

/-- The requests that were queued for a connection. -/
def Server.requestsFrom (id : Nat) (jobs : List (Job Ans)) : List DriverData :=
  (jobs.filter fun job => job.origin = some (.connection id)).map Job.request

section RequestsFrom

variable {id : Nat} {jobs : List (Job Ans)} {job : Job Ans}

theorem Server.requestsFrom_concat_self (h : job.origin = some (.connection id)) :
    requestsFrom id (jobs ++ [job]) = requestsFrom id jobs ++ [job.request] := by
  simp [requestsFrom, List.filter_append, h]

theorem Server.requestsFrom_concat_of_ne (h : job.origin ≠ some (.connection id)) :
    requestsFrom id (jobs ++ [job]) = requestsFrom id jobs := by
  simp [requestsFrom, List.filter_append, h]

/-- What a job keeps: its origin and its request. -/
def Job.ident (job : Job Ans) : Option Object × DriverData := (job.origin, job.request)

theorem Server.map_ident_set {i : Nat} (hj : jobs[i]? = some job)
    (prog : Prog (JobCall Op) (JobCall.Answer Ans) (Except String Unit)) :
    (jobs.set i { job with prog := prog }).map Job.ident = jobs.map Job.ident := by
  ext1 j
  rw [List.getElem?_map, List.getElem?_map]
  rcases eq_or_ne i j with rfl | hne
  · rw [List.getElem?_set_self (List.getElem?_eq_some_iff.mp hj).1, hj]
    rfl
  · rw [List.getElem?_set_ne hne]

theorem Server.requestsFrom_congr {jobs' : List (Job Ans)} (h : jobs'.map Job.ident = jobs.map Job.ident) :
    requestsFrom id jobs' = requestsFrom id jobs := by
  have hident : ∀ jobs : List (Job Ans), requestsFrom id jobs =
      ((jobs.map Job.ident).filter fun x => x.1 = some (.connection id)).map Prod.snd := by
    intro jobs
    rw [List.filter_map, List.map_map]
    rfl
  rw [hident, hident, h]

theorem Server.origins_congr {jobs' : List (Job Ans)} (h : jobs'.map Job.ident = jobs.map Job.ident)
    (horigin : ∀ job ∈ jobs, ∃ id, job.origin = some (.connection id)) :
    ∀ job ∈ jobs', ∃ id, job.origin = some (.connection id) := by
  intro job hmem
  have hident := List.mem_map_of_mem (f := Job.ident) hmem
  rw [h] at hident
  obtain ⟨job', hmem', he⟩ := List.mem_map.mp hident
  obtain ⟨id, hid⟩ := horigin job' hmem'
  exact ⟨id, (congrArg Prod.fst he).symm.trans hid⟩

end RequestsFrom

namespace Networked

/-- What the client of a connection has sent. -/
def arrived (id : Nat) (tr : List (NetworkAction Ans)) : List Byte := tr.flatMap (NetworkAction.brings id)

theorem arrived_snoc {id : Nat} {tr : List (NetworkAction Ans)} {act : NetworkAction Ans} :
    arrived id (tr ++ [act]) = arrived id tr ++ act.brings id := by simp [arrived]

/-- The descriptor refers to the connection. -/
def Connects (s : Networked Ans σ) (fd : Int) (id : Nat) : Prop := s.server.kernel.fds fd = some (.connection id)

/-- The streams of the connections: what has arrived on one are the requests that were queued for it, a part
`rest id` that was read, and what is still to be read. -/
structure Streams (tr : List (NetworkAction Ans)) (s : Networked Ans σ) (rest : Nat → List Byte) : Prop where
  stream : ∀ id, ∃ (fd : Int) (frames : List TCPDriverComm.RequestFrame),
    arrived id tr = frames.flatMap TCPDriverComm.RequestFrame.bytes ++ (rest id ++ s.inbox id) ∧
      Server.requestsFrom id s.server.jobs = frames.map (TCPDriverComm.RequestFrame.data fd)
  source : ∀ fd id, s.Connects fd id → ∀ request ∈ Server.requestsFrom id s.server.jobs, request.sourceFd = fd
  born : ∀ fd id, s.Connects fd id → id < s.server.kernel.nextId
  unborn : ∀ id, s.server.kernel.nextId ≤ id → rest id = [] ∧ Server.requestsFrom id s.server.jobs = []
  unique : ∀ fd fd' id, s.Connects fd id → s.Connects fd' id → fd = fd'
  origin : ∀ job ∈ s.server.jobs, ∃ id, job.origin = some (.connection id)

variable {R : Environment Op Ans σ} {S : IStorage Op Ans} {s s' : Networked Ans σ}
  {tr : List (NetworkAction Ans)} {act : NetworkAction Ans} {rest : Nat → List Byte} {fd : Int} {id : Nat}

/-- A step that takes nothing off a stream and queues nothing. -/
theorem Streams.congr (h : s.Streams tr rest) (hbrings : ∀ id, act.brings id = []) (hinbox : s'.inbox = s.inbox)
    (hjobs : s'.server.jobs.map Job.ident = s.server.jobs.map Job.ident)
    (hconn : ∀ fd id, s'.Connects fd id → s.Connects fd id)
    (hnext : s.server.kernel.nextId ≤ s'.server.kernel.nextId) : s'.Streams (tr ++ [act]) rest where
  stream id := by
    rw [arrived_snoc, hbrings, List.append_nil, hinbox, Server.requestsFrom_congr hjobs]
    exact h.stream id
  source fd id hc := by
    rw [Server.requestsFrom_congr hjobs]
    exact h.source fd id (hconn fd id hc)
  born fd id hc := (h.born fd id (hconn fd id hc)).trans_le hnext
  unborn id hid := by
    rw [Server.requestsFrom_congr hjobs]
    exact h.unborn id (hnext.trans hid)
  unique fd fd' id hc hc' := h.unique fd fd' id (hconn fd id hc) (hconn fd' id hc')
  origin := Server.origins_congr hjobs h.origin

/-- What the cursor says of the streams. -/
structure AtCursor (s : Networked Ans σ) (rest : Nat → List Byte) (fd : Int) (x : Cursor) : Prop where
  others : ∀ fd' id, fd' ≠ fd → s.Connects fd' id → rest id = []
  lost : ∀ id, (∀ fd', ¬ s.Connects fd' id) → ¬ HoldsRequest (rest id)
  own : ∀ id, s.Connects fd id → x.Says (rest id)
  read : ∀ part, x = .reading part → part ≠ [] →
    s.server.readFrom = s.server.kernel.fds fd ∧ ∃ id, s.Connects fd id

theorem AtCursor.congr {x : Cursor} (h : s.AtCursor rest fd x)
    (hconn : ∀ fd id, s'.Connects fd id ↔ s.Connects fd id) (hread : s'.server.readFrom = s.server.readFrom) :
    s'.AtCursor rest fd x where
  others fd' id hne hc := h.others fd' id hne ((hconn fd' id).mp hc)
  lost id hid := h.lost id fun fd' hc => hid fd' ((hconn fd' id).mpr hc)
  own id hc := h.own id ((hconn fd id).mp hc)
  read part hx hne := by
    obtain ⟨hfrom, id, hc⟩ := h.read part hx hne
    refine ⟨?_, id, (hconn fd id).mpr hc⟩
    rw [hread, hfrom, (hconn fd id).mpr hc, hc]

/-- What holds of the streams in every state. -/
structure Framed (tr : List (NetworkAction Ans)) (s : Networked Ans σ) (rest : Nat → List Byte) : Prop where
  writers : s.server.Writers
  streams : s.Streams tr rest
  atWork : ∃ fd x, Prog.Obeys (TCPDriverComm.framing fd) Cursor.Ends x s.server.notify ∧ s.AtCursor rest fd x

/-- Between two events nothing is left of a request of a client that is connected. -/
theorem Framed.idle (h : s.Framed tr rest) (hidle : s.server.notify = .ret (.ok ())) :
    (∀ fd id, s.Connects fd id → rest id = []) ∧ ∀ id, ¬ HoldsRequest (rest id) := by
  obtain ⟨-, -, fd, x, hp, hx⟩ := h
  rw [hidle] at hp
  have hopen : ∀ fd' id, s.Connects fd' id → rest id = [] := by
    intro fd' id hc
    by_cases hfd : fd' = fd
    · subst hfd
      have hown := hx.own id hc
      obtain rfl | rfl | rfl | ⟨newFd, rfl⟩ := hp.ret_inv rfl
      · exact hown
      · exact hown
      · exact hown.elim
      · exact hown
    · exact hx.others fd' id hfd hc
  refine ⟨hopen, fun id => ?_⟩
  by_cases hid : ∃ fd', s.Connects fd' id
  · obtain ⟨fd', hc⟩ := hid
    rw [hopen fd' id hc]
    exact fun h => absurd h.1 (by decide)
  · exact hx.lost id (not_exists.mp hid)

/-- A `read` of the reactor thread takes bytes off a stream. -/
theorem Framed.read {n : Nat} {bytes : { bytes : List Byte // bytes.length ≤ n }} {part : List Byte}
    {inbox : Nat → List Byte} {k : (ServerCall.read fd n).Answer → ServerProg (Except String Unit)}
    (hstreams : s.Streams tr rest) (hx : s.AtCursor rest fd (.reading part))
    (hd : s.deliver (.reactor ⟨.read fd n, .ok bytes⟩) = some inbox) (hw : s.server.Writers)
    (hk : Prog.Obeys (TCPDriverComm.framing fd) Cursor.Ends (.reading (part ++ bytes.1)) (k (.ok bytes))) :
    ∃ rest', Framed (tr ++ [.server (.reactor ⟨.read fd n, .ok bytes⟩)])
      { s with server := { s.server with readFrom := s.server.kernel.fds fd, notify := k (.ok bytes) },
               inbox := inbox } rest' := by
  simp only [deliver] at hd
  split at hd
  · rename_i id hid
    rw [Option.ite_none_right_eq_some] at hd
    obtain ⟨⟨⟨more, hmore⟩, -⟩, hd⟩ := hd
    obtain rfl := Option.some.inj hd
    have hpart : rest id = part := hx.own id hid
    refine ⟨Function.update rest id (part ++ bytes.1), hw, ?_, fd, _, hk, ?_⟩
    · refine ⟨fun id' => ?_, hstreams.source, hstreams.born, fun id' hid' => ?_, hstreams.unique,
        hstreams.origin⟩
      · obtain ⟨fd', frames, harrived, hjobs⟩ := hstreams.stream id'
        refine ⟨fd', frames, ?_, hjobs⟩
        rw [arrived_snoc, NetworkAction.brings_server, List.append_nil, harrived]
        rcases eq_or_ne id' id with rfl | hne
        · simp only [Function.update_self]
          rw [← hmore, List.drop_left, hpart, List.append_assoc]
        · simp only [Function.update_of_ne hne]
      · have hne : id' ≠ id := (lt_of_lt_of_le (hstreams.born fd id hid) hid').ne'
        rw [Function.update_of_ne hne]
        exact hstreams.unborn id' hid'
    · refine ⟨fun fd' id' hne hc => ?_, fun id' hid' => ?_, fun id' hc => ?_, fun _ _ _ => ⟨rfl, id, hid⟩⟩
      · -- another descriptor is another connection
        have hne' : id' ≠ id := by
          rintro rfl
          exact hne (hstreams.unique fd' fd id' hc hid)
        rw [Function.update_of_ne hne']
        exact hx.others fd' id' hne hc
      · have hne : id' ≠ id := by
          rintro rfl
          exact hid' fd hid
        rw [Function.update_of_ne hne]
        exact hx.lost id' hid'
      · obtain rfl : id' = id := by
          cases hid.symm.trans hc
          rfl
        exact Function.update_self ..
  · cases hd

/-- A client is accepted. -/
theorem Framed.accept {newFd : Nat} {ip : String} {kernel : Kernel}
    {k : (ServerCall.accept fd).Answer → ServerProg (Except String Unit)}
    (hstreams : s.Streams tr rest) (hx : s.AtCursor rest fd (.reading []))
    (hkernel : s.server.kernel.answer (.accept fd) (.ok (newFd, ip)) = some kernel) (hw : s.server.Writers)
    (hk : Prog.Obeys (TCPDriverComm.framing fd) Cursor.Ends (.accepted newFd) (k (.ok (newFd, ip)))) :
    Framed (tr ++ [.server (.reactor ⟨.accept fd, .ok (newFd, ip)⟩)])
      { s with server := { s.server with kernel := kernel, notify := k (.ok (newFd, ip)) } } rest := by
  simp only [Kernel.answer, Option.ite_none_right_eq_some] at hkernel
  obtain ⟨⟨hlisten, hfree⟩, hkernel⟩ := hkernel
  obtain rfl := Option.some.inj hkernel
  -- the connections are the old ones and the new one
  have hconn : ∀ fd' id, (s.server.kernel.openAt newFd (.connection s.server.kernel.nextId)).fds fd' =
      some (.connection id) → fd' = newFd ∧ id = s.server.kernel.nextId ∨ s.Connects fd' id := by
    intro fd' id hc
    by_cases hfd : fd' = newFd
    · subst hfd
      rw [Kernel.fds_openAt_self] at hc
      cases hc
      exact .inl ⟨rfl, rfl⟩
    · rw [Kernel.fds_openAt_of_ne _ _ hfd] at hc
      exact .inr hc
  have hold : ∀ fd' id, s.Connects fd' id →
      (s.server.kernel.openAt newFd (.connection s.server.kernel.nextId)).fds fd' = some (.connection id) :=
    fun fd' id hc => Kernel.refers_openAt hc hfree
  have hnew := hstreams.unborn s.server.kernel.nextId le_rfl
  refine ⟨hw, ⟨fun id => ?_, fun fd' id hc => ?_, fun fd' id hc => ?_, fun id hid => ?_, fun fd₁ fd₂ id h₁ h₂ => ?_,
    hstreams.origin⟩, fd, _, hk, fun fd' id hne hc => ?_, fun id hid => ?_, fun id hc => ?_, fun part hpart => by cases hpart⟩
  · rw [arrived_snoc, NetworkAction.brings_server, List.append_nil]
    exact hstreams.stream id
  · rcases hconn fd' id hc with ⟨rfl, rfl⟩ | hc
    · rw [hnew.2]
      exact fun request hmem => absurd hmem List.not_mem_nil
    · exact hstreams.source fd' id hc
  · rcases hconn fd' id hc with ⟨rfl, rfl⟩ | hc
    · exact Nat.lt_succ_self _
    · exact (hstreams.born fd' id hc).trans (Nat.lt_succ_self _)
  · exact hstreams.unborn id ((Nat.le_succ _).trans hid)
  · rcases hconn fd₁ id h₁ with ⟨rfl, rfl⟩ | h₁ <;> rcases hconn fd₂ _ h₂ with ⟨rfl, hid⟩ | h₂
    · rfl
    · exact absurd (hstreams.born fd₂ _ h₂) (lt_irrefl _)
    · subst hid
      exact absurd (hstreams.born fd₁ _ h₁) (lt_irrefl _)
    · exact hstreams.unique fd₁ fd₂ id h₁ h₂
  · rcases hconn fd' id hc with ⟨rfl, rfl⟩ | hc
    · exact hnew.1
    · exact hx.others fd' id hne hc
  · exact hx.lost id fun fd' hc => hid fd' (hold fd' id hc)
  · -- the listening socket is no connection
    cases (hold fd id (by
      rcases hconn fd id hc with ⟨rfl, -⟩ | hc
      · cases hlisten.symm.trans hfree
      · exact hc)).symm.trans (Kernel.refers_openAt hlisten hfree)

/-- A request is queued. -/
theorem Framed.queue {request : DriverData} {part : List Byte} {driver : TCPDriverComm}
    {frame : TCPDriverComm.RequestFrame} {notify : ServerProg (Except String Unit)} {job : Job Ans}
    (hstreams : s.Streams tr rest) (hx : s.AtCursor rest fd (.reading part)) (hpart : part = frame.bytes)
    (hrequest : request = frame.data fd) (horigin : job.origin = s.server.readFrom) (hjob : job.request = request)
    (hk : Prog.Obeys (TCPDriverComm.framing fd) Cursor.Ends .queued notify)
    (hw : (⟨s.server.kernel, driver, s.server.storage, notify, s.server.readFrom, s.server.jobs ++ [job]⟩ :
      Server Ans σ).Writers) :
    ∃ rest', Framed (tr ++ [.server (.reactor ⟨.addCommand request, ()⟩)])
      { s with server := ⟨s.server.kernel, driver, s.server.storage, notify, s.server.readFrom,
                           s.server.jobs ++ [job]⟩ } rest' := by
  have hne : part ≠ [] := by
    rw [hpart]
    apply List.ne_nil_of_length_pos
    rw [TCPDriverComm.RequestFrame.bytes, List.length_append, frame.length_header]
    omega
  obtain ⟨hfrom, id, hid⟩ := hx.read part rfl hne
  have hself : job.origin = some (.connection id) := by rw [horigin, hfrom, hid]
  have hother : ∀ id', id' ≠ id → job.origin ≠ some (.connection id') := by
    intro id' hne hid'
    cases hself.symm.trans hid'
    exact hne rfl
  have hrest : rest id = frame.bytes := (hx.own id hid).trans hpart
  refine ⟨Function.update rest id [], hw, ⟨fun id' => ?_, fun fd' id' hc => ?_, hstreams.born, fun id' hid' => ?_,
    hstreams.unique, fun job' hmem => ?_⟩, fd, _, hk, fun fd' id' hfd hc => ?_, fun id' hid' => ?_, fun id' hc => ?_,
    fun part hpart => by cases hpart⟩
  · rw [arrived_snoc, NetworkAction.brings_server, List.append_nil]
    obtain ⟨fd', frames, harrived, hjobs⟩ := hstreams.stream id'
    rcases eq_or_ne id' id with rfl | hne
    · -- the old requests came from the same descriptor
      refine ⟨fd, frames ++ [frame], ?_, ?_⟩
      · rw [harrived, hrest, Function.update_self, List.flatMap_append, List.flatMap_singleton, List.nil_append,
          List.append_assoc]
      · rw [Server.requestsFrom_concat_self hself, hjob, hrequest, hjobs, List.map_append, List.map_singleton]
        congr 1
        apply List.map_congr_left
        intro r hr
        have hfd : (r.data fd').sourceFd = fd :=
          hstreams.source fd id' hid _ (by rw [hjobs]; exact List.mem_map_of_mem hr)
        rw [show fd' = fd from hfd]
    · rw [Function.update_of_ne hne, Server.requestsFrom_concat_of_ne (hother id' hne)]
      exact ⟨fd', frames, harrived, hjobs⟩
  · rcases eq_or_ne id' id with rfl | hne
    · obtain rfl := hstreams.unique fd' fd id' hc hid
      rw [Server.requestsFrom_concat_self hself]
      intro r hr
      rcases List.mem_append.mp hr with hr | hr
      · exact hstreams.source fd' id' hid r hr
      · rw [List.mem_singleton.mp hr, hjob, hrequest]
        rfl
    · rw [Server.requestsFrom_concat_of_ne (hother id' hne)]
      exact hstreams.source fd' id' hc
  · have hne : id' ≠ id := (lt_of_lt_of_le (hstreams.born fd id hid) hid').ne'
    rw [Function.update_of_ne hne, Server.requestsFrom_concat_of_ne (hother id' hne)]
    exact hstreams.unborn id' hid'
  · rcases List.mem_append.mp hmem with hmem | hmem
    · exact hstreams.origin job' hmem
    · rw [List.mem_singleton.mp hmem]
      exact ⟨id, hself⟩
  · rcases eq_or_ne id' id with rfl | hne
    · exact Function.update_self ..
    · rw [Function.update_of_ne hne]
      exact hx.others fd' id' hfd hc
  · have hne : id' ≠ id := by
      rintro rfl
      exact hid' fd hid
    rw [Function.update_of_ne hne]
    exact hx.lost id' hid'
  · obtain rfl : id' = id := by
      cases hid.symm.trans hc
      rfl
    exact Function.update_self ..

/-- A call of the reactor thread that leaves the connections, the streams and the queue alone. -/
theorem Framed.quiet {server : Server Ans σ} {x : Cursor} {a : Action Ans} (hstreams : s.Streams tr rest)
    (hfds : server.kernel.fds = s.server.kernel.fds) (hnext : server.kernel.nextId = s.server.kernel.nextId)
    (hjobs : server.jobs = s.server.jobs) (hx : AtCursor { s with server := server } rest fd x)
    (hk : Prog.Obeys (TCPDriverComm.framing fd) Cursor.Ends x server.notify) (hw : server.Writers) :
    Framed (tr ++ [.server a]) { s with server := server } rest where
  writers := hw
  streams := by
    refine hstreams.congr (fun _ => NetworkAction.brings_server) rfl ?_ (fun fd id hc => ?_) ?_
    · rw [hjobs]
    · rwa [Connects, hfds] at hc
    · rw [hnext]
  atWork := ⟨fd, x, hk, hx⟩

/-- A call of the reactor thread that leaves the kernel alone, too. -/
theorem Framed.unmoved {kernel : Kernel} {driver : TCPDriverComm} {notify : ServerProg (Except String Unit)}
    {inbox : Nat → List Byte} {x : Cursor} {a : Action Ans} (hstreams : s.Streams tr rest) (hx : s.AtCursor rest fd x)
    (hkernel : some s.server.kernel = some kernel) (hd : some s.inbox = some inbox)
    (hk : Prog.Obeys (TCPDriverComm.framing fd) Cursor.Ends x notify)
    (hw : (⟨kernel, driver, s.server.storage, notify, s.server.readFrom, s.server.jobs⟩ : Server Ans σ).Writers) :
    ∃ rest', Framed (tr ++ [.server a])
      { s with server := ⟨kernel, driver, s.server.storage, notify, s.server.readFrom, s.server.jobs⟩,
               inbox := inbox } rest' := by
  obtain rfl := Option.some.inj hkernel
  obtain rfl := Option.some.inj hd
  exact ⟨rest, .quiet hstreams rfl rfl rfl (hx.congr (fun _ _ => Iff.rfl) rfl) hk hw⟩

/-- The tables of the driver have no part in it. -/
theorem Framed.driver {driver : TCPDriverComm} (h : s.Framed tr rest)
    (hw : Server.Writers { s.server with driver := driver }) :
    Framed tr { s with server := { s.server with driver := driver } } rest := by
  obtain ⟨-, ⟨hstream, hsource, hborn, hunborn, hunique, horigin⟩, fd, x, hp, hx⟩ := h
  exact ⟨hw, ⟨hstream, hsource, hborn, hunborn, hunique, horigin⟩, fd, x, hp, hx.congr (fun _ _ => Iff.rfl) rfl⟩

/-- A client that was given up is left. -/
theorem Framed.close {driver : TCPDriverComm} {notify : ServerProg (Except String Unit)} {a : Action Ans}
    (hstreams : s.Streams tr rest) (hx : s.AtCursor rest fd .gone)
    (hk : Prog.Obeys (TCPDriverComm.framing fd) Cursor.Ends .closed notify)
    (hw : (⟨s.server.kernel.closeAt fd, driver, s.server.storage, notify, s.server.readFrom, s.server.jobs⟩ :
      Server Ans σ).Writers) :
    Framed (tr ++ [.server a]) { s with server := ⟨s.server.kernel.closeAt fd, driver, s.server.storage, notify,
                                                   s.server.readFrom, s.server.jobs⟩ } rest := by
  -- the connection of `fd` is gone, the others are left
  have hconn : ∀ fd' id, (s.server.kernel.closeAt fd).fds fd' = some (.connection id) ↔
      fd' ≠ fd ∧ s.Connects fd' id := by
    intro fd' id
    by_cases hfd : fd' = fd
    · subst hfd
      simp
    · rw [Kernel.fds_closeAt_of_ne _ hfd]
      exact (and_iff_right hfd).symm
  refine ⟨hw, hstreams.congr (fun _ => NetworkAction.brings_server) rfl rfl
    (fun fd' id hc => ((hconn fd' id).mp hc).2) le_rfl, fd, _, hk, fun fd' id hne hc => ?_, fun id hid => ?_,
    fun id hc => ?_, fun part hpart => by cases hpart⟩
  · exact hx.others fd' id hne ((hconn fd' id).mp hc).2
  · by_cases hc : s.Connects fd id
    · exact hx.own id hc
    · refine hx.lost id fun fd' hfd => hid fd' ((hconn fd' id).mpr ⟨?_, hfd⟩)
      rintro rfl
      exact hc hfd
  · exact absurd rfl ((hconn fd id).mp hc).1

/-- A call of the reactor thread. -/
theorem Framed.reactor {o : ServerCall} {a : o.Answer} {k : o.Answer → ServerProg (Except String Unit)}
    {server : Server Ans σ} {inbox : Nat → List Byte} (h : s.Framed tr rest) (hn : s.server.notify = .call o k)
    (ha : s.server.answer ⟨o, a⟩ = some server) (hd : s.deliver (.reactor ⟨o, a⟩) = some inbox)
    (hw : Server.Writers { server.record S ⟨o, a⟩ with notify := k a }) :
    ∃ rest', Framed (tr ++ [.server (.reactor ⟨o, a⟩)])
      { s with server := { server.record S ⟨o, a⟩ with notify := k a }, inbox := inbox } rest' := by
  obtain ⟨hw₀, hstreams, fd, x, hp, hx⟩ := h
  rw [hn] at hp
  obtain ⟨ho, hk⟩ := hp.call_inv
  have hk := hk a trivial
  obtain ⟨kernel, driver, hkernel, -, rfl⟩ := Server.answer_inv ha
  cases x with
  | reading part =>
    cases o with
    | read fd' n =>
      obtain rfl : fd' = fd := ho
      obtain rfl : s.server.kernel = kernel := by
        cases Kernel.effect_of_answer hkernel
        rfl
      rcases a with errno | bytes
      · obtain rfl := Option.some.inj hd
        exact ⟨rest, .quiet hstreams rfl rfl rfl
          ⟨hx.others, hx.lost, hx.own, fun part' hpart hne => ⟨rfl, (hx.read part' hpart hne).2⟩⟩ hk hw⟩
      · obtain ⟨rest', h⟩ := Framed.read hstreams hx hd hw₀ hk
        exact ⟨rest', h.driver hw⟩
    | accept fd' =>
      obtain ⟨rfl, rfl⟩ := ho
      rcases a with errno | ⟨newFd, ip⟩
      · exact Framed.unmoved hstreams hx hkernel hd hk hw
      · obtain rfl := Option.some.inj hd
        exact ⟨rest, (Framed.accept hstreams hx hkernel hw₀ hk).driver hw⟩
    | addCommand request =>
      obtain ⟨frame, hpart, hrequest⟩ := ho
      obtain rfl := Option.some.inj hkernel
      obtain rfl := Option.some.inj hd
      exact Framed.queue hstreams hx hpart hrequest rfl rfl hk hw
    | epollDel fd' =>
      obtain ⟨rfl, hpart⟩ := ho
      obtain rfl := Option.some.inj hd
      have he := Kernel.effect_of_answer hkernel
      cases a with
      | false =>
        have hsame : some s.server.kernel = some kernel := by
          cases he
          rfl
        exact Framed.unmoved hstreams hx hsame rfl hk hw
      | true =>
        have hfds : kernel.fds = s.server.kernel.fds ∧ kernel.nextId = s.server.kernel.nextId := by
          cases he <;> exact ⟨rfl, rfl⟩
        refine ⟨rest, .quiet hstreams hfds.1 hfds.2 rfl (AtCursor.congr (s := s) (x := .gone) ?_ (fun fd id => ?_) rfl) hk hw⟩
        · refine ⟨hx.others, hx.lost, fun id hc => ?_, fun part hp => by cases hp⟩
          rwa [show rest id = part from hx.own id hc]
        · rw [Connects, Connects, ← hfds.1]
          rfl
    | updateAllocation offset data =>
      exact Framed.unmoved hstreams hx hkernel hd hk hw
    | saveAllocations =>
      exact Framed.unmoved hstreams hx hkernel hd hk hw
    | _ => exact ho.elim
  | queued => exact ho.elim
  | gone =>
    cases o with
    | close fd' =>
      obtain rfl : fd' = fd := ho
      obtain rfl := Option.some.inj hkernel
      obtain rfl := Option.some.inj hd
      exact ⟨rest, Framed.close hstreams hx hk hw⟩
    | eraseClient fd' =>
      exact Framed.unmoved hstreams hx hkernel hd hk hw
    | getClientIP fd' =>
      exact Framed.unmoved hstreams hx hkernel hd hk hw
    | forgetClientIP fd' =>
      exact Framed.unmoved hstreams hx hkernel hd hk hw
    | _ => exact ho.elim
  | closed => exact ho.elim
  | accepted newFd =>
    cases o with
    | insertClient fd' =>
      exact Framed.unmoved hstreams hx hkernel hd hk hw
    | recordClientIP fd' ip =>
      exact Framed.unmoved hstreams hx hkernel hd hk hw
    | epollAdd fd' =>
      obtain rfl := Option.some.inj hd
      have hfds : kernel.fds = s.server.kernel.fds ∧ kernel.nextId = s.server.kernel.nextId := by
        cases Kernel.effect_of_answer hkernel <;> exact ⟨rfl, rfl⟩
      refine ⟨rest, .quiet hstreams hfds.1 hfds.2 rfl (hx.congr (fun fd id => ?_) rfl) hk hw⟩
      rw [Connects, Connects, ← hfds.1]
      rfl
    | _ => exact ho.elim

/-- An event takes nothing off a stream. -/
theorem inbox_of_event {inbox : Nat → List Byte} (hd : s.deliver (.event fd) = some inbox) : inbox = s.inbox := by
  simp only [deliver] at hd
  split at hd
  · split at hd
    · cases hd
    · exact (Option.some.inj hd).symm
  · exact (Option.some.inj hd).symm

/-- A file that is opened or closed is no connection. -/
theorem Framed.files {kernel : Kernel} {a : Action Ans} (h : s.Framed tr rest)
    (hconn : ∀ fd id, kernel.fds fd = some (.connection id) ↔ s.Connects fd id)
    (hnext : s.server.kernel.nextId ≤ kernel.nextId) :
    Framed (tr ++ [.server a]) { s with server := { s.server with kernel := kernel } } rest := by
  obtain ⟨hw, hstreams, fd, x, hp, hx⟩ := h
  exact ⟨hw, hstreams.congr (fun _ => NetworkAction.brings_server) rfl rfl
    (fun fd id hc => (hconn fd id).mp hc) hnext, fd, x, hp, hx.congr hconn rfl⟩

/-- A step of a worker. -/
theorem Framed.setJob {i : Nat} {job : Job Ans} {a : Action Ans} {driver : TCPDriverComm} {storage : σ}
    {prog : Prog (JobCall Op) (JobCall.Answer Ans) (Except String Unit)} (h : s.Framed tr rest)
    (hj : s.server.jobs[i]? = some job)
    (hw : Server.Writers { s.server.setJob i job prog with driver := driver, storage := storage }) :
    Framed (tr ++ [.server a])
      { s with server := { s.server.setJob i job prog with driver := driver, storage := storage } } rest := by
  obtain ⟨-, hstreams, fd, x, hp, hx⟩ := h
  refine ⟨hw, hstreams.congr (fun _ => NetworkAction.brings_server) rfl ?_ (fun _ _ hc => hc) le_rfl,
    fd, x, hp, hx.congr (fun _ _ => Iff.rfl) rfl⟩
  exact Server.map_ident_set hj prog

/-- One step of the network. -/
theorem Framed.step (hs : Step R S s act s') (h : s.Framed tr rest) : ∃ rest', s'.Framed (tr ++ [act]) rest' := by
  cases hs with
  | @arrive id bytes hopen =>
    obtain ⟨hw, ⟨hstream, hsource, hborn, hunborn, hunique, horigin⟩, fd, x, hp, hx⟩ := h
    refine ⟨rest, hw, ⟨fun id' => ?_, hsource, hborn, hunborn, hunique, horigin⟩, fd, x, hp,
      hx.congr (fun _ _ => Iff.rfl) rfl⟩
    obtain ⟨fd', frames, harrived, hjobs⟩ := hstream id'
    refine ⟨fd', frames, ?_, hjobs⟩
    rw [arrived_snoc, harrived, NetworkAction.brings]
    rcases eq_or_ne id id' with rfl | hne
    · rw [if_pos rfl]
      simp only [Function.update_self, List.append_assoc]
    · rw [if_neg hne, List.append_nil]
      simp only [Function.update_of_ne hne.symm]
  | close =>
    obtain ⟨hw, hstreams, fd, x, hp, hx⟩ := h
    exact ⟨rest, hw, hstreams.congr (fun _ => rfl) rfl rfl (fun _ _ hc => hc) le_rfl, fd, x, hp,
      hx.congr (fun _ _ => Iff.rfl) rfl⟩
  | @server act server inbox hd hs =>
    have hw := h.writers
    have hw' := hw.step hs
    cases hs with
    | @event fd hidle hfd =>
      obtain rfl := inbox_of_event hd
      -- the last event has left nothing of a request
      obtain ⟨hopen, hlost⟩ := h.idle hidle
      refine ⟨rest, hw', h.streams.congr (fun _ => NetworkAction.brings_server) rfl rfl
        (fun _ _ hc => hc) le_rfl, fd, _, TCPDriverComm.obeys_notify_framing _ fd, fun fd' id _ hc => hopen fd' id hc,
        fun id _ => hlost id, fun id hc => hopen fd id hc, fun part hpart hne => ?_⟩
      cases hpart
      exact absurd rfl hne
    | reactor hn ha => exact h.reactor hn ha hd hw'
    | worker hj hp ha =>
      obtain ⟨kernel, driver, hkernel, -, rfl⟩ := Server.answer_inv ha
      obtain rfl := hw.effect hj hp hkernel
      obtain rfl := Option.some.inj hd
      exact ⟨rest, h.setJob hj hw'⟩
    | storage hj hp hR =>
      obtain rfl := Option.some.inj hd
      exact ⟨rest, h.setJob hj hw'⟩
    | @openFile fd' hfree =>
      obtain rfl := Option.some.inj hd
      refine ⟨rest, h.files (fun fd id => ?_) (Nat.le_succ _)⟩
      by_cases hfd : fd = fd'
      · subst hfd
        rw [Kernel.fds_openAt_self, Connects, hfree]
        simp
      · rw [Kernel.fds_openAt_of_ne _ _ hfd, Connects]
    | @closeFile fd' id' hfile =>
      obtain rfl := Option.some.inj hd
      refine ⟨rest, h.files (fun fd id => ?_) le_rfl⟩
      by_cases hfd : fd = fd'
      · subst hfd
        rw [Kernel.fds_closeAt_self, Connects, hfile]
        simp
      · rw [Kernel.fds_closeAt_of_ne _ hfd, Connects]

/-- Before anything has come. -/
theorem framed_start {server₀ : Server Ans σ} (h₀ : server₀.Started)
    (hnone : ∀ fd id, server₀.kernel.fds fd ≠ some (.connection id)) :
    Framed [] (start server₀) fun _ => [] where
  writers := by
    intro job hmem
    have hmem : job ∈ server₀.jobs := hmem
    rw [h₀.jobs] at hmem
    exact absurd hmem List.not_mem_nil
  streams := by
    have hjobs : ∀ id, Server.requestsFrom id (start server₀).server.jobs = [] := by
      intro id
      rw [show (start server₀).server.jobs = [] from h₀.jobs]
      rfl
    refine ⟨fun id => ⟨0, [], rfl, hjobs id⟩, fun fd id hc => absurd hc (hnone fd id),
      fun fd id hc => absurd hc (hnone fd id), fun id _ => ⟨rfl, hjobs id⟩,
      fun fd _ id hc => absurd hc (hnone fd id), fun job hmem => ?_⟩
    rw [show (start server₀).server.jobs = [] from h₀.jobs] at hmem
    exact absurd hmem List.not_mem_nil
  atWork := by
    refine ⟨0, .closed, ?_, fun fd id _ hc => absurd hc (hnone fd id), fun _ _ h => absurd h.1 (by decide),
      fun id hc => absurd hc (hnone 0 id), fun part hpart => by cases hpart⟩
    rw [show (start server₀).server.notify = .ret (.ok ()) from h₀.idle]
    exact .ret fun _ => .inr (.inr (.inl rfl))

theorem Framed.run {server₀ : Server Ans σ} (h₀ : server₀.Started)
    (hnone : ∀ fd id, server₀.kernel.fds fd ≠ some (.connection id)) (hr : Trace (Step R S) (start server₀) tr s) :
    ∃ rest, s.Framed tr rest := by
  refine hr.invariant (I := fun tr s => ∃ rest, s.Framed tr rest) ⟨_, framed_start h₀ hnone⟩ ?_
  rintro tr s act s' hs ⟨rest, h⟩
  exact h.step hs

/-- **The requests of every connection** are those that its client has sent. However the streams are cut into
pieces and the connections take turns, the requests that were queued for a connection are the first ones of its
stream, each once and in their order; behind them comes what was read of the next one, and what is still to be
read. Between two events nothing of the next one was read, unless its client has been given up; what was read of
it then is no whole request. Nothing else is queued. -/
theorem requests_framed {server₀ : Server Ans σ} (h₀ : server₀.Started)
    (hnone : ∀ fd id, server₀.kernel.fds fd ≠ some (.connection id)) (hr : Trace (Step R S) (start server₀) tr s) :
    (∀ id, ∃ (fd : Int) (frames : List TCPDriverComm.RequestFrame) (part : List Byte),
      arrived id tr = frames.flatMap TCPDriverComm.RequestFrame.bytes ++ (part ++ s.inbox id) ∧
      Server.requestsFrom id s.server.jobs = frames.map (TCPDriverComm.RequestFrame.data fd) ∧
      (s.server.notify = .ret (.ok ()) → ¬ HoldsRequest part ∧ ((∃ fd', s.Connects fd' id) → part = []))) ∧
    ∀ job ∈ s.server.jobs, ∃ id, job.origin = some (.connection id) := by
  obtain ⟨rest, h⟩ := Framed.run h₀ hnone hr
  refine ⟨fun id => ?_, h.streams.origin⟩
  obtain ⟨fd, frames, harrived, hjobs⟩ := h.streams.stream id
  refine ⟨fd, frames, rest id, harrived, hjobs, fun hidle => ?_⟩
  obtain ⟨hopen, hlost⟩ := h.idle hidle
  exact ⟨hlost id, fun ⟨fd', hc⟩ => hopen fd' id hc⟩

theorem length_first_le : (flush.take 10).length ≤ 24 := by decide

theorem length_second_le : (flush.drop 10).length ≤ 14 := by decide

theorem length_flush_le : flush.length ≤ 24 := by decide

/-- Two clients: the first request of one comes in two pieces, with another one behind it, and the request of the
other client comes in between. -/
theorem requests_framed_two_clients : ∃ tr s,
    Trace (Step RAIDStorage.Answers (RAIDStorage.toIStorage _)) (start Server.small) tr s ∧
      arrived 0 tr = flush ++ flush ∧ s.inbox 0 = flush ∧ s.server.jobs.map Job.origin =
        [some (.connection 0), some (.connection 1)] ∧
      ∃ (fd : Int) (frames : List TCPDriverComm.RequestFrame) (part : List Byte),
        arrived 0 tr = frames.flatMap TCPDriverComm.RequestFrame.bytes ++ (part ++ s.inbox 0) ∧
        Server.requestsFrom 0 s.server.jobs = frames.map (TCPDriverComm.RequestFrame.data fd) ∧
        (s.server.notify = .ret (.ok ()) → ¬ HoldsRequest part ∧ ((∃ fd', s.Connects fd' 0) → part = [])) := by
  have hexec : (execAll (exec (RAIDStorage.toIStorage _))
      (connects 4 "10.0.0.1" ++ connects 5 "10.0.0.2" ++ [.arrive 0 (flush.take 10), .server (.event 4),
        .server (.reactor ⟨.read 4 24, .ok ⟨flush.take 10, length_first_le⟩⟩), .arrive 1 flush,
        .arrive 0 (flush.drop 10 ++ flush),
        .server (.reactor ⟨.read 4 14, .ok ⟨flush.drop 10, length_second_le⟩⟩),
        .server (.reactor ⟨.addCommand { DriverData.new .flush 1 0 0 with sourceFd := 4 }, ()⟩),
        .server (.event 5), .server (.reactor ⟨.read 5 24, .ok ⟨flush, length_flush_le⟩⟩),
        .server (.reactor ⟨.addCommand { DriverData.new .flush 1 0 0 with sourceFd := 5 }, ()⟩)])
      (start Server.small)).map
      (fun s => decide (s.inbox 0 = flush ∧ s.server.jobs.map Job.origin =
        [some (.connection 0), some (.connection 1)])) = some true := by
    decide +kernel
  obtain ⟨s, he, hs⟩ := Option.map_eq_some_iff.mp hexec
  obtain ⟨hinbox, hjobs⟩ := of_decide_eq_true hs
  have hrun := Trace.of_execAll (fun _ _ _ => step_of_exec RAIDStorage.Answers) he
  exact ⟨_, s, hrun, by decide, hinbox, hjobs,
    (requests_framed (Server.started_start ..) (Server.not_connection_start _ _ _) hrun).1 0⟩

end Networked

end LDS
