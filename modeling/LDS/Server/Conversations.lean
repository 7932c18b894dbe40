import LDS.Server.ReactorLoop
import LDS.Server.ReplyStreams

/-!
# Conversations

Replies are written by the workers, to a descriptor by its number, several at a time. A client that sends its
next request when it has the reply to the last one, and leaves only then, is spared what may come of that: as
long as all clients do so, each of them receives whole replies to its own requests, in their order.

## Main definitions

* `Conversation`: the network, with what each client has sent and received
* `Conversation.Answered c id part`: the client of a connection has the replies to all its requests
* `Conversation.Synchronous`: the clients wait for their replies
* `Conversation.Turn`: the state of one connection

## Main results

* `Conversation.Turn.answered`: a client that has its replies has left nothing for the server to do
* `Conversation.replies_in_order`: what each client receives, in every run
-/

namespace LDS

open Memory

variable {Op : Type} {Ans : Op → Type} {σ : Type}

/-! ## Streams of waiting clients -/

/-- What is left of a stream when its client waits: requests that nobody answers, and then a part of a request,
or one that is to be answered, if it may still be. -/
inductive Pending (open_ : Prop) : List Byte → Prop
  | part {bytes : List Byte} (h : ¬ HoldsRequest bytes) : Pending open_ bytes
  | asked {r : TCPDriverComm.RequestFrame} (h : r.expects) (hopen : open_) : Pending open_ r.bytes
  | unanswered {r : TCPDriverComm.RequestFrame} {bytes : List Byte} (h : r.expects = false)
      (hb : Pending open_ bytes) : Pending open_ (r.bytes ++ bytes)

/-- The first request of what is left. -/
theorem Pending.bytes_inv {open_ : Prop} {r : TCPDriverComm.RequestFrame} {rest : List Byte}
    (h : Pending open_ (r.bytes ++ rest)) :
    r.expects = true ∧ rest = [] ∧ open_ ∨ r.expects = false ∧ Pending open_ rest := by
  generalize hb : r.bytes ++ rest = bytes at h
  cases h with
  | part h => exact absurd (holdsRequest_iff.mpr ⟨r, rest, hb.symm⟩) h
  | @asked r' h hopen =>
    rw [← List.append_nil r'.bytes] at hb
    obtain ⟨rfl, rfl⟩ := TCPDriverComm.RequestFrame.bytes_append_inj hb
    exact .inl ⟨h, rfl, hopen⟩
  | unanswered h hrest =>
    obtain ⟨rfl, rfl⟩ := TCPDriverComm.RequestFrame.bytes_append_inj hb
    exact .inr ⟨h, hrest⟩

/-- Requests that nobody answers may come first. -/
theorem Pending.append {open_ : Prop} {frames : List TCPDriverComm.RequestFrame} {bytes : List Byte}
    (hframes : ∀ r ∈ frames, r.expects = false) (h : Pending open_ bytes) :
    Pending open_ (frames.flatMap TCPDriverComm.RequestFrame.bytes ++ bytes) := by
  induction frames with
  | nil => exact h
  | cons r frames ih =>
    obtain ⟨hr, hframes⟩ := List.forall_mem_cons.mp hframes
    rw [List.flatMap_cons, List.append_assoc]
    exact .unanswered hr (ih hframes)

theorem Pending.mono {open_ open' : Prop} (h : open_ → open') {bytes : List Byte} (hb : Pending open_ bytes) :
    Pending open' bytes := by
  induction hb with
  | part hb => exact .part hb
  | asked hr hopen => exact .asked hr (h hopen)
  | unanswered hr _ ih => exact .unanswered hr ih

/-! ## Conversations -/

/-- The network, with what each client has sent, and what it has been sent. -/
structure Conversation (Ans : Op → Type) (σ : Type) where
  net : Networked Ans σ
  sent : Nat → List Byte
  received : Nat → List Byte

/-- The step of the server, if it is one. -/
def NetworkAction.server? : NetworkAction Ans → Option (Action Ans)
  | .server act => some act
  | _ => none

/-- The bytes that an action sends to the client of a connection. -/
def Networked.sends (s : Networked Ans σ) (id : Nat) : NetworkAction Ans → List Byte
  | .server (.worker _ ⟨.write fd buf, a⟩) =>
    if s.server.kernel.fds fd = some (.connection id) then accepted ⟨.write fd buf, a⟩ else []
  | _ => []

namespace Conversation

/-- What an action leads to. -/
def after (c : Conversation Ans σ) (act : NetworkAction Ans) (net : Networked Ans σ) : Conversation Ans σ where
  net := net
  sent id := c.sent id ++ act.brings id
  received id := c.received id ++ c.net.sends id act

/-- The steps are those of the network. -/
def Step (R : Environment Op Ans σ) (S : IStorage Op Ans) (c : Conversation Ans σ) (act : NetworkAction Ans)
    (c' : Conversation Ans σ) : Prop :=
  ∃ net, Networked.Step R S c.net act net ∧ c' = c.after act net

/-- A server to which nothing has come yet. -/
def start (server : Server Ans σ) : Conversation Ans σ where
  net := .start server
  sent _ := []
  received _ := []

/-- The client of a connection has read the replies to all requests that it has sent, and has begun to send
`part` of another one. -/
def Answered (c : Conversation Ans σ) (id : Nat) (part : List Byte) : Prop :=
  ∃ frames : List TCPDriverComm.RequestFrame,
    c.sent id = frames.flatMap TCPDriverComm.RequestFrame.bytes ++ part ∧ ¬ HoldsRequest part ∧
      ∃ replies, TCPDriverComm.readReplies (TCPDriverComm.asks frames) (c.received id) = some (replies, [])

/-- The clients wait: one that goes on to send, or leaves, has its replies, and it sends one request at a time. -/
def Synchronous (c : Conversation Ans σ) : NetworkAction Ans → Prop
  | .arrive id bytes => ∃ part, c.Answered id part ∧ Pending True (part ++ bytes)
  | .close id => ∃ part, c.Answered id part
  | .server _ => True

end Conversation

/-! ## The queue of a connection -/

namespace Server

/-- The requests that were queued for a connection, with the numbers of their jobs. -/
def queueOf (id : Nat) (jobs : List (Job Ans)) : List (DriverData × Nat) :=
  (jobs.zipIdx.filter fun e => e.1.origin = some (.connection id)).map fun e => (e.1.request, e.2)

variable {id : Nat} {jobs jobs' : List (Job Ans)} {job : Job Ans}

theorem mem_queueOf {e : DriverData × Nat} : e ∈ queueOf id jobs ↔
    ∃ job, jobs[e.2]? = some job ∧ job.origin = some (.connection id) ∧ job.request = e.1 := by
  simp only [queueOf, List.mem_map, List.mem_filter, decide_eq_true_eq]
  constructor
  · rintro ⟨⟨job, i⟩, ⟨hmem, horigin⟩, rfl⟩
    exact ⟨job, List.mem_zipIdx_iff_getElem?.mp hmem, horigin, rfl⟩
  · rintro ⟨job, hj, horigin, hrequest⟩
    exact ⟨(job, e.2), ⟨List.mem_zipIdx_iff_getElem?.mpr hj, horigin⟩, by rw [hrequest]⟩

theorem queueOf_concat_self (h : job.origin = some (.connection id)) :
    queueOf id (jobs ++ [job]) = queueOf id jobs ++ [(job.request, jobs.length)] := by
  simp [queueOf, List.zipIdx_append, List.filter_append, h]

theorem queueOf_concat_of_ne (h : job.origin ≠ some (.connection id)) :
    queueOf id (jobs ++ [job]) = queueOf id jobs := by
  simp [queueOf, List.zipIdx_append, List.filter_append, h]

theorem queueOf_congr (h : jobs'.map Job.ident = jobs.map Job.ident) : queueOf id jobs' = queueOf id jobs := by
  have hident : ∀ jobs : List (Job Ans), queueOf id jobs =
      (((jobs.map Job.ident).zipIdx.filter fun x => x.1.1 = some (.connection id)).map fun x => (x.1.2, x.2)) := by
    intro jobs
    rw [List.zipIdx_map, List.filter_map, List.map_map]
    rfl
  rw [hident, hident, h]

theorem requestsFrom_eq : requestsFrom id jobs = (queueOf id jobs).map Prod.fst := by
  rw [requestsFrom, queueOf, List.map_map]
  nth_rewrite 1 [← List.zipIdx_map_fst 0 jobs]
  rw [List.filter_map, List.map_map]
  rfl

/-! ## The jobs -/

section Jobs

variable {w : List Byte} {request : DriverData} {q : Prog Op Ans (Except String (Option DriverData))}

/-- Nothing has been written for the job, or a part of a reply to its request; when that has been written as a
whole, the job is over. -/
inductive Spoken (job : Job Ans) : List Byte → Prop
  | silent : Spoken job []
  | replying {data : DriverData} {w : List Byte} (hexpects : job.request.type.expectsReply)
      (hfit : FitReply job.request data) (hw : w <+: TCPDriverComm.replyFrame data)
      (hdone : w = TCPDriverComm.replyFrame data → ∀ o k, job.prog ≠ .call o k) : Spoken job w

variable {A : (o : Op) → Ans o → Prop} {P : Op → Prop} {X : Prop}

/-- What is written for a job is its reply, if `q` returns one that fits. -/
theorem Progress.spoken (h : Progress job q w) (hq : Prog.Obeys (.plain A P X) (fun _ r => ∀ data,
      r = .ok (some data) → job.request.type.expectsReply ∧ FitReply job.request data) () q) : Spoken job w := by
  cases h with
  | working hw hp =>
    subst hw
    exact .silent
  | @replying data x p hret hp hx hw hrest =>
    subst hret
    obtain ⟨hexpects, hfit⟩ := hq.ret_inv data rfl
    refine .replying hexpects hfit hw fun hwhole o k hcall => ?_
    rw [hp] at hcall
    cases p with
    | ret r => cases hcall
    | abort => cases hcall
    | call o' k' =>
      obtain ⟨ho, -⟩ := hx.call_inv
      cases x with
      | none => exact ho
      | some rest =>
        -- nothing is left to be written
        obtain ⟨buf, -, hne, hpre⟩ := ho
        have hall := hrest rest rfl
        rw [hwhole, List.append_right_eq_self] at hall
        subst hall
        exact hne (List.prefix_nil.mp hpre)

/-- A call of the driver for a job is a `write` to the descriptor that its request has come from. -/
theorem Progress.writes {o : ServerCall} {k : o.Answer → Prog (JobCall Op) (JobCall.Answer Ans) (Except String Unit)}
    (h : Progress job q w) (hq : Prog.Obeys (.plain A P X) (fun _ r => ∀ data,
      r = .ok (some data) → job.request.type.expectsReply ∧ FitReply job.request data) () q)
    (hp : job.prog = .call (.server o) k) : ∃ buf, o = .write job.request.sourceFd buf := by
  obtain ⟨data, rfl, ⟨buf, rfl⟩, -⟩ := h.write hp
  obtain ⟨-, hfit⟩ := hq.ret_inv data rfl
  exact ⟨buf, by rw [hfit.repliesTo.sourceFd]⟩

/-- A request that nobody answers makes no call. -/
theorem not_call_of_silent (S : IStorage Op Ans) (l : Int) (h : request.type.expectsReply = false) (o : JobCall Op)
    (k : JobCall.Answer Ans o → Prog (JobCall Op) (JobCall.Answer Ans) (Except String Unit)) :
    InputMediator.job (TCPDriverComm.toIDriverComm l) S request ≠ .call o k := by
  rw [InputMediator.job_eq, InputMediator.outcome.eq_def]
  intro hcall
  cases ht : request.type <;> rw [ht] at h hcall <;> cases h <;> cases hcall

end Jobs

end Server

/-! ## What is left of a stream -/

namespace Networked

variable {s s' : Networked Ans σ} {tr : List (NetworkAction Ans)} {act : NetworkAction Ans}
  {rest rest' : Nat → List Byte} {id : Nat}

theorem map_data_inj {frames frames' : List TCPDriverComm.RequestFrame} {fd fd' : Int}
    (h : frames.map (TCPDriverComm.RequestFrame.data fd) = frames'.map (TCPDriverComm.RequestFrame.data fd')) :
    frames = frames' := by
  induction frames generalizing frames' with
  | nil => exact (List.map_eq_nil_iff.mp h.symm).symm
  | cons r frames ih =>
    cases frames' with
    | nil => cases h
    | cons r' frames' =>
      obtain ⟨hhead, htail⟩ := List.cons.inj h
      rw [TCPDriverComm.RequestFrame.data_inj hhead, ih htail]

/-- The requests of the jobs came off the streams. -/
theorem Framed.exists_frame (h : s.Framed tr rest) {job : Job Ans} (hmem : job ∈ s.server.jobs) :
    ∃ (r : TCPDriverComm.RequestFrame) (fd : Int), job.request = r.data fd := by
  obtain ⟨id, hid⟩ := h.streams.origin job hmem
  obtain ⟨fd, frames, -, hframes⟩ := h.streams.stream id
  have hrequest : job.request ∈ Server.requestsFrom id s.server.jobs := by
    apply List.mem_map_of_mem
    exact List.mem_filter.mpr ⟨hmem, decide_eq_true hid⟩
  rw [hframes] at hrequest
  obtain ⟨r, -, hr⟩ := List.mem_map.mp hrequest
  exact ⟨r, fd, hr.symm⟩

/-- What arrives on a connection is left on its stream, if nothing is queued. -/
theorem Framed.rest_eq (h : s.Framed tr rest) (h' : s'.Framed (tr ++ [act]) rest')
    (hq : Server.requestsFrom id s'.server.jobs = Server.requestsFrom id s.server.jobs) :
    rest' id ++ s'.inbox id = rest id ++ s.inbox id ++ act.brings id := by
  obtain ⟨fd, frames, harrived, hframes⟩ := h.streams.stream id
  obtain ⟨fd', frames', harrived', hframes'⟩ := h'.streams.stream id
  obtain rfl : frames = frames' := map_data_inj (hframes.symm.trans (hq.symm.trans hframes'))
  rw [arrived_snoc, harrived, List.append_assoc] at harrived'
  exact (List.append_cancel_left harrived').symm

/-- A request that is queued was the first one of what was left. -/
theorem Framed.rest_queue (h : s.Framed tr rest) (h' : s'.Framed (tr ++ [act]) rest') {request : DriverData}
    (hbrings : act.brings id = [])
    (hq : Server.requestsFrom id s'.server.jobs = Server.requestsFrom id s.server.jobs ++ [request]) :
    ∃ (r : TCPDriverComm.RequestFrame) (fd : Int), request = r.data fd ∧
      rest id ++ s.inbox id = r.bytes ++ (rest' id ++ s'.inbox id) := by
  obtain ⟨fd, frames, harrived, hframes⟩ := h.streams.stream id
  obtain ⟨fd', frames', harrived', hframes'⟩ := h'.streams.stream id
  rw [hframes, hframes', List.map_eq_append_iff] at hq
  obtain ⟨front, last, rfl, hfront, hlast⟩ := hq
  obtain ⟨r, rfl, hr⟩ := List.map_eq_singleton_iff.mp hlast
  obtain rfl := map_data_inj hfront
  refine ⟨r, fd', hr.symm, ?_⟩
  rw [arrived_snoc, hbrings, List.append_nil, harrived, List.flatMap_append, List.flatMap_singleton,
    List.append_assoc] at harrived'
  exact List.append_cancel_left harrived'

/-- A request is queued for the connection that it was read from, and that is the end of the event. -/
theorem Framed.queues (h : s.Framed tr rest) {request : DriverData}
    {k : (ServerCall.addCommand request).Answer → ServerProg (Except String Unit)}
    (hn : s.server.notify = .call (.addCommand request) k) :
    ∃ id, s.Connects request.sourceFd id ∧ s.server.readFrom = some (.connection id) ∧
      ∀ E, Prog.Obeys (Server.sparing E) (fun _ _ => True) () (k ()) := by
  obtain ⟨-, -, fd, x, hp, hx⟩ := h
  rw [hn] at hp
  obtain ⟨ho, hk⟩ := hp.call_inv
  cases x with
  | reading part =>
    obtain ⟨r, rfl, rfl⟩ := ho
    obtain ⟨hfrom, id, hid⟩ := hx.read _ rfl r.bytes_ne_nil
    refine ⟨id, hid, hfrom.trans hid, fun E => ?_⟩
    have hend : Prog.Obeys (TCPDriverComm.framing fd) Cursor.Ends .queued (k ()) := hk () trivial
    -- there is no call behind it
    cases hrest : k () with
    | ret r => exact .ret trivial
    | call o k' =>
      rw [hrest] at hend
      exact hend.call_inv.1.elim
    | abort =>
      rw [hrest] at hend
      exact hend.abort_inv.elim
  | _ => exact ho.elim

end Networked

/-! ## Turns -/

/-- What the workers have written, for every job: parts of the replies, each to the descriptor that its request has
come from. -/
structure Server.Speaks (s : Server Ans σ) (w : Nat → List Byte) : Prop where
  spoken : ∀ i job, s.jobs[i]? = some job → Spoken job (w i)
  writes : ∀ (i : Nat) (job : Job Ans) (o : ServerCall) (k : o.Answer → Prog (JobCall Op) (JobCall.Answer Ans) (Except String Unit)),
    s.jobs[i]? = some job → job.prog = .call (.server o) k → ∃ buf, o = .write job.request.sourceFd buf
  unborn : ∀ i, s.jobs.length ≤ i → w i = []

namespace Conversation

/-- The request of a job is done with. -/
structure Settled (jobs : List (Job Ans)) (w : Nat → List Byte) (e : DriverData × Nat) : Prop where
  settles : TCPDriverComm.Settles e.1 (w e.2)
  done : ∀ job, jobs[e.2]? = some job → ∀ o k, job.prog ≠ .call o k

/-- The state of a connection, of whose stream `rest` is left: all its requests are done with; or all but the last
one, whose client waits for the reply, so that its socket has no event. -/
inductive Turn (s : Networked Ans σ) (w : Nat → List Byte) (id : Nat) (rest : List Byte) : Prop
  | idle (hdone : ∀ e ∈ Server.queueOf id s.server.jobs, Settled s.server.jobs w e)
      (hrest : Pending (s.closed id = false) rest)
  | serving {front : List (DriverData × Nat)} {e : DriverData × Nat}
      (hqueue : Server.queueOf id s.server.jobs = front ++ [e]) (hdone : ∀ e ∈ front, Settled s.server.jobs w e)
      (hexpects : e.1.type.expectsReply) (hopen : s.closed id = false) (hrest : rest = [])
      (hconnects : s.Connects e.1.sourceFd id) (hspares : s.server.LeavesPolled {e.1.sourceFd})

/-- What holds of the conversations in every state, when the workers have written `w`. -/
structure Orderly (tr : List (NetworkAction Ans)) (c : Conversation Ans σ) (rest : Nat → List Byte)
    (w : Nat → List Byte) : Prop where
  framed : c.net.Framed tr rest
  speaks : c.net.server.Speaks w
  sent : ∀ id, c.sent id = Networked.arrived id tr
  received : ∀ id, c.received id = (Server.queueOf id c.net.server.jobs).flatMap fun e => w e.2
  turn : ∀ id, Turn c.net w id (rest id ++ c.net.inbox id)

section Answered

variable {c : Conversation Ans σ} {tr : List (NetworkAction Ans)} {rest : Nat → List Byte} {w : Nat → List Byte}
  {id : Nat} {part : List Byte}

/-- What the client of a connection reads of the replies to the requests that are done with. -/
theorem Orderly.readReplies_front (h : Orderly tr c rest w) {front back : List (DriverData × Nat)}
    (hqueue : Server.queueOf id c.net.server.jobs = front ++ back)
    (hdone : ∀ e ∈ front, Settled c.net.server.jobs w e) (bytes : List Byte) :
    ∃ replies, List.Forall₂ FitReply (TCPDriverComm.toAnswer (front.map Prod.fst)) replies ∧
      front.flatMap (fun e => w e.2) = replies.flatMap TCPDriverComm.replyFrame ∧
      TCPDriverComm.readReplies ((TCPDriverComm.toAnswer (front.map Prod.fst)).map DriverData.type)
        (front.flatMap (fun e => w e.2) ++ bytes) = some (replies.map TCPDriverComm.replyOf, bytes) := by
  obtain ⟨replies, hfit, hw⟩ := TCPDriverComm.exists_replies_of_settles Prod.fst (fun e => w e.2)
    fun e he => (hdone e he).settles
  refine ⟨replies, hfit, hw, ?_⟩
  rw [hw]
  refine TCPDriverComm.readReplies_of_fit hfit (fun request hrequest => ?_) bytes
  obtain ⟨e, he, rfl⟩ := List.mem_map.mp (List.mem_filter.mp hrequest).1
  have hmem : e ∈ Server.queueOf id c.net.server.jobs := by
    rw [hqueue]
    exact List.mem_append_left _ he
  obtain ⟨job, hj, -, hjob⟩ := Server.mem_queueOf.mp hmem
  obtain ⟨r, fd, hr⟩ := h.framed.exists_frame (List.mem_of_getElem? hj)
  rw [← hjob, hr]
  exact r.handle_lt

/-- A client that has its replies has left nothing for the server to do, but requests that nobody answers. -/
theorem Orderly.answered (h : Orderly tr c rest w) (ha : c.Answered id part) :
    (∀ e ∈ Server.queueOf id c.net.server.jobs, Settled c.net.server.jobs w e) ∧
      ∃ more : List TCPDriverComm.RequestFrame, (∀ r ∈ more, r.expects = false) ∧ ¬ HoldsRequest part ∧
        rest id ++ c.net.inbox id = more.flatMap TCPDriverComm.RequestFrame.bytes ++ part := by
  obtain ⟨frames', hsent, hpart, replies', hread⟩ := ha
  obtain ⟨fd, frames, harrived, hframes⟩ := h.framed.streams.stream id
  rw [h.sent, harrived] at hsent
  obtain ⟨more, rfl, hrest⟩ := TCPDriverComm.RequestFrame.exists_append_of_flatMap hsent hpart
  rw [Server.requestsFrom_eq] at hframes
  rw [h.received, TCPDriverComm.asks_append, TCPDriverComm.asks_eq fd frames, ← hframes] at hread
  cases h.turn id with
  | idle hdone hpending =>
    refine ⟨hdone, more, ?_, hpart, hrest⟩
    obtain ⟨replies, -, -, hfront⟩ := h.readReplies_front (List.append_nil _).symm hdone []
    rw [List.append_nil] at hfront
    rw [TCPDriverComm.readReplies_append, hfront, Option.bind_some, Option.map_eq_some_iff] at hread
    obtain ⟨_, hmore, -⟩ := hread
    -- nothing is left to be read of the replies to `more`
    have hnil := TCPDriverComm.eq_nil_of_readReplies_nil hmore
    rw [TCPDriverComm.asks, List.map_eq_nil_iff, List.filter_eq_nil_iff] at hnil
    exact fun r hr => Bool.eq_false_iff.mpr (hnil r hr)
  | @serving front e hqueue hdone hexpects hopen hempty hconnects hspares =>
    rw [hempty] at hrest
    obtain ⟨hmore, hpart'⟩ := List.append_eq_nil_iff.mp hrest.symm
    obtain rfl : more = [] := by
      cases more with
      | nil => rfl
      | cons r more => exact absurd (List.append_eq_nil_iff.mp hmore).1 r.bytes_ne_nil
    obtain ⟨replies, -, -, hfront⟩ := h.readReplies_front hqueue hdone (w e.2)
    rw [hqueue, List.map_append, TCPDriverComm.toAnswer_append, List.map_append, List.map_singleton,
      TCPDriverComm.toAnswer_cons_of_pos hexpects, List.flatMap_append, List.flatMap_singleton,
      TCPDriverComm.asks, List.filter_nil, List.map_nil, List.append_nil, TCPDriverComm.readReplies_append, hfront,
      Option.bind_some, Option.map_eq_some_iff] at hread
    obtain ⟨_, hlast, -⟩ := hread
    have hmem : e ∈ Server.queueOf id c.net.server.jobs := by
      rw [hqueue]
      exact List.mem_append_right _ List.mem_cons_self
    obtain ⟨job, hj, -, hjob⟩ := Server.mem_queueOf.mp hmem
    -- the client has read a reply off what was written for the last request
    have hsettled : Settled c.net.server.jobs w e := by
      have hspoken := h.speaks.spoken _ _ hj
      generalize hwe : w e.2 = bytes at hlast hspoken
      cases hspoken with
      | silent =>
        rw [List.map_cons] at hlast
        cases TCPDriverComm.eq_nil_of_readReplies_nil hlast
      | @replying data _ hexpects' hfit hpre hover =>
        rw [hjob] at hfit
        by_cases hwhole : bytes = TCPDriverComm.replyFrame data
        · refine ⟨?_, fun job' hj' => ?_⟩
          · rw [TCPDriverComm.Settles, if_pos hexpects]
            exact ⟨data, hfit, hwe.trans hwhole⟩
          · obtain rfl := Option.some.inj (hj'.symm.trans hj)
            exact hover hwhole
        · rw [List.map_cons, TCPDriverComm.readReplies,
            TCPDriverComm.decodeReply_eq_none hfit.repliesTo.type hfit.len_lt hpre hwhole] at hlast
          cases hlast
    refine ⟨fun e' he' => ?_, [], fun r hr => absurd hr List.not_mem_nil, hpart, ?_⟩
    · rw [hqueue] at he'
      rcases List.mem_append.mp he' with he' | he'
      · exact hdone e' he'
      · rw [List.mem_singleton.mp he']
        exact hsettled
    · rw [hempty, hpart']
      rfl

end Answered

section Steps

variable {s s' : Networked Ans σ} {w w' : Nat → List Byte} {id : Nat}

/-- A step that leaves the queue and the stream of a connection alone. -/
theorem Turn.congr {rest : List Byte} (h : Turn s w id rest)
    (hq : Server.queueOf id s'.server.jobs = Server.queueOf id s.server.jobs)
    (hsettled : ∀ e ∈ Server.queueOf id s.server.jobs, Settled s.server.jobs w e → Settled s'.server.jobs w' e)
    (hclosed : s'.closed id = s.closed id)
    (hserves : ∀ fd, rest = [] → s.closed id = false → s.Connects fd id → s.server.LeavesPolled {fd} →
      s'.Connects fd id ∧ s'.server.LeavesPolled {fd}) : Turn s' w' id rest := by
  cases h with
  | idle hdone hrest =>
    refine .idle (fun e he => ?_) (by rwa [hclosed])
    rw [hq] at he
    exact hsettled e he (hdone e he)
  | serving hqueue hdone hexpects hopen hrest hconnects hspares =>
    obtain ⟨hconnects', hspares'⟩ := hserves _ hrest hopen hconnects hspares
    refine .serving (hq.trans hqueue) (fun e he => hsettled e ?_ (hdone e he)) hexpects (hclosed.trans hopen) hrest
      hconnects' hspares'
    rw [hqueue]
    exact List.mem_append_left _ he

variable {R : Environment Op Ans σ} {S : IStorage Op Ans} {c : Conversation Ans σ} {tr : List (NetworkAction Ans)}
  {act : NetworkAction Ans} {rest rest' : Nat → List Byte}

theorem Orderly.next (h : Orderly tr c rest w) (hf' : s'.Framed (tr ++ [act]) rest') (hsp' : s'.server.Speaks w')
    (hreceived : ∀ id, c.received id ++ c.net.sends id act =
      (Server.queueOf id s'.server.jobs).flatMap fun e => w' e.2)
    (hturn : ∀ id, Turn s' w' id (rest' id ++ s'.inbox id)) : Orderly (tr ++ [act]) (c.after act s') rest' w' where
  framed := hf'
  speaks := hsp'
  sent id := by
    rw [Networked.arrived_snoc, ← h.sent id]
    rfl
  received := hreceived
  turn := hturn

/-- A step that queues nothing, and brings nothing to a connection. -/
theorem Orderly.quiet (h : Orderly tr c rest w) (hf' : s'.Framed (tr ++ [act]) rest') (hsp' : s'.server.Speaks w')
    (hbrings : ∀ id, act.brings id = [])
    (hident : s'.server.jobs.map Job.ident = c.net.server.jobs.map Job.ident) (hclosed : s'.closed = c.net.closed)
    (hsettled : ∀ e, Settled c.net.server.jobs w e → Settled s'.server.jobs w' e)
    (hreceived : ∀ id, c.received id ++ c.net.sends id act =
      (Server.queueOf id c.net.server.jobs).flatMap fun e => w' e.2)
    (hserves : ∀ fd id, c.net.inbox id = [] → c.net.closed id = false → c.net.Connects fd id →
      c.net.server.LeavesPolled {fd} → s'.Connects fd id ∧ s'.server.LeavesPolled {fd}) :
    Orderly (tr ++ [act]) (c.after act s') rest' w' := by
  refine h.next hf' hsp' (fun id => ?_) fun id => ?_
  · rw [hreceived, Server.queueOf_congr hident]
  · rw [h.framed.rest_eq hf' (Server.requestsFrom_congr hident), hbrings, List.append_nil]
    refine (h.turn id).congr (Server.queueOf_congr hident) (fun e _ => hsettled e) (by rw [hclosed]) fun fd hempty => ?_
    exact hserves fd id (List.append_eq_nil_iff.mp hempty).2

/-- The client sends. -/
theorem Orderly.arrive {id : Nat} {bytes part : List Byte} (h : Orderly tr c rest w)
    (hopen : c.net.closed id = false) (ha : c.Answered id part) (hpending : Pending True (part ++ bytes))
    (hf' : Networked.Framed (tr ++ [.arrive id bytes])
      { c.net with inbox := Function.update c.net.inbox id (c.net.inbox id ++ bytes) } rest') :
    Orderly (tr ++ [.arrive id bytes]) (c.after (.arrive id bytes)
      { c.net with inbox := Function.update c.net.inbox id (c.net.inbox id ++ bytes) }) rest' w := by
  refine h.next hf' h.speaks (fun id' => ?_) fun id' => ?_
  · rw [← h.received]
    exact List.append_nil _
  · rw [h.framed.rest_eq hf' rfl, NetworkAction.brings]
    by_cases hid : id = id'
    · subst hid
      obtain ⟨hdone, more, hmore, -, hrest⟩ := h.answered ha
      rw [if_pos rfl, hrest, List.append_assoc]
      exact .idle hdone ((hpending.mono fun _ => hopen).append hmore)
    · rw [if_neg hid, List.append_nil]
      exact (h.turn id').congr rfl (fun _ _ he => he) rfl fun fd _ _ hc hp => ⟨hc, hp⟩

/-- The client leaves. -/
theorem Orderly.close {id : Nat} {part : List Byte} (h : Orderly tr c rest w) (ha : c.Answered id part)
    (hf' : Networked.Framed (tr ++ [.close id]) { c.net with closed := Function.update c.net.closed id true } rest') :
    Orderly (tr ++ [.close id]) (c.after (.close id)
      { c.net with closed := Function.update c.net.closed id true }) rest' w := by
  refine h.next hf' h.speaks (fun id' => ?_) fun id' => ?_
  · rw [← h.received]
    exact List.append_nil _
  · rw [h.framed.rest_eq hf' rfl, show (NetworkAction.close id : NetworkAction Ans).brings id' = [] from rfl,
      List.append_nil]
    by_cases hid : id' = id
    · subst hid
      obtain ⟨hdone, more, hmore, hpart, hrest⟩ := h.answered ha
      rw [show ({ c.net with closed := Function.update c.net.closed id' true } : Networked Ans σ).inbox id' =
        c.net.inbox id' from rfl, hrest]
      exact .idle hdone ((Pending.part hpart).append hmore)
    · exact (h.turn id').congr rfl (fun _ _ he => he) (Function.update_of_ne hid ..) fun fd _ _ hc hp => ⟨hc, hp⟩

/-- A request is queued. -/
theorem Orderly.queue {request : DriverData} {job : Job Ans} (h : Orderly tr c rest w)
    (hf' : s'.Framed (tr ++ [act]) rest') (hsp' : s'.server.Speaks w) (hbrings : ∀ id, act.brings id = [])
    (hsends : ∀ id, c.net.sends id act = [])
    (hconnects : c.net.Connects request.sourceFd id) (horigin : job.origin = some (.connection id))
    (hrequest : job.request = request) (hfds : s'.server.kernel.fds = c.net.server.kernel.fds)
    (hclosed : s'.closed = c.net.closed) (hjobs : s'.server.jobs = c.net.server.jobs ++ [job])
    (hsilent : request.type.expectsReply = false → ∀ o k, job.prog ≠ .call o k)
    (hspares : ∀ E, s'.server.LeavesPolled E) : Orderly (tr ++ [act]) (c.after act s') rest' w := by
  have hlt : ∀ {id e}, e ∈ Server.queueOf id c.net.server.jobs → e.2 < c.net.server.jobs.length := by
    intro id e he
    obtain ⟨job, hj, -⟩ := Server.mem_queueOf.mp he
    exact (List.getElem?_eq_some_iff.mp hj).1
  -- nothing has been written for the new job
  have hnew : w c.net.server.jobs.length = [] := h.speaks.unborn _ le_rfl
  have hsettled : ∀ {id e}, e ∈ Server.queueOf id c.net.server.jobs → Settled c.net.server.jobs w e →
      Settled s'.server.jobs w e := by
    intro id e he hs
    refine ⟨hs.settles, fun job' hj' => hs.done job' ?_⟩
    rwa [hjobs, List.getElem?_append_left (hlt he)] at hj'
  have hother : ∀ id', id' ≠ id → job.origin ≠ some (.connection id') := by
    intro id' hne hid'
    cases horigin.symm.trans hid'
    exact hne rfl
  refine h.next hf' hsp' (fun id' => ?_) fun id' => ?_
  · rw [hsends, List.append_nil, hjobs, h.received]
    by_cases hid : id' = id
    · subst hid
      rw [Server.queueOf_concat_self horigin, List.flatMap_append, List.flatMap_singleton, hnew, List.append_nil]
    · rw [Server.queueOf_concat_of_ne (hother id' hid)]
  · by_cases hid : id' = id
    · subst hid
      obtain ⟨r, fd, hr, hrest⟩ := h.framed.rest_queue hf' (hbrings id') (by
        rw [hjobs, Server.requestsFrom_concat_self horigin, hrequest])
      have hqueue : Server.queueOf id' s'.server.jobs =
          Server.queueOf id' c.net.server.jobs ++ [(request, c.net.server.jobs.length)] := by
        rw [hjobs, Server.queueOf_concat_self horigin, hrequest]
      have hexpects : request.type.expectsReply = r.expects := by
        rw [hr]
        rfl
      cases h.turn id' with
      | idle hdone hpending =>
        rw [hrest] at hpending
        obtain ⟨hr, hempty, hopen⟩ | ⟨hr, hpending⟩ := hpending.bytes_inv
        · -- its client waits for the reply
          refine .serving hqueue (fun e he => hsettled he (hdone e he)) (hexpects.trans hr) ?_ hempty ?_ (hspares _)
          · rw [hclosed]
            exact hopen
          · rw [Networked.Connects, hfds]
            exact hconnects
        · refine .idle (fun e he => ?_) (by rwa [hclosed])
          rw [hqueue] at he
          rcases List.mem_append.mp he with he | he
          · exact hsettled he (hdone e he)
          · obtain rfl := List.mem_singleton.mp he
            refine ⟨?_, fun job' hj' => ?_⟩
            · rw [TCPDriverComm.Settles, if_neg (by rw [hexpects, hr]; exact Bool.false_ne_true)]
              exact hnew
            · rw [hjobs, List.getElem?_concat_length] at hj'
              obtain rfl := Option.some.inj hj'
              exact hsilent (hexpects.trans hr)
      | serving _ _ _ _ hempty =>
        rw [hrest] at hempty
        exact absurd (List.append_eq_nil_iff.mp hempty).1 r.bytes_ne_nil
    · rw [h.framed.rest_eq hf' (by rw [hjobs, Server.requestsFrom_concat_of_ne (hother id' hid)]), hbrings,
        List.append_nil]
      refine (h.turn id').congr ?_ (fun e => hsettled) (by rw [hclosed]) fun fd _ _ hc _ => ⟨?_, hspares _⟩
      · rw [hjobs, Server.queueOf_concat_of_ne (hother id' hid)]
      · rwa [Networked.Connects, hfds]

/-- A worker goes on with a job; its connection is being served. -/
theorem Orderly.serving_of_call {i : Nat} {job : Job Ans} {o : JobCall Op}
    {k : JobCall.Answer Ans o → Prog (JobCall Op) (JobCall.Answer Ans) (Except String Unit)}
    (h : Orderly tr c rest w) (hj : c.net.server.jobs[i]? = some job) (hp : job.prog = .call o k) :
    ∃ id front, Server.queueOf id c.net.server.jobs = front ++ [(job.request, i)] ∧ (∀ e ∈ front, e.2 ≠ i) ∧
      c.net.Connects job.request.sourceFd id := by
  obtain ⟨id, hid⟩ := h.framed.streams.origin job (List.mem_of_getElem? hj)
  have hmem : (job.request, i) ∈ Server.queueOf id c.net.server.jobs := Server.mem_queueOf.mpr ⟨job, hj, hid, rfl⟩
  have hne : ∀ e, Settled c.net.server.jobs w e → e.2 ≠ i := by
    rintro e hs rfl
    exact hs.done job hj o k hp
  cases h.turn id with
  | idle hdone => exact absurd rfl (hne _ (hdone _ hmem))
  | @serving front e hqueue hdone _ _ _ hconnects =>
    rw [hqueue] at hmem
    rcases List.mem_append.mp hmem with hmem | hmem
    · exact absurd rfl (hne _ (hdone _ hmem))
    · obtain rfl := List.mem_singleton.mp hmem
      exact ⟨id, front, hqueue, fun e he => hne e (hdone e he), hconnects⟩

/-- What a settled job has written stays, when another one goes on. -/
theorem Settled.set {jobs : List (Job Ans)} {e : DriverData × Nat} {i : Nat} {job : Job Ans} {o : JobCall Op}
    {k : JobCall.Answer Ans o → Prog (JobCall Op) (JobCall.Answer Ans) (Except String Unit)} (h : Settled jobs w e)
    (hj : jobs[i]? = some job) (hp : job.prog = .call o k) (hw : ∀ j, j ≠ i → w' j = w j) (job' : Job Ans) :
    Settled (jobs.set i job') w' e := by
  have hne : e.2 ≠ i := by
    rintro rfl
    exact h.done job hj o k hp
  refine ⟨?_, fun job₁ hj₁ => h.done job₁ ?_⟩
  · rw [hw _ hne]
    exact h.settles
  · rwa [List.getElem?_set_ne hne.symm] at hj₁

/-- A call of the reactor thread that queues nothing. -/
theorem Orderly.call {o : ServerCall} {a : o.Answer} {kernel : Kernel} {server : Server Ans σ}
    {inbox : Nat → List Byte} {k : o.Answer → ServerProg (Except String Unit)} (h : Orderly tr c rest w)
    (hn : c.net.server.notify = .call o k) (hk : c.net.server.kernel.answer o a = some kernel)
    (hf' : Networked.Framed (tr ++ [.server (.reactor ⟨o, a⟩)]) { c.net with server := server, inbox := inbox } rest')
    (hsp' : server.Speaks w) (hkernel : server.kernel = kernel) (hnotify : server.notify = k a)
    (hjobs : server.jobs = c.net.server.jobs) :
    Orderly (tr ++ [.server (.reactor ⟨o, a⟩)])
      (c.after (.server (.reactor ⟨o, a⟩)) { c.net with server := server, inbox := inbox }) rest' w := by
  refine h.quiet hf' hsp' (fun _ => rfl) (by rw [hjobs]) rfl (fun e he => ?_) (fun id => ?_) fun fd id _ _ hc hp => ?_
  · rwa [hjobs]
  · rw [← h.received]
    exact List.append_nil _
  · -- the descriptor that is being served is not closed
    obtain ⟨ho, hspares⟩ := hp.call (a := a) hn
    refine ⟨?_, ?_⟩
    · rw [Networked.Connects, hkernel]
      exact (Kernel.effect_of_answer hk).refers hc (ho fd rfl).1
    · rw [Server.LeavesPolled, hnotify]
      exact hspares

/-- A call of a worker to the driver. -/
theorem Orderly.work {i : Nat} {job : Job Ans} {o : ServerCall} {a : o.Answer} {driver : TCPDriverComm}
    {k : o.Answer → Prog (JobCall Op) (JobCall.Answer Ans) (Except String Unit)} (h : Orderly tr c rest w)
    (hj : c.net.server.jobs[i]? = some job) (hp : job.prog = .call (.server o) k)
    (hf' : Networked.Framed (tr ++ [.server (.worker i ⟨o, a⟩)])
      { c.net with server := { c.net.server.setJob i job (k a) with driver := driver } } rest')
    (hsp' : Server.Speaks { c.net.server.setJob i job (k a) with driver := driver } w')
    (hself : w' i = w i ++ accepted ⟨o, a⟩) (hw : ∀ j, j ≠ i → w' j = w j) :
    Orderly (tr ++ [.server (.worker i ⟨o, a⟩)]) (c.after (.server (.worker i ⟨o, a⟩))
      { c.net with server := { c.net.server.setJob i job (k a) with driver := driver } }) rest' w' := by
  refine h.quiet hf' hsp' (fun _ => rfl) (Server.map_ident_set hj _) rfl (fun e he => he.set hj hp hw _) (fun id => ?_)
    fun fd id _ _ hc hp => ⟨hc, hp⟩
  obtain ⟨id₀, front, hqueue, hfront, hconnects⟩ := h.serving_of_call hj hp
  obtain ⟨buf, rfl⟩ := h.speaks.writes i job o k hj hp
  unfold Networked.Connects at hconnects
  rw [h.received, Networked.sends]
  by_cases hid : id = id₀
  · -- the bytes go to the client that waits for them
    subst hid
    rw [if_pos hconnects, hqueue, List.flatMap_append, List.flatMap_append, List.flatMap_singleton,
      List.flatMap_singleton, hself, List.append_assoc,
      List.flatMap_congr fun e he => (hw e.2 (hfront e he)).symm]
  · rw [if_neg, List.append_nil]
    · refine List.flatMap_congr fun e he => (hw e.2 ?_).symm
      rintro rfl
      obtain ⟨job', hj', horigin, -⟩ := Server.mem_queueOf.mp he
      obtain rfl := Option.some.inj (hj.symm.trans hj')
      have hmem : (job.request, e.2) ∈ Server.queueOf id₀ c.net.server.jobs := by
        rw [hqueue]
        exact List.mem_append_right _ List.mem_cons_self
      obtain ⟨job', hj', horigin', -⟩ := Server.mem_queueOf.mp hmem
      obtain rfl := Option.some.inj (hj.symm.trans hj')
      cases horigin.symm.trans horigin'
      exact hid rfl
    · intro hc
      cases hc.symm.trans hconnects
      exact hid rfl

/-- One step of the server. -/
theorem Orderly.server {act : Action Ans} {server : Server Ans σ} {inbox : Nat → List Byte}
    (h : Orderly tr c rest w) (hd : c.net.deliver act = some inbox) (hs : Server.Step R S c.net.server act server)
    (hf' : Networked.Framed (tr ++ [.server act]) { c.net with server := server, inbox := inbox } rest')
    (hsp' : server.Speaks w') (hw : ∀ i, w' i = w i ++ act.writtenBy i) :
    Orderly (tr ++ [.server act])
      (c.after (.server act) { c.net with server := server, inbox := inbox }) rest' w' := by
  have hnil : ∀ bytes : List Byte, bytes ++ [] = bytes := List.append_nil
  cases hs with
  | @event fd hidle hfd =>
    obtain rfl : w' = w := funext fun i => (hw i).trans (hnil _)
    refine h.quiet hf' hsp' (fun _ => rfl) rfl rfl (fun _ he => he) (fun id => ?_) fun fd' id hempty hopen hc _ =>
      ⟨hc, ?_⟩
    · rw [← h.received]
      exact hnil _
    · -- the socket of a client that waits has no event
      refine Server.sparing_notify (fun hmem => ?_) _
      obtain rfl := Set.mem_singleton_iff.mp hmem
      rw [Networked.deliver, show c.net.server.kernel.fds fd = some (.connection id) from hc] at hd
      simp only [hempty, hopen, and_self, if_true] at hd
      cases hd
  | @reactor s₁ o a k hn ha =>
    obtain rfl : w' = w := funext fun i => (hw i).trans (hnil _)
    obtain ⟨kernel, driver, hk, -, rfl⟩ := Server.answer_inv ha
    cases o with
    | addCommand request =>
      obtain rfl := Option.some.inj hk
      obtain ⟨id, hconnects, hfrom, hspares⟩ := h.framed.queues hn
      exact h.queue hf' hsp' (fun _ => rfl) (fun _ => rfl) hconnects hfrom rfl rfl rfl rfl
        (fun hsilent => Server.not_call_of_silent S _ hsilent) hspares
    | _ => exact h.call hn hk hf' hsp' rfl rfl rfl
  | @worker s₁ i job o a k hj hp ha =>
    obtain ⟨kernel, driver, hk, -, rfl⟩ := Server.answer_inv ha
    obtain rfl := h.framed.writers.effect hj hp hk
    obtain ⟨buf, rfl⟩ := h.speaks.writes i job o k hj hp
    obtain rfl := Option.some.inj hd
    refine h.work hj hp hf' hsp' ?_ fun j hne => ?_
    · rw [hw, Action.writtenBy, if_pos rfl]
    · rw [hw, Action.writtenBy, if_neg hne.symm, hnil]
  | @storage st i job o a k hj hp hR =>
    obtain rfl : w' = w := funext fun i => (hw i).trans (hnil _)
    refine h.quiet hf' hsp' (fun _ => rfl) (Server.map_ident_set hj _) rfl (fun e he => he.set hj hp (fun _ _ => rfl) _)
      (fun id => ?_) fun fd id _ _ hc hp => ⟨hc, hp⟩
    rw [← h.received]
    exact hnil _
  | openFile hfree =>
    obtain rfl : w' = w := funext fun i => (hw i).trans (hnil _)
    refine h.quiet hf' hsp' (fun _ => rfl) rfl rfl (fun _ he => he) (fun id => ?_) fun fd id _ _ hc hp =>
      ⟨Kernel.refers_openAt hc hfree, hp⟩
    rw [← h.received]
    exact hnil _
  | @closeFile fd' id' hfile =>
    obtain rfl : w' = w := funext fun i => (hw i).trans (hnil _)
    refine h.quiet hf' hsp' (fun _ => rfl) rfl rfl (fun _ he => he) (fun id => ?_) fun fd id _ _ hc hp => ⟨?_, hp⟩
    · rw [← h.received]
      exact hnil _
    · have hne : fd ≠ fd' := by
        rintro rfl
        cases hfile.symm.trans hc
      exact (Kernel.fds_closeAt_of_ne _ hne).trans hc

end Steps

end Conversation

/-! ## Runs -/

section Runs

variable {R : Environment Op Ans σ} {S : IStorage Op Ans} {A A₁ A₂ : (o : Op) → Ans o → Prop}

/-- What the storage's parts of the commands return, in a run over a storage whose replies fit. -/
theorem Server.Pooled.replies (hS : S.Keeps A) (hS₁ : S.Fills A₁) (hS₂ : S.Fits A₂)
    (hR : ∀ st o a st', R st o a st' → (A o a ∧ A₁ o a) ∧ A₂ o a) {st₀ : σ} {tr : List (Action Ans)} {s : Server Ans σ}
    {T : Nat → Prog Op Ans (Except String (Option DriverData))} (h : Pooled R S st₀ tr s T)
    (hframe : ∀ job ∈ s.jobs, ∃ (r : TCPDriverComm.RequestFrame) (fd : Int), job.request = r.data fd) (i : Nat) :
    Prog.Obeys (.plain (fun o a => (A o a ∧ A₁ o a) ∧ A₂ o a) (fun _ => True) True)
      (fun _ r => ∀ job, s.jobs[i]? = some job → ∀ data, r = .ok (some data) →
        job.request.type.expectsReply ∧ FitReply job.request data) () (T i) := by
  have hprograms : ∀ i, Prog.Obeys (.plain (fun o a => (A o a ∧ A₁ o a) ∧ A₂ o a) (fun _ => True) True)
      (fun _ r => ∀ job, s.jobs[i]? = some job → ∀ data, r = .ok (some data) →
        job.request.type.expectsReply ∧ FitReply job.request data) () (programs S s.jobs i) := by
    intro i
    rw [programs]
    split
    · rename_i job hj
      obtain ⟨r, fd, hr⟩ := hframe job (List.mem_of_getElem? hj)
      have hlen : job.request.buffer.length = job.request.len ∧ job.request.len < 2 ^ 32 := by
        rw [hr]
        exact ⟨r.length_buffer fd, r.len_lt⟩
      refine (InputMediator.obeys_outcome hS hS₁ hS₂ hlen.1 hlen.2).mono fun _ _ hfit job' hj' => ?_
      obtain rfl := Option.some.inj (hj.symm.trans hj')
      exact hfit
    · rename_i hj
      refine .ret fun job hj' => ?_
      cases hj.symm.trans hj'
  obtain ⟨-, hT⟩ := h.run.keeps (I := fun _ => True) (P := fun _ => True) trivial
    (fun st o a st' _ _ hr => ⟨hR st o a st' hr, trivial⟩) hprograms
  exact hT i

/-- What the workers have written, in a run over a storage whose replies fit. -/
theorem Server.Pooled.speaks (hS : S.Keeps A) (hS₁ : S.Fills A₁) (hS₂ : S.Fits A₂)
    (hR : ∀ st o a st', R st o a st' → (A o a ∧ A₁ o a) ∧ A₂ o a) {st₀ : σ} {tr : List (Action Ans)} {s : Server Ans σ}
    {T : Nat → Prog Op Ans (Except String (Option DriverData))} (h : Pooled R S st₀ tr s T)
    (hframe : ∀ job ∈ s.jobs, ∃ (r : TCPDriverComm.RequestFrame) (fd : Int), job.request = r.data fd) :
    s.Speaks fun i => written i tr := by
  have hT := h.replies hS hS₁ hS₂ hR hframe
  refine ⟨fun i job hj => ?_, fun i job o k hj hp => ?_, fun i hi => (h.unborn i hi).2⟩
  · exact (h.job i job hj).spoken ((hT i).mono fun _ _ hq => hq job hj)
  · exact (h.job i job hj).writes ((hT i).mono fun _ _ hq => hq job hj) hp

/-- The steps of the server in a run of the network. -/
def Networked.serverActions (tr : List (NetworkAction Ans)) : List (Action Ans) := tr.filterMap NetworkAction.server?

theorem Networked.serverActions_snoc_none {tr : List (NetworkAction Ans)} {act : NetworkAction Ans}
    (h : act.server? = none) : serverActions (tr ++ [act]) = serverActions tr := by
  simp [serverActions, List.filterMap_append, h]

theorem Networked.serverActions_snoc_server {tr : List (NetworkAction Ans)} {act : Action Ans} :
    serverActions (tr ++ [.server act]) = serverActions tr ++ [act] := by
  simp [serverActions, List.filterMap_append, NetworkAction.server?]

theorem Networked.trace_server {s₀ s : Networked Ans σ} {tr : List (NetworkAction Ans)}
    (hr : Trace (Networked.Step R S) s₀ tr s) : Trace (Server.Step R S) s₀.server (serverActions tr) s.server := by
  induction hr with
  | nil => exact .nil
  | snoc hr hs ih =>
    cases hs with
    | arrive =>
      rw [serverActions_snoc_none rfl]
      exact ih
    | close =>
      rw [serverActions_snoc_none rfl]
      exact ih
    | server hd hs =>
      rw [serverActions_snoc_server]
      exact .snoc ih hs

namespace Conversation

variable {server₀ : Server Ans σ} {c : Conversation Ans σ} {tr : List (NetworkAction Ans)}

/-- The conversations of clients that wait. -/
theorem Orderly.run (hS : S.Keeps A) (hS₁ : S.Fills A₁) (hS₂ : S.Fits A₂)
    (hR : ∀ st o a st', R st o a st' → (A o a ∧ A₁ o a) ∧ A₂ o a) (h₀ : server₀.Started)
    (hnone : ∀ fd id, server₀.kernel.fds fd ≠ some (.connection id))
    (hr : Trace (Where Synchronous (Step R S)) (start server₀) tr c) :
    Trace (Networked.Step R S) (.start server₀) tr c.net ∧
      ∃ rest, Orderly tr c rest fun i => Server.written i (Networked.serverActions tr) := by
  induction hr with
  | nil =>
    have hjobs : (Networked.start server₀ : Networked Ans σ).server.jobs = [] := h₀.jobs
    have hqueue : ∀ id, Server.queueOf id (Networked.start server₀ : Networked Ans σ).server.jobs = [] := by
      intro id
      rw [hjobs]
      rfl
    refine ⟨.nil, _, Networked.framed_start h₀ hnone, ⟨fun i job hj => ?_, fun i job o k hj => ?_, fun _ _ => rfl⟩,
      fun _ => rfl, fun id => ?_, fun id => .idle (fun e he => ?_) (.part fun h => ?_)⟩
    · rw [show (start server₀ : Conversation Ans σ).net.server.jobs = [] from hjobs] at hj
      cases hj
    · rw [show (start server₀ : Conversation Ans σ).net.server.jobs = [] from hjobs] at hj
      cases hj
    · rw [show Server.queueOf id (start server₀ : Conversation Ans σ).net.server.jobs = [] from hqueue id]
      rfl
    · rw [show Server.queueOf id (start server₀ : Conversation Ans σ).net.server.jobs = [] from hqueue id] at he
      exact absurd he List.not_mem_nil
    · exact absurd h.1 (Nat.not_succ_le_zero _)
  | @snoc tr act c c' hr hs ih =>
    obtain ⟨hnet, rest, h⟩ := ih
    obtain ⟨hsync, s', hs, rfl⟩ := hs
    have hnet' := Trace.snoc hnet hs
    obtain ⟨rest', hf'⟩ := h.framed.step hs
    obtain ⟨T, hpooled⟩ := Server.Pooled.run_server h₀.jobs (Networked.trace_server hnet')
    have hsp' := hpooled.speaks hS hS₁ hS₂ hR fun job hmem => hf'.exists_frame hmem
    refine ⟨hnet', rest', ?_⟩
    cases hs with
    | @arrive id bytes hopen =>
      obtain ⟨part, ha, hpending⟩ := hsync
      rw [Networked.serverActions_snoc_none rfl]
      exact h.arrive hopen ha hpending hf'
    | @close id =>
      obtain ⟨part, ha⟩ := hsync
      rw [Networked.serverActions_snoc_none rfl]
      exact h.close ha hf'
    | server hd hs =>
      refine h.server hd hs hf' hsp' fun i => ?_
      rw [Networked.serverActions_snoc_server, Server.written_snoc]

/-- The replies are those to the requests, in their order; of the reply to the last one only `part` has come. -/
def InOrder (requests replies : List DriverData) (part : List Byte) : Prop :=
  List.Forall₂ FitReply requests replies ∧ part = [] ∨
    ∃ front last, requests = front ++ [last] ∧ List.Forall₂ FitReply front replies ∧
      (part = [] ∨ ∃ data, FitReply last data ∧ part <+: TCPDriverComm.replyFrame data)

/-- **Clients that wait for their replies get them**: each of them receives the replies to its own requests, as
whole frames and in their order, with at most one reply missing or incomplete, so that it can read them. That
holds whatever the other clients do as long as they wait for theirs, however the workers take turns, and also when
writes fail, or write a part only. -/
theorem replies_in_order (hS : S.Keeps A) (hS₁ : S.Fills A₁) (hS₂ : S.Fits A₂)
    (hR : ∀ st o a st', R st o a st' → (A o a ∧ A₁ o a) ∧ A₂ o a) (h₀ : server₀.Started)
    (hnone : ∀ fd id, server₀.kernel.fds fd ≠ some (.connection id))
    (hr : Trace (Where Synchronous (Step R S)) (start server₀) tr c) (id : Nat) :
    ∃ (fd : Int) (frames : List TCPDriverComm.RequestFrame) (rest part : List Byte) (replies : List DriverData),
      c.sent id = frames.flatMap TCPDriverComm.RequestFrame.bytes ++ rest ∧
      Server.requestsFrom id c.net.server.jobs = frames.map (TCPDriverComm.RequestFrame.data fd) ∧
      c.received id = replies.flatMap TCPDriverComm.replyFrame ++ part ∧
      InOrder (TCPDriverComm.toAnswer (frames.map (TCPDriverComm.RequestFrame.data fd))) replies part ∧
      TCPDriverComm.readReplies (replies.map DriverData.type) (c.received id) =
        some (replies.map TCPDriverComm.replyOf, part) := by
  obtain ⟨-, rest, h⟩ := Orderly.run hS hS₁ hS₂ hR h₀ hnone hr
  obtain ⟨fd, frames, harrived, hframes⟩ := h.framed.streams.stream id
  have htypes : ∀ {requests replies : List DriverData}, List.Forall₂ FitReply requests replies →
      requests.map DriverData.type = replies.map DriverData.type := by
    intro requests replies hfit
    induction hfit with
    | nil => rfl
    | cons hd _ ih => rw [List.map_cons, List.map_cons, hd.repliesTo.type, ih]
  have hqueue := hframes
  rw [Server.requestsFrom_eq] at hqueue
  cases h.turn id with
  | idle hdone hrest =>
    obtain ⟨replies, hfit, hw, hread⟩ := h.readReplies_front (List.append_nil _).symm hdone []
    rw [htypes hfit] at hread
    refine ⟨fd, frames, _, [], replies, (h.sent id).trans harrived, hframes, ?_, .inl ⟨?_, rfl⟩, ?_⟩
    · rw [h.received, hw, List.append_nil]
    · rwa [← hqueue]
    · rwa [h.received, ← List.append_nil (List.flatMap _ _)]
  | @serving front e hfront hdone hexpects hopen hrest hconnects hspares =>
    obtain ⟨replies, hfit, hw, hread⟩ := h.readReplies_front hfront hdone (Server.written e.2 (Networked.serverActions tr))
    rw [htypes hfit] at hread
    have hreceived : c.received id =
        front.flatMap (fun e => Server.written e.2 (Networked.serverActions tr)) ++
          Server.written e.2 (Networked.serverActions tr) := by
      rw [h.received, hfront, List.flatMap_append, List.flatMap_singleton]
    refine ⟨fd, frames, _, Server.written e.2 (Networked.serverActions tr), replies, (h.sent id).trans harrived,
      hframes, ?_, .inr ⟨_, e.1, ?_, hfit, ?_⟩, ?_⟩
    · rw [hreceived, hw]
    · rw [← hqueue, hfront, List.map_append, TCPDriverComm.toAnswer_append, List.map_singleton,
        TCPDriverComm.toAnswer_cons_of_pos hexpects]
      rfl
    · -- its worker has begun to write
      have hmem : e ∈ Server.queueOf id c.net.server.jobs := by
        rw [hfront]
        exact List.mem_append_right _ List.mem_cons_self
      obtain ⟨job, hj, -, hjob⟩ := Server.mem_queueOf.mp hmem
      rw [← hjob]
      have hspoken := h.speaks.spoken _ _ hj
      generalize Server.written e.2 (Networked.serverActions tr) = bytes at hspoken
      cases hspoken with
      | silent => exact .inl rfl
      | replying _ hfit hpre _ => exact .inr ⟨_, hfit, hpre⟩
    · rw [hreceived]
      exact hread

end Conversation

end Runs

/-! ## Runs by a function -/

namespace Conversation

/-- A step of a conversation by a function: one of the server, or that of the client `id`, which has the replies to
`frames` and sends `r`. -/
def exec (S : IStorage Op Ans) (c : Conversation Ans σ) : Action Ans ⊕ (Nat × List TCPDriverComm.RequestFrame ×
    TCPDriverComm.RequestFrame) → Option (Conversation Ans σ)
  | .inl act => (c.net.exec S (.server act)).map (c.after (.server act))
  | .inr (id, frames, r) =>
    if c.sent id = frames.flatMap TCPDriverComm.RequestFrame.bytes ∧ r.expects ∧
        (TCPDriverComm.readReplies (TCPDriverComm.asks frames) (c.received id)).map Prod.snd = some [] then
      (c.net.exec S (.arrive id r.bytes)).map (c.after (.arrive id r.bytes))
    else none

/-- The action of a step. -/
def action : Action Ans ⊕ (Nat × List TCPDriverComm.RequestFrame × TCPDriverComm.RequestFrame) → NetworkAction Ans
  | .inl act => .server act
  | .inr (id, _, r) => .arrive id r.bytes

theorem step_of_exec (R : Environment Op Ans σ) {S : IStorage Op Ans} {c c' : Conversation Ans σ}
    {x : Action Ans ⊕ (Nat × List TCPDriverComm.RequestFrame × TCPDriverComm.RequestFrame)}
    (h : c.exec S x = some c') : Where Synchronous (Step R S) c (action x) c' := by
  cases x with
  | inl act =>
    obtain ⟨net, hs, rfl⟩ := Option.map_eq_some_iff.mp h
    exact ⟨trivial, net, Networked.step_of_exec R hs, rfl⟩
  | inr e =>
    obtain ⟨id, frames, r⟩ := e
    simp only [exec, Option.ite_none_right_eq_some] at h
    obtain ⟨⟨hsent, hexpects, hread⟩, h⟩ := h
    obtain ⟨net, hs, rfl⟩ := Option.map_eq_some_iff.mp h
    obtain ⟨⟨replies, _⟩, hreplies, rfl⟩ := Option.map_eq_some_iff.mp hread
    refine ⟨⟨[], ⟨frames, ?_, fun h => absurd h.1 (Nat.not_succ_le_zero _), replies, hreplies⟩, ?_⟩, net,
      Networked.step_of_exec R hs, rfl⟩
    · rw [hsent, List.append_nil]
    · exact .asked hexpects trivial

theorem trace_of_execAll (R : Environment Op Ans σ) {S : IStorage Op Ans} {c c' : Conversation Ans σ}
    {sched : List (Action Ans ⊕ (Nat × List TCPDriverComm.RequestFrame × TCPDriverComm.RequestFrame))}
    (he : execAll (exec S) sched c = some c') : Trace (Where Synchronous (Step R S)) c (sched.map action) c' := by
  induction sched generalizing c with
  | nil =>
    obtain rfl := Option.some.inj he
    exact .nil
  | cons x sched ih =>
    obtain ⟨c₁, h₁, he⟩ := Option.bind_eq_some_iff.mp he
    exact .cons (step_of_exec R h₁) (ih he)

/-- The frame of the reply to a `FLUSH`. -/
def flushed : List Byte := bigEndian 4 0 ++ bigEndian 8 1 ++ bigEndian 4 0

/-- A `FLUSH` of the client on descriptor `fd` is received and queued. -/
def takes (fd : Int) : List (Action (RAIDCall.Answer (g := ⟨1, 4, Nat.one_pos⟩))) :=
  [.event fd, .reactor ⟨.read fd 24, .ok ⟨Networked.flush, Networked.length_flush_le⟩⟩,
    .reactor ⟨.addCommand { DriverData.new .flush 1 0 0 with sourceFd := fd }, ()⟩]

theorem ten_lt : 10 < flushed.length + 1 := by decide

/-- Two clients connect and send `r`; the reply to one comes in two pieces, and it sends `r` again. -/
def twoClients (r : TCPDriverComm.RequestFrame) : List (Action (RAIDCall.Answer (g := ⟨1, 4, Nat.one_pos⟩)) ⊕
    (Nat × List TCPDriverComm.RequestFrame × TCPDriverComm.RequestFrame)) :=
  [(Server.connects "10.0.0.1").map .inl,
    [.inl (.event 3), .inl (.reactor ⟨.accept 3, .ok (5, "10.0.0.2")⟩), .inl (.reactor ⟨.insertClient 5, ()⟩),
      .inl (.reactor ⟨.recordClientIP 5 "10.0.0.2", ()⟩), .inl (.reactor ⟨.epollAdd 5, true⟩)],
    [.inr (0, [], r)], (takes 4).map .inl, [.inr (1, [], r)], (takes 5).map .inl,
    [.inl (.worker 0 ⟨.write 4 flushed, .ok ⟨10, ten_lt⟩⟩), .inl (.worker 1 ⟨.write 5 flushed, .ok (Fin.last _)⟩),
      .inl (.worker 0 ⟨.write 4 (flushed.drop 10), .ok (Fin.last _)⟩)],
    [.inr (0, [r], r)], (takes 4).map .inl, [.inl (.worker 2 ⟨.write 4 flushed, .ok ⟨10, ten_lt⟩⟩)]].flatten

/-- Two clients: the reply to one comes in two pieces, with the reply to the other in between; then the first one
sends another request, of whose reply it has the first bytes. -/
theorem replies_in_order_two_clients : ∃ tr c,
    Trace (Where Synchronous (Step (fun s o a s' => RAIDStorage.Answers s o a s' ∧ RAIDStorage.Brief o a)
        (RAIDStorage.toIStorage _))) (start Server.small) tr c ∧
      c.received 0 = flushed ++ flushed.take 10 ∧ c.received 1 = flushed ∧
      ∃ (fd : Int) (frames : List TCPDriverComm.RequestFrame) (rest part : List Byte) (replies : List DriverData),
        c.sent 0 = frames.flatMap TCPDriverComm.RequestFrame.bytes ++ rest ∧
        Server.requestsFrom 0 c.net.server.jobs = frames.map (TCPDriverComm.RequestFrame.data fd) ∧
        c.received 0 = replies.flatMap TCPDriverComm.replyFrame ++ part ∧
        InOrder (TCPDriverComm.toAnswer (frames.map (TCPDriverComm.RequestFrame.data fd))) replies part ∧
        TCPDriverComm.readReplies (replies.map DriverData.type) (c.received 0) =
          some (replies.map TCPDriverComm.replyOf, part) := by
  obtain ⟨r, hexec⟩ : ∃ r : TCPDriverComm.RequestFrame,
      (execAll (exec (RAIDStorage.toIStorage _)) (twoClients r) (start Server.small)).map
      (fun c => decide (c.received 0 = flushed ++ flushed.take 10 ∧ c.received 1 = flushed)) = some true := by
    refine ⟨⟨3, 1, 0, 0, [], ?_, ?_, ?_, ?_, rfl⟩, ?_⟩ <;> decide +kernel
  obtain ⟨c, he, hc⟩ := Option.map_eq_some_iff.mp hexec
  obtain ⟨hfirst, hsecond⟩ := of_decide_eq_true hc
  have hrun := trace_of_execAll
    (fun s o a s' => RAIDStorage.Answers s o a s' ∧ RAIDStorage.Brief o a) he
  refine ⟨_, c, hrun, hfirst, hsecond, replies_in_order (RAIDStorage.keeps _) (RAIDStorage.fills _)
    (RAIDStorage.fits _) (fun s o a s' hR => ⟨⟨trivial, ?_⟩, hR.2⟩) (Server.started_start ..)
    (Server.not_connection_start _ _ _) hrun 0⟩
  cases o with
  | minionRead i offset buf => exact (RAIDStorage.answers_minionRead hR.1).2.1
  | _ => trivial

end Conversation

end LDS
