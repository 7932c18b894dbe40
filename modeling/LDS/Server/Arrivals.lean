import LDS.Server.ListenSocket
import LDS.Server.RequestFrames

/-!
# What has arrived

The sockets of the clients are blocking: a `read` waits until a byte has come, or the peer has closed.
`epoll_wait` tells of a client as soon as there is one byte to read, and `ReceiveRequest` then reads a whole
request. The reactor thread waits for a client whose request has come in part only, and for no other one.

## Main definitions

* `Networked`: a server, with the bytes that wait on its connections
* `Networked.Step`: bytes arrive, peers close, and the server takes its steps
* `HoldsRequest bytes`: the bytes begin with a complete request
* `Networked.complete`: at an event, the request that it tells of has arrived as a whole
* `TCPDriverComm.receiving fd`: the contract of `Notify`, with the bytes that it has read

## Main results

* `Networked.Supplied.run`: what is still to be read of a request is there
* `Networked.never_waits`: the reactor thread does not wait, as long as requests arrive as a whole
-/

namespace LDS

open Memory

/-- The bytes begin with a complete request: a header, and the payload that a `WRITE` announces. -/
def HoldsRequest (bytes : List Byte) : Prop :=
  24 ≤ bytes.length ∧
    (ofBigEndian (slice bytes 0 4) = 1 → 24 + ofBigEndian (slice bytes 20 4) ≤ bytes.length)

instance (bytes : List Byte) : Decidable (HoldsRequest bytes) :=
  inferInstanceAs (Decidable (24 ≤ bytes.length ∧
    (ofBigEndian (slice bytes 0 4) = 1 → 24 + ofBigEndian (slice bytes 20 4) ≤ bytes.length)))

/-- More bytes do no harm. -/
theorem HoldsRequest.append {bytes : List Byte} (h : HoldsRequest bytes) (more : List Byte) :
    HoldsRequest (bytes ++ more) := by
  obtain ⟨hl, hp⟩ := h
  rw [HoldsRequest, slice_append_left (by omega), slice_append_left (by omega), List.length_append]
  exact ⟨by omega, fun hw => (hp hw).trans (Nat.le_add_right _ _)⟩

/-! ## What `Notify` reads -/

namespace TCPDriverComm

/-- The contract of `Notify` for `fd`: it reads from `fd` only, and asks for no more than what is missing of
the request. Its phase is what it has read. -/
def receiving (fd : Int) : Prog.Contract ServerCall ServerCall.Answer (List Byte) where
  answers _ _ _ := True
  calls
    | y, .read fd' n => fd' = fd ∧ 0 < n ∧ ∀ more, HoldsRequest (y ++ more) → n ≤ more.length
    | _, .accept fd' => fd' = fd
    | _, _ => True
  next
    | y, .read _ _, .ok bytes => y ++ bytes.1
    | y, _, _ => y
  mayAbort := False

variable {failed : String → String} {text : String} {fd l : Int} {y : List Byte}

/-- `ReadAll` reads what is missing. -/
theorem obeys_readAll_receiving {count : Nat} (h : ∀ more, HoldsRequest (y ++ more) → count ≤ more.length) :
    Prog.Obeys (receiving fd) (fun z r => ∀ bytes, r = .ok bytes → z = y ++ bytes ∧ bytes.length = count) y
      (LDS.readAll failed text fd count) := by
  induction count using Nat.strong_induction_on generalizing y with
  | _ count ih =>
    rw [LDS.readAll]
    split
    · refine .call ⟨rfl, ‹_›, h⟩ ?_
      rintro (errno | ⟨_ | ⟨b, bytes⟩, hlen⟩) -
      · exact .ret fun _ hb => by cases hb
      · exact .ret fun _ hb => by cases hb
      · -- the bytes that have come are no longer missing
        simp only [List.length_cons] at hlen ⊢
        refine (ih (count - (bytes.length + 1)) (by omega) (y := y ++ b :: bytes) fun more hm => ?_).bind ?_
        · have := h (b :: bytes ++ more) (by rwa [← List.append_assoc])
          simp only [List.length_append, List.length_cons] at this
          omega
        · rintro z (what | rest) hz
          · exact .ret fun _ hb => by cases hb
          · refine .ret fun _ hb => ?_
            obtain rfl := Except.ok.inj hb
            obtain ⟨rfl, hl⟩ := hz rest rfl
            refine ⟨by simp, ?_⟩
            simp only [List.length_append, List.length_cons]
            omega
    · refine .ret fun _ hb => ?_
      obtain rfl := Except.ok.inj hb
      exact ⟨by simp, by simp; omega⟩

theorem obeys_receiveRequest_receiving (fd : Int) :
    Prog.Obeys (receiving fd) (fun _ _ => True) [] (receiveRequest fd) := by
  refine (obeys_readAll_receiving fun more hm => hm.1).bind ?_
  rintro z (what | header) hheader
  · exact .ret trivial
  have hl := (hheader header rfl).2
  obtain rfl : header = z := by rw [(hheader header rfl).1, List.nil_append]
  dsimp only
  split
  · rename_i hwrite
    have hcode : ofBigEndian (slice header 0 4) = 1 := ActionType.ofCode_eq_write.mp hwrite
    refine (obeys_readAll_receiving fun more hm => ?_).bind ?_
    · -- the payload that the header announces
      rw [HoldsRequest, slice_append_left (by omega), slice_append_left (by omega),
        List.length_append] at hm
      have := hm.2 hcode
      omega
    · rintro _ (what | payload) -
      · exact .ret trivial
      · exact .call trivial fun _ _ => .call trivial fun _ _ => .ret trivial
  · exact .ret trivial

/-- `Notify` reads one request, and no more. -/
theorem obeys_notify_receiving (l fd : Int) :
    Prog.Obeys (receiving fd) (fun _ _ => True) [] (InputMediator.notify (toIDriverComm l) fd) := by
  have haccept : Prog.Obeys (receiving fd) (fun z _ => z = []) [] (tryAccept l fd) :=
    obeys_tryAccept (fun hfd => .stay (fun _ _ => hfd.symm) fun _ _ _ => rfl)
      (fun _ => .stay (fun _ _ => trivial) fun _ _ _ => rfl)
      (fun _ _ => .stay (fun _ _ => trivial) fun _ _ _ => rfl) rfl
  refine haccept.bind ?_
  rintro _ newFd rfl
  split
  · refine .call trivial ?_
    rintro (_ | _) - <;> exact .ret trivial
  · -- after the request nothing more is read
    refine (obeys_receiveRequest_receiving fd).bind ?_
    rintro _ (what | request) -
    · refine .call trivial ?_
      rintro (_ | _) -
      · exact .ret trivial
      · exact .call trivial fun _ _ => .call trivial fun _ _ => .call trivial fun _ _ =>
          .call trivial fun _ _ => .ret trivial
    · exact .call trivial fun _ _ => .ret trivial

end TCPDriverComm

/-- Only `accept` makes a descriptor refer to a connection. -/
theorem Kernel.Effect.connection_of {k k' : Kernel} {e : Exchange ServerCall ServerCall.Answer} {fd : Int}
    {id : Nat} (he : k.Effect e k') (haccept : ∀ l newFd ip, e = ⟨.accept l, .ok (newFd, ip)⟩ → fd ≠ newFd)
    (h : k'.fds fd = some (.connection id)) : k.fds fd = some (.connection id) := by
  cases he with
  | none => exact h
  | accept hfree => rwa [fds_openAt_of_ne _ _ (haccept _ _ _ rfl)] at h
  | @close fd' =>
    rcases eq_or_ne fd fd' with rfl | hne
    · simp at h
    · rwa [fds_closeAt_of_ne _ hne] at h
  | epollAdd => exact h
  | epollDel => exact h

/-! ## The network -/

section Reading

variable {Op : Type} {Ans : Op → Type} {σ : Type} {s : Server Ans σ} {fd : Int} {n : Nat}

/-- Descriptor and size of the `read` that the reactor thread is in. -/
def Server.reading? (s : Server Ans σ) : Option (Int × Nat) :=
  match s.notify with
  | .call (.read fd n) _ => some (fd, n)
  | _ => none

theorem Server.reading?_eq_some :
    s.reading? = some (fd, n) ↔ ∃ k, s.notify = .call (.read fd n) k := by
  constructor
  · intro h
    unfold reading? at h
    split at h
    · cases h
      exact ⟨_, ‹_›⟩
    · cases h
  · rintro ⟨k, hn⟩
    rw [reading?, hn]

end Reading

variable {Op : Type} {Ans : Op → Type} {σ : Type}

/-- A server, with the bytes that wait on each connection, and whether its peer has closed it. -/
structure Networked (Ans : Op → Type) (σ : Type) where
  server : Server Ans σ
  inbox : Nat → List Byte
  closed : Nat → Bool

/-- The steps of the network: bytes arrive on a connection, its peer closes it, and those of the server. -/
inductive NetworkAction (Ans : Op → Type)
  | arrive (id : Nat) (bytes : List Byte)
  | close (id : Nat)
  | server (act : Action Ans)

namespace Networked

/-- What is left to read after a step of the server; `none` if the step has to wait. `epoll_wait` waits for
a byte or for the end of the stream, and so does `read`, which takes some of the bytes that are there. -/
def deliver (s : Networked Ans σ) : Action Ans → Option (Nat → List Byte)
  | .event fd => match s.server.kernel.fds fd with
    | some (.connection id) => if s.inbox id = [] ∧ s.closed id = false then none else some s.inbox
    | _ => some s.inbox
  | .reactor ⟨.read fd _, .ok bytes⟩ => match s.server.kernel.fds fd with
    | some (.connection id) =>
      if bytes.1 <+: s.inbox id ∧ (bytes.1 = [] → s.inbox id = [] ∧ s.closed id = true) then
        some (Function.update s.inbox id ((s.inbox id).drop bytes.1.length))
      else none
    | _ => none
  | _ => some s.inbox

/-- The steps. Nothing arrives from a peer that has closed. -/
inductive Step (R : Environment Op Ans σ) (S : IStorage Op Ans) :
    Networked Ans σ → NetworkAction Ans → Networked Ans σ → Prop
  | arrive {s : Networked Ans σ} {id : Nat} {bytes : List Byte} (h : s.closed id = false) :
      Step R S s (.arrive id bytes) { s with inbox := Function.update s.inbox id (s.inbox id ++ bytes) }
  | close {s : Networked Ans σ} {id : Nat} :
      Step R S s (.close id) { s with closed := Function.update s.closed id true }
  | server {s : Networked Ans σ} {act : Action Ans} {server : Server Ans σ} {inbox : Nat → List Byte}
      (hd : s.deliver act = some inbox) (hs : Server.Step R S s.server act server) :
      Step R S s (.server act) { s with server := server, inbox := inbox }

/-- A server to which nothing has come yet. -/
def start (server : Server Ans σ) : Networked Ans σ where
  server := server
  inbox _ := []
  closed _ := false

/-- The steps by a function. -/
def exec (S : IStorage Op Ans) (s : Networked Ans σ) : NetworkAction Ans → Option (Networked Ans σ)
  | .arrive id bytes =>
    if s.closed id = false then some { s with inbox := Function.update s.inbox id (s.inbox id ++ bytes) }
    else none
  | .close id => some { s with closed := Function.update s.closed id true }
  | .server act => (s.deliver act).bind fun inbox =>
    (s.server.exec S act).map fun server => { s with server := server, inbox := inbox }

theorem step_of_exec (R : Environment Op Ans σ) {S : IStorage Op Ans} {s s' : Networked Ans σ}
    {act : NetworkAction Ans} (h : s.exec S act = some s') : Step R S s act s' := by
  cases act with
  | arrive id bytes =>
    simp only [exec, Option.ite_none_right_eq_some] at h
    obtain ⟨hopen, h⟩ := h
    obtain rfl := Option.some.inj h
    exact .arrive hopen
  | close id =>
    obtain rfl := Option.some.inj h
    exact .close
  | server act =>
    obtain ⟨inbox, hd, h⟩ := Option.bind_eq_some_iff.mp h
    obtain ⟨server, hs, rfl⟩ := Option.map_eq_some_iff.mp h
    exact .server hd (Server.step_of_exec R hs)

/-- At an event of a client, its request has arrived as a whole, or its peer has closed. -/
def complete (s : Networked Ans σ) : NetworkAction Ans → Bool
  | .server (.event fd) => match s.server.kernel.fds fd with
    | some (.connection id) => decide (s.closed id = true ∨ HoldsRequest (s.inbox id))
    | _ => true
  | _ => true

/-! ## Runs -/

variable {R : Environment Op Ans σ} {S : IStorage Op Ans} {s s' : Networked Ans σ} {fd : Int} {y : List Byte}

/-- The connection of `fd`, of whose request `y` has been read, has the rest of it, or has been closed. -/
def Rest (s : Networked Ans σ) (fd : Int) (y : List Byte) : Prop :=
  ∀ id, s.server.kernel.fds fd = some (.connection id) → s.closed id = true ∨ HoldsRequest (y ++ s.inbox id)

/-- The reactor thread has nothing to do, or serves a client of whose request nothing is missing. -/
def Supplied (s : Networked Ans σ) : Prop :=
  (∃ r, s.server.notify = .ret r) ∨
    ∃ fd y, Prog.Obeys (TCPDriverComm.receiving fd) (fun _ _ => True) y s.server.notify ∧ s.Rest fd y

/-- A step that leaves the inbox alone, and opens no connection on `fd`. -/
theorem Rest.congr (h : s.Rest fd y) (hinbox : s'.inbox = s.inbox) (hclosed : s'.closed = s.closed)
    (hfd : ∀ id, s'.server.kernel.fds fd = some (.connection id) →
      s.server.kernel.fds fd = some (.connection id)) : s'.Rest fd y := by
  intro id hid
  rw [hclosed, hinbox]
  exact h id (hfd id hid)

/-- A call of the reactor thread, and the bytes that it takes. -/
theorem Rest.reactor {o : ServerCall} {a : o.Answer} {server : Server Ans σ} {inbox : Nat → List Byte}
    (h : s.Rest fd y) (ho : (TCPDriverComm.receiving fd).calls y o) (ha : s.server.answer ⟨o, a⟩ = some server)
    (hd : s.deliver (.reactor ⟨o, a⟩) = some inbox) {id : Nat} (hid : server.kernel.fds fd = some (.connection id)) :
    s.closed id = true ∨ HoldsRequest ((TCPDriverComm.receiving fd).next y o a ++ inbox id) := by
  obtain ⟨kernel, driver, hk, -, rfl⟩ := Server.answer_inv ha
  have he := Kernel.effect_of_answer hk
  cases o with
  | read fd' n =>
    obtain ⟨rfl, -, -⟩ := ho
    have hid := he.connection_of (by simp) hid
    rcases a with errno | bytes
    · obtain rfl := Option.some.inj hd
      exact h id hid
    · simp only [deliver, hid] at hd
      rw [Option.ite_none_right_eq_some] at hd
      obtain ⟨⟨⟨rest, hrest⟩, -⟩, hd⟩ := hd
      obtain rfl := Option.some.inj hd
      -- what was read goes over to the phase
      rw [Function.update_self, ← hrest, List.drop_left]
      simp only [TCPDriverComm.receiving]
      rw [List.append_assoc, hrest]
      exact h id hid
  | accept fd' =>
    obtain rfl : fd' = fd := ho
    obtain rfl := Option.some.inj hd
    refine h id (he.connection_of ?_ hid)
    -- the listening socket is open, so that its number is not given to the client
    rintro _ newFd ip heq rfl
    cases heq
    simp only [Kernel.answer, Option.ite_none_right_eq_some] at hk
    cases hk.1.1.symm.trans hk.1.2
  | _ =>
    obtain rfl := Option.some.inj hd
    exact h id (he.connection_of (by simp) hid)

/-- A step of the network, or of the server. -/
theorem Supplied.step {act : NetworkAction Ans} (hs : Step R S s act s') (hc : s.complete act)
    (hw : s.server.Writers) (h : s.Supplied) : s'.Supplied := by
  cases hs with
  | @arrive id bytes hopen =>
    rcases h with h | ⟨fd, y, hp, hrest⟩
    · exact .inl h
    · refine .inr ⟨fd, y, hp, fun id' hid => (hrest id' hid).imp_right fun hreq => ?_⟩
      rcases eq_or_ne id' id with rfl | hne
      · -- bytes that come after what is there complete no less
        simp only [Function.update_self]
        rw [← List.append_assoc]
        exact hreq.append bytes
      · simp only [Function.update_of_ne hne]
        exact hreq
  | @close id =>
    rcases h with h | ⟨fd, y, hp, hrest⟩
    · exact .inl h
    · refine .inr ⟨fd, y, hp, fun id' hid => (hrest id' hid).imp_left fun hcl => ?_⟩
      rcases eq_or_ne id' id with rfl | hne
      · exact Function.update_self ..
      · simp only [Function.update_of_ne hne]
        exact hcl
  | @server act server inbox hd hs =>
    cases hs with
    | @event fd hidle hfd =>
      -- an event takes nothing out of an inbox
      have hinbox : inbox = s.inbox := by
        simp only [deliver] at hd
        split at hd
        · split at hd
          · cases hd
          · exact (Option.some.inj hd).symm
        · exact (Option.some.inj hd).symm
      subst hinbox
      -- the scheduler has waited for the whole request, and `Notify` has read nothing of it
      refine .inr ⟨fd, [], TCPDriverComm.obeys_notify_receiving _ fd, fun id hid => ?_⟩
      have hid : s.server.kernel.fds fd = some (.connection id) := hid
      simp only [complete, hid] at hc
      exact of_decide_eq_true hc
    | @reactor s₁ o a k hn ha =>
      rcases h with ⟨r, hr⟩ | ⟨fd, y, hp, hrest⟩
      · cases hr.symm.trans hn
      -- the contract of `Notify` follows the call
      rw [hn] at hp
      obtain ⟨ho, hk⟩ := hp.call_inv
      refine .inr ⟨fd, _, hk a trivial, fun id hid => hrest.reactor ho ha hd ?_⟩
      simpa using hid
    | @worker s₁ i job o a k hj hprog ha =>
      -- a worker only writes, and a `write` changes no socket
      have hjob := hw job (List.mem_of_getElem? hj)
      rw [hprog] at hjob
      obtain ⟨fd', buf, rfl, -⟩ := hjob.call_inv.1
      obtain ⟨kernel, driver, hk, -, rfl⟩ := Server.answer_inv ha
      obtain rfl := Option.some.inj hd
      rcases h with h | ⟨fd, y, hp, hrest⟩
      · exact .inl h
      · exact .inr ⟨fd, y, hp, hrest.congr rfl rfl fun id hid =>
          (Kernel.effect_of_answer hk).connection_of (by simp) hid⟩
    | storage hj hprog hR =>
      obtain rfl := Option.some.inj hd
      exact h
    | @openFile fd' hfd =>
      obtain rfl := Option.some.inj hd
      rcases h with h | ⟨fd, y, hp, hrest⟩
      · exact .inl h
      · refine .inr ⟨fd, y, hp, hrest.congr rfl rfl fun id hid => ?_⟩
        -- the new file is not the socket that is read
        rcases eq_or_ne fd fd' with rfl | hne
        · simp at hid
        · exact (Kernel.fds_openAt_of_ne _ _ hne).symm.trans hid
    | @closeFile fd' id' hfd =>
      obtain rfl := Option.some.inj hd
      rcases h with h | ⟨fd, y, hp, hrest⟩
      · exact .inl h
      · exact .inr ⟨fd, y, hp, hrest.congr rfl rfl fun id hid =>
          Kernel.Effect.close.connection_of (by simp) hid⟩

theorem Supplied.run {server₀ : Server Ans σ} {tr : List (NetworkAction Ans)} (h₀ : server₀.Started)
    (hr : Trace (Where (fun s act => s.complete act) (Step R S)) (start server₀) tr s) : s.server.Writers ∧ s.Supplied := by
  refine hr.invariant (I := fun _ s => s.server.Writers ∧ s.Supplied) ⟨fun job hmem => ?_, .inl ⟨_, h₀.idle⟩⟩ ?_
  · rw [start, h₀.jobs] at hmem
    exact absurd hmem List.not_mem_nil
  · rintro tr s act s' ⟨hc, hs⟩ ⟨hw, h⟩
    refine ⟨?_, h.step hs hc hw⟩
    cases hs with
    | arrive => exact hw
    | close => exact hw
    | server _ hs => exact hw.step hs

/-- **The reactor thread does not wait** for a client, as long as every event tells of a request that has
arrived as a whole: whenever it is about to read, what it asks for is there, or the peer has closed. -/
theorem never_waits {server₀ : Server Ans σ} {tr : List (NetworkAction Ans)} (h₀ : server₀.Started)
    (hr : Trace (Where (fun s act => s.complete act) (Step R S)) (start server₀) tr s) {fd : Int} {n id : Nat}
    (hn : s.server.reading? = some (fd, n)) (hid : s.server.kernel.fds fd = some (.connection id)) :
    s.closed id = true ∨ s.inbox id ≠ [] ∧ n ≤ (s.inbox id).length := by
  obtain ⟨k, hn⟩ := Server.reading?_eq_some.mp hn
  obtain ⟨-, ⟨r, hr⟩ | ⟨fd', y, hp, hrest⟩⟩ := Supplied.run h₀ hr
  · cases hr.symm.trans hn
  rw [hn] at hp
  obtain ⟨rfl, hpos, hneed⟩ := hp.call_inv.1
  apply (hrest id hid).imp_right
  intro hreq
  have hle := hneed _ hreq
  exact ⟨List.ne_nil_of_length_pos (by omega), hle⟩

/-! ## One byte -/

/-- A client connects on descriptor `fd`. -/
def connects (fd : Nat) (ip : String) : List (NetworkAction (RAIDCall.Answer (g := ⟨1, 4, Nat.one_pos⟩))) :=
  [.event 3, .reactor ⟨.accept 3, .ok (fd, ip)⟩, .reactor ⟨.insertClient fd, ()⟩,
    .reactor ⟨.recordClientIP fd ip, ()⟩, .reactor ⟨.epollAdd fd, true⟩].map .server

/-- The bytes of a `FLUSH`. -/
def flush : List Byte := bigEndian 4 3 ++ bigEndian 8 1 ++ bigEndian 8 0 ++ bigEndian 4 0

/-- A client sends the first byte of a request. The reactor thread reads it and waits for the rest, while the
whole request of another client waits for the reactor thread. -/
theorem waits_for_one_client :
    ¬ ∀ tr s fd n id, Trace (Step RAIDStorage.Answers (RAIDStorage.toIStorage _)) (start Server.small) tr s →
      s.server.reading? = some (fd, n) → s.server.kernel.fds fd = some (.connection id) →
      (s.closed id = true ∨ s.inbox id ≠ []) ∨
        ¬ ∃ fd' id', id' ≠ id ∧ fd' ∈ s.server.kernel.epoll ∧
          s.server.kernel.fds fd' = some (.connection id') ∧ HoldsRequest (s.inbox id') := by
  intro h
  -- one byte of a header from one client, and a whole request from another
  have hexec : (execAll (exec (RAIDStorage.toIStorage _))
      (connects 4 "10.0.0.1" ++ connects 5 "10.0.0.2" ++ [.arrive 0 [0], .server (.event 4),
        .server (.reactor ⟨.read 4 24, .ok ⟨[0], by decide⟩⟩), .arrive 1 flush]) (start Server.small)).map
      (fun s => decide (s.server.reading? = some (4, 23) ∧ s.server.kernel.fds 4 = some (.connection 0) ∧
        s.closed 0 = false ∧ s.inbox 0 = [] ∧ 5 ∈ s.server.kernel.epoll ∧
        s.server.kernel.fds 5 = some (.connection 1) ∧ HoldsRequest (s.inbox 1))) = some true := by
    decide +kernel
  obtain ⟨s, he, hs⟩ := Option.map_eq_some_iff.mp hexec
  obtain ⟨hn, hid, hclosed, hinbox, hepoll, hid', hreq⟩ := of_decide_eq_true hs
  have hrun := Trace.of_execAll (fun _ _ _ => step_of_exec RAIDStorage.Answers) he
  rcases h _ s 4 23 0 hrun hn hid with (hcl | hne) | hother
  · rw [hclosed] at hcl
    cases hcl
  · exact hne hinbox
  · exact hother ⟨5, 1, by decide, hepoll, hid', hreq⟩

/-- A request that arrives as a whole. -/
theorem never_waits_flush :
    ∃ tr s, Trace (Where (fun s act => s.complete act) (Step RAIDStorage.Answers (RAIDStorage.toIStorage _)))
        (start Server.small) tr s ∧ s.server.reading? = some (4, 24) ∧
      (s.closed 0 = true ∨ s.inbox 0 ≠ [] ∧ 24 ≤ (s.inbox 0).length) := by
  have hexec : (execAll (fun s act => if s.complete act then exec (RAIDStorage.toIStorage _) s act else none)
      (connects 4 "10.0.0.1" ++ [.arrive 0 flush, .server (.event 4)]) (start Server.small)).map
      (fun s => decide (s.server.reading? = some (4, 24) ∧ s.server.kernel.fds 4 = some (.connection 0))) =
        some true := by
    decide +kernel
  obtain ⟨s, he, hs⟩ := Option.map_eq_some_iff.mp hexec
  obtain ⟨hn, hid⟩ := of_decide_eq_true hs
  have hrun : Trace (Where (fun s act => s.complete act) (Step RAIDStorage.Answers (RAIDStorage.toIStorage _)))
      (start Server.small) _ s :=
    Trace.of_execAll (fun s act s' h => by
      rw [Option.ite_none_right_eq_some] at h
      exact ⟨h.1, step_of_exec RAIDStorage.Answers h.2⟩) he
  exact ⟨_, s, hrun, hn, never_waits (Server.started_start ..) hrun hn hid⟩

end Networked

end LDS
