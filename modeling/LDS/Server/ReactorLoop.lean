import LDS.Library.Batches
import LDS.Server.Survival

/-!
# The loop of the reactor

`Reactor::Run` asks the kernel for up to ten events at a time, and calls its handler for one after the other;
when it comes to the signal descriptor it returns. An event of a batch waits while those before it are handled,
and `Notify` closes descriptors. It closes no other one than its own, so that an event still refers to the
socket it was reported for when its turn comes.

## Main definitions

* `Reactor.maxEvents`: the length of a batch
* `Server.sparing E`: the contract of a program that leaves the descriptors in `E` in the epoll set
* `Server.dispatcher`: the server, as a system that handles one event at a time
* `Reactor.Step`, `Reactor.exec`: the server under the loop, as steps and by a function

## Main results

* `Server.sparing_notify`: `Notify` spares all descriptors but its own
* `Reactor.run_in_batches`: the loop does what a server does that handles one event at a time
-/

namespace LDS

variable {Op : Type} {Ans : Op → Type} {σ : Type}

/-- The descriptor of the file that the action closes. -/
def Action.closes? : Action Ans → Option Int
  | .closeFile fd => some fd
  | _ => none

theorem Action.event_ne_closeFile (fd fd' : Int) : (.event fd : Action Ans) ≠ .closeFile fd' := by
  intro h
  cases h

namespace Server

/-! ## What `Notify` leaves alone -/

/-- The contract of a program that leaves the descriptors in `E` in the epoll set. -/
abbrev sparing (E : Set Int) : Prog.Contract ServerCall ServerCall.Answer Unit :=
  .plain (fun _ _ => True) (fun | .close fd => fd ∉ E | .epollDel fd => fd ∉ E | _ => True) False

theorem sparing_mono {E E' : Set Int} (h : E ⊆ E') {p : ServerProg (Except String Unit)}
    (hp : Prog.Obeys (sparing E') (fun _ _ => True) () p) :
    Prog.Obeys (sparing E) (fun _ _ => True) () p := by
  apply hp.allow
  intro o ho
  cases o with
  | close fd => exact fun hfd => ho (h hfd)
  | epollDel fd => exact fun hfd => ho (h hfd)
  | _ => trivial

/-- `Notify` spares all descriptors but its own. -/
theorem sparing_notify {E : Set Int} {fd : Int} (hfd : fd ∉ E) (l : Int) :
    Prog.Obeys (sparing E) (fun _ _ => True) ()
      (InputMediator.notify (TCPDriverComm.toIDriverComm l) fd) := by
  have haccept : Prog.Obeys (sparing E) (fun _ _ => True) () (TCPDriverComm.tryAccept l fd) := by
    apply TCPDriverComm.obeys_tryAccept (P := fun _ => True) <;> intros <;>
      first | exact Prog.Contract.leads_plain trivial | trivial
  refine haccept.bind ?_
  rintro _ newFd -
  split
  · refine .call trivial ?_
    rintro (_ | _) - <;> exact .ret trivial
  · have hreceive : Prog.Obeys (sparing E) (fun _ _ => True) () (TCPDriverComm.receiveRequest fd) := by
      have hread : ∀ n, (sparing E).Leads (fun _ => True) (fun _ => True) (.read fd n) :=
        fun _ => Prog.Contract.leads_plain trivial
      apply Prog.Obeys.mono (TCPDriverComm.obeys_receiveRequest hread hread _ _ trivial) fun _ _ _ => trivial
      · intro offset data
        exact Prog.Contract.leads_plain trivial
      · exact Prog.Contract.leads_plain trivial
    refine hreceive.bind ?_
    rintro _ (what | request) -
    · -- the client leaves: its own descriptor is taken out and closed
      refine .call hfd ?_
      rintro (_ | _) -
      · exact .ret trivial
      · refine .call trivial fun _ _ => ?_
        refine .call trivial fun _ _ => ?_
        refine .call trivial fun _ _ => ?_
        exact .call hfd fun _ _ => .ret trivial
    · exact .call trivial fun _ _ => .ret trivial

/-! ## One event at a time -/

variable {R : Environment Op Ans σ} {S : IStorage Op Ans} {s s' : Server Ans σ} {act : Action Ans}

/-- What `Notify` has left to do leaves the descriptors in `E` in the epoll set. -/
def LeavesPolled (s : Server Ans σ) (E : Set Int) : Prop := Prog.Obeys (sparing E) (fun _ _ => True) () s.notify

/-- One call of the reactor thread. -/
theorem LeavesPolled.call {E : Set Int} {o : ServerCall} {a : o.Answer}
    {k : o.Answer → ServerProg (Except String Unit)} (h : s.LeavesPolled E) (hn : s.notify = .call o k) :
    (∀ fd ∈ E, o ≠ .close fd ∧ o ≠ .epollDel fd) ∧ Prog.Obeys (sparing E) (fun _ _ => True) () (k a) := by
  rw [LeavesPolled, hn] at h
  obtain ⟨ho, hk⟩ := h.call_inv
  refine ⟨fun fd hfd => ⟨?_, ?_⟩, hk a trivial⟩
  · rintro rfl
    exact ho hfd
  · rintro rfl
    exact ho hfd

/-- The process keeps the signal descriptor, which is a file, and all sockets in the epoll set are open. -/
structure Signalled (s : Server Ans σ) (signalFd : Int) : Prop where
  polls : s.kernel.Polls
  writers : s.Writers
  signal : ∃ id, s.kernel.fds signalFd = some (.file id)
  spares : s.LeavesPolled {signalFd}

variable {signalFd : Int}

theorem Started.signalled (h₀ : s.Started) {id : Nat} (hsig : s.kernel.fds signalFd = some (.file id)) :
    s.Signalled signalFd where
  polls := (h₀.routed (A := fun _ _ => True)).polls
  writers := by
    intro job hmem
    rw [h₀.jobs] at hmem
    exact absurd hmem List.not_mem_nil
  signal := ⟨id, hsig⟩
  spares := by
    rw [LeavesPolled, h₀.idle]
    exact .ret trivial

/-- The signal descriptor is no event of the handler. -/
theorem Signalled.ne (h : s.Signalled signalFd) {fd : Int} (hfd : fd ∈ s.kernel.epoll) : fd ≠ signalFd := by
  rintro rfl
  obtain ⟨id, hid⟩ := h.signal
  obtain ⟨x, hx, hsocket⟩ := h.polls fd hfd
  cases hid.symm.trans hx
  exact hsocket

theorem Signalled.step (h : s.Signalled signalFd) (hs : Step R S s act s') (hact : act ≠ .closeFile signalFd) :
    s'.Signalled signalFd := by
  have hne := @h.ne
  obtain ⟨hpolls, hw, ⟨id, hid⟩, hspares⟩ := h
  have hw' := hw.step hs
  cases hs with
  | @event fd hidle hfd =>
    have hmem : fd ∉ ({signalFd} : Set Int) := fun heq => hne hfd heq
    exact ⟨hpolls, hw', ⟨id, hid⟩, sparing_notify hmem s.driver.listenFd⟩
  | @reactor s₁ o a k hn ha =>
    obtain ⟨kernel, driver, hk, -, rfl⟩ := answer_inv ha
    have he := Kernel.effect_of_answer hk
    obtain ⟨ho, hspares⟩ := hspares.call (a := a) hn
    refine ⟨?_, hw', ⟨id, ?_⟩, hspares⟩
    · rw [kernel_record]
      exact hpolls.effect he
    · rw [kernel_record]
      exact he.refers hid (ho signalFd rfl).1
  | worker hj hp ha =>
    obtain ⟨kernel, driver, hk, -, rfl⟩ := answer_inv ha
    obtain rfl := hw.effect hj hp hk
    exact ⟨hpolls, hw', ⟨id, hid⟩, hspares⟩
  | storage => exact ⟨hpolls, hw', ⟨id, hid⟩, hspares⟩
  | openFile hfd => exact ⟨hpolls.openAt hfd, hw', ⟨id, Kernel.refers_openAt hid hfd⟩, hspares⟩
  | @closeFile fd id' hfd =>
    have hne : signalFd ≠ fd := by
      rintro rfl
      exact hact rfl
    exact ⟨hpolls.closeAt, hw', ⟨id, (Kernel.fds_closeAt_of_ne _ hne).trans hid⟩, hspares⟩

/-- The descriptors in `E` are in the epoll set, and `Notify` leaves them there. -/
structure Keeps (s : Server Ans σ) (E : Set Int) : Prop where
  polled : ∀ fd ∈ E, fd ∈ s.kernel.epoll
  spares : s.LeavesPolled E

/-- Only `Notify` takes descriptors out of the epoll set. -/
theorem Keeps.step {E : Set Int} (h : s.Keeps E) (hsig : s.Signalled signalFd) (hs : Step R S s act s')
    (hact : ∀ fd, act ≠ .event fd) : s'.Keeps E := by
  obtain ⟨hpolled, hspares⟩ := h
  cases hs with
  | event => exact absurd rfl (hact _)
  | @reactor s₁ o a k hn ha =>
    obtain ⟨kernel, driver, hk, -, rfl⟩ := answer_inv ha
    obtain ⟨ho, hspares⟩ := hspares.call (a := a) hn
    refine ⟨fun fd hfd => ?_, hspares⟩
    rw [kernel_record]
    exact (Kernel.effect_of_answer hk).mem_epoll (hpolled fd hfd) (ho fd hfd).1 (ho fd hfd).2
  | worker hj hp ha =>
    obtain ⟨kernel, driver, hk, -, rfl⟩ := answer_inv ha
    obtain rfl := hsig.writers.effect hj hp hk
    exact ⟨hpolled, hspares⟩
  | storage => exact ⟨hpolled, hspares⟩
  | openFile => exact ⟨hpolled, hspares⟩
  | closeFile hfd => exact ⟨fun fd hmem => mem_epoll_closeFile hsig.polls hfd (hpolled fd hmem), hspares⟩

/-- The server, as a system that handles one event at a time. Nobody closes the signal descriptor. -/
def dispatcher (R : Environment Op Ans σ) (S : IStorage Op Ans) (signalFd : Int) :
    EventSystem (Server Ans σ) (Action Ans) Int where
  Step := Where (fun _ act => act ≠ .closeFile signalFd) (Step R S)
  idle s := s.notify = .ret (.ok ())
  failed s := ∃ what, s.notify = .ret (.error what)
  ready s fd := fd ∈ s.kernel.epoll
  event := .event
  handle := handle
  begins _ _ hidle hready := ⟨Action.event_ne_closeFile _ _, .event hidle hready⟩

/-- `Notify` for one event spares the others. -/
theorem sparing_dispatcher (R : Environment Op Ans σ) (S : IStorage Op Ans) (signalFd : Int) :
    (dispatcher R S signalFd).Sparing (Signalled · signalFd) Keeps where
  step h hs := h.step hs.2 hs.1
  idle := by
    intro s E _ hidle hready
    refine ⟨hready, ?_⟩
    rw [LeavesPolled, show s.notify = .ret (.ok ()) from hidle]
    exact .ret trivial
  ready h hfd := h.polled _ hfd
  mono hsub h := ⟨fun fd hfd => h.polled fd (hsub hfd), sparing_mono hsub h.spares⟩
  keeps h hs hact hkeeps := hkeeps.step h hs.2 hact
  handle := by
    intro s fd E _ _ _ hfd hkeeps
    exact ⟨hkeeps.polled, sparing_notify hfd s.driver.listenFd⟩

/-- The reactor thread waits for an event. -/
def isIdle (s : Server Ans σ) : Bool :=
  match s.notify with
  | .ret (.ok ()) => true
  | _ => false

theorem isIdle_iff : s.isIdle ↔ s.notify = .ret (.ok ()) := by
  constructor
  · intro h
    unfold isIdle at h
    split at h
    · assumption
    · cases h
  · intro h
    rw [isIdle, h]

/-- Without an event the reactor thread stays where it is. -/
theorem idle_of_step (hs : Step R S s act s') (hact : ∀ fd, act ≠ .event fd)
    (hidle : s.notify = .ret (.ok ())) : s'.notify = .ret (.ok ()) := by
  cases hs with
  | event => exact absurd rfl (hact _)
  | reactor hn ha => cases hidle.symm.trans hn
  | worker hj hp ha =>
    obtain ⟨kernel, driver, hk, -, rfl⟩ := answer_inv ha
    exact hidle
  | storage => exact hidle
  | openFile => exact hidle
  | closeFile => exact hidle

end Server

/-! ## The loop -/

namespace Reactor

/-- `Reactor::MAX_EVENTS`. -/
def maxEvents : Nat := 10

variable {R : Environment Op Ans σ} {S : IStorage Op Ans} {signalFd : Int}

/-- The steps of a server under `Reactor::Run`. -/
abbrev Step (R : Environment Op Ans σ) (S : IStorage Op Ans) (signalFd : Int) :=
  (Server.dispatcher R S signalFd).LoopStep maxEvents signalFd

/-- The steps by a function; an exception that leaves the loop is left out. -/
def exec (S : IStorage Op Ans) (signalFd : Int) (s : Batched (Server Ans σ) Int) :
    LoopAction (Action Ans) Int → Option (Batched (Server Ans σ) Int)
  | .wait batch =>
    if s.outcome = .running ∧ s.state.isIdle ∧ s.batch = [] ∧
        (∀ fd ∈ batch, fd ≠ signalFd → fd ∈ s.state.kernel.epoll) ∧ batch.Nodup ∧
        0 < batch.length ∧ batch.length ≤ maxEvents then some { s with batch := batch }
    else none
  | .dispatch fd =>
    if s.outcome = .running ∧ s.state.isIdle ∧ s.batch.head? = some fd ∧ fd ≠ signalFd then
      some { s with state := s.state.handle fd, batch := s.batch.tail }
    else none
  | .stop =>
    if s.outcome = .running ∧ s.state.isIdle ∧ s.batch.head? = some signalFd then
      some { s with batch := s.batch.tail, outcome := .returned }
    else none
  | .other (.event _) => none
  | .other act =>
    if act.closes? = some signalFd then none
    else (s.state.exec S act).map fun state => { s with state := state }
  | _ => none

theorem step_of_exec (R : Environment Op Ans σ) {s s' : Batched (Server Ans σ) Int}
    {a : LoopAction (Action Ans) Int} (h : exec S signalFd s a = some s') : Step R S signalFd s a s' := by
  cases a with
  | wait batch =>
    simp only [exec, Option.ite_none_right_eq_some] at h
    obtain ⟨⟨hrun, hidle, hempty, hready, hnodup, hlen⟩, h⟩ := h
    obtain rfl := Option.some.inj h
    exact .wait hrun (Server.isIdle_iff.mp hidle) hempty hready hnodup hlen
  | dispatch fd =>
    simp only [exec, Option.ite_none_right_eq_some] at h
    obtain ⟨⟨hrun, hidle, hhead, hne⟩, h⟩ := h
    obtain rfl := Option.some.inj h
    exact .dispatch hrun (Server.isIdle_iff.mp hidle) (List.eq_cons_of_mem_head? hhead) hne
  | stop =>
    simp only [exec, Option.ite_none_right_eq_some] at h
    obtain ⟨⟨hrun, hidle, hhead⟩, h⟩ := h
    obtain rfl := Option.some.inj h
    exact .stop hrun (Server.isIdle_iff.mp hidle) (List.eq_cons_of_mem_head? hhead)
  | other act =>
    -- all actions of the server but its events
    have hother : ∀ act : Action Ans, (∀ fd, act ≠ .event fd) →
        (if act.closes? = some signalFd then none
          else (s.state.exec S act).map fun state => { s with state := state }) = some s' →
        Step R S signalFd s (.other act) s' := by
      intro act hact h
      rw [Option.ite_none_left_eq_some] at h
      obtain ⟨hcloses, h⟩ := h
      obtain ⟨state, hs, rfl⟩ := Option.map_eq_some_iff.mp h
      refine .other hact ⟨?_, Server.step_of_exec R hs⟩
      rintro rfl
      exact hcloses rfl
    cases act with
    | event fd => cases h
    | _ => exact hother _ (by simp) h
  | _ => cases h

/-- `Run` returns between two events. -/
theorem idle_of_returned {s₀ : Server Ans σ} {tr : List (LoopAction (Action Ans) Int)}
    {s : Batched (Server Ans σ) Int} (hr : Trace (Step R S signalFd) (.begin s₀) tr s)
    (hret : s.outcome = .returned) : s.state.notify = .ret (.ok ()) := by
  induction hr with
  | nil => cases hret
  | snoc _ hs ih =>
    cases hs with
    | stop _ hidle => exact hidle
    | other ha hs => exact Server.idle_of_step hs.2 ha (ih hret)
    | wait hrun => cases hrun.symm.trans hret
    | interrupted hrun => cases hrun.symm.trans hret
    | dispatch hrun => cases hrun.symm.trans hret
    | waitFails => cases hret
    | throws => cases hret

/-- **`Reactor::Run` handles its batches as if the events came one at a time.** A run of the server under the
loop is a run of the server without it. The events are taken in the order in which the kernel reported them, none
twice; those of a batch that are still to come refer to open sockets in the epoll set. The signal is taken once, as
the last of all, when no handler is at work; what is behind it in its batch is not taken. -/
theorem run_in_batches {s₀ : Server Ans σ} (h₀ : s₀.Started) {id : Nat}
    (hsig : s₀.kernel.fds signalFd = some (.file id)) {tr : List (LoopAction (Action Ans) Int)}
    {s : Batched (Server Ans σ) Int} (hr : Trace (Step R S signalFd) (.begin s₀) tr s) :
    Trace (Server.Step R S) s₀ (tr.filterMap (Server.dispatcher R S signalFd).project) s.state ∧
      tr.flatMap (LoopAction.taken signalFd) ++ s.batch = tr.flatMap LoopAction.brought ∧
      (∀ fd ∈ s.batch, fd ≠ signalFd → fd ∈ s.state.kernel.epoll ∧
        ∃ x, s.state.kernel.fds fd = some x ∧ x.IsSocket) ∧
      (s.outcome = .returned → s.state.notify = .ret (.ok ()) ∧
        ∃ before, tr.flatMap (LoopAction.taken signalFd) = before ++ [signalFd] ∧ signalFd ∉ before) ∧
      (s.outcome ≠ .returned → signalFd ∉ tr.flatMap (LoopAction.taken signalFd)) := by
  obtain ⟨htrace, hinv, -, hkeeps⟩ :=
    EventSystem.trace_of_loop (Server.sparing_dispatcher R S signalFd) (h₀.signalled hsig) h₀.idle hr
  obtain ⟨hret, hnot⟩ := EventSystem.stop_last hr
  refine ⟨htrace.mono fun _ _ _ hs => hs.2, EventSystem.taken_append_batch hr, fun fd hfd hne => ?_,
    fun hout => ⟨idle_of_returned hr hout, hret hout⟩, hnot⟩
  have hpolled := hkeeps.polled fd ⟨hfd, hne⟩
  exact ⟨hpolled, hinv.polls fd hpolled⟩

/-- A server with a signal descriptor, a file that the kernel knows as `0`. -/
def withSignal (s : Server Ans σ) (signalFd : Int) : Server Ans σ :=
  { s with kernel := s.kernel.openAt signalFd (.file 0) }

/-- A server over a pair of four bytes, with the signal descriptor 5. -/
abbrev small : Server (RAIDCall.Answer (g := ⟨1, 4, Nat.one_pos⟩))
    (RAIDStorage StorageMinionMemory MemoryMetadataStore ⟨1, 4, Nat.one_pos⟩) :=
  withSignal (Server.start 3 ∅ (RAIDStorage.inMemory ⟨1, 4, Nat.one_pos⟩)) 5

theorem started_small : small.Started := by
  obtain ⟨hlisten, hepoll, hidle, hjobs⟩ :=
    Server.started_start 3 ∅ (RAIDStorage.inMemory ⟨1, 4, Nat.one_pos⟩)
  exact ⟨Kernel.refers_openAt hlisten rfl, hepoll, hidle, hjobs⟩

/-- A client connects, and the signal comes in the batch of its first request, before it. -/
theorem run_in_batches_signal : ∃ tr s,
    Trace (Step RAIDStorage.Answers (RAIDStorage.toIStorage _) 5) (.begin small) tr s ∧ s.batch = [4] ∧
      tr.flatMap (LoopAction.taken 5) = [3, 5] ∧ s.state.notify = .ret (.ok ()) ∧ 4 ∈ s.state.kernel.epoll := by
  have hexec : ((execAll (exec (RAIDStorage.toIStorage _) 5)
      [.wait [3], .dispatch 3, .other (.reactor ⟨.accept 3, .ok (4, "10.0.0.1")⟩),
        .other (.reactor ⟨.insertClient 4, ()⟩), .other (.reactor ⟨.recordClientIP 4 "10.0.0.1", ()⟩),
        .other (.reactor ⟨.epollAdd 4, true⟩), .wait [5, 4], .stop] (.begin small)).map fun s =>
      decide (s.batch = [4] ∧ s.outcome = .returned)) = some true := by
    decide +kernel
  obtain ⟨s, he, hs⟩ := Option.map_eq_some_iff.mp hexec
  obtain ⟨hbatch, hret⟩ := of_decide_eq_true hs
  have hrun := Trace.of_execAll (fun _ _ _ => step_of_exec RAIDStorage.Answers) he
  obtain ⟨-, -, hleft, hsignal, -⟩ := run_in_batches started_small (rfl : small.kernel.fds 5 = some (.file 0)) hrun
  exact ⟨_, s, hrun, hbatch, rfl, (hsignal hret).1, (hleft 4 (by simp [hbatch]) (by decide)).1⟩

end Reactor

end LDS
