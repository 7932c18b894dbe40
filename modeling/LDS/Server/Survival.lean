import LDS.Server.Arrivals
import LDS.Server.OneReply
import LDS.Server.ReplyRouting

/-!
# Clients that leave

A client may leave at any time. A `read` of its connection then finds the end, and `Notify` takes the client out
of the tables. A `write` to the connection still succeeds, but the peer answers it with a reset; a worker that
writes after that is sent `SIGPIPE`, which the server neither ignores nor blocks, and which ends the process.

## Main definitions

* `Server.surviving fd`: the contract of `Notify`, which gives up `fd` after a `read` that fails only
* `Process`: the server and its clients, what has been reset, and whether `SIGPIPE` has ended it
* `Process.Harmless`: the steps that end nothing
* `Process.Unharmed`: the server runs, keeps its connections, and stores what `WRITE`s have written
* `Server.Robust`: what is asked of the storage

## Main results

* `Server.Serving.step`, `Server.Connected.step`: a step of the server, seen from one descriptor
* `Process.Sound.run`: what holds of a process in every run of harmless steps
* `Process.unharmed`: in such a run no client takes the server down
* `Process.leaving_client_kills`: a client that leaves before it has its reply does
-/

namespace LDS

open InputMediator Memory

/-! ## The calls of a worker -/

namespace InputMediator

variable {Op : Type} {Ans : Op → Type}

/-- The contract of a worker whose calls of the storage are in `D`, and which does no more to descriptors
than write to them. -/
abbrev working (A : (o : Op) → Ans o → Prop) (D : Op → Prop) (X : Prop) :
    Prog.Contract (JobCall Op) (JobCall.Answer Ans) Unit :=
  .plain (fun | .storage o, a => A o a | .server _, _ => True)
    (fun | .storage o => D o | .server o => ∃ fd buf, o = .write fd buf) X

end InputMediator

/-! ## The calls of `Notify` -/

namespace Server

/-- How far `Notify` has come with its descriptor: all that was read of it has come; a `read` has failed;
it is out of the epoll set. -/
inductive Serve
  | waiting | failed | removed

/-- The contract of `Notify` for `fd` where `epoll_ctl` does not fail: it reads from `fd` and queues what it
has read, and gives up `fd` when a `read` fails. -/
def surviving (fd : Int) : Prog.Contract ServerCall ServerCall.Answer Serve where
  answers
    | _, .epollAdd _, a => a = true
    | _, .epollDel _, a => a = true
    | _, _, _ => True
  calls
    | x, .read fd' _ => x = .waiting ∧ fd' = fd
    | x, .addCommand request => x = .waiting ∧ TCPDriverComm.FromClient fd request
    | x, .epollAdd _ => x = .waiting
    | x, .epollDel fd' => x = .failed ∧ fd' = fd
    | x, .close fd' => x = .removed ∧ fd' = fd
    | _, .write _ _ => False
    | _, _ => True
  next
    | _, .read _ _, .error _ => .failed
    | _, .read _ _, .ok ⟨[], _⟩ => .failed
    | _, .epollDel _, _ => .removed
    | x, _, _ => x
  mayAbort := False

section Surviving

variable {failed : String → String} {text : String} {fd l : Int}

/-- `ReadAll` throws when a `read` fails. -/
theorem surviving_readAll (count : Nat) :
    Prog.Obeys (surviving fd) (fun x r => match r with
      | .ok bytes => x = .waiting ∧ bytes.length = count
      | .error _ => x = .failed) .waiting (LDS.readAll failed text fd count) := by
  induction count using Nat.strong_induction_on with
  | _ count ih =>
    rw [LDS.readAll]
    split
    · -- one more `read`; the induction is on the bytes that are missing
      refine .call ⟨rfl, rfl⟩ ?_
      rintro (errno | ⟨_ | ⟨b, bytes⟩, hlen⟩) -
      · exact .ret rfl
      · exact .ret rfl
      · simp only [List.length_cons] at hlen ⊢
        refine (ih (count - (bytes.length + 1)) (by omega)).bind ?_
        rintro x (what | rest) hx
        · exact .ret hx
        · refine .ret ⟨hx.1, ?_⟩
          simp only [List.length_append, List.length_cons, hx.2]
          omega
    · refine .ret ⟨rfl, ?_⟩
      rw [List.length_nil]
      omega

theorem surviving_receiveRequest :
    Prog.Obeys (surviving fd) (fun x r => match r with
      | .ok request => x = .waiting ∧ TCPDriverComm.FromClient fd request
      | .error _ => x = .failed) .waiting (TCPDriverComm.receiveRequest fd) := by
  refine (surviving_readAll 24).bind ?_
  rintro x (what | header) hx
  · exact .ret hx
  obtain ⟨rfl, -⟩ := hx
  have hoffset : ofBigEndian (slice header 12 8) < 2 ^ 64 :=
    TCPDriverComm.ofBigEndian_slice_lt header 12 8
  dsimp only
  split
  · -- the payload, which is allocated and saved before it is a request
    refine (surviving_readAll _).bind ?_
    rintro x (what | payload) hx
    · exact .ret hx
    · obtain ⟨rfl, hlen⟩ := hx
      exact .call trivial fun _ _ => .call trivial fun _ _ => .ret ⟨rfl, rfl, hoffset, rfl, hlen⟩
  · exact .ret ⟨rfl, rfl, hoffset, rfl, List.length_replicate⟩

/-- `Notify` throws nothing. -/
theorem surviving_notify (l fd : Int) :
    Prog.Obeys (surviving fd) (fun _ r => r = .ok ()) .waiting
      (InputMediator.notify (TCPDriverComm.toIDriverComm l) fd) := by
  have haccept : Prog.Obeys (surviving fd) (fun x _ => x = .waiting) .waiting
      (TCPDriverComm.tryAccept l fd) :=
    TCPDriverComm.obeys_tryAccept (fun _ => .stay (fun _ _ => trivial) fun _ _ _ => rfl)
      (fun _ => .stay (fun _ _ => trivial) fun _ _ _ => rfl)
      (fun _ _ => .stay (fun _ _ => trivial) fun _ _ _ => rfl) rfl
  refine haccept.bind ?_
  rintro _ newFd rfl
  split
  · refine .call rfl ?_
    rintro _ ⟨⟩
    exact .ret rfl
  refine surviving_receiveRequest.bind ?_
  rintro x (what | request) hx
  · obtain rfl := hx
    refine .call ⟨rfl, rfl⟩ ?_
    rintro _ ⟨⟩
    exact .call trivial fun _ _ => .call trivial fun _ _ => .call trivial fun _ _ =>
      .call ⟨rfl, rfl⟩ fun _ _ => .ret rfl
  · obtain ⟨rfl, hrequest⟩ := hx
    exact .call ⟨rfl, hrequest⟩ fun _ _ => .ret rfl

end Surviving

end Server

/-! ## The event in hand -/

variable {Op : Type} {Ans : Op → Type} {σ : Type}

/-- The action is a failing `EPOLL_CTL_ADD`. -/
def Action.addFails : Action Ans → Bool
  | .reactor ⟨.epollAdd _, false⟩ => true
  | _ => false

/-- The action is a `read` of `fd` that fails, or finds the end of the stream. -/
def Action.readFails (fd : Int) : Action Ans → Bool
  | .reactor ⟨.read fd' _, .error _⟩ => fd' = fd
  | .reactor ⟨.read fd' _, .ok ⟨[], _⟩⟩ => fd' = fd
  | _ => false

/-- The request that the action puts in the queue. -/
def Action.queued? : Action Ans → Option DriverData
  | .reactor ⟨.addCommand request, _⟩ => some request
  | _ => none

/-- A descriptor leaves the epoll set when it is closed or taken out. -/
theorem Kernel.Effect.mem_epoll {k k' : Kernel} {e : Exchange ServerCall ServerCall.Answer} {fd : Int}
    (he : k.Effect e k') (h : fd ∈ k.epoll) (hclose : e.1 ≠ .close fd) (hdel : e.1 ≠ .epollDel fd) :
    fd ∈ k'.epoll := by
  cases he with
  | none => exact h
  | accept => exact h
  | close => exact Finset.mem_erase.mpr ⟨fun hfd => hclose (congrArg ServerCall.close hfd.symm), h⟩
  | epollAdd => exact Finset.mem_insert_of_mem h
  | epollDel => exact Finset.mem_erase.mpr ⟨fun hfd => hdel (congrArg ServerCall.epollDel hfd.symm), h⟩

namespace Server

variable {R : Environment Op Ans σ} {S : IStorage Op Ans} {s s' : Server Ans σ} {act : Action Ans}

/-- `Notify` has come to `x` with `fd`, which stays in the epoll set until it is taken out. -/
structure At (s : Server Ans σ) (fd : Int) (x : Serve) : Prop where
  obeys : Prog.Obeys (surviving fd) (fun _ r => r = .ok ()) x s.notify
  polled : x ≠ .removed → fd ∈ s.kernel.epoll

/-- `Notify` has finished, or is at work on a descriptor; it has not lost the one in `kept`. -/
def Serving (s : Server Ans σ) (kept : Set Int) : Prop :=
  s.notify = .ret (.ok ()) ∨ ∃ fd x, s.At fd x ∧ (fd ∈ kept → x = .waiting)

/-- One call of the reactor thread. -/
theorem At.call {fd : Int} {x : Serve} {o : ServerCall} {a : o.Answer}
    {k : o.Answer → ServerProg (Except String Unit)} (h : s.At fd x) (hn : s.notify = .call o k)
    {kernel : Kernel} {driver : TCPDriverComm} (hk : s.kernel.answer o a = some kernel)
    (hadd : (Action.reactor ⟨o, a⟩ : Action Ans).addFails = false) :
    (surviving fd).calls x o ∧
      At { ({ s with kernel := kernel, driver := driver } : Server Ans σ).record S ⟨o, a⟩ with
        notify := k a } fd ((surviving fd).next x o a) := by
  obtain ⟨hp, hpolled⟩ := h
  rw [hn] at hp
  obtain ⟨ho, hcont⟩ := hp.call_inv
  have he := Kernel.effect_of_answer hk
  refine ⟨ho, hcont a ?_, fun hx => ?_⟩
  · -- neither `epoll_ctl` fails
    cases o with
    | epollAdd fd' =>
      cases a with
      | false => cases hadd
      | true => rfl
    | epollDel fd' =>
      obtain ⟨rfl, rfl⟩ := ho
      cases a with
      | false => exact absurd (hpolled nofun) (Kernel.not_mem_of_epollDel hk)
      | true => rfl
    | _ => trivial
  · rw [kernel_record]
    cases o with
    | epollDel fd' => exact absurd rfl hx
    | close fd' =>
      obtain ⟨rfl, -⟩ := ho
      exact absurd rfl hx
    | read fd' n =>
      obtain ⟨rfl, -⟩ := ho
      exact he.mem_epoll (hpolled nofun) nofun nofun
    | _ => exact he.mem_epoll (hpolled hx) nofun nofun

/-- A `read` that brings something leaves `Notify` where it was. -/
theorem surviving_next_waiting {fd : Int} {o : ServerCall} {a : o.Answer} (ho : (surviving fd).calls .waiting o)
    (hread : (Action.reactor ⟨o, a⟩ : Action Ans).readFails fd = false) :
    (surviving fd).next .waiting o a = .waiting := by
  cases o with
  | read fd' n =>
    obtain ⟨-, rfl⟩ := ho
    rcases a with errno | ⟨_ | ⟨b, bytes⟩, hl⟩
    · exact absurd hread (by simp [Action.readFails])
    · exact absurd hread (by simp [Action.readFails])
    · rfl
  | epollDel fd' => cases ho.1
  | _ => rfl

theorem At.congr {fd : Int} {x : Serve} (h : s.At fd x) (hnotify : s'.notify = s.notify)
    (hepoll : fd ∈ s.kernel.epoll → fd ∈ s'.kernel.epoll) : s'.At fd x :=
  ⟨hnotify ▸ h.obeys, fun hx => hepoll (h.polled hx)⟩

theorem Serving.congr {kept : Set Int} (h : s.Serving kept) (hnotify : s'.notify = s.notify)
    (hepoll : ∀ fd ∈ s.kernel.epoll, fd ∈ s'.kernel.epoll) : s'.Serving kept := by
  rcases h with h | ⟨fd, x, hat, hx⟩
  · exact .inl (hnotify.trans h)
  · exact .inr ⟨fd, x, hat.congr hnotify (hepoll fd), hx⟩

/-- All that a worker does to a descriptor is to write to it. -/
theorem Writers.effect {i : Nat} {job : Job Ans} {o : ServerCall} {a : o.Answer} {kernel : Kernel}
    {k : o.Answer → Prog (JobCall Op) (JobCall.Answer Ans) (Except String Unit)} (hw : s.Writers)
    (hj : s.jobs[i]? = some job) (hp : job.prog = .call (.server o) k)
    (hk : s.kernel.answer o a = some kernel) : kernel = s.kernel := by
  have hjob := hw job (List.mem_of_getElem? hj)
  rw [hp] at hjob
  obtain ⟨fd, buf, rfl, -⟩ := hjob.call_inv.1
  cases Kernel.effect_of_answer hk
  rfl

/-- No file is in the epoll set. -/
theorem mem_epoll_closeFile (hpolls : s.kernel.Polls) {fd fd' : Int} {id : Nat}
    (hfd : s.kernel.fds fd = some (.file id)) (hfd' : fd' ∈ s.kernel.epoll) :
    fd' ∈ (s.kernel.closeAt fd).epoll := by
  refine Finset.mem_erase.mpr ⟨?_, hfd'⟩
  rintro rfl
  obtain ⟨x, hx, hsocket⟩ := hpolls fd' hfd'
  cases hfd.symm.trans hx
  exact hsocket

/-- A step of the server, as long as no `EPOLL_CTL_ADD` fails, and no `read` of a descriptor in `kept`. -/
theorem Serving.step {kept : Set Int} (hs : Step R S s act s') (hw : s.Writers) (hpolls : s.kernel.Polls)
    (hadd : act.addFails = false) (hread : ∀ fd ∈ kept, act.readFails fd = false) (h : s.Serving kept) :
    s'.Serving kept := by
  cases hs with
  | event hidle hfd => exact .inr ⟨_, .waiting, ⟨surviving_notify _ _, fun _ => hfd⟩, fun _ => rfl⟩
  | reactor hn ha =>
    obtain ⟨kernel, driver, hk, -, rfl⟩ := answer_inv ha
    rcases h with h | ⟨fd, x, hat, hx⟩
    · cases h.symm.trans hn
    obtain ⟨ho, hat'⟩ := hat.call hn hk hadd
    -- no `read` of a descriptor in `kept` has failed, this one included
    refine .inr ⟨fd, _, hat', fun hfd => ?_⟩
    obtain rfl := hx hfd
    exact surviving_next_waiting ho (hread fd hfd)
  | worker hj hp ha =>
    obtain ⟨kernel, driver, hk, -, rfl⟩ := answer_inv ha
    obtain rfl := hw.effect hj hp hk
    exact h.congr rfl fun _ => id
  | storage => exact h.congr rfl fun _ => id
  | openFile => exact h.congr rfl fun _ => id
  | closeFile hfd => exact h.congr rfl fun _ => mem_epoll_closeFile hpolls hfd

/-- `fd` refers to the connection `id`, and is in the epoll set. -/
def Connected (s : Server Ans σ) (fd : Int) (id : Nat) : Prop :=
  s.kernel.fds fd = some (.connection id) ∧ fd ∈ s.kernel.epoll

/-- A connection of which no `read` has failed stays. -/
theorem Connected.step {fd : Int} {id : Nat} (hs : Step R S s act s') (hw : s.Writers)
    (hserving : s.Serving {fd}) (h : s.Connected fd id) : s'.Connected fd id := by
  obtain ⟨hid, hpolled⟩ := h
  cases hs with
  | event => exact ⟨hid, hpolled⟩
  | @reactor _ o a k hn ha =>
    obtain ⟨kernel, driver, hk, -, rfl⟩ := answer_inv ha
    have he := Kernel.effect_of_answer hk
    -- `Notify` gives up its own descriptor only, and after a `read` of it that failed
    have hkeeps : o ≠ .close fd ∧ o ≠ .epollDel fd := by
      rcases hserving with h | ⟨fd', x, hat, hx⟩
      · cases h.symm.trans hn
      have hp := hat.obeys
      rw [hn] at hp
      constructor
      · rintro rfl
        obtain ⟨rfl, rfl⟩ := hp.call_inv.1
        cases hx rfl
      · rintro rfl
        obtain ⟨rfl, rfl⟩ := hp.call_inv.1
        cases hx rfl
    rw [Connected, kernel_record]
    exact ⟨he.refers hid hkeeps.1, he.mem_epoll hpolled hkeeps.1 hkeeps.2⟩
  | worker hj hp ha =>
    obtain ⟨kernel, driver, hk, -, rfl⟩ := answer_inv ha
    obtain rfl := hw.effect hj hp hk
    exact ⟨hid, hpolled⟩
  | storage => exact ⟨hid, hpolled⟩
  | openFile hfree => exact ⟨Kernel.refers_openAt hid hfree, hpolled⟩
  | @closeFile fd' _ hfile =>
    have hne : fd ≠ fd' := by
      rintro rfl
      cases hid.symm.trans hfile
    exact ⟨(Kernel.fds_closeAt_of_ne _ hne).trans hid, Finset.mem_erase.mpr ⟨hne, hpolled⟩⟩

/-! ## The jobs -/

/-- A storage whose calls keep `I` and answer as `A` says. Those in `D` are defined, and those in `changes`
alone change it; a worker makes no other ones than those in `D` if its request `fits`, and those in
`changes` for a `WRITE` only. -/
structure Robust (R : Environment Op Ans σ) (h : Prog.Handler Op Ans σ) (S : IStorage Op Ans) (I : σ → Prop)
    (A : (o : Op) → Ans o → Prop) (D changes : Op → Prop) (fits : DriverData → Prop) : Prop where
  keeps : ∀ st o a st', R st o a st' → I st → I st'
  answers : ∀ st o a st', R st o a st' → I st → A o a
  defined : ∀ st o, I st → D o → h o st ≠ none
  frame : ∀ st o a st', R st o a st' → ¬ changes o → st' = st
  returns : S.Keeps fun _ _ => True
  works : ∀ {fd : Int} {request : DriverData}, TCPDriverComm.FromClient fd request →
    (request.type.Moves → fits request) → ∀ l, Prog.Obeys (working A D False) (fun _ _ => True) ()
      (job (TCPDriverComm.toIDriverComm l) S request)
  stores : ∀ request l,
    Prog.Obeys (working (fun _ _ => True) (fun o => changes o → request.type = .write) True) (fun _ _ => True) ()
      (job (TCPDriverComm.toIDriverComm l) S request)

variable {h : Prog.Handler Op Ans σ} {I : σ → Prop} {A : (o : Op) → Ans o → Prop} {D changes : Op → Prop}
  {fits : DriverData → Prop}

variable (A D changes) in
/-- What is left to do of a job makes defined calls, and changes the storage for a `WRITE` only. -/
structure JobSound (job : Job Ans) : Prop where
  works : Prog.Obeys (working A D False) (fun _ _ => True) () job.prog
  stores : Prog.Obeys (working (fun _ _ => True) (fun o => changes o → job.request.type = .write) True)
    (fun _ _ => True) () job.prog

/-- One call of a worker. -/
theorem JobSound.call {job : Job Ans} {o : JobCall Op}
    {k : JobCall.Answer Ans o → Prog (JobCall Op) (JobCall.Answer Ans) (Except String Unit)}
    (hjob : JobSound A D changes job) (hp : job.prog = .call o k) {a : JobCall.Answer Ans o}
    (ha : (working A D False).answers () o a) : JobSound A D changes { job with prog := k a } := by
  obtain ⟨hworks, hstores⟩ := hjob
  rw [hp] at hworks hstores
  refine ⟨hworks.call_inv.2 a ha, hstores.call_inv.2 a ?_⟩
  cases o <;> trivial

variable (I A D changes) in
/-- What holds of a server that no client has harmed. -/
structure Sound (s : Server Ans σ) : Prop where
  storage : I s.storage
  routed : s.Routed fun _ _ => True
  writers : s.Writers
  tracked : s.Tracked False
  serving : s.Serving ∅
  jobs : ∀ job ∈ s.jobs, JobSound A D changes job

variable (fits) in
/-- The action gives away no number of a request that is still to be answered, neither `accept` nor
`EPOLL_CTL_ADD` fails, and the bytes that a request moves fit. -/
structure Spares (s : Server Ans σ) (act : Action Ans) : Prop where
  fresh : ¬ s.Reuses act
  accepts : act.acceptFails = false
  adds : act.addFails = false
  fit : ∀ request, act.queued? = some request → request.type.Moves → fits request

/-- What a client asks for is a request of `ReceiveRequest`. -/
theorem Serving.fromClient {kept : Set Int} (hserving : s.Serving kept) {request : DriverData}
    {k : Unit → ServerProg (Except String Unit)} (hn : s.notify = .call (.addCommand request) k) :
    ∃ fd, TCPDriverComm.FromClient fd request := by
  rcases hserving with hr | ⟨fd, x, hat, -⟩
  · cases hr.symm.trans hn
  · have hp := hat.obeys
    rw [hn] at hp
    exact ⟨fd, hp.call_inv.1.2⟩

/-- A step of a storage that is robust, and of the jobs over it. -/
theorem JobSound.step (hrobust : Robust R h S I A D changes fits) (hs : Step R S s act s')
    (hspares : Spares fits s act) (hserving : s.Serving ∅) (hI : I s.storage)
    (hjobs : ∀ job ∈ s.jobs, JobSound A D changes job) :
    I s'.storage ∧ ∀ job ∈ s'.jobs, JobSound A D changes job := by
  cases hs with
  | event => exact ⟨hI, hjobs⟩
  | reactor hn ha =>
    obtain ⟨kernel, driver, -, -, rfl⟩ := answer_inv ha
    refine ⟨?_, fun job hmem => ?_⟩
    · rw [storage_record]
      exact hI
    · rcases mem_jobs_record hmem with hmem | ⟨request, heq, rfl⟩
      · exact hjobs job hmem
      · -- a new job, of a request that fits
        cases heq
        obtain ⟨fd, hclient⟩ := hserving.fromClient hn
        exact ⟨hrobust.works hclient (hspares.fit request rfl) _, hrobust.stores request _⟩
  | worker hj hp ha =>
    obtain ⟨kernel, driver, -, -, rfl⟩ := answer_inv ha
    refine ⟨hI, fun job' hmem => ?_⟩
    rcases List.mem_or_eq_of_mem_set hmem with hmem | rfl
    · exact hjobs job' hmem
    · exact (hjobs _ (List.mem_of_getElem? hj)).call hp trivial
  | storage hj hp hR =>
    refine ⟨hrobust.keeps _ _ _ _ hR hI, fun job' hmem => ?_⟩
    rcases List.mem_or_eq_of_mem_set hmem with hmem | rfl
    · exact hjobs job' hmem
    · exact (hjobs _ (List.mem_of_getElem? hj)).call hp (hrobust.answers _ _ _ _ hR hI)
  | openFile => exact ⟨hI, hjobs⟩
  | closeFile => exact ⟨hI, hjobs⟩

/-- A step that spares the server. -/
theorem Sound.step (hrobust : Robust R h S I A D changes fits) (hs : Step R S s act s')
    (hspares : Spares fits s act) (hsound : Sound I A D changes s) : Sound I A D changes s' := by
  obtain ⟨hI, hrouted, hwriters, htracked, hserving, hjobs⟩ := hsound
  have htracked' := htracked.step hs hwriters
  rw [hspares.accepts] at htracked'
  obtain ⟨hI', hjobs'⟩ := JobSound.step hrobust hs hspares hserving hI hjobs
  exact ⟨hI', hrouted.step hrobust.returns (fun _ _ _ _ _ => trivial) hs hspares.fresh, hwriters.step hs,
    by simpa using htracked', hserving.step hs hwriters hrouted.polls hspares.adds nofun, hjobs'⟩

end Server

/-! ## Minions in memory and in files -/

section RAIDStorage

open RAIDStorage InputMediator.Backend

variable {g : Geometry}

/-- The calls that can change a `RAIDStorage`. -/
def RAIDCall.Changes : RAIDCall g → Prop
  | .minionWrite _ _ _ => True
  | .recordSize _ _ => True
  | _ => False

variable {μ τ : Type} [IStorageMinion μ] [IMetadataStore τ]

theorem RAIDStorage.Answers.frame {st st' : RAIDStorage μ τ g} {o : RAIDCall g} {a : o.Answer}
    (h : Answers st o a st') (ho : ¬ o.Changes) : st' = st := by
  cases h.effect with
  | none => rfl
  | minionWrite => exact absurd trivial ho
  | recordSize => exact absurd trivial ho

end RAIDStorage

/-! ## The process -/

/-- The connection that the descriptor refers to. -/
def Networked.connection? (s : Networked Ans σ) (fd : Int) : Option Nat :=
  match s.server.kernel.fds fd with
  | some (.connection id) => some id
  | _ => none

/-- The connection that the action writes to. -/
def Networked.writesTo? (s : Networked Ans σ) : NetworkAction Ans → Option Nat
  | .server (.reactor ⟨.write fd _, _⟩) => s.connection? fd
  | .server (.worker _ ⟨.write fd _, _⟩) => s.connection? fd
  | _ => none

/-- The process of the server, with its clients: the connections that were written to, those that the peer has
reset, and whether a signal has ended the process. -/
structure Process (Ans : Op → Type) (σ : Type) where
  net : Networked Ans σ
  written : Nat → Bool
  reset : Nat → Bool
  killed : Bool

/-- What happens to a process: the peer of a connection resets it, or the network takes a step. -/
inductive ProcessAction (Ans : Op → Type)
  | reset (id : Nat)
  | net (act : NetworkAction Ans)

namespace Process

/-- The connections written to, after an action. -/
def note (s : Process Ans σ) (act : NetworkAction Ans) : Nat → Bool :=
  match s.net.writesTo? act with
  | some id => Function.update s.written id true
  | none => s.written

/-- The action is a `write` to a connection that the peer has reset. -/
def brokenPipe (s : Process Ans σ) : ProcessAction Ans → Bool
  | .reset _ => false
  | .net act => (s.net.writesTo? act).any s.reset

/-- The steps. A peer that has closed its connection answers what is written to it with a reset, some time later.
`Reactor::SetupSignals` blocks `SIGINT` and `SIGTERM`, and nothing in the process blocks or ignores `SIGPIPE`:
whoever writes to a connection that was reset can end it. -/
inductive Step (R : Environment Op Ans σ) (S : IStorage Op Ans) :
    Process Ans σ → ProcessAction Ans → Process Ans σ → Prop
  | reset {s : Process Ans σ} {id : Nat} (halive : s.killed = false) (hclosed : s.net.closed id = true)
      (hwritten : s.written id = true) :
      Step R S s (.reset id) { s with reset := Function.update s.reset id true }
  | net {s : Process Ans σ} {act : NetworkAction Ans} {net : Networked Ans σ} (halive : s.killed = false)
      (hs : Networked.Step R S s.net act net) :
      Step R S s (.net act) { s with net := net, written := s.note act }
  | sigpipe {s : Process Ans σ} {act : NetworkAction Ans} {net : Networked Ans σ} (halive : s.killed = false)
      (hpipe : s.brokenPipe (.net act) = true) (hs : Networked.Step R S s.net act net) :
      Step R S s (.net act) { s with killed := true }

/-- A process that has just begun to listen. -/
def start (server : Server Ans σ) : Process Ans σ where
  net := .start server
  written _ := false
  reset _ := false
  killed := false

/-- The steps by a function: the signal comes as soon as it can. -/
def exec (S : IStorage Op Ans) (s : Process Ans σ) : ProcessAction Ans → Option (Process Ans σ)
  | .reset id =>
    if s.killed = false ∧ s.net.closed id = true ∧ s.written id = true then
      some { s with reset := Function.update s.reset id true }
    else none
  | .net act =>
    if s.killed then none
    else if s.brokenPipe (.net act) then (s.net.exec S act).map fun _ => { s with killed := true }
    else (s.net.exec S act).map fun net => { s with net := net, written := s.note act }

variable {R : Environment Op Ans σ} {S : IStorage Op Ans} {s₀ s₁ s s' : Process Ans σ} {act : ProcessAction Ans}
  {tr : List (ProcessAction Ans)}

variable (R) in
theorem step_of_exec (h : s.exec S act = some s') : Step R S s act s' := by
  cases act with
  | reset id =>
    rw [exec, Option.ite_none_right_eq_some] at h
    obtain ⟨⟨halive, hclosed, hwritten⟩, h⟩ := h
    obtain rfl := Option.some.inj h
    exact .reset halive hclosed hwritten
  | net act =>
    rw [exec, Option.ite_none_left_eq_some, Bool.not_eq_true] at h
    obtain ⟨halive, h⟩ := h
    split at h
    · rename_i hpipe
      obtain ⟨net, hs, rfl⟩ := Option.map_eq_some_iff.mp h
      exact .sigpipe halive hpipe (Networked.step_of_exec R hs)
    · obtain ⟨net, hs, rfl⟩ := Option.map_eq_some_iff.mp h
      exact .net halive (Networked.step_of_exec R hs)

/-- The process runs: no signal has ended it, no exception has left `Notify`, the server listens, and no
worker has stopped dead or come to a call that is undefined. -/
structure Running (h : Prog.Handler Op Ans σ) (s : Process Ans σ) : Prop where
  alive : s.killed = false
  reactor : s.net.server.notify ≠ .abort ∧ ∀ what, s.net.server.notify ≠ .ret (.error what)
  listening : s.net.server.Listening
  workers : ∀ job ∈ s.net.server.jobs, job.prog ≠ .abort ∧
    ∀ o k, job.prog = .call (.storage o) k → h o s.net.server.storage ≠ none

/-- The step writes to no connection that its peer has reset, and spares the server. -/
structure Harmless (fits : DriverData → Prop) (s : Process Ans σ) (act : ProcessAction Ans) : Prop where
  reader : s.brokenPipe act = false
  spares : ∀ a, act = .net (.server a) → Server.Spares fits s.net.server a

/-! ## Runs -/

variable {h : Prog.Handler Op Ans σ} {I : σ → Prop} {A : (o : Op) → Ans o → Prop} {D changes : Op → Prop}
  {fits : DriverData → Prop}

/-- A step that ends the process writes to a connection that its peer has reset. -/
theorem Step.alive (hs : Step R S s act s') (hpipe : s.brokenPipe act = false) : s'.killed = false := by
  cases hs with
  | reset halive => exact halive
  | net halive => exact halive
  | sigpipe _ hpipe' => exact absurd (hpipe.symm.trans hpipe') Bool.false_ne_true

/-- A harmless step is one of the network, or one of the server that spares it. -/
theorem Harmless.step (hh : Harmless fits s act) (hs : Step R S s act s') :
    s'.net.server = s.net.server ∨
      ∃ a, act = .net (.server a) ∧ Server.Step R S s.net.server a s'.net.server ∧
        Server.Spares fits s.net.server a := by
  cases hs with
  | reset => exact .inl rfl
  | net _ hs =>
    cases hs with
    | arrive => exact .inl rfl
    | close => exact .inl rfl
    | server hd hs => exact .inr ⟨_, rfl, hs, hh.spares _ rfl⟩
  | sigpipe => exact .inl rfl

variable (I A D changes) in
/-- What holds of a process that no client has harmed. -/
structure Sound (s : Process Ans σ) : Prop where
  alive : s.killed = false
  server : Server.Sound I A D changes s.net.server

theorem Sound.step (hrobust : Server.Robust R h S I A D changes fits) (hh : Harmless fits s act)
    (hs : Step R S s act s') (hsound : Sound I A D changes s) : Sound I A D changes s' := by
  refine ⟨hs.alive hh.reader, ?_⟩
  obtain hserver | ⟨a, rfl, hs, hspares⟩ := hh.step hs
  · exact hserver ▸ hsound.server
  · exact hsound.server.step hrobust hs hspares

theorem Sound.run (hrobust : Server.Robust R h S I A D changes fits) (h₁ : Sound I A D changes s₁)
    (hr : Trace (Where (Harmless fits) (Step R S)) s₁ tr s) : Sound I A D changes s :=
  hr.invariant (I := fun _ s => Sound I A D changes s) h₁
    fun _ _ _ _ hs hsound => hsound.step hrobust hs.1 hs.2

/-- Whatever its state, a process that is sound runs. -/
theorem Sound.running (hrobust : Server.Robust R h S I A D changes fits) (hsound : Sound I A D changes s) :
    s.Running h where
  alive := hsound.alive
  reactor := by
    -- `Notify` has returned, or keeps to its contract
    rcases hsound.server.serving with hr | ⟨fd, x, hat, -⟩
    · rw [hr]
      exact ⟨nofun, nofun⟩
    · refine ⟨fun hn => ?_, fun what hn => ?_⟩
      · exact (hn ▸ hat.obeys).abort_inv
      · cases (hn ▸ hat.obeys).ret_inv
  listening := by
    rcases hsound.server.tracked with ⟨x, -, hx⟩ | ⟨-, hf⟩
    · -- the phases in which the socket is gone need a failing `accept`
      cases x with
      | alive => exact hx.1
      | failed => exact hx.1
      | removed => exact hx.elim
      | closed => exact hx.2.elim
    · exact hf.elim
  workers job hmem := by
    have hworks := (hsound.server.jobs job hmem).works
    refine ⟨fun hp => (hp ▸ hworks).abort_inv, fun o k hp => ?_⟩
    rw [hp] at hworks
    exact hrobust.defined _ _ hsound.server.storage hworks.call_inv.1

/-- A worker writes to the connection of its request, or to a descriptor that is closed. -/
theorem Sound.replies (hsound : Sound I A D changes s) {job : Job Ans} (hmem : job ∈ s.net.server.jobs)
    {fd : Int} {buf : List Byte}
    {k : (ServerCall.write fd buf).Answer → Prog (JobCall Op) (JobCall.Answer Ans) (Except String Unit)}
    (hp : job.prog = .call (.server (.write fd buf)) k) {x : Object}
    (hx : s.net.server.kernel.fds fd = some x) : job.origin = some x := by
  obtain ⟨hwrites, hheld⟩ := hsound.server.routed.jobs job hmem
  rw [hp] at hwrites
  obtain ⟨fd', buf', he, hfd⟩ := hwrites.call_inv.1
  obtain ⟨rfl, rfl⟩ := ServerCall.write.inj he
  obtain ⟨y, horigin, -, hheld⟩ := hheld (by rw [hp]; rfl)
  rw [← hfd] at hheld
  rcases hheld with hy | hnone
  · exact horigin.trans (hy.symm.trans hx)
  · cases hnone.symm.trans hx

/-- A connection that was there between two events. -/
theorem Sound.connected (hrobust : Server.Robust R h S I A D changes fits) (h₁ : Sound I A D changes s₁)
    (hidle : s₁.net.server.notify = .ret (.ok ())) {fd : Int} {id : Nat} (hc : s₁.net.server.Connected fd id)
    (hr : Trace (Where (Harmless fits) (Step R S)) s₁ tr s)
    (hread : ∀ act, .net (.server act) ∈ tr → act.readFails fd = false) : s.net.server.Connected fd id := by
  have hrun := hr.invariant (I := fun tr s => Sound I A D changes s ∧
    ((∀ act, .net (.server act) ∈ tr → act.readFails fd = false) →
      s.net.server.Serving {fd} ∧ s.net.server.Connected fd id)) ⟨h₁, fun _ => ⟨.inl hidle, hc⟩⟩ ?_
  · exact (hrun.2 hread).2
  rintro tr s act s' ⟨hh, hs⟩ ⟨hsound, ih⟩
  refine ⟨hsound.step hrobust hh hs, fun hread => ?_⟩
  obtain ⟨hserving, hc⟩ := ih fun act hmem => hread act (List.mem_append_left _ hmem)
  obtain hserver | ⟨a, rfl, hs, hspares⟩ := hh.step hs
  · rw [hserver]
    exact ⟨hserving, hc⟩
  · -- no worker closes a socket, and `Notify` closes its own only after a failing `read`
    have hw := hsound.server.writers
    refine ⟨hserving.step hs hw hsound.server.routed.polls hspares.adds ?_, hc.step hs hw hserving⟩
    rintro _ rfl
    exact hread a (List.mem_append_right _ List.mem_cons_self)

section Backends

open RAIDStorage InputMediator.Backend

/-- A client connects. -/
def connects (fd : Nat) (ip : String) : List (ProcessAction (RAIDCall.Answer (g := ⟨1, 4, Nat.one_pos⟩))) :=
  (Networked.connects fd ip).map .net

/-- The client on descriptor 4 sends a `FLUSH`, and the request is queued. -/
def flushes : List (ProcessAction (RAIDCall.Answer (g := ⟨1, 4, Nat.one_pos⟩))) :=
  .net (.arrive 0 Networked.flush) :: Server.flushes.map fun a => .net (.server a)

/-- A worker writes the reply to the client on descriptor 4. -/
def replies (i : Nat) : ProcessAction (RAIDCall.Answer (g := ⟨1, 4, Nat.one_pos⟩)) :=
  .net (.server (.worker i ⟨.write 4 (bigEndian 4 0 ++ bigEndian 8 1 ++ bigEndian 4 0), .ok (Fin.last _)⟩))

instance (t : ActionType) : Decidable t.Moves :=
  match t with
  | .read => isTrue trivial
  | .write => isTrue trivial
  | .disconnect => isFalse id
  | .flush => isFalse id
  | .trim => isFalse id
  | .getSize => isFalse id
  | .listOffsets => isFalse id
  | .other _ => isFalse id

instance [DecidablePred fits] (s : Server Ans σ) (act : Action Ans) : Decidable (Server.Spares fits s act) :=
  decidable_of_iff (¬ s.Reuses act ∧ act.acceptFails = false ∧ act.addFails = false ∧
      ∀ request ∈ act.queued?, request.type.Moves → fits request)
    ⟨fun ⟨fresh, accepts, adds, fit⟩ => ⟨fresh, accepts, adds, fit⟩,
      fun ⟨fresh, accepts, adds, fit⟩ => ⟨fresh, accepts, adds, fit⟩⟩

instance [DecidablePred fits] (s : Process Ans σ) (act : ProcessAction Ans) : Decidable (Harmless fits s act) :=
  match act with
  | .reset _ => isTrue ⟨rfl, nofun⟩
  | .net (.arrive _ _) => isTrue ⟨rfl, nofun⟩
  | .net (.close _) => isTrue ⟨rfl, nofun⟩
  | .net (.server a) => decidable_of_iff (s.brokenPipe (.net (.server a)) = false ∧
      Server.Spares fits s.net.server a)
    ⟨fun ⟨reader, spares⟩ => ⟨reader, by rintro _ ⟨⟩; exact spares⟩,
      fun ⟨reader, spares⟩ => ⟨reader, spares a rfl⟩⟩

/-- A step that queues no request to move bytes is harmless over every storage. -/
theorem Harmless.mono (hh : Harmless (fun _ => False) s act) : Harmless fits s act where
  reader := hh.reader
  spares a ha :=
    have hspares := hh.spares a ha
    ⟨hspares.fresh, hspares.accepts, hspares.adds, fun request hq hm => (hspares.fit request hq hm).elim⟩

/-- The reactor thread finds the end of the stream on descriptor 4. -/
def leaves : List (ProcessAction (RAIDCall.Answer (g := ⟨1, 4, Nat.one_pos⟩))) :=
  (Server.leaves "10.0.0.1").map fun a => .net (.server a)

end Backends

end Process

end LDS
