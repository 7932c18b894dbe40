import LDS.Library.Trace
import LDS.Server.InputMediator
import LDS.Storage.Device

/-!
# The TCP server

The server in TCP mode: the reactor thread, which runs `Notify` for one ready descriptor after the
other, the pool workers, which run the queued commands in any order and side by side, and the kernel's
descriptors, over which both of them act. A request keeps the number of its descriptor only; the model
remembers with each of them, for its proofs, the connection that it was read from.

## Main definitions

* `Object`: what a descriptor refers to
* `Kernel`: the descriptors and the epoll set
* `Server`: the states, with the jobs of the pool
* `Server.answer`: what a call does, given its answer
* `Server.Step`: the steps
* `Server.exec`, `Server.execWith`: the steps by a function
* `Server.Started`, `Server.start`: a server that has just begun to listen

## Main results

* `Server.step_of_exec`: the function computes steps
-/

namespace LDS

/-! ## The kernel -/

/-- What a descriptor refers to: the listening socket, a connection, or a file. Connections and files
are numbered in the order in which they are opened. -/
inductive Object
  | listener
  | connection (id : Nat)
  | file (id : Nat)
  deriving DecidableEq

/-- The descriptors of the process, and those that are in the epoll set. -/
structure Kernel where
  fds : Int → Option Object
  nextId : Nat
  epoll : Finset Int

namespace Kernel

/-- An unused descriptor is given to a new object. -/
def openAt (k : Kernel) (fd : Int) (x : Object) : Kernel :=
  { k with fds := Function.update k.fds fd (some x), nextId := k.nextId + 1 }

/-- A descriptor is closed; that takes it out of the epoll set. -/
def closeAt (k : Kernel) (fd : Int) : Kernel :=
  { k with fds := Function.update k.fds fd none, epoll := k.epoll.erase fd }

section Fields

variable (k : Kernel) {fd fd' : Int} (x : Object)

@[simp] theorem fds_openAt_self : (k.openAt fd x).fds fd = some x := Function.update_self ..

theorem fds_openAt_of_ne (h : fd' ≠ fd) : (k.openAt fd x).fds fd' = k.fds fd' :=
  Function.update_of_ne h ..

@[simp] theorem epoll_openAt : (k.openAt fd x).epoll = k.epoll := rfl

@[simp] theorem fds_closeAt_self : (k.closeAt fd).fds fd = none := Function.update_self ..

theorem fds_closeAt_of_ne (h : fd' ≠ fd) : (k.closeAt fd).fds fd' = k.fds fd' :=
  Function.update_of_ne h ..

@[simp] theorem epoll_closeAt : (k.closeAt fd).epoll = k.epoll.erase fd := rfl

end Fields

/-- What a system call does to the descriptors if it is answered `a`; `none` if it cannot be answered
so. Any call but `close` may fail at any time; there is nothing to `read` from a listening socket. -/
def answer : (o : ServerCall) → o.Answer → Kernel → Option Kernel
  | .accept fd, .ok (newFd, _), k =>
    if k.fds fd = some .listener ∧ k.fds newFd = none then
      some (k.openAt newFd (.connection k.nextId))
    else none
  | .read fd _, .ok _, k => match k.fds fd with
    | some (.connection _) => some k
    | _ => none
  | .write fd _, .ok _, k => match k.fds fd with
    | some (.connection _) => some k
    | some (.file _) => some k
    | _ => none
  | .close fd, _, k => some (k.closeAt fd)
  | .epollAdd fd, true, k => match k.fds fd with
    | some (.connection _) =>
      if fd ∈ k.epoll then none else some { k with epoll := insert fd k.epoll }
    | _ => none
  | .epollDel fd, true, k => if fd ∈ k.epoll then some { k with epoll := k.epoll.erase fd } else none
  | .epollDel fd, false, k => if fd ∈ k.epoll then none else some k
  | _, _, k => some k

/-- Only a connection can be read from. -/
theorem connection_of_read {k k' : Kernel} {fd : Int} {count : Nat}
    {bytes : { bytes : List Byte // bytes.length ≤ count }}
    (h : k.answer (.read fd count) (.ok bytes) = some k') :
    ∃ id, k.fds fd = some (.connection id) := by
  simp only [answer] at h
  split at h
  · exact ⟨_, ‹_›⟩
  · cases h

/-- A descriptor that is in the epoll set can be taken out. -/
theorem not_mem_of_epollDel {k k' : Kernel} {fd : Int}
    (h : k.answer (.epollDel fd) false = some k') : fd ∉ k.epoll := by
  simp only [answer] at h
  split at h
  · cases h
  · assumption

/-- What an exchange can do to the descriptors: nothing, or what its call is for. -/
inductive Effect (k : Kernel) : Exchange ServerCall ServerCall.Answer → Kernel → Prop
  | none {e : Exchange ServerCall ServerCall.Answer} : Effect k e k
  | accept {fd : Int} {newFd : Nat} {ip : String} (hfree : k.fds newFd = .none) :
      Effect k ⟨.accept fd, .ok (newFd, ip)⟩ (k.openAt newFd (.connection k.nextId))
  | close {fd : Int} : Effect k ⟨.close fd, ()⟩ (k.closeAt fd)
  | epollAdd {fd : Int} {id : Nat} (hfd : k.fds fd = some (.connection id)) :
      Effect k ⟨.epollAdd fd, true⟩ { k with epoll := insert fd k.epoll }
  | epollDel {fd : Int} : Effect k ⟨.epollDel fd, true⟩ { k with epoll := k.epoll.erase fd }

theorem effect_of_answer {k k' : Kernel} {o : ServerCall} {a : o.Answer}
    (h : k.answer o a = some k') : k.Effect ⟨o, a⟩ k' := by
  cases o with
  | accept fd =>
    rcases a with errno | ⟨newFd, ip⟩
    · obtain rfl := Option.some.inj h
      exact .none
    · -- the number of a new connection was free
      simp only [answer, Option.ite_none_right_eq_some] at h
      obtain ⟨⟨-, hfree⟩, h⟩ := h
      obtain rfl := Option.some.inj h
      exact .accept hfree
  | read fd count =>
    rcases a with errno | bytes
    · obtain rfl := Option.some.inj h
      exact .none
    · simp only [answer] at h
      split at h
      · obtain rfl := Option.some.inj h
        exact .none
      · cases h
  | write fd buf =>
    rcases a with errno | n
    · obtain rfl := Option.some.inj h
      exact .none
    · simp only [answer] at h
      split at h
      · obtain rfl := Option.some.inj h
        exact .none
      · obtain rfl := Option.some.inj h
        exact .none
      · cases h
  | close fd =>
    obtain rfl := Option.some.inj h
    exact .close
  | epollAdd fd =>
    cases a with
    | false =>
      obtain rfl := Option.some.inj h
      exact .none
    | true =>
      simp only [answer] at h
      split at h
      · rename_i hfd
        split at h
        · cases h
        · obtain rfl := Option.some.inj h
          exact .epollAdd hfd
      · cases h
  | epollDel fd =>
    cases a with
    | false =>
      simp only [answer] at h
      split at h
      · cases h
      · obtain rfl := Option.some.inj h
        exact .none
    | true =>
      simp only [answer, Option.ite_none_right_eq_some] at h
      obtain rfl := Option.some.inj h.2
      exact .epollDel
  | _ =>
    obtain rfl := Option.some.inj h
    exact .none

end Kernel

/-! ## The driver -/

/-- The members of `TCPDriverComm` that its calls read and change. -/
structure TCPDriverComm where
  listenFd : Int
  clientFds : Finset Int
  fdToIp : Std.ExtTreeMap Int String
  allocations : Std.ExtTreeMap Nat (List Byte)

/-- What a critical section of the driver does to its members if it is answered `a`. -/
def TCPDriverComm.answer : (o : ServerCall) → o.Answer → TCPDriverComm → Option TCPDriverComm
  | .insertClient fd, _, d => some { d with clientFds := insert fd d.clientFds }
  | .eraseClient fd, _, d => some { d with clientFds := d.clientFds.erase fd }
  | .recordClientIP fd ip, _, d => some { d with fdToIp := d.fdToIp.insert fd ip }
  | .getClientIP fd, ip, d => if ip = d.fdToIp[fd]?.getD "" then some d else none
  | .forgetClientIP fd, _, d => some { d with fdToIp := d.fdToIp.erase fd }
  | .updateAllocation offset data, _, d =>
    some { d with allocations := d.allocations.insert offset (d.allocations[offset]?.getD [] ++ data) }
  | _, _, d => some d

theorem TCPDriverComm.listenFd_answer {o : ServerCall} {a : o.Answer} {d d' : TCPDriverComm}
    (h : d.answer o a = some d') : d'.listenFd = d.listenFd := by
  cases o with
  | getClientIP fd =>
    simp only [answer, Option.ite_none_right_eq_some] at h
    rw [Option.some.inj h.2]
  | _ =>
    obtain rfl := Option.some.inj h
    rfl

/-! ## The server -/

section Server

variable {Op : Type} {Ans : Op → Type} {σ : Type}

/-- A queued command, or one that a worker has begun: its request, the connection it was read from, and
what is left to do. -/
structure Job (Ans : Op → Type) where
  origin : Option Object
  request : DriverData
  prog : Prog (JobCall Op) (JobCall.Answer Ans) (Except String Unit)

/-- The states of the server: `notify` is what the reactor thread has left to do of its event, and
`readFrom` is the object that its last `read` was made on. -/
structure Server (Ans : Op → Type) (σ : Type) where
  kernel : Kernel
  driver : TCPDriverComm
  storage : σ
  notify : ServerProg (Except String Unit)
  readFrom : Option Object
  jobs : List (Job Ans)

/-- The steps of the server: a descriptor is ready; a call of the reactor thread; a call of a worker,
to the driver or to the storage; and the rest of the process opens and closes files. -/
inductive Action (Ans : Op → Type)
  | event (fd : Int)
  | reactor (e : Exchange ServerCall ServerCall.Answer)
  | worker (i : Nat) (e : Exchange ServerCall ServerCall.Answer)
  | storage (i : Nat) (e : Exchange Op Ans)
  | openFile (fd : Nat)
  | closeFile (fd : Int)

namespace Server

/-- What a call does, given its answer. -/
def answer (e : Exchange ServerCall ServerCall.Answer) (s : Server Ans σ) : Option (Server Ans σ) :=
  (s.kernel.answer e.1 e.2).bind fun kernel =>
    (s.driver.answer e.1 e.2).map fun driver => { s with kernel := kernel, driver := driver }

/-- A call changes the kernel, as its answer says, and the tables of the driver. -/
theorem answer_inv {e : Exchange ServerCall ServerCall.Answer} {s s' : Server Ans σ}
    (h : s.answer e = some s') : ∃ kernel driver, s.kernel.answer e.1 e.2 = some kernel ∧
      driver.listenFd = s.driver.listenFd ∧ s' = { s with kernel := kernel, driver := driver } := by
  obtain ⟨kernel, hk, h⟩ := Option.bind_eq_some_iff.mp h
  obtain ⟨driver, hd, rfl⟩ := Option.map_eq_some_iff.mp h
  exact ⟨kernel, driver, hk, TCPDriverComm.listenFd_answer hd, rfl⟩

/-- What the reactor thread leaves behind besides: the object it has read from, and a job for each
command. -/
def record (S : IStorage Op Ans) :
    Exchange ServerCall ServerCall.Answer → Server Ans σ → Server Ans σ
  | ⟨.read fd _, _⟩, s => { s with readFrom := s.kernel.fds fd }
  | ⟨.addCommand request, _⟩, s =>
    { s with jobs := s.jobs ++ [{
        origin := s.readFrom
        request := request
        prog := InputMediator.job (TCPDriverComm.toIDriverComm s.driver.listenFd) S request }] }
  | _, s => s

section Record

variable {S : IStorage Op Ans} {e : Exchange ServerCall ServerCall.Answer} {s : Server Ans σ}

@[simp] theorem kernel_record : (s.record S e).kernel = s.kernel := by
  rw [record.eq_def]
  split <;> rfl

@[simp] theorem driver_record : (s.record S e).driver = s.driver := by
  rw [record.eq_def]
  split <;> rfl

@[simp] theorem storage_record : (s.record S e).storage = s.storage := by
  rw [record.eq_def]
  split <;> rfl

/-- A job is an old one, or that of the command just queued. -/
theorem mem_jobs_record {job : Job Ans} (h : job ∈ (s.record S e).jobs) :
    job ∈ s.jobs ∨ ∃ request, e = ⟨.addCommand request, ()⟩ ∧ job =
      ⟨s.readFrom, request,
        InputMediator.job (TCPDriverComm.toIDriverComm s.driver.listenFd) S request⟩ := by
  rw [record.eq_def] at h
  split at h
  · exact .inl h
  · rcases List.mem_append.mp h with h | h
    · exact .inl h
    · exact .inr ⟨_, rfl, List.mem_singleton.mp h⟩
  · exact .inl h

end Record

/-- `Reactor::Run` calls its handler for `fd`. -/
def handle (fd : Int) (s : Server Ans σ) : Server Ans σ :=
  { s with
    notify := InputMediator.notify (TCPDriverComm.toIDriverComm s.driver.listenFd) fd
    readFrom := none }

/-- The job `i` has come to `prog`. -/
def setJob (i : Nat) (job : Job Ans)
    (prog : Prog (JobCall Op) (JobCall.Answer Ans) (Except String Unit)) (s : Server Ans σ) :
    Server Ans σ :=
  { s with jobs := s.jobs.set i { job with prog := prog } }

/-- The steps of the server, over a storage that answers as `R` says. An exception that leaves
`Notify` ends `Reactor::Run`; what a job returns or throws is dropped. -/
inductive Step (R : Environment Op Ans σ) (S : IStorage Op Ans) :
    Server Ans σ → Action Ans → Server Ans σ → Prop
  | event {s : Server Ans σ} {fd : Int} (hidle : s.notify = .ret (.ok ()))
      (hfd : fd ∈ s.kernel.epoll) : Step R S s (.event fd) (s.handle fd)
  | reactor {s s' : Server Ans σ} {o : ServerCall} {a : o.Answer}
      {k : o.Answer → ServerProg (Except String Unit)} (hn : s.notify = .call o k)
      (ha : s.answer ⟨o, a⟩ = some s') :
      Step R S s (.reactor ⟨o, a⟩) { s'.record S ⟨o, a⟩ with notify := k a }
  | worker {s s' : Server Ans σ} {i : Nat} {job : Job Ans} {o : ServerCall} {a : o.Answer}
      {k : o.Answer → Prog (JobCall Op) (JobCall.Answer Ans) (Except String Unit)}
      (hj : s.jobs[i]? = some job) (hp : job.prog = .call (.server o) k)
      (ha : s.answer ⟨o, a⟩ = some s') : Step R S s (.worker i ⟨o, a⟩) (s'.setJob i job (k a))
  | storage {s : Server Ans σ} {st : σ} {i : Nat} {job : Job Ans} {o : Op} {a : Ans o}
      {k : Ans o → Prog (JobCall Op) (JobCall.Answer Ans) (Except String Unit)}
      (hj : s.jobs[i]? = some job) (hp : job.prog = .call (.storage o) k)
      (hR : R s.storage o a st) :
      Step R S s (.storage i ⟨o, a⟩) { s.setJob i job (k a) with storage := st }
  | openFile {s : Server Ans σ} {fd : Nat} (hfd : s.kernel.fds fd = none) :
      Step R S s (.openFile fd)
        { s with kernel := s.kernel.openAt fd (.file s.kernel.nextId) }
  | closeFile {s : Server Ans σ} {fd : Int} {id : Nat} (hfd : s.kernel.fds fd = some (.file id)) :
      Step R S s (.closeFile fd) { s with kernel := s.kernel.closeAt fd }

/-- A server that has just begun to listen: its listening socket is in the epoll set, and nobody is
connected. -/
structure Started (s : Server Ans σ) : Prop where
  listening : s.kernel.fds s.driver.listenFd = some .listener
  epoll : s.kernel.epoll = {s.driver.listenFd}
  idle : s.notify = .ret (.ok ())
  jobs : s.jobs = []

/-- A server that begins to listen on `listenFd`. -/
def start (listenFd : Int) (allocations : Std.ExtTreeMap Nat (List Byte)) (storage : σ) :
    Server Ans σ where
  kernel :=
    { fds := Function.update (fun _ => none) listenFd (some .listener)
      nextId := 0
      epoll := {listenFd} }
  driver :=
    { listenFd := listenFd
      clientFds := ∅
      fdToIp := ∅
      allocations := allocations }
  storage := storage
  notify := .ret (.ok ())
  readFrom := none
  jobs := []

theorem started_start (listenFd : Int) (allocations : Std.ExtTreeMap Nat (List Byte)) (storage : σ) :
    (start listenFd allocations storage : Server Ans σ).Started :=
  ⟨by simp [start], rfl, rfl, rfl⟩

/-- A server over a pair of four bytes. -/
abbrev small : Server (RAIDCall.Answer (g := ⟨1, 4, by decide⟩))
    (RAIDStorage StorageMinionMemory MemoryMetadataStore ⟨1, 4, by decide⟩) :=
  start 3 ∅ (RAIDStorage.inMemory _)

/-! ## Steps by a function -/

/-- The steps that are not the storage's, by a function. -/
def exec (S : IStorage Op Ans) (s : Server Ans σ) : Action Ans → Option (Server Ans σ)
  | .event fd => match s.notify with
    | .ret (.ok ()) => if fd ∈ s.kernel.epoll then some (s.handle fd) else none
    | _ => none
  | .reactor ⟨o, a⟩ => match s.notify with
    | .call o' k =>
      if h : o = o' then
        (s.answer ⟨o, a⟩).map fun s' => { s'.record S ⟨o, a⟩ with notify := k (h ▸ a) }
      else none
    | _ => none
  | .worker i ⟨o, a⟩ => s.jobs[i]?.bind fun job => match job.prog with
    | .call (.server o') k =>
      if h : o = o' then (s.answer ⟨o, a⟩).map fun s' => s'.setJob i job (k (h ▸ a)) else none
    | _ => none
  | .storage _ _ => none
  | .openFile fd =>
    if s.kernel.fds fd = none then
      some { s with kernel := s.kernel.openAt fd (.file s.kernel.nextId) }
    else none
  | .closeFile fd => match s.kernel.fds fd with
    | some (.file _) => some { s with kernel := s.kernel.closeAt fd }
    | _ => none

theorem step_of_exec (R : Environment Op Ans σ) {S : IStorage Op Ans} {s s' : Server Ans σ}
    {act : Action Ans} (h : s.exec S act = some s') : Step R S s act s' := by
  cases act with
  | event fd =>
    simp only [exec] at h
    split at h
    · rename_i hidle
      split at h
      · rename_i hfd
        obtain rfl := Option.some.inj h
        exact .event hidle hfd
      · cases h
    · cases h
  -- the exchange has to be the call that the program is at
  | reactor e =>
    obtain ⟨o, a⟩ := e
    simp only [exec] at h
    split at h
    · rename_i o' k hn
      split at h
      · rename_i ho
        subst ho
        obtain ⟨s₁, ha, rfl⟩ := Option.map_eq_some_iff.mp h
        exact .reactor hn ha
      · cases h
    · cases h
  | worker i e =>
    obtain ⟨o, a⟩ := e
    obtain ⟨job, hj, h⟩ := Option.bind_eq_some_iff.mp h
    split at h
    · rename_i o' k hp
      split at h
      · rename_i ho
        subst ho
        obtain ⟨s₁, ha, rfl⟩ := Option.map_eq_some_iff.mp h
        exact .worker hj hp ha
      · cases h
    · cases h
  -- `execStorage` runs the storage
  | storage i e => cases h
  | openFile fd =>
    simp only [exec] at h
    split at h
    · rename_i hfd
      obtain rfl := Option.some.inj h
      exact .openFile hfd
    · cases h
  | closeFile fd =>
    simp only [exec] at h
    split at h
    · rename_i hfd
      obtain rfl := Option.some.inj h
      exact .closeFile hfd
    · cases h

/-- The next call of the worker `i` to the storage, answered by `h`. -/
def execStorage (h : Prog.Handler Op Ans σ) (i : Nat) (s : Server Ans σ) : Option (Server Ans σ) :=
  s.jobs[i]?.bind fun job => match job.prog with
    | .call (.storage o) k =>
      (h o s.storage).map fun r => { s.setJob i job (k r.1) with storage := r.2 }
    | _ => none

/-- The steps in the order of a schedule: an action, or the next call of a worker to the storage. -/
def execWith (h : Prog.Handler Op Ans σ) (S : IStorage Op Ans) (s : Server Ans σ) :
    Action Ans ⊕ Nat → Option (Server Ans σ)
  | .inl act => s.exec S act
  | .inr i => s.execStorage h i

theorem step_of_execStorage {R : Environment Op Ans σ} {S : IStorage Op Ans} {h : Prog.Handler Op Ans σ}
    (hR : ∀ s o a s', h o s = some (a, s') → R s o a s') {i : Nat} {s s' : Server Ans σ}
    (he : s.execStorage h i = some s') : ∃ e, Step R S s (.storage i e) s' := by
  obtain ⟨job, hj, he⟩ := Option.bind_eq_some_iff.mp he
  split at he
  · rename_i o k hp
    obtain ⟨⟨a, st⟩, ho, rfl⟩ := Option.map_eq_some_iff.mp he
    exact ⟨⟨o, a⟩, .storage hj hp (hR _ _ _ _ ho)⟩
  · cases he

/-- A schedule is a run, with the actions that it names. -/
theorem trace_of_execWith {R : Environment Op Ans σ} {S : IStorage Op Ans} {h : Prog.Handler Op Ans σ}
    (hR : ∀ s o a s', h o s = some (a, s') → R s o a s') {sched : List (Action Ans ⊕ Nat)}
    {s s' : Server Ans σ} (he : execAll (execWith h S) sched s = some s') :
    ∃ tr, Trace (Step R S) s tr s' ∧ ∀ act, .inl act ∈ sched → act ∈ tr := by
  induction sched generalizing s with
  | nil =>
    obtain rfl := Option.some.inj he
    exact ⟨[], .nil, fun act hact => by cases hact⟩
  | cons x sched ih =>
    obtain ⟨s₁, h₁, he⟩ := Option.bind_eq_some_iff.mp he
    obtain ⟨tr, hr, hmem⟩ := ih he
    cases x with
    | inl act =>
      refine ⟨act :: tr, .cons (step_of_exec R h₁) hr, fun act' hact => ?_⟩
      rcases List.mem_cons.mp hact with hact | hact
      · cases hact
        exact List.mem_cons_self
      · exact List.mem_cons_of_mem _ (hmem _ hact)
    | inr i =>
      -- the handler gives the answer of the storage
      obtain ⟨e, hs⟩ := step_of_execStorage hR h₁
      refine ⟨_ :: tr, .cons hs hr, fun act' hact => ?_⟩
      rcases List.mem_cons.mp hact with hact | hact
      · cases hact
      · exact List.mem_cons_of_mem _ (hmem _ hact)

end Server

end Server

end LDS
