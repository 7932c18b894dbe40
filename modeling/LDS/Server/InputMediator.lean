import LDS.Library.Bytes
import LDS.Server.TCPDriverComm
import LDS.Storage.IStorage

/-!
# The mediator

`InputMediator` is called by the reactor for every descriptor that is ready. It accepts a client, or
receives a request and puts a command for it in the queue of the pool. The command looks its handler
up, lets the storage do the work and sends the reply.

## Main definitions

* `InputMediator.notify`: the program of one event
* `InputMediator.command`: the program of one command
* `InputMediator.job`: the command, down to the calls of the driver
-/

namespace LDS

/-- The calls of a command: those of the storage, and `SendReply`. -/
inductive CommandCall (Op : Type)
  | storage (o : Op)
  | sendReply (data : DriverData)

/-- What a call of a command answers. -/
abbrev CommandCall.Answer {Op : Type} (Ans : Op → Type) : CommandCall Op → Type
  | storage o => Ans o
  | sendReply _ => Except String Unit

/-- The calls of a pool worker: those of the storage, and those of the server. -/
inductive JobCall (Op : Type)
  | storage (o : Op)
  | server (o : ServerCall)

/-- What a call of a worker answers. -/
abbrev JobCall.Answer {Op : Type} (Ans : Op → Type) : JobCall Op → Type
  | storage o => Ans o
  | server o => o.Answer

namespace InputMediator

/-! ## Commands -/

section Command

variable {Op : Type} {Ans : Op → Type}

/-- A program of a command. -/
abbrev CommandProg (Ans : Op → Type) := Prog (CommandCall Op) (CommandCall.Answer Ans)

/-- A member of the storage, called by a command. -/
def callStorage {α : Type} (p : Prog Op Ans α) : CommandProg Ans α :=
  .lift (CommandCall.Answer Ans) CommandCall.storage p

/-- `m_driver->SendReply`. -/
def sendReply (request : DriverData) : CommandProg Ans (Except String Unit) :=
  Prog.perform (CommandCall.sendReply request)

/-- The buffer of a `LIST_OFFSETS` reply: offset and size of every entry, in network order. -/
def packOffsets (offsets : List (Nat × Nat)) : List Byte :=
  offsets.flatMap fun (offset, size) => bigEndian 8 offset ++ bigEndian 8 size

/-- `m_handlers`; an action without an entry has no handler. -/
def handlers (S : IStorage Op Ans) :
    ActionType → Option (DriverData → CommandProg Ans (Except String Unit))
  | .read => some fun request => do
    match ← callStorage (S.read request) with
    | .error what => return .error what
    | .ok request => sendReply request
  | .write => some fun request => do
    match ← callStorage (S.write request) with
    | .error what => return .error what
    | .ok request => sendReply request
  | .flush => some fun request => sendReply { request with status := .success }
  | .trim => some fun request => sendReply { request with status := .success }
  | .disconnect => some fun _ => return .ok ()
  | .getSize => some fun request => do
    let len ← callStorage (S.getDataSize request.offset)
    sendReply { request with len := len, status := .success }
  | .listOffsets => some fun request => do
    let offsets ← callStorage S.listOffsets
    let buffer := packOffsets offsets
    sendReply { request with buffer := buffer, len := buffer.length, status := .success }
  | .other _ => none

/-- The command that `Notify` puts in the queue. `at` throws where there is no handler; the worker
drops every exception. -/
def command (S : IStorage Op Ans) (request : DriverData) : CommandProg Ans (Except String Unit) :=
  match handlers S request.type with
  | some handler => handler request
  | none => return .error "map::at"

/-- A call of a command, down to the calls of the driver. -/
def runCall (driver : IDriverComm) :
    (o : CommandCall Op) → Prog (JobCall Op) (JobCall.Answer Ans) (CommandCall.Answer Ans o)
  | .storage o => Prog.perform (JobCall.storage o)
  | .sendReply data => .lift (JobCall.Answer Ans) JobCall.server (driver.sendReply data)

/-- What a worker runs. -/
def job (driver : IDriverComm) (S : IStorage Op Ans) (request : DriverData) :
    Prog (JobCall Op) (JobCall.Answer Ans) (Except String Unit) :=
  (command S request).inline (runCall driver)

/-- The contract of a command: it replies to descriptors in `P`. -/
abbrev repliesTo (A : (o : Op) → Ans o → Prop) (P : Int → Prop) :
    Prog.Contract (CommandCall Op) (CommandCall.Answer Ans) Unit :=
  .plain (fun | .storage o, a => A o a | .sendReply _, _ => True)
    (fun | .storage _ => True | .sendReply data => P data.sourceFd) True

/-- A command replies to the descriptor that its request came from. -/
theorem obeys_command {A : (o : Op) → Ans o → Prop} {S : IStorage Op Ans} (hS : S.Keeps A)
    (request : DriverData) :
    Prog.Obeys (repliesTo A (· = request.sourceFd)) (fun _ _ => True) () (command S request) := by
  have hreply : ∀ data : DriverData, data.sourceFd = request.sourceFd →
      Prog.Obeys (repliesTo A (· = request.sourceFd)) (fun _ _ => True) ()
        (sendReply data : CommandProg Ans _) := fun data h => .call h fun _ _ => .ret trivial
  -- a member of the storage that gives the request back, and the reply
  have hserve : ∀ p : Prog Op Ans (Except String DriverData),
      Prog.Obeys (.plain A (fun _ => True) True)
        (fun _ r => ∀ data, r = .ok data → SameRequest request data) () p →
      Prog.Obeys (repliesTo A (· = request.sourceFd)) (fun _ _ => True) () (do
        match ← callStorage p with
        | .error what => return .error what
        | .ok request => sendReply request) := fun p hp => by
    refine Prog.Obeys.bind (Prog.Obeys.lift hp) ?_
    rintro _ (what | data) h
    · exact .ret trivial
    · exact hreply data (h data rfl).sourceFd
  have hany : ∀ {α : Type} (p : Prog Op Ans α), Prog.Obeys (repliesTo A (· = request.sourceFd))
      (fun _ _ => True) () (callStorage p) := fun p =>
    Prog.Obeys.lift (.of_allowed (fun _ _ => trivial) trivial fun _ _ => trivial)
  rw [command]
  cases request.type with
  | read => exact hserve _ (hS.read request)
  | write => exact hserve _ (hS.write request)
  | disconnect => exact .ret trivial
  | flush => exact hreply _ rfl
  | trim => exact hreply _ rfl
  | getSize => exact (hany _).bind fun _ _ _ => hreply _ rfl
  | listOffsets => exact (hany _).bind fun _ _ _ => hreply _ rfl
  | other code => exact .ret trivial

/-- The contract of a worker: all that it does to descriptors is to write to those in `P`. -/
abbrev writesTo (A : (o : Op) → Ans o → Prop) (P : Int → Prop) :
    Prog.Contract (JobCall Op) (JobCall.Answer Ans) Unit :=
  .plain (fun | .storage o, a => A o a | .server _, _ => True)
    (fun | .storage _ => True | .server o => ∃ fd buf, o = .write fd buf ∧ P fd) True

/-- The worker of a TCP command writes to the descriptors that the command replies to. -/
theorem obeys_job {A : (o : Op) → Ans o → Prop} {P : Int → Prop} {S : IStorage Op Ans}
    {request : DriverData} (listenFd : Int)
    (h : Prog.Obeys (repliesTo A P) (fun _ _ => True) () (command S request)) :
    Prog.Obeys (writesTo A P) (fun _ _ => True) ()
      (job (TCPDriverComm.toIDriverComm listenFd) S request) := by
  refine h.inline id ?_
  rintro (o | data) ho
  · exact .call trivial fun a ha => .ret ha
  · refine Prog.Obeys.lift (Prog.Obeys.mono (TCPDriverComm.obeys_sendReply (P := fun _ => True)
      (fun buf => Prog.Contract.leads_plain ⟨_, _, rfl, ho⟩) trivial) fun _ _ _ => trivial)

end Command

/-! ## Events -/

/-- The `try` block of `InputMediator::Notify`, and what it does about an exception. -/
def queueRequest (driver : IDriverComm) (fd : Int) : ServerProg (Except String Unit) := do
  match ← driver.receiveRequest fd with
  | .ok request =>
    Prog.perform (ServerCall.addCommand request)
    return .ok ()
  | .error _ =>
    match ← Reactor.remove fd with
    | .error what => return .error what
    | .ok () =>
      driver.removeClientFD fd
      return .ok ()

/-- `InputMediator::Notify`. A result `.error` leaves `Reactor::Run`. -/
def notify (driver : IDriverComm) (fd : Int) : ServerProg (Except String Unit) := do
  let newClientFd ← driver.tryAccept fd
  if 0 ≤ newClientFd then Reactor.add newClientFd
  else queueRequest driver fd

/-- An event of a client is a request of its own. -/
theorem notify_of_ne {listenFd fd : Int} (h : fd ≠ listenFd) :
    notify (TCPDriverComm.toIDriverComm listenFd) fd =
      queueRequest (TCPDriverComm.toIDriverComm listenFd) fd := by
  have haccept : (TCPDriverComm.toIDriverComm listenFd).tryAccept fd = .ret (-1) :=
    TCPDriverComm.tryAccept_of_ne h
  rw [notify, haccept, Prog.ret_bind]
  exact if_neg (by decide)

end InputMediator

end LDS
