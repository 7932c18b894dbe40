import LDS.Library.PriorityQueue
import LDS.Library.Program
import LDS.Library.Trace

/-!
# The thread pool

The workers of a `ThreadPool` take commands from a priority queue and execute them. A thread that holds
the pool adds commands, suspends, resumes, stops and resizes it; stopping and suspending are commands in
the same queue. A call is what the threads can see of each other: a critical section of the queue, a
store to the flag, a notification, a thread that has ended.

## Main definitions

* `CMDPriority`, `Command`: the commands and their order
* `Worker`: what a worker is about
* `ThreadPool`: the states
* `ThreadPool.addCommand`, `ThreadPool.stop`, `ThreadPool.suspend`, `ThreadPool.resume`,
  `ThreadPool.setSize`: the members
* `ThreadPool.Step`: the steps of the workers and of the thread that holds the pool
* `ThreadPool.executed`: the commands that have been executed

## Main results

* `ThreadPool.answer_inv`: what a call does to the queue and to the workers
-/

namespace LDS

/-! ## Commands -/

/-- `ICommand::CMDPriority`. -/
inductive CMDPriority
  | low
  | med
  | high
  | admin
  deriving DecidableEq

/-- The value of the enumerator. -/
def CMDPriority.toNat : CMDPriority → Nat
  | low => 0
  | med => 1
  | high => 2
  | admin => 3

/-- The commands in the queue: those of the user, and those of `Stop` and `Suspend`. -/
inductive Command (κ : Type)
  | user (c : κ)
  | stop
  | suspend

section Priority

variable {κ : Type} (prio : κ → CMDPriority)

/-- `m_priority`, as the constructors set it. -/
def Command.priority : Command κ → CMDPriority
  | user c => prio c
  | stop => .low
  | suspend => .high

/-- `ThreadPool::Comparator`, which is `ICommand::operator<`. -/
def Command.lt (a b : Command κ) : Prop :=
  (a.priority prio).toNat < (b.priority prio).toNat

instance (a b : Command κ) : Decidable (Command.lt prio a b) :=
  inferInstanceAs (Decidable ((a.priority prio).toNat < (b.priority prio).toNat))

end Priority

/-! ## The calls of the thread that holds the pool -/

/-- The calls of the members of `ThreadPool`. -/
inductive PoolCall (κ : Type)
  | push (cmd : Command κ)
  | setSuspendFlag (b : Bool)
  | notifyAll
  | getSize
  | join (i : Nat)
  | initThreads (n : Nat)

/-- What a call answers. -/
abbrev PoolCall.Answer {κ : Type} : PoolCall κ → Type
  | getSize => Nat
  | _ => Unit

/-- A program of the thread that holds the pool. -/
abbrev PoolProg (κ : Type) := Prog (PoolCall κ) PoolCall.Answer

namespace ThreadPool

variable {κ : Type}

/-- `ThreadPool::AddCommand`; `none` is a null pointer. -/
def addCommand (cmd : Option κ) : PoolProg κ (Except String Unit) :=
  match cmd with
  | none => return .error "Null command"
  | some cmd => do
    Prog.perform (PoolCall.push (.user cmd))
    return .ok ()

/-- `ThreadPool::Resume`. -/
def resume : PoolProg κ Unit := do
  Prog.perform (PoolCall.setSuspendFlag false)
  Prog.perform PoolCall.notifyAll

/-- The loops of `Stop` and `Suspend`: one command for every worker. -/
def pushAll (cmd : Command κ) : Nat → PoolProg κ Unit
  | 0 => return ()
  | n + 1 => do
    Prog.perform (PoolCall.push cmd)
    pushAll cmd n

/-- The second loop of `Stop`: joins the `n` workers from `i` on. -/
def joinAll (i : Nat) : Nat → PoolProg κ Unit
  | 0 => return ()
  | n + 1 => do
    Prog.perform (PoolCall.join i)
    joinAll (i + 1) n

/-- `ThreadPool::Stop`. -/
def stop : PoolProg κ Unit := do
  resume
  let n ← Prog.perform PoolCall.getSize
  pushAll .stop n
  joinAll 0 n

/-- `ThreadPool::Suspend`. -/
def suspend : PoolProg κ Unit := do
  Prog.perform (PoolCall.setSuspendFlag true)
  let n ← Prog.perform PoolCall.getSize
  pushAll .suspend n

/-- `ThreadPool::SetSize`. -/
def setSize (newSize : Nat) : PoolProg κ (Except String Unit) := do
  if newSize = 0 then return .error "Size cannot be 0"
  else do
    stop
    Prog.perform (PoolCall.initThreads newSize)
    return .ok ()

end ThreadPool

/-! ## The states -/

/-- What a worker is about: it is to take a command, it executes one, it has found the flag of
`SuspendCommand` set and holds the mutex, it sleeps on the condition variable, or it has ended. -/
inductive Worker (κ : Type)
  | idle
  | executing (cmd : Command κ)
  | testing
  | asleep
  | ended

/-- The states of the pool: `controller` is what the thread that holds it has left to do. -/
structure ThreadPool (κ : Type) where
  queue : Multiset (Command κ)
  workers : List (Worker κ)
  suspendFlag : Bool
  controller : PoolProg κ Unit

namespace ThreadPool

variable {κ : Type} {prio : κ → CMDPriority}

/-- A pool of `n` workers that has just been constructed. -/
def new (n : Nat) (controller : PoolProg κ Unit) : ThreadPool κ where
  queue := 0
  workers := List.replicate n .idle
  suspendFlag := false
  controller := controller

/-- `notify_all` wakes the workers that sleep: they are to take the mutex and test the flag again. -/
def wake : Worker κ → Worker κ
  | .asleep => .executing .suspend
  | w => w

/-- What a call does if it is answered `a`; `none` if it is not answered so now. -/
def answer : (o : PoolCall κ) → o.Answer → ThreadPool κ → Option (ThreadPool κ)
  | .push cmd, _, s => some { s with queue := cmd ::ₘ s.queue }
  | .setSuspendFlag b, _, s => some { s with suspendFlag := b }
  | .notifyAll, _, s => some { s with workers := s.workers.map wake }
  | .getSize, n, s => if n = s.workers.length then some s else none
  | .join i, _, s => match s.workers[i]? with
    | some .ended => some s
    | _ => none
  | .initThreads n, _, s => some { s with workers := List.replicate n .idle }

/-- The steps: a call of the thread that holds the pool, a worker that takes a command, and one that gets
on with the command it executes. -/
inductive Action (κ : Type)
  | call (e : Exchange (PoolCall κ) PoolCall.Answer)
  | pop (i : Nat) (cmd : Command κ)
  | execute (i : Nat) (cmd : Command κ)
  | sleep (i : Nat)
  | spurious (i : Nat)

/-- The worker `i` has come to `w`. -/
def setWorker (i : Nat) (w : Worker κ) (s : ThreadPool κ) : ThreadPool κ :=
  { s with workers := s.workers.set i w }

/-- The steps of the pool. A command of the user returns or throws, and `ThreadFunc` goes on; the exception
of `StopCommand` ends the worker; `SuspendCommand` tests the flag under the mutex, and leaves or goes to
sleep. -/
inductive Step (prio : κ → CMDPriority) : ThreadPool κ → Action κ → ThreadPool κ → Prop
  | call {s s' : ThreadPool κ} {o : PoolCall κ} {a : o.Answer} {k : o.Answer → PoolProg κ Unit}
      (hc : s.controller = .call o k) (ha : s.answer o a = some s') :
      Step prio s (.call ⟨o, a⟩) { s' with controller := k a }
  | pop {s : ThreadPool κ} {i : Nat} {cmd : Command κ} {queue : Multiset (Command κ)}
      (hw : s.workers[i]? = some .idle) (hq : Takes (Command.lt prio) s.queue cmd queue) :
      Step prio s (.pop i cmd) { s.setWorker i (.executing cmd) with queue := queue }
  | user {s : ThreadPool κ} {i : Nat} {c : κ} (hw : s.workers[i]? = some (.executing (.user c))) :
      Step prio s (.execute i (.user c)) (s.setWorker i .idle)
  | stop {s : ThreadPool κ} {i : Nat} (hw : s.workers[i]? = some (.executing .stop)) :
      Step prio s (.execute i .stop) (s.setWorker i .ended)
  | leave {s : ThreadPool κ} {i : Nat} (hw : s.workers[i]? = some (.executing .suspend))
      (hmutex : ∀ w ∈ s.workers, w ≠ .testing) (hflag : s.suspendFlag = false) :
      Step prio s (.execute i .suspend) (s.setWorker i .idle)
  | test {s : ThreadPool κ} {i : Nat} (hw : s.workers[i]? = some (.executing .suspend))
      (hmutex : ∀ w ∈ s.workers, w ≠ .testing) (hflag : s.suspendFlag = true) :
      Step prio s (.execute i .suspend) (s.setWorker i .testing)
  | sleep {s : ThreadPool κ} {i : Nat} (hw : s.workers[i]? = some .testing) :
      Step prio s (.sleep i) (s.setWorker i .asleep)
  | spurious {s : ThreadPool κ} {i : Nat} (hw : s.workers[i]? = some .asleep) :
      Step prio s (.spurious i) (s.setWorker i (.executing .suspend))

/-- The commands of the user that have been executed, in the order in which they ended. -/
def executed (tr : List (Action κ)) : List κ :=
  tr.filterMap fun
    | .execute _ (.user c) => some c
    | _ => none

@[simp] theorem executed_nil : executed ([] : List (Action κ)) = [] := rfl

@[simp] theorem executed_append (tr tr' : List (Action κ)) :
    executed (tr ++ tr') = executed tr ++ executed tr' := List.filterMap_append

/-- What a call does to the queue and to the workers. -/
theorem answer_inv {s s' : ThreadPool κ} {o : PoolCall κ} {a : o.Answer} (h : s.answer o a = some s') :
    (s'.queue = s.queue ∧ s'.workers = s.workers ∧ ∀ cmd, o ≠ .push cmd) ∨ (∃ cmd, o = .push cmd ∧ s'.queue = cmd ::ₘ s.queue ∧
      s'.workers = s.workers) ∨ (o = .notifyAll ∧ s'.queue = s.queue ∧ s'.workers = s.workers.map wake) ∨
      ∃ n, o = .initThreads n ∧ s'.queue = s.queue ∧ s'.workers = List.replicate n .idle := by
  cases o with
  | push cmd =>
    obtain rfl := Option.some.inj h
    exact .inr (.inl ⟨cmd, rfl, rfl, rfl⟩)
  | setSuspendFlag b =>
    obtain rfl := Option.some.inj h
    exact .inl ⟨rfl, rfl, fun _ he => by cases he⟩
  | notifyAll =>
    obtain rfl := Option.some.inj h
    exact .inr (.inr (.inl ⟨rfl, rfl, rfl⟩))
  | getSize =>
    simp only [answer, Option.ite_none_right_eq_some] at h
    obtain rfl := Option.some.inj h.2
    exact .inl ⟨rfl, rfl, fun _ he => by cases he⟩
  | join i =>
    simp only [answer] at h
    split at h
    · obtain rfl := Option.some.inj h
      exact .inl ⟨rfl, rfl, fun _ he => by cases he⟩
    · cases h
  | initThreads n =>
    obtain rfl := Option.some.inj h
    exact .inr (.inr (.inr ⟨n, rfl, rfl, rfl⟩))

end ThreadPool

end LDS
