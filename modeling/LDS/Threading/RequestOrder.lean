import LDS.Storage.DriverData
import LDS.Threading.ThreadPool

/-!
# The order of the requests

`InputMediator` puts a command for every request in the queue of the pool. `FunctionCommand` hands no
priority to `ICommand`, so that all of them get the default one, and the queue may give them out in any
order. The requests come out WRITE before READ before FLUSH as long as requests of two of these kinds are
not queued together.

## Main definitions

* `FunctionCommand.priority`: the priority of a request's command
* `ThreadPool.InOrder`: a command comes out when the requests that go before it are not in the queue
* `ThreadPool.Mixed`: requests of two kinds are queued together

## Main results

* `ThreadPool.only_requests`: the queue holds nothing but requests
* `ThreadPool.pops_in_order_iff`: when the next one to come out is in order, whichever it is
-/

namespace LDS

/-- `ICommand::ICommand(CMDPriority priority = Med)`, which `FunctionCommand` calls without an argument. -/
def FunctionCommand.priority (_request : DriverData) : CMDPriority := .med

namespace ThreadPool

/-- The thread of the reactor, which queues a command for each of the requests that it receives. -/
def addRequests (requests : List DriverData) : PoolProg DriverData Unit :=
  requests.forM fun request => discard (addCommand (some request))

/-- A request of the type `type` is in the queue. -/
def Queued (queue : Multiset (Command DriverData)) (type : ActionType) : Prop :=
  ∃ request, .user request ∈ queue ∧ request.type = type

/-- WRITE before READ before FLUSH: `cmd` comes out of the queue when no request is in it that goes before
this one. -/
def InOrder (queue : Multiset (Command DriverData)) : Command DriverData → Prop
  | .user request =>
    (request.type = .read → ¬ Queued queue .write) ∧
      (request.type = .flush → ¬ Queued queue .write ∧ ¬ Queued queue .read)
  | _ => True

/-- A WRITE is queued with a READ, or a FLUSH with a WRITE or a READ. -/
def Mixed (queue : Multiset (Command DriverData)) : Prop :=
  Queued queue .write ∧ Queued queue .read ∨ Queued queue .flush ∧ (Queued queue .write ∨ Queued queue .read)

variable {n : Nat} {requests : List DriverData} {tr : List (Action DriverData)} {s s' : ThreadPool DriverData}

/-- The calls of the reactor's thread. -/
abbrev AddsRequests : Prog.Contract (PoolCall DriverData) PoolCall.Answer Unit :=
  .plain (fun _ _ => True) (fun o => ∃ request, o = .push (.user request)) False

theorem obeys_addRequests (requests : List DriverData) :
    Prog.Obeys AddsRequests (fun _ _ => True) () (addRequests requests) := by
  induction requests with
  | nil => exact .ret trivial
  | cons request requests ih => exact .call ⟨request, rfl⟩ fun _ _ => ih

/-- **The queue holds nothing but requests.** -/
theorem only_requests (hr : Trace (Step FunctionCommand.priority) (new n (addRequests requests)) tr s) :
    Prog.Obeys AddsRequests (fun _ _ => True) () s.controller ∧
      ∀ cmd ∈ s.queue, ∃ request, cmd = .user request := by
  refine hr.invariant (I := fun _ s => Prog.Obeys AddsRequests (fun _ _ => True) () s.controller ∧
    ∀ cmd ∈ s.queue, ∃ request, cmd = .user request) ⟨obeys_addRequests requests, by simp [new]⟩ ?_
  rintro tr s act s' hs ⟨hp, hq⟩
  cases hs with
  | call hc ha =>
    rw [hc] at hp
    -- the only call puts a request in
    obtain ⟨⟨request, rfl⟩, hk⟩ := hp.call_inv
    obtain rfl := Option.some.inj ha
    refine ⟨hk _ trivial, fun cmd hmem => ?_⟩
    rcases Multiset.mem_cons.mp hmem with rfl | hmem
    · exact ⟨request, rfl⟩
    · exact hq cmd hmem
  | pop hw htakes => exact ⟨hp, fun cmd hmem => hq cmd (htakes.subset hmem)⟩
  | _ => exact ⟨hp, hq⟩

/-- Any request can come out next. -/
theorem exists_pop (hr : Trace (Step FunctionCommand.priority) (new n (addRequests requests)) tr s) {i : Nat}
    (hidle : s.workers[i]? = some .idle) {request : DriverData} (hmem : .user request ∈ s.queue) :
    ∃ s', Step FunctionCommand.priority s (.pop i (.user request)) s' := by
  have hnone : ∀ cmd ∈ s.queue, ¬ Command.lt FunctionCommand.priority (.user request) cmd := by
    intro cmd hcmd
    obtain ⟨request', rfl⟩ := (only_requests hr).2 cmd hcmd
    exact Nat.lt_irrefl _
  obtain ⟨queue, htakes⟩ := exists_takes hmem hnone
  exact ⟨_, .pop hidle htakes⟩

/-- **The order of the requests.** In every state in which a worker waits for a command, whichever comes
out next is in order exactly if requests of two kinds are not queued together. -/
theorem pops_in_order_iff
    (hr : Trace (Step FunctionCommand.priority) (new n (addRequests requests)) tr s) {i : Nat}
    (hidle : s.workers[i]? = some .idle) :
    (∀ j cmd s', Step FunctionCommand.priority s (.pop j cmd) s' → InOrder s.queue cmd) ↔
      ¬ Mixed s.queue := by
  constructor
  · -- a request that others go before can come out
    rintro h (⟨hwrite, request, hmem, htype⟩ | ⟨⟨request, hmem, htype⟩, hbefore⟩)
    · obtain ⟨s', hs⟩ := exists_pop hr hidle hmem
      exact (h i _ s' hs).1 htype hwrite
    · obtain ⟨s', hs⟩ := exists_pop hr hidle hmem
      obtain ⟨hwrite, hread⟩ := (h i _ s' hs).2 htype
      exact hbefore.elim hwrite hread
  · intro hmixed j cmd s' hs
    cases hs with
    | pop hw htakes =>
      cases cmd with
      | user request =>
        constructor
        · intro htype hwrite
          exact hmixed (.inl ⟨hwrite, request, htakes.mem, htype⟩)
        · intro htype
          have hflush : Queued s.queue .flush := ⟨request, htakes.mem, htype⟩
          exact ⟨fun hwrite => hmixed (.inr ⟨hflush, .inl hwrite⟩),
            fun hread => hmixed (.inr ⟨hflush, .inr hread⟩)⟩
      | _ => trivial

/-- A request that the reactor's thread queues. -/
theorem step_addRequests (request : DriverData) (requests : List DriverData)
    (queue : Multiset (Command DriverData)) (workers : List (Worker DriverData)) (b : Bool) :
    Step FunctionCommand.priority ⟨queue, workers, b, addRequests (request :: requests)⟩
      (.call ⟨.push (.user request), ()⟩)
      ⟨.user request ::ₘ queue, workers, b, addRequests requests⟩ := by
  have hpush : (⟨queue, workers, b, addRequests (request :: requests)⟩ : ThreadPool DriverData).answer
      (.push (.user request)) () =
        some ⟨.user request ::ₘ queue, workers, b, addRequests (request :: requests)⟩ := rfl
  exact .call rfl hpush

/-- A WRITE is queued, and a READ that arrived before it comes out. -/
theorem read_before_write :
    ¬ ∀ n requests tr s j cmd s', Trace (Step FunctionCommand.priority) (new n (addRequests requests)) tr s →
      Step FunctionCommand.priority s (.pop j cmd) s' → InOrder s.queue cmd := by
  intro h
  have h₀ : Trace (Step FunctionCommand.priority) (new 1 (addRequests [.new .read 0 0 1, .new .write 0 0 1])) []
    (new 1 (addRequests [.new .read 0 0 1, .new .write 0 0 1])) := .nil
  -- both are in the queue, the `READ` first
  have hr := (h₀.snoc (step_addRequests _ _ _ _ _)).snoc (step_addRequests _ _ _ _ _)
  let read : DriverData := .new .read 0 0 1
  let write : DriverData := .new .write 0 0 1
  have hread : Command.user read ∈ Command.user write ::ₘ Command.user read ::ₘ 0 :=
    Multiset.mem_cons_of_mem (Multiset.mem_cons_self _ _)
  have hwrite : Command.user write ∈ Command.user write ::ₘ Command.user read ::ₘ 0 :=
    Multiset.mem_cons_self _ _
  obtain ⟨s', hs⟩ := exists_pop hr (i := 0) rfl hread
  exact (h _ _ _ _ _ _ _ hr hs).1 rfl ⟨write, hwrite, rfl⟩

/-- Two READs and a FLUSH are queued for two workers. -/
theorem reads_and_flush : ∃ tr s, Trace (Step FunctionCommand.priority)
    (new 2 (addRequests [.new .read 0 0 1, .new .read 1 4 1, .new .flush 2 0 0])) tr s ∧
      s.queue.card = 3 ∧
      ((∀ j cmd s', Step FunctionCommand.priority s (.pop j cmd) s' → InOrder s.queue cmd) ↔
        ¬ Mixed s.queue) := by
  have h₀ : Trace (Step FunctionCommand.priority)
    (new 2 (addRequests [.new .read 0 0 1, .new .read 1 4 1, .new .flush 2 0 0])) []
    (new 2 (addRequests [.new .read 0 0 1, .new .read 1 4 1, .new .flush 2 0 0])) := .nil
  have hr := ((h₀.snoc (step_addRequests _ _ _ _ _)).snoc (step_addRequests _ _ _ _ _)).snoc
    (step_addRequests _ _ _ _ _)
  exact ⟨_, _, hr, rfl, pops_in_order_iff hr (i := 0) rfl⟩

end ThreadPool

end LDS
