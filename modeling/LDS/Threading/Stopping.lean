import LDS.Library.Counting
import LDS.Threading.ThreadPool

/-!
# Stopping the pool

`Stop` puts one command for every worker in the queue, and joins the workers. These commands have the
lowest priority: they come out after all commands above it, but a command of that priority can be left
behind.

## Main definitions

* `ThreadPool.addThenStop`: a thread that adds commands and stops the pool
* `ThreadPool.script`: the calls that it makes
* `Worker.held`: the command that a worker has taken
* `ThreadPool.Stopping`: what holds of the pool on the way

## Main results

* `ThreadPool.Stopping.step`: the commands are executed, held, queued or still to be added, and no worker
  stops while there are others
* `ThreadPool.left_behind`: a command of the lowest priority can be left behind
* `ThreadPool.executed_iff`: when `Stop` loses nothing
-/

namespace LDS

namespace ThreadPool

variable {κ : Type} {prio : κ → CMDPriority}

/-- A thread that adds commands to the pool, one after the other, and then stops it. -/
def addThenStop (cmds : List κ) : PoolProg κ Unit := do
  cmds.forM fun c => discard (addCommand (some c))
  stop

/-- The calls of `Stop`, on `n` workers. -/
def stopScript (n : Nat) : List (PoolCall κ) :=
  [.setSuspendFlag false, .notifyAll, .getSize] ++ List.replicate n (.push .stop) ++
    (List.range' 0 n).map .join

/-- The calls of a thread that adds commands to a pool of `n` workers and then stops it. -/
def script (n : Nat) (cmds : List κ) : List (PoolCall κ) :=
  cmds.map (fun c => .push (.user c)) ++ stopScript n

/-- What the pool answers: it has `n` workers. -/
def HasSize (n : Nat) : (o : PoolCall κ) → o.Answer → Prop
  | .getSize, m => m = n
  | _, _ => True

/-! ## The calls -/

/-- The contract of a program that makes the calls it is to make, on `n` workers. -/
abbrev Follows (n : Nat) (todo : List (PoolCall κ)) (made : List (Exchange (PoolCall κ) PoolCall.Answer))
    (rest : List (PoolCall κ)) (p : PoolProg κ Unit) : Prop :=
  Prog.Obeys (.script (HasSize n)) (fun x _ => x.1 = rest) (todo, made) p

variable {n i : Nat} {rest todo : List (PoolCall κ)}
  {made : List (Exchange (PoolCall κ) PoolCall.Answer)} {cmds : List κ} {cmd : Command κ}

theorem follows_pushAll (m : Nat) (made : List (Exchange (PoolCall κ) PoolCall.Answer)) :
    Follows n (List.replicate m (.push cmd) ++ rest) made rest (pushAll cmd m) := by
  induction m generalizing made with
  | zero => exact .ret rfl
  | succ m ih => exact .script_call fun _ _ => ih _

theorem follows_joinAll (m i : Nat) (made : List (Exchange (PoolCall κ) PoolCall.Answer)) :
    Follows n ((List.range' i m).map .join ++ rest) made rest (joinAll i m) := by
  induction m generalizing i made with
  | zero => exact .ret rfl
  | succ m ih => exact .script_call fun _ _ => ih (i + 1) _

theorem follows_stop (made : List (Exchange (PoolCall κ) PoolCall.Answer)) :
    Follows n (stopScript n) made [] stop := by
  refine .script_call fun _ _ => .script_call fun _ _ => .script_call fun m hm => ?_
  obtain rfl : m = n := hm
  refine (follows_pushAll m _).bind ?_
  rintro ⟨todo, made⟩ _ rfl
  have h : Follows m ((List.range' 0 m).map .join ++ []) made [] (joinAll 0 m) := follows_joinAll m 0 made
  rwa [List.append_nil] at h

theorem follows_addThenStop (n : Nat) (cmds : List κ) :
    Follows n (script n cmds) [] [] (addThenStop cmds) := by
  have hadd : ∀ made, Follows n (script n cmds) made [] (addThenStop cmds) := by
    induction cmds with
    | nil => exact follows_stop
    | cons c cmds ih => exact fun made => .script_call fun _ _ => ih _
  exact hadd []

/-- The command that a call is to put in the queue. -/
def pushed : PoolCall κ → Option (Command κ)
  | .push cmd => some cmd
  | _ => none

/-- The commands that are still to be put in the queue. -/
def toPush (todo : List (PoolCall κ)) : Multiset (Command κ) := ↑(todo.filterMap pushed)

theorem toPush_append (todo todo' : List (PoolCall κ)) :
    toPush (todo ++ todo') = toPush todo + toPush todo' := by
  rw [toPush, List.filterMap_append, ← Multiset.coe_add]
  rfl

@[simp] theorem toPush_push (cmd : Command κ) (todo : List (PoolCall κ)) :
    toPush (.push cmd :: todo) = cmd ::ₘ toPush todo := rfl

theorem toPush_stopScript (n : Nat) : toPush (stopScript n : List (PoolCall κ)) = Multiset.replicate n .stop := by
  have hpush : (List.replicate n (PoolCall.push (κ := κ) .stop)).filterMap pushed =
      List.replicate n .stop := by
    induction n with
    | zero => rfl
    | succ n ih => rw [List.replicate_succ, List.filterMap_cons, ih]; rfl
  have hjoin : ((List.range' 0 n).map (PoolCall.join (κ := κ))).filterMap pushed = [] := by
    rw [List.filterMap_map]
    exact List.filterMap_eq_nil_iff.mpr fun _ _ => rfl
  rw [toPush, stopScript, List.filterMap_append, List.filterMap_append, hpush, hjoin, List.append_nil]
  rfl

/-- The commands of the user, among all commands. -/
def users (cmds : List κ) : Multiset (Command κ) := ↑(cmds.map Command.user)

@[simp] theorem mem_users {c : κ} : .user c ∈ users cmds ↔ c ∈ cmds := by
  simp [users]

@[simp] theorem users_append (cmds cmds' : List κ) : users (cmds ++ cmds') = users cmds + users cmds' := by
  rw [users, List.map_append, ← Multiset.coe_add]
  rfl

theorem toPush_users (cmds : List κ) :
    toPush (cmds.map fun c => PoolCall.push (.user c)) = users cmds := by
  rw [toPush, List.filterMap_map]
  congr 1
  exact List.filterMap_eq_map'.symm ▸ rfl

/-- While a command of the user is to be added, so are the commands of `Stop`. -/
theorem stops_toPush (c : κ) {done : List (PoolCall κ)} (hscript : script n cmds = done ++ todo)
    (hc : .user c ∈ toPush todo) : ∃ m, toPush todo = m + Multiset.replicate n .stop := by
  rcases List.append_eq_append_iff.mp hscript with ⟨l, rfl, hl⟩ | ⟨l, hl, rfl⟩
  · -- the commands of the user have all been added
    have hmem : .user c ∈ toPush (stopScript n) := by
      rw [hl, toPush_append]
      exact Multiset.mem_add.mpr (.inr hc)
    rw [toPush_stopScript] at hmem
    cases Multiset.eq_of_mem_replicate hmem
  · exact ⟨toPush l, by rw [toPush_append, toPush_stopScript]⟩

/-! ## The workers -/

end ThreadPool

/-- The command that a worker has taken: a worker that has ended has taken one of `Stop`. -/
def Worker.held {κ : Type} : Worker κ → Multiset (Command κ)
  | .executing cmd => {cmd}
  | .ended => {.stop}
  | _ => 0

namespace ThreadPool

variable {κ : Type} {prio : κ → CMDPriority} {n i : Nat} {todo : List (PoolCall κ)}
  {made : List (Exchange (PoolCall κ) PoolCall.Answer)} {cmds : List κ} {s s' : ThreadPool κ}
  {tr : List (Action κ)} {act : Action κ} {w : Worker κ}

/-- The commands that the workers have taken. -/
def held (s : ThreadPool κ) : Multiset (Command κ) := (s.workers.map Worker.held).sum

theorem mem_held (hw : s.workers[i]? = some w) {cmd : Command κ} (hc : cmd ∈ w.held) : cmd ∈ s.held :=
  Multiset.mem_of_le
    (List.single_le_sum (fun _ _ => zero_le) _ (List.mem_map_of_mem (List.mem_of_getElem? hw))) hc

/-- A pool of `n` workers to which `cmds` are added before it is stopped, after the calls `made` and before
the calls `todo`. -/
structure Stopping (n : Nat) (cmds : List κ) (tr : List (Action κ)) (s : ThreadPool κ)
    (made : List (Exchange (PoolCall κ) PoolCall.Answer)) (todo : List (PoolCall κ)) : Prop where
  script_eq : script n cmds = made.map Sigma.fst ++ todo
  follows : Follows n todo made [] s.controller
  length_workers : s.workers.length = n
  /-- Nothing is lost: a command is still to be added, queued, taken or executed. -/
  conserved : users (executed tr) + s.held + s.queue + toPush todo =
    users cmds + Multiset.replicate n .stop
  /-- A worker takes a command of `Stop` when there are no others. -/
  stopping : Command.stop ∈ s.held → ∀ c, .user c ∉ s.queue + toPush todo
  awake : ∀ w ∈ s.workers, w ≠ .testing ∧ w ≠ .asleep
  joined : ∀ i, .join i ∈ made.map Sigma.fst → s.workers[i]? = some .ended

namespace Stopping

theorem suspend_not_mem (h : Stopping n cmds tr s made todo) :
    .suspend ∉ s.held + s.queue + toPush todo := by
  intro hm
  have hmem : .suspend ∈ users cmds + Multiset.replicate n Command.stop := by
    rw [← h.conserved, add_assoc, add_assoc, ← add_assoc s.held]
    exact Multiset.mem_add.mpr (.inr hm)
  rcases Multiset.mem_add.mp hmem with hmem | hmem
  · obtain ⟨c, -, hc⟩ := List.mem_map.mp hmem
    cases hc
  · cases Multiset.eq_of_mem_replicate hmem

theorem mem_cmds (h : Stopping n cmds tr s made todo) {c : κ} (hc : .user c ∈ s.queue) : c ∈ cmds := by
  have hmem : .user c ∈ users cmds + Multiset.replicate n Command.stop := by
    rw [← h.conserved]
    exact Multiset.mem_add.mpr (.inl (Multiset.mem_add.mpr (.inr hc)))
  rcases Multiset.mem_add.mp hmem with hmem | hmem
  · exact mem_users.mp hmem
  · cases Multiset.eq_of_mem_replicate hmem

/-- The commands of `Stop` come after all others into the queue. -/
theorem no_users_toPush (h : Stopping n cmds tr s made todo) (hs : Command.stop ∈ s.queue) (c : κ) :
    .user c ∉ toPush todo := by
  classical
  intro hc
  obtain ⟨m, hm⟩ := stops_toPush c h.script_eq hc
  have hcount := congrArg (Multiset.count .stop) h.conserved
  have husers : ∀ l : List κ, (users l).count .stop = 0 := fun l =>
    Multiset.count_eq_zero.mpr fun hmem => by
      obtain ⟨c, -, hc⟩ := List.mem_map.mp (Multiset.mem_coe.mp hmem)
      cases hc
  have hpos := Multiset.count_pos.mpr hs
  simp only [Multiset.count_add, husers, hm, Multiset.count_replicate_self] at hcount
  omega

/-- A worker that is about something else does not keep another one from having ended. -/
theorem joined_set (h : Stopping n cmds tr s made todo) (hw : s.workers[i]? = some w) (hne : w ≠ .ended)
    (w' : Worker κ) (j : Nat) (hj : .join j ∈ made.map Sigma.fst) :
    (s.workers.set i w')[j]? = some .ended := by
  have hold := h.joined j hj
  rw [List.getElem?_set_ne, hold]
  rintro rfl
  exact hne (Option.some.inj (hw.symm.trans hold))

theorem awake_set (h : Stopping n cmds tr s made todo) {w' : Worker κ} (hw' : w' ≠ .testing ∧ w' ≠ .asleep) :
    ∀ w ∈ s.workers.set i w', w ≠ .testing ∧ w ≠ .asleep := by
  intro w hw
  rcases List.mem_or_eq_of_mem_set hw with hw | rfl
  · exact h.awake w hw
  · exact hw'

/-- A call of the thread that adds commands and stops the pool. -/
theorem call (h : Stopping n cmds tr s made todo) {o : PoolCall κ} {a : o.Answer}
    {k : o.Answer → PoolProg κ Unit} (hc : s.controller = .call o k) (ha : s.answer o a = some s') :
    ∃ rest, todo = o :: rest ∧ Stopping n cmds (tr ++ [.call ⟨o, a⟩]) { s' with controller := k a }
      (made ++ [⟨o, a⟩]) rest := by
  obtain ⟨hscript, hfollows, hlen, hconserved, hstopping, hawake, hjoined⟩ := h
  rw [hc] at hfollows
  obtain ⟨rest, rfl⟩ := List.head?_eq_some_iff.mp hfollows.call_inv.1
  have hfst : (made ++ [(⟨o, a⟩ : Exchange (PoolCall κ) PoolCall.Answer)]).map Sigma.fst =
      made.map Sigma.fst ++ [o] := by simp
  have hscript' : script n cmds = made.map Sigma.fst ++ [o] ++ rest := by
    rw [hscript, List.append_assoc]
    rfl
  have hfollows' : Follows n rest (made ++ [⟨o, a⟩]) [] (k a) := by
    refine hfollows.call_inv.2 a ?_
    cases o with
    | getSize =>
      simp only [answer, Option.ite_none_right_eq_some] at ha
      exact ha.1.trans hlen
    | _ => trivial
  have hexec : executed (tr ++ [.call ⟨o, a⟩]) = executed tr := by
    rw [executed_append]
    exact List.append_nil _
  have hjoined' : ∀ i, PoolCall.join i ∈ made.map Sigma.fst ++ [o] → s.workers[i]? = some .ended := by
    intro i hi
    rcases List.mem_append.mp hi with hi | hi
    · exact hjoined i hi
    · -- `join` comes back when the worker has ended
      obtain rfl : o = .join i := (List.mem_singleton.mp hi).symm
      simp only [answer] at ha
      split at ha
      · assumption
      · cases ha
  -- most calls change neither the queue nor the workers
  have hsame : s'.queue = s.queue → s'.workers = s.workers → (∀ cmd, o ≠ .push cmd) →
      Stopping n cmds (tr ++ [.call ⟨o, a⟩]) { s' with controller := k a } (made ++ [⟨o, a⟩]) rest := by
    intro hq hws hpush
    have htoPush : toPush (o :: rest) = toPush rest := by
      cases o with
      | push cmd => exact absurd rfl (hpush cmd)
      | _ => rfl
    rw [htoPush] at hconserved hstopping
    refine ⟨hfst ▸ hscript', hfollows', ?_, ?_, ?_, ?_, ?_⟩
    · exact (congrArg List.length hws).trans hlen
    · simp only [hexec, held, hws, hq]
      exact hconserved
    · simp only [held, hws, hq]
      exact hstopping
    · simp only [hws]
      exact hawake
    · simp only [hfst, hws]
      exact hjoined'
  refine ⟨rest, rfl, ?_⟩
  rcases answer_inv ha with ⟨hq, hws, hpush⟩ | ⟨cmd, rfl, hq, hws⟩ | ⟨rfl, hq, hws⟩ | ⟨m, rfl, -, -⟩
  · exact hsame hq hws hpush
  · rw [toPush_push] at hconserved hstopping
    have hmove : cmd ::ₘ s.queue + toPush rest = s.queue + cmd ::ₘ toPush rest := by
      rw [Multiset.cons_add, Multiset.add_cons]
    refine ⟨hfst ▸ hscript', hfollows', ?_, ?_, ?_, ?_, ?_⟩
    · exact (congrArg List.length hws).trans hlen
    · simp only [hexec, held, hws, hq]
      rw [add_assoc, hmove, ← add_assoc]
      exact hconserved
    · simp only [held, hws, hq, hmove]
      exact hstopping
    · simp only [hws]
      exact hawake
    · simp only [hfst, hws]
      exact hjoined'
  · -- nobody sleeps
    have hwake : s.workers.map wake = s.workers := by
      refine (List.map_congr_left fun w hw => ?_).trans (List.map_id _)
      cases w with
      | asleep => exact absurd rfl (hawake _ hw).2
      | _ => rfl
    exact hsame hq (hws.trans hwake) fun _ he => by cases he
  · -- nobody resizes the pool
    have hmem : PoolCall.initThreads m ∈ script n cmds := by
      rw [hscript]
      exact List.mem_append_right _ List.mem_cons_self
    simp [script, stopScript] at hmem

/-- A worker gets on, with what it holds, what has been executed and what is queued. -/
theorem setWorker (h : Stopping n cmds tr s made todo) (hw : s.workers[i]? = some w) (hne : w ≠ .ended)
    {w' : Worker κ} (hw' : w' ≠ .testing ∧ w' ≠ .asleep) {queue : Multiset (Command κ)}
    {tr' : List (Action κ)} (hkept : users (executed tr') + w'.held + queue =
      users (executed tr) + w.held + s.queue) (hqueue : ∀ c, .user c ∈ queue → .user c ∈ s.queue)
    (hstop : Command.stop ∈ w'.held → Command.stop ∈ s.held ∨ ∀ c, .user c ∉ queue + toPush todo) :
    Stopping n cmds tr' { s.setWorker i w' with queue := queue } made todo := by
  have hheld : (s.setWorker i w').held + w.held = s.held + w'.held := List.sum_map_set Worker.held hw w'
  have hheld' : ({ s.setWorker i w' with queue := queue } : ThreadPool κ).held = (s.setWorker i w').held := rfl
  refine ⟨h.script_eq, h.follows, ?_, ?_, ?_, h.awake_set hw', h.joined_set hw hne w'⟩
  · exact List.length_set.trans h.length_workers
  · -- both sides with what the worker held before
    have hconserved := h.conserved
    refine add_right_cancel (b := w.held) ?_
    calc users (executed tr') + (s.setWorker i w').held + queue + toPush todo + w.held
        = ((s.setWorker i w').held + w.held) + (users (executed tr') + queue) + toPush todo := by abel
      _ = s.held + (users (executed tr') + w'.held + queue) + toPush todo := by
        rw [hheld]
        abel
      _ = users (executed tr) + s.held + s.queue + toPush todo + w.held := by
        rw [hkept]
        abel
      _ = users cmds + Multiset.replicate n .stop + w.held := by rw [hconserved]
  · intro hmem c hc
    have hc' : .user c ∈ s.queue + toPush todo := by
      rcases Multiset.mem_add.mp hc with hc | hc
      · exact Multiset.mem_add.mpr (.inl (hqueue c hc))
      · exact Multiset.mem_add.mpr (.inr hc)
    have hmem' : Command.stop ∈ s.held + w'.held := by
      rw [← hheld]
      exact Multiset.mem_add.mpr (.inl hmem)
    rcases Multiset.mem_add.mp hmem' with hs | hs
    · exact h.stopping hs c hc'
    · rcases hstop hs with hs | hnone
      · exact h.stopping hs c hc'
      · exact hnone c hc

/-- **Nothing is lost on the way**, if no command has the lowest priority. -/
theorem step (hprio : ∀ c ∈ cmds, prio c ≠ .low) (h : Stopping n cmds tr s made todo)
    (hs : Step prio s act s') : ∃ made' todo', Stopping n cmds (tr ++ [act]) s' made' todo' := by
  have hsame : ∀ act, (∀ j c, act ≠ .execute j (.user c)) → executed (tr ++ [act]) = executed tr := by
    intro act hact
    rw [executed_append]
    cases act with
    | execute j cmd =>
      cases cmd with
      | user c => exact absurd rfl (hact j c)
      | _ => exact List.append_nil _
    | _ => exact List.append_nil _
  -- there is no command of `Suspend`, and nobody tests the flag or sleeps
  have hsuspend : ∀ i : Nat, s.workers[i]? ≠ some (Worker.executing .suspend) := by
    intro i hi
    refine h.suspend_not_mem (Multiset.mem_add.mpr (.inl (Multiset.mem_add.mpr (.inl ?_))))
    exact mem_held hi (Multiset.mem_singleton_self _)
  cases hs with
  | call hc ha =>
    obtain ⟨rest, -, hrest⟩ := h.call hc ha
    exact ⟨_, _, hrest⟩
  | @pop i cmd queue hw hq =>
    refine ⟨made, todo, h.setWorker hw (by simp) (by simp) ?_ (fun c hc => hq.subset hc) ?_⟩
    · rw [hsame _ (by simp), hq.eq_cons, ← Multiset.singleton_add]
      show _ + {cmd} + queue = _ + 0 + ({cmd} + queue)
      abel
    · -- a command of `Stop` comes out when all others have come out
      intro hstop
      rw [Worker.held, Multiset.mem_singleton] at hstop
      subst hstop
      right
      intro c hc
      rcases Multiset.mem_add.mp hc with hc | hc
      · refine hq.not_lt _ (hq.subset hc) ?_
        have hlow := hprio c (h.mem_cmds (hq.subset hc))
        simp only [Command.lt, Command.priority]
        generalize prio c = p at hlow
        cases p <;> simp_all [CMDPriority.toNat]
      · exact h.no_users_toPush hq.mem c hc
  | @user i c hw =>
    refine ⟨made, todo, h.setWorker hw (by simp) (by simp) ?_ (fun c hc => hc) ?_⟩
    · rw [executed_append]
      show users (executed tr ++ [c]) + 0 + s.queue = users (executed tr) + {.user c} + s.queue
      rw [users_append, add_zero]
      rfl
    · intro hstop
      exact absurd hstop (Multiset.notMem_zero _)
  | @stop i hw =>
    refine ⟨made, todo, h.setWorker hw (by simp) (by simp) ?_ (fun c hc => hc) ?_⟩
    · rw [hsame _ (by simp)]
      rfl
    · intro _
      exact .inl (mem_held hw (Multiset.mem_singleton_self _))
  | leave hw => exact absurd hw (hsuspend _)
  | test hw => exact absurd hw (hsuspend _)
  | sleep hw => exact absurd rfl (h.awake _ (List.mem_of_getElem? hw)).1
  | spurious hw => exact absurd rfl (h.awake _ (List.mem_of_getElem? hw)).2

end Stopping

theorem stopping_new (n : Nat) (cmds : List κ) :
    Stopping n cmds [] (new n (addThenStop cmds)) [] (script n cmds) where
  script_eq := rfl
  follows := follows_addThenStop n cmds
  length_workers := List.length_replicate
  conserved := by
    have hheld : (new n (addThenStop cmds)).held = 0 := by
      simp [held, new, Worker.held, List.sum_replicate]
    rw [hheld, script, toPush_append, toPush_users, toPush_stopScript]
    simp [users, new]
  stopping := by simp [held, new, Worker.held, List.sum_replicate]
  awake := by
    intro w hw
    rw [List.eq_of_mem_replicate hw]
    simp
  joined := by simp

/-- When `Stop` comes back every command has been executed, if none has the lowest priority. -/
theorem executed_of_stopped (hn : 0 < n) (hprio : ∀ c ∈ cmds, prio c ≠ .low)
    (hr : Trace (Step prio) (new n (addThenStop cmds)) tr s) (hdone : s.controller = .ret ()) :
    (executed tr).Perm cmds ∧ ∀ w ∈ s.workers, w = .ended := by
  obtain ⟨made, todo, h⟩ := hr.invariant
    (I := fun tr s => ∃ made todo, Stopping n cmds tr s made todo) ⟨_, _, stopping_new n cmds⟩
    fun tr s act s' hs ⟨made, todo, h⟩ => h.step hprio hs
  have hfollows := h.follows
  rw [hdone] at hfollows
  obtain rfl : todo = [] := hfollows.ret_inv
  -- all workers have been joined
  have hjoin : ∀ i < n, s.workers[i]? = some .ended := by
    intro i hi
    refine h.joined i ?_
    have hscript := h.script_eq
    rw [List.append_nil] at hscript
    rw [← hscript]
    simp [script, stopScript, hi]
  have hended : s.workers = List.replicate n .ended := by
    refine List.ext_getElem? fun i => ?_
    rcases Nat.lt_or_ge i n with hi | hi
    · rw [hjoin i hi, List.getElem?_replicate_of_lt hi]
    · rw [List.getElem?_eq_none (by rw [h.length_workers]; exact hi),
        List.getElem?_eq_none (by rwa [List.length_replicate])]
  have hheld : s.held = Multiset.replicate n .stop := by
    rw [held, hended, List.map_replicate, List.sum_replicate, Worker.held, Multiset.nsmul_singleton]
  have hall : users (executed tr) + s.queue = users cmds := by
    have hconserved := h.conserved
    rw [hheld, add_right_comm (users (executed tr))] at hconserved
    exact add_right_cancel ((add_zero _).symm.trans hconserved)
  -- what is in the queue would be a command of the user
  have hempty : s.queue = 0 := by
    apply Multiset.eq_zero_of_forall_notMem
    intro cmd hmem
    have hcmd : cmd ∈ users cmds := by
      rw [← hall]
      exact Multiset.mem_add.mpr (.inr hmem)
    obtain ⟨c, -, rfl⟩ := List.mem_map.mp (Multiset.mem_coe.mp hcmd)
    refine h.stopping ?_ c (Multiset.mem_add.mpr (.inl hmem))
    rw [hheld]
    exact Multiset.mem_replicate.mpr ⟨hn.ne', rfl⟩
  rw [hempty, add_zero] at hall
  constructor
  · exact (List.map_perm_map_iff fun _ _ he => Command.user.inj he).mp (Multiset.coe_eq_coe.mp hall)
  · intro w hw
    rw [hended] at hw
    exact List.eq_of_mem_replicate hw

/-! ## A command that is left behind -/

/-- A run from `s` to `s'` that executes `cmds`. -/
def Runs (prio : κ → CMDPriority) (s : ThreadPool κ) (cmds : List κ) (s' : ThreadPool κ) : Prop :=
  ∃ tr, Trace (Step prio) s tr s' ∧ executed tr = cmds

theorem Runs.refl (s : ThreadPool κ) : Runs prio s [] s := ⟨[], .nil, rfl⟩

theorem Runs.trans {cmds cmds' : List κ} {s₁ : ThreadPool κ} (h : Runs prio s cmds s₁)
    (h' : Runs prio s₁ cmds' s') : Runs prio s (cmds ++ cmds') s' := by
  obtain ⟨tr, htr, rfl⟩ := h
  obtain ⟨tr', htr', rfl⟩ := h'
  exact ⟨tr ++ tr', htr.trans htr', executed_append tr tr'⟩

theorem Runs.of_step (hs : Step prio s act s') : Runs prio s (executed [act]) s' :=
  ⟨[act], .snoc .nil hs, rfl⟩

/-- A call, and what follows it. -/
theorem Runs.of_call {cmds : List κ} {o : PoolCall κ} {a : o.Answer} {k : o.Answer → PoolProg κ Unit}
    {s₁ : ThreadPool κ} (hc : s.controller = .call o k) (ha : s.answer o a = some s₁)
    (h : Runs prio { s₁ with controller := k a } cmds s') : Runs prio s cmds s' :=
  (Runs.of_step (.call hc ha)).trans h

theorem runs_pushAll (cmd : Command κ) (m : Nat) (q : Multiset (Command κ)) (ws : List (Worker κ)) (b : Bool)
    (k : Unit → PoolProg κ Unit) :
    Runs prio ⟨q, ws, b, pushAll cmd m >>= k⟩ [] ⟨Multiset.replicate m cmd + q, ws, b, k ()⟩ := by
  induction m generalizing q with
  | zero =>
    rw [Multiset.replicate_zero, zero_add]
    exact .refl _
  | succ m ih =>
    refine Runs.of_call (a := ()) rfl rfl ?_
    have h := ih (cmd ::ₘ q)
    rwa [Multiset.add_cons, ← Multiset.cons_add, ← Multiset.replicate_succ] at h

theorem set_replicate {α : Type} (j m : Nat) (x y : α) :
    (List.replicate j x ++ List.replicate (m + 1) y).set j x =
      List.replicate (j + 1) x ++ List.replicate m y := by
  rw [List.set_append_right _ _ (by simp), List.length_replicate, Nat.sub_self, List.replicate_succ,
    List.set_cons_zero, List.replicate_succ', List.append_assoc]
  rfl

/-- The workers from the `j`-th on take the commands of `Stop`, over a queue of the lowest priority. -/
theorem runs_stops (m j : Nat) {q : Multiset (Command κ)} (hq : ∀ cmd ∈ q, cmd.priority prio = .low) (b : Bool)
    (p : PoolProg κ Unit) :
    Runs prio ⟨Multiset.replicate m .stop + q, List.replicate j .ended ++ List.replicate m .idle, b, p⟩ []
      ⟨q, List.replicate (j + m) .ended, b, p⟩ := by
  induction m generalizing j with
  | zero =>
    rw [Multiset.replicate_zero, zero_add, List.replicate_zero, List.append_nil]
    exact .refl _
  | succ m ih =>
    -- nothing in the queue goes before a command of `Stop`
    have hlow : ∀ cmd ∈ Multiset.replicate m Command.stop + q, ¬ Command.lt prio .stop cmd := by
      intro cmd hmem
      have hp : cmd.priority prio = .low := by
        rcases Multiset.mem_add.mp hmem with hmem | hmem
        · rw [Multiset.eq_of_mem_replicate hmem]
          rfl
        · exact hq cmd hmem
      rw [Command.lt, hp]
      exact Nat.lt_irrefl _
    rw [Multiset.replicate_succ, Multiset.cons_add]
    have hidle : (List.replicate j Worker.ended ++ List.replicate (m + 1) (Worker.idle (κ := κ)))[j]? =
        some .idle := by
      rw [List.getElem?_append_right (by simp)]
      simp
    have hpop : Takes (Command.lt prio) (Command.stop ::ₘ (Multiset.replicate m .stop + q)) .stop
        (Multiset.replicate m .stop + q) := takes_cons (Nat.lt_irrefl _) hlow
    -- the `j`-th worker takes it, and ends
    refine (Runs.of_step (.pop hidle hpop)).trans ((Runs.of_step (.stop (i := j) ?_)).trans ?_)
    · exact List.getElem?_set_self (by simp)
    · have h := ih (j + 1)
      rw [← set_replicate, Nat.add_right_comm] at h
      simp only [setWorker, List.set_set]
      exact h

/-- The workers that have ended are joined. -/
theorem runs_joinAll (m i : Nat) (h : i + m ≤ n) (q : Multiset (Command κ)) (b : Bool) :
    Runs prio ⟨q, List.replicate n .ended, b, joinAll i m⟩ [] ⟨q, List.replicate n .ended, b, .ret ()⟩ := by
  induction m generalizing i with
  | zero => exact .refl _
  | succ m ih =>
    have hjoin : (⟨q, List.replicate n .ended, b, joinAll i (m + 1)⟩ : ThreadPool κ).answer (.join i) () =
        some ⟨q, List.replicate n .ended, b, joinAll i (m + 1)⟩ := by
      simp only [answer]
      rw [List.getElem?_replicate_of_lt (by omega)]
    exact Runs.of_call rfl hjoin (ih (i + 1) (by omega))

/-- A command above the lowest priority is executed by the first worker, over a queue of that priority. -/
theorem runs_user (hn : 0 < n) {q : Multiset (Command κ)} (hq : ∀ cmd ∈ q, cmd.priority prio = .low)
    (c : κ) (b : Bool) (p : PoolProg κ Unit) :
    Runs prio ⟨.user c ::ₘ q, List.replicate n .idle, b, p⟩ [c] ⟨q, List.replicate n .idle, b, p⟩ := by
  obtain ⟨n, rfl⟩ := Nat.exists_eq_succ_of_ne_zero hn.ne'
  have hpop : Takes (Command.lt prio) (.user c ::ₘ q) (.user c) q := by
    refine takes_cons (Nat.lt_irrefl _) ?_
    intro cmd hmem
    rw [Command.lt, hq cmd hmem]
    exact Nat.not_lt_zero _
  refine (Runs.of_step (.pop (i := 0) (by simp) hpop)).trans ?_
  refine (Runs.of_step (.user (i := 0) (c := c) ?_)).trans ?_
  · exact List.getElem?_set_self (by simp)
  · simp only [setWorker, List.replicate_succ, List.set_cons_zero]
    exact .refl _

/-- Over a queue of the lowest priority the workers all take a command of `Stop`. -/
theorem runs_stop {q : Multiset (Command κ)} (hq : ∀ cmd ∈ q, cmd.priority prio = .low) (n : Nat) :
    Runs prio ⟨q, List.replicate n .idle, false, stop⟩ [] ⟨q, List.replicate n .ended, false, .ret ()⟩ := by
  refine Runs.of_call (a := ()) rfl rfl (Runs.of_call (a := ()) rfl rfl ?_)
  have hsize : ∀ k : Nat → PoolProg κ Unit,
      (⟨q, (List.replicate n .idle).map wake, false, .call .getSize k⟩ : ThreadPool κ).answer .getSize n =
        some ⟨q, List.replicate n .idle, false, .call .getSize k⟩ := by
    intro k
    simp only [answer, List.map_replicate, List.length_replicate, if_true]
    rfl
  refine Runs.of_call (a := n) rfl (hsize _) ((runs_pushAll .stop n q _ false _).trans ?_)
  have hstops := runs_stops n 0 hq false (joinAll 0 n)
  rw [List.replicate_zero, List.nil_append, Nat.zero_add] at hstops
  exact hstops.trans (runs_joinAll n 0 (by omega) q false)

/-- **Commands of the lowest priority can be left behind**: the workers take all others, and then the
commands of `Stop`. -/
theorem left_behind (hn : 0 < n) {q : Multiset (Command κ)} (hq : ∀ cmd ∈ q, cmd.priority prio = .low)
    (cmds : List κ) : ∃ q', Runs prio ⟨q, List.replicate n .idle, false, addThenStop cmds⟩
      (cmds.filter fun c => prio c ≠ .low) ⟨q', List.replicate n .ended, false, .ret ()⟩ := by
  induction cmds generalizing q with
  | nil => exact ⟨q, runs_stop hq n⟩
  | cons c cmds ih =>
    by_cases hc : prio c = .low
    · obtain ⟨q', h⟩ := ih (q := .user c ::ₘ q) fun cmd hmem => by
        rcases Multiset.mem_cons.mp hmem with rfl | hmem
        · exact hc
        · exact hq cmd hmem
      refine ⟨q', ?_⟩
      rw [List.filter_cons_of_neg (by simpa using hc)]
      exact Runs.of_call (a := ()) rfl rfl h
    · obtain ⟨q', h⟩ := ih hq
      refine ⟨q', ?_⟩
      rw [List.filter_cons_of_pos (by simpa using hc)]
      refine Runs.of_call (a := ()) rfl rfl ?_
      -- the first worker executes the command at once
      exact (runs_user hn hq c false _).trans h

/-- **Stopping the pool** loses no command, in any run, exactly if none has the lowest priority. -/
theorem executed_iff (hn : 0 < n) (cmds : List κ) :
    (∀ tr s, Trace (Step prio) (new n (addThenStop cmds)) tr s → s.controller = .ret () →
      (executed tr).Perm cmds ∧ ∀ w ∈ s.workers, w = .ended) ↔ ∀ c ∈ cmds, prio c ≠ .low := by
  constructor
  · intro h c hc hlow
    have hq : ∀ cmd ∈ (0 : Multiset (Command κ)), cmd.priority prio = .low := by simp
    obtain ⟨q, tr, htr, hexec⟩ := left_behind hn hq cmds
    have hperm := (h tr _ htr rfl).1
    have hmem : c ∈ executed tr := hperm.mem_iff.mpr hc
    rw [hexec, List.mem_filter] at hmem
    simp [hlow] at hmem
  · intro hprio tr s hr hdone
    exact executed_of_stopped hn hprio hr hdone

/-- One worker, and four commands of the lowest priority. -/
theorem low_command_lost :
    ¬ ∀ tr s, Trace (Step fun _ : Unit => .low) (new 1 (addThenStop [(), (), (), ()])) tr s →
      s.controller = .ret () → (executed tr).Perm [(), (), (), ()] ∧ ∀ w ∈ s.workers, w = .ended := by
  intro h
  have hq : ∀ cmd ∈ (0 : Multiset (Command Unit)), cmd.priority (fun _ => .low) = .low := by simp
  obtain ⟨q, tr, htr, hexec⟩ := left_behind Nat.one_pos hq [(), (), (), ()]
  have hperm := (h tr _ htr rfl).1
  rw [hexec] at hperm
  exact absurd hperm.length_eq (by decide)

/-- Two workers, and commands of three priorities. -/
theorem executed_of_three :
    (∀ tr s, Trace (Step fun c : Fin 3 => if c = 0 then .med else if c = 1 then .high else .admin)
      (new 2 (addThenStop [0, 1, 2])) tr s → s.controller = .ret () →
      (executed tr).Perm [0, 1, 2] ∧ ∀ w ∈ s.workers, w = .ended) ↔
    ∀ c ∈ [(0 : Fin 3), 1, 2], (if c = 0 then CMDPriority.med else if c = 1 then .high else .admin) ≠ .low :=
  executed_iff (by decide) [0, 1, 2]

end ThreadPool

end LDS
