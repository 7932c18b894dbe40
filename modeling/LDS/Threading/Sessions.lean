import LDS.Library.Counting
import LDS.Threading.ThreadPool

/-!
# Sessions of the thread pool

A thread that holds the pool calls its members in any order. What it has called so far tells how many
workers there are, how many commands of `Stop` are for them and which of them have ended.

## Main definitions

* `PoolOp`, `ThreadPool.session`: sequences of public calls
* `ThreadPool.Phase`: what the calls so far tell
* `ThreadPool.phases`: the contracts of the thread that holds the pool
* `ThreadPool.load`: the commands of a kind that are queued or taken

## Main results

* `ThreadPool.load_call`, `ThreadPool.load_worker`: commands of a kind neither vanish nor appear
* `ThreadPool.Phase.Tracks.step`: the pool is as the calls so far tell
* `ThreadPool.obeys_phase`: the thread that holds the pool keeps to its contract
* `ThreadPool.trace_of_returned`: a run up to the return of a call
-/

namespace LDS

/-- The public members of `ThreadPool`. -/
inductive PoolOp (κ : Type)
  | addCommand (cmd : Option κ)
  | suspend
  | resume
  | stop
  | setSize (newSize : Nat)

namespace ThreadPool

variable {κ : Type} {prio : κ → CMDPriority}

/-- One public call, whose exception is caught. -/
def perform : PoolOp κ → PoolProg κ Unit
  | .addCommand cmd => do
    let _ ← addCommand cmd
    return ()
  | .suspend => suspend
  | .resume => resume
  | .stop => stop
  | .setSize newSize => do
    let _ ← setSize newSize
    return ()

/-- A sequence of public calls. -/
def session : List (PoolOp κ) → PoolProg κ Unit
  | [] => return ()
  | op :: ops => do
    perform op
    session ops

/-- `SetSize` stops the workers and makes new ones. -/
theorem session_setSize {newSize : Nat} (hnew : newSize ≠ 0) (ops : List (PoolOp κ)) :
    session (.setSize newSize :: ops) =
      stop >>= fun _ => .call (.initThreads newSize) fun _ => session ops := by
  simp only [session, perform, setSize, if_neg hnew, bind_assoc]
  rfl

/-! ## The calls so far -/

/-- The calls of a run. -/
def calls (tr : List (Action κ)) : List (PoolCall κ) :=
  tr.filterMap fun
    | .call e => some e.1
    | _ => none

theorem calls_append (tr tr' : List (Action κ)) : calls (tr ++ tr') = calls tr ++ calls tr' :=
  List.filterMap_append

/-- What the calls so far tell: the number of workers, the commands of `Stop` that were added since the
workers were made, the flag of `Suspend`, whether it was cleared without a notification since, and the
workers that have been joined. -/
structure Phase where
  size : Nat
  stops : Nat
  flag : Bool
  resuming : Bool
  joined : List Nat

namespace Phase

/-- A pool of `n` workers that has just been constructed. -/
def start (n : Nat) : Phase := ⟨n, 0, false, false, []⟩

/-- What a call adds. -/
def next (x : Phase) : PoolCall κ → Phase
  | .push .stop => { x with stops := x.stops + 1 }
  | .push _ => x
  | .setSuspendFlag true => { x with flag := true }
  | .setSuspendFlag false => { x with flag := false, resuming := true }
  | .notifyAll => { x with resuming := false }
  | .getSize => x
  | .join i => { x with joined := i :: x.joined }
  | .initThreads n => { x with size := n, stops := 0, joined := [] }

/-- Only `InitThreads` changes the number of workers. -/
theorem size_foldl_next {x : Phase} {os : List (PoolCall κ)} (hnew : ∀ m, .initThreads m ∉ os) :
    (os.foldl next x).size = x.size := by
  induction os generalizing x with
  | nil => rfl
  | cons o os ih =>
    refine (ih fun m h => hnew m (List.mem_cons_of_mem _ h)).trans ?_
    cases o with
    | push cmd => cases cmd <;> rfl
    | setSuspendFlag b => cases b <;> rfl
    | initThreads m => exact absurd List.mem_cons_self (hnew m)
    | _ => rfl

/-- What a step adds. -/
def after (x : Phase) : Action κ → Phase
  | .call e => x.next e.1
  | _ => x

end Phase

/-- What the calls of a run tell. -/
def phase (n : Nat) (tr : List (Action κ)) : Phase := (calls tr).foldl Phase.next (.start n)

theorem phase_append (n : Nat) (tr : List (Action κ)) (act : Action κ) :
    phase n (tr ++ [act]) = (phase n tr).after act := by
  rw [phase, calls_append, List.foldl_append]
  cases act <;> rfl

/-- The contract of a thread that makes only calls in `P`. -/
def phases (P : Phase → PoolCall κ → Prop) : Prog.Contract (PoolCall κ) PoolCall.Answer Phase where
  answers
    | x, .getSize, m => m = x.size
    | _, _, _ => True
  calls := P
  next x o _ := x.next o
  mayAbort := False

/-! ## Commands of a kind -/

end ThreadPool

/-- The command that the worker has taken, and that keeps it, is in `p`. -/
def Worker.holds {κ : Type} (p : Command κ → Bool) : Worker κ → Bool
  | .idle => false
  | .executing cmd => p cmd
  | .testing => p .suspend
  | .asleep => p .suspend
  | .ended => p .stop

namespace ThreadPool

variable {κ : Type} {prio : κ → CMDPriority} {p : Command κ → Bool} {s s' : ThreadPool κ}
  {act : Action κ} {n : Nat} {tr : List (Action κ)}

/-- The commands in `p` that are queued, or that a worker has taken. -/
def load (p : Command κ → Bool) (s : ThreadPool κ) : Nat :=
  s.queue.countP (p ·) + s.workers.countP (Worker.holds p)

/-- The commands in `p` that a call adds. -/
def added (p : Command κ → Bool) : PoolCall κ → Nat
  | .push cmd => (p cmd).toNat
  | _ => 0

theorem holds_wake (w : Worker κ) : (wake w).holds p = w.holds p := by
  cases w <;> rfl

/-- What a call does to the commands in `p`. -/
theorem load_call {o : PoolCall κ} {a : o.Answer} (ha : s.answer o a = some s')
    (hnew : ∀ m, o ≠ .initThreads m) : load p s' = load p s + added p o := by
  rcases answer_inv ha with ⟨hq, hws, hpush⟩ | ⟨cmd, rfl, hq, hws⟩ | ⟨rfl, hq, hws⟩ | ⟨m, rfl, -, -⟩
  · have hnone : added p o = 0 := by
      cases o with
      | push cmd => exact absurd rfl (hpush cmd)
      | _ => rfl
    rw [load, hq, hws, hnone]
    rfl
  · rw [load, hq, hws, Multiset.countP_cons, load, added]
    cases p cmd <;> simp
    omega
  · -- waking a worker takes no command from it
    rw [load, hq, hws, List.countP_map, load]
    exact congrArg _ (congrFun (congrArg _ (funext holds_wake)) _)
  · exact absurd rfl (hnew m)

/-- What a step of a worker does to them. -/
theorem load_worker (hs : Step prio s act s') (hact : ∀ e, act ≠ .call e)
    (huser : ∀ c, p (.user c) = false) (hleave : p .suspend = true → s.suspendFlag = true) :
    load p s' = load p s := by
  have hset : ∀ {i : Nat} {w w' : Worker κ}, s.workers[i]? = some w → w.holds p = w'.holds p →
      load p (s.setWorker i w') = load p s := by
    intro i w w' hw hholds
    have hcount := List.countP_set_of_getElem? (Worker.holds p) hw w'
    rw [hholds] at hcount
    simp only [load, setWorker]
    omega
  cases hs with
  | call => exact absurd rfl (hact _)
  | @pop i cmd queue hw hq =>
    -- the command goes from the queue to the worker
    have hcount := List.countP_set_of_getElem? (Worker.holds p) hw (.executing cmd)
    simp only [load, setWorker, hq.eq_cons, Multiset.countP_cons]
    simp only [Worker.holds, Bool.toNat_false] at hcount
    cases hp : p cmd <;> simp [hp] at hcount ⊢ <;> omega
  | user hw => exact hset hw (huser _)
  | stop hw => exact hset hw rfl
  | leave hw _ hflag =>
    refine hset hw ?_
    cases hp : p .suspend with
    | false => exact hp
    | true =>
      have := hleave hp
      rw [hflag] at this
      cases this
  | test hw => exact hset hw rfl
  | sleep hw => exact hset hw rfl
  | spurious hw => exact hset hw rfl

/-- What is left alone by a step of a worker that has not ended. -/
theorem Step.worker_inv (hs : Step prio s act s') (hact : ∀ e, act ≠ .call e) :
    ∃ i w w', s.workers[i]? = some w ∧ w ≠ .ended ∧ s'.workers = s.workers.set i w' ∧
      s'.suspendFlag = s.suspendFlag ∧ s'.controller = s.controller := by
  cases hs with
  | call => exact absurd rfl (hact _)
  | pop hw => exact ⟨_, _, _, hw, nofun, rfl, rfl, rfl⟩
  | user hw => exact ⟨_, _, _, hw, nofun, rfl, rfl, rfl⟩
  | stop hw => exact ⟨_, _, _, hw, nofun, rfl, rfl, rfl⟩
  | leave hw => exact ⟨_, _, _, hw, nofun, rfl, rfl, rfl⟩
  | test hw => exact ⟨_, _, _, hw, nofun, rfl, rfl, rfl⟩
  | sleep hw => exact ⟨_, _, _, hw, nofun, rfl, rfl, rfl⟩
  | spurious hw => exact ⟨_, _, _, hw, nofun, rfl, rfl, rfl⟩

/-- The commands of `Stop`. -/
def isStop : Command κ → Bool
  | .stop => true
  | _ => false

/-- The pool is as the calls so far tell. -/
structure Phase.Tracks (x : Phase) (s : ThreadPool κ) : Prop where
  length_workers : s.workers.length = x.size
  suspendFlag : s.suspendFlag = x.flag
  /-- A command of `Stop` is queued or taken; one from before can be left. -/
  stops_le : x.stops ≤ load isStop s
  joined : ∀ i ∈ x.joined, s.workers[i]? = some .ended

theorem Phase.tracks_new (n : Nat) (controller : PoolProg κ Unit) : (start n).Tracks (new n controller) where
  length_workers := List.length_replicate
  suspendFlag := rfl
  stops_le := Nat.zero_le _
  joined := nofun

namespace Phase.Tracks

variable {x : Phase}

theorem call (h : x.Tracks s) {o : PoolCall κ} {a : o.Answer} (ha : s.answer o a = some s')
    (k : PoolProg κ Unit) : (x.next o).Tracks { s' with controller := k } := by
  obtain ⟨hlen, hflag, hstops, hjoined⟩ := h
  -- the load grows by the command that is put in
  have hload : (∀ m, o ≠ .initThreads m) → load isStop s' = load isStop s + added isStop o := load_call ha
  cases o with
  | push cmd =>
    obtain rfl := Option.some.inj ha
    cases cmd with
    | stop => exact ⟨hlen, hflag, (Nat.add_le_add_right hstops 1).trans_eq (hload fun _ h => by cases h).symm, hjoined⟩
    | user c => exact ⟨hlen, hflag, hstops.trans_eq (hload fun _ h => by cases h).symm, hjoined⟩
    | suspend => exact ⟨hlen, hflag, hstops.trans_eq (hload fun _ h => by cases h).symm, hjoined⟩
  | setSuspendFlag b =>
    obtain rfl := Option.some.inj ha
    cases b with
    | true => exact ⟨hlen, rfl, hstops, hjoined⟩
    | false => exact ⟨hlen, rfl, hstops, hjoined⟩
  | notifyAll =>
    refine ⟨?_, ?_, hstops.trans_eq (hload fun _ h => by cases h).symm, ?_⟩ <;> obtain rfl := Option.some.inj ha
    · -- `notify_all` wakes the workers and ends none
      exact (List.length_map _).trans hlen
    · exact hflag
    · intro i hi
      exact (List.getElem?_map).trans (by rw [hjoined i hi]; rfl)
  | getSize =>
    simp only [answer, Option.ite_none_right_eq_some] at ha
    obtain rfl := Option.some.inj ha.2
    exact ⟨hlen, hflag, hstops, hjoined⟩
  | join i =>
    simp only [answer] at ha
    split at ha
    · -- a `join` returns only for a worker that has ended
      rename_i hended
      obtain rfl := Option.some.inj ha
      refine ⟨hlen, hflag, hstops, fun j hj => ?_⟩
      rcases List.mem_cons.mp hj with rfl | hj
      · exact hended
      · exact hjoined j hj
    · cases ha
  | initThreads m =>
    obtain rfl := Option.some.inj ha
    exact ⟨List.length_replicate, hflag, Nat.zero_le _, fun j hj => by cases hj⟩

/-- A step of a worker. -/
theorem worker (h : x.Tracks s) (hs : Step prio s act s') (hact : ∀ e, act ≠ .call e) : x.Tracks s' := by
  obtain ⟨i, w, w', hw, hne, hws, hflag, -⟩ := hs.worker_inv hact
  refine ⟨?_, hflag.trans h.suspendFlag, ?_, fun j hj => ?_⟩
  · rw [hws, List.length_set, h.length_workers]
  · rw [load_worker hs hact (fun _ => rfl) fun h => by cases h]
    exact h.stops_le
  · -- a worker that has ended takes no more steps
    have hended := h.joined j hj
    rw [hws, List.getElem?_set_ne, hended]
    rintro rfl
    exact hne (Option.some.inj (hw.symm.trans hended))

theorem step (h : x.Tracks s) (hs : Step prio s act s') : (x.after act).Tracks s' := by
  cases act with
  | call e =>
    cases hs with
    | call hc ha => exact h.call ha _
  | _ => exact h.worker hs nofun

end Phase.Tracks

/-! ## Runs -/

/-- The pool is as the calls of the run tell. -/
theorem tracks_phase {controller : PoolProg κ Unit} (hr : Trace (Step prio) (new n controller) tr s) :
    (phase n tr).Tracks s := by
  refine hr.invariant (I := fun tr s => (phase n tr).Tracks s) (Phase.tracks_new n controller) ?_
  intro tr s act s' hs h
  rw [phase_append]
  exact h.step hs

/-- The thread that holds the pool keeps to its contract. -/
theorem obeys_phase {P : Phase → PoolCall κ → Prop} {Q : Phase → Unit → Prop} {controller : PoolProg κ Unit}
    (hp : Prog.Obeys (phases P) Q (.start n) controller)
    (hr : Trace (Step prio) (new n controller) tr s) : Prog.Obeys (phases P) Q (phase n tr) s.controller := by
  refine (hr.invariant (I := fun tr s => (phase n tr).Tracks s ∧
    Prog.Obeys (phases P) Q (phase n tr) s.controller) ⟨Phase.tracks_new n controller, hp⟩ ?_).2
  rintro tr s act s' hs ⟨htracks, hobeys⟩
  rw [phase_append]
  refine ⟨htracks.step hs, ?_⟩
  cases act with
  | call e =>
    cases hs with
    | @call s₁ o a k hc ha =>
      rw [hc] at hobeys
      refine hobeys.call_inv.2 a ?_
      cases o with
      -- the answer is the number of workers, which the phase knows
      | getSize =>
        simp only [answer, Option.ite_none_right_eq_some] at ha
        exact ha.1.trans htracks.length_workers
      | _ => trivial
  | _ =>
    -- a step of a worker leaves the controller where it is
    obtain ⟨_, _, _, _, _, _, _, hcontroller⟩ := hs.worker_inv fun _ h => by cases h
    rw [hcontroller]
    exact hobeys

/-! ## The contract of a session -/

/-- A call of `SetSize` that makes new workers. -/
def resizes : PoolOp κ → Bool
  | .setSize newSize => newSize ≠ 0
  | _ => false

/-- On a pool of `n` workers no call of `SetSize` comes after one of `Stop` that had workers to stop. -/
def KeepsWorking : Nat → List (PoolOp κ) → Prop
  | _, [] => True
  | n, .stop :: ops => (n = 0 ∧ KeepsWorking n ops) ∨ ∀ op ∈ ops, resizes op = false
  | n, .setSize newSize :: ops => KeepsWorking (if newSize = 0 then n else newSize) ops
  | n, _ :: ops => KeepsWorking n ops

/-- What the members keep to. They join a worker when there are commands of `Stop` for all of them and the
flag is cleared. If `balanced` holds, new workers are made when all commands of `Stop` have been taken. -/
def Keeps (balanced : Prop) (x : Phase) : PoolCall κ → Prop
  | .join i => i < x.size ∧ x.size ≤ x.stops ∧ x.flag = false ∧ x.resuming = false
  | .initThreads _ => balanced → x.stops = x.size ∧ ∀ i < x.size, i ∈ x.joined
  | _ => True

section Contracts

variable {balanced : Prop} {Q : Phase → Unit → Prop} {x : Phase} {k : PoolProg κ Unit}

theorem obeys_pushAll_suspend (m : Nat) (h : Prog.Obeys (phases (Keeps balanced)) Q x k) :
    Prog.Obeys (phases (Keeps balanced)) Q x (pushAll .suspend m >>= fun _ => k) := by
  induction m generalizing x with
  | zero => exact h
  | succ m ih => exact .call trivial fun _ _ => ih h

theorem obeys_pushAll_stop (m : Nat)
    (h : Prog.Obeys (phases (Keeps balanced)) Q { x with stops := x.stops + m } k) :
    Prog.Obeys (phases (Keeps balanced)) Q x (pushAll .stop m >>= fun _ => k) := by
  induction m generalizing x with
  | zero => exact h
  | succ m ih =>
    refine .call trivial fun _ _ => ih ?_
    change Prog.Obeys _ Q { x with stops := x.stops + 1 + m } k
    rwa [Nat.add_assoc, Nat.add_comm 1 m]

theorem obeys_joinAll (m i : Nat) (hlt : i + m ≤ x.size) (hstops : x.size ≤ x.stops) (hflag : x.flag = false)
    (hresuming : x.resuming = false)
    (h : ∀ joined, (∀ j ∈ x.joined, j ∈ joined) → (∀ j, i ≤ j → j < i + m → j ∈ joined) →
      Prog.Obeys (phases (Keeps balanced)) Q { x with joined := joined } k) :
    Prog.Obeys (phases (Keeps balanced)) Q x (joinAll i m >>= fun _ => k) := by
  induction m generalizing x i with
  | zero => exact h _ (fun _ h => h) fun j hle hlt => by omega
  | succ m ih =>
    refine .call ⟨by omega, hstops, hflag, hresuming⟩ fun _ _ => ?_
    have hlt' : i + 1 + m ≤ x.size := by omega
    refine ih (i + 1) hlt' hstops hflag hresuming ?_
    intro joined hsub hall
    refine h joined (fun j hj => hsub j (List.mem_cons_of_mem _ hj)) fun j hle hlt => ?_
    -- the worker that has been joined, and those after it
    rcases Nat.eq_or_lt_of_le hle with rfl | hlt'
    · exact hsub _ List.mem_cons_self
    · exact hall j hlt' (by omega)

/-- After `Stop` there is a command of it for every worker more than before, and the workers have been
joined. -/
theorem obeys_stop (h : ∀ joined, (∀ i < x.size, i ∈ joined) →
    Prog.Obeys (phases (Keeps balanced)) Q ⟨x.size, x.stops + x.size, false, false, joined⟩ k) :
    Prog.Obeys (phases (Keeps balanced)) Q x (stop >>= fun _ => k) := by
  refine .call trivial fun _ _ => .call trivial fun _ _ => .call trivial fun m hm => ?_
  obtain rfl : m = x.size := hm
  -- what is left of the program, from the phase after the notification on
  have hrest : Prog.Obeys (phases (Keeps balanced)) Q ⟨x.size, x.stops, false, false, x.joined⟩
      (pushAll .stop x.size >>= fun _ => joinAll 0 x.size >>= fun _ => k) := by
    refine obeys_pushAll_stop _ (obeys_joinAll _ 0 (Nat.zero_add _).le (Nat.le_add_left _ _) rfl rfl ?_)
    exact fun joined _ hall => h joined fun i hi => hall i (Nat.zero_le i) (by omega)
  change Prog.Obeys _ Q _ ((pushAll .stop x.size >>= fun _ => joinAll 0 x.size) >>= fun _ => k)
  rw [bind_assoc]
  exact hrest

/-- **The members keep to the contract**, as long as none but the last calls of `SetSize` come after one of
`Stop`. -/
theorem obeys_session (ops : List (PoolOp κ))
    (h : balanced → x.stops = 0 ∧ KeepsWorking x.size ops ∨ ∀ op ∈ ops, resizes op = false) :
    Prog.Obeys (phases (Keeps balanced)) (fun _ _ => True) x (session ops) := by
  induction ops generalizing x with
  | nil => exact .ret trivial
  | cons op ops ih =>
    have hrest : ∀ {y : Phase}, (KeepsWorking x.size (op :: ops) → x.stops = 0 → balanced →
        y.stops = 0 ∧ KeepsWorking y.size ops ∨ ∀ op ∈ ops, resizes op = false) →
        Prog.Obeys (phases (Keeps balanced)) (fun _ _ => True) y (session ops) := by
      intro y hy
      apply ih
      intro hb
      rcases h hb with ⟨hzero, hkeeps⟩ | hnone
      · exact hy hkeeps hzero hb
      · exact .inr fun op hop => hnone op (List.mem_cons_of_mem _ hop)
    cases op with
    | addCommand cmd =>
      cases cmd with
      | none => exact hrest fun hkeeps hzero _ => .inl ⟨hzero, hkeeps⟩
      | some c => exact .call trivial fun _ _ => hrest fun hkeeps hzero _ => .inl ⟨hzero, hkeeps⟩
    | suspend =>
      refine .call trivial fun _ _ => .call trivial fun m _ => ?_
      exact obeys_pushAll_suspend m (hrest fun hkeeps hzero _ => .inl ⟨hzero, hkeeps⟩)
    | resume =>
      exact .call trivial fun _ _ => .call trivial fun _ _ => hrest fun hkeeps hzero _ => .inl ⟨hzero, hkeeps⟩
    | stop =>
      apply obeys_stop
      intro joined _
      apply hrest
      intro hkeeps hzero _
      rcases hkeeps with ⟨hsize, hkeeps⟩ | hnone
      · exact .inl ⟨by simp [hzero, hsize], hkeeps⟩
      · exact .inr hnone
    | setSize newSize =>
      by_cases hnew : newSize = 0
      · subst hnew
        exact hrest fun hkeeps hzero _ => .inl ⟨hzero, hkeeps⟩
      · rw [session_setSize hnew]
        have hresizes : resizes (.setSize newSize : PoolOp κ) = true := decide_eq_true hnew
        refine obeys_stop fun joined hjoined => .call (fun hb => ?_) fun _ _ => hrest fun hkeeps _ _ => ?_
        · -- the workers have taken all commands of `Stop`
          rcases h hb with ⟨hzero, -⟩ | hnone
          · exact ⟨by rw [hzero, Nat.zero_add], hjoined⟩
          · rw [hnone _ List.mem_cons_self] at hresizes
            cases hresizes
        · refine .inl ⟨rfl, ?_⟩
          rwa [KeepsWorking, if_neg hnew] at hkeeps

end Contracts

/-! ## Calls that have returned -/

variable {s₀ : ThreadPool κ}

theorem session_append (ops ops' : List (PoolOp κ)) :
    session (ops ++ ops') = session ops >>= fun _ => session ops' := by
  induction ops with
  | nil => rfl
  | cons op ops ih =>
    rw [List.cons_append, session, session, ih, bind_assoc]

/-- A call is answered whatever the thread that holds the pool has left to do. -/
theorem answer_controller {o : PoolCall κ} {a : o.Answer} (h : s.answer o a = some s') (c : PoolProg κ Unit) :
    answer o a { s with controller := c } = some { s' with controller := c } := by
  cases o with
  | getSize =>
    simp only [answer, Option.ite_none_right_eq_some] at h ⊢
    obtain ⟨hn, h⟩ := h
    obtain rfl := Option.some.inj h
    exact ⟨hn, rfl⟩
  | join i =>
    simp only [answer] at h ⊢
    split at h
    · obtain rfl := Option.some.inj h
      rfl
    · cases h
  | _ =>
    obtain rfl := Option.some.inj h
    rfl

/-- A step of a worker is one whatever the thread that holds the pool has left to do. -/
theorem Step.of_worker (hs : Step prio s act s') (hact : ∀ e, act ≠ .call e) (c : PoolProg κ Unit) :
    Step prio { s with controller := c } act { s' with controller := c } := by
  cases hs with
  | call => exact absurd rfl (hact _)
  | pop hw hq => exact .pop hw hq
  | user hw => exact .user hw
  | stop hw => exact .stop hw
  | leave hw hmutex hflag => exact .leave hw hmutex hflag
  | test hw hmutex hflag => exact .test hw hmutex hflag
  | sleep hw => exact .sleep hw
  | spurious hw => exact .spurious hw

/-- A run of one program after another is still in the first one, or has come through it and taken the other
one further. -/
theorem trace_bind_inv {p : PoolProg κ Unit} {f : Unit → PoolProg κ Unit} (hr : Trace (Step prio) s₀ tr s)
    (hc : s₀.controller = p >>= f) :
    (∃ p', Trace (Step prio) { s₀ with controller := p } tr { s with controller := p' } ∧
      s.controller = p' >>= f) ∨
    ∃ s₁ tr₁ tr₂, tr = tr₁ ++ tr₂ ∧
      Trace (Step prio) { s₀ with controller := p } tr₁ { s₁ with controller := .ret () } ∧
      s₁.controller = f () ∧ Trace (Step prio) s₁ tr₂ s ∧
      Relation.TransGen Prog.After s.controller (f ()) := by
  induction hr with
  | nil => exact .inl ⟨p, .nil, hc⟩
  | @snoc tr act s s' hr hs ih =>
    by_cases hact : ∀ e, act ≠ .call e
    · -- a step of a worker leaves the program alone
      obtain ⟨_, _, _, -, -, -, -, hcontroller⟩ := hs.worker_inv hact
      rcases ih with ⟨p', hp', hc'⟩ | ⟨s₁, tr₁, tr₂, rfl, h₁, hc₁, h₂, hafter⟩
      · exact .inl ⟨p', .snoc hp' (hs.of_worker hact p'), hcontroller.trans hc'⟩
      · exact .inr ⟨s₁, tr₁, tr₂ ++ [act], List.append_assoc .., h₁, hc₁, .snoc h₂ hs, hcontroller ▸ hafter⟩
    cases hs with
    | @call s₂ o a k hk ha =>
      rcases ih with ⟨p', hp', hc'⟩ | ⟨s₁, tr₁, tr₂, rfl, h₁, hc₁, h₂, hafter⟩
      · cases p' with
        | ret v =>
          -- the first call of the program that follows
          have hf : f () = .call o k := hc'.symm.trans hk
          refine .inr ⟨s, tr, _, rfl, hp', hc', .snoc .nil (.call hk ha), ?_⟩
          rw [hf]
          exact .single (.answer k a)
        | call o' k' =>
          obtain ⟨rfl, hk'⟩ := Prog.call.inj (hk.symm.trans hc')
          obtain rfl := eq_of_heq hk'
          have hstep : Step prio { s with controller := .call o k' } (.call ⟨o, a⟩) { s₂ with controller := k' a } :=
            @Step.call _ _ _ { s₂ with controller := .call o k' } _ _ _ rfl (answer_controller ha _)
          exact .inl ⟨k' a, .snoc hp' hstep, rfl⟩
        | abort => cases hk.symm.trans hc'
      · refine .inr ⟨s₁, tr₁, tr₂ ++ [_], List.append_assoc .., h₁, hc₁, .snoc h₂ (.call hk ha), ?_⟩
        rw [hk] at hafter
        exact .head (.answer k a) hafter
    | _ => exact absurd (fun e he => by cases he) hact

/-- A call of a session that has returned: the run up to here is one of the calls that end with it. -/
theorem trace_of_returned {pre mid : List (PoolOp κ)} {op : PoolOp κ}
    (hr : Trace (Step prio) (new n (session (pre ++ op :: mid))) tr s) (hreturned : s.controller = session mid) :
    Trace (Step prio) (new n (session (pre ++ [op]))) tr { s with controller := .ret () } := by
  have hprogram : (new n (session (pre ++ op :: mid))).controller =
      session (pre ++ [op]) >>= fun _ => session mid := by
    rw [← session_append, List.append_assoc]
    rfl
  rcases trace_bind_inv hr hprogram with ⟨p', hp', hc⟩ | ⟨s₁, tr₁, tr₂, -, -, -, -, hafter⟩
  · -- a program is followed by itself only when it has returned
    have hanswer : ∀ (x : Phase) (o : PoolCall κ), (phases (Keeps False)).calls x o →
        ∃ a, (phases (Keeps False)).answers x o a := by
      intro x o _
      cases o with
      | getSize => exact ⟨x.size, rfl⟩
      | _ => exact ⟨(), trivial⟩
    have hobeys : Prog.Obeys (phases (Keeps False)) (fun _ _ => True) (.start n) (session (pre ++ [op])) :=
      obeys_session _ fun h => h.elim
    obtain ⟨⟨⟩, rfl⟩ := (obeys_phase hobeys hp').eq_ret_of_bind_eq id hanswer (hc.symm.trans hreturned)
    exact hp'
  · rw [hreturned] at hafter
    exact absurd hafter (Prog.not_transGen_after _)

end ThreadPool

end LDS
