import LDS.Threading.Sessions

/-!
# Suspending and resuming the pool

`Suspend` sets a flag and puts one command for every worker in the queue. A worker that takes one tests the
flag and goes to sleep, until `Resume` clears the flag and wakes the workers that sleep. The flag is cleared
without the mutex: a worker that has found it set, and does not sleep yet, is not woken.

## Main definitions

* `ThreadPool.WakesAll`: no worker is between its test and its sleep when the workers are woken
* `ThreadPool.Proceeds`: such steps, in which no worker wakes up by itself
* `ThreadPool.Phase.Settled`: the pool is as the calls so far tell, and no worker sleeps after `Resume`

## Main results

* `ThreadPool.Phase.Settled.can_complete`: the members can always get to their end
* `ThreadPool.resume_wakes`: no worker stays suspended, and the pool can be stopped
-/

namespace LDS

namespace ThreadPool

variable {κ : Type} {prio : κ → CMDPriority} {s s' : ThreadPool κ} {act : Action κ} {i n : Nat}
  {x : Phase} {tr : List (Action κ)} {w : Worker κ}

/-! ## No worker sleeps after `Resume` -/

/-- When the workers that sleep are woken, none is between its test of the flag and its sleep. -/
def WakesAll (s : ThreadPool κ) (act : Action κ) : Prop :=
  act = .call ⟨.notifyAll, ()⟩ → ∀ w ∈ s.workers, w ≠ .testing

/-- A step as above, in which no worker wakes up by itself. -/
def Proceeds (s : ThreadPool κ) (act : Action κ) : Prop :=
  WakesAll s act ∧ ∀ i, act ≠ .spurious i

/-- The pool is as the calls so far tell. When the flag is cleared, and the workers have been woken since, no
worker sleeps or is about to. -/
structure Phase.Settled (x : Phase) (s : ThreadPool κ) : Prop where
  tracks : x.Tracks s
  awake : x.flag = false → x.resuming = false → ∀ w ∈ s.workers, w ≠ .testing ∧ w ≠ .asleep

theorem Phase.settled_new (n : Nat) (controller : PoolProg κ Unit) : (start n).Settled (new n controller) where
  tracks := tracks_new n controller
  awake _ _ w hw := by
    obtain rfl := List.eq_of_mem_replicate hw
    exact ⟨nofun, nofun⟩

namespace Phase.Settled

theorem call (h : x.Settled s) {o : PoolCall κ} {a : o.Answer} (ha : s.answer o a = some s')
    (hwakes : o = .notifyAll → ∀ w ∈ s.workers, w ≠ .testing) (k : PoolProg κ Unit) :
    (x.next o).Settled { s' with controller := k } := by
  obtain ⟨htracks, hawake⟩ := h
  refine ⟨htracks.call ha k, ?_⟩
  cases o with
  | push cmd =>
    obtain rfl := Option.some.inj ha
    cases cmd <;> exact hawake
  | setSuspendFlag b =>
    -- the flag is set, or the workers are still to be woken
    cases b with
    | true => exact fun hflag => by cases hflag
    | false => exact fun _ hresuming => by cases hresuming
  | notifyAll =>
    obtain rfl := Option.some.inj ha
    rintro - - w hw
    obtain ⟨v, hv, rfl⟩ := List.mem_map.mp hw
    have htesting := hwakes rfl v hv
    cases v with
    | testing => exact absurd rfl htesting
    | _ => constructor <;> rintro ⟨⟩
  | getSize =>
    simp only [answer, Option.ite_none_right_eq_some] at ha
    obtain rfl := Option.some.inj ha.2
    exact hawake
  | join j =>
    simp only [answer] at ha
    split at ha
    · obtain rfl := Option.some.inj ha
      exact hawake
    · cases ha
  | initThreads m =>
    obtain rfl := Option.some.inj ha
    rintro - - w hw
    obtain rfl := List.eq_of_mem_replicate hw
    constructor <;> rintro ⟨⟩

/-- A step of a worker. It goes to sleep only if it has found the flag set. -/
theorem worker (h : x.Settled s) (hs : Step prio s act s') (hact : ∀ e, act ≠ .call e) : x.Settled s' := by
  refine ⟨h.tracks.worker hs hact, fun hflag hresuming w hw => ?_⟩
  have hawake := h.awake hflag hresuming
  -- only one worker moves
  have hset : ∀ {i : Nat} {v v' : Worker κ}, s.workers[i]? = some v → s'.workers = s.workers.set i v' →
      (v ≠ .testing ∧ v ≠ .asleep → v' ≠ .testing ∧ v' ≠ .asleep) → w ≠ .testing ∧ w ≠ .asleep := by
    intro i v v' hv hws himp
    rw [hws] at hw
    rcases List.mem_or_eq_of_mem_set hw with hw | rfl
    · exact hawake w hw
    · exact himp (hawake v (List.mem_of_getElem? hv))
  cases hs with
  | call => exact absurd rfl (hact _)
  | pop hv => exact hset hv rfl fun _ => ⟨nofun, nofun⟩
  | user hv => exact hset hv rfl fun _ => ⟨nofun, nofun⟩
  | stop hv => exact hset hv rfl fun _ => ⟨nofun, nofun⟩
  | leave hv => exact hset hv rfl fun _ => ⟨nofun, nofun⟩
  | test hv _ hset' =>
    -- the flag that it has found set is not set
    rw [h.tracks.suspendFlag, hflag] at hset'
    cases hset'
  | sleep hv => exact hset hv rfl fun hne => absurd rfl hne.1
  | spurious hv => exact hset hv rfl fun hne => absurd rfl hne.2

theorem step (h : x.Settled s) (hs : Where WakesAll (Step prio) s act s') : (x.after act).Settled s' := by
  obtain ⟨hwakes, hs⟩ := hs
  cases act with
  | call e =>
    cases hs with
    | @call s₁ o a k hc ha =>
      refine h.call ha ?_ (k a)
      rintro rfl
      exact hwakes rfl
  | _ => exact h.worker hs nofun

end Phase.Settled

theorem settled_phase {controller : PoolProg κ Unit}
    (hr : Trace (Where WakesAll (Step prio)) (new n controller) tr s) : (phase n tr).Settled s := by
  refine hr.invariant (I := fun tr s => (phase n tr).Settled s) (Phase.settled_new n controller) ?_
  intro tr s act s' hs h
  rw [phase_append]
  exact h.step hs

/-! ## The members get to their end -/

end ThreadPool

/-- The worker is between its test of the flag and its sleep. -/
def Worker.tests {κ : Type} : Worker κ → Bool
  | .testing => true
  | _ => false

namespace ThreadPool

variable {κ : Type} {prio : κ → CMDPriority} {s s' : ThreadPool κ} {act : Action κ} {i n : Nat}
  {x : Phase} {tr : List (Action κ)} {w : Worker κ}

/-- The workers can get on from `s` to `s'` by themselves. -/
structure Phase.Comes (prio : κ → CMDPriority) (x : Phase) (s s' : ThreadPool κ) : Prop where
  trace : ∃ tr, Trace (Where Proceeds (Step prio)) s tr s'
  settled : x.Settled s'
  controller : s'.controller = s.controller

namespace Phase.Comes

theorem refl (h : x.Settled s) : x.Comes prio s s := ⟨⟨[], .nil⟩, h, rfl⟩

/-- A worker gets on, and then they all do. -/
theorem step {s₁ : ThreadPool κ} {P : ThreadPool κ → Prop} (h : x.Settled s) (hs : Step prio s act s₁) (hact : ∀ e, act ≠ .call e)
    (hspurious : ∀ i, act ≠ .spurious i) (hrest : x.Settled s₁ → ∃ s', x.Comes prio s₁ s' ∧ P s') :
    ∃ s', x.Comes prio s s' ∧ P s' := by
  obtain ⟨s', ⟨⟨tr, htr⟩, hsettled, hcontroller⟩, hP⟩ := hrest (h.worker hs hact)
  obtain ⟨_, _, _, _, _, _, _, hsame⟩ := hs.worker_inv hact
  have hproceeds : Proceeds s act := ⟨fun he => absurd he (hact _), hspurious⟩
  exact ⟨s', ⟨⟨_, .cons ⟨hproceeds, hs⟩ htr⟩, hsettled, hcontroller.trans hsame⟩, hP⟩

end Phase.Comes

/-- A worker that holds no command of a kind that there are enough of finds one. -/
theorem exists_mem_queue {p : Command κ → Bool} (hw : s.workers[i]? = some w) (hholds : w.holds p = false)
    (hload : s.workers.length ≤ load p s) : ∃ cmd ∈ s.queue, p cmd := by
  have hlt : s.workers.countP (Worker.holds p) < s.workers.length := by
    apply lt_of_le_of_ne List.countP_le_length
    intro he
    have hall := List.countP_eq_length.mp he w (List.mem_of_getElem? hw)
    rw [hholds] at hall
    cases hall
  have hpos : 0 < s.queue.countP (p ·) := by
    unfold load at hload
    omega
  exact Multiset.countP_pos.mp hpos

namespace Phase.Settled

variable (prio) in
/-- The workers that have found the flag set go to sleep. -/
theorem exists_asleep (h : x.Settled s) : ∃ s', x.Comes prio s s' ∧ ∀ w ∈ s'.workers, w ≠ .testing := by
  induction hm : s.workers.countP Worker.tests generalizing s with
  | zero =>
    refine ⟨s, .refl h, fun w hw => ?_⟩
    have hnone := List.countP_eq_zero.mp hm w hw
    rintro rfl
    exact hnone rfl
  | succ m ih =>
    have hpos : 0 < s.workers.countP Worker.tests := hm.symm ▸ Nat.succ_pos m
    obtain ⟨w, hw, htests⟩ := List.countP_pos_iff.mp hpos
    obtain ⟨i, hi⟩ := List.mem_iff_getElem?.mp hw
    cases w with
    | testing =>
      -- one that has tested the flag goes to sleep; one less tests it
      refine Comes.step h (.sleep hi) nofun nofun fun hsettled => ih hsettled ?_
      have hcount := List.countP_set_of_getElem? Worker.tests hi .asleep
      simp only [Worker.tests, Bool.toNat_true, Bool.toNat_false] at hcount
      simp only [setWorker]
      omega
    | _ => cases htests

variable (prio) in
/-- When no worker waits for the flag, a worker executes the command that it has taken. -/
theorem exists_execute (h : x.Settled s) {cmd : Command κ} (hw : s.workers[i]? = some (.executing cmd))
    (hflag : x.flag = false) (hresuming : x.resuming = false) :
    ∃ w', (w' = .idle ∨ w' = .ended) ∧ Step prio s (.execute i cmd) (s.setWorker i w') := by
  cases cmd with
  | user c => exact ⟨_, .inl rfl, .user hw⟩
  | stop => exact ⟨_, .inr rfl, .stop hw⟩
  | suspend =>
    have hmutex : ∀ w ∈ s.workers, w ≠ .testing := fun w hw => (h.awake hflag hresuming w hw).1
    exact ⟨_, .inl rfl, .leave hw hmutex (h.tracks.suspendFlag.trans hflag)⟩

theorem getElem?_setWorker (hw : s.workers[i]? = some w) (w' : Worker κ) :
    (s.setWorker i w').workers[i]? = some w' :=
  List.getElem?_set_self (List.getElem?_eq_some_iff.mp hw).1

variable (prio) in
/-- A worker that takes command after command gets to one of `Stop`, when there are enough of them. -/
theorem exists_ended_of_idle (h : x.Settled s) (hw : s.workers[i]? = some .idle) (hstops : x.size ≤ x.stops)
    (hflag : x.flag = false) (hresuming : x.resuming = false) :
    ∃ s', x.Comes prio s s' ∧ s'.workers[i]? = some .ended := by
  induction hm : s.queue.card using Nat.strong_induction_on generalizing s with
  | _ m ih =>
    -- the queue is not empty: there is a command of `Stop` for each worker
    have hload : s.workers.length ≤ load isStop s :=
      h.tracks.length_workers.trans_le (hstops.trans h.tracks.stops_le)
    obtain ⟨_, hmem, -⟩ := exists_mem_queue hw rfl hload
    have hne : s.queue ≠ 0 := Multiset.card_pos.mp (Multiset.card_pos_iff_exists_mem.mpr ⟨_, hmem⟩)
    have hkey : ∀ a b, Command.lt prio a b → (a.priority prio).toNat < (b.priority prio).toNat :=
      fun _ _ hlt => hlt
    obtain ⟨cmd, queue, htakes⟩ := exists_takes_of_key _ hkey hne
    apply Comes.step h (.pop hw htakes) nofun nofun
    intro h₁
    have hw₁ := getElem?_setWorker hw (.executing cmd)
    obtain ⟨w', hw', hexecute⟩ := h₁.exists_execute prio hw₁ hflag hresuming
    apply Comes.step h₁ hexecute nofun nofun
    intro h₂
    have hw₂ := getElem?_setWorker hw₁ w'
    rcases hw' with rfl | rfl
    · -- it was another command; the queue has got shorter
      refine ih queue.card ?_ h₂ hw₂ rfl
      rw [← hm, htakes.eq_cons, Multiset.card_cons]
      exact Nat.lt_succ_self _
    · exact ⟨_, .refl h₂, hw₂⟩

variable (prio) in
theorem exists_ended (h : x.Settled s) (hi : i < x.size) (hstops : x.size ≤ x.stops) (hflag : x.flag = false)
    (hresuming : x.resuming = false) : ∃ s', x.Comes prio s s' ∧ s'.workers[i]? = some .ended := by
  rw [← h.tracks.length_workers] at hi
  have hw := List.getElem?_eq_getElem hi
  have hawake := h.awake hflag hresuming _ (List.getElem_mem hi)
  cases hv : s.workers[i] with
  | idle => exact h.exists_ended_of_idle prio (hv ▸ hw) hstops hflag hresuming
  | executing cmd =>
    rw [hv] at hw
    -- it carries out its command, and ends or takes the next
    obtain ⟨w', hw', hexecute⟩ := h.exists_execute prio hw hflag hresuming
    apply Comes.step h hexecute nofun nofun
    intro h₁
    have hw₁ := getElem?_setWorker hw w'
    rcases hw' with rfl | rfl
    · exact h₁.exists_ended_of_idle prio hw₁ hstops hflag hresuming
    · exact ⟨_, .refl h₁, hw₁⟩
  | testing => exact absurd hv hawake.1
  | asleep => exact absurd hv hawake.2
  | ended => exact ⟨s, .refl h, hv ▸ hw⟩

variable (prio) in
/-- The workers get on until the call is answered. -/
theorem exists_answer (h : x.Settled s) {balanced : Prop} {o : PoolCall κ} (ho : Keeps balanced x o) :
    ∃ s₁, x.Comes prio s s₁ ∧ ∃ a s', s₁.answer o a = some s' ∧ (phases (Keeps balanced)).answers x o a ∧
      (o = .notifyAll → ∀ w ∈ s₁.workers, w ≠ .testing) := by
  cases o with
  | push cmd => exact ⟨s, .refl h, (), _, rfl, trivial, fun h => by cases h⟩
  | setSuspendFlag b => exact ⟨s, .refl h, (), _, rfl, trivial, fun h => by cases h⟩
  | notifyAll =>
    -- `notify_all` waits until nobody is about to sleep
    obtain ⟨s₁, hcomes, hasleep⟩ := h.exists_asleep prio
    exact ⟨s₁, hcomes, (), _, rfl, trivial, fun _ => hasleep⟩
  | getSize => exact ⟨s, .refl h, s.workers.length, s, if_pos rfl, h.tracks.length_workers, fun h => by cases h⟩
  | join i =>
    -- a `join` waits until the worker has ended
    obtain ⟨hi, hstops, hflag, hresuming⟩ := ho
    obtain ⟨s₁, hcomes, hended⟩ := h.exists_ended prio hi hstops hflag hresuming
    refine ⟨s₁, hcomes, (), s₁, ?_, trivial, fun h => by cases h⟩
    simp only [answer, hended]
  | initThreads m => exact ⟨s, .refl h, (), _, rfl, trivial, fun h => by cases h⟩

/-- A thread that keeps to the contract of the members gets to its end. -/
theorem can_complete (h : x.Settled s) {balanced : Prop} {p : PoolProg κ Unit} (hc : s.controller = p)
    (hp : Prog.Obeys (phases (Keeps balanced)) (fun _ _ => True) x p) :
    ∃ tr s', Trace (Where Proceeds (Step prio)) s tr s' ∧ s'.controller = .ret () := by
  induction hp generalizing s with
  | ret => exact ⟨[], s, .nil, hc⟩
  | @call x o k ho _ ih =>
    obtain ⟨s₁, ⟨⟨tr, htr⟩, h₁, hc₁⟩, a, s', ha, hanswers, hwakes⟩ := h.exists_answer prio ho
    have hproceeds : Proceeds s₁ (.call ⟨o, a⟩) := by
      refine ⟨fun he => hwakes ?_, nofun⟩
      exact congrArg Sigma.fst (Action.call.inj he)
    obtain ⟨tr', s'', htr', hret⟩ := ih a hanswers (h₁.call ha hwakes (k a)) rfl
    exact ⟨_, s'', htr.trans (.cons ⟨hproceeds, .call (hc₁.trans hc) ha⟩ htr'), hret⟩
  | abort habort => exact habort.elim

end Phase.Settled

/-- **No worker stays suspended after `Resume`**, in the runs in which the workers are woken when none is
between its test and its sleep; and whatever the members are about they can get to their end. -/
theorem resume_wakes {controller : PoolProg κ Unit}
    (hr : Trace (Where WakesAll (Step prio)) (new n controller) tr s) :
    (s.suspendFlag = false → (phase n tr).resuming = false → .asleep ∉ s.workers) ∧
      ∀ ops, controller = session ops →
        ∃ tr' s', Trace (Where Proceeds (Step prio)) s tr' s' ∧ s'.controller = .ret () := by
  have hsettled := settled_phase hr
  refine ⟨fun hflag hresuming hmem => ?_, fun ops => ?_⟩
  · rw [hsettled.tracks.suspendFlag] at hflag
    exact (hsettled.awake hflag hresuming _ hmem).2 rfl
  · rintro rfl
    have hr' : Trace (Step prio) (new n (session ops)) tr s := hr.mono fun _ _ _ hs => hs.2
    have hobeys : Prog.Obeys (phases (Keeps False)) (fun _ _ => True) (.start n) (session ops) :=
      obeys_session ops nofun
    exact hsettled.can_complete rfl (obeys_phase hobeys hr')

/-! ## A pool of one worker that is suspended and stopped -/

/-- A run without a notification. -/
theorem where_wakesAll (hr : Trace (Step prio) s tr s') (hcalls : .notifyAll ∉ calls tr) :
    Trace (Where WakesAll (Step prio)) s tr s' := by
  refine hr.where_of_forall fun act hact _ he => absurd (List.mem_filterMap.mpr ⟨act, hact, ?_⟩) hcalls
  rw [he]

variable (prio) in
/-- The worker has taken the command of `Suspend`, and found the flag set. -/
theorem exists_trace_testing (k : PoolProg κ Unit) : ∃ tr,
    Trace (Step prio) ⟨0, [.idle], false, suspend >>= fun _ => k⟩ tr ⟨0, [.testing], true, k⟩ ∧
      calls tr = [.setSuspendFlag true, .getSize, .push .suspend] := by
  have htakes : Takes (Command.lt prio) ({.suspend} : Multiset (Command κ)) .suspend 0 :=
    takes_cons (Nat.lt_irrefl _) nofun
  have hmutex : ∀ w ∈ [Worker.executing (Command.suspend (κ := κ))], w ≠ .testing := by
    rintro w hw rfl
    cases List.mem_singleton.mp hw
  exact ⟨_, .cons (.call (o := .setSuspendFlag true) (a := ()) rfl rfl) <|
    .cons (.call (o := .getSize) (a := (1 : Nat)) rfl rfl) <|
    .cons (.call (o := .push .suspend) (a := ()) rfl rfl) <|
    .cons (.pop (i := 0) rfl htakes) <| .cons (.test (i := 0) rfl hmutex rfl) .nil, rfl⟩

/-- It goes to sleep, is woken and can be joined. -/
theorem resume_wakes_one : ∃ tr, ∃ s : ThreadPool Unit,
    Trace (Where WakesAll (Step fun _ => .med)) (new 1 (session [.suspend, .stop])) tr s ∧
      (s.suspendFlag = false → (phase 1 tr).resuming = false → .asleep ∉ s.workers) ∧
      ∃ tr' s', Trace (Where Proceeds (Step fun _ => .med)) s tr' s' ∧ s'.controller = .ret () := by
  obtain ⟨tr, htr, hcalls⟩ := exists_trace_testing (fun _ : Unit => .med) (session [.stop])
  have hr : Trace (Step fun _ => .med) (new 1 (session [.suspend, .stop]))
      (tr ++ [.sleep 0, .call ⟨.setSuspendFlag false, ()⟩]) _ :=
    htr.trans <| .cons (.sleep (i := 0) rfl) <|
      .cons (.call (o := .setSuspendFlag false) (a := ()) rfl rfl) .nil
  have hnone : .notifyAll ∉ calls (tr ++ [.sleep 0, .call ⟨.setSuspendFlag false, ()⟩]) := by
    rw [calls_append, hcalls]
    simp [calls]
  have hwake : ∀ w ∈ [Worker.asleep (κ := Unit)], w ≠ .testing := by
    rintro w hw rfl
    cases List.mem_singleton.mp hw
  have hr' := (where_wakesAll hr hnone).snoc
    ⟨fun _ => hwake, .call (o := .notifyAll) (a := ()) rfl rfl⟩
  have h := resume_wakes hr'
  exact ⟨_, _, hr', h.1, h.2 [.suspend, .stop] rfl⟩

/-- When the flag is cleared and the workers are woken before it sleeps, it sleeps on, and `Stop` waits. -/
theorem suspend_then_stop : ¬ ∀ (n : Nat) (ops : List (PoolOp Unit)) (tr : List (Action Unit))
    (s : ThreadPool Unit), Trace (Step fun _ => .med) (new n (session ops)) tr s →
      s.suspendFlag = false → (phase n tr).resuming = false → .asleep ∉ s.workers := by
  intro h
  obtain ⟨tr, htr, hcalls⟩ := exists_trace_testing (fun _ : Unit => .med) (session [.stop])
  have hr : Trace (Step fun _ => .med) (new 1 (session [.suspend, .stop]))
      (tr ++ [.call ⟨.setSuspendFlag false, ()⟩, .call ⟨.notifyAll, ()⟩, .sleep 0]) _ :=
    htr.trans <| .cons (.call (o := .setSuspendFlag false) (a := ()) rfl rfl) <|
      .cons (.call (o := .notifyAll) (a := ()) rfl rfl) <| .cons (.sleep (i := 0) rfl) .nil
  have hresuming : (phase 1 (tr ++ [.call ⟨.setSuspendFlag false, ()⟩, .call ⟨.notifyAll, ()⟩,
      .sleep 0])).resuming = false := by
    rw [phase, calls_append, hcalls]
    rfl
  exact h 1 _ _ _ hr rfl hresuming (List.mem_singleton_self _)

end ThreadPool

end LDS
