import LDS.Threading.Sessions

/-!
# Resizing the pool

`SetSize` stops the workers and makes new ones. The commands of `Stop` are for the workers that it joins;
one that is left in the queue ends a new worker.

## Main definitions

* `ThreadPool.Balanced`: every command of `Stop` is for a worker of the present ones

## Main results

* `ThreadPool.setSize_works`: the new workers live until they are stopped, if no `Stop` came before
* `ThreadPool.setSize_after_stop`: they need not otherwise
-/

namespace LDS

namespace ThreadPool

variable {κ : Type} {prio : κ → CMDPriority} {n m : Nat} {ops pre mid : List (PoolOp κ)} {s s' s₁ : ThreadPool κ}
  {tr tr₁ tr₂ : List (Action κ)} {act : Action κ} {x : Phase}

/-- The commands of `Stop` that are queued or taken are those that were added for the present workers. -/
def Balanced (x : Phase) (s : ThreadPool κ) : Prop := load isStop s = x.stops

/-- Where all workers have ended, the commands of `Stop` have all been taken. -/
theorem Balanced.queue_eq_zero (h : Balanced x s) (htracks : x.Tracks s) (hstops : x.stops = x.size)
    (hjoined : ∀ i < x.size, i ∈ x.joined) : s.queue.countP (isStop ·) = 0 := by
  have hall : s.workers.countP (Worker.holds isStop) = s.workers.length := by
    rw [List.countP_eq_length]
    intro w hw
    obtain ⟨i, hi⟩ := List.mem_iff_getElem?.mp hw
    have hlt : i < x.size := by
      rw [← htracks.length_workers]
      exact (List.getElem?_eq_some_iff.mp hi).1
    obtain rfl : Worker.ended = w := Option.some.inj ((htracks.joined i (hjoined i hlt)).symm.trans hi)
    rfl
  have hload : s.queue.countP (isStop ·) + s.workers.countP (Worker.holds isStop) = x.stops := h
  have hlen := htracks.length_workers
  omega

theorem Balanced.call (h : Balanced x s) (htracks : x.Tracks s) {o : PoolCall κ} {a : o.Answer}
    (hkeeps : Keeps True x o) (ha : s.answer o a = some s') (k : PoolProg κ Unit) :
    Balanced (x.next o) { s' with controller := k } := by
  have hload : (∀ m, o ≠ .initThreads m) → load isStop s' = load isStop s + added isStop o := load_call ha
  have hload' : (∀ m, o ≠ .initThreads m) → load isStop s' = x.stops + added isStop o := fun hne => by
    rw [hload hne, h]
  cases o with
  | push cmd => cases cmd <;> exact hload' nofun
  | setSuspendFlag b => cases b <;> exact hload' nofun
  | notifyAll => exact hload' nofun
  | getSize => exact hload' nofun
  | join i => exact hload' nofun
  | initThreads m =>
    obtain rfl := Option.some.inj ha
    obtain ⟨hstops, hjoined⟩ := hkeeps trivial
    -- new workers need an empty queue: the old ones have taken what was in it
    have hqueue := h.queue_eq_zero htracks hstops hjoined
    have hidle : (List.replicate m (Worker.idle (κ := κ))).countP (Worker.holds isStop) = 0 := by
      rw [List.countP_replicate]
      rfl
    exact (congrArg₂ (· + ·) hqueue hidle : _ = 0 + 0)

/-- In a session the commands of `Stop` stay in balance. -/
theorem balanced_run (hops : KeepsWorking n ops) (hr : Trace (Step prio) (new n (session ops)) tr s) :
    Balanced (phase n tr) s := by
  have hobeys : Prog.Obeys (phases (Keeps True)) (fun _ _ => True) (.start n) (session ops) :=
    obeys_session ops fun _ => .inl ⟨rfl, hops⟩
  induction hr with
  | nil =>
    have hidle : (List.replicate n (Worker.idle (κ := κ))).countP (Worker.holds isStop) = 0 := by
      rw [List.countP_replicate]
      rfl
    exact (congrArg (0 + ·) hidle : _ = 0 + 0)
  | @snoc tr act s s' hr hs ih =>
    have htracks := tracks_phase hr
    rw [phase_append]
    cases act with
    | call e =>
      -- the call is one that the contract allows
      have hnow := obeys_phase hobeys hr
      cases hs with
      | @call s₁ o a k hc ha =>
        rw [hc] at hnow
        exact ih.call htracks hnow.call_inv.1 ha _
    | _ => exact (load_worker hs nofun (fun _ => rfl) fun h => by cases h).trans ih

/-- When `SetSize` has returned, it has made its workers, and no command of `Stop` was added since. -/
theorem obeys_session_setSize (hnew : m ≠ 0) (pre : List (PoolOp κ)) :
    Prog.Obeys (phases (Keeps False)) (fun x _ => x.size = m ∧ x.stops = 0) (.start n)
      (session (pre ++ [.setSize m])) := by
  have hpre : Prog.Obeys (phases (Keeps False)) (fun _ _ => True) (.start n) (session pre) :=
    obeys_session pre fun h => h.elim
  rw [session_append]
  refine hpre.bind fun x _ _ => ?_
  rw [session_setSize hnew]
  exact obeys_stop fun joined _ => .call (fun h => h.elim) fun _ _ => .ret ⟨rfl, rfl⟩

/-- Steps that make no workers and add no command of `Stop` leave the number of these commands. -/
theorem load_isStop_eq (hr : Trace (Step prio) s₁ tr s) (hstop : .push .stop ∉ calls tr)
    (hnew : ∀ m, .initThreads m ∉ calls tr) : load isStop s = load isStop s₁ := by
  induction hr with
  | nil => rfl
  | @snoc tr act s s' hr hs ih =>
    rw [calls_append] at hstop hnew
    refine Eq.trans ?_ (ih (fun h => hstop (List.mem_append_left _ h)) fun m h => hnew m (List.mem_append_left _ h))
    cases act with
    | call e =>
      cases hs with
      | @call s₂ o a k hc ha =>
        have ho : ∀ m, o ≠ .initThreads m := by
          rintro m rfl
          exact hnew m (List.mem_append_right _ List.mem_cons_self)
        have hnone : added isStop o = 0 := by
          cases o with
          | push cmd =>
            cases cmd with
            | stop => exact absurd (List.mem_append_right _ List.mem_cons_self) hstop
            | _ => rfl
          | _ => rfl
        exact (load_call ha ho).trans (by rw [hnone, Nat.add_zero])
    | _ => exact load_worker hs nofun (fun _ => rfl) fun h => by cases h

/-- **A resized pool works.** Once `SetSize(m)` has returned, and until a command of `Stop` is added or workers are
made again, there are `m` workers, none of which has ended or is about to, if up to that call none of `SetSize` came
after one of `Stop`. -/
theorem setSize_works (hnew : m ≠ 0) (hops : KeepsWorking n (pre ++ [.setSize m]))
    (hr₁ : Trace (Step prio) (new n (session (pre ++ .setSize m :: mid))) tr₁ s₁)
    (hreturned : s₁.controller = session mid) (hr₂ : Trace (Step prio) s₁ tr₂ s)
    (hstop : PoolCall.push .stop ∉ calls tr₂) (hsize : ∀ m', PoolCall.initThreads m' ∉ calls tr₂) :
    s.workers.length = m ∧ .stop ∉ s.queue ∧ ∀ w ∈ s.workers, w ≠ .ended ∧ w ≠ .executing .stop := by
  have hr := trace_of_returned hr₁ hreturned
  obtain ⟨hm, hzero⟩ : (phase n tr₁).size = m ∧ (phase n tr₁).stops = 0 :=
    (obeys_phase (obeys_session_setSize hnew pre) hr).ret_inv
  -- the queue and the workers have no command of `Stop` when the call returns, and none comes
  have hload : s.queue.countP (isStop ·) + s.workers.countP (Worker.holds isStop) = 0 :=
    (load_isStop_eq hr₂ hstop hsize).trans ((balanced_run hops hr).trans hzero)
  have hlen : s.workers.length = m := by
    rw [(tracks_phase (hr₁.trans hr₂)).length_workers, phase, calls_append, List.foldl_append,
      Phase.size_foldl_next hsize]
    exact hm
  obtain ⟨hqueue, hworkers⟩ := Nat.add_eq_zero_iff.mp hload
  refine ⟨hlen, fun hmem => ?_, fun w hw => ?_⟩
  · exact Multiset.countP_eq_zero.mp hqueue _ hmem rfl
  · have hholds := List.countP_eq_zero.mp hworkers w hw
    constructor <;> rintro rfl <;> exact hholds rfl

/-! ## A pool of one worker -/

variable (prio) in
/-- The worker is stopped, and joined. -/
theorem exists_trace_stop (k : PoolProg κ Unit) : ∃ tr, Trace (Step prio) ⟨0, [.idle], false, stop >>= fun _ => k⟩ tr
    ⟨0, [.ended], false, k⟩ := by
  have htakes : Takes (Command.lt prio) ({.stop} : Multiset (Command κ)) .stop 0 :=
    takes_cons (Nat.lt_irrefl _) nofun
  exact ⟨_, .cons (.call (o := .setSuspendFlag false) (a := ()) rfl rfl) <|
    .cons (.call (o := .notifyAll) (a := ()) rfl rfl) <|
    .cons (.call (o := .getSize) (a := (1 : Nat)) rfl rfl) <|
    .cons (.call (o := .push .stop) (a := ()) rfl rfl) <|
    .cons (.pop (i := 0) rfl htakes) <| .cons (.stop (i := 0) rfl) <|
    .cons (.call (o := .join 0) (a := ()) rfl rfl) .nil⟩

variable (prio) in
/-- It is stopped when it has ended, and a new one is made. -/
theorem exists_trace_stop_again (k : PoolProg κ Unit) : ∃ tr, Trace (Step prio)
    ⟨0, [.ended], false, stop >>= fun _ => .call (.initThreads 1) fun _ => k⟩ tr ⟨{.stop}, [.idle], false, k⟩ :=
  ⟨_, .cons (.call (o := .setSuspendFlag false) (a := ()) rfl rfl) <|
    .cons (.call (o := .notifyAll) (a := ()) rfl rfl) <|
    .cons (.call (o := .getSize) (a := (1 : Nat)) rfl rfl) <|
    .cons (.call (o := .push .stop) (a := ()) rfl rfl) <|
    .cons (.call (o := .join 0) (a := ()) rfl rfl) <|
    .cons (.call (o := .initThreads 1) (a := ()) rfl rfl) .nil⟩

/-- A pool of one worker is resized to one worker. -/
theorem setSize_works_one : ∃ tr, ∃ s : ThreadPool Unit,
    Trace (Step fun _ => .med) (new 1 (session [.setSize 1])) tr s ∧ s.controller = session [] ∧
      s.workers.length = 1 ∧ .stop ∉ s.queue ∧ ∀ w ∈ s.workers, w ≠ .ended ∧ w ≠ .executing .stop := by
  obtain ⟨tr, htr⟩ := exists_trace_stop (fun _ : Unit => .med) (.call (.initThreads 1) fun _ => .ret ())
  have hr : Trace (Step fun _ => .med) (new 1 (session [.setSize 1])) (tr ++ [.call ⟨.initThreads 1, ()⟩])
      ⟨0, [.idle], false, .ret ()⟩ := by
    rw [session_setSize one_ne_zero]
    exact htr.trans (.cons (.call (o := .initThreads 1) (a := ()) rfl rfl) .nil)
  have hops : KeepsWorking 1 ([] ++ [PoolOp.setSize (κ := Unit) 1]) := trivial
  exact ⟨_, _, hr, rfl, setSize_works one_ne_zero hops hr rfl .nil List.not_mem_nil fun _ => List.not_mem_nil⟩

/-- The worker of a pool that has been stopped and then resized can find a command of `Stop`. -/
theorem setSize_after_stop : ¬ ∀ (n m : Nat) (pre mid : List (PoolOp Unit)) (tr₁ tr₂ : List (Action Unit))
    (s₁ s : ThreadPool Unit), m ≠ 0 →
    Trace (Step fun _ => .med) (new n (session (pre ++ .setSize m :: mid))) tr₁ s₁ →
    s₁.controller = session mid → Trace (Step fun _ => .med) s₁ tr₂ s → PoolCall.push .stop ∉ calls tr₂ →
    (∀ m', PoolCall.initThreads m' ∉ calls tr₂) →
    s.workers.length = m ∧ .stop ∉ s.queue ∧ ∀ w ∈ s.workers, w ≠ .ended ∧ w ≠ .executing .stop := by
  intro h
  obtain ⟨tr', htr'⟩ := exists_trace_stop_again (fun _ : Unit => .med) (.ret ())
  obtain ⟨tr, htr⟩ := exists_trace_stop (fun _ : Unit => .med)
    (stop >>= fun _ => .call (.initThreads 1) fun _ => .ret ())
  have hr : Trace (Step fun _ => .med) (new 1 (session ([.stop] ++ .setSize 1 :: []))) (tr ++ tr')
      ⟨{.stop}, [.idle], false, .ret ()⟩ := by
    have hprogram : session ([PoolOp.stop] ++ .setSize 1 :: []) =
        stop >>= fun _ => session [PoolOp.setSize (κ := Unit) 1] := rfl
    rw [hprogram, session_setSize one_ne_zero]
    exact htr.trans htr'
  have hworks := h 1 1 [.stop] [] _ _ _ _ one_ne_zero hr rfl .nil List.not_mem_nil fun _ => List.not_mem_nil
  exact hworks.2.1 (Multiset.mem_singleton_self _)

end ThreadPool

end LDS
