import LDS.Library.Counting
import LDS.Library.PriorityQueue
import LDS.Library.Trace

/-!
# The queue of the thread pool

`WPQ` is a priority queue behind a mutex. `Push` adds an element and wakes one of the threads that wait;
`Pop` waits on a condition variable until there is an element. A thread that was woken is not yet served:
another one can take the element that it was woken for, and it goes back to sleep.

## Main definitions

* `WPQ`: the states, with what each thread is about
* `WPQ.Step`: the critical sections of `Push` and `Pop`, and spurious wake-ups
* `WPQ.pushed`, `WPQ.popped`: the elements that have been added and taken

## Main results

* `WPQ.Step.conserves`: what a step does to the queue
* `WPQ.Served.step`: an element that a waiting thread could have has a thread that was woken for it
* `WPQ.popped_add_pq`, `WPQ.correct`: conservation, order and no lost wake-up in every run
* `WPQ.exists_pop`: a waiting thread does not wait beside an element for ever
-/

namespace LDS

variable {α : Type} {lt : α → α → Prop}

namespace WPQ

/-- What a thread is about: it is outside of `m_cv.wait`, it sleeps there, or it has been woken there and is
to take the mutex and look at the queue again. -/
inductive Thread
  | running
  | waiting
  | woken
  deriving DecidableEq

end WPQ

/-- The states of the queue. -/
structure WPQ (α : Type) where
  pq : Multiset α
  threads : List WPQ.Thread

namespace WPQ

/-- A queue over the elements of a container, that `n` threads use. -/
def new (cont : Multiset α) (n : Nat) : WPQ α := ⟨cont, List.replicate n .running⟩

/-- What a thread does in the queue. -/
inductive Action (α : Type)
  | push (i : Nat) (x : α)
  | pop (i : Nat) (x : α)
  | wait (i : Nat)
  | spurious (i : Nat)

/-- `notify_one`: one of the threads that sleep is woken, if there is one. -/
inductive Notified : List Thread → List Thread → Prop
  | one {ts : List Thread} {i : Nat} (hi : ts[i]? = some .waiting) : Notified ts (ts.set i .woken)
  | none {ts : List Thread} (h : ∀ t ∈ ts, t ≠ .waiting) : Notified ts ts

/-- The steps. The critical section of `Pop` begins when the mutex is taken, at first or after a wake-up:
it takes an element, or goes to sleep if there is none. -/
inductive Step (lt : α → α → Prop) : WPQ α → Action α → WPQ α → Prop
  | push {s : WPQ α} {i : Nat} {x : α} {threads : List Thread} (hi : s.threads[i]? = some .running)
      (hn : Notified s.threads threads) : Step lt s (.push i x) ⟨x ::ₘ s.pq, threads⟩
  | pop {s : WPQ α} {i : Nat} {t : Thread} {x : α} {pq : Multiset α} (hi : s.threads[i]? = some t)
      (ht : t ≠ .waiting) (hq : Takes lt s.pq x pq) :
      Step lt s (.pop i x) ⟨pq, s.threads.set i .running⟩
  | wait {s : WPQ α} {i : Nat} {t : Thread} (hi : s.threads[i]? = some t) (ht : t ≠ .waiting)
      (hq : s.pq = 0) : Step lt s (.wait i) { s with threads := s.threads.set i .waiting }
  | spurious {s : WPQ α} {i : Nat} (hi : s.threads[i]? = some .waiting) :
      Step lt s (.spurious i) { s with threads := s.threads.set i .woken }

/-- The elements that have been added. -/
def pushed (tr : List (Action α)) : Multiset α :=
  ↑(tr.filterMap fun
    | .push _ x => some x
    | _ => none)

/-- The elements that have been taken. -/
def popped (tr : List (Action α)) : Multiset α :=
  ↑(tr.filterMap fun
    | .pop _ x => some x
    | _ => none)

theorem pushed_append (tr tr' : List (Action α)) : pushed (tr ++ tr') = pushed tr + pushed tr' := by
  rw [pushed, List.filterMap_append, ← Multiset.coe_add]
  rfl

theorem popped_append (tr tr' : List (Action α)) : popped (tr ++ tr') = popped tr + popped tr' := by
  rw [popped, List.filterMap_append, ← Multiset.coe_add]
  rfl

variable {s s' : WPQ α} {act : Action α} {cont : Multiset α} {n : Nat} {tr : List (Action α)}

/-- A step adds an element, takes one, or does nothing to the queue. -/
theorem Step.conserves (h : Step lt s act s') : popped [act] + s'.pq = pushed [act] + s.pq := by
  cases h with
  | @push i x =>
    change 0 + x ::ₘ s.pq = {x} + s.pq
    rw [zero_add, Multiset.singleton_add]
  | @pop i t x pq _ _ hq =>
    change {x} + pq = 0 + s.pq
    rw [zero_add, Multiset.singleton_add, hq.eq_cons]
  | wait => rfl
  | spurious => rfl

/-- What comes out is exceeded by no element of that moment. -/
theorem Step.not_lt {i : Nat} {x : α} (h : Step lt s (.pop i x) s') : ∀ y ∈ s.pq, ¬ lt x y := by
  cases h with
  | pop _ _ hq => exact hq.not_lt

/-- Nothing is lost, and nothing comes out twice. -/
theorem popped_add_pq (hr : Trace (Step lt) (new cont n) tr s) :
    popped tr + s.pq = pushed tr + cont := by
  refine hr.invariant (I := fun tr s => popped tr + s.pq = pushed tr + cont) rfl ?_
  intro tr s act s' hs h
  calc popped (tr ++ [act]) + s'.pq = popped tr + (popped [act] + s'.pq) := by
        rw [popped_append, add_assoc]
    _ = pushed [act] + (popped tr + s.pq) := by
        rw [hs.conserves]
        abel
    _ = pushed (tr ++ [act]) + cont := by
        rw [h, pushed_append]
        abel

/-! ## Wake-ups -/

/-- The threads that sleep. -/
def waiting (s : WPQ α) : Nat := s.threads.countP (· = .waiting)

/-- The threads that have been woken. -/
def woken (s : WPQ α) : Nat := s.threads.countP (· = .woken)

/-- While a thread sleeps, there is a woken one for every element. -/
def Served (s : WPQ α) : Prop := 0 < s.waiting → s.pq.card ≤ s.woken

/-- When a thread changes, so do the numbers of those that sleep and of those that have been woken. -/
theorem countP_set {ts : List Thread} {i : Nat} {t : Thread} (hi : ts[i]? = some t) (u v : Thread) :
    (ts.set i u).countP (· = v) + (decide (t = v)).toNat =
      ts.countP (· = v) + (decide (u = v)).toNat :=
  List.countP_set_of_getElem? (fun t => decide (t = v)) hi u

/-- A thread that sleeps is counted. -/
theorem countP_waiting_eq_zero {ts : List Thread} (h : ∀ t ∈ ts, t ≠ .waiting) :
    ts.countP (· = .waiting) = 0 :=
  List.countP_eq_zero.mpr fun t ht => by simpa using h t ht

theorem Served.step (h : Served s) (hs : Step lt s act s') : Served s' := by
  cases hs with
  | @push i x threads hi hn =>
    intro hpos
    rw [Multiset.card_cons]
    cases hn with
    | @one j hj =>
      -- the thread that is woken is the one for the new element
      have hwoken := countP_set hj .woken .woken
      have hcard := h (List.countP_pos_iff.mpr ⟨_, List.mem_of_getElem? hj, by simp⟩)
      simp only [woken] at hcard ⊢
      simp at hwoken
      omega
    | none hnone =>
      rw [waiting, countP_waiting_eq_zero hnone] at hpos
      exact absurd hpos (Nat.lt_irrefl 0)
  | @pop i t x pq hi ht hq =>
    intro hpos
    have hwaiting := countP_set hi .running .waiting
    have hwoken := countP_set hi .running .woken
    have hcard := congrArg Multiset.card hq.eq_cons
    rw [Multiset.card_cons] at hcard
    have hserved : 0 < s.waiting → s.pq.card ≤ s.woken := h
    simp only [waiting, woken] at hpos hserved ⊢
    -- an element less, and at most one woken thread less
    cases t with
    | waiting => exact absurd rfl ht
    | running =>
      simp at hwaiting hwoken
      omega
    | woken =>
      simp at hwaiting hwoken
      omega
  | wait hi ht hq =>
    intro _
    rw [hq]
    exact Nat.zero_le _
  | @spurious i hi =>
    intro _
    have hwoken := countP_set hi .woken .woken
    have hcard := h (List.countP_pos_iff.mpr ⟨_, List.mem_of_getElem? hi, by simp⟩)
    simp only [woken] at hcard ⊢
    simp at hwoken
    omega

theorem served_run (hr : Trace (Step lt) (new cont n) tr s) : Served s := by
  refine hr.invariant (I := fun _ s => Served s) ?_ fun _ _ _ _ hs h => h.step hs
  intro hpos
  rw [waiting, countP_waiting_eq_zero] at hpos
  · exact absurd hpos (Nat.lt_irrefl 0)
  · intro t ht
    rw [List.eq_of_mem_replicate ht]
    nofun

/-- **The queue is a blocking priority queue.** -/
theorem correct (hr : Trace (Step lt) (new cont n) tr s) :
    popped tr + s.pq = pushed tr + cont ∧
      (∀ i x s', Step lt s (.pop i x) s' → ∀ y ∈ s.pq, ¬ lt x y) ∧
      ¬ (s.pq ≠ 0 ∧ Thread.waiting ∈ s.threads ∧ s.woken < s.pq.card) := by
  refine ⟨popped_add_pq hr, fun i x s' hs => hs.not_lt, ?_⟩
  rintro ⟨-, hmem, hlt⟩
  have hcard := served_run hr (List.countP_pos_iff.mpr ⟨_, hmem, by simp⟩)
  omega

/-- A thread that waits while there is an element is not alone: one that has been woken can take it, if any
element can be compared with any other. -/
theorem exists_pop (hr : Trace (Step lt) (new cont n) tr s) (hq : s.pq ≠ 0)
    (hwait : Thread.waiting ∈ s.threads) (hmax : ∃ x ∈ s.pq, ∀ y ∈ s.pq, ¬ lt x y) :
    ∃ i x s', Step lt s (.pop i x) s' := by
  have hcard := served_run hr (List.countP_pos_iff.mpr ⟨_, hwait, by simp⟩)
  have hpos : 0 < s.woken := Nat.lt_of_lt_of_le (Multiset.card_pos.mpr hq) hcard
  obtain ⟨t, ht, hwoken⟩ := List.countP_pos_iff.mp hpos
  obtain ⟨i, hi⟩ := List.mem_iff_getElem?.mp ht
  obtain ⟨x, hx, hle⟩ := hmax
  obtain ⟨pq, htakes⟩ := exists_takes hx hle
  refine ⟨i, x, _, .pop hi ?_ htakes⟩
  rw [of_decide_eq_true hwoken]
  nofun

/-- A thread that finds the queue empty sleeps until another one has added an element. -/
theorem correct_wait : ∃ tr, ∃ s : WPQ Nat, Trace (Step (· < ·)) (new 0 2) tr s ∧ popped tr = {7} ∧
    popped tr + s.pq = pushed tr + 0 ∧
      (∀ i x s', Step (· < ·) s (.pop i x) s' → ∀ y ∈ s.pq, ¬ x < y) ∧
      ¬ (s.pq ≠ 0 ∧ Thread.waiting ∈ s.threads ∧ s.woken < s.pq.card) := by
  have hr : Trace (Step (· < ·)) (new (0 : Multiset Nat) 2) [.wait 0, .push 1 7, .pop 0 7]
      ⟨0, [.running, .running]⟩ := by
    refine .cons (.wait (t := .running) rfl nofun rfl) (.cons (.push (i := 1) rfl (.one (i := 0) rfl))
      (.cons (.pop (t := .woken) rfl nofun ⟨rfl, ?_⟩) .nil))
    simp [new]
  exact ⟨_, _, hr, rfl, correct hr⟩

end WPQ

end LDS
