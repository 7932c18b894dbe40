import LDS.Library.Trace

/-!
# Events in batches

An event system calls its handler for one event after the other. A loop that asks for several events at a time
handles the later ones of a batch when the earlier ones have been handled, so that it may come to an event
that is no longer there. Where handling an event spares the others, the loop does what the dispatcher does.

## Main definitions

* `EventSystem σ α ε`: systems that handle one event at a time
* `EventSystem.LoopStep D limit stop`: the loop over batches of at most `limit` events
* `EventSystem.project`: what an action of the loop is for the dispatcher
* `EventSystem.Sparing D I Keeps`: handling an event spares the others

## Main results

* `EventSystem.taken_append_batch`: the events are taken in the order in which they came
* `EventSystem.trace_of_loop`: a run of the loop is a run of the dispatcher
-/

/-- A system that handles one event at a time. It is `idle` between two of them, and `failed` when a handler
has thrown. -/
structure EventSystem (σ α ε : Type) where
  Step : σ → α → σ → Prop
  idle : σ → Prop
  failed : σ → Prop
  ready : σ → ε → Prop
  event : ε → α
  handle : ε → σ → σ
  begins : ∀ s e, idle s → ready s e → Step s (event e) (handle e s)

/-- Whether a loop goes on, has returned, or has been left by an exception. -/
inductive LoopStatus
  | running | returned | thrown
  deriving DecidableEq

/-- A system under a loop over batches: `batch` is what is left of the last one. -/
structure Batched (σ ε : Type) where
  state : σ
  batch : List ε
  outcome : LoopStatus

/-- A loop that begins. -/
def Batched.begin {σ ε : Type} (s : σ) : Batched σ ε where
  state := s
  batch := []
  outcome := .running

/-- The actions of a loop over batches: it gets a batch, is interrupted or fails while it waits for one, handles
an event, comes to the event that ends it, or lets an exception through; and those of the system. -/
inductive LoopAction (α ε : Type)
  | wait (batch : List ε)
  | interrupted
  | waitFails
  | dispatch (e : ε)
  | stop
  | throws
  | other (a : α)

namespace LoopAction

variable {α ε : Type}

/-- The events that an action brings. -/
def brought : LoopAction α ε → List ε
  | wait batch => batch
  | _ => []

/-- The events that an action takes off the batch. -/
def taken (end_ : ε) : LoopAction α ε → List ε
  | dispatch e => [e]
  | stop => [end_]
  | _ => []

end LoopAction

namespace EventSystem

variable {σ α ε : Type} (D : EventSystem σ α ε) (limit : Nat) (stop : ε)

/-- The steps of the loop. It asks for events when the batch is empty, and handles those of the batch whether
they are still ready or not. -/
inductive LoopStep : Batched σ ε → LoopAction α ε → Batched σ ε → Prop
  | wait {s : Batched σ ε} {batch : List ε} (hrun : s.outcome = .running) (hidle : D.idle s.state)
      (hempty : s.batch = []) (hready : ∀ e ∈ batch, e ≠ stop → D.ready s.state e) (hnodup : batch.Nodup)
      (hlen : 0 < batch.length ∧ batch.length ≤ limit) : LoopStep s (.wait batch) { s with batch := batch }
  | interrupted {s : Batched σ ε} (hrun : s.outcome = .running) (hidle : D.idle s.state)
      (hempty : s.batch = []) : LoopStep s .interrupted s
  | waitFails {s : Batched σ ε} (hrun : s.outcome = .running) (hidle : D.idle s.state)
      (hempty : s.batch = []) : LoopStep s .waitFails { s with outcome := .thrown }
  | dispatch {s : Batched σ ε} {e : ε} {rest : List ε} (hrun : s.outcome = .running) (hidle : D.idle s.state)
      (hbatch : s.batch = e :: rest) (hne : e ≠ stop) :
      LoopStep s (.dispatch e) { s with state := D.handle e s.state, batch := rest }
  | stop {s : Batched σ ε} {rest : List ε} (hrun : s.outcome = .running) (hidle : D.idle s.state)
      (hbatch : s.batch = stop :: rest) : LoopStep s .stop { s with batch := rest, outcome := .returned }
  | throws {s : Batched σ ε} (hrun : s.outcome = .running) (hfailed : D.failed s.state) :
      LoopStep s .throws { s with outcome := .thrown }
  | other {s : Batched σ ε} {a : α} {state : σ} (ha : ∀ e, a ≠ D.event e) (hs : D.Step s.state a state) :
      LoopStep s (.other a) { s with state := state }

/-- What an action of the loop is for the dispatcher. -/
def project : LoopAction α ε → Option α
  | .dispatch e => some (D.event e)
  | .other a => some a
  | _ => none

variable {D limit stop} {s₀ : σ} {s s' : Batched σ ε} {a : LoopAction α ε} {tr : List (LoopAction α ε)}

/-! ## The order of the events -/

/-- A step that leaves the batch alone brings and takes nothing. -/
theorem LoopStep.batch_eq (hs : D.LoopStep limit stop s a s') :
    s.batch ++ a.brought = a.taken stop ++ s'.batch := by
  cases hs with
  | wait _ _ hempty => rw [hempty]; rfl
  | dispatch _ _ hbatch => simp [LoopAction.brought, LoopAction.taken, hbatch]
  | stop _ _ hbatch => simp [LoopAction.brought, LoopAction.taken, hbatch]
  | _ => simp [LoopAction.brought, LoopAction.taken]

/-- **The events are taken in the order in which they came**, none of them twice, and none is left out. -/
theorem taken_append_batch (hr : Trace (D.LoopStep limit stop) (.begin s₀) tr s) :
    tr.flatMap (LoopAction.taken stop) ++ s.batch = tr.flatMap LoopAction.brought := by
  induction hr with
  | nil => rfl
  | snoc _ hs ih =>
    rw [List.flatMap_append, List.flatMap_append, ← ih, List.append_assoc, List.append_assoc,
      List.flatMap_singleton, List.flatMap_singleton, hs.batch_eq]

/-! ## The refinement -/

/-- Handling an event spares the others: `Keeps s E` says of a state with the invariant `I` that what it has left
to do leaves the events in `E` ready. -/
structure Sparing (D : EventSystem σ α ε) (I : σ → Prop) (Keeps : σ → Set ε → Prop) : Prop where
  step : ∀ {s a s'}, I s → D.Step s a s' → I s'
  idle : ∀ {s E}, I s → D.idle s → (∀ e ∈ E, D.ready s e) → Keeps s E
  ready : ∀ {s E e}, Keeps s E → e ∈ E → D.ready s e
  mono : ∀ {s} {E E' : Set ε}, E ⊆ E' → Keeps s E' → Keeps s E
  keeps : ∀ {s a s' E}, I s → D.Step s a s' → (∀ e, a ≠ D.event e) → Keeps s E → Keeps s' E
  handle : ∀ {s e E}, I s → D.idle s → D.ready s e → e ∉ E → Keeps s E → Keeps (D.handle e s) E

/-- The events of a batch that the handler is to be called for. -/
def pending (stop : ε) (batch : List ε) : Set ε := { e | e ∈ batch ∧ e ≠ stop }

theorem pending_cons_subset (stop e : ε) (rest : List ε) : pending stop rest ⊆ pending stop (e :: rest) :=
  fun _ he => ⟨List.mem_cons_of_mem _ he.1, he.2⟩

/-- What is left of a batch is still ready. -/
structure Intact (I : σ → Prop) (Keeps : σ → Set ε → Prop) (stop : ε) (s : Batched σ ε) : Prop where
  inv : I s.state
  nodup : s.batch.Nodup
  keeps : Keeps s.state (pending stop s.batch)

variable {I : σ → Prop} {Keeps : σ → Set ε → Prop}

/-- A step of the loop is one of the dispatcher, or none. -/
theorem Intact.step (h : Sparing D I Keeps) (hi : Intact I Keeps stop s) (hs : D.LoopStep limit stop s a s') :
    Intact I Keeps stop s' ∧ (D.project a).elim (s'.state = s.state) (D.Step s.state · s'.state) := by
  obtain ⟨hinv, hnodup, hkeeps⟩ := hi
  cases hs with
  | wait _ hidle _ hready hnd =>
    refine ⟨⟨hinv, hnd, ?_⟩, rfl⟩
    exact h.idle hinv hidle fun e he => hready e he.1 he.2
  | interrupted => exact ⟨⟨hinv, hnodup, hkeeps⟩, rfl⟩
  | waitFails => exact ⟨⟨hinv, hnodup, hkeeps⟩, rfl⟩
  | throws => exact ⟨⟨hinv, hnodup, hkeeps⟩, rfl⟩
  | @dispatch e rest hrun hidle hbatch hne =>
    rw [hbatch] at hnodup hkeeps
    obtain ⟨hnot, hnodup⟩ := List.nodup_cons.mp hnodup
    -- the event is one of the batch, so that nothing has taken it away
    have hready : D.ready s.state e := h.ready hkeeps ⟨List.mem_cons_self, hne⟩
    have hstep := D.begins s.state e hidle hready
    refine ⟨⟨h.step hinv hstep, hnodup, ?_⟩, hstep⟩
    apply h.handle hinv hidle hready (fun he => hnot he.1)
    exact h.mono (pending_cons_subset stop e rest) hkeeps
  | stop hrun hidle hbatch =>
    rw [hbatch] at hnodup hkeeps
    refine ⟨⟨hinv, (List.nodup_cons.mp hnodup).2, ?_⟩, rfl⟩
    exact h.mono (pending_cons_subset stop _ _) hkeeps
  | other ha hs => exact ⟨⟨h.step hinv hs, hnodup, h.keeps hinv hs ha hkeeps⟩, hs⟩

/-- **A run of the loop is a run of the dispatcher**, and the events of the batch are ready to its end. -/
theorem trace_of_loop (h : Sparing D I Keeps) (h₀ : I s₀) (hidle : D.idle s₀)
    (hr : Trace (D.LoopStep limit stop) (.begin s₀) tr s) :
    Trace D.Step s₀ (tr.filterMap D.project) s.state ∧ Intact I Keeps stop s := by
  induction hr with
  | nil =>
    refine ⟨.nil, h₀, List.nodup_nil, h.idle h₀ hidle ?_⟩
    rintro e ⟨he, -⟩
    exact absurd he List.not_mem_nil
  | @snoc tr a s s' _ hs ih =>
    obtain ⟨htrace, hi⟩ := ih
    obtain ⟨hi', hstate⟩ := hi.step h hs
    refine ⟨?_, hi'⟩
    rw [List.filterMap_append]
    cases hp : D.project a with
    | none =>
      -- the loop only waits, or ends
      rw [hp] at hstate
      rw [List.filterMap_cons_none hp, List.filterMap_nil, List.append_nil]
      exact Eq.subst hstate.symm htrace
    | some b =>
      rw [hp] at hstate
      rw [List.filterMap_cons_some hp]
      exact .snoc htrace hstate

/-! ## The end of the loop -/

/-- A loop that has ended takes no more events. -/
theorem LoopStep.ended (hs : D.LoopStep limit stop s a s') (hend : s.outcome ≠ .running) :
    s'.outcome = s.outcome ∧ a.taken stop = [] := by
  cases hs with
  | other => exact ⟨rfl, rfl⟩
  | wait hrun => exact absurd hrun hend
  | interrupted hrun => exact absurd hrun hend
  | waitFails hrun => exact absurd hrun hend
  | dispatch hrun => exact absurd hrun hend
  | stop hrun => exact absurd hrun hend
  | throws hrun => exact absurd hrun hend

/-- A loop that goes on takes the event that ends it when it returns, and only then. -/
theorem LoopStep.taken_of_running (hs : D.LoopStep limit stop s a s') :
    (s'.outcome = .returned → s.outcome = .running → a.taken stop = [stop]) ∧
      (s'.outcome ≠ .returned → stop ∉ a.taken stop) := by
  cases hs with
  | stop => exact ⟨fun _ _ => rfl, fun hne => absurd rfl hne⟩
  | dispatch hrun _ _ hne =>
    refine ⟨fun hret => (by cases hrun.symm.trans hret), fun _ hmem => ?_⟩
    exact hne (List.mem_singleton.mp hmem).symm
  | waitFails => exact ⟨fun hret => (by cases hret), fun _ => List.not_mem_nil⟩
  | throws => exact ⟨fun hret => (by cases hret), fun _ => List.not_mem_nil⟩
  | _ => exact ⟨fun hret hrun => (by cases hrun.symm.trans hret), fun _ => List.not_mem_nil⟩

/-- **A loop that returns** has taken the event that ends it, once, as the last one. -/
theorem stop_last (hr : Trace (D.LoopStep limit stop) (.begin s₀) tr s) :
    (s.outcome = .returned → ∃ before, tr.flatMap (LoopAction.taken stop) = before ++ [stop] ∧ stop ∉ before) ∧
      (s.outcome ≠ .returned → stop ∉ tr.flatMap (LoopAction.taken stop)) := by
  induction hr with
  | nil => exact ⟨fun hret => (by cases hret), fun _ => List.not_mem_nil⟩
  | @snoc tr a s s' _ hs ih =>
    rw [List.flatMap_append, List.flatMap_singleton]
    by_cases hrun : s.outcome = .running
    · have hnot := ih.2 (by rw [hrun]; exact LoopStatus.noConfusion)
      obtain ⟨hlast, hother⟩ := hs.taken_of_running
      constructor
      · intro hret
        exact ⟨_, by rw [hlast hret hrun], hnot⟩
      · intro hne hmem
        exact (List.mem_append.mp hmem).elim hnot (hother hne)
    · obtain ⟨hout, htaken⟩ := hs.ended hrun
      rw [htaken, List.append_nil, hout]
      exact ih

end EventSystem
