import Mathlib

/-!
# Programs over an environment

A program returns a value, calls an operation of its environment and goes on from the answer, or
stops dead. Against a handler it is a partial function of the state; in an environment, which
relates a state and a call to the possible answers and next states, it has executions, complete
or cut off after any call. Several programs over one state form a pool, whose runs interleave
their calls in any order.

## Main definitions

* `Prog Op Ans α`: programs
* `Prog.inline f p`: `p` with its calls answered by programs
* `Prog.Obeys C Q p`: under the contract `C` the value of `p` is in `Q`
* `Prog.Contract.script A`: the contract of a straight-line program
* `Prog.Contract.history A P X`: the contract of a program that remembers its exchanges
* `Prog.run h p s`: the result of `p` against the handler `h`
* `Steps R p s tr q s'`: `p` goes from `s` to `s'` by the exchanges `tr`, with `q` left to do
* `Pool.Run R T s tr T' s'`: an interleaved run of the programs `T`
* `Pool.own i tr`: the exchanges of one program of a run
* `Pool.exec h sched T s`: the run in the order of a schedule

## Main results

* `Prog.run_bind`, `Steps.bind_inv`: sequential composition
* `Prog.Obeys.run_script`: the result of a program that follows a script
* `Steps.of_run`: a handler's result is a complete execution in every environment that contains
  the handler
* `Steps.of_run_none`: a program without a result comes to a call that has no answer
* `Steps.obeys`: an execution keeps to the contract of its program
* `Steps.invariant`, `Pool.Run.invariant`: what every call preserves, every run preserves
* `Pool.Run.steps`: a program of a pool runs as it does alone, in an environment where others
  interfere
* `Pool.Run.simulate`: a pool follows another one, that makes some of its calls
* `Pool.Run.script`: the programs of a pool follow their scripts
* `Pool.Run.history`: the programs of a pool keep to contracts about their exchanges
-/

/-- A program over the operations `Op`, where `o` is answered in `Ans o`. -/
inductive Prog (Op : Type) (Ans : Op → Type) (α : Type) : Type
  | ret (a : α)
  | call (o : Op) (k : Ans o → Prog Op Ans α)
  | abort

namespace Prog

variable {Op : Type} {Ans : Op → Type} {α β γ σ : Type}

/-- Run `p`, then the program chosen by its value. -/
protected def bind : Prog Op Ans α → (α → Prog Op Ans β) → Prog Op Ans β
  | ret a, f => f a
  | call o k, f => call o fun a => (k a).bind f
  | abort, _ => abort

instance : Monad (Prog Op Ans) where
  pure := ret
  bind := Prog.bind

@[simp] theorem pure_eq (a : α) : (pure a : Prog Op Ans α) = ret a := rfl

@[simp] theorem ret_bind (a : α) (f : α → Prog Op Ans β) : ret a >>= f = f a := rfl

@[simp] theorem call_bind (o : Op) (k : Ans o → Prog Op Ans α) (f : α → Prog Op Ans β) :
    call o k >>= f = call o fun a => k a >>= f := rfl

@[simp] theorem abort_bind (f : α → Prog Op Ans β) : (abort : Prog Op Ans α) >>= f = abort := rfl

theorem bind_ret (p : Prog Op Ans α) : p >>= ret = p := by
  induction p with
  | ret a => rfl
  | call o k ih => simp [ih]
  | abort => rfl

theorem bind_assoc (p : Prog Op Ans α) (f : α → Prog Op Ans β) (g : β → Prog Op Ans γ) :
    p >>= f >>= g = p >>= fun a => f a >>= g := by
  induction p with
  | ret a => rfl
  | call o k ih => simp [ih]
  | abort => rfl

instance : LawfulMonad (Prog Op Ans) :=
  LawfulMonad.mk' _ (fun p => bind_ret p) (fun _ _ => rfl) bind_assoc

/-- Call `o` and return its answer. -/
def perform (o : Op) : Prog Op Ans (Ans o) := call o ret

@[simp] theorem perform_bind (o : Op) (f : Ans o → Prog Op Ans β) :
    perform o >>= f = call o f := rfl

/-- The value of a program that is done. -/
def value? : Prog Op Ans α → Option α
  | ret a => some a
  | call _ _ => none
  | abort => none

theorem value?_eq_some {p : Prog Op Ans α} {v : α} : p.value? = some v ↔ p = .ret v := by
  cases p <;> simp [value?]

/-- What is left of a program when its call has been answered. -/
inductive After : Prog Op Ans α → Prog Op Ans α → Prop
  | answer {o : Op} (k : Ans o → Prog Op Ans α) (a : Ans o) : After (k a) (.call o k)

theorem wellFounded_after : WellFounded (@After Op Ans α) := by
  refine ⟨fun p => ?_⟩
  induction p with
  | ret a => exact ⟨_, fun q hq => by cases hq⟩
  | call o k ih =>
    refine ⟨_, fun q hq => ?_⟩
    cases hq
    exact ih _
  | abort => exact ⟨_, fun q hq => by cases hq⟩

/-- No program comes back to itself. -/
theorem not_transGen_after (p : Prog Op Ans α) : ¬ Relation.TransGen After p p :=
  fun h => (wellFounded_after.transGen).irrefl.irrefl p h

/-! ## Inlining -/

section Inline

variable {Op' : Type} {Ans' : Op' → Type}

/-- The program with every call answered by a program over other calls. -/
def inline (f : (o : Op) → Prog Op' Ans' (Ans o)) : Prog Op Ans α → Prog Op' Ans' α
  | ret a => ret a
  | call o k => (f o).bind fun a => (k a).inline f
  | abort => abort

variable {f : (o : Op) → Prog Op' Ans' (Ans o)}

@[simp] theorem inline_ret (a : α) : (ret a : Prog Op Ans α).inline f = ret a := rfl

@[simp] theorem inline_call (o : Op) (k : Ans o → Prog Op Ans α) :
    (call o k).inline f = f o >>= fun a => (k a).inline f := rfl

@[simp] theorem inline_abort : (abort : Prog Op Ans α).inline f = abort := rfl

theorem inline_bind (p : Prog Op Ans α) (q : α → Prog Op Ans β) :
    (p >>= q).inline f = p.inline f >>= fun a => (q a).inline f := by
  induction p with
  | ret a => rfl
  | call o k ih => simp [ih]
  | abort => rfl

variable (Ans') in
/-- The program over more calls. -/
def lift (f : Op → Op') (p : Prog Op (fun o => Ans' (f o)) α) : Prog Op' Ans' α :=
  p.inline fun o => perform (f o)

end Inline

/-! ## Contracts -/

/-- What a program relies on and keeps to, phase by phase: the answers that its calls get, the calls
that it makes and the phases they lead to, and whether it may stop dead. -/
structure Contract (Op : Type) (Ans : Op → Type) (φ : Type) where
  answers : φ → (o : Op) → Ans o → Prop
  calls : φ → Op → Prop
  next : φ → (o : Op) → Ans o → φ
  mayAbort : Prop

/-- A contract of one phase. -/
def Contract.plain (answers : (o : Op) → Ans o → Prop) (calls : Op → Prop) (mayAbort : Prop) :
    Contract Op Ans Unit where
  answers _ := answers
  calls _ := calls
  next _ _ _ := ()
  mayAbort := mayAbort

variable {φ : Type} {C : Contract Op Ans φ} {Q : φ → α → Prop} {x : φ} {p : Prog Op Ans α}

/-- In every phase of `P` the call may be made, and leads to a phase of `P'`. -/
def Contract.Leads (C : Contract Op Ans φ) (P P' : φ → Prop) (o : Op) : Prop :=
  ∀ x, P x → C.calls x o ∧ ∀ a, C.answers x o a → P' (C.next x o a)

/-- A call that ends no phase. -/
theorem Contract.Leads.stay {P : φ → Prop} {o : Op} (hcalls : ∀ x, P x → C.calls x o)
    (hnext : ∀ x a, P x → C.next x o a = x) : C.Leads P P o := by
  intro x hx
  refine ⟨hcalls x hx, fun a _ => ?_⟩
  rw [hnext x a hx]
  exact hx

theorem Contract.leads_plain {A : (o : Op) → Ans o → Prop} {P : Op → Prop} {X : Prop} {o : Op}
    (h : P o) : (Contract.plain A P X).Leads (fun _ => True) (fun _ => True) o :=
  fun _ _ => ⟨h, fun _ _ => trivial⟩

/-- The contract of a straight-line program: the calls that it is still to make, and the exchanges that it
has made. -/
def Contract.script (A : (o : Op) → Ans o → Prop) :
    Contract Op Ans (List Op × List (Σ o : Op, Ans o)) where
  answers _ := A
  calls x o := x.1.head? = some o
  next x o a := (x.1.tail, x.2 ++ [⟨o, a⟩])
  mayAbort := False

/-- The contract of a program whose calls are to be those that `P` allows after the exchanges that it has
made. -/
def Contract.history (A : (o : Op) → Ans o → Prop) (P : List (Σ o : Op, Ans o) → Op → Prop)
    (mayAbort : Prop) : Contract Op Ans (List (Σ o : Op, Ans o)) where
  answers _ := A
  calls := P
  next x o a := x ++ [⟨o, a⟩]
  mayAbort := mayAbort

/-- From a phase on, as long as the answers are those of the contract, the program keeps to it; the
phase it ends in and its value are in `Q`. -/
inductive Obeys (C : Contract Op Ans φ) (Q : φ → α → Prop) : φ → Prog Op Ans α → Prop
  | ret {x : φ} {a : α} (ha : Q x a) : Obeys C Q x (.ret a)
  | call {x : φ} {o : Op} {k : Ans o → Prog Op Ans α} (ho : C.calls x o)
      (hk : ∀ a, C.answers x o a → Obeys C Q (C.next x o a) (k a)) : Obeys C Q x (.call o k)
  | abort {x : φ} (h : C.mayAbort) : Obeys C Q x .abort

namespace Obeys

theorem bind {Q' : φ → β → Prop} {f : α → Prog Op Ans β} (hp : Obeys C Q x p)
    (hf : ∀ y a, Q y a → Obeys C Q' y (f a)) : Obeys C Q' x (p >>= f) := by
  induction hp with
  | ret ha => exact hf _ _ ha
  | call ho _ ih => exact .call ho ih
  | abort h => exact .abort h

theorem mono {Q' : φ → α → Prop} (hp : Obeys C Q x p) (hQ : ∀ y a, Q y a → Q' y a) :
    Obeys C Q' x p := by
  induction hp with
  | ret ha => exact .ret (hQ _ _ ha)
  | call ho _ ih => exact .call ho ih
  | abort h => exact .abort h

theorem ret_inv {a : α} (h : Obeys C Q x (.ret a)) : Q x a := by
  cases h with
  | ret ha => exact ha

theorem call_inv {o : Op} {k : Ans o → Prog Op Ans α} (h : Obeys C Q x (.call o k)) :
    C.calls x o ∧ ∀ a, C.answers x o a → Obeys C Q (C.next x o a) (k a) := by
  cases h with
  | call ho hk => exact ⟨ho, hk⟩

theorem abort_inv (h : Obeys C Q x .abort) : C.mayAbort := by
  cases h with
  | abort h => exact h

/-- Two contracts that differ in what they rely on and show, as one. -/
theorem and {A A' : (o : Op) → Ans o → Prop} {P : Op → Prop} {X : Prop} {Q Q' : Unit → α → Prop}
    (hp : Obeys (.plain A P X) Q () p) (hp' : Obeys (.plain A' P X) Q' () p) :
    Obeys (.plain (fun o a => A o a ∧ A' o a) P X) (fun y a => Q y a ∧ Q' y a) () p := by
  induction p with
  | ret a => exact .ret ⟨hp.ret_inv, hp'.ret_inv⟩
  | call o k ih =>
    exact .call hp.call_inv.1 fun a ha => ih a (hp.call_inv.2 a ha.1) (hp'.call_inv.2 a ha.2)
  | abort => exact .abort hp.abort_inv

/-- A program keeps to a contract that allows more calls. -/
theorem allow {A : (o : Op) → Ans o → Prop} {P P' : Op → Prop} {X : Prop} {Q : Unit → α → Prop}
    (hp : Obeys (.plain A P X) Q () p) (h : ∀ o, P o → P' o) : Obeys (.plain A P' X) Q () p := by
  induction p with
  | ret a => exact .ret hp.ret_inv
  | call o k ih =>
    obtain ⟨ho, hk⟩ := hp.call_inv
    exact .call (h o ho) fun a ha => ih a (hk a ha)
  | abort => exact .abort hp.abort_inv

/-- A call, and what follows it. -/
theorem call_of_leads {P P' : φ → Prop} {o : Op} {k : Ans o → Prog Op Ans α} (ho : C.Leads P P' o)
    (hx : P x) (hk : ∀ y a, P' y → Obeys C Q y (k a)) : Obeys C Q x (.call o k) :=
  .call (ho x hx).1 fun a ha => hk _ _ ((ho x hx).2 a ha)

/-- The next call of a script, and what follows it. -/
theorem script_call {A : (o : Op) → Ans o → Prop} {Q : List Op × List (Σ o : Op, Ans o) → α → Prop}
    {o : Op} {todo : List Op} {made : List (Σ o : Op, Ans o)} {k : Ans o → Prog Op Ans α}
    (hk : ∀ a, A o a → Obeys (.script A) Q (todo, made ++ [⟨o, a⟩]) (k a)) :
    Obeys (.script A) Q (o :: todo, made) (.call o k) := .call rfl hk

/-- A program that does not abort can come to what follows it. -/
theorem after_bind (hp : Obeys C Q x p) (habort : ¬ C.mayAbort)
    (hanswer : ∀ x o, C.calls x o → ∃ a, C.answers x o a) (q : Prog Op Ans β) :
    Relation.ReflTransGen After q (p >>= fun _ => q) := by
  induction hp with
  | ret => exact .refl
  | @call x o k ho _ ih =>
    obtain ⟨a, ha⟩ := hanswer _ _ ho
    exact (ih a ha).tail (.answer (fun a => k a >>= fun _ => q) a)
  | abort h => exact absurd h habort

/-- Only a program that has returned is followed by itself. -/
theorem eq_ret_of_bind_eq (hp : Obeys C Q x p) (habort : ¬ C.mayAbort)
    (hanswer : ∀ x o, C.calls x o → ∃ a, C.answers x o a) {q : Prog Op Ans β} (h : p >>= (fun _ => q) = q) :
    ∃ a, p = .ret a := by
  cases hp with
  | ret => exact ⟨_, rfl⟩
  | @call x o k ho hk =>
    obtain ⟨a, ha⟩ := hanswer _ _ ho
    have hafter : Relation.TransGen After q (.call o fun a => k a >>= fun _ => q) :=
      .tail' ((hk a ha).after_bind habort hanswer q) (.answer (fun a => k a >>= fun _ => q) a)
    rw [← call_bind, h] at hafter
    exact absurd hafter (not_transGen_after q)
  | abort hmay => exact absurd hmay habort

/-- A contract that allows everything. -/
theorem of_allowed (hcalls : ∀ x o, C.calls x o) (habort : C.mayAbort) (hQ : ∀ y a, Q y a) :
    Obeys C Q x p := by
  induction p generalizing x with
  | ret a => exact .ret (hQ _ _)
  | call o k ih => exact .call (hcalls _ _) fun a _ => ih a
  | abort => exact .abort habort

/-- The program whose calls are answered by programs of another contract, with the same phases, keeps to
that one. -/
theorem inline_phases {Op' : Type} {Ans' : Op' → Type} {C' : Contract Op' Ans' φ}
    {f : (o : Op) → Prog Op' Ans' (Ans o)} (hp : Obeys C Q x p) (ha : C.mayAbort → C'.mayAbort)
    (hf : ∀ y o, C.calls y o → Obeys C' (fun z a => C.answers y o a ∧ z = C.next y o a) y (f o)) :
    Obeys C' Q x (p.inline f) := by
  induction p generalizing x with
  | ret a => exact .ret hp.ret_inv
  | call o k ih =>
    obtain ⟨ho, hk⟩ := hp.call_inv
    refine (hf x o ho).bind ?_
    rintro _ a ⟨hanswer, rfl⟩
    exact ih a (hk a hanswer)
  | abort => exact .abort (ha hp.abort_inv)

/-- The program whose calls are answered by programs of another contract keeps to that one. -/
theorem inline {Op' : Type} {Ans' : Op' → Type} {A : (o : Op) → Ans o → Prop} {P : Op → Prop}
    {X : Prop} {Q : Unit → α → Prop} {C' : Contract Op' Ans' Unit}
    {f : (o : Op) → Prog Op' Ans' (Ans o)} (hp : Obeys (.plain A P X) Q () p)
    (ha : X → C'.mayAbort) (hf : ∀ o, P o → Obeys C' (fun _ a => A o a) () (f o)) :
    Obeys C' Q () (p.inline f) :=
  hp.inline_phases ha fun _ o ho => (hf o ho).mono fun _ _ h => ⟨h, rfl⟩

/-- The program over more calls keeps to a contract that allows what its own one does. -/
theorem lift_phases {Op' : Type} {Ans' : Op' → Type} {f : Op → Op'}
    {C : Contract Op (fun o => Ans' (f o)) φ} {C' : Contract Op' Ans' φ}
    {p : Prog Op (fun o => Ans' (f o)) α} (hp : Obeys C Q x p) (ha : C.mayAbort → C'.mayAbort)
    (hcalls : ∀ y o, C.calls y o → C'.calls y (f o))
    (hanswers : ∀ y o a, C'.answers y (f o) a → C.answers y o a)
    (hnext : ∀ y o a, C'.next y (f o) a = C.next y o a) : Obeys C' Q x (Prog.lift Ans' f p) :=
  hp.inline_phases ha fun y o ho => .call (hcalls y o ho) fun a h => .ret ⟨hanswers y o a h, hnext y o a⟩

/-- The program over more calls keeps to a contract that allows what its own one does. -/
theorem lift {Op' : Type} {Ans' : Op' → Type} {A : (o : Op') → Ans' o → Prop} {P : Op' → Prop}
    {X : Prop} {f : Op → Op'} {Q : Unit → α → Prop} {p : Prog Op (fun o => Ans' (f o)) α}
    (hp : Obeys (.plain (fun o => A (f o)) (fun o => P (f o)) X) Q () p) :
    Obeys (.plain A P X) Q () (Prog.lift Ans' f p) :=
  hp.lift_phases id (fun _ _ h => h) (fun _ _ _ h => h) fun _ _ _ => rfl

end Obeys

/-! ## Running against a handler -/

/-- A handler answers a call in a state, or leaves it undefined. -/
abbrev Handler (Op : Type) (Ans : Op → Type) (σ : Type) := (o : Op) → σ → Option (Ans o × σ)

/-- The value and the final state of a program, if every call on the way is defined. -/
def run (h : Handler Op Ans σ) : Prog Op Ans α → σ → Option (α × σ)
  | ret a, s => some (a, s)
  | call o k, s => (h o s).bind fun r => run h (k r.1) r.2
  | abort, _ => none

variable {h : Handler Op Ans σ}

@[simp] theorem run_ret (a : α) (s : σ) : run h (ret a : Prog Op Ans α) s = some (a, s) := rfl

@[simp] theorem run_abort (s : σ) : run h (abort : Prog Op Ans α) s = none := rfl

theorem run_call (o : Op) (k : Ans o → Prog Op Ans α) (s : σ) :
    run h (call o k) s = (h o s).bind fun r => run h (k r.1) r.2 := rfl

theorem run_call_of_eq {o : Op} {k : Ans o → Prog Op Ans α} {s : σ} {a : Ans o} {s' : σ}
    (ho : h o s = some (a, s')) : run h (call o k) s = run h (k a) s' := by
  rw [run_call, ho, Option.bind_some]

theorem run_call_of_none {o : Op} {k : Ans o → Prog Op Ans α} {s : σ} (ho : h o s = none) :
    run h (call o k) s = none := by
  rw [run_call, ho, Option.bind_none]

theorem run_bind (p : Prog Op Ans α) (f : α → Prog Op Ans β) (s : σ) :
    run h (p >>= f) s = (run h p s).bind fun r => run h (f r.1) r.2 := by
  induction p generalizing s with
  | ret a => rfl
  | call o k ih =>
    rw [call_bind, run_call, run_call, Option.bind_assoc]
    exact congrArg _ (funext fun r => ih r.1 r.2)
  | abort => rfl

/-- A program that follows its script to the end, run by a handler that answers its calls. -/
theorem Obeys.run_script {A : (o : Op) → Ans o → Prop} {Q : List Op × List (Σ o : Op, Ans o) → α → Prop}
    {I : σ → Prop} {next : σ → Op → σ} {calls : List Op} {made : List (Σ o : Op, Ans o)} {p : Prog Op Ans α}
    (hQ : ∀ x v, Q x v → x.1 = [])
    (hnext : ∀ s o, I s → o ∈ calls → ∃ a, A o a ∧ h o s = some (a, next s o) ∧ I (next s o))
    (hp : Obeys (.script A) Q (calls, made) p) {s : σ} (hI : I s) :
    ∃ v, p.run h s = some (v, calls.foldl next s) ∧ I (calls.foldl next s) := by
  induction calls generalizing p made s with
  | nil =>
    cases p with
    | ret v => exact ⟨v, rfl, hI⟩
    | call o k => cases hp.call_inv.1
    | abort => exact hp.abort_inv.elim
  | cons o calls ih =>
    cases p with
    | ret v => cases hQ _ _ hp.ret_inv
    | call o' k =>
      obtain ⟨ho, hk⟩ := hp.call_inv
      obtain rfl : o = o' := Option.some.inj ho
      obtain ⟨a, ha, hh, hI'⟩ := hnext s o hI List.mem_cons_self
      obtain ⟨v, hv, hend⟩ := ih (fun s o' hs ho' => hnext s o' hs (List.mem_cons_of_mem _ ho')) (hk a ha) hI'
      exact ⟨v, (run_call_of_eq hh).trans hv, hend⟩
    | abort => exact hp.abort_inv.elim

/-- The value of a program whose calls are answered as its contract relies on is the one it promises. -/
theorem Obeys.of_run {C : Contract Op Ans φ} {Q : φ → α → Prop} {I : σ → Prop} {x : φ}
    {p : Prog Op Ans α}
    (hh : ∀ y s o a s', I s → C.calls y o → h o s = some (a, s') → C.answers y o a ∧ I s')
    (hp : Obeys C Q x p) {s s' : σ} (hI : I s) {v : α} (hr : p.run h s = some (v, s')) :
    I s' ∧ ∃ y, Q y v := by
  induction p generalizing x s with
  | ret a =>
    obtain ⟨rfl, rfl⟩ := Prod.mk.inj (Option.some.inj hr)
    exact ⟨hI, x, hp.ret_inv⟩
  | call o k ih =>
    obtain ⟨ho, hk⟩ := hp.call_inv
    obtain ⟨⟨a, s₁⟩, ha, hr⟩ := Option.bind_eq_some_iff.mp hr
    obtain ⟨hans, hI₁⟩ := hh x s o a s₁ hI ho ha
    exact ih a (hk a hans) hI₁ hr
  | abort => cases hr

end Prog

/-! ## Executions in an environment -/

section Steps

variable {Op : Type} {Ans : Op → Type} {α β σ : Type}

/-- An environment: from a state and a call, the possible answers and next states. -/
abbrev Environment (Op : Type) (Ans : Op → Type) (σ : Type) := σ → (o : Op) → Ans o → σ → Prop

/-- An exchange with the environment: a call and its answer. -/
abbrev Exchange (Op : Type) (Ans : Op → Type) := Σ o : Op, Ans o

variable {R : Environment Op Ans σ}

/-- The executions of a program: the exchanges made so far and what is left to do. -/
inductive Steps (R : Environment Op Ans σ) :
    Prog Op Ans α → σ → List (Exchange Op Ans) → Prog Op Ans α → σ → Prop
  | refl (p : Prog Op Ans α) (s : σ) : Steps R p s [] p s
  | call {o : Op} {k : Ans o → Prog Op Ans α} {s s₁ s' : σ} {a : Ans o}
      {tr : List (Exchange Op Ans)} {q : Prog Op Ans α} (hR : R s o a s₁)
      (hs : Steps R (k a) s₁ tr q s') : Steps R (.call o k) s (⟨o, a⟩ :: tr) q s'

namespace Steps

theorem ret_inv {a : α} {s s' : σ} {tr : List (Exchange Op Ans)} {q : Prog Op Ans α}
    (hs : Steps R (.ret a) s tr q s') : tr = [] ∧ q = .ret a ∧ s' = s := by
  cases hs
  exact ⟨rfl, rfl, rfl⟩

theorem abort_inv {s s' : σ} {tr : List (Exchange Op Ans)} {q : Prog Op Ans α}
    (hs : Steps R .abort s tr q s') : tr = [] ∧ q = .abort ∧ s' = s := by
  cases hs
  exact ⟨rfl, rfl, rfl⟩

/-- An execution of a call has not begun, or goes on from an answer. -/
theorem call_inv {o : Op} {k : Ans o → Prog Op Ans α} {s s' : σ} {tr : List (Exchange Op Ans)}
    {q : Prog Op Ans α} (hs : Steps R (.call o k) s tr q s') :
    (tr = [] ∧ q = .call o k ∧ s' = s) ∨
      ∃ a s₁ tr', tr = ⟨o, a⟩ :: tr' ∧ R s o a s₁ ∧ Steps R (k a) s₁ tr' q s' := by
  cases hs with
  | refl => exact .inl ⟨rfl, rfl, rfl⟩
  | call hR hs => exact .inr ⟨_, _, _, rfl, hR, hs⟩

/-- A complete execution of a call goes on from an answer. -/
theorem call_ret_inv {o : Op} {k : Ans o → Prog Op Ans α} {s s' : σ}
    {tr : List (Exchange Op Ans)} {v : α} (hs : Steps R (.call o k) s tr (.ret v) s') :
    ∃ a s₁ tr', tr = ⟨o, a⟩ :: tr' ∧ R s o a s₁ ∧ Steps R (k a) s₁ tr' (.ret v) s' := by
  rcases hs.call_inv with ⟨-, hq, -⟩ | hs
  · cases hq
  · exact hs

theorem trans {p q r : Prog Op Ans α} {s s₁ s' : σ} {tr tr' : List (Exchange Op Ans)}
    (h₁ : Steps R p s tr q s₁) (h₂ : Steps R q s₁ tr' r s') : Steps R p s (tr ++ tr') r s' := by
  induction h₁ with
  | refl => exact h₂
  | call hR _ ih => exact .call hR (ih h₂)

theorem mono {R' : Environment Op Ans σ} (hRR : ∀ s o a s', R s o a s' → R' s o a s')
    {p q : Prog Op Ans α} {s s' : σ} {tr : List (Exchange Op Ans)} (hs : Steps R p s tr q s') :
    Steps R' p s tr q s' := by
  induction hs with
  | refl => exact .refl _ _
  | call hR _ ih => exact .call (hRR _ _ _ _ hR) ih

/-- What every call preserves, every execution preserves. -/
theorem invariant {I : σ → Prop} (hI : ∀ s o a s', R s o a s' → I s → I s')
    {p q : Prog Op Ans α} {s s' : σ} {tr : List (Exchange Op Ans)} (hs : Steps R p s tr q s')
    (h : I s) : I s' := by
  induction hs with
  | refl => exact h
  | call hR _ ih => exact ih (hI _ _ _ _ hR h)

theorem bind {p : Prog Op Ans α} {f : α → Prog Op Ans β} {v : α} {q : Prog Op Ans β}
    {s s₁ s' : σ} {tr tr' : List (Exchange Op Ans)} (h₁ : Steps R p s tr (.ret v) s₁)
    (h₂ : Steps R (f v) s₁ tr' q s') : Steps R (p >>= f) s (tr ++ tr') q s' := by
  generalize hq : Prog.ret v = r at h₁
  induction h₁ with
  | refl => subst hq; exact h₂
  | call hR _ ih => exact .call hR (ih h₂ hq)

/-- An execution of `p >>= f` is inside `p`, or completes `p` and goes on with `f`. -/
theorem bind_inv {p : Prog Op Ans α} {f : α → Prog Op Ans β} {q : Prog Op Ans β} {s s' : σ}
    {tr : List (Exchange Op Ans)} (hs : Steps R (p >>= f) s tr q s') :
    (∃ p', Steps R p s tr p' s' ∧ q = p' >>= f) ∨
      ∃ v s₁ tr₁ tr₂, tr = tr₁ ++ tr₂ ∧ Steps R p s tr₁ (.ret v) s₁ ∧ Steps R (f v) s₁ tr₂ q s' := by
  induction p generalizing s tr with
  | ret a => exact .inr ⟨a, s, [], tr, rfl, .refl _ _, hs⟩
  | abort =>
    obtain ⟨rfl, rfl, rfl⟩ := abort_inv hs
    exact .inl ⟨.abort, .refl _ _, rfl⟩
  | call o k ih =>
    rcases call_inv hs with ⟨rfl, rfl, rfl⟩ | ⟨a, s₁, tr', rfl, hR, hs⟩
    · exact .inl ⟨.call o k, .refl _ _, rfl⟩
    · -- one step, and the rest by induction: it stops in `p`, or behind it
      rcases ih a hs with ⟨p', hp, hq⟩ | ⟨v, s₂, tr₁, tr₂, rfl, hp, hf⟩
      · exact .inl ⟨p', .call hR hp, hq⟩
      · exact .inr ⟨v, s₂, _, tr₂, rfl, .call hR hp, hf⟩

/-- A complete execution of `p >>= f` completes `p`, then `f`. -/
theorem bind_ret_inv {p : Prog Op Ans α} {f : α → Prog Op Ans β} {w : β} {s s' : σ}
    {tr : List (Exchange Op Ans)} (hs : Steps R (p >>= f) s tr (.ret w) s') :
    ∃ v s₁ tr₁ tr₂, tr = tr₁ ++ tr₂ ∧ Steps R p s tr₁ (.ret v) s₁ ∧
      Steps R (f v) s₁ tr₂ (.ret w) s' := by
  rcases hs.bind_inv with ⟨p', hp, hq⟩ | hs
  · cases p' with
    | ret v => exact ⟨v, s', tr, [], (List.append_nil _).symm, hp, hq ▸ .refl _ _⟩
    | call o k => cases hq
    | abort => cases hq
  · exact hs

/-- A handler's result is a complete execution in every environment that contains the handler. -/
theorem of_run {h : Prog.Handler Op Ans σ} (hR : ∀ s o a s', h o s = some (a, s') → R s o a s')
    {p : Prog Op Ans α} {s s' : σ} {v : α} (hr : p.run h s = some (v, s')) :
    ∃ tr, Steps R p s tr (.ret v) s' := by
  induction p generalizing s with
  | ret a =>
    obtain ⟨rfl, rfl⟩ : a = v ∧ s = s' := by simpa using hr
    exact ⟨[], .refl _ _⟩
  | abort => simp at hr
  | call o k ih =>
    obtain ⟨⟨a, s₁⟩, ho, hk⟩ := Option.bind_eq_some_iff.mp hr
    obtain ⟨tr, hs⟩ := ih a hk
    exact ⟨_, .call (hR _ _ _ _ ho) hs⟩

/-- Where a program has no result, it comes to a call that the handler leaves undefined, or stops
dead. -/
theorem of_run_none {h : Prog.Handler Op Ans σ} (hR : ∀ s o a s', h o s = some (a, s') → R s o a s')
    {p : Prog Op Ans α} {s : σ} (hr : p.run h s = none) :
    ∃ tr q s', Steps R p s tr q s' ∧ (q = .abort ∨ ∃ o k, q = .call o k ∧ h o s' = none) := by
  induction p generalizing s with
  | ret a => cases hr
  | abort => exact ⟨[], .abort, s, .refl _ _, .inl rfl⟩
  | call o k ih =>
    cases ho : h o s with
    | none => exact ⟨[], .call o k, s, .refl _ _, .inr ⟨o, k, rfl, ho⟩⟩
    | some r =>
      obtain ⟨a, s₁⟩ := r
      rw [Prog.run_call_of_eq ho] at hr
      obtain ⟨tr, q, s', hs, hq⟩ := ih a hr
      exact ⟨_, q, s', .call (hR _ _ _ _ ho) hs, hq⟩

/-- An execution keeps to the contract of its program. -/
theorem obeys {φ : Type} {C : Prog.Contract Op Ans φ} {Q : φ → α → Prop} {x : φ}
    {p q : Prog Op Ans α} (hR : ∀ s o a s', R s o a s' → ∀ x, C.answers x o a)
    (hp : Prog.Obeys C Q x p) {s s' : σ} {tr : List (Exchange Op Ans)} (hs : Steps R p s tr q s') :
    ∃ y, Prog.Obeys C Q y q := by
  induction hs generalizing x with
  | refl => exact ⟨x, hp⟩
  | call ha _ ih => exact ih (hp.call_inv.2 _ (hR _ _ _ _ ha x))

theorem snoc {p : Prog Op Ans α} {o : Op} {k : Ans o → Prog Op Ans α} {a : Ans o} {s s₁ s' : σ}
    {tr : List (Exchange Op Ans)} (hs : Steps R p s tr (.call o k) s₁) (hR : R s₁ o a s') :
    Steps R p s (tr ++ [⟨o, a⟩]) (k a) s' := hs.trans (.call hR (.refl _ _))

/-- An execution over more calls is one of the program itself. -/
theorem lift_inv {Op' : Type} {Ans' : Op' → Type} {R : Environment Op' Ans' σ} {f : Op → Op'}
    {p : Prog Op (fun o => Ans' (f o)) α} {q : Prog Op' Ans' α} {s s' : σ}
    {tr : List (Exchange Op' Ans')} (hs : Steps R (Prog.lift Ans' f p) s tr q s') :
    ∃ p' tr', q = Prog.lift Ans' f p' ∧ tr = tr'.map (fun e => ⟨f e.1, e.2⟩) ∧
      Steps (fun s o a s' => R s (f o) a s') p s tr' p' s' := by
  induction p generalizing s tr with
  | ret a =>
    obtain ⟨rfl, rfl, rfl⟩ := hs.ret_inv
    exact ⟨.ret a, [], rfl, rfl, .refl _ _⟩
  | abort =>
    obtain ⟨rfl, rfl, rfl⟩ := hs.abort_inv
    exact ⟨.abort, [], rfl, rfl, .refl _ _⟩
  | call o k ih =>
    rcases hs.call_inv with ⟨rfl, rfl, rfl⟩ | ⟨a, s₁, tr', rfl, hR, hs⟩
    · exact ⟨.call o k, [], rfl, rfl, .refl _ _⟩
    · obtain ⟨p', tr'', rfl, rfl, hp⟩ := ih a hs
      exact ⟨p', ⟨o, a⟩ :: tr'', rfl, rfl, .call hR hp⟩

end Steps

end Steps

/-! ## Pools -/

section Pool

variable {Op : Type} {Ans : Op → Type} {α σ ι : Type} [DecidableEq ι]

/-- One call of one program of the pool. -/
inductive Pool.Step (R : Environment Op Ans σ) :
    (ι → Prog Op Ans α) → σ → ι × Exchange Op Ans → (ι → Prog Op Ans α) → σ → Prop
  | call {T : ι → Prog Op Ans α} {i : ι} {o : Op} {k : Ans o → Prog Op Ans α} {a : Ans o}
      {s s' : σ} (hT : T i = .call o k) (hR : R s o a s') :
      Pool.Step R T s (i, ⟨o, a⟩) (Function.update T i (k a)) s'

/-- The interleaved runs of a pool, with the exchanges made so far, each with its program. -/
inductive Pool.Run (R : Environment Op Ans σ) (T₀ : ι → Prog Op Ans α) (s₀ : σ) :
    List (ι × Exchange Op Ans) → (ι → Prog Op Ans α) → σ → Prop
  | nil : Pool.Run R T₀ s₀ [] T₀ s₀
  | snoc {tr : List (ι × Exchange Op Ans)} {T T' : ι → Prog Op Ans α} {s s' : σ}
      {e : ι × Exchange Op Ans} (hr : Pool.Run R T₀ s₀ tr T s) (hs : Pool.Step R T s e T' s') :
      Pool.Run R T₀ s₀ (tr ++ [e]) T' s'

/-- What every step preserves, every run preserves; the invariant may read the exchanges made so
far. -/
theorem Pool.Run.invariant {R : Environment Op Ans σ} {T₀ : ι → Prog Op Ans α} {s₀ : σ}
    {I : List (ι × Exchange Op Ans) → (ι → Prog Op Ans α) → σ → Prop} (h₀ : I [] T₀ s₀)
    (hI : ∀ tr T s e T' s', Pool.Step R T s e T' s' → I tr T s → I (tr ++ [e]) T' s')
    {tr : List (ι × Exchange Op Ans)} {T : ι → Prog Op Ans α} {s : σ}
    (hr : Pool.Run R T₀ s₀ tr T s) : I tr T s := by
  induction hr with
  | nil => exact h₀
  | snoc _ hs ih => exact hI _ _ _ _ _ _ hs ih

theorem Pool.Run.mono {R R' : Environment Op Ans σ} (hRR : ∀ s o a s', R s o a s' → R' s o a s')
    {T₀ T : ι → Prog Op Ans α} {s₀ s : σ} {tr : List (ι × Exchange Op Ans)}
    (hr : Pool.Run R T₀ s₀ tr T s) : Pool.Run R' T₀ s₀ tr T s := by
  induction hr with
  | nil => exact .nil
  | snoc _ hs ih =>
    cases hs with
    | call hT hR => exact .snoc ih (.call hT (hRR _ _ _ _ hR))

/-- A run can be continued at its front. -/
theorem Pool.Run.cons {R : Environment Op Ans σ} {T₀ T₁ T : ι → Prog Op Ans α} {s₀ s₁ s : σ}
    {e : ι × Exchange Op Ans} {tr : List (ι × Exchange Op Ans)} (hs : Pool.Step R T₀ s₀ e T₁ s₁)
    (hr : Pool.Run R T₁ s₁ tr T s) : Pool.Run R T₀ s₀ (e :: tr) T s := by
  induction hr with
  | nil => exact .snoc .nil hs
  | snoc _ hs' ih => exact .snoc ih hs'

/-- What one program does alone, it can do in the pool. -/
theorem Pool.Run.of_steps {R : Environment Op Ans σ} {T₀ : ι → Prog Op Ans α} {i : ι}
    {q : Prog Op Ans α} {s₀ s : σ} {tr : List (Exchange Op Ans)}
    (hs : Steps R (T₀ i) s₀ tr q s) :
    Pool.Run R T₀ s₀ (tr.map (i, ·)) (Function.update T₀ i q) s := by
  generalize hp : T₀ i = p at hs
  induction hs generalizing T₀ with
  | refl =>
    rw [← hp, Function.update_eq_self]
    exact .nil
  | call hR _ ih =>
    have hrest := @ih (Function.update T₀ i _) (Function.update_self ..)
    rw [Function.update_idem] at hrest
    exact .cons (.call hp hR) hrest

/-- The exchanges of one program of a run. -/
def Pool.own (i : ι) (tr : List (ι × Exchange Op Ans)) : List (Exchange Op Ans) :=
  tr.filterMap fun e => if e.1 = i then some e.2 else none

theorem Pool.own_snoc_self (i : ι) (tr : List (ι × Exchange Op Ans)) (e : Exchange Op Ans) :
    Pool.own i (tr ++ [(i, e)]) = Pool.own i tr ++ [e] := by
  simp [Pool.own]

theorem Pool.own_snoc_of_ne {i j : ι} (h : j ≠ i) (tr : List (ι × Exchange Op Ans))
    (e : Exchange Op Ans) : Pool.own i (tr ++ [(j, e)]) = Pool.own i tr := by
  simp [Pool.own, h]

theorem Pool.mem_own {i : ι} {tr : List (ι × Exchange Op Ans)} {e : Exchange Op Ans} :
    e ∈ Pool.own i tr ↔ (i, e) ∈ tr := by
  simp only [Pool.own, List.mem_filterMap, Option.ite_none_right_eq_some, Option.some.injEq]
  constructor
  · rintro ⟨⟨j, e'⟩, hmem, rfl, rfl⟩
    exact hmem
  · exact fun h => ⟨_, h, rfl, rfl⟩

/-- The environment of one program among others, which keep `I`: its calls are answered in any state
that satisfies `I`. -/
def Interfered (R : Environment Op Ans σ) (I : σ → Prop) : Environment Op Ans Unit :=
  fun _ o a _ => ∃ s s', I s ∧ R s o a s'

/-- A program of a pool runs as it does alone, in the environment where others interfere. -/
theorem Pool.Run.steps {R : Environment Op Ans σ} {I : σ → Prop} {T₀ T : ι → Prog Op Ans α}
    {s₀ s : σ} {tr : List (ι × Exchange Op Ans)} (hI : ∀ s o a s', R s o a s' → I s → I s')
    (h₀ : I s₀) (hr : Pool.Run R T₀ s₀ tr T s) :
    I s ∧ ∀ i, Steps (Interfered R I) (T₀ i) () (Pool.own i tr) (T i) () := by
  refine hr.invariant
    (I := fun tr T s => I s ∧ ∀ i, Steps (Interfered R I) (T₀ i) () (Pool.own i tr) (T i) ()) ?_ ?_
  · exact ⟨h₀, fun i => .refl _ _⟩
  · rintro tr T s _ _ s' hs ⟨hs₀, hT⟩
    cases hs with
    | @call j o k a _ _ hj hR =>
      refine ⟨hI _ _ _ _ hR hs₀, fun i => ?_⟩
      rcases eq_or_ne j i with rfl | hne
      · -- the step of the thread itself; those of others are interference
        have hstep := hT j
        rw [hj] at hstep
        rw [Function.update_self, Pool.own_snoc_self]
        exact hstep.snoc ⟨s, s', hs₀, hR⟩
      · rw [Function.update_of_ne hne.symm, Pool.own_snoc_of_ne hne]
        exact hT i

/-- The programs of a pool keep to their contracts, as long as the state keeps the invariant that their calls
preserve. -/
theorem Pool.Run.keeps {A : (o : Op) → Ans o → Prop} {P : Op → Prop} {X : Prop} {Q : ι → Unit → α → Prop}
    {R : Environment Op Ans σ} {I : σ → Prop} {T₀ T : ι → Prog Op Ans α} {s₀ s : σ}
    {tr : List (ι × Exchange Op Ans)} (h₀ : I s₀)
    (hI : ∀ s o a s', I s → P o → R s o a s' → A o a ∧ I s')
    (hT : ∀ i, Prog.Obeys (.plain A P X) (Q i) () (T₀ i)) (hr : Pool.Run R T₀ s₀ tr T s) :
    I s ∧ ∀ i, Prog.Obeys (.plain A P X) (Q i) () (T i) := by
  refine hr.invariant (I := fun _ T s => I s ∧ ∀ i, Prog.Obeys (.plain A P X) (Q i) () (T i)) ⟨h₀, hT⟩ ?_
  rintro tr T s _ _ s' hs ⟨hIs, hobeys⟩
  cases hs with
  | @call j o k a _ _ hj hR =>
    have hp := hobeys j
    rw [hj] at hp
    obtain ⟨ho, hk⟩ := hp.call_inv
    obtain ⟨ha, hI'⟩ := hI _ _ _ _ hIs ho hR
    refine ⟨hI', fun i => ?_⟩
    rcases eq_or_ne j i with rfl | hne
    · rw [Function.update_self]
      exact hk a ha
    · rw [Function.update_of_ne hne.symm]
      exact hobeys i

/-- A program that has made no call is where it was. -/
theorem Pool.Run.eq_of_own {R : Environment Op Ans σ} {T₀ T : ι → Prog Op Ans α} {s₀ s : σ}
    {tr : List (ι × Exchange Op Ans)} {i : ι} (hr : Pool.Run R T₀ s₀ tr T s) (h : Pool.own i tr = []) :
    T i = T₀ i := by
  induction hr with
  | nil => rfl
  | snoc hr hs ih =>
    cases hs with
    | @call j o k a _ _ hj hR =>
      rcases eq_or_ne j i with rfl | hne
      · rw [Pool.own_snoc_self] at h
        exact absurd h (List.append_ne_nil_of_right_ne_nil _ (List.cons_ne_nil _ _))
      · rw [Pool.own_snoc_of_ne hne] at h
        rw [Function.update_of_ne hne.symm, ih h]

/-- A program that has made no call may have been any other one. -/
theorem Pool.Run.replace {R : Environment Op Ans σ} {T₀ T : ι → Prog Op Ans α} {s₀ s : σ}
    {tr : List (ι × Exchange Op Ans)} (T₀' : ι → Prog Op Ans α) (hr : Pool.Run R T₀ s₀ tr T s) :
    (∀ i, Pool.own i tr ≠ [] → T₀' i = T₀ i) →
      ∃ T', Pool.Run R T₀' s₀ tr T' s ∧ ∀ i, T₀' i = T₀ i → T' i = T i := by
  induction hr with
  | nil => exact fun _ => ⟨T₀', .nil, fun i h => h⟩
  | @snoc tr T _ s s' e _ hs ih =>
    intro h
    cases hs with
    | @call j o k a _ _ hj hR =>
      have hown : ∀ i, Pool.own i tr ≠ [] → T₀' i = T₀ i := by
        intro i hne
        apply h
        simp only [Pool.own, List.filterMap_append, ne_eq, List.append_eq_nil_iff, not_and_or]
        exact .inl hne
      obtain ⟨T', hr', hT'⟩ := ih hown
      have hj₀ : T₀' j = T₀ j := h j (by rw [Pool.own_snoc_self]; exact List.append_ne_nil_of_right_ne_nil _ (List.cons_ne_nil _ _))
      refine ⟨Function.update T' j (k a), .snoc hr' (.call ((hT' j hj₀).trans hj) hR), fun i hi => ?_⟩
      rcases eq_or_ne j i with rfl | hne
      · rw [Function.update_self, Function.update_self]
      · rw [Function.update_of_ne hne.symm, Function.update_of_ne hne.symm]
        exact hT' i hi

/-- A pool follows another one, of which some programs make the same calls, and the others make none: the calls
that it makes instead leave the state as it is. -/
theorem Pool.Run.simulate {β : Type} {R : Environment Op Ans σ} {T₀ T : ι → Prog Op Ans α}
    {Q₀ : ι → Prog Op Ans β} {s₀ s : σ} {tr : List (ι × Exchange Op Ans)} (visible : ι → Bool)
    (Rel : ι → Prog Op Ans β → Prog Op Ans α → Prop) (h₀ : ∀ i, Rel i (Q₀ i) (T₀ i))
    (hvisible : ∀ {i q o k}, visible i = true → Rel i q (.call o k) → ∃ k', q = .call o k' ∧ ∀ a, Rel i (k' a) (k a))
    (hsilent : ∀ {i q o k s a s'}, visible i = false → Rel i q (.call o k) → R s o a s' → s' = s ∧ Rel i q (k a))
    (hr : Pool.Run R T₀ s₀ tr T s) :
    ∃ Q, Pool.Run R Q₀ s₀ (tr.filter fun e => visible e.1) Q s ∧ ∀ i, Rel i (Q i) (T i) := by
  induction hr with
  | nil => exact ⟨Q₀, .nil, h₀⟩
  | @snoc tr T _ s s' e hr hs ih =>
    obtain ⟨Q, hQ, hrel⟩ := ih
    cases hs with
    | @call j o k a _ _ hj hR =>
      have hrel' := hrel j
      rw [hj] at hrel'
      rw [List.filter_append, List.filter_cons, List.filter_nil]
      cases hv : visible j with
      | true =>
        obtain ⟨k', hq, hk⟩ := hvisible hv hrel'
        refine ⟨_, .snoc hQ (.call hq hR), fun i => ?_⟩
        rcases eq_or_ne j i with rfl | hne
        · rw [Function.update_self, Function.update_self]
          exact hk a
        · rw [Function.update_of_ne hne.symm, Function.update_of_ne hne.symm]
          exact hrel i
      | false =>
        obtain ⟨rfl, hk⟩ := hsilent hv hrel' hR
        rw [if_neg Bool.false_ne_true, List.append_nil]
        refine ⟨Q, hQ, fun i => ?_⟩
        rcases eq_or_ne j i with rfl | hne
        · rw [Function.update_self]
          exact hk
        · rw [Function.update_of_ne hne.symm]
          exact hrel i

/-- In a pool of straight-line programs every program has made the first calls of its script, and is to
make the others, as long as their answers are those that the scripts rely on. -/
theorem Pool.Run.script {A : (o : Op) → Ans o → Prop} {R : Environment Op Ans σ} {I : σ → Prop}
    {T₀ T : ι → Prog Op Ans α} {calls : ι → List Op} {Q : ι → List (Exchange Op Ans) → α → Prop}
    {s₀ s : σ} {tr : List (ι × Exchange Op Ans)} (h₀ : I s₀)
    (hA : ∀ s i o a s', I s → o ∈ calls i → R s o a s' → A o a ∧ I s')
    (hT : ∀ i, Prog.Obeys (.script A) (fun x v => x.1 = [] ∧ Q i x.2 v) (calls i, []) (T₀ i))
    (hr : Pool.Run R T₀ s₀ tr T s) :
    I s ∧ ∀ i, ∃ todo, calls i = (Pool.own i tr).map Sigma.fst ++ todo ∧
      Prog.Obeys (.script A) (fun x v => x.1 = [] ∧ Q i x.2 v) (todo, Pool.own i tr) (T i) := by
  refine hr.invariant (I := fun tr T s => I s ∧ ∀ i, ∃ todo,
    calls i = (Pool.own i tr).map Sigma.fst ++ todo ∧
    Prog.Obeys (.script A) (fun x v => x.1 = [] ∧ Q i x.2 v) (todo, Pool.own i tr) (T i)) ?_ ?_
  · exact ⟨h₀, fun i => ⟨calls i, rfl, hT i⟩⟩
  · rintro tr T s _ _ s' hs ⟨hI, hscript⟩
    cases hs with
    | @call j o k a _ _ hj hR =>
      obtain ⟨todo, hcalls, hp⟩ := hscript j
      rw [hj] at hp
      obtain ⟨ho, hk⟩ := hp.call_inv
      -- the call is the next one of the script
      obtain ⟨rest, rfl⟩ := List.head?_eq_some_iff.mp ho
      obtain ⟨ha, hI'⟩ := hA _ j _ _ _ hI (by simp [hcalls]) hR
      refine ⟨hI', fun i => ?_⟩
      rcases eq_or_ne j i with rfl | hne
      · rw [Function.update_self, Pool.own_snoc_self]
        exact ⟨rest, by simp [hcalls], hk a ha⟩
      · rw [Function.update_of_ne hne.symm, Pool.own_snoc_of_ne hne]
        exact hscript i

/-- The programs of a pool keep to their contracts, after the exchanges that each of them has made. -/
theorem Pool.Run.history {A : (o : Op) → Ans o → Prop} {P : ι → List (Exchange Op Ans) → Op → Prop}
    {X : Prop} {Q : ι → List (Exchange Op Ans) → α → Prop} {R : Environment Op Ans σ}
    {T₀ T : ι → Prog Op Ans α} {s₀ s : σ} {tr : List (ι × Exchange Op Ans)}
    (hA : ∀ s o a s', R s o a s' → A o a)
    (hT : ∀ i, Prog.Obeys (.history A (P i) X) (Q i) [] (T₀ i)) (hr : Pool.Run R T₀ s₀ tr T s) (i : ι) :
    Prog.Obeys (.history A (P i) X) (Q i) (Pool.own i tr) (T i) := by
  refine hr.invariant
    (I := fun tr T _ => ∀ i, Prog.Obeys (.history A (P i) X) (Q i) (Pool.own i tr) (T i)) hT ?_ i
  rintro tr T s _ _ s' hs ih i
  cases hs with
  | @call j o k a _ _ hj hR =>
    rcases eq_or_ne j i with rfl | hne
    · -- only the thread that takes the step has a longer history
      have hp := ih j
      rw [hj] at hp
      rw [Function.update_self, Pool.own_snoc_self]
      exact hp.call_inv.2 a (hA _ _ _ _ hR)
    · rw [Function.update_of_ne hne.symm, Pool.own_snoc_of_ne hne]
      exact ih i

/-- A straight-line program that is done has made all calls of its script. -/
theorem Pool.done_of_script {A : (o : Op) → Ans o → Prop} {calls todo : List Op}
    {made : List (Exchange Op Ans)} {Q : List (Exchange Op Ans) → α → Prop} {p : Prog Op Ans α}
    (hcalls : calls = made.map Sigma.fst ++ todo)
    (hp : Prog.Obeys (.script A) (fun x v => x.1 = [] ∧ Q x.2 v) (todo, made) p)
    (hdone : p.value?.isSome) : made.map Sigma.fst = calls ∧ ∃ v, p = .ret v ∧ Q made v := by
  cases p with
  | ret v =>
    obtain ⟨hnil, hQ⟩ := hp.ret_inv
    have hnil : todo = [] := hnil
    rw [hcalls, hnil, List.append_nil]
    exact ⟨rfl, v, rfl, hQ⟩
  | call o k => cases hdone
  | abort => cases hdone

/-- The run of a pool against a handler, in the order of the schedule. -/
def Pool.exec (h : Prog.Handler Op Ans σ) : List ι → (ι → Prog Op Ans α) → σ →
    Option (List (ι × Exchange Op Ans) × (ι → Prog Op Ans α) × σ)
  | [], T, s => some ([], T, s)
  | i :: is, T, s =>
    match T i with
    | .call o k => (h o s).bind fun r =>
      (Pool.exec h is (Function.update T i (k r.1)) r.2).map fun res =>
        ((i, ⟨o, r.1⟩) :: res.1, res.2)
    | _ => none

/-- A scheduled run is a run in every environment that contains the handler. -/
theorem Pool.run_of_exec {R : Environment Op Ans σ} {h : Prog.Handler Op Ans σ}
    (hR : ∀ s o a s', h o s = some (a, s') → R s o a s') {sched : List ι}
    {T₀ T : ι → Prog Op Ans α} {s₀ s : σ} {tr : List (ι × Exchange Op Ans)}
    (he : Pool.exec h sched T₀ s₀ = some (tr, T, s)) : Pool.Run R T₀ s₀ tr T s := by
  induction sched generalizing T₀ s₀ tr with
  | nil =>
    obtain ⟨rfl, rfl, rfl⟩ : [] = tr ∧ T₀ = T ∧ s₀ = s := by simpa [Pool.exec] using he
    exact .nil
  | cons i is ih =>
    rw [Pool.exec] at he
    split at he
    · rename_i o k hT
      -- the handler answers the call that the thread is at
      obtain ⟨⟨a, s₁⟩, ho, he⟩ := Option.bind_eq_some_iff.mp he
      obtain ⟨⟨tr', T', s'⟩, hrest, heq⟩ := Option.map_eq_some_iff.mp he
      obtain ⟨rfl, rfl, rfl⟩ : (i, ⟨o, a⟩) :: tr' = tr ∧ T' = T ∧ s' = s := by simpa using heq
      exact .cons (.call hT (hR _ _ _ _ ho)) (ih hrest)
    · cases he

end Pool
