import LDS.Library.Total

/-!
# Methods

The methods of an object are programs that read and change its fields, and may throw. What is changed
before an exception stays changed.

## Main definitions

* `Method Op Ans σ ε`: programs with fields in `σ` that may throw in `ε`
* `Method.exec p c`: the program of the method for an object with the fields `c`
* `Method.Ends R Q E p c s`: `p` ends, with a value in `Q` or an exception in `E`

## Main results

* `Method.Ends.bind`, `Method.Ends.tryCatch`: sequential composition, and what follows an exception
* `Method.Ends.of_steps`: a complete execution of a method
-/

/-- Programs that have the fields of an object, and may throw. -/
abbrev Method (Op : Type) (Ans : Op → Type) (σ ε : Type) : Type → Type :=
  ExceptT ε (StateT σ (Prog Op Ans))

namespace Method

variable {Op : Type} {Ans : Op → Type} {σ ε τ α β : Type}

/-- The program of the method for an object with the fields `c`. -/
def exec (p : Method Op Ans σ ε α) (c : σ) : Prog Op Ans (Except ε α × σ) := p.run.run c

/-- Call `o` and return its answer. -/
def call (o : Op) : Method Op Ans σ ε (Ans o) := liftM (Prog.perform o : Prog Op Ans (Ans o))

theorem exec_bind (p : Method Op Ans σ ε α) (f : α → Method Op Ans σ ε β) (c : σ) :
    (p >>= f).exec c = p.exec c >>= fun
      | (.ok a, c) => (f a).exec c
      | (.error e, c) => .ret (.error e, c) := by
  simp only [exec, ExceptT.run_bind, StateT.run_bind]
  congr
  funext ⟨a, c⟩
  cases a <;> rfl

theorem exec_tryCatch (p : Method Op Ans σ ε α) (h : ε → Method Op Ans σ ε α) (c : σ) :
    (tryCatch p h).exec c = p.exec c >>= fun
      | (.ok a, c) => .ret (.ok a, c)
      | (.error e, c) => (h e).exec c := by
  change (p.exec c).bind _ = _
  congr
  funext ⟨a, c⟩
  cases a <;> rfl

/-- Every execution of the method comes to an end, with a value, fields and a state of the environment in
`Q`, or with an exception, fields and a state in `E`. -/
def Ends (R : Environment Op Ans τ) (Q : α → σ → τ → Prop) (E : ε → σ → τ → Prop)
    (p : Method Op Ans σ ε α) (c : σ) (s : τ) : Prop :=
  Prog.Total R (fun
    | (.ok a, c), s => Q a c s
    | (.error e, c), s => E e c s) (p.exec c) s

namespace Ends

variable {R : Environment Op Ans τ} {Q : α → σ → τ → Prop} {E : ε → σ → τ → Prop}
  {p : Method Op Ans σ ε α} {c : σ} {s : τ}

theorem pure {a : α} (h : Q a c s) : Ends R Q E (pure a) c s := .ret h

theorem throw {e : ε} (h : E e c s) : Ends R Q E (throw e) c s := .ret h

theorem ofExcept {r : Except ε α} (hok : ∀ a, r = .ok a → Q a c s) (herror : ∀ e, r = .error e → E e c s) :
    Ends R Q E (MonadExcept.ofExcept r) c s := by
  cases r with
  | ok a => exact .pure (hok a rfl)
  | error e => exact .throw (herror e rfl)

theorem bind {Q' : β → σ → τ → Prop} {f : α → Method Op Ans σ ε β} (hp : Ends R Q E p c s)
    (hf : ∀ a c s, Q a c s → Ends R Q' E (f a) c s) : Ends R Q' E (p >>= f) c s := by
  rw [Ends, exec_bind]
  refine Prog.Total.bind hp ?_
  rintro ⟨a | a, c⟩ s h
  · exact .ret h
  · exact hf a c s h

theorem map {Q : β → σ → τ → Prop} {f : α → β} (hp : Ends R (fun a => Q (f a)) E p c s) :
    Ends R Q E (f <$> p) c s := by
  rw [map_eq_pure_bind]
  exact hp.bind fun _ _ _ h => .pure h

/-- An exception of the method is handled in the fields and the state that it leaves. -/
theorem tryCatch {F : ε → σ → τ → Prop} {h : ε → Method Op Ans σ ε α} (hp : Ends R Q F p c s)
    (hh : ∀ e c s, F e c s → Ends R Q E (h e) c s) : Ends R Q E (tryCatch p h) c s := by
  rw [Ends, exec_tryCatch]
  refine Prog.Total.bind hp ?_
  rintro ⟨e | a, c⟩ s h
  · exact hh e c s h
  · exact .ret h

theorem mono {Q' : α → σ → τ → Prop} {E' : ε → σ → τ → Prop} (hp : Ends R Q E p c s)
    (hQ : ∀ a c s, Q a c s → Q' a c s) (hE : ∀ e c s, E e c s → E' e c s) : Ends R Q' E' p c s := by
  refine Prog.Total.mono hp ?_
  rintro ⟨e | a, c⟩ s h
  · exact hE e c s h
  · exact hQ a c s h

theorem get {Q : σ → σ → τ → Prop} (h : Q c c s) : Ends R Q E MonadState.get c s := .ret h

theorem modify {Q : PUnit → σ → τ → Prop} {f : σ → σ} (h : Q ⟨⟩ (f c) s) : Ends R Q E (modify f) c s := .ret h

theorem call {o : Op} {Q : Ans o → σ → τ → Prop} (hex : ∃ a s', R s o a s')
    (h : ∀ a s', R s o a s' → Q a c s') : Ends R Q E (call o) c s :=
  Prog.Total.call hex fun a s' ha => .ret (h a s' ha)

/-- What a complete execution returns or throws. -/
theorem of_steps (hp : Ends R Q E p c s) {tr : List (Exchange Op Ans)} {r : Except ε α} {c' : σ} {s' : τ}
    (hs : Steps R (p.exec c) s tr (.ret (r, c')) s') :
    (∀ a, r = .ok a → Q a c' s') ∧ ∀ e, r = .error e → E e c' s' := by
  have h := (Prog.Total.steps hp hs).ret_inv
  cases r with
  | ok a => exact ⟨fun _ ha => Except.ok.inj ha ▸ h, nofun⟩
  | error e => exact ⟨nofun, fun _ he => Except.error.inj he ▸ h⟩

end Ends

end Method
