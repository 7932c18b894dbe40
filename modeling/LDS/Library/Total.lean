import LDS.Library.Program

/-!
# Total correctness

A program is totally correct from a state of its environment when each of its calls can be answered,
and it comes to an end with a wanted value and state whatever the answers are.

## Main definitions

* `Prog.Total R Q p s`: `p` run from `s` ends, with a value and a state in `Q`

## Main results

* `Prog.Total.bind`: sequential composition
* `Prog.Total.steps`: an execution that has begun is still totally correct
* `Prog.Total.exists_ret`: an execution that has begun can be completed
* `Prog.Total.of_run`: a program whose calls a handler answers alone
* `Prog.Obeys.total`: a contract that the environment meets call by call
-/

namespace Prog

variable {Op : Type} {Ans : Op → Type} {α β σ φ : Type} {R : Environment Op Ans σ}
  {Q : α → σ → Prop} {p : Prog Op Ans α} {s : σ}

/-- Every execution of the program comes to an end, is never left without an answer, and ends with a
value and a state in `Q`. -/
inductive Total (R : Environment Op Ans σ) (Q : α → σ → Prop) : Prog Op Ans α → σ → Prop
  | ret {a : α} {s : σ} (ha : Q a s) : Total R Q (.ret a) s
  | call {o : Op} {k : Ans o → Prog Op Ans α} {s : σ} (hex : ∃ a s', R s o a s')
      (hk : ∀ a s', R s o a s' → Total R Q (k a) s') : Total R Q (.call o k) s

namespace Total

theorem ret_inv {a : α} (h : Total R Q (.ret a) s) : Q a s := by
  cases h with
  | ret ha => exact ha

theorem call_inv {o : Op} {k : Ans o → Prog Op Ans α} (h : Total R Q (.call o k) s) :
    (∃ a s', R s o a s') ∧ ∀ a s', R s o a s' → Total R Q (k a) s' := by
  cases h with
  | call hex hk => exact ⟨hex, hk⟩

theorem bind {Q' : β → σ → Prop} {f : α → Prog Op Ans β} (hp : Total R Q p s)
    (hf : ∀ a s, Q a s → Total R Q' (f a) s) : Total R Q' (p >>= f) s := by
  induction hp with
  | ret ha => exact hf _ _ ha
  | call hex _ ih => exact .call hex ih

theorem mono {Q' : α → σ → Prop} (hp : Total R Q p s) (hQ : ∀ a s, Q a s → Q' a s) :
    Total R Q' p s := by
  induction hp with
  | ret ha => exact .ret (hQ _ _ ha)
  | call hex _ ih => exact .call hex ih

/-- What is left of an execution is totally correct. -/
theorem steps (hp : Total R Q p s) {q : Prog Op Ans α} {s' : σ} {tr : List (Exchange Op Ans)}
    (hs : Steps R p s tr q s') : Total R Q q s' := by
  induction hs with
  | refl => exact hp
  | call hR _ ih => exact ih (hp.call_inv.2 _ _ hR)

/-- The program has a complete execution. -/
theorem exists_ret (hp : Total R Q p s) : ∃ tr v s', Steps R p s tr (.ret v) s' ∧ Q v s' := by
  induction hp with
  | ret ha => exact ⟨[], _, _, .refl _ _, ha⟩
  | call hex _ ih =>
    obtain ⟨a, s₁, hR⟩ := hex
    obtain ⟨tr, v, s', hs, hv⟩ := ih a s₁ hR
    exact ⟨_, v, s', .call hR hs, hv⟩

/-- The first part of a program that is totally correct comes to an end. -/
theorem of_bind {Q' : β → σ → Prop} {f : α → Prog Op Ans β} (h : Total R Q' (p >>= f) s) :
    Total R (fun a s' => Total R Q' (f a) s') p s := by
  induction p generalizing s with
  | ret a => exact .ret h
  | call o k ih => exact .call h.call_inv.1 fun a s' ha => ih a (h.call_inv.2 a s' ha)
  | abort => cases h

section Handler

variable {h : Handler Op Ans σ} {P : Op → Prop} {X : Prop}
  (hR : ∀ s o a s', P o → (R s o a s' ↔ h o s = some (a, s')))
  (hp : Obeys (.plain (fun _ _ => True) P X) (fun _ _ => True) () p)

include hR hp

/-- Where the handler answers alone, a program is totally correct if it has a result. -/
theorem of_run {v : α} {s' : σ} (hr : p.run h s = some (v, s')) :
    Total R (fun a t => a = v ∧ t = s') p s := by
  induction p generalizing s with
  | ret a =>
    obtain ⟨rfl, rfl⟩ := Prod.mk.inj (Option.some.inj hr)
    exact .ret ⟨rfl, rfl⟩
  | call o k ih =>
    obtain ⟨ho, hk⟩ := hp.call_inv
    obtain ⟨⟨a, s₁⟩, ha, hr⟩ := Option.bind_eq_some_iff.mp hr
    refine .call ⟨a, s₁, (hR _ _ _ _ ho).mpr ha⟩ fun a' s₁' ha' => ?_
    obtain ⟨rfl, rfl⟩ := Prod.mk.inj (Option.some.inj (ha.symm.trans ((hR _ _ _ _ ho).mp ha')))
    exact ih a (hk a trivial) hr
  | abort => cases hr

/-- It is not if it has none. -/
theorem run_ne_none (ht : Total R Q p s) : p.run h s ≠ none := by
  induction p generalizing s with
  | ret a => simp
  | call o k ih =>
    obtain ⟨ho, hk⟩ := hp.call_inv
    obtain ⟨⟨a, s', ha⟩, hrest⟩ := ht.call_inv
    rw [run_call_of_eq ((hR _ _ _ _ ho).mp ha)]
    exact ih a (hk a trivial) (hrest a s' ha)
  | abort => cases ht

end Handler

/-- A program over more calls is totally correct where its own calls are answered as before, on a part of
the state. -/
theorem lift {Op' : Type} {Ans' : Op' → Type} {σ' : Type} {R' : Environment Op' Ans' σ'} {f : Op → Op'}
    {R : Environment Op (fun o => Ans' (f o)) σ} {g : σ → σ'} {Q : α → σ → Prop}
    {p : Prog Op (fun o => Ans' (f o)) α}
    (hR : ∀ s o a t, R' (g s) (f o) a t ↔ ∃ s', t = g s' ∧ R s o a s') (hp : Total R Q p s) :
    Total R' (fun a t => ∃ s', t = g s' ∧ Q a s') (Prog.lift Ans' f p) (g s) := by
  induction hp with
  | ret ha => exact .ret ⟨_, rfl, ha⟩
  | call hex _ ih =>
    obtain ⟨a, s', ha⟩ := hex
    refine .call ⟨a, g s', (hR _ _ _ _).mpr ⟨s', rfl, ha⟩⟩ fun a t ht => ?_
    obtain ⟨s', rfl, ha⟩ := (hR _ _ _ _).mp ht
    exact ih a s' ha

end Total

/-- A program that keeps to a contract is totally correct where the environment keeps the state and
the phase related, and answers every call that the contract allows. -/
theorem Obeys.total {C : Contract Op Ans φ} {Q : φ → α → Prop} {I : φ → σ → Prop} {x : φ}
    (hex : ∀ x s o, I x s → C.calls x o → ∃ a s', R s o a s')
    (hR : ∀ x s o a s', I x s → C.calls x o → R s o a s' → C.answers x o a ∧ I (C.next x o a) s')
    (habort : ¬ C.mayAbort) (hp : Obeys C Q x p) (h : I x s) :
    Total R (fun a s => ∃ y, I y s ∧ Q y a) p s := by
  induction hp generalizing s with
  | ret ha => exact .ret ⟨_, h, ha⟩
  | call ho _ ih =>
    refine .call (hex _ _ _ h ho) fun a s' hs => ?_
    obtain ⟨ha, h'⟩ := hR _ _ _ _ _ h ho hs
    exact ih a ha h'
  | abort h' => exact absurd h' habort

end Prog
