import LDS.Library.Program

/-!
# Monitors

The programs of a pool share a lock. A monitor says, phase by phase, what a program may rely on: assertions that
its own calls establish and that the calls of the others leave alone, given that no two programs are inside at
the same time.

## Main definitions

* `Monitor R C`: assertions for the phases of the contract `C`, and the phases that hold the lock
* `Monitor.Watched`: the programs of a pool are in phases whose assertions hold

## Main results

* `Monitor.Watched.step`, `Monitor.watched_of_run`: a step, and a run
-/

/-- Assertions for the phases of a contract. A program is `inside` in the phases in which it holds the lock. -/
structure Monitor {Op : Type} {Ans : Op → Type} {σ φ : Type} (R : Environment Op Ans σ)
    (C : Prog.Contract Op Ans φ) where
  inv : σ → Prop
  holds : σ → φ → Prop
  locked : σ → Prop
  inside : φ → Prop
  own : ∀ {s x o a s'}, inv s → holds s x → C.calls x o → R s o a s' →
    C.answers x o a ∧ inv s' ∧ holds s' (C.next x o a)
  other : ∀ {s x y o a s'}, inv s → holds s x → holds s y → ¬ (inside x ∧ inside y) → C.calls y o →
    R s o a s' → holds s' x
  locked_of_inside : ∀ {s x}, holds s x → inside x → locked s
  enters : ∀ {s x o a s'}, C.calls x o → R s o a s' → inside (C.next x o a) → inside x ∨ ¬ locked s
  leaves : ∀ {s x o a s'}, C.calls x o → R s o a s' → locked s' →
    inside (C.next x o a) ∨ locked s ∧ ¬ inside x

namespace Monitor

variable {Op : Type} {Ans : Op → Type} {α σ φ ι : Type} [DecidableEq ι] {R : Environment Op Ans σ}
  {C : Prog.Contract Op Ans φ} (M : Monitor R C) {Q : φ → α → Prop}

/-- The programs of a pool are in the phases `x`, whose assertions hold; one of them at most is inside, and if
the lock is taken, one is. -/
structure Watched (Q : φ → α → Prop) (T : ι → Prog Op Ans α) (s : σ) (x : ι → φ) : Prop where
  inv : M.inv s
  obeys : ∀ i, Prog.Obeys C Q (x i) (T i)
  holds : ∀ i, M.holds s (x i)
  exclusive : ∀ i j, i ≠ j → ¬ (M.inside (x i) ∧ M.inside (x j))
  taken : M.locked s → ∃ i, M.inside (x i)

variable {M} {T T₀ T' : ι → Prog Op Ans α} {s s₀ s' : σ} {x : ι → φ} {e : ι × Exchange Op Ans}

/-- One call. -/
theorem Watched.step (h : M.Watched Q T s x) (hs : Pool.Step R T s e T' s') :
    M.Watched Q T' s' (Function.update x e.1 (C.next (x e.1) e.2.1 e.2.2)) := by
  cases hs with
  | @call j o k a _ _ hT hR =>
    have hp := h.obeys j
    rw [hT] at hp
    obtain ⟨ho, hk⟩ := hp.call_inv
    obtain ⟨ha, hinv, hown⟩ := M.own h.inv (h.holds j) ho hR
    -- a program that goes inside finds nobody there
    have hfresh : ∀ i, i ≠ j → ¬ (M.inside (x i) ∧ M.inside (C.next (x j) o a)) := by
      rintro i hne ⟨hi, hj⟩
      rcases M.enters ho hR hj with hin | hfree
      · exact h.exclusive i j hne ⟨hi, hin⟩
      · exact hfree (M.locked_of_inside (h.holds i) hi)
    refine ⟨hinv, fun i => ?_, fun i => ?_, fun i i' hne => ?_, fun hlocked => ?_⟩
    · rcases eq_or_ne i j with rfl | hij
      · rw [Function.update_self, Function.update_self]
        exact hk a ha
      · rw [Function.update_of_ne hij, Function.update_of_ne hij]
        exact h.obeys i
    · rcases eq_or_ne i j with rfl | hij
      · rw [Function.update_self]
        exact hown
      · rw [Function.update_of_ne hij]
        exact M.other h.inv (h.holds i) (h.holds j) (h.exclusive i j hij) ho hR
    · rcases eq_or_ne i j with rfl | hij
      · rw [Function.update_self, Function.update_of_ne hne.symm]
        exact fun hboth => hfresh i' hne.symm hboth.symm
      · rcases eq_or_ne i' j with rfl | hij'
        · rw [Function.update_self, Function.update_of_ne hij]
          exact hfresh i hij
        · rw [Function.update_of_ne hij, Function.update_of_ne hij']
          exact h.exclusive i i' hne
    · rcases M.leaves ho hR hlocked with hin | ⟨hlocked, hout⟩
      · exact ⟨j, by rwa [Function.update_self]⟩
      · -- the lock is that of another program
        obtain ⟨i, hi⟩ := h.taken hlocked
        have hij : i ≠ j := by
          rintro rfl
          exact hout hi
        exact ⟨i, by rwa [Function.update_of_ne hij]⟩

/-- **In every run** the programs are in phases whose assertions hold. -/
theorem watched_of_run {tr : List (ι × Exchange Op Ans)} (h₀ : M.Watched Q T₀ s₀ x)
    (hr : Pool.Run R T₀ s₀ tr T s) : ∃ y, M.Watched Q T s y := by
  induction hr with
  | nil => exact ⟨x, h₀⟩
  | snoc _ hs ih =>
    obtain ⟨y, hy⟩ := ih
    exact ⟨_, hy.step hs⟩

end Monitor
