import Mathlib

/-!
# Runs of a transition system

A transition system is a relation between a state, an action and the next state.

## Main definitions

* `Trace Step s₀ tr s`: the actions `tr` lead from `s₀` to `s`
* `Where C Step`: the steps that meet a condition on the state and the action
* `Logged Step`: the steps of a system that keeps its actions
* `execAll exec tr s`: a run by a function

## Main results

* `Trace.invariant`: what every step preserves, every run preserves
* `Trace.of_execAll`: a run by a function that computes steps is a run
-/

variable {σ α : Type}

/-- The runs of a transition system from `s₀`, with their actions. -/
inductive Trace (Step : σ → α → σ → Prop) (s₀ : σ) : List α → σ → Prop
  | nil : Trace Step s₀ [] s₀
  | snoc {tr : List α} {a : α} {s s' : σ} (hr : Trace Step s₀ tr s) (hs : Step s a s') :
      Trace Step s₀ (tr ++ [a]) s'

/-- The steps that meet a condition. -/
def Where (C : σ → α → Prop) (Step : σ → α → σ → Prop) (s : σ) (a : α) (s' : σ) : Prop :=
  C s a ∧ Step s a s'

/-- The steps of a system that keeps its actions. -/
def Logged (Step : σ → α → σ → Prop) (x : List α × σ) (a : α) (y : List α × σ) : Prop :=
  y.1 = x.1 ++ [a] ∧ Step x.2 a y.2

/-- Run a function through the actions, as long as it has a result. -/
def execAll (exec : σ → α → Option σ) : List α → σ → Option σ
  | [], s => some s
  | a :: tr, s => (exec s a).bind (execAll exec tr)

namespace Trace

variable {Step : σ → α → σ → Prop} {s₀ s : σ} {tr : List α}

/-- What every step preserves, every run preserves; the invariant may read the actions so far. -/
theorem invariant {I : List α → σ → Prop} (h₀ : I [] s₀)
    (hI : ∀ tr s a s', Step s a s' → I tr s → I (tr ++ [a]) s') (hr : Trace Step s₀ tr s) :
    I tr s := by
  induction hr with
  | nil => exact h₀
  | snoc _ hs ih => exact hI _ _ _ _ hs ih

/-- Every run is a run of a system that has more steps. -/
theorem mono {Step' : σ → α → σ → Prop} (h : ∀ s a s', Step s a s' → Step' s a s')
    (hr : Trace Step s₀ tr s) : Trace Step' s₀ tr s := by
  induction hr with
  | nil => exact .nil
  | snoc _ hs ih => exact .snoc ih (h _ _ _ hs)

/-- A run whose actions all meet a condition. -/
theorem where_of_forall {C : σ → α → Prop} (h : ∀ a ∈ tr, ∀ s, C s a) (hr : Trace Step s₀ tr s) :
    Trace (Where C Step) s₀ tr s := by
  induction hr with
  | nil => exact .nil
  | snoc _ hs ih =>
    refine .snoc (ih fun a ha => h a (List.mem_append_left _ ha)) ⟨h _ ?_ _, hs⟩
    exact List.mem_append_right _ List.mem_cons_self

/-- A run can be continued at its front. -/
theorem cons {a : α} {s₁ : σ} (hs : Step s₀ a s₁) (hr : Trace Step s₁ tr s) :
    Trace Step s₀ (a :: tr) s := by
  induction hr with
  | nil => exact .snoc .nil hs
  | snoc _ hs' ih => exact .snoc ih hs'

/-- A run goes on where another one has come to. -/
theorem trans {tr' : List α} {s₁ : σ} (h₁ : Trace Step s₀ tr s₁) (h₂ : Trace Step s₁ tr' s) :
    Trace Step s₀ (tr ++ tr') s := by
  induction h₂ with
  | nil => rwa [List.append_nil]
  | snoc _ hs ih =>
    rw [← List.append_assoc]
    exact .snoc ih hs

/-- A run comes by a state between any two of its actions. -/
theorem append_inv {tr' : List α} (hr : Trace Step s₀ (tr ++ tr') s) :
    ∃ s₁, Trace Step s₀ tr s₁ ∧ Trace Step s₁ tr' s := by
  generalize h : tr ++ tr' = u at hr
  induction hr generalizing tr' with
  | nil =>
    obtain ⟨rfl, rfl⟩ := List.append_eq_nil_iff.mp h
    exact ⟨s₀, .nil, .nil⟩
  | snoc hr hs ih =>
    rcases List.eq_nil_or_concat tr' with rfl | ⟨tr'', a', rfl⟩
    · rw [List.append_nil] at h
      exact ⟨_, h ▸ .snoc hr hs, .nil⟩
    · rw [List.concat_eq_append, ← List.append_assoc] at h
      obtain ⟨htr, ha⟩ := List.append_inj' h rfl
      obtain rfl := List.singleton_inj.mp ha
      obtain ⟨s₁, h₁, h₂⟩ := ih htr
      exact ⟨s₁, h₁, List.concat_eq_append ▸ .snoc h₂ hs⟩

theorem nil_inv (hr : Trace Step s₀ [] s) : s = s₀ := by
  generalize h : ([] : List α) = u at hr
  cases hr with
  | nil => rfl
  | snoc hr hs => exact absurd h.symm (List.append_ne_nil_of_right_ne_nil _ (List.cons_ne_nil _ _))

/-- A run begins with a step. -/
theorem cons_inv {a : α} (hr : Trace Step s₀ (a :: tr) s) :
    ∃ s₁, Step s₀ a s₁ ∧ Trace Step s₁ tr s := by
  rw [← List.singleton_append] at hr
  obtain ⟨s₁, h₁, h₂⟩ := hr.append_inv
  refine ⟨s₁, ?_, h₂⟩
  generalize h : [a] = u at h₁
  cases h₁ with
  | nil => cases h
  | @snoc tr' a' s₂ _ hr hs =>
    obtain ⟨rfl, ha⟩ := List.append_inj' (show [] ++ [a] = tr' ++ [a'] from h) rfl
    obtain rfl := List.singleton_inj.mp ha
    exact hr.nil_inv ▸ hs

/-- The actions that a run keeps are its own. -/
theorem of_logged {C : List α × σ → α → Prop} {x y : List α × σ}
    (hr : Trace (Where C (Logged Step)) x tr y) : y.1 = x.1 ++ tr ∧ Trace Step x.2 tr y.2 := by
  induction hr with
  | nil => exact ⟨(List.append_nil _).symm, .nil⟩
  | snoc _ hs ih =>
    obtain ⟨-, hlog, hs⟩ := hs
    exact ⟨by rw [hlog, ih.1, List.append_assoc], .snoc ih.2 hs⟩

/-- A run can keep its actions. -/
theorem logged (hr : Trace Step s₀ tr s) (tr₀ : List α) :
    Trace (Logged Step) (tr₀, s₀) tr (tr₀ ++ tr, s) := by
  induction hr with
  | nil => exact (List.append_nil tr₀).symm ▸ .nil
  | snoc _ hs ih => exact .snoc ih ⟨(List.append_assoc _ _ _).symm, hs⟩

/-- A run by a function that computes steps. -/
theorem of_execAll {exec : σ → α → Option σ} (h : ∀ s a s', exec s a = some s' → Step s a s')
    (he : execAll exec tr s₀ = some s) : Trace Step s₀ tr s := by
  induction tr generalizing s₀ with
  | nil =>
    obtain rfl := Option.some.inj he
    exact .nil
  | cons a tr ih =>
    obtain ⟨s₁, h₁, he⟩ := Option.bind_eq_some_iff.mp he
    exact .cons (h _ _ _ h₁) (ih he)

end Trace
