import LDS.Library.Program

/-!
# Services

A service is described by a machine that answers a request and goes on. An implementation, a program
a request, refines it when a relation between its states and those of the machine is kept by every
request, with the same response.

## Main definitions

* `Machine α ι β`: machines with states `α`, requests `ι` and responses `β`
* `Machine.outputs`: the responses to a list of requests
* `Refines h f M R ok`: the programs `f` refine `M` on the requests in `ok`

## Main results

* `Refines.mapM`: a refinement gives the responses of the machine, request by request
-/

/-- A machine that answers requests. -/
structure Machine (α ι β : Type) where
  next : α → ι → α
  output : α → ι → β

namespace Machine

variable {α ι β : Type}

/-- The responses to a list of requests. -/
def outputs (M : Machine α ι β) : α → List ι → List β
  | _, [] => []
  | a, r :: rs => M.output a r :: M.outputs (M.next a r) rs

end Machine

section Refines

variable {Op : Type} {Ans : Op → Type} {σ α ι β : Type}

/-- On requests in `ok` the programs `f` answer as the machine `M` does, and keep the relation `R`
between their states and those of `M`. -/
def Refines (h : Prog.Handler Op Ans σ) (f : ι → Prog Op Ans β) (M : Machine α ι β)
    (R : σ → α → Prop) (ok : ι → Prop) : Prop :=
  ∀ s a r, ok r → R s a → ∃ s', (f r).run h s = some (M.output a r, s') ∧ R s' (M.next a r)

/-- **A refinement**, request by request. -/
theorem Refines.mapM {h : Prog.Handler Op Ans σ} {f : ι → Prog Op Ans β} {M : Machine α ι β}
    {R : σ → α → Prop} {ok : ι → Prop} (hR : Refines h f M R ok) {rs : List ι} {s : σ} {a : α}
    (hok : ∀ r ∈ rs, ok r) (hs : R s a) :
    ∃ s', (rs.mapM f).run h s = some (M.outputs a rs, s') ∧ R s' (rs.foldl M.next a) := by
  induction rs generalizing s a with
  | nil => exact ⟨s, rfl, hs⟩
  | cons r rs ih =>
    obtain ⟨s₁, h₁, hs₁⟩ := hR s a r (hok r List.mem_cons_self) hs
    obtain ⟨s', h', hs'⟩ := ih (fun r hr => hok r (List.mem_cons_of_mem _ hr)) hs₁
    refine ⟨s', ?_, hs'⟩
    rw [List.mapM_cons, Prog.run_bind, h₁, Option.bind_some, Prog.run_bind, h']
    rfl

end Refines
