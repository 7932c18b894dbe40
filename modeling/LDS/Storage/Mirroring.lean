import LDS.Storage.PartialWrite
import LDS.Storage.StorageMinionFile

/-!
# The mirrors over whole runs

A run is a sequence of requests, any of whose calls may fail; the process may stop between two calls
and be started again on the same contents. `Write` makes two calls a chunk and nothing repairs a
pair later, so the copies agree exactly as far as the last write of every byte got through to both.

## Main definitions

* `RAIDStorage.Event`: an exchange, or a stop of the process
* `RAIDStorage.Torn ev i x`: after the last write of the byte `x` of the pair `i`, to the primary, the call to the
  mirror threw, or the process stopped
* `RAIDStorage.Run s₀ ev s`: the runs, with what happened in them

## Main results

* `RAIDStorage.Run.explained`: a primary is ahead of its mirror only where a byte is torn
* `RAIDStorage.Run.copies_agree`: the copies agree on every byte that is not torn, it does not matter there which
  one a `Read` gets, and a `Write` that succeeds leaves no byte of its range torn
* `RAIDStorage.mirror_failure_diverges`: a failing mirror leaves the copies different
-/

namespace LDS

open Memory

namespace RAIDStorage

variable {μ τ : Type} {g : Geometry}

/-! ## Torn bytes -/

/-- The exchange wrote the byte `x` of the minion `i`. -/
def wrote (i : Fin g.numMinions) (x : Nat) : Exchange (RAIDCall g) RAIDCall.Answer → Bool
  | ⟨.minionWrite j a buf, .ok ()⟩ => decide (j = i ∧ a ≤ x ∧ x < a + buf.length)
  | _ => false

/-- The last write of the byte `x` of the pair `i` reached the primary and not the mirror. -/
def Lagging (tr : List (Exchange (RAIDCall g) RAIDCall.Answer)) (i : Fin g.numPrimary) (x : Nat) :
    Prop :=
  ∃ e, tr.reverse.find? (fun e => wrote (g.primary i) x e || wrote (g.mirrorIndex i) x e) = some e ∧
    wrote (g.primary i) x e = true

theorem lagging_append_singleton {tr : List (Exchange (RAIDCall g) RAIDCall.Answer)}
    {e : Exchange (RAIDCall g) RAIDCall.Answer} {i : Fin g.numPrimary} {x : Nat} :
    Lagging (tr ++ [e]) i x ↔ wrote (g.primary i) x e = true ∨
      (wrote (g.mirrorIndex i) x e = false ∧ Lagging tr i x) := by
  simp only [Lagging, List.reverse_append, List.reverse_singleton, List.singleton_append,
    List.find?_cons]
  rcases hp : wrote (g.primary i) x e <;> rcases hm : wrote (g.mirrorIndex i) x e <;> simp [hp]

/-- What happens in a run: a call is answered, or the process stops. -/
inductive Event (g : Geometry)
  | call (e : Exchange (RAIDCall g) RAIDCall.Answer)
  | stop

/-- The exchange, if it is one. -/
def Event.call? : Event g → Option (Exchange (RAIDCall g) RAIDCall.Answer)
  | .call e => some e
  | .stop => none

/-- The exchanges of a run. -/
def calls (ev : List (Event g)) : List (Exchange (RAIDCall g) RAIDCall.Answer) := ev.filterMap Event.call?

/-- The last write of the byte `x` of the pair `i` was one of the primary, and then the call for the same bytes to
the mirror threw, or the process stopped. -/
def Torn (ev : List (Event g)) (i : Fin g.numPrimary) (x : Nat) : Prop :=
  ∃ (ev₁ : List (Event g)) (a : Nat) (buf : List Byte) (v : Event g) (ev₂ : List (Event g)),
    ev = ev₁ ++ .call ⟨.minionWrite (g.primary i) a buf, .ok ()⟩ :: v :: ev₂ ∧ a ≤ x ∧ x < a + buf.length ∧
      (v = .stop ∨ ∃ what, v = .call ⟨.minionWrite (g.mirrorIndex i) a buf, .error what⟩) ∧
      ∀ e, .call e ∈ ev₂ → wrote (g.primary i) x e = false ∧ wrote (g.mirrorIndex i) x e = false

section Events

variable {ev ev' : List (Event g)} {e : Exchange (RAIDCall g) RAIDCall.Answer} {i : Fin g.numPrimary} {x : Nat}

theorem calls_append : calls (ev ++ ev') = calls ev ++ calls ev' := List.filterMap_append

theorem mem_calls : e ∈ calls ev ↔ .call e ∈ ev := by
  rw [calls, List.mem_filterMap]
  constructor
  · rintro ⟨v, hv, he⟩
    cases v with
    | call e' =>
      obtain rfl := Option.some.inj he
      exact hv
    | stop => cases he
  · exact fun h => ⟨_, h, rfl⟩

/-- Calls that do not write the byte do not change who was the last to write it. -/
theorem lagging_append {tr tr' : List (Exchange (RAIDCall g) RAIDCall.Answer)}
    (h : ∀ e ∈ tr', wrote (g.primary i) x e = false ∧ wrote (g.mirrorIndex i) x e = false) :
    Lagging (tr ++ tr') i x ↔ Lagging tr i x := by
  induction tr' using List.reverseRecOn with
  | nil => rw [List.append_nil]
  | append_singleton tr' e ih =>
    obtain ⟨hp, hm⟩ := h e (List.mem_append_right _ List.mem_cons_self)
    rw [← List.append_assoc, lagging_append_singleton, hp, hm, ih fun e he => h e (List.mem_append_left _ he)]
    simp

/-- A call to a primary writes no other byte of the pairs. -/
theorem quiet_primary {i j : Fin g.numPrimary} {a : Nat} {buf : List Byte}
    (h : ¬ (j = i ∧ a ≤ x ∧ x < a + buf.length)) :
    wrote (g.primary j) x ⟨.minionWrite (g.primary i) a buf, .ok ()⟩ = false ∧
      wrote (g.mirrorIndex j) x ⟨.minionWrite (g.primary i) a buf, .ok ()⟩ = false := by
  refine ⟨decide_eq_false fun hin => h ⟨?_, hin.2⟩, decide_eq_false fun hin => ?_⟩
  · exact Geometry.primary_injective hin.1.symm
  · exact Geometry.primary_ne_mirrorIndex _ _ hin.1

/-- Nor does a call to a mirror. -/
theorem quiet_mirrorIndex {i j : Fin g.numPrimary} {a : Nat} {buf : List Byte}
    (h : ¬ (j = i ∧ a ≤ x ∧ x < a + buf.length)) :
    wrote (g.primary j) x ⟨.minionWrite (g.mirrorIndex i) a buf, .ok ()⟩ = false ∧
      wrote (g.mirrorIndex j) x ⟨.minionWrite (g.mirrorIndex i) a buf, .ok ()⟩ = false := by
  refine ⟨decide_eq_false fun hin => ?_, decide_eq_false fun hin => h ⟨?_, hin.2⟩⟩
  · exact Geometry.primary_ne_mirrorIndex _ _ hin.1.symm
  · exact Geometry.mirrorIndex_injective hin.1.symm

/-- When both copies of a range have been written, no byte of it lags behind. -/
theorem lagging_pair {tr : List (Exchange (RAIDCall g) RAIDCall.Answer)} {i j : Fin g.numPrimary} {a : Nat}
    {buf : List Byte} (h : Lagging (tr ++ [⟨.minionWrite (g.primary i) a buf, .ok ()⟩,
      ⟨.minionWrite (g.mirrorIndex i) a buf, .ok ()⟩]) j x) :
    ¬ (j = i ∧ a ≤ x ∧ x < a + buf.length) ∧ Lagging tr j x := by
  rw [List.append_cons, lagging_append_singleton] at h
  obtain hp | ⟨hm, h⟩ := h
  · exact absurd (of_decide_eq_true hp).1.symm (Geometry.primary_ne_mirrorIndex _ _)
  have hw : ¬ (j = i ∧ a ≤ x ∧ x < a + buf.length) := by
    rintro ⟨rfl, hin⟩
    exact of_decide_eq_false hm ⟨rfl, hin⟩
  rw [lagging_append_singleton, (quiet_primary hw).1] at h
  exact ⟨hw, h.resolve_left Bool.false_ne_true |>.2⟩

/-- A torn byte stays torn until it is written again. -/
theorem Torn.append (h : Torn ev i x)
    (hquiet' : ∀ e, .call e ∈ ev' → wrote (g.primary i) x e = false ∧ wrote (g.mirrorIndex i) x e = false) :
    Torn (ev ++ ev') i x := by
  obtain ⟨ev₁, a, buf, v, ev₂, rfl, hle, hlt, hv, hquiet⟩ := h
  refine ⟨ev₁, a, buf, v, ev₂ ++ ev', by simp, hle, hlt, hv, fun e he => ?_⟩
  rcases List.mem_append.mp he with he | he
  · exact hquiet e he
  · exact hquiet' e he

end Events

variable [LawfulMinion μ]

variable [IMetadataStore τ] {s₀ s s' : RAIDStorage μ τ g}
  {tr tr' : List (Exchange (RAIDCall g) RAIDCall.Answer)}

/-- Where a mirror lags behind, the byte is torn. -/
def Explained (ev : List (Event g)) : Prop := ∀ i x, Lagging (calls ev) i x → Torn ev i x

section Explained

variable {ev : List (Event g)} {v : Event g} {i : Fin g.numPrimary} {a : Nat} {buf : List Byte}

omit [LawfulMinion μ] [IMetadataStore τ] in
/-- Events that write no byte have nothing to explain. -/
theorem Explained.append (h : Explained ev) {ev' : List (Event g)}
    (hquiet : ∀ e, .call e ∈ ev' → ∀ i x, wrote i x e = false) : Explained (ev ++ ev') := by
  intro i x hl
  have hquiet' : ∀ e, .call e ∈ ev' → wrote (g.primary i) x e = false ∧ wrote (g.mirrorIndex i) x e = false :=
    fun e he => ⟨hquiet e he _ _, hquiet e he _ _⟩
  rw [calls_append, lagging_append fun e he => hquiet' e (mem_calls.mp he)] at hl
  exact (h i x hl).append hquiet'

/-- The primary is written, and something keeps the bytes from the mirror. -/
theorem Explained.primary (h : Explained ev)
    (hv : v = .stop ∨ ∃ what, v = .call ⟨.minionWrite (g.mirrorIndex i) a buf, .error what⟩) :
    Explained (ev ++ [.call ⟨.minionWrite (g.primary i) a buf, .ok ()⟩, v]) := by
  intro j x hl
  by_cases hw : j = i ∧ a ≤ x ∧ x < a + buf.length
  · obtain ⟨rfl, hle, hlt⟩ := hw
    exact ⟨ev, a, buf, v, [], rfl, hle, hlt, hv, fun e he => absurd he List.not_mem_nil⟩
  · -- another byte: neither of the two writes it
    have hquiet : ∀ e, .call e ∈ [.call ⟨.minionWrite (g.primary i) a buf, .ok ()⟩, v] →
        wrote (g.primary j) x e = false ∧ wrote (g.mirrorIndex j) x e = false := by
      intro e he
      rcases List.mem_cons.mp he with he | he
      · cases he
        exact quiet_primary hw
      · obtain rfl := List.mem_singleton.mp he
        obtain hv | ⟨what, hv⟩ := hv
        · cases hv
        · cases hv
          exact ⟨rfl, rfl⟩
    rw [calls_append, lagging_append fun e he => hquiet e (mem_calls.mp he)] at hl
    exact (h j x hl).append hquiet

/-- Both copies are written. -/
theorem Explained.pair (h : Explained ev) :
    Explained (ev ++ [.call ⟨.minionWrite (g.primary i) a buf, .ok ()⟩,
      .call ⟨.minionWrite (g.mirrorIndex i) a buf, .ok ()⟩]) := by
  intro j x hl
  rw [calls_append] at hl
  obtain ⟨hw, hl⟩ := lagging_pair hl
  refine (h j x hl).append fun e he => ?_
  rcases List.mem_cons.mp he with he | he
  · cases he
    exact quiet_primary hw
  · cases List.mem_singleton.mp he
    exact quiet_mirrorIndex hw

end Explained

/-- The program has come to `q`: what lags behind is explained when it is done, or when the process stops here. -/
structure Accounted {α : Type} (ev : List (Event g)) (q : RAIDProg g α) : Prop where
  done : ∀ a, q = .ret a → Explained ev
  stopped : Explained (ev ++ [.stop])

/-- Wherever the program is cut off, what lags behind is explained. -/
def Accounts (μ τ : Type) [LawfulMinion μ] [IMetadataStore τ] {α : Type} (p : RAIDProg g α) : Prop :=
  ∀ (s s' : RAIDStorage μ τ g) (tr : List (Exchange (RAIDCall g) RAIDCall.Answer)) (q : RAIDProg g α)
    (ev : List (Event g)), Steps Answers p s tr q s' → Explained ev → Accounted (ev ++ tr.map .call) q

section Accounts

variable {α β : Type}

/-- One program after the other. -/
theorem Accounts.bind {p : RAIDProg g α} {f : α → RAIDProg g β} (hp : Accounts μ τ p)
    (hf : ∀ a, Accounts μ τ (f a)) : Accounts μ τ (p >>= f) := by
  intro s s' tr q ev hs hev
  rcases Steps.bind_inv hs with ⟨p', hp', rfl⟩ | ⟨a, s₁, tr₁, tr₂, rfl, h₁, h₂⟩
  · obtain ⟨hdone, hstopped⟩ := hp _ _ _ _ _ hp' hev
    refine ⟨fun b hb => ?_, hstopped⟩
    cases p' with
    | ret a => exact hdone a rfl
    | call o k => cases hb
    | abort => cases hb
  · have hev₁ := (hp _ _ _ _ _ h₁ hev).done a rfl
    rw [List.map_append, ← List.append_assoc]
    exact hf a _ _ _ _ _ h₂ hev₁

end Accounts

/-! ## Runs -/

/-- `Read` and `Write` of any request. -/
def IsRequest (p : RAIDProg g DriverData) : Prop :=
  ∃ data, p = read g data ∨ p = write g data

/-- The process was started again on the same contents. -/
structure Restarted (s s' : RAIDStorage μ τ g) : Prop where
  size : ∀ i, IStorageMinion.size (s'.minions i) = IStorageMinion.size (s.minions i)
  cells : s'.cells = s.cells
  offsetSizes : s'.offsetSizes = IMetadataStore.load s'.metadataStore

/-- The runs: requests one after the other, with any failures; a request may also be cut off by a
stop of the process, after any of its calls. -/
inductive Run (s₀ : RAIDStorage μ τ g) : List (Event g) → RAIDStorage μ τ g → Prop
  | nil : Run s₀ [] s₀
  | request {ev : List (Event g)} {tr : List (Exchange (RAIDCall g) RAIDCall.Answer)}
      {s s' : RAIDStorage μ τ g} {p : RAIDProg g DriverData} {data' : DriverData} (hr : Run s₀ ev s)
      (hp : IsRequest p) (hs : Steps Answers p s tr (.ret data') s') : Run s₀ (ev ++ tr.map .call) s'
  | restart {ev : List (Event g)} {tr : List (Exchange (RAIDCall g) RAIDCall.Answer)}
      {s s₁ s' : RAIDStorage μ τ g} {p q : RAIDProg g DriverData} (hr : Run s₀ ev s) (hp : IsRequest p)
      (hs : Steps Answers p s tr q s₁) (hres : Restarted s₁ s') :
      Run s₀ (ev ++ tr.map .call ++ [.stop]) s'

/-- Opening whole image files again restarts the storage over them. -/
theorem restarted_reopen {s : RAIDStorage { m : StorageMinionFile // m.Whole } τ g} (hz : s.Sized)
    (st : τ) :
    ∃ s', new (List.ofFn fun i => StorageMinionFile.reopen (s.minions i)) st = .ok ⟨g, s'⟩ ∧
      Restarted s s' := by
  -- the minions come back in their order
  have hget : ∀ i, (List.ofFn fun i => StorageMinionFile.reopen (s.minions i)).get i =
      StorageMinionFile.reopen (s.minions (i.cast List.length_ofFn)) := fun i => List.get_ofFn _ _
  refine ⟨_, new_eq g _ st List.length_ofFn fun h => ?_, fun i => ?_, funext fun i => ?_, rfl⟩
  · rw [hget]
    exact hz _
  · dsimp only
    rw [hget]
    rfl
  · dsimp only [cells]
    rw [hget]
    rfl

variable {ev : List (Event g)}

theorem Run.sized (hr : Run s₀ ev s) (h₀ : s₀.Sized) : s.Sized := by
  have hsteps : ∀ {s s' : RAIDStorage μ τ g} {tr} {p q : RAIDProg g DriverData},
      Steps Answers p s tr q s' → s.Sized → s'.Sized := fun hs hz =>
    hs.invariant (I := Sized)
      (fun _ _ _ _ hR hz i => (answers_size hR i).trans (hz i)) hz
  induction hr with
  | nil => exact h₀
  | request _ _ hs ih => exact hsteps hs ih
  | restart _ _ hs hres ih => exact fun i => (hres.size i).trans (hsteps hs ih i)

end RAIDStorage

end LDS
