import LDS.Library.Linearization

/-!
# Interleavings that commute

The exchanges of a run act on something, one after the other. Where the exchanges of different programs
commute, the run acts as its programs do one by one, whatever the order of the programs.

## Main results

* `Pool.foldl_own`: the exchanges of a run, program by program
-/

section Commutation

variable {Op : Type} {Ans : Op → Type} {ι β ε : Type} {act : β → ε → β}

/-- An action that commutes with those of a list can go before them. -/
theorem List.foldl_act_comm {es : List ε} {e : ε} (h : ∀ e' ∈ es, ∀ b, act (act b e') e = act (act b e) e')
    (b : β) : act (es.foldl act b) e = es.foldl act (act b e) := by
  induction es generalizing b with
  | nil => rfl
  | cons e' es ih =>
    obtain ⟨he, hes⟩ := List.forall_mem_cons.mp h
    rw [List.foldl_cons, List.foldl_cons, ih hes, he]

variable [DecidableEq ι] {act : β → Exchange Op Ans → β} {tr : List (ι × Exchange Op Ans)} {i : ι}

/-- The exchanges of one program go first. -/
theorem Pool.foldl_own_first (h : ∀ e ∈ tr, e.1 ≠ i → ∀ e' ∈ Pool.own i tr, ∀ b,
    act (act b e') e.2 = act (act b e.2) e') (b : β) :
    (tr.map Prod.snd).foldl act b =
      ((tr.filter (·.1 ≠ i)).map Prod.snd).foldl act ((Pool.own i tr).foldl act b) := by
  induction tr generalizing b with
  | nil => rfl
  | cons e tr ih =>
    obtain ⟨j, e⟩ := e
    rcases eq_or_ne j i with rfl | hne
    · have hown : Pool.own j ((j, e) :: tr) = e :: Pool.own j tr := by simp [Pool.own]
      rw [hown] at h ⊢
      have hfilter : ((j, e) :: tr).filter (·.1 ≠ j) = tr.filter (·.1 ≠ j) := by simp
      rw [hfilter, List.map_cons, List.foldl_cons, List.foldl_cons]
      exact ih (fun e' he' hj e'' he'' =>
        h e' (List.mem_cons_of_mem _ he') hj e'' (List.mem_cons_of_mem _ he'')) _
    · have hown : Pool.own i ((j, e) :: tr) = Pool.own i tr := by simp [Pool.own, hne]
      rw [hown] at h ⊢
      have hfilter : ((j, e) :: tr).filter (·.1 ≠ i) = (j, e) :: tr.filter (·.1 ≠ i) := by simp [hne]
      -- `e` goes behind the exchanges of `i`
      rw [hfilter, List.map_cons, List.foldl_cons, List.map_cons, List.foldl_cons,
        ih fun e' he' => h e' (List.mem_cons_of_mem _ he'),
        List.foldl_act_comm fun e' he' => h (j, e) List.mem_cons_self hne e' he']

/-- **The exchanges of a run**, program by program, where those of different programs commute. -/
theorem Pool.foldl_own {order : List ι} (hn : order.Nodup) (hall : ∀ e ∈ tr, e.1 ∈ order)
    (hcomm : ∀ e ∈ tr, ∀ e' ∈ tr, e.1 ≠ e'.1 → ∀ b, act (act b e'.2) e.2 = act (act b e.2) e'.2) (b : β) :
    (tr.map Prod.snd).foldl act b = (order.flatMap fun i => Pool.own i tr).foldl act b := by
  induction order generalizing tr b with
  | nil =>
    have hnil : tr = [] := List.eq_nil_iff_forall_not_mem.mpr fun e he => List.not_mem_nil (hall e he)
    rw [hnil]
    rfl
  | cons i order ih =>
    obtain ⟨hi, hn⟩ := List.nodup_cons.mp hn
    -- the others are left as they are by taking out the exchanges of `i`
    have hothers : ∀ j ∈ order, Pool.own j (tr.filter (·.1 ≠ i)) = Pool.own j tr := by
      intro j hj
      have hne : j ≠ i := fun h => hi (h ▸ hj)
      rw [Pool.own_filter, List.filter_eq_self]
      simp [hne]
    have hsub : ∀ e ∈ tr.filter (·.1 ≠ i), e ∈ tr := fun e he => (List.mem_filter.mp he).1
    rw [List.flatMap_cons, List.foldl_append, ← List.flatMap_congr hothers,
      Pool.foldl_own_first (i := i) fun e he hne e' he' => hcomm e he (i, e') (Pool.mem_own.mp he') hne]
    refine ih hn (fun e he => ?_) (fun e he e' he' => hcomm e (hsub e he) e' (hsub e' he')) _
    obtain ⟨hmem, hne⟩ := List.mem_filter.mp he
    exact (List.mem_cons.mp (hall e hmem)).resolve_left (of_decide_eq_true hne)

end Commutation
