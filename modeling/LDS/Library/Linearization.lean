import LDS.Library.Program
import LDS.Library.Service

/-!
# Linearizations

Operations that run side by side are linearizable when there is an order of them that respects real time
and in which a machine that takes them one by one gives what they have returned. Where every operation
takes effect at one of its own calls, the order of these calls is such an order.

## Main definitions

* `Pool.Precedes tr i j`: `i` has made its last exchange when `j` makes its first
* `Machine.Linearization`: an order in which the machine gives what was returned
* `Machine.phases M`: the machines of several phases, as one

## Main results

* `Pool.pairwise_not_precedes`: the exchanges of a run come in an order that respects real time
* `Pool.linearization`: operations that take effect at one of their calls
* `Machine.linearization_phases`: phases that go on from where the one before stopped
-/

section Linearization

variable {Op : Type} {Ans : Op → Type} {α β ι σ : Type} [DecidableEq ι]
  {tr tr₁ tr₂ : List (ι × Exchange Op Ans)} {i j : ι}

/-! ## Real time -/

/-- All exchanges of `i` come before all those of `j`. An operation that was answered before another one
was issued precedes it. -/
def Pool.Precedes (tr : List (ι × Exchange Op Ans)) (i j : ι) : Prop :=
  ∃ tr₁ tr₂, tr = tr₁ ++ tr₂ ∧ Pool.own i tr₂ = [] ∧ Pool.own j tr₁ = []

theorem Pool.own_eq_nil : Pool.own i tr = [] ↔ ∀ e, (i, e) ∉ tr := by
  rw [List.eq_nil_iff_forall_not_mem]
  exact forall_congr' fun e => not_congr Pool.mem_own

/-- The exchanges of a run come in an order that respects real time. -/
theorem Pool.pairwise_not_precedes (tr : List (ι × Exchange Op Ans)) :
    tr.Pairwise fun e e' => ¬ Pool.Precedes tr e'.1 e.1 := by
  rw [List.pairwise_iff_forall_sublist]
  rintro ⟨i, e⟩ ⟨j, e'⟩ hsub ⟨tr₁, tr₂, rfl, hj, hi⟩
  rw [Pool.own_eq_nil] at hi hj
  obtain ⟨l₁, l₂, hl, h₁, h₂⟩ := List.sublist_append_iff.mp hsub
  -- the first exchange is in the second part, so the other one is too
  cases l₁ with
  | nil =>
    rw [List.nil_append] at hl
    exact hj e' (h₂.subset (by rw [← hl]; exact List.mem_cons_of_mem _ List.mem_cons_self))
  | cons x l₁ =>
    obtain ⟨rfl, -⟩ := List.cons.inj hl
    exact hi e (h₁.subset List.mem_cons_self)

theorem Pool.own_filter (p : ι × Exchange Op Ans → Bool) (tr : List (ι × Exchange Op Ans)) (i : ι) :
    Pool.own i (tr.filter p) = (Pool.own i tr).filter fun e => p (i, e) := by
  induction tr with
  | nil => rfl
  | cons e tr ih =>
    obtain ⟨j, e⟩ := e
    simp only [Pool.own] at ih ⊢
    by_cases hp : p (j, e) <;> by_cases hj : j = i
    · subst hj
      simp [hp, ih]
    · simp [hp, hj, ih]
    · subst hj
      simp [hp, ih]
    · simp [hp, hj, ih]

/-- A run that made an exchange came to a state in which it made it. -/
theorem Pool.Run.split {R : Environment Op Ans σ} {T₀ T : ι → Prog Op Ans α} {s₀ s : σ}
    {e : ι × Exchange Op Ans} (hr : Pool.Run R T₀ s₀ (tr₁ ++ e :: tr₂) T s) :
    ∃ T₁ s₁ T₂ s₂, Pool.Run R T₀ s₀ tr₁ T₁ s₁ ∧ Pool.Step R T₁ s₁ e T₂ s₂ := by
  induction tr₂ using List.reverseRecOn generalizing T s with
  | nil =>
    generalize htr : tr₁ ++ [e] = tr at hr
    cases hr with
    | nil => simp at htr
    | snoc hr hs =>
      obtain ⟨rfl, he⟩ := List.append_inj' htr rfl
      obtain rfl := List.singleton_injective he
      exact ⟨_, _, _, _, hr, hs⟩
  | append_singleton tr₂ e' ih =>
    generalize htr : tr₁ ++ e :: (tr₂ ++ [e']) = tr at hr
    rw [← List.cons_append, ← List.append_assoc] at htr
    cases hr with
    | nil => simp at htr
    | snoc hr hs =>
      obtain ⟨rfl, -⟩ := List.append_inj' htr rfl
      exact ih hr

/-! ## Orders of operations -/

/-- An order of the operations of `member` that have taken effect: all that have returned are in it, it
respects real time, and the machine, taking them one by one, gives what they have returned. -/
structure Machine.Linearization (M : Machine α ι β) (a₀ : α) (precedes : ι → ι → Prop) (member : ι → Prop)
    (returned : ι → β → Prop) (order : List ι) : Prop where
  nodup : order.Nodup
  member : ∀ i ∈ order, member i
  complete : ∀ i b, returned i b → i ∈ order
  realTime : order.Pairwise fun i j => ¬ precedes j i
  legal : ∀ before i after b, order = before ++ i :: after → returned i b →
    M.output (before.foldl M.next a₀) i = b

omit [DecidableEq ι] in
/-- An order does for less: operations that precede one another, members that are left out, and results. -/
theorem Machine.Linearization.mono {M : Machine α ι β} {a₀ : α} {precedes precedes' : ι → ι → Prop}
    {member member' : ι → Prop} {returned returned' : ι → β → Prop} {order : List ι}
    (h : M.Linearization a₀ precedes member returned order) (hprec : ∀ i j, precedes' i j → precedes i j)
    (hmember : ∀ i, member i → member' i) (hret : ∀ i b, returned' i b → returned i b) :
    M.Linearization a₀ precedes' member' returned' order where
  nodup := h.nodup
  member i hi := hmember i (h.member i hi)
  complete i b hb := h.complete i b (hret i b hb)
  realTime := h.realTime.imp fun hij hji => hij (hprec _ _ hji)
  legal before i after b horder hb := h.legal before i after b horder (hret i b hb)

omit [DecidableEq ι] in
/-- Between an operation and one that it precedes come operations that neither the first nor the second
keeps out. -/
theorem Machine.Linearization.between {M : Machine α ι β} {a₀ : α} {precedes : ι → ι → Prop}
    {member : ι → Prop} {returned : ι → β → Prop} {order : List ι}
    (h : M.Linearization a₀ precedes member returned order) (hi : i ∈ order) (hj : j ∈ order)
    (hne : i ≠ j) (hij : precedes i j) :
    ∃ before between after, order = before ++ i :: between ++ j :: after ∧
      ∀ v ∈ between, v ≠ i ∧ ¬ precedes v i ∧ ¬ precedes j v := by
  obtain ⟨l, after, rfl⟩ := List.append_of_mem hj
  obtain ⟨-, hafter, -⟩ := List.pairwise_append.mp h.realTime
  -- an operation that precedes another stands before it
  have hl : i ∈ l := by
    rcases List.mem_append.mp hi with hi | hi
    · exact hi
    · rcases List.mem_cons.mp hi with hi | hi
      · exact absurd hi hne
      · exact absurd hij ((List.pairwise_cons.mp hafter).1 i hi)
  obtain ⟨before, between, rfl⟩ := List.append_of_mem hl
  refine ⟨before, between, after, rfl, fun v hv => ?_⟩
  obtain ⟨hfront, -, hcross⟩ := List.pairwise_append.mp h.realTime
  obtain ⟨-, hmid, -⟩ := List.pairwise_append.mp hfront
  refine ⟨?_, (List.pairwise_cons.mp hmid).1 v hv,
    hcross v (List.mem_append_right _ (List.mem_cons_of_mem _ hv)) j List.mem_cons_self⟩
  rintro rfl
  have hn := (List.nodup_append.mp (List.nodup_append.mp h.nodup).1).2.1
  exact (List.nodup_cons.mp hn).1 hv

/-- **Linearization points.** Every operation makes at most one of the exchanges `point`, one that has
returned has made it, and what it returned is what the machine gives after the points so far. -/
theorem Pool.linearization {M : Machine α ι β} {a₀ : α} {point : ι × Exchange Op Ans → Bool}
    {member : ι → Prop} {returned : ι → β → Prop}
    (hmember : ∀ i e, (i, e) ∈ tr → point (i, e) = true → member i)
    (honce : ∀ i, ((Pool.own i tr).filter fun e => point (i, e)).length ≤ 1)
    (hcomplete : ∀ i b, returned i b → ∃ e, (i, e) ∈ tr ∧ point (i, e) = true)
    (hlegal : ∀ tr₁ i e tr₂ b, tr = tr₁ ++ (i, e) :: tr₂ → point (i, e) = true → returned i b →
      M.output (((tr₁.filter point).map Prod.fst).foldl M.next a₀) i = b) :
    M.Linearization a₀ (Pool.Precedes tr) member returned ((tr.filter point).map Prod.fst) where
  nodup := by
    rw [List.Nodup, List.pairwise_map, List.pairwise_iff_forall_sublist]
    rintro ⟨i, e⟩ ⟨j, e'⟩ hsub rfl
    -- two points of one operation
    have hown : Pool.own i [(i, e), (i, e')] = [e, e'] := by simp [Pool.own]
    have hle := (hsub.filterMap fun e => if e.1 = i then some e.2 else none).length_le
    have hone := honce i
    rw [← Pool.own_filter] at hone
    rw [← Pool.own, ← Pool.own, hown] at hle
    exact absurd (hle.trans hone) (Nat.not_succ_le_self 1)
  member := by
    intro i hi
    obtain ⟨⟨i, e⟩, he, rfl⟩ := List.mem_map.mp hi
    obtain ⟨htr, hp⟩ := List.mem_filter.mp he
    exact hmember i e htr hp
  complete := by
    intro i b hb
    obtain ⟨e, htr, hp⟩ := hcomplete i b hb
    exact List.mem_map.mpr ⟨(i, e), List.mem_filter.mpr ⟨htr, hp⟩, rfl⟩
  realTime := by
    rw [List.pairwise_map]
    exact (Pool.pairwise_not_precedes tr).sublist List.filter_sublist
  legal := by
    intro before i after b horder hb
    obtain ⟨l₁, l₂, hl, rfl, hl₂⟩ := List.map_eq_append_iff.mp horder
    obtain ⟨e, l₃, rfl, rfl, -⟩ := List.map_eq_cons_iff.mp hl₂
    obtain ⟨tr₁, tr₂, rfl, rfl, htr₂⟩ := List.filter_eq_append_iff.mp hl
    obtain ⟨tr₃, tr₄, rfl, hnone, hp, -⟩ := List.filter_eq_cons_iff.mp htr₂
    have hnil : tr₃.filter point = [] := List.filter_eq_nil_iff.mpr hnone
    have h := hlegal (tr₁ ++ tr₃) e.1 e.2 tr₄ b (by rw [List.append_assoc]) hp hb
    rwa [List.filter_append, hnil, List.append_nil] at h

end Linearization

/-! ## Phases -/

section Phases

variable {α β ι : Type}

/-- The machines of several phases, as one: a request names its phase. -/
def Machine.phases (M : Nat → Machine α ι β) : Machine α (Nat × ι) β where
  next a p := (M p.1).next a p.2
  output a p := (M p.1).output a p.2

/-- The machine cannot tell related states apart. -/
structure Machine.Respects (M : Machine α ι β) (E : α → α → Prop) : Prop where
  next : ∀ a a' i, E a a' → E (M.next a i) (M.next a' i)
  output : ∀ a a' i, E a a' → M.output a i = M.output a' i

theorem Machine.Respects.foldl {M : Machine α ι β} {E : α → α → Prop} (hM : M.Respects E) {a a' : α}
    (h : E a a') (is : List ι) : E (is.foldl M.next a) (is.foldl M.next a') := by
  induction is generalizing a a' with
  | nil => exact h
  | cons i is ih => exact ih (hM.next a a' i h)

/-- The orders of the first `n` phases, one after the other. -/
def phaseOrder (order : Nat → List ι) (n : Nat) : List (Nat × ι) :=
  (List.range n).flatMap fun j => (order j).map fun i => (j, i)

theorem phaseOrder_succ (order : Nat → List ι) (n : Nat) :
    phaseOrder order (n + 1) = phaseOrder order n ++ (order n).map fun i => (n, i) := by
  unfold phaseOrder
  rw [List.range_succ, List.flatMap_append, List.flatMap_cons, List.flatMap_nil, List.append_nil]

theorem mem_phaseOrder {order : Nat → List ι} {n : Nat} {p : Nat × ι} :
    p ∈ phaseOrder order n ↔ p.1 < n ∧ p.2 ∈ order p.1 := by
  obtain ⟨j, i⟩ := p
  simp only [phaseOrder, List.mem_flatMap, List.mem_range, List.mem_map, Prod.mk.injEq]
  constructor
  · rintro ⟨j, hj, i, hi, rfl, rfl⟩
    exact ⟨hj, hi⟩
  · exact fun ⟨hj, hi⟩ => ⟨j, hj, i, hi, rfl, rfl⟩

theorem Machine.foldl_phase (M : Nat → Machine α ι β) (j : Nat) (is : List ι) (a : α) :
    (is.map fun i => (j, i)).foldl (Machine.phases M).next a = is.foldl (M j).next a := by
  rw [List.foldl_map]
  rfl

variable {M : Nat → Machine α ι β} {E : α → α → Prop} {a : Nat → α} {precedes : Nat → ι → ι → Prop}
  {member : Nat → ι → Prop} {returned : Nat → ι → β → Prop} {order : Nat → List ι} {n : Nat}

/-- A phase begins as the orders before it have left the machine. -/
theorem Machine.foldl_phaseOrder (hE : Equivalence E) (hM : ∀ j, (M j).Respects E)
    (ha : ∀ j, j + 1 < n → E ((order j).foldl (M j).next (a j)) (a (j + 1))) {j : Nat} (hj : j < n) :
    E ((phaseOrder order j).foldl (Machine.phases M).next (a 0)) (a j) := by
  induction j with
  | zero => exact hE.refl _
  | succ j ih =>
    rw [phaseOrder_succ, List.foldl_append, Machine.foldl_phase]
    apply hE.trans _ (ha j hj)
    exact (hM j).foldl (ih (Nat.lt_of_succ_lt hj)) (order j)

/-- **Phases that go on from where the one before stopped** are linearizable together: their orders, one after the
other, respect the order of the phases. -/
theorem Machine.linearization_phases (hE : Equivalence E) (hM : ∀ j, (M j).Respects E)
    (h : ∀ j < n, (M j).Linearization (a j) (precedes j) (member j) (returned j) (order j))
    (ha : ∀ j, j + 1 < n → E ((order j).foldl (M j).next (a j)) (a (j + 1))) :
    (Machine.phases M).Linearization (a 0) (fun p q => p.1 < q.1 ∨ p.1 = q.1 ∧ precedes p.1 p.2 q.2)
      (fun p => p.1 < n ∧ member p.1 p.2) (fun p b => p.1 < n ∧ returned p.1 p.2 b) (phaseOrder order n) where
  nodup := by
    induction n with
    | zero => exact List.nodup_nil
    | succ n ih =>
      rw [phaseOrder_succ, List.nodup_append]
      refine ⟨ih (fun j hj => h j (Nat.lt_succ_of_lt hj)) fun j hj => ha j (Nat.lt_succ_of_lt hj), ?_, ?_⟩
      · exact (h n (Nat.lt_succ_self n)).nodup.map fun i i' he => congrArg Prod.snd he
      · -- no request of the last phase is one of an earlier phase
        intro p hp q hq he
        obtain ⟨i, -, rfl⟩ := List.mem_map.mp hq
        subst he
        exact absurd (mem_phaseOrder.mp hp).1 (Nat.lt_irrefl n)
  member := by
    intro p hp
    obtain ⟨hj, hi⟩ := mem_phaseOrder.mp hp
    exact ⟨hj, (h p.1 hj).member p.2 hi⟩
  complete := by
    rintro p b ⟨hj, hb⟩
    exact mem_phaseOrder.mpr ⟨hj, (h p.1 hj).complete p.2 b hb⟩
  realTime := by
    induction n with
    | zero => exact .nil
    | succ n ih =>
      rw [phaseOrder_succ, List.pairwise_append]
      refine ⟨ih (fun j hj => h j (Nat.lt_succ_of_lt hj)) fun j hj => ha j (Nat.lt_succ_of_lt hj), ?_, ?_⟩
      · rw [List.pairwise_map]
        refine (h n (Nat.lt_succ_self n)).realTime.imp ?_
        rintro i i' hnot (hlt | ⟨-, hprec⟩)
        · exact Nat.lt_irrefl n hlt
        · exact hnot hprec
      · intro p hp q hq
        obtain ⟨i, -, rfl⟩ := List.mem_map.mp hq
        have hlt := (mem_phaseOrder.mp hp).1
        rintro (hgt | ⟨he, -⟩)
        · exact Nat.lt_asymm hlt hgt
        · exact Nat.ne_of_gt hlt he
  legal := by
    induction n with
    | zero =>
      intro before p after b horder
      simp [phaseOrder] at horder
    | succ n ih =>
      intro before p after b horder hb
      have hlast := h n (Nat.lt_succ_self n)
      rw [phaseOrder_succ] at horder
      rcases List.append_eq_append_iff.mp horder with ⟨l, rfl, hl⟩ | ⟨l, hl, hmid⟩
      · -- the request is one of the last phase
        obtain ⟨is, is', his, rfl, his'⟩ := List.map_eq_append_iff.mp hl
        obtain ⟨i, is', rfl, rfl, -⟩ := List.map_eq_cons_iff.mp his'
        rw [List.foldl_append, Machine.foldl_phase]
        rw [← hlast.legal is i is' b his hb.2]
        apply (hM n).output
        exact (hM n).foldl (Machine.foldl_phaseOrder hE hM ha (Nat.lt_succ_self n)) is
      · cases l with
        | nil =>
          rw [List.nil_append] at hmid
          obtain ⟨i, is', his', rfl, -⟩ := List.map_eq_cons_iff.mp hmid.symm
          rw [List.append_nil] at hl
          rw [← hl]
          rw [← hlast.legal [] i is' b his' hb.2]
          apply (hM n).output
          exact Machine.foldl_phaseOrder hE hM ha (Nat.lt_succ_self n)
        | cons q l =>
          -- the request is one of an earlier phase
          obtain ⟨rfl, -⟩ := List.cons.inj hmid
          have hp : p ∈ phaseOrder order n := by
            rw [hl]
            exact List.mem_append_right _ List.mem_cons_self
          exact ih (fun j hj => h j (Nat.lt_succ_of_lt hj)) (fun j hj => ha j (Nat.lt_succ_of_lt hj))
            before p l b hl ⟨(mem_phaseOrder.mp hp).1, hb.2⟩

end Phases
