import LDS.Storage.Requests

/-!
# Concurrent writers

Pool workers run `Write` requests side by side. A chunk is written to its primary and then to its
mirror, in two critical sections; in between another request may write the same bytes. The mirrors
end up equal to their primaries as long as the mirror writes of overlapping chunks come in the order
of their primary writes, and nothing in the code sees to that.

## Main definitions

* `RAIDStorage.PairedWrites`: after each primary write the program owes the write of the mirror
* `RAIDStorage.pending tr`: the writes that have reached the primary only, in their order
* `RAIDStorage.MirrorsInOrder ps tr`: no mirror write overtakes an overlapping one

## Main results

* `RAIDStorage.pairedWrites_write`: `Write` is such a program
* `RAIDStorage.Concurrent.run`: a primary is its mirror with the pending writes on top
* `RAIDStorage.mirrored_of_mirrorsInOrder`: when all requests are done the copies are equal
* `RAIDStorage.overtaking_diverges`: two requests whose mirror writes change places
-/

namespace LDS

open Memory

namespace RAIDStorage

variable {g : Geometry}

/-! ## The programs -/

/-- A write that a mirror is owed: the pair, the offset and the bytes. -/
structure Owed (g : Geometry) where
  pair : Fin g.numPrimary
  offset : Nat
  buf : List Byte

/-- Each write of a primary that returns is followed by the same write of its mirror, before any other
call; the program itself owes a write already if `w` is one. -/
inductive PairedWrites {α : Type} : (w : Option (Owed g)) → RAIDProg g α → Prop
  | ret (v : α) : PairedWrites none (.ret v)
  | abort : PairedWrites none .abort
  | other {o : RAIDCall g} {k : o.Answer → RAIDProg g α} (ho : NoWrite o)
      (hk : ∀ a, PairedWrites none (k a)) : PairedWrites none (.call o k)
  | primary {i : Fin g.numPrimary} {offset : Nat} {buf : List Byte}
      {k : Except String Unit → RAIDProg g α}
      (hok : PairedWrites (some ⟨i, offset, buf⟩) (k (.ok ())))
      (herr : ∀ what, PairedWrites none (k (.error what))) :
      PairedWrites none (.call (.minionWrite (g.primary i) offset buf) k)
  | mirror {i : Fin g.numPrimary} {offset : Nat} {buf : List Byte}
      {k : Except String Unit → RAIDProg g α} (hk : ∀ a, PairedWrites none (k a)) :
      PairedWrites (some ⟨i, offset, buf⟩) (.call (.minionWrite (g.mirrorIndex i) offset buf) k)

theorem PairedWrites.bind {α β : Type} {w : Option (Owed g)} {p : RAIDProg g α}
    {f : α → RAIDProg g β} (hp : PairedWrites w p) (hf : ∀ v, PairedWrites none (f v)) :
    PairedWrites w (p >>= f) := by
  induction hp with
  | ret v => exact hf v
  | abort => exact .abort
  | other ho _ ih => exact .other ho ih
  | primary _ _ ih₁ ih₂ => exact .primary ih₁ ih₂
  | mirror _ ih => exact .mirror ih

theorem pairedWrites_writeChunks (buffer : List Byte) (cs : List Chunk) :
    PairedWrites none (writeChunks g buffer cs) := by
  induction cs with
  | nil => exact .ret _
  | cons c cs ih =>
    apply PairedWrites.bind
    · exact .primary (.mirror .ret) fun _ => .ret _
    · rintro (what | ⟨⟩)
      · exact .ret _
      · exact ih

/-- `Write` writes every chunk to the primary, then to the mirror. -/
theorem pairedWrites_write (data : DriverData) : PairedWrites none (write g data) := by
  apply PairedWrites.bind
  · rcases writeLoop_eq_or_abort g data.buffer data.offset data.buffer.length 0 with he | ⟨-, -, he⟩
    · rw [he]
      exact pairedWrites_writeChunks _ _
    · rw [he]
      exact .abort
  · rintro (what | ⟨⟩)
    · exact .ret _
    · refine .other (fun i a buf h => by cases h) ?_
      rintro (what | ⟨⟩) <;> exact .ret _

/-! ## The pending writes -/

variable {ι : Type} [DecidableEq ι]

/-- The writes that have reached the primary only, in their order, after one more exchange. -/
def pendingStep (ps : List (ι × Owed g)) :
    ι × Exchange (RAIDCall g) RAIDCall.Answer → List (ι × Owed g)
  | (t, ⟨.minionWrite i a buf, .ok ()⟩) =>
    if h : i < g.numPrimary then ps ++ [(t, ⟨⟨i, h⟩, a, buf⟩)] else ps.filter (·.1 ≠ t)
  | _ => ps

/-- The writes that have reached the primary only, in their order. -/
def pending (tr : List (ι × Exchange (RAIDCall g) RAIDCall.Answer)) : List (ι × Owed g) :=
  tr.foldl pendingStep []

/-- The mirror write of `e` does not overtake an overlapping one: the writes that have reached the
primary before it and wait for their mirror are of other bytes. -/
def InOrder (ps : List (ι × Owed g)) : ι × Exchange (RAIDCall g) RAIDCall.Answer → Prop
  | (t, ⟨.minionWrite i a buf, .ok ()⟩) =>
    ∀ p ∈ ps.takeWhile (·.1 ≠ t), i = g.mirrorIndex p.2.pair →
      p.2.offset + p.2.buf.length ≤ a ∨ a + buf.length ≤ p.2.offset
  | _ => True

instance (ps : List (ι × Owed g)) :
    (e : ι × Exchange (RAIDCall g) RAIDCall.Answer) → Decidable (InOrder ps e)
  | (t, ⟨.minionWrite i a buf, .ok ()⟩) =>
    inferInstanceAs (Decidable (∀ p ∈ ps.takeWhile (·.1 ≠ t), i = g.mirrorIndex p.2.pair →
      p.2.offset + p.2.buf.length ≤ a ∨ a + buf.length ≤ p.2.offset))
  | (_, ⟨.minionWrite _ _ _, .error _⟩) => .isTrue trivial
  | (_, ⟨.minionRead _ _ _, _⟩) => .isTrue trivial
  | (_, ⟨.recordSize _ _, _⟩) => .isTrue trivial
  | (_, ⟨.getDataSize _, _⟩) => .isTrue trivial
  | (_, ⟨.listOffsets, _⟩) => .isTrue trivial

/-- No mirror write of the run overtakes an overlapping one, when `ps` are pending before it. -/
def MirrorsInOrder (ps : List (ι × Owed g)) :
    List (ι × Exchange (RAIDCall g) RAIDCall.Answer) → Prop
  | [] => True
  | e :: tr => InOrder ps e ∧ MirrorsInOrder (pendingStep ps e) tr

instance decidableMirrorsInOrder (ps : List (ι × Owed g)) :
    (tr : List (ι × Exchange (RAIDCall g) RAIDCall.Answer)) → Decidable (MirrorsInOrder ps tr)
  | [] => .isTrue trivial
  | e :: tr =>
    have := decidableMirrorsInOrder (pendingStep ps e) tr
    inferInstanceAs (Decidable (InOrder ps e ∧ MirrorsInOrder (pendingStep ps e) tr))

theorem mirrorsInOrder_snoc {ps : List (ι × Owed g)}
    {tr : List (ι × Exchange (RAIDCall g) RAIDCall.Answer)}
    {e : ι × Exchange (RAIDCall g) RAIDCall.Answer} (h : MirrorsInOrder ps (tr ++ [e])) :
    MirrorsInOrder ps tr ∧ InOrder (tr.foldl pendingStep ps) e := by
  induction tr generalizing ps with
  | nil => exact ⟨trivial, h.1⟩
  | cons e' tr ih =>
    obtain ⟨h₁, h₂⟩ := h
    obtain ⟨h₃, h₄⟩ := ih h₂
    exact ⟨⟨h₁, h₃⟩, h₄⟩

theorem pending_snoc (tr : List (ι × Exchange (RAIDCall g) RAIDCall.Answer))
    (e : ι × Exchange (RAIDCall g) RAIDCall.Answer) :
    pending (tr ++ [e]) = pendingStep (pending tr) e := by
  rw [pending, List.foldl_append]
  rfl

/-- The write that the program `t` owes. -/
def owed (ps : List (ι × Owed g)) (t : ι) : Option (Owed g) := (ps.find? (·.1 = t)).map (·.2)

theorem owed_append_self {ps : List (ι × Owed g)} {t : ι} (h : owed ps t = none) (w : Owed g) :
    owed (ps ++ [(t, w)]) t = some w := by
  rw [owed, Option.map_eq_none_iff] at h
  simp [owed, List.find?_append, h]

theorem owed_append_of_ne {ps : List (ι × Owed g)} {t t' : ι} (h : t' ≠ t) (w : Owed g) :
    owed (ps ++ [(t, w)]) t' = owed ps t' := by
  simp [owed, List.find?_append, h.symm]

theorem owed_filter_self (ps : List (ι × Owed g)) (t : ι) : owed (ps.filter (·.1 ≠ t)) t = none := by
  simp [owed, List.find?_filter]

theorem owed_filter_of_ne {ps : List (ι × Owed g)} {t t' : ι} (h : t' ≠ t) :
    owed (ps.filter (·.1 ≠ t)) t' = owed ps t' := by
  rw [owed, owed, List.find?_filter]
  congr 2
  funext p
  by_cases hp : p.1 = t'
  · simp [hp, h]
  · simp [hp]

/-- What a program owes stands in the pending writes once, with the writes before and after it. -/
theorem split_of_owed {ps : List (ι × Owed g)} {t : ι} {w : Owed g} (h : owed ps t = some w)
    (hn : (ps.map Prod.fst).Nodup) :
    ∃ l r, ps = l ++ (t, w) :: r ∧ ps.takeWhile (·.1 ≠ t) = l ∧ ps.filter (·.1 ≠ t) = l ++ r := by
  induction ps with
  | nil => simp [owed] at h
  | cons p ps ih =>
    obtain ⟨hp, hn⟩ := List.nodup_cons.mp hn
    by_cases ht : p.1 = t
    · obtain rfl : p.2 = w := by simpa [owed, ht] using h
      -- the thread owes one call only
      have hr : ps.filter (·.1 ≠ t) = ps := List.filter_eq_self.mpr fun q hq => by
        have hne : q.1 ≠ p.1 := fun he => hp (he ▸ List.mem_map_of_mem hq)
        simpa [← ht] using hne
      exact ⟨[], ps, by rw [← ht]; rfl, by simp [ht], by rw [List.filter_cons, hr]; simp [ht]⟩
    · obtain ⟨l, r, rfl, hl, hr⟩ := ih (by simpa [owed, ht] using h) hn
      exact ⟨p :: l, r, rfl, by rw [List.takeWhile_cons, hl]; simp [ht],
        by rw [List.filter_cons, hr]; simp [ht]⟩

/-- The bytes of the pair `i` after the write `w`. -/
def Owed.apply (w : Owed g) (i : Fin g.numPrimary) (f : Nat → Byte) : Nat → Byte :=
  if w.pair = i then store f w.offset w.buf else f

/-- The bytes of the pair `i` with the pending writes on top. -/
def settle (i : Fin g.numPrimary) (ps : List (ι × Owed g)) (f : Nat → Byte) : Nat → Byte :=
  ps.foldl (fun f p => p.2.apply i f) f

omit [DecidableEq ι] in
theorem settle_snoc (i : Fin g.numPrimary) (ps : List (ι × Owed g)) (p : ι × Owed g)
    (f : Nat → Byte) : settle i (ps ++ [p]) f = p.2.apply i (settle i ps f) := by
  rw [settle, List.foldl_append]
  rfl

omit [DecidableEq ι] in
/-- A write of other bytes than those before it can go first. -/
theorem settle_remove {i : Fin g.numPrimary} {l r : List (ι × Owed g)} {t : ι} {w : Owed g}
    (h : ∀ p ∈ l, p.2.pair = w.pair →
      p.2.offset + p.2.buf.length ≤ w.offset ∨ w.offset + w.buf.length ≤ p.2.offset)
    (f : Nat → Byte) : settle i (l ++ (t, w) :: r) f = settle i (l ++ r) (w.apply i f) := by
  induction l generalizing f with
  | nil => rfl
  | cons p l ih =>
    obtain ⟨hp, hl⟩ := List.forall_mem_cons.mp h
    have hcomm : w.apply i (p.2.apply i f) = p.2.apply i (w.apply i f) := by
      by_cases hw : w.pair = i <;> by_cases hi : p.2.pair = i <;> simp only [Owed.apply, hw, hi,
        if_true, if_false]
      exact store_comm (hp (hi.trans hw.symm))
    rw [List.cons_append, List.cons_append, settle, List.foldl_cons, ← settle, ih hl, hcomm]
    rfl

/-! ## Runs -/

variable {μ τ : Type} [LawfulMinion μ] [IMetadataStore τ] {s₀ s s' : RAIDStorage μ τ g}
  {T T' : ι → RAIDProg g DriverData} {tr : List (ι × Exchange (RAIDCall g) RAIDCall.Answer)}

/-- The pending writes are those the programs owe, and a primary is its mirror with them on top. -/
structure Concurrent (ps : List (ι × Owed g)) (T : ι → RAIDProg g DriverData)
    (s : RAIDStorage μ τ g) : Prop where
  nodup : (ps.map Prod.fst).Nodup
  owes : ∀ t, PairedWrites (owed ps t) (T t)
  cells_eq : ∀ i, s.cells (g.primary i) = settle i ps (s.cells (g.mirrorIndex i))

theorem not_mem_of_owed_none {ps : List (ι × Owed g)} {t : ι} (h : owed ps t = none) :
    t ∉ ps.map Prod.fst := by
  rw [owed, Option.map_eq_none_iff, List.find?_eq_none] at h
  rintro hm
  obtain ⟨p, hp, rfl⟩ := List.mem_map.mp hm
  exact absurd (decide_eq_true rfl) (h p hp)

/-- One call of one program, if no minion fails and no mirror write overtakes an overlapping one. -/
theorem Concurrent.step {ps : List (ι × Owed g)} {e : ι × Exchange (RAIDCall g) RAIDCall.Answer}
    (hc : Concurrent ps T s) (hs : Pool.Step Answers T s e T' s') (hu : Unfailing [e.2])
    (ho : InOrder ps e) : Concurrent (pendingStep ps e) T' s' := by
  obtain ⟨hn, howes, hcells⟩ := hc
  cases hs with
  | @call t o k a _ _ hT hR =>
    have hp := howes t
    rw [hT] at hp
    generalize hw : owed ps t = w at hp
    -- the other programs go on owing what they owed
    have hothers : ∀ ps' : List (ι × Owed g), (∀ t', t' ≠ t → owed ps' t' = owed ps t') →
        PairedWrites (owed ps' t) (k a) →
        ∀ t', PairedWrites (owed ps' t') (Function.update T t (k a) t') := by
      intro ps' hps' hk t'
      rcases eq_or_ne t' t with rfl | ht
      · rwa [Function.update_self]
      · rw [Function.update_of_ne ht, hps' t' ht]
        exact howes t'
    cases hp with
    | other hno hk =>
      have hps : pendingStep ps (t, ⟨o, a⟩) = ps := by
        cases o with
        | minionWrite i b buf => exact absurd rfl (hno i b buf)
        | _ => rfl
      rw [hps]
      refine ⟨hn, hothers ps (fun _ _ => rfl) (by rw [hw]; exact hk a), fun i => ?_⟩
      rw [cells_of_noWrite hno hR]
      exact hcells i
    | @primary i b buf _ hok _ =>
      obtain ⟨-, ⟨rfl, -, hs'⟩ | ⟨what, rfl, -⟩⟩ := answers_minionWrite hR
      · have hps : pendingStep ps (t, ⟨.minionWrite (g.primary i) b buf, .ok ()⟩) =
            ps ++ [(t, ⟨i, b, buf⟩)] := dif_pos i.isLt
        rw [hps]
        refine ⟨?_, hothers _ (fun t' ht => owed_append_of_ne ht _)
          (by rw [owed_append_self hw]; exact hok), fun j => ?_⟩
        · rw [List.map_append, List.nodup_append]
          refine ⟨hn, by simp, ?_⟩
          rintro t' ht' _ hmem rfl
          obtain rfl : t' = t := by simpa using hmem
          exact not_mem_of_owed_none hw ht'
        · rw [settle_snoc, hs', Function.update_of_ne (Geometry.primary_ne_mirrorIndex _ _).symm,
            ← hcells j, Owed.apply]
          split
          · rename_i hij
            obtain rfl : i = j := hij
            rw [Function.update_self]
          · rename_i hij
            rw [Function.update_of_ne fun he => hij (Geometry.primary_injective he).symm]
      · exact absurd List.mem_cons_self (hu _ _ _ what)
    | @mirror i b buf _ hk =>
      obtain ⟨-, ⟨rfl, -, hs'⟩ | ⟨what, rfl, -⟩⟩ := answers_minionWrite hR
      · have hps : pendingStep ps (t, ⟨.minionWrite (g.mirrorIndex i) b buf, .ok ()⟩) =
            ps.filter (·.1 ≠ t) := dif_neg (Nat.not_lt.mpr (Nat.le_add_right _ _))
        obtain ⟨l, r, rfl, hl, hr⟩ := split_of_owed hw hn
        refine ⟨?_, hps ▸ hothers _ (fun t' ht => owed_filter_of_ne ht)
          (by rw [owed_filter_self]; exact hk _), fun j => ?_⟩
        · rw [hps]
          exact hn.sublist (List.filter_sublist.map _)
        · rw [hps, hr, hs', Function.update_of_ne (Geometry.primary_ne_mirrorIndex _ _), hcells j,
            settle_remove]
          · congr 1
            rw [Owed.apply]
            split
            · rename_i hij
              obtain rfl : i = j := hij
              rw [Function.update_self]
            · rename_i hij
              rw [Function.update_of_ne fun he => hij (Geometry.mirrorIndex_injective he).symm]
          · intro p hp' hpair
            exact ho p (hl.symm ▸ hp') (congrArg g.mirrorIndex hpair.symm)
      · exact absurd List.mem_cons_self (hu _ _ _ what)

/-- **A run of concurrent writers**: the pending writes are all that tells a primary from its
mirror. -/
theorem Concurrent.run {data : ι → DriverData} (h₀ : s₀.Mirrored)
    (hr : Pool.Run Answers (fun t => write g (data t)) s₀ tr T s)
    (hu : Unfailing (tr.map Prod.snd)) (ho : MirrorsInOrder [] tr) : Concurrent (pending tr) T s := by
  refine hr.invariant
    (I := fun tr T s => Unfailing (tr.map Prod.snd) → MirrorsInOrder [] tr →
      Concurrent (pending tr) T s) ?_ ?_ hu ho
  · intro _ _
    exact ⟨List.nodup_nil, fun t => pairedWrites_write (data t), fun i => congrFun h₀ i⟩
  · intro tr T s e T' s' hs ih hu ho
    obtain ⟨ho₁, ho₂⟩ := mirrorsInOrder_snoc ho
    rw [List.map_append] at hu
    rw [pending_snoc]
    exact (ih hu.of_append_left ho₁).step hs hu.of_append_right ho₂

/-- **Concurrent writers** whose mirror writes do not overtake overlapping ones leave every mirror
equal to its primary when they are all done. -/
theorem mirrored_of_mirrorsInOrder {data : ι → DriverData} (h₀ : s₀.Mirrored)
    (hr : Pool.Run Answers (fun t => write g (data t)) s₀ tr T s)
    (hu : Unfailing (tr.map Prod.snd)) (ho : MirrorsInOrder [] tr)
    (hdone : ∀ t, (T t).value?.isSome) : s.Mirrored := by
  obtain ⟨-, howes, hcells⟩ := Concurrent.run h₀ hr hu ho
  -- a program that is done owes nothing
  have hnil : pending tr = [] := by
    rw [List.eq_nil_iff_forall_not_mem]
    rintro ⟨t, w⟩ hmem
    have hsome : (owed (pending tr) t).isSome := by
      rw [owed, Option.isSome_map, List.find?_isSome]
      exact ⟨_, hmem, decide_eq_true rfl⟩
    obtain ⟨w', hw⟩ := Option.isSome_iff_exists.mp hsome
    have hp := howes t
    have hd := hdone t
    rw [hw] at hp
    generalize T t = p at hp hd
    cases hp
    cases hd
  funext i
  exact (hcells i).trans (by rw [hnil]; rfl)

/-! ## Overtaking -/

/-- Two writes of the one byte of a pair. -/
def twoWrites (t : Fin 2) : DriverData :=
  { DriverData.new .write 0 0 1 with buffer := [if t = 0 then 1 else 2] }

/-- The second request writes the mirror before the first one does. -/
theorem overtaking_diverges :
    ¬ ∀ (tr : List (Fin 2 × Exchange (RAIDCall ⟨1, 1, by decide⟩) RAIDCall.Answer)) T
        (s : RAIDStorage StorageMinionMemory MemoryMetadataStore ⟨1, 1, by decide⟩),
      Pool.Run Answers (fun t => write _ (twoWrites t)) (inMemory _) tr T s →
      Unfailing (tr.map Prod.snd) → (∀ t, (T t).value?.isSome) →
      ∀ i, LawfulMinion.contents (s.minions (Geometry.primary _ i)) =
        LawfulMinion.contents (s.minions (Geometry.mirrorIndex _ i)) := by
  intro h
  -- the second writer comes to the primary last, and to the mirror first
  have hexec : (Pool.exec handler [0, 1, 1, 0, 0, 1]
      (fun t : Fin 2 => write ⟨1, 1, by decide⟩ (twoWrites t)) (inMemory _)).map (fun r =>
        (decide (Unfailing (r.1.map Prod.snd)), decide (∀ t, (r.2.1 t).value?.isSome),
          (r.2.2.minions 0).data, (r.2.2.minions 1).data)) = some (true, true, [2], [1]) := by
    decide +kernel
  obtain ⟨⟨tr, T, s⟩, he, hproj⟩ := Option.map_eq_some_iff.mp hexec
  obtain ⟨hu, hdone, h₀, h₁⟩ : _ ∧ _ ∧ (s.minions 0).data = [2] ∧ (s.minions 1).data = [1] := by
    simpa using hproj
  have hrun := Pool.run_of_exec (h := handler) (fun _ _ _ _ => Answers.own) he
  have hc : (s.minions 0).data = (s.minions 1).data := h tr T s hrun hu (Fin.forall_fin_two.mpr hdone) 0
  rw [h₀, h₁] at hc
  exact absurd hc (by decide)

/-- The same requests, the mirror writes in the order of the primary ones. -/
theorem mirrored_in_turn :
    ∃ tr, ∃ T : Fin 2 → _, ∃ s : RAIDStorage StorageMinionMemory MemoryMetadataStore
        ⟨1, 1, by decide⟩,
      Pool.Run Answers (fun t => write _ (twoWrites t)) (inMemory _) tr T s ∧ s.Mirrored := by
  -- both come to the mirror in the order of the primary
  have hexec : (Pool.exec handler [0, 1, 0, 1, 1, 0]
      (fun t : Fin 2 => write ⟨1, 1, by decide⟩ (twoWrites t)) (inMemory _)).map (fun r =>
        (decide (Unfailing (r.1.map Prod.snd)), decide (∀ t, (r.2.1 t).value?.isSome),
          decide (MirrorsInOrder [] r.1))) = some (true, true, true) := by
    decide +kernel
  obtain ⟨⟨tr, T, s⟩, he, hproj⟩ := Option.map_eq_some_iff.mp hexec
  obtain ⟨hu, hdone, ho⟩ : _ ∧ _ ∧ MirrorsInOrder [] tr := by
    simpa using hproj
  have hrun := Pool.run_of_exec (h := handler) (fun _ _ _ _ => Answers.own) he
  exact ⟨tr, T, s, hrun, mirrored_of_mirrorsInOrder (blank_inMemory _).mirrored hrun hu ho
    (Fin.forall_fin_two.mpr hdone)⟩

end RAIDStorage

end LDS
