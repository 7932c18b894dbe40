import LDS.Storage.Linearizability

/-!
# The recorded size

`Write` stores its bytes chunk by chunk and records its size after that, in a critical section of its
own. Two `WRITE`s to one offset can win the minions in one order and the index in the other, and then the
recorded size is that of a `WRITE` whose bytes are no longer there. `LocalStorage::Write` holds one lock
for both.

## Main definitions

* `RAIDStorage.SizeBelongs`: the recorded size is that of the `WRITE` that a `READ` of it returns
* `RAIDStorage.Overwrites tr v t`: `v` has written bytes of a primary that `t` had written there before
* `RAIDStorage.RecordsInOrder tr`: no `WRITE` records its size after one that has overwritten it

## Main results

* `RAIDStorage.device_of_not_overwritten`: a `WRITE` that is not overwritten is on the device
* `RAIDStorage.sizeBelongs_of_recordsInOrder`: runs in which the records are in order
* `RAIDStorage.late_record_diverges`: two `WRITE`s whose records change places
-/

namespace LDS

open Memory

namespace RAIDStorage

variable {g : Geometry} {ι : Type} {data : ι → DriverData}
  {tr tr₁ tr₂ : List (ι × Exchange (RAIDCall g) RAIDCall.Answer)} {t v w : ι} {offset : Nat}

/-- `v` has written bytes of a primary that `t` had written there before. -/
def Overwrites (tr : List (ι × Exchange (RAIDCall g) RAIDCall.Answer)) (v t : ι) : Prop :=
  ∃ i a buf r a' buf' r',
    [(t, (⟨.minionWrite (g.primary i) a buf, r⟩ : Exchange (RAIDCall g) RAIDCall.Answer)),
      (v, ⟨.minionWrite (g.primary i) a' buf', r'⟩)].Sublist tr ∧
    a < a' + buf'.length ∧ a' < a + buf.length

/-- The exchange is the record of a size. -/
def IsRecord (e : Exchange (RAIDCall g) RAIDCall.Answer) : Prop :=
  ∃ offset size, e.1 = .recordSize offset size

/-- No request records its size after one that has overwritten it: when `t` makes its record, the requests
that have written over bytes of `t` are still to make theirs. -/
def RecordsInOrder (tr : List (ι × Exchange (RAIDCall g) RAIDCall.Answer)) : Prop :=
  ∀ before t e after, tr = before ++ (t, e) :: after → IsRecord e →
    ∀ v, v ≠ t → Overwrites before v t → ∀ e', (v, e') ∈ before → ¬ IsRecord e'

section Recorded

variable {μ τ : Type} [LawfulMinion μ] [IMetadataStore τ]

/-- The size recorded for `offset` is that of one of the requests, and a `READ` of so many bytes there
returns what this request was to write. -/
def SizeBelongs (data : ι → DriverData) (offset : Nat) (s : RAIDStorage μ τ g) : Prop :=
  ∃ w n, (getDataSize offset).run handler s = some (n, s) ∧ n = (data w).buffer.length ∧
    ∀ req : DriverData, req.offset = offset → req.len = n → ∃ reply,
      (read g req).run handler s = some (reply, s) ∧ reply.status = .success ∧
        reply.buffer = (data w).buffer

end Recorded

/-! ## The last record -/

/-- A list with an entry that satisfies `p` has a last one. -/
theorem exists_last {α : Type} {p : α → Prop} {l : List α} (h : ∃ x ∈ l, p x) :
    ∃ l₁ x l₂, l = l₁ ++ x :: l₂ ∧ p x ∧ ∀ y ∈ l₂, ¬ p y := by
  induction l with
  | nil => exact absurd h (by simp)
  | cons x l ih =>
    by_cases hl : ∃ y ∈ l, p y
    · obtain ⟨l₁, y, l₂, rfl, hy, hl₂⟩ := ih hl
      exact ⟨x :: l₁, y, l₂, rfl, hy, hl₂⟩
    · obtain ⟨y, hy, hp⟩ := h
      rcases List.mem_cons.mp hy with rfl | hy
      · exact ⟨[], y, l, rfl, hp, fun z hz hpz => hl ⟨z, hz, hpz⟩⟩
      · exact absurd ⟨y, hy, hp⟩ hl

theorem foldl_recordCall_of_not {es : List (Exchange (RAIDCall g) RAIDCall.Answer)}
    (h : ∀ e ∈ es, ¬ IsRecord e) (m : SizeMap) : es.foldl recordCall m = m := by
  induction es with
  | nil => rfl
  | cons e es ih =>
    obtain ⟨he, hes⟩ := List.forall_mem_cons.mp h
    have hm : recordCall m e = m := by
      obtain ⟨o, a⟩ := e
      cases o with
      | recordSize offset size => exact absurd ⟨offset, size, rfl⟩ he
      | _ => rfl
    rw [List.foldl_cons, hm, ih hes]

/-- The record of a `Write` is its last call. -/
theorem own_eq_nil_of_isRecord [DecidableEq ι] {e : Exchange (RAIDCall g) RAIDCall.Answer}
    (hmade : (Pool.own t (tr₁ ++ (t, e) :: tr₂)).map Sigma.fst = writeScript g (data t))
    (he : IsRecord e) : Pool.own t tr₂ = [] := by
  obtain ⟨o, a⟩ := e
  obtain ⟨offset, size, rfl⟩ := he
  have hown : Pool.own t (tr₁ ++ (t, ⟨.recordSize offset size, a⟩) :: tr₂) =
      Pool.own t tr₁ ++ ⟨.recordSize offset size, a⟩ :: Pool.own t tr₂ := by
    simp [Pool.own, List.filterMap_append]
  rw [hown, List.map_append, List.map_cons] at hmade
  rcases List.eq_nil_or_concat (Pool.own t tr₂) with hnil | ⟨made, e', hlast⟩
  · exact hnil
  -- otherwise the record is one of the calls for the chunks
  rw [hlast, List.concat_eq_append, List.map_append, ← List.cons_append, ← List.append_assoc,
    writeScript] at hmade
  obtain ⟨hchunks, -⟩ := List.append_inj' hmade rfl
  have hmem : RAIDCall.recordSize offset size ∈
      (g.chunks (data t).offset (data t).buffer.length 0).flatMap (writeCalls g (data t).buffer) := by
    rw [← hchunks]
    exact List.mem_append_right _ List.mem_cons_self
  obtain ⟨c, -, hc⟩ := List.mem_flatMap.mp hmem
  simp [writeCalls] at hc

/-! ## Runs -/

section Runs

variable {μ τ : Type} [LawfulMinion μ] [IMetadataStore τ] [DecidableEq ι] {s₀ s : RAIDStorage μ τ g}
  {T : ι → RAIDProg g DriverData} (hin : ∀ t, g.InRange (data t).offset (data t).buffer.length)
  (hrun : Pool.Run NoFailures (fun t => write g (data t)) s₀ tr T s)

include hin

omit [DecidableEq ι] in
/-- The bytes that a `WRITE` is to write are those of its buffer. -/
theorem inRange_requestLen (t : ι) : g.InRange (data t).offset (requestLen true (data t)) := hin t

include hrun

theorem writeScript_of_done (hdone : (T t).value?.isSome) :
    (Pool.own t tr).map Sigma.fst = writeScript g (data t) := by
  obtain ⟨v, hv⟩ := Option.isSome_iff_exists.mp hdone
  exact (run_done (inRange_requestLen hin) hrun (Prog.value?_eq_some.mp hv)).1

/-- Of two requests that write an address, the one that comes to the primary later overwrites the other. -/
theorem overwrites_of_covers {x : Nat} {e e' : Exchange (RAIDCall g) RAIDCall.Answer}
    (hsub : [(w, e), (v, e')].Sublist (tr.filter (point (g.primaryIndex x))))
    (hw : Covers true (data w) x) (hv : Covers true (data v) x) : Overwrites tr v w := by
  have hmem : ∀ p ∈ [(w, e), (v, e')], p ∈ tr ∧ point (g.primaryIndex x) p = true := fun p hp =>
    List.mem_filter.mp (hsub.subset hp)
  obtain ⟨he, hk⟩ := hmem (w, e) List.mem_cons_self
  obtain ⟨he', hk'⟩ := hmem (v, e') (List.mem_cons_of_mem _ List.mem_cons_self)
  obtain ⟨hlen, ho⟩ := point_eq (inRange_requestLen hin) hrun he hk
  obtain ⟨hlen', ho'⟩ := point_eq (inRange_requestLen hin) hrun he' hk'
  obtain ⟨hs, hr, hpi, -, -⟩ := @fragment_bounds g _ ι (fun _ => true) data w (hin w) hlen
  obtain ⟨hs', hr', hpi', -, -⟩ := @fragment_bounds g _ ι (fun _ => true) data v (hin v) hlen'
  obtain ⟨hlo, hhi⟩ := Geometry.mem_fragment (hin w) hw.1 hw.2 rfl
  obtain ⟨hlo', hhi'⟩ := Geometry.mem_fragment (hin v) hv.1 hv.2 rfl
  -- both fragments hold the address, so their ranges meet
  have hx := Geometry.localOffset_mem hr hs hlo hhi
  have hx' := Geometry.localOffset_mem hr' hs' hlo' hhi'
  have hl := @length_fragment g _ ι (fun _ => true) data w (hin w) rfl hlen
  have hl' := @length_fragment g _ ι (fun _ => true) data v (hin v) rfl hlen'
  rw [primaryCall, if_pos rfl, hpi] at ho
  rw [primaryCall, if_pos rfl, hpi'] at ho'
  obtain ⟨o, r⟩ := e
  obtain ⟨o', r'⟩ := e'
  obtain rfl := ho
  obtain rfl := ho'
  refine ⟨g.primaryIndex x, _, _, r, _, _, r', hsub.trans List.filter_sublist, ?_⟩
  rw [hl, hl']
  omega

/-- **A `WRITE` that is not overwritten** is on the device when it is done. -/
theorem device_of_not_overwritten (hdone : (T w).value?.isSome)
    (hnot : ∀ v, v ≠ w → ¬ Overwrites tr v w) :
    load s.device (data w).offset (data w).buffer.length = (data w).buffer := by
  obtain ⟨d, hd⟩ := Option.isSome_iff_exists.mp hdone
  rw [Prog.value?_eq_some] at hd
  refine List.ext_getElem? fun j => ?_
  rcases Nat.lt_or_ge j (data w).buffer.length with hj | hj
  · rw [getElem?_load hj]
    -- the call to the primary of the stripe that the address is in
    have hcap := hin w (by omega)
    generalize hx : (data w).offset + j = x
    have hcov : Covers true (data w) x := by
      constructor
      · omega
      · rw [requestLen, if_pos rfl]
        omega
    have hlin := linearization (inRange_requestLen hin) hrun (g.primaryIndex x)
    obtain ⟨hlo, hhi⟩ := Geometry.mem_fragment (hin w) hcov.1 hcov.2 rfl
    have hret : Returned (g.primaryIndex x) (fun _ => true) data T w none := by
      refine ⟨?_, d, hd, rfl⟩
      show 0 < (g.fragment (g.primaryIndex x) (data w).offset (data w).buffer.length).len
      omega
    obtain ⟨⟨w, e⟩, he, rfl⟩ := List.mem_map.mp (hlin.complete w none hret)
    obtain ⟨l₁, l₂, hpoints⟩ := List.append_of_mem he
    have hnodup := hlin.nodup
    rw [hpoints, List.map_append, List.map_cons] at hnodup
    have hrange : g.InRange x 1 := by
      intro _
      omega
    rw [device_eq_stripeAfter (inRange_requestLen hin) hrun hrange rfl, stripeAfter, hpoints,
      List.map_append, List.foldl_append, List.map_cons, List.foldl_cons, foldl_next_of_not_covers hin]
    · rw [next_of_covers (hin _) rfl hcov rfl]
      congr 1
      omega
    · -- nobody has come to that primary later, for that address
      intro v hv _ hcov'
      obtain ⟨⟨v, e'⟩, he', rfl⟩ := List.mem_map.mp hv
      have hsub : [(w, e), (v, e')].Sublist (tr.filter (point (g.primaryIndex x))) := by
        rw [hpoints]
        exact (List.Sublist.cons_cons _ (List.singleton_sublist.mpr he')).trans
          (List.sublist_append_right _ _)
      refine hnot _ ?_ (overwrites_of_covers hin hrun hsub hcov hcov')
      rintro rfl
      exact (List.nodup_cons.mp (List.nodup_append.mp hnodup).2.1).1 hv
  · rw [List.getElem?_eq_none hj, List.getElem?_eq_none (by rwa [length_load])]

/-- The request that makes the last record has not been overwritten, if the records are in order. -/
theorem not_overwritten_of_last {e : Exchange (RAIDCall g) RAIDCall.Answer}
    (hdone : ∀ t, (T t).value?.isSome) (horder : RecordsInOrder tr) (htr : tr = tr₁ ++ (w, e) :: tr₂)
    (he : IsRecord e) (hlast : ∀ p ∈ tr₂, ¬ IsRecord p.2) (hv : v ≠ w) : ¬ Overwrites tr v w := by
  rintro ⟨i, a, buf, r, a', buf', r', hsub, hover⟩
  have hmade := writeScript_of_done hin hrun (hdone v)
  -- `v` has made its record before
  have hrec : .recordSize (data v).offset (data v).buffer.length ∈ (Pool.own v tr).map Sigma.fst := by
    rw [hmade]
    exact recordSize_mem_writeScript (data v)
  obtain ⟨e', he', ho⟩ := List.mem_map.mp hrec
  have hrec' : IsRecord e' := ⟨_, _, ho⟩
  have hmem : (v, e') ∈ tr₁ := by
    have hin := Pool.mem_own.mp he'
    rw [htr] at hin
    rcases List.mem_append.mp hin with h | h
    · exact h
    · rcases List.mem_cons.mp h with h | h
      · exact absurd (congrArg Prod.fst h) hv
      · exact absurd hrec' (hlast _ h)
  -- so its writes are before the last record
  obtain ⟨before, after, rfl⟩ := List.append_of_mem hmem
  rw [List.append_assoc, List.cons_append] at htr
  rw [htr] at hmade
  have hnil := own_eq_nil_of_isRecord hmade hrec'
  rw [Pool.own_eq_nil] at hnil
  refine horder (before ++ (v, e') :: after) w e tr₂ (by rw [htr]; simp) he v hv ?_ e' (by simp) hrec'
  refine ⟨i, a, buf, r, a', buf', r', ?_, hover⟩
  rw [htr, ← List.cons_append, ← List.append_assoc] at hsub
  obtain ⟨l₁, l₂, hl, h₁, h₂⟩ := List.sublist_append_iff.mp hsub
  rcases List.eq_nil_or_concat l₂ with rfl | ⟨l, p, rfl⟩
  · rw [List.append_nil] at hl
    rwa [hl]
  · rw [List.concat_eq_append, ← List.append_assoc] at hl
    obtain ⟨-, hp⟩ := List.append_inj' (show [_] ++ [_] = _ from hl) rfl
    obtain rfl := List.singleton_injective hp
    rw [List.concat_eq_append] at h₂
    have hmem' := h₂.subset (List.mem_append_right _ (List.mem_singleton_self _))
    rcases List.mem_cons.mp hmem' with h | h
    · exact absurd (congrArg Prod.fst h) hv
    · exact absurd (List.mem_append_right _ (List.mem_cons_of_mem _ h)) (hnil _)

/-- **Concurrent writers to one offset** whose records are in order leave a size that belongs to the
stored data, when they are all done. -/
theorem sizeBelongs_of_recordsInOrder [Nonempty ι] (hoffset : ∀ t, (data t).offset = offset)
    (h₀ : s₀.Sized) (h64 : g.stripeSize < 2 ^ 64) (hdone : ∀ t, (T t).value?.isSome)
    (horder : RecordsInOrder tr) : SizeBelongs data offset s := by
  have hrecorded : ∃ p ∈ tr, IsRecord p.2 := by
    obtain ⟨t⟩ := ‹Nonempty ι›
    have hrec := recordSize_mem_writeScript (g := g) (data t)
    rw [← writeScript_of_done hin hrun (hdone t)] at hrec
    obtain ⟨e, he, ho⟩ := List.mem_map.mp hrec
    exact ⟨(t, e), Pool.mem_own.mp he, _, _, ho⟩
  obtain ⟨tr₁, ⟨w, e⟩, tr₂, rfl, he, hlast⟩ := exists_last hrecorded
  have hdevice := device_of_not_overwritten hin hrun (hdone w) fun v hv =>
    not_overwritten_of_last hin hrun hdone horder rfl he hlast hv
  have hrun' := hrun.mono fun _ _ _ _ h => h.1
  -- the last record is the one of `w`
  have hsize : s.offsetSizes[offset]? = some (data w).buffer.length := by
    have hscript : e.1 ∈ writeScript g (data w) := by
      rw [← writeScript_of_done hin hrun (hdone w)]
      exact List.mem_map_of_mem (Pool.mem_own.mpr (by simp))
    have hkeep : ∀ e ∈ tr₂.map Prod.snd, ¬ IsRecord e := by
      intro e he
      obtain ⟨p, hp, rfl⟩ := List.mem_map.mp he
      exact hlast p hp
    obtain ⟨o, a⟩ := e
    obtain ⟨offset', size, rfl⟩ := he
    rcases mem_writeScript (hin w) hscript with ⟨i, b, buf, ho, -⟩ | ho
    · cases ho
    · obtain ⟨rfl, rfl⟩ := RAIDCall.recordSize.inj ho
      rw [run_offsetSizes hrun', List.map_append, List.map_cons, List.foldl_append, List.foldl_cons,
        foldl_recordCall_of_not hkeep, recordCall, hoffset w, Std.ExtTreeMap.getElem?_insert_self]
  refine ⟨w, (data w).buffer.length, ?_, rfl, fun req hreq hlen => ⟨_,
    run_read_primary req (run_sized hrun' h₀) h64 ?_, rfl, ?_⟩⟩
  · show some (s.offsetSizes[offset]?.getD 0, s) = _
    rw [hsize]
    rfl
  · rw [hreq, hlen, ← hoffset w]
    exact hin w
  · rw [← hdevice, hoffset w, hreq, hlen]

end Runs

/-! ## Late records -/

/-- Two writes to one offset, of one and of two bytes. -/
def shortAndLong (t : Fin 2) : DriverData :=
  { DriverData.new .write 0 0 0 with buffer := if t.val = 0 then [1] else [2, 3] }

/-- The long request comes first to the primary, and last to the index. -/
theorem late_record_diverges :
    ¬ ∀ (tr : List (Fin 2 × Exchange (RAIDCall ⟨1, 2, by decide⟩) RAIDCall.Answer)) T
        (s : RAIDStorage StorageMinionMemory MemoryMetadataStore ⟨1, 2, by decide⟩),
      Pool.Run NoFailures (fun t => write _ (shortAndLong t)) (inMemory _) tr T s →
      (∀ t, (T t).value?.isSome) → SizeBelongs shortAndLong 0 s := by
  intro h
  have hexec : (Pool.exec handler [1, 0, 0, 1, 0, 1]
      (fun t : Fin 2 => write ⟨1, 2, by decide⟩ (shortAndLong t)) (inMemory _)).map (fun r =>
        (decide (∀ e ∈ r.1, Succeeds e.2.1 e.2.2), decide (∀ t, (r.2.1 t).value?.isSome),
          r.2.2.offsetSizes[0]?,
          ((read ⟨1, 2, by decide⟩ (DriverData.new .read 0 0 2)).run handler r.2.2).map (·.1.buffer))) =
      some (true, true, some 2, some [1, 3]) := by
    decide +kernel
  obtain ⟨⟨tr, T, s⟩, he, hproj⟩ := Option.map_eq_some_iff.mp hexec
  simp only [Prod.mk.injEq, decide_eq_true_eq] at hproj
  obtain ⟨hok, hdone, hsize, hread⟩ := hproj
  have hrun := run_noFailures (Pool.run_of_exec (h := handler) (fun _ _ _ _ => Answers.own) he) hok
  obtain ⟨w, n, hn, hw, hreply⟩ := h tr T s hrun hdone
  have hn : some (s.offsetSizes[0]?.getD 0, s) = some (n, s) := hn
  rw [hsize] at hn
  obtain ⟨rfl, -⟩ := Prod.mk.inj (Option.some.inj hn)
  obtain ⟨reply, hrun', -, hbuffer⟩ := hreply (DriverData.new .read 0 0 2) rfl rfl
  rw [hrun', Option.map_some, hbuffer] at hread
  -- neither of the two wrote what is read
  have hnot : ∀ w : Fin 2, 2 = (shortAndLong w).buffer.length →
      some (shortAndLong w).buffer ≠ some [1, 3] := by decide
  exact hnot w hw hread

/-- The same requests, one after the other. -/
theorem records_in_turn :
    ∃ tr, ∃ T : Fin 2 → _, ∃ s : RAIDStorage StorageMinionMemory MemoryMetadataStore
        ⟨1, 2, by decide⟩,
      Pool.Run NoFailures (fun t => write _ (shortAndLong t)) (inMemory _) tr T s ∧
        SizeBelongs shortAndLong 0 s := by
  have hexec : (Pool.exec handler [0, 0, 0, 1, 1, 1]
      (fun t : Fin 2 => write ⟨1, 2, by decide⟩ (shortAndLong t)) (inMemory _)).map (fun r =>
        (decide (∀ e ∈ r.1, Succeeds e.2.1 e.2.2), decide (∀ t, (r.2.1 t).value?.isSome),
          r.1.map Prod.fst)) = some (true, true, [0, 0, 0, 1, 1, 1]) := by
    decide +kernel
  obtain ⟨⟨tr, T, s⟩, he, hproj⟩ := Option.map_eq_some_iff.mp hexec
  simp only [Prod.mk.injEq, decide_eq_true_eq] at hproj
  obtain ⟨hok, hdone, hfst⟩ := hproj
  have hrun := run_noFailures (Pool.run_of_exec (h := handler) (fun _ _ _ _ => Answers.own) he) hok
  -- nobody comes between two calls of another one
  have horder : RecordsInOrder tr := by
    rintro before t e after rfl - v hv ⟨i, a, buf, r, a', buf', r', hsub, -⟩
    have hbetween := (hsub.append (List.singleton_sublist.mpr
      (List.mem_cons_self : (t, e) ∈ (t, e) :: after))).map Prod.fst
    rw [hfst] at hbetween
    have hnot : ∀ t v : Fin 2, v ≠ t → ¬ [t, v, t].Sublist [0, 0, 0, 1, 1, 1] := by decide
    exact absurd hbetween (hnot t v hv)
  exact ⟨tr, T, s, hrun, sizeBelongs_of_recordsInOrder
    (fun t => Geometry.inRange_of_le (by decide) (by revert t; decide)) hrun (fun _ => rfl)
    (blank_inMemory _).sized (by decide) hdone horder⟩

end RAIDStorage

end LDS
