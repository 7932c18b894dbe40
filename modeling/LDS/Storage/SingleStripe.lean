import LDS.Storage.Linearizability

/-!
# Requests of one stripe

The stripes of the device are linearizable one by one, but a request that spans two of them takes effect at
two moments. Where every request lies in one stripe, it makes one call to a primary, and the calls to all the
primaries together put the requests in one order for the whole device.

## Main definitions

* `RAIDStorage.OneStripe g`: all addresses of a request lie in one stripe
* `RAIDStorage.flatMachine`: the flat device, taking whole requests one at a time
* `RAIDStorage.toPrimary`: the calls to any primary

## Main results

* `RAIDStorage.fragment_eq_whole`: the only fragment of such a request is the request
* `RAIDStorage.flatAfter_eq_stripeAfter`: the flat device goes through what its stripes go through
* `RAIDStorage.linearizable_whole`: the device is linearizable as a whole
-/

namespace LDS

open Memory

namespace RAIDStorage

variable {g : Geometry} {k : Fin g.numPrimary} {ι : Type} {isWrite : ι → Bool} {data : ι → DriverData}
  {t : ι} {o : RAIDCall g}

/-! ## One fragment -/

/-- All addresses of the request lie in one stripe. -/
def OneStripe (g : Geometry) (isWrite : Bool) (data : DriverData) : Prop :=
  ∀ x y, Covers isWrite data x → Covers isWrite data y → g.primaryIndex x = g.primaryIndex y

/-- The fragment of a request of one stripe, in that stripe, is the whole of it. -/
theorem fragment_eq_whole (hr : g.InRange (data t).offset (requestLen (isWrite t) (data t)))
    (hone : OneStripe g (isWrite t) (data t)) (hlen : 0 < (fragment g k (isWrite t) (data t)).len) :
    fragment g k (isWrite t) (data t) = ⟨(data t).offset, requestLen (isWrite t) (data t), 0⟩ := by
  obtain ⟨-, -, hk, hend, hpos⟩ := fragment_bounds hr hlen
  set c := fragment g k (isWrite t) (data t) with hc
  -- the first and the last address are in the stripe that the fragment is in
  have hin : ∀ x, Covers (isWrite t) (data t) x → c.offset ≤ x ∧ x < c.offset + c.len := by
    intro x hx
    have hxk : g.primaryIndex x = k := by
      rw [← hk]
      apply hone x c.offset hx
      unfold Covers
      omega
    exact Geometry.mem_fragment hr hx.1 hx.2 hxk
  have hfirst := hin (data t).offset (by unfold Covers; omega)
  have hlast := hin ((data t).offset + requestLen (isWrite t) (data t) - 1) (by unfold Covers; omega)
  cases hcc : c with
  | mk offset len bufPos =>
    rw [hcc] at hfirst hlast hpos hend
    simp only at hfirst hlast hpos hend
    obtain ⟨rfl, rfl, rfl⟩ : offset = (data t).offset ∧ len = requestLen (isWrite t) (data t) ∧ bufPos = 0 := by
      omega
    rfl

/-- A request of one stripe has no address in a stripe where it has no fragment. -/
theorem not_covers_of_other (hr : g.InRange (data t).offset (requestLen (isWrite t) (data t)))
    (hone : OneStripe g (isWrite t) (data t)) {k' : Fin g.numPrimary}
    (hlen : 0 < (fragment g k' (isWrite t) (data t)).len) {x : Nat} (hx : g.primaryIndex x ≠ k') :
    ¬ Covers (isWrite t) (data t) x := by
  intro hcov
  obtain ⟨-, -, hk', hend, hpos⟩ := fragment_bounds hr hlen
  apply hx
  rw [← hk']
  apply hone x _ hcov
  unfold Covers
  omega

/-! ## The flat device -/

/-- The flat device, taking requests one at a time: a `WRITE` stores its buffer, a `READ` returns the bytes of its
range. -/
def flatMachine (isWrite : ι → Bool) (data : ι → DriverData) : Machine (Nat → Byte) ι (Option (List Byte)) where
  next f t := if isWrite t then store f (data t).offset (data t).buffer else f
  output f t := if isWrite t then none else some (load f (data t).offset (data t).len)

/-- The request has bytes, it is done, and `b` is what it returned: a `READ` its buffer, a `WRITE` nothing. -/
def ReturnedWhole (isWrite : ι → Bool) (data : ι → DriverData) (T : ι → RAIDProg g DriverData) (t : ι)
    (b : Option (List Byte)) : Prop :=
  0 < requestLen (isWrite t) (data t) ∧ ∃ data', T t = .ret data' ∧
    b = if isWrite t then none else some data'.buffer

/-- The call is one to a primary. -/
def toPrimary : RAIDCall g → Bool
  | .minionRead i _ _ => decide (i < g.numPrimary)
  | .minionWrite i _ _ => decide (i < g.numPrimary)
  | _ => false

/-- A call to a primary is one to the primary of a stripe. -/
theorem toPrimary_iff : toPrimary o = true ↔ ∃ k, onPrimary k o = true := by
  have hex : ∀ i : Fin g.numMinions, (i : Nat) < g.numPrimary ↔ ∃ k, i = g.primary k := by
    intro i
    constructor
    · exact fun h => ⟨⟨i, h⟩, rfl⟩
    · rintro ⟨k, rfl⟩
      exact k.isLt
  cases o with
  | minionRead i a buf => simpa [toPrimary, onPrimary] using hex i
  | minionWrite i a buf => simpa [toPrimary, onPrimary] using hex i
  | _ => simp [toPrimary, onPrimary]

/-- A cell of the flat device after a request depends on that cell before it. -/
theorem flat_next_congr {f f' : Nat → Byte} {x : Nat} (h : f x = f' x) :
    (flatMachine isWrite data).next f t x = (flatMachine isWrite data).next f' t x := by
  unfold flatMachine
  by_cases hw : isWrite t
  · simp only [hw, if_true, store, h]
  · simpa only [hw, Bool.false_eq_true, if_false] using h

/-- A request that does not cover an address leaves it as it is. -/
theorem flat_next_of_not_covers {f : Nat → Byte} {x : Nat} (h : ¬ Covers (isWrite t) (data t) x) :
    (flatMachine isWrite data).next f t x = f x := by
  unfold flatMachine
  by_cases hw : isWrite t
  · simp only [hw, if_true]
    apply store_of_not_mem
    intro hx
    apply h
    simpa only [Covers, requestLen, hw, if_true] using hx
  · simp only [hw, Bool.false_eq_true, if_false]

/-- The flat device after a run. -/
def flatAfter (isWrite : ι → Bool) (data : ι → DriverData) (f : Nat → Byte)
    (tr : List (ι × Exchange (RAIDCall g) RAIDCall.Answer)) : Nat → Byte :=
  ((tr.filter fun e => toPrimary e.2.1).map Prod.fst).foldl (flatMachine isWrite data).next f

theorem flatAfter_snoc (f : Nat → Byte) (tr : List (ι × Exchange (RAIDCall g) RAIDCall.Answer)) (t : ι)
    (e : Exchange (RAIDCall g) RAIDCall.Answer) : flatAfter isWrite data f (tr ++ [(t, e)]) =
      if toPrimary e.1 then (flatMachine isWrite data).next (flatAfter isWrite data f tr) t
      else flatAfter isWrite data f tr := by
  unfold flatAfter
  rw [List.filter_append, List.filter_cons]
  split
  · rw [List.map_append, List.foldl_append]
    rfl
  · rw [List.filter_nil, List.append_nil]

/-! ## Runs -/

section

variable {μ τ : Type} [LawfulMinion μ] [IMetadataStore τ] {s₀ s : RAIDStorage μ τ g}
  {T : ι → RAIDProg g DriverData} {tr : List (ι × Exchange (RAIDCall g) RAIDCall.Answer)} [DecidableEq ι]
  (hin : ∀ t, g.InRange (data t).offset (requestLen (isWrite t) (data t)))
  (hone : ∀ t, OneStripe g (isWrite t) (data t))
  (hrun : Pool.Run NoFailures (fun t => request g (isWrite t) (data t)) s₀ tr T s)

include hin hone hrun

/-- The flat device goes through what its stripes go through. -/
theorem flatAfter_eq_stripeAfter (f : Nat → Byte) {x : Nat} (hk : g.primaryIndex x = k) :
    flatAfter isWrite data f tr x = stripeAfter g k isWrite data f tr x := by
  induction hrun with
  | nil => rfl
  | @snoc tr T T' s s' e hr hs ih =>
    obtain ⟨t, e⟩ := e
    rw [flatAfter_snoc, stripeAfter_snoc]
    have hpoint : ∀ k', onPrimary k' e.1 = true → 0 < (fragment g k' (isWrite t) (data t)).len := fun k' hk' =>
      (point_eq hin (hr.snoc hs) (List.mem_append_right _ List.mem_cons_self) hk').1
    by_cases hp : toPrimary e.1
    · rw [if_pos hp]
      obtain ⟨k', hk'⟩ := toPrimary_iff.mp hp
      by_cases hkk : k' = k
      · -- the request lies in the stripe: the flat device stores the same bytes
        subst hkk
        rw [if_pos hk', flat_next_congr ih]
        unfold flatMachine stripeMachine
        simp only [fragment_eq_whole (hin t) (hone t) (hpoint k' hk')]
        by_cases hw : isWrite t
        · simp only [hw, if_true, requestLen, slice_zero_length]
        · simp only [hw, Bool.false_eq_true, if_false]
      · -- the request lies in another stripe
        have hne : ¬ onPrimary k e.1 = true := by
          intro hk₀
          cases hc : e.1 with
          | minionRead i a buf =>
            rw [hc] at hk' hk₀
            simp only [onPrimary, decide_eq_true_eq] at hk' hk₀
            exact hkk (Geometry.primary_injective (hk'.symm.trans hk₀))
          | minionWrite i a buf =>
            rw [hc] at hk' hk₀
            simp only [onPrimary, decide_eq_true_eq] at hk' hk₀
            exact hkk (Geometry.primary_injective (hk'.symm.trans hk₀))
          | _ => rw [hc] at hk'; cases hk'
        rw [if_neg hne, ← ih]
        apply flat_next_of_not_covers
        exact not_covers_of_other (hin t) (hone t) (hpoint k' hk') (by rw [hk]; exact Ne.symm hkk)
    · have hne : ¬ onPrimary k e.1 = true := fun hk₀ => hp (toPrimary_iff.mpr ⟨k, hk₀⟩)
      rw [if_neg hp, if_neg hne]
      exact ih

omit hone in
/-- The request of a call to a primary has a fragment in its stripe. -/
theorem fragment_of_toPrimary {e : Exchange (RAIDCall g) RAIDCall.Answer} (he : (t, e) ∈ tr)
    (hp : toPrimary e.1 = true) : ∃ k, onPrimary k e.1 = true ∧ 0 < (fragment g k (isWrite t) (data t)).len := by
  obtain ⟨k, hk⟩ := toPrimary_iff.mp hp
  exact ⟨k, hk, (point_eq hin hrun he hk).1⟩

/-- A request of one stripe makes one call to a primary at most. -/
theorem length_toPrimary_le (t : ι) : ((Pool.own t tr).filter fun e => toPrimary e.1).length ≤ 1 := by
  by_cases hnil : (Pool.own t tr).filter (fun e => toPrimary e.1) = []
  · rw [hnil]
    exact Nat.zero_le 1
  obtain ⟨e, he⟩ := List.exists_mem_of_ne_nil _ hnil
  obtain ⟨hown, hp⟩ := List.mem_filter.mp he
  obtain ⟨k, hk, hlen⟩ := fragment_of_toPrimary hin hrun (Pool.mem_own.mp hown) hp
  obtain ⟨-, -, hpi, hend, hpos⟩ := fragment_bounds (hin t) hlen
  -- all its calls to primaries are for that one stripe
  have hsame : (Pool.own t tr).filter (fun e => toPrimary e.1) =
      (Pool.own t tr).filter (fun e => onPrimary k e.1) := by
    apply List.filter_congr
    intro e' he'
    rw [Bool.eq_iff_iff]
    constructor
    · intro hp'
      obtain ⟨k', hk', hlen'⟩ := fragment_of_toPrimary hin hrun (Pool.mem_own.mp he') hp'
      obtain ⟨-, -, hpi', hend', hpos'⟩ := fragment_bounds (hin t) hlen'
      have hkk : k' = k := by
        rw [← hpi, ← hpi']
        apply hone t <;> unfold Covers <;> omega
      rwa [hkk] at hk'
    · exact fun hk' => toPrimary_iff.mpr ⟨k, hk'⟩
  obtain ⟨todo, hscript, -⟩ := run_script hin hrun t
  have hle : ((requestScript g (isWrite t) (data t)).filter (onPrimary k)).length ≤ 1 := by
    rw [filter_onPrimary (hin t)]
    split <;> simp
  rw [hscript, List.filter_append, List.filter_map, List.length_append, List.length_map] at hle
  rw [hsame]
  exact (Nat.le_add_right _ _).trans hle

/-- **Linearizability of the whole device.** While no minion fails, requests that each lie in one stripe can be put in
one order, for all stripes together, that respects real time and in which every `READ` returns what the `WRITE`s
before it have made of the device. -/
theorem linearizable_whole : ∃ order, (flatMachine isWrite data).Linearization s₀.device (Pool.Precedes tr)
    (fun t => 0 < requestLen (isWrite t) (data t)) (ReturnedWhole isWrite data T) order := by
  refine ⟨(tr.filter fun e => toPrimary e.2.1).map Prod.fst, ?_⟩
  apply Pool.linearization
  · intro t e he hp
    obtain ⟨k, -, hlen⟩ := fragment_of_toPrimary hin hrun he hp
    obtain ⟨-, -, -, hend, -⟩ := fragment_bounds (hin t) hlen
    omega
  · exact length_toPrimary_le hin hone hrun
  · rintro t b ⟨hlen, data', hT, -⟩
    -- the request has made the call for the stripe of its first address
    have hfrag : 0 < (fragment g (g.primaryIndex (data t).offset) (isWrite t) (data t)).len := by
      obtain ⟨h₁, h₂⟩ := Geometry.mem_fragment (hin t) le_rfl (Nat.lt_add_of_pos_right hlen) rfl
      rw [← fragment] at h₁ h₂
      omega
    obtain ⟨hmade, -⟩ := run_done hin hrun hT
    obtain ⟨hmem, hk⟩ := primaryCall_mem (hin t) hfrag
    rw [← hmade] at hmem
    obtain ⟨e, he, ho⟩ := List.mem_map.mp hmem
    exact ⟨e, Pool.mem_own.mp he, toPrimary_iff.mpr ⟨_, (congrArg (onPrimary _) ho).trans hk⟩⟩
  · rintro tr₁ t e tr₂ b rfl hp ⟨hlen, data', hT, rfl⟩
    cases hw : isWrite t with
    | true => simp only [flatMachine, hw, if_true]
    | false =>
      obtain ⟨k, hk, hfrag⟩ := fragment_of_toPrimary hin hrun (List.mem_append_right _ List.mem_cons_self) hp
      have hwhole := fragment_eq_whole (hin t) (hone t) hfrag
      obtain ⟨-, hrange, hpi, -, -⟩ := fragment_bounds (hin t) hfrag
      -- what the `READ` returns is right for its stripe
      have hlegal := (linearization hin hrun k).legal ((tr₁.filter (point k)).map Prod.fst) t
        ((tr₂.filter (point k)).map Prod.fst) (some (slice data'.buffer
          (fragment g k (isWrite t) (data t)).bufPos (fragment g k (isWrite t) (data t)).len)) (by
            rw [List.filter_append, List.filter_cons, if_pos (show point k (t, e) = true from hk), List.map_append,
              List.map_cons])
        ⟨hfrag, data', hT, by rw [hw]; rfl⟩
      obtain ⟨T₁, s₁, T₂, s₂, hrun₁, -⟩ := hrun.split
      obtain ⟨-, hread⟩ := run_done hin hrun hT
      have hbuf : data'.buffer.length = (data t).len := by
        obtain ⟨todo, hscript, hobeys⟩ := run_script hin hrun t
        rw [hT] at hobeys
        obtain ⟨-, hret⟩ := hobeys.ret_inv
        rw [(hret hw).1]
        exact (hret hw).2.1
      have hreq : requestLen (isWrite t) (data t) = (data t).len := by rw [hw]; rfl
      simp only [stripeMachine, hw, Bool.false_eq_true, if_false, Option.some.injEq] at hlegal
      rw [← hw, hwhole] at hlegal
      simp only [hreq] at hlegal
      rw [slice_self hbuf] at hlegal
      simp only [flatMachine, hw, Bool.false_eq_true, if_false]
      rw [← hlegal]
      refine congrArg some (load_congr fun j hj => ?_)
      -- and the flat device holds there what the stripe does
      rw [hwhole, hreq] at hrange
      rw [hwhole] at hpi
      simp only at hpi ⊢
      apply flatAfter_eq_stripeAfter hin hone hrun₁
      rw [← hpi]
      apply hone t <;> unfold Covers <;> rw [hreq] <;> omega

end

/-- The `READ` of a byte, between the two calls of a `WRITE` of that byte: a device of one stripe. -/
theorem linearizable_whole_between_copies :
    ∃ tr, ∃ T : Fin 2 → _, ∃ s : RAIDStorage StorageMinionMemory MemoryMetadataStore ⟨2, 1, Nat.two_pos⟩,
      Pool.Run NoFailures (fun t => request _ (t = 0) (writeAndRead t)) (inMemory _) tr T s ∧
        ∃ order, (flatMachine (fun t : Fin 2 => decide (t = 0)) writeAndRead).Linearization
          (inMemory ⟨2, 1, Nat.two_pos⟩).device (Pool.Precedes tr)
          (fun t => 0 < requestLen (t = 0) (writeAndRead t))
          (ReturnedWhole (fun t => decide (t = 0)) writeAndRead T) order := by
  have hexec : (Pool.exec handler [0, 1, 0, 0]
      (fun t : Fin 2 => request ⟨2, 1, Nat.two_pos⟩ (t = 0) (writeAndRead t)) (inMemory _)).map (fun r =>
        decide (∀ e ∈ r.1, Succeeds e.2.1 e.2.2)) = some true := by
    decide +kernel
  obtain ⟨⟨tr, T, s⟩, he, hok⟩ := Option.map_eq_some_iff.mp hexec
  have hrun := run_noFailures (Pool.run_of_exec (h := handler) (fun _ _ _ _ => Answers.own) he)
    (of_decide_eq_true hok)
  have hone : ∀ t : Fin 2, OneStripe ⟨2, 1, Nat.two_pos⟩ (t = 0) (writeAndRead t) := by
    intro t
    have hlen : (writeAndRead t).offset = 0 ∧ requestLen (t = 0) (writeAndRead t) = 1 := by
      revert t
      decide
    intro x y hx hy
    unfold Covers at hx hy
    rw [hlen.1, hlen.2] at hx hy
    congr 1
    omega
  exact ⟨tr, T, s, hrun, linearizable_whole
    (fun t => Geometry.inRange_of_le (by decide) (by revert t; decide)) hone hrun⟩

end RAIDStorage

end LDS
