import LDS.Storage.Linearizability

/-!
# Where the bytes come from

Requests may run at the same time, calls of minions may throw, a `Read` that throws may leave anything in
its buffer, and the process may end at any call. Whatever happens, a minion holds at an address only
what a copy held there at first, or what a `WRITE` that has begun carries for that very address; and a `READ`
that succeeds returns nothing else.

## Main definitions

* `RAIDStorage.OnMinion g P i`: what `P` allows on the device, as allowed on the minion `i`
* `RAIDStorage.Sourced`: the bytes that may stand at an address of the device

## Main results

* `RAIDStorage.within_onMinion`, `RAIDStorage.within_of_onMinion`: a chunk on the device and on its minions
* `RAIDStorage.obeys_writeLoop_within`, `RAIDStorage.obeys_readLoop_within`: the loops pass on what is allowed
* `RAIDStorage.answers_within`: the minions store and return what is allowed
* `RAIDStorage.bytes_sourced`: no byte comes from anywhere else
-/

namespace LDS

open Memory

namespace RAIDStorage

variable {g : Geometry} {P : Nat → Byte → Prop}

/-! ## What is allowed on a minion -/

/-- What a minion may hold at a local offset: what `P` allows at the address that it is a copy of. -/
def OnMinion (g : Geometry) (P : Nat → Byte → Prop) (i : Fin g.numMinions) (a : Nat) (b : Byte) : Prop :=
  ∀ x, g.InRange x 1 → (i = g.primary (g.primaryIndex x) ∨ i = g.mirrorIndex (g.primaryIndex x)) →
    g.localOffset x = a → P x b

/-- A copy of a stripe is a copy of no other one. -/
theorem primaryIndex_eq_of_copy {i : Fin g.numMinions} {k k' : Fin g.numPrimary}
    (h : i = g.primary k ∨ i = g.mirrorIndex k) (h' : i = g.primary k' ∨ i = g.mirrorIndex k') : k = k' := by
  rcases h with rfl | rfl <;> rcases h' with h' | h'
  · exact Geometry.primary_injective h'
  · exact absurd h' (Geometry.primary_ne_mirrorIndex _ _)
  · exact absurd h'.symm (Geometry.primary_ne_mirrorIndex _ _)
  · exact Geometry.mirrorIndex_injective h'

/-- The address of a local offset that a chunk inside the device covers. -/
theorem eq_add_of_localOffset {offset x k : Nat} (hcap : g.capacity < 2 ^ 64) (ho : offset < g.capacity)
    (hx : g.InRange x 1)
    (hi : g.primaryIndex x = g.primaryIndex offset) (hl : g.localOffset x = g.localOffset offset + k) :
    x = offset + k := by
  obtain ⟨hx, -⟩ := hx Nat.one_pos
  have hdiv : x / g.stripeSize = offset / g.stripeSize := by
    rw [← Geometry.primaryIndex_eq_div (by omega : x < g.capacity), hi, Geometry.primaryIndex_eq_div ho]
  rw [Geometry.localOffset_eq_mod (by omega) (by omega), Geometry.localOffset_eq_mod ho (by omega)] at hl
  have h₁ := Nat.div_add_mod' x g.stripeSize
  have h₂ := Nat.div_add_mod' offset g.stripeSize
  rw [hdiv] at h₁
  omega

/-- What a chunk carries for the device is allowed on its copies; outside the device nothing is asked. -/
theorem within_onMinion {offset : Nat} {i : Fin g.numMinions} {buf : List Byte} (hcap : g.capacity < 2 ^ 64)
    (ho : offset < 2 ^ 64) (hS : 0 < g.stripeSize)
    (hi : i = g.primary (g.primaryIndex offset) ∨ i = g.mirrorIndex (g.primaryIndex offset))
    (h : Within P offset buf) : Within (OnMinion g P i) (g.localOffset offset) buf := by
  intro k b hk x hx hix hl
  have hlx : g.localOffset x < g.stripeSize := by
    obtain ⟨hxc, -⟩ := hx Nat.one_pos
    rw [Geometry.localOffset_eq_mod (by omega) (by omega)]
    exact Nat.mod_lt _ hS
  by_cases hoc : offset < g.capacity
  · rw [eq_add_of_localOffset hcap hoc hx (primaryIndex_eq_of_copy hix hi) hl]
    exact h k b hk
  · -- no minion has a local offset for what lies outside
    have := Geometry.stripeSize_le_localOffset hS (Nat.le_of_not_lt hoc) ho
    omega

/-- What the copies of a chunk hold is allowed on the device. -/
theorem within_of_onMinion {offset n : Nat} {i : Fin g.numMinions} {buf : List Byte} (hcap : g.capacity < 2 ^ 64)
    (ho : offset < g.capacity) (hn : buf.length ≤ g.chunkLen offset n)
    (hi : i = g.primary (g.primaryIndex offset) ∨ i = g.mirrorIndex (g.primaryIndex offset))
    (h : Within (OnMinion g P i) (g.localOffset offset) buf) : Within P offset buf := by
  intro k b hk
  have hklt : k < buf.length := (List.getElem?_eq_some_iff.mp hk).1
  have hend := Geometry.chunk_end_le ho n
  have hmod : offset % g.stripeSize + k < g.stripeSize := by
    have := Nat.mod_lt offset (Geometry.stripeSize_pos_of_lt ho)
    simp only [Geometry.chunkLen] at hn
    omega
  have hx : g.InRange (offset + k) 1 := fun _ => by omega
  apply h k b hk (offset + k) hx
  · rwa [Geometry.primaryIndex_add (by omega) hmod]
  · exact Geometry.localOffset_add (by omega) (by omega) hmod

/-! ## The programs -/

/-- The contract of a request that is to pass on what `P` allows: the minions take such bytes, and return
them from a range that they have. -/
def passesOn (g : Geometry) (P : Nat → Byte → Prop) : Prog.Contract (RAIDCall g) RAIDCall.Answer Unit :=
  .plain
    (fun
      | .minionRead i a buf => fun r => r.2.length = buf.length ∧
        (r.1 = .ok () → a + buf.length ≤ g.stripeSize ∧ Within (OnMinion g P i) a r.2)
      | .minionWrite _ a buf => fun r => r = .ok () → a + buf.length ≤ g.stripeSize
      | _ => fun _ => True)
    (fun
      | .minionWrite i a buf => Within (OnMinion g P i) a buf
      | _ => True)
    True

/-- A chunk that a minion takes or returns lies inside the device. -/
theorem lt_capacity_of_fits {offset len : Nat} (ho : offset < 2 ^ 64) (hS : 0 < g.stripeSize) (hlen : 0 < len)
    (h : g.localOffset offset + len ≤ g.stripeSize) : offset < g.capacity := by
  by_contra hoc
  have := Geometry.stripeSize_le_localOffset hS (Nat.le_of_not_lt hoc) ho
  omega

/-- The loop of `Write` passes on what its buffer carries, wherever it starts. -/
theorem obeys_writeLoop_within (hcap : g.capacity < 2 ^ 64) (bufPos : Nat) {buffer : List Byte}
    {start remaining : Nat}
    (h : Within P start buffer) (ho : start + bufPos < 2 ^ 64) (hl : bufPos + remaining = buffer.length) :
    Prog.Obeys (passesOn g P) (fun _ _ => True) () (writeLoop g buffer (start + bufPos) remaining bufPos) := by
  induction remaining using Nat.strong_induction_on generalizing bufPos with
  | _ remaining ih =>
    rw [writeLoop]
    split
    · rename_i hr
      split
      · exact .abort trivial
      rename_i hS
      have hS := Nat.pos_of_ne_zero hS
      have hn := Geometry.chunkLen_pos hr hS (start + bufPos)
      have hle := Geometry.chunkLen_le g (start + bufPos) remaining
      have hlen : (slice buffer bufPos (g.chunkLen (start + bufPos) remaining)).length =
          g.chunkLen (start + bufPos) remaining := length_slice (by omega)
      have hchunk := h.slice bufPos (g.chunkLen (start + bufPos) remaining)
      refine .call (within_onMinion hcap ho hS (.inl rfl) hchunk) ?_
      rintro (what | ⟨⟩) hok
      · exact .ret trivial
      -- the primary has taken the chunk; the mirror gets the same one
      refine .call (within_onMinion hcap ho hS (.inr rfl) hchunk) ?_
      rintro (what | ⟨⟩) -
      · exact .ret trivial
      have hoc := lt_capacity_of_fits ho hS (by rwa [hlen]) (hok rfl)
      have hend := Geometry.chunk_end_le hoc remaining
      rw [addSize_eq (by omega), Nat.add_assoc]
      exact ih _ (Geometry.sub_chunkLen_lt hr hS.ne') _ (by omega) (by omega)
    · exact .ret trivial

/-- The part of the buffer that a chunk behind the filled one fills, with the part before it. -/
theorem within_take_overwrite {start bufPos : Nat} {buffer buf : List Byte} (hl : bufPos ≤ buffer.length)
    (h : Within P start (buffer.take bufPos)) (hbuf : Within P (start + bufPos) buf) :
    Within P start ((overwrite buffer bufPos buf).take (bufPos + buf.length)) := by
  have hlen : (buffer.take bufPos ++ buf).length = bufPos + buf.length := by
    rw [List.length_append, List.length_take, Nat.min_eq_left hl]
  rw [overwrite, List.take_left' hlen]
  apply h.append
  rwa [List.length_take, Nat.min_eq_left hl]

/-- The loop of `Read`, when it returns, has filled the buffer with what is allowed. -/
theorem obeys_readLoop_within (hcap : g.capacity < 2 ^ 64) (bufPos : Nat) {buffer : List Byte}
    {start remaining : Nat}
    (h : Within P start (buffer.take bufPos)) (ho : start + bufPos < 2 ^ 64)
    (hl : bufPos + remaining = buffer.length) :
    Prog.Obeys (passesOn g P) (fun _ r => r.1 = .ok () → r.2.length = buffer.length ∧ Within P start r.2) ()
      (readLoop g (start + bufPos) remaining bufPos buffer) := by
  induction remaining using Nat.strong_induction_on generalizing bufPos buffer with
  | _ remaining ih =>
    rw [readLoop]
    split
    · rename_i hr
      split
      · exact .abort trivial
      rename_i hS
      have hS := Nat.pos_of_ne_zero hS
      have hn := Geometry.chunkLen_pos hr hS (start + bufPos)
      have hle := Geometry.chunkLen_le g (start + bufPos) remaining
      -- what either copy returns fills the next part of the buffer
      have hnext : ∀ i buf, (i = g.primary (g.primaryIndex (start + bufPos)) ∨
            i = g.mirrorIndex (g.primaryIndex (start + bufPos))) →
          buf.length = g.chunkLen (start + bufPos) remaining →
          g.localOffset (start + bufPos) + buf.length ≤ g.stripeSize →
          Within (OnMinion g P i) (g.localOffset (start + bufPos)) buf →
          Prog.Obeys (passesOn g P) (fun _ r => r.1 = .ok () → r.2.length = buffer.length ∧ Within P start r.2) ()
            (readLoop g (addSize (start + bufPos) (g.chunkLen (start + bufPos) remaining))
              (remaining - g.chunkLen (start + bufPos) remaining)
              (bufPos + g.chunkLen (start + bufPos) remaining) (overwrite buffer bufPos buf)) := by
        intro i buf hi hlen hfit hw
        have hoc := lt_capacity_of_fits ho hS (by rwa [hlen]) hfit
        have hend := Geometry.chunk_end_le hoc remaining
        have hov : (overwrite buffer bufPos buf).length = buffer.length := length_overwrite (by omega)
        have hin := within_take_overwrite (by omega) h (within_of_onMinion hcap hoc hlen.le hi hw)
        rw [hlen] at hin
        rw [addSize_eq (by omega), Nat.add_assoc, ← hov]
        exact ih _ (Geometry.sub_chunkLen_lt hr hS.ne') _ hin (by omega) (by omega)
      refine .call trivial ?_
      rintro ⟨what | ⟨⟩, tempBuf⟩ ⟨hlen, hok⟩
      · -- the primary throws, and the mirror is read into what it has left
        refine .call trivial ?_
        rintro ⟨what | ⟨⟩, tempBuf'⟩ ⟨hlen', hok'⟩
        · exact .ret fun he => by cases he
        · obtain ⟨hfit, hw⟩ := hok' rfl
          simp only [List.length_replicate] at hlen hlen' hfit
          exact hnext _ _ (.inr rfl) (hlen'.trans hlen) (by rwa [hlen']) hw
      · obtain ⟨hfit, hw⟩ := hok rfl
        simp only [List.length_replicate] at hlen hfit
        exact hnext _ _ (.inl rfl) hlen (by rwa [hlen]) hw
    · rename_i hr
      refine .ret fun _ => ⟨rfl, ?_⟩
      rwa [List.take_of_length_le (by omega)] at h

/-- A request passes on what a `WRITE` carries; a `READ` that succeeds has a whole buffer of what is
allowed. -/
theorem obeys_request_within (hcap : g.capacity < 2 ^ 64) {isWrite : Bool} {data : DriverData}
    (ho : data.offset < 2 ^ 64) (h : isWrite = true → Within P data.offset data.buffer) :
    Prog.Obeys (passesOn g P) (fun _ data' => isWrite = false → data'.status = .success →
      data'.buffer.length = data.len ∧ Within P data.offset data'.buffer) () (request g isWrite data) := by
  unfold request
  by_cases hw : isWrite
  · rw [if_pos hw, write]
    refine (obeys_writeLoop_within hcap 0 (h hw) ho (Nat.zero_add _)).bind ?_
    rintro _ (what | ⟨⟩) -
    · exact .ret fun hr => by rw [hw] at hr; cases hr
    · refine .call trivial ?_
      rintro (what | ⟨⟩) - <;> exact .ret fun hr => by rw [hw] at hr; cases hr
  · rw [if_neg hw, read]
    have hlen := length_readBuffer data
    refine (obeys_readLoop_within hcap 0 (by simpa using within_nil) ho (by omega)).bind ?_
    rintro _ ⟨what | ⟨⟩, buf⟩ hok
    · exact .ret fun _ hs => by cases hs
    · refine .ret fun _ _ => ?_
      obtain ⟨hl, hin⟩ := hok rfl
      exact ⟨hl.trans hlen, hin⟩

/-! ## The minions -/

variable {μ τ : Type} [LawfulMinion μ] [IMetadataStore τ] {s s' s₀ : RAIDStorage μ τ g}

/-- Every minion holds what is allowed. -/
structure Holding (P : Nat → Byte → Prop) (s : RAIDStorage μ τ g) : Prop where
  sized : s.Sized
  cells : ∀ i a, OnMinion g P i a (s.cells i a)

/-- A `Read` of a minion returns a range that the minion has, or throws. -/
theorem fits_of_answers_minionRead {i : Fin g.numMinions} {a : Nat} {buf : List Byte}
    {r : Except String Unit × List Byte} (h : Answers s (.minionRead i a buf) r s') (hr : r.1 = .ok ()) :
    a + buf.length ≤ IStorageMinion.size (s.minions i) := by
  rcases h with h | hl
  · obtain ⟨a', ha, he⟩ := Option.map_eq_some_iff.mp h
    obtain ⟨rfl, rfl⟩ := Prod.mk.inj he
    obtain rfl : a' = .ok () := hr
    exact (LawfulMinion.read_ok _ _ _ (Outcome.answer?_eq_ok.mp ha)).1
  · cases hr

/-- Minions that hold what is allowed, and are given nothing else, go on to hold it and return nothing
else. -/
theorem answers_within {o : RAIDCall g} {a : o.Answer} (hs : Holding P s) (ho : (passesOn g P).calls () o)
    (h : Answers s o a s') : (passesOn g P).answers () o a ∧ Holding P s' := by
  have hsized : s'.Sized := fun i => (answers_size h i).trans (hs.sized i)
  cases o with
  | minionRead i b buf =>
    obtain ⟨rfl, hlen, hload⟩ := answers_minionRead h
    refine ⟨⟨hlen, fun hok => ⟨?_, ?_⟩⟩, hs⟩
    · rw [← hs.sized i]
      exact fits_of_answers_minionRead h hok
    · rw [hload hok]
      exact within_load (hs.cells i)
  | minionWrite i b buf =>
    obtain ⟨-, ⟨-, hfit, hcells⟩ | ⟨what, rfl, hcells⟩⟩ := answers_minionWrite h
    · refine ⟨fun _ => hs.sized i ▸ hfit, hsized, fun j => ?_⟩
      rw [hcells]
      rcases eq_or_ne j i with rfl | hj
      · rw [Function.update_self]
        exact within_store (hs.cells j) ho
      · rw [Function.update_of_ne hj]
        exact hs.cells j
    · refine ⟨fun he => (by cases he), hsized, fun j => ?_⟩
      rw [hcells]
      exact hs.cells j
  | recordSize b n =>
    refine ⟨trivial, hsized, fun j => ?_⟩
    rw [cells_of_noWrite (fun _ _ _ he => by cases he) h]
    exact hs.cells j
  | getDataSize b =>
    refine ⟨trivial, hsized, fun j => ?_⟩
    rw [cells_of_noWrite (fun _ _ _ he => by cases he) h]
    exact hs.cells j
  | listOffsets =>
    refine ⟨trivial, hsized, fun j => ?_⟩
    rw [cells_of_noWrite (fun _ _ _ he => by cases he) h]
    exact hs.cells j

/-! ## Runs -/

variable {ι : Type} [DecidableEq ι] {isWrite : ι → Bool} {data : ι → DriverData}
  {T : ι → RAIDProg g DriverData} {tr : List (ι × Exchange (RAIDCall g) RAIDCall.Answer)}

/-- The bytes that may stand at an address after the exchanges `tr`: what one of the two copies held there at
first, and what a `WRITE` that has begun carries for it. -/
inductive Sourced (s₀ : RAIDStorage μ τ g) (isWrite : ι → Bool) (data : ι → DriverData)
    (tr : List (ι × Exchange (RAIDCall g) RAIDCall.Answer)) (x : Nat) : Byte → Prop
  | primary : Sourced s₀ isWrite data tr x (s₀.device x)
  | mirror : Sourced s₀ isWrite data tr x (s₀.mirrorDevice x)
  | written {t : ι} {k : Nat} {b : Byte} (hw : isWrite t = true) (hown : Pool.own t tr ≠ [])
      (hx : (data t).offset + k = x) (hb : (data t).buffer[k]? = some b) :
      Sourced s₀ isWrite data tr x b

omit [IMetadataStore τ] in
/-- At first every minion holds what its copy of the device does. -/
theorem holding_sourced (hz : s₀.Sized) : Holding (Sourced s₀ isWrite data tr) s₀ := by
  refine ⟨hz, fun i a x _ hi hl => ?_⟩
  subst hl
  rcases hi with rfl | rfl
  · exact .primary
  · exact .mirror

/-- The requests of the run, a `WRITE` that has not begun without its bytes. -/
def begun (isWrite : ι → Bool) (data : ι → DriverData)
    (tr : List (ι × Exchange (RAIDCall g) RAIDCall.Answer)) (t : ι) : DriverData :=
  if isWrite t = true ∧ Pool.own t tr = [] then { data t with buffer := [] } else data t

/-- **No byte out of thin air.** Whatever fails, and wherever a run stops, both copies of an address hold what
one of them held at first or what a `WRITE` that has begun carries for it, and the whole buffer of a `READ`
that succeeds is made of such bytes. -/
theorem bytes_sourced (hcap : g.capacity < 2 ^ 64) (hz : s₀.Sized) (ho : ∀ t, (data t).offset < 2 ^ 64)
    (hr : Pool.Run Answers (fun t => request g (isWrite t) (data t)) s₀ tr T s) :
    (∀ x, g.InRange x 1 →
      Sourced s₀ isWrite data tr x (s.device x) ∧ Sourced s₀ isWrite data tr x (s.mirrorDevice x)) ∧
    ∀ t data', isWrite t = false → T t = .ret data' → data'.status = .success →
      data'.buffer.length = (data t).len ∧
        Within (Sourced s₀ isWrite data tr) (data t).offset data'.buffer := by
  -- a request that has made no call may have been one that carries nothing
  obtain ⟨T', hr', hT'⟩ := Pool.Run.replace
    (fun t => request g (isWrite t) (begun isWrite data tr t)) hr (by
    intro t hown
    rw [begun, if_neg fun h => hown h.2])
  have hobeys : ∀ t, Prog.Obeys (passesOn g (Sourced s₀ isWrite data tr)) (fun _ data' => isWrite t = false →
      data'.status = .success → data'.buffer.length = (begun isWrite data tr t).len ∧
        Within (Sourced s₀ isWrite data tr) (begun isWrite data tr t).offset data'.buffer) ()
      (request g (isWrite t) (begun isWrite data tr t)) := by
    intro t
    apply obeys_request_within hcap
    · rw [begun]
      split <;> exact ho t
    · intro hw
      rw [begun]
      split
      · exact within_nil
      · rename_i hown
        exact fun k b hb => .written hw (fun he => hown ⟨hw, he⟩) rfl hb
  obtain ⟨hs, hend⟩ := hr'.keeps (I := Holding (Sourced s₀ isWrite data tr)) (holding_sourced hz)
    (fun _ _ _ _ hs ho h => answers_within hs ho h) hobeys
  refine ⟨fun x hx => ⟨?_, ?_⟩, fun t data' hw hT hsuccess => ?_⟩
  · exact hs.cells _ _ x hx (.inl rfl) rfl
  · exact hs.cells _ _ x hx (.inr rfl) rfl
  · have hbegun : begun isWrite data tr t = data t := by rw [begun, if_neg (by simp [hw])]
    have hret := hend t
    rw [hT' t (by rw [hbegun]), hT, hbegun] at hret
    exact hret.ret_inv hw hsuccess

/-- A `READ` while its primary throws, with its buffer spoilt, between the two copies of a `WRITE`: it gets what
the mirror still holds. -/
theorem bytes_sourced_failover : ∃ tr, ∃ T : Fin 2 → _, ∃ s : RAIDStorage StorageMinionMemory MemoryMetadataStore
      ⟨1, 1, Nat.one_pos⟩, ∃ data',
    Pool.Run Answers (fun t => request _ (t = 0) (writeAndRead t)) (inMemory _) tr T s ∧ T 1 = .ret data' ∧
      data'.buffer = [0] ∧ Within (Sourced (inMemory ⟨1, 1, Nat.one_pos⟩) (fun t : Fin 2 => decide (t = 0))
        writeAndRead tr) 0 data'.buffer := by
  have hexec : (Pool.exec (faultyReads fun i _ => if i = 0 then some ("pread failed", [9]) else none) [0, 1, 1, 0]
      (fun t : Fin 2 => request ⟨1, 1, Nat.one_pos⟩ (t = 0) (writeAndRead t)) (inMemory _)).map (fun r =>
        (r.2.1 1).value?.map fun data' => (data'.status, data'.buffer)) = some (some (.success, [0])) := by
    decide +kernel
  obtain ⟨⟨tr, T, s⟩, he, hT⟩ := Option.map_eq_some_iff.mp hexec
  obtain ⟨data', hv, hdata⟩ := Option.map_eq_some_iff.mp hT
  obtain ⟨hstatus, hbuf⟩ := Prod.mk.inj hdata
  have hrun := Pool.run_of_exec (R := Answers) (fun _ _ _ _ => answers_faultyReads) he
  have hret := Prog.value?_eq_some.mp hv
  refine ⟨tr, T, s, data', hrun, hret, hbuf, ?_⟩
  exact ((bytes_sourced (by decide) (fun _ => rfl) (fun t => by revert t; decide) hrun).2 1 data' rfl hret
    hstatus).2

end RAIDStorage

end LDS
