import LDS.Library.Linearization
import LDS.Storage.Scripts

/-!
# Linearizability

Requests that run side by side meet on the minions: each stripe of the device lives on one primary, and
a request that has bytes in the stripe makes one call to that primary, for all of them. The calls to a
primary therefore put the fragments of its stripe in an order, and while no minion fails each fragment
takes effect at its call. The mirror writes lag behind, and no `Read` looks at them.

## Main definitions

* `Geometry.fragment g k offset len`: the part of a range in the stripe `k`
* `RAIDStorage.stripeMachine`: what the fragments of a stripe do, one at a time
* `RAIDStorage.Returned`: what a request that is done has returned for the stripe
* `RAIDStorage.onPrimary k`: the calls to the primary of the stripe

## Main results

* `Geometry.mem_chunks_iff`: the chunk of a range in a stripe is its fragment
* `RAIDStorage.device_point`: a stripe changes as its machine does, at the calls to its primary
* `RAIDStorage.linearization`: the fragments of a stripe are linearizable
* `RAIDStorage.linearizable`: so in all stripes, and a `READ` sees the `WRITE`s that were answered
-/

namespace LDS

open Memory

/-! ## Fragments -/

namespace Geometry

variable {g : Geometry} {offset len x : Nat} {k : Fin g.numPrimary} {c c' : Chunk}

/-- The part of a range that lies in the stripe `k`, as a chunk of the range. -/
def fragment (g : Geometry) (k : Fin g.numPrimary) (offset len : Nat) : Chunk where
  offset := max offset (k * g.stripeSize)
  len := min (offset + len) ((k + 1) * g.stripeSize) - max offset (k * g.stripeSize)
  bufPos := max offset (k * g.stripeSize) - offset

/-- The addresses of a stripe. -/
theorem primaryIndex_eq_iff (h : x < g.capacity) :
    g.primaryIndex x = k ↔ k * g.stripeSize ≤ x ∧ x < (k + 1) * g.stripeSize := by
  have hS := stripeSize_pos_of_lt h
  rw [Fin.ext_iff, primaryIndex_eq_div h, Nat.div_eq_iff hS]
  constructor
  · rintro ⟨h₁, h₂⟩
    rw [Nat.succ_mul]
    omega
  · rintro ⟨h₁, h₂⟩
    rw [Nat.succ_mul] at h₂
    omega

/-- The chunks of a range lie in different stripes. -/
theorem eq_of_mem_chunks (h : g.InRange offset len) (hc : c ∈ g.chunks offset len 0)
    (hc' : c' ∈ g.chunks offset len 0) (he : g.primaryIndex c.offset = g.primaryIndex c'.offset) :
    c = c' := by
  have : Std.Symm fun c c' : Chunk => g.primaryIndex c.offset ≠ g.primaryIndex c'.offset :=
    ⟨fun _ _ hne => hne.symm⟩
  by_contra hne
  exact (pairwise_primaryIndex_chunks h 0).forall hc hc' hne he

/-- The address `x` of a range is in the chunk of its stripe. -/
theorem mem_chunk_of_primaryIndex (h : g.InRange offset len) (hc : c ∈ g.chunks offset len 0)
    (h₁ : offset ≤ x) (h₂ : x < offset + len) (he : g.primaryIndex x = g.primaryIndex c.offset) :
    c.offset ≤ x ∧ x < c.offset + c.len := by
  obtain ⟨c', hc', hle, hlt⟩ := (partition_chunks h 0).exists_mem h₁ h₂
  obtain ⟨-, hs, hin, -, -, -⟩ := (partition_chunks h 0).mem hc'
  obtain ⟨hcap, -⟩ := hin (by omega)
  obtain ⟨d, rfl⟩ := Nat.exists_eq_add_of_le hle
  rw [primaryIndex_add (by omega) (by omega)] at he
  obtain rfl := eq_of_mem_chunks h hc' hc he
  exact ⟨hle, hlt⟩

/-- **The chunk of a range in a stripe** is its fragment there. -/
theorem mem_chunks_iff (h : g.InRange offset len) :
    c ∈ g.chunks offset len 0 ∧ g.primaryIndex c.offset = k ↔
      0 < (g.fragment k offset len).len ∧ c = g.fragment k offset len := by
  have heq : ∀ c ∈ g.chunks offset len 0, g.primaryIndex c.offset = k → c = g.fragment k offset len := by
    intro c hc hk
    obtain ⟨hlen, hs, hin, hle, hend, hpos⟩ := (partition_chunks h 0).mem hc
    obtain ⟨hcap, -⟩ := hin hlen
    obtain ⟨h₁, h₂⟩ := (primaryIndex_eq_iff (by omega)).mp hk
    -- the first and the last address of the fragment are in the stripe of the chunk
    have hfirst := mem_chunk_of_primaryIndex h hc (Nat.le_max_left offset (k * g.stripeSize))
      (by omega) (((primaryIndex_eq_iff (by omega)).mpr (by omega)).trans hk.symm)
    have hcap' := (h (by omega)).1
    have hlast := mem_chunk_of_primaryIndex (x := min (offset + len) ((k + 1) * g.stripeSize) - 1) h hc
      (by omega) (by omega) (((primaryIndex_eq_iff (by omega)).mpr (by omega)).trans hk.symm)
    have hc₂ : c.offset + c.len ≤ (k + 1) * g.stripeSize := by
      have hd : (g.primaryIndex c.offset : Nat) = c.offset / g.stripeSize :=
        primaryIndex_eq_div (by omega)
      have hm := Nat.div_add_mod' c.offset g.stripeSize
      rw [← hd, hk] at hm
      rw [Nat.succ_mul]
      omega
    obtain ⟨o, n, b⟩ := c
    simp only [fragment, Chunk.mk.injEq] at *
    omega
  constructor
  · rintro ⟨hc, hk⟩
    have hlen := ((partition_chunks h 0).mem hc).1
    rw [heq c hc hk] at hlen
    exact ⟨hlen, heq c hc hk⟩
  · rintro ⟨hlen, rfl⟩
    have hlen' := hlen
    simp only [fragment] at hlen'
    have hcap := (h (by omega)).1
    -- the chunk that the first address of the fragment is in
    obtain ⟨c, hc, hle, hlt⟩ := (partition_chunks h 0).exists_mem
      (Nat.le_max_left offset (k * g.stripeSize)) (by omega)
    obtain ⟨-, hs, hin, -, -, -⟩ := (partition_chunks h 0).mem hc
    have hk : g.primaryIndex (max offset (k * g.stripeSize)) = k :=
      (primaryIndex_eq_iff (by omega)).mpr (by omega)
    obtain ⟨d, hd⟩ := Nat.exists_eq_add_of_le hle
    rw [hd, primaryIndex_add (by omega) (by omega)] at hk
    rw [← heq c hc hk]
    exact ⟨hc, hk⟩

/-- The chunks of a range in one stripe. -/
theorem filter_chunks (h : g.InRange offset len) (k : Fin g.numPrimary) :
    (g.chunks offset len 0).filter (fun c => g.primaryIndex c.offset = k) =
      if 0 < (g.fragment k offset len).len then [g.fragment k offset len] else [] := by
  have hnodup : (g.chunks offset len 0).Nodup := (pairwise_primaryIndex_chunks h 0).imp
    fun hne he => hne (congrArg (fun c => g.primaryIndex c.offset) he)
  -- no two chunks have the same primary
  have hn := hnodup.filter fun c => decide (g.primaryIndex c.offset = k)
  split
  · rename_i hlen
    refine List.perm_singleton.mp ((List.perm_ext_iff_of_nodup hn (List.nodup_singleton _)).mpr fun c => ?_)
    rw [List.mem_filter, decide_eq_true_iff, mem_chunks_iff h, List.mem_singleton]
    exact and_iff_right hlen
  · rename_i hlen
    refine List.eq_nil_iff_forall_not_mem.mpr fun c hc => hlen ?_
    rw [List.mem_filter, decide_eq_true_iff, mem_chunks_iff h] at hc
    exact hc.1

/-- The addresses of a range in a stripe are those of its fragment. -/
theorem mem_fragment (h : g.InRange offset len) (h₁ : offset ≤ x) (h₂ : x < offset + len)
    (hk : g.primaryIndex x = k) : (g.fragment k offset len).offset ≤ x ∧
      x < (g.fragment k offset len).offset + (g.fragment k offset len).len := by
  obtain ⟨hcap, -⟩ := h (by omega)
  obtain ⟨hlo, hhi⟩ := (primaryIndex_eq_iff (by omega)).mp hk
  simp only [fragment]
  omega

/-- The addresses of a range of one stripe, on the minion. -/
theorem localOffset_mem {n : Nat} (h : g.InRange offset n)
    (hs : offset % g.stripeSize + n ≤ g.stripeSize) (h₁ : offset ≤ x) (h₂ : x < offset + n) :
    g.localOffset offset ≤ g.localOffset x ∧ g.localOffset x < g.localOffset offset + n := by
  obtain ⟨d, rfl⟩ := Nat.exists_eq_add_of_le h₁
  obtain ⟨hcap, h64⟩ := h (by omega)
  rw [localOffset_add (by omega) (by omega) (by omega)]
  omega

/-- The bytes before a chunk are those of the chunks before it. -/
theorem Partition.sum_len {remaining bufPos : Nat} {cs₁ cs₂ : List Chunk}
    (hp : g.Partition offset remaining bufPos (cs₁ ++ c :: cs₂)) :
    bufPos + (cs₁.map Chunk.len).sum = c.bufPos := by
  induction cs₁ generalizing offset remaining bufPos with
  | nil => cases hp; simp
  | cons c' cs₁ ih =>
    cases hp with
    | @cons _ n _ _ _ _ _ _ hp =>
      rw [List.map_cons, List.sum_cons, ← ih hp, Nat.add_assoc]

end Geometry

/-! ## The machine of a stripe -/

namespace RAIDStorage

variable {g : Geometry} {k : Fin g.numPrimary} {ι : Type} {isWrite : ι → Bool} {data : ι → DriverData}
  {t : ι} {o : RAIDCall g}

/-- The part of a request that lies in the stripe `k`. -/
def fragment (g : Geometry) (k : Fin g.numPrimary) (isWrite : Bool) (data : DriverData) : Chunk :=
  g.fragment k data.offset (requestLen isWrite data)

/-- The stripe `k` of the device, taking fragments one at a time: that of a `WRITE` stores its bytes, that
of a `READ` returns the bytes of its range. -/
def stripeMachine (g : Geometry) (k : Fin g.numPrimary) (isWrite : ι → Bool) (data : ι → DriverData) :
    Machine (Nat → Byte) ι (Option (List Byte)) where
  next f t :=
    let c := fragment g k (isWrite t) (data t)
    if isWrite t then store f c.offset (slice (data t).buffer c.bufPos c.len) else f
  output f t :=
    let c := fragment g k (isWrite t) (data t)
    if isWrite t then none else some (load f c.offset c.len)

/-- The address `x` is in the range of the request. -/
def Covers (isWrite : Bool) (data : DriverData) (x : Nat) : Prop :=
  data.offset ≤ x ∧ x < data.offset + requestLen isWrite data

/-- The request is done, it has a fragment in the stripe `k`, and `b` is what it returned for it: a
`READ` the bytes at their place in its buffer, a `WRITE` nothing. -/
def Returned (k : Fin g.numPrimary) (isWrite : ι → Bool) (data : ι → DriverData)
    (T : ι → RAIDProg g DriverData) (t : ι) (b : Option (List Byte)) : Prop :=
  let c := fragment g k (isWrite t) (data t)
  0 < c.len ∧ ∃ data', T t = .ret data' ∧
    b = if isWrite t then none else some (slice data'.buffer c.bufPos c.len)

/-! ## The calls to the primary of a stripe -/

/-- The call is one to the primary of the stripe `k`. -/
def onPrimary (k : Fin g.numPrimary) : RAIDCall g → Bool
  | .minionRead i _ _ => i = g.primary k
  | .minionWrite i _ _ => i = g.primary k
  | _ => false

/-- The call of a request to the primary of the chunk `c`. -/
def primaryCall (g : Geometry) (isWrite : Bool) (data : DriverData) (c : Chunk) : RAIDCall g :=
  if isWrite then .minionWrite (g.primary (g.primaryIndex c.offset)) (g.localOffset c.offset)
    (slice data.buffer c.bufPos c.len)
  else readCall g c

theorem onPrimary_primary (i : Fin g.numPrimary) :
    decide (g.primary i = g.primary k) = decide (i = k) :=
  decide_eq_decide.mpr Geometry.primary_injective.eq_iff

theorem filter_writeCalls (buffer : List Byte) (c : Chunk) :
    (writeCalls g buffer c).filter (onPrimary k) = if g.primaryIndex c.offset = k then
      [.minionWrite (g.primary (g.primaryIndex c.offset)) (g.localOffset c.offset)
        (slice buffer c.bufPos c.len)] else [] := by
  have hm : onPrimary k (.minionWrite (g.mirrorIndex (g.primaryIndex c.offset)) (g.localOffset c.offset)
      (slice buffer c.bufPos c.len)) = false :=
    decide_eq_false (Geometry.primary_ne_mirrorIndex k _).symm
  rw [writeCalls, List.filter_cons, List.filter_cons, hm, onPrimary, onPrimary_primary]
  simp

/-- The calls of a request to the primary of a stripe are those for its chunks there. -/
theorem filter_requestScript (isWrite : Bool) (data : DriverData) :
    (requestScript g isWrite data).filter (onPrimary k) =
      ((g.chunks data.offset (requestLen isWrite data) 0).filter fun c => g.primaryIndex c.offset = k).map
        (primaryCall g isWrite data) := by
  cases isWrite with
  | true =>
    -- of the two calls for a chunk one is to a primary
    have hflat : ∀ cs : List Chunk, (cs.flatMap (writeCalls g data.buffer)).filter (onPrimary k) =
        (cs.filter fun c => g.primaryIndex c.offset = k).map (primaryCall g true data) := by
      intro cs
      induction cs with
      | nil => rfl
      | cons c cs ih =>
        rw [List.flatMap_cons, List.filter_append, ih, filter_writeCalls, List.filter_cons]
        by_cases hc : g.primaryIndex c.offset = k
        · simp [hc, primaryCall]
        · simp [hc]
    have hlast : onPrimary k (.recordSize data.offset data.buffer.length : RAIDCall g) = false := rfl
    rw [requestScript, if_pos rfl, writeScript, List.filter_append, hflat, List.filter_cons, hlast]
    simp [requestLen]
  | false =>
    rw [requestScript, if_neg Bool.false_ne_true, readScript, List.filter_map]
    congr 2
    funext c
    exact onPrimary_primary _

variable (hr : g.InRange (data t).offset (requestLen (isWrite t) (data t)))

include hr in
/-- **A request makes one call to the primary of a stripe** that it has a fragment in, and no other. -/
theorem filter_onPrimary : (requestScript g (isWrite t) (data t)).filter (onPrimary k) =
    if 0 < (fragment g k (isWrite t) (data t)).len then
      [primaryCall g (isWrite t) (data t) (fragment g k (isWrite t) (data t))] else [] := by
  rw [filter_requestScript, Geometry.filter_chunks hr, fragment]
  split <;> rfl

include hr in
theorem eq_primaryCall (ho : o ∈ requestScript g (isWrite t) (data t)) (hk : onPrimary k o = true) :
    0 < (fragment g k (isWrite t) (data t)).len ∧
      o = primaryCall g (isWrite t) (data t) (fragment g k (isWrite t) (data t)) := by
  have hmem := List.mem_filter.mpr ⟨ho, hk⟩
  rw [filter_onPrimary hr] at hmem
  split at hmem
  · exact ⟨‹_›, List.mem_singleton.mp hmem⟩
  · exact absurd hmem List.not_mem_nil

include hr in
theorem primaryCall_mem (hlen : 0 < (fragment g k (isWrite t) (data t)).len) :
    primaryCall g (isWrite t) (data t) (fragment g k (isWrite t) (data t)) ∈
        requestScript g (isWrite t) (data t) ∧
      onPrimary k (primaryCall g (isWrite t) (data t) (fragment g k (isWrite t) (data t))) = true := by
  have hmem := filter_onPrimary hr (k := k)
  rw [if_pos hlen] at hmem
  exact List.mem_filter.mp (hmem ▸ List.mem_singleton_self _)

include hr in
/-- A fragment lies in one stripe, and in the range of its request. -/
theorem fragment_bounds (hlen : 0 < (fragment g k (isWrite t) (data t)).len) :
    (fragment g k (isWrite t) (data t)).offset % g.stripeSize +
        (fragment g k (isWrite t) (data t)).len ≤ g.stripeSize ∧
      g.InRange (fragment g k (isWrite t) (data t)).offset (fragment g k (isWrite t) (data t)).len ∧
      g.primaryIndex (fragment g k (isWrite t) (data t)).offset = k ∧
      (fragment g k (isWrite t) (data t)).bufPos + (fragment g k (isWrite t) (data t)).len ≤
        requestLen (isWrite t) (data t) ∧
      (fragment g k (isWrite t) (data t)).offset =
        (data t).offset + (fragment g k (isWrite t) (data t)).bufPos := by
  obtain ⟨hmem, hk⟩ := (Geometry.mem_chunks_iff hr).mpr ⟨hlen, rfl⟩
  obtain ⟨-, hs, hin, hle, hend, hpos⟩ := (Geometry.partition_chunks hr 0).mem hmem
  exact ⟨hs, hin, hk, by rw [fragment]; omega, by rw [fragment]; omega⟩

include hr in
theorem length_fragment (hw : isWrite t = true)
    (hlen : 0 < (fragment g k (isWrite t) (data t)).len) :
    (slice (data t).buffer (fragment g k (isWrite t) (data t)).bufPos
      (fragment g k (isWrite t) (data t)).len).length = (fragment g k (isWrite t) (data t)).len := by
  obtain ⟨-, -, -, hend, -⟩ := fragment_bounds hr hlen
  have hbuf : requestLen (isWrite t) (data t) = (data t).buffer.length := if_pos hw
  exact length_slice (by omega)

/-! ## What the calls do to a stripe -/

variable {μ τ : Type} [LawfulMinion μ] [IMetadataStore τ] {s₀ s s' : RAIDStorage μ τ g}

include hr in
/-- **The stripe changes as its machine does**, at the calls to its primary, and at no others. -/
theorem device_point {a : o.Answer} (ho : o ∈ requestScript g (isWrite t) (data t))
    (ha : NoFailures s o a s') {x : Nat} (hx : g.InRange x 1) (hk : g.primaryIndex x = k) :
    s'.device x =
      if onPrimary k o then (stripeMachine g k isWrite data).next s.device t x else s.device x := by
  obtain ⟨ha, hok⟩ := ha
  -- a call that does not write leaves the stripe as it is, and so does the machine for a `READ`
  have hread : (∀ i b buf, o ≠ .minionWrite i b buf) → s'.device x =
      if onPrimary k o then (stripeMachine g k isWrite data).next s.device t x else s.device x := by
    intro hno
    rw [device_congr (cells_of_noWrite hno ha)]
    split
    · rename_i hp
      obtain ⟨-, he⟩ := eq_primaryCall hr ho hp
      have hw : ¬ isWrite t = true := fun hw => hno _ _ _ (he.trans (if_pos hw))
      simp only [stripeMachine, hw, Bool.false_eq_true, if_false]
    · rfl
  cases o with
  | minionWrite i b buf =>
    obtain ⟨-, ⟨-, -, hcells⟩ | ⟨what, rfl, -⟩⟩ := answers_minionWrite ha
    · split
      · rename_i hp
        obtain ⟨hlen, he⟩ := eq_primaryCall hr ho hp
        rw [primaryCall] at he
        split at he
        · rename_i hw
          obtain ⟨rfl, rfl, rfl⟩ : i = _ ∧ b = _ ∧ buf = _ := by simpa using he
          obtain ⟨hs, hin, -⟩ := fragment_bounds hr hlen
          rw [← length_fragment hr hw hlen] at hs hin
          rw [device, hcells, Function.update_comp_eq_of_injective _ Geometry.primary_injective]
          refine (Geometry.device_store hin hs hx).trans ?_
          simp only [stripeMachine, hw, if_true]
          rfl
        · cases he
      · rename_i hp
        have hne : g.primary (g.primaryIndex x) ≠ i := by
          rintro rfl
          exact hp (decide_eq_true (congrArg g.primary hk))
        rw [device, Geometry.device, Function.comp_apply, hcells, Function.update_of_ne hne]
        rfl
    · cases hok
  | _ => exact hread fun _ _ _ he => by cases he

/-! ## Runs -/

variable {T : ι → RAIDProg g DriverData} {tr : List (ι × Exchange (RAIDCall g) RAIDCall.Answer)}
  {e : Exchange (RAIDCall g) RAIDCall.Answer}

/-- The exchanges with the primary of the stripe `k`, at which the fragments of the stripe take effect. -/
def point (k : Fin g.numPrimary) (e : ι × Exchange (RAIDCall g) RAIDCall.Answer) : Bool :=
  onPrimary k e.2.1

/-- The stripe as the machine has it after a run. -/
def stripeAfter (g : Geometry) (k : Fin g.numPrimary) (isWrite : ι → Bool) (data : ι → DriverData)
    (f : Nat → Byte) (tr : List (ι × Exchange (RAIDCall g) RAIDCall.Answer)) : Nat → Byte :=
  ((tr.filter (point k)).map Prod.fst).foldl (stripeMachine g k isWrite data).next f

theorem stripeAfter_snoc (f : Nat → Byte) (t : ι) (e : Exchange (RAIDCall g) RAIDCall.Answer) :
    stripeAfter g k isWrite data f (tr ++ [(t, e)]) =
      if onPrimary k e.1 then
        (stripeMachine g k isWrite data).next (stripeAfter g k isWrite data f tr) t
      else stripeAfter g k isWrite data f tr := by
  have hp : point k (t, e) = onPrimary k e.1 := rfl
  rw [stripeAfter, List.filter_append, List.filter_cons, hp]
  split
  · rw [List.map_append, List.foldl_append]
    rfl
  · rw [List.filter_nil, List.append_nil]
    rfl

/-- A cell after a fragment depends on that cell before it. -/
theorem next_congr {f f' : Nat → Byte} {x : Nat} (h : f x = f' x) :
    (stripeMachine g k isWrite data).next f t x = (stripeMachine g k isWrite data).next f' t x := by
  simp only [stripeMachine]
  split
  · simp only [store, h]
  · exact h

/-- The bytes that the primaries have answered for some chunks. -/
theorem length_readBytes {cs : List Chunk} {made : List (Exchange (RAIDCall g) RAIDCall.Answer)}
    (hmade : made.map Sigma.fst = cs.map (readCall g)) (hok : ∀ e ∈ made, Succeeds e.1 e.2) :
    (readBytes made).length = (cs.map Chunk.len).sum := by
  induction cs generalizing made with
  | nil =>
    rw [List.map_nil, List.map_eq_nil_iff] at hmade
    rw [hmade]
    rfl
  | cons c cs ih =>
    rw [List.map_cons] at hmade
    obtain ⟨⟨o, a⟩, made, rfl, rfl, hrest⟩ := List.map_eq_cons_iff.mp hmade
    obtain ⟨hfirst, hok⟩ := List.forall_mem_cons.mp hok
    -- the answer fills the buffer of the call
    have hl : a.2.length = c.len := hfirst.2.trans List.length_replicate
    have hcons : readBytes (⟨readCall g c, a⟩ :: made) = a.2 ++ readBytes made := rfl
    rw [hcons, List.length_append, hl, ih hrest hok, List.map_cons, List.sum_cons]

/-- A fragment of a request that writes nothing at an address leaves it as it is. -/
theorem next_of_not_covers {f : Nat → Byte} {x : Nat}
    (hr : g.InRange (data t).offset (requestLen (isWrite t) (data t)))
    (h : isWrite t = true → ¬ Covers (isWrite t) (data t) x) :
    (stripeMachine g k isWrite data).next f t x = f x := by
  simp only [stripeMachine]
  split
  · rename_i hw
    rcases Nat.eq_zero_or_pos (fragment g k (isWrite t) (data t)).len with hlen | hlen
    · rw [hlen, slice, List.take_zero, store_nil]
    · obtain ⟨-, -, -, hend, hpos⟩ := fragment_bounds hr hlen
      -- an address in the fragment is one of the request
      refine store_of_not_mem fun hx => h hw ?_
      rw [length_fragment hr hw hlen] at hx
      rw [Covers]
      omega
  · rfl

theorem foldl_next_of_not_covers {vs : List ι} {f : Nat → Byte} {x : Nat}
    (hr : ∀ v, g.InRange (data v).offset (requestLen (isWrite v) (data v)))
    (h : ∀ v ∈ vs, isWrite v = true → ¬ Covers (isWrite v) (data v) x) :
    vs.foldl (stripeMachine g k isWrite data).next f x = f x := by
  induction vs generalizing f with
  | nil => rfl
  | cons v vs ih =>
    obtain ⟨hv, hvs⟩ := List.forall_mem_cons.mp h
    rw [List.foldl_cons, ih hvs, next_of_not_covers (hr v) hv]

/-- A `WRITE` leaves its bytes in the stripe. -/
theorem next_of_covers {f : Nat → Byte} {x : Nat}
    (hr : g.InRange (data t).offset (requestLen (isWrite t) (data t))) (hw : isWrite t = true)
    (hx : Covers (isWrite t) (data t) x) (hk : g.primaryIndex x = k) :
    some ((stripeMachine g k isWrite data).next f t x) = (data t).buffer[x - (data t).offset]? := by
  have hbuf : requestLen (isWrite t) (data t) = (data t).buffer.length := if_pos hw
  obtain ⟨hlo, hhi⟩ := Geometry.mem_fragment hr hx.1 hx.2 hk
  rw [← fragment] at hlo hhi
  have hlen : 0 < (fragment g k (isWrite t) (data t)).len := by omega
  obtain ⟨-, -, -, -, hpos⟩ := fragment_bounds hr hlen
  have hl := length_fragment hr hw hlen
  simp only [stripeMachine, if_pos hw]
  rw [store_of_mem hlo (by omega), ← List.getElem?_eq_getElem, getElem?_slice (by omega)]
  congr 1
  omega

section

variable [DecidableEq ι] (hin : ∀ t, g.InRange (data t).offset (requestLen (isWrite t) (data t)))
  (hrun : Pool.Run NoFailures (fun t => request g (isWrite t) (data t)) s₀ tr T s)

include hin hrun

/-- Every request has made the first calls of its script. -/
theorem run_script (t : ι) : ∃ todo,
    requestScript g (isWrite t) (data t) = (Pool.own t tr).map Sigma.fst ++ todo ∧
    Prog.Obeys (.script Succeeds) (fun x data' => x.1 = [] ∧ (isWrite t = false →
      data'.buffer = readBytes x.2 ∧ (readBytes x.2).length = (data t).len ∧ data'.status = .success))
      (todo, Pool.own t tr) (T t) :=
  (hrun.script (I := fun _ => True)
    (Q := fun t made (data' : DriverData) => isWrite t = false →
      data'.buffer = readBytes made ∧ (readBytes made).length = (data t).len ∧ data'.status = .success)
    trivial (fun _ _ _ _ _ _ _ hR => ⟨succeeds_of_noFailures _ _ _ _ hR, trivial⟩)
    fun t => obeys_request_script (hin t)).2 t

/-- A call to the primary of a stripe is that for the fragment there. -/
theorem point_eq (he : (t, e) ∈ tr) (hk : point k (t, e) = true) :
    0 < (fragment g k (isWrite t) (data t)).len ∧
      e.1 = primaryCall g (isWrite t) (data t) (fragment g k (isWrite t) (data t)) := by
  obtain ⟨todo, hscript, -⟩ := run_script hin hrun t
  have ho : e.1 ∈ requestScript g (isWrite t) (data t) := by
    rw [hscript]
    exact List.mem_append_left _ (List.mem_map_of_mem (Pool.mem_own.mpr he))
  exact eq_primaryCall (hin t) ho hk

/-- A request that is done has made the calls of its script, and a `READ` returns what they answered. -/
theorem run_done {data' : DriverData} (hT : T t = .ret data') :
    (Pool.own t tr).map Sigma.fst = requestScript g (isWrite t) (data t) ∧
      (isWrite t = false → data'.buffer = readBytes (Pool.own t tr) ∧ data'.status = .success) := by
  obtain ⟨todo, hscript, hp⟩ := run_script hin hrun t
  rw [hT] at hp
  obtain ⟨htodo, hread⟩ := hp.ret_inv
  obtain rfl : todo = [] := htodo
  rw [hscript, List.append_nil]
  exact ⟨rfl, fun hw => ⟨(hread hw).1, (hread hw).2.2⟩⟩

/-- **A stripe of the device** is what the machine has after the calls to its primary. -/
theorem device_eq_stripeAfter {x : Nat} (hx : g.InRange x 1) (hk : g.primaryIndex x = k) :
    s.device x = stripeAfter g k isWrite data s₀.device tr x := by
  induction hrun with
  | nil => rfl
  | snoc hrun hs ih =>
    cases hs with
    | @call t o _ a _ _ hT hR =>
      -- the call is one of the script of its request
      obtain ⟨todo, hscript, hp⟩ := run_script hin hrun t
      rw [hT] at hp
      obtain ⟨rest, rfl⟩ := List.head?_eq_some_iff.mp hp.call_inv.1
      have ho : o ∈ requestScript g (isWrite t) (data t) := by simp [hscript]
      rw [device_point (hin t) ho hR hx hk, stripeAfter_snoc]
      split
      · exact next_congr ih
      · exact ih

/-- What a `READ` makes of the answer for its fragment: the part of its buffer. -/
theorem slice_readBytes (hw : isWrite t = false) (he : (t, e) ∈ tr) (hk : onPrimary k e.1 = true) :
    e.1 = readCall g (fragment g k (isWrite t) (data t)) ∧
      slice (readBytes (Pool.own t tr)) (fragment g k (isWrite t) (data t)).bufPos
        (fragment g k (isWrite t) (data t)).len = answeredBytes e := by
  obtain ⟨todo, hscript, -⟩ := run_script hin hrun t
  obtain ⟨made₁, made₂, hown⟩ := List.append_of_mem (Pool.mem_own.mpr he)
  have hok : ∀ e ∈ Pool.own t tr, Succeeds e.1 e.2 := fun e he =>
    succeeds_of_run hrun _ (Pool.mem_own.mp he)
  rw [hown] at hscript hok ⊢
  -- the chunks before the one that the exchange is about
  have hread : requestScript g (isWrite t) (data t) =
      (g.chunks (data t).offset (requestLen (isWrite t) (data t)) 0).map (readCall g) := by
    rw [requestScript, requestLen, hw]
    rfl
  rw [hread, List.map_append, List.append_assoc] at hscript
  obtain ⟨cs₁, cs, hcs, hcs₁, hrest⟩ := List.map_eq_append_iff.mp hscript
  obtain ⟨c, cs₂, rfl, hc, -⟩ := List.map_eq_cons_iff.mp hrest
  have hmem : c ∈ g.chunks (data t).offset (requestLen (isWrite t) (data t)) 0 := by
    rw [hcs]
    exact List.mem_append_right _ List.mem_cons_self
  have hpi : g.primaryIndex c.offset = k := by
    rw [← hc] at hk
    exact Geometry.primary_injective (of_decide_eq_true hk)
  have hfrag : c = fragment g k (isWrite t) (data t) :=
    ((Geometry.mem_chunks_iff (hin t)).mp ⟨hmem, hpi⟩).2
  have hpos := (hcs ▸ Geometry.partition_chunks (hin t) 0).sum_len
  obtain ⟨hok₁, hok₂⟩ := List.forall_mem_append.mp hok
  have hbefore := length_readBytes hcs₁.symm hok₁
  obtain ⟨o, a⟩ := e
  obtain rfl : readCall g c = o := hc
  have hl : a.2.length = c.len := (List.forall_mem_cons.mp hok₂).1.2.trans List.length_replicate
  have hsplit : readBytes (made₁ ++ ⟨readCall g c, a⟩ :: made₂) =
      readBytes made₁ ++ (a.2 ++ readBytes made₂) := by
    rw [readBytes, List.flatMap_append]
    rfl
  rw [← hfrag]
  refine ⟨rfl, ?_⟩
  rw [hsplit, slice_append_right (by omega), show c.bufPos - (readBytes made₁).length = 0 by omega,
    slice_append_left (by omega), slice_self hl]
  rfl

/-- **The fragments of a stripe are linearizable**: in the order of the calls to its primary. -/
theorem linearization (k : Fin g.numPrimary) :
    (stripeMachine g k isWrite data).Linearization s₀.device (Pool.Precedes tr)
      (fun t => 0 < (fragment g k (isWrite t) (data t)).len) (Returned k isWrite data T)
      ((tr.filter (point k)).map Prod.fst) := by
  apply Pool.linearization
  · intro t e he hp
    exact (point_eq hin hrun he hp).1
  · -- the script has one call to the primary at most
    intro t
    obtain ⟨todo, hscript, -⟩ := run_script hin hrun t
    have hone : ((requestScript g (isWrite t) (data t)).filter (onPrimary k)).length ≤ 1 := by
      rw [filter_onPrimary (hin t)]
      split <;> simp
    rw [hscript, List.filter_append, List.filter_map, List.length_append, List.length_map] at hone
    exact (Nat.le_add_right _ _).trans hone
  · rintro t b ⟨hlen, data', hT, -⟩
    obtain ⟨hmade, -⟩ := run_done hin hrun hT
    obtain ⟨hmem, hk⟩ := primaryCall_mem (hin t) hlen
    rw [← hmade] at hmem
    obtain ⟨e, he, ho⟩ := List.mem_map.mp hmem
    exact ⟨e, Pool.mem_own.mp he, (congrArg (onPrimary k) ho).trans hk⟩
  · rintro tr₁ t e tr₂ b rfl hk ⟨hlen, data', hT, rfl⟩
    cases hw : isWrite t with
    | true => simp only [stripeMachine, hw, if_true]
    | false =>
      -- the answer is the one of the minion, and the buffer holds it
      obtain ⟨he, hslice⟩ := slice_readBytes hin hrun hw (List.mem_append_right _ List.mem_cons_self) hk
      obtain ⟨-, hbuffer⟩ := run_done hin hrun hT
      obtain ⟨T₁, s₁, T₂, s₂, hrun₁, hs⟩ := hrun.split
      obtain ⟨hstripe, hrange, hpi, -, -⟩ := fragment_bounds (hin t) hlen
      cases hs with
      | @call _ _ _ a _ _ hT₁ hR =>
        obtain rfl : _ = readCall g (fragment g k (isWrite t) (data t)) := he
        have hload := (answers_minionRead hR.1).2.2 hR.2.1
        rw [List.length_replicate, load_primary hrange hstripe] at hload
        have hans : answeredBytes ⟨readCall g (fragment g k (isWrite t) (data t)), a⟩ =
            load s₁.device (fragment g k (isWrite t) (data t)).offset
              (fragment g k (isWrite t) (data t)).len := hload
        rw [(hbuffer hw).1, ← hw, hslice, hans]
        simp only [stripeMachine, hw, Bool.false_eq_true, if_false]
        rw [← hw]
        refine congrArg some (load_congr fun j hj => ?_)
        -- the minion had what the fragments before had left there
        obtain ⟨hcap, -⟩ := hrange hlen
        symm
        exact device_eq_stripeAfter hin hrun₁ (hrange.one hj)
          ((Geometry.primaryIndex_add (by omega) (by omega)).trans hpi)

/-- A `READ` that comes after a `WRITE` gets what it wrote, where no other `WRITE` came in between. -/
theorem read_sees_write {u : ι} {data' : DriverData} {x : Nat} (hw : isWrite t = true)
    (hu : isWrite u = false) (ht : (T t).value?.isSome) (hT : T u = .ret data')
    (hprec : Pool.Precedes tr t u) (hxt : Covers (isWrite t) (data t) x)
    (hxu : Covers (isWrite u) (data u) x)
    (hothers : ∀ v, v ≠ t → isWrite v = true → Covers (isWrite v) (data v) x →
      Pool.Precedes tr v t ∨ Pool.Precedes tr u v) :
    data'.buffer[x - (data u).offset]? = (data t).buffer[x - (data t).offset]? := by
  obtain ⟨written, hwritten⟩ := Option.isSome_iff_exists.mp ht
  rw [Prog.value?_eq_some] at hwritten
  -- the order of the stripe that the address is in
  have hlin := linearization hin hrun (g.primaryIndex x)
  obtain ⟨hlo, hhi⟩ := Geometry.mem_fragment (hin u) hxu.1 hxu.2 rfl
  obtain ⟨hlot, hhit⟩ := Geometry.mem_fragment (hin t) hxt.1 hxt.2 rfl
  rw [← fragment] at hlo hhi hlot hhit
  have hlen : 0 < (fragment g (g.primaryIndex x) (isWrite u) (data u)).len := by omega
  have hretu : Returned (g.primaryIndex x) isWrite data T u _ := ⟨hlen, data', hT, rfl⟩
  have hrett : Returned (g.primaryIndex x) isWrite data T t _ := ⟨by omega, written, hwritten, rfl⟩
  obtain ⟨before, between, after, horder, hbetween⟩ := hlin.between (hlin.complete t _ hrett)
    (hlin.complete u _ hretu) (by rintro rfl; exact absurd (hw.symm.trans hu) (by decide)) hprec
  have hlegal := hlin.legal (before ++ t :: between) u after _ horder hretu
  rw [if_neg (by rw [hu]; decide), List.foldl_append, List.foldl_cons] at hlegal
  generalize hf : before.foldl (stripeMachine g (g.primaryIndex x) isWrite data).next s₀.device = f
    at hlegal
  have hbytes : load _ (fragment g (g.primaryIndex x) (isWrite u) (data u)).offset _ =
      slice data'.buffer (fragment g (g.primaryIndex x) (isWrite u) (data u)).bufPos _ :=
    Option.some.inj ((if_neg (by rw [hu]; decide)).symm.trans hlegal)
  -- the requests between the two write nothing at the address
  have hkept : between.foldl (stripeMachine g (g.primaryIndex x) isWrite data).next
      ((stripeMachine g (g.primaryIndex x) isWrite data).next f t) x = _ :=
    foldl_next_of_not_covers hin fun v hv hwv hcov => by
      obtain ⟨hne, hnot, hnot'⟩ := hbetween v hv
      exact (hothers v hne hwv hcov).elim hnot hnot'
  obtain ⟨-, -, -, -, hpos⟩ := fragment_bounds (hin u) hlen
  have hbyte := congrArg (fun l => l[x - (fragment g (g.primaryIndex x) (isWrite u) (data u)).offset]?)
    hbytes
  rw [getElem?_load (by omega), getElem?_slice (by omega), Nat.add_sub_cancel' hlo, hkept,
    next_of_covers (hin t) hw hxt rfl] at hbyte
  rw [hbyte]
  congr 1
  omega

/-- **Linearizability per stripe.** While no minion fails, requests inside the device can be put in an
order, for every stripe, that respects real time and in which every `READ` returns what the `WRITE`s
before it have made of the stripe. A `READ` that comes after a `WRITE` gets what it wrote, at every
address that no other `WRITE` was under way to since. -/
theorem linearizable :
    (∀ k, ∃ order, (stripeMachine g k isWrite data).Linearization s₀.device (Pool.Precedes tr)
      (fun t => 0 < (fragment g k (isWrite t) (data t)).len) (Returned k isWrite data T) order) ∧
    ∀ t u data' x, isWrite t = true → isWrite u = false → (T t).value?.isSome → T u = .ret data' →
      Pool.Precedes tr t u → Covers (isWrite t) (data t) x → Covers (isWrite u) (data u) x →
      (∀ v, v ≠ t → isWrite v = true → Covers (isWrite v) (data v) x →
        Pool.Precedes tr v t ∨ Pool.Precedes tr u v) →
      data'.status = .success ∧
        data'.buffer[x - (data u).offset]? = (data t).buffer[x - (data t).offset]? := by
  constructor
  · intro k
    exact ⟨_, linearization hin hrun k⟩
  · intro t u data' x hw hu ht hT hprec hxt hxu hothers
    exact ⟨((run_done hin hrun hT).2 hu).2,
      read_sees_write hin hrun hw hu ht hT hprec hxt hxu hothers⟩

end

/-- A `WRITE` of one byte, and a `READ` of that byte. -/
def writeAndRead (t : Fin 2) : DriverData :=
  if t.val = 0 then { DriverData.new .write 0 0 1 with buffer := [7] } else DriverData.new .read 0 0 1

/-- The `READ` comes between the calls of the `WRITE` to the primary and to the mirror. -/
theorem linearizable_between_copies :
    ∃ tr, ∃ T : Fin 2 → _, ∃ s : RAIDStorage StorageMinionMemory MemoryMetadataStore
        ⟨1, 1, by decide⟩,
      Pool.Run NoFailures (fun t => request _ (t = 0) (writeAndRead t)) (inMemory _) tr T s ∧
        ∀ k, ∃ order, (stripeMachine _ k (fun t : Fin 2 => decide (t = 0)) writeAndRead).Linearization
          (inMemory ⟨1, 1, by decide⟩).device (Pool.Precedes tr)
          (fun t => 0 < (fragment ⟨1, 1, by decide⟩ k (t = 0) (writeAndRead t)).len)
          (Returned k (fun t => decide (t = 0)) writeAndRead T) order := by
  -- the `READ` comes between the primary and the mirror of the `WRITE`
  have hexec : (Pool.exec handler [0, 1, 0, 0]
      (fun t : Fin 2 => request ⟨1, 1, by decide⟩ (t = 0) (writeAndRead t)) (inMemory _)).map (fun r =>
        decide (∀ e ∈ r.1, Succeeds e.2.1 e.2.2)) = some true := by
    decide +kernel
  obtain ⟨⟨tr, T, s⟩, he, hok⟩ := Option.map_eq_some_iff.mp hexec
  have hrun := run_noFailures (Pool.run_of_exec (h := handler) (fun _ _ _ _ => Answers.own) he)
    (of_decide_eq_true hok)
  exact ⟨tr, T, s, hrun, (linearizable
    (fun t => Geometry.inRange_of_le (by decide) (by revert t; decide)) hrun).1⟩

end RAIDStorage

end LDS
