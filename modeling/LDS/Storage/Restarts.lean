import LDS.Storage.Linearizability
import LDS.Storage.Restart

/-!
# Service across restarts

A server is stopped or killed and started again over its directory, any number of times. What a call has
written to an image or to the metadata file stays, the rest of a request is gone. The requests of all sessions
together are linearizable, stripe by stripe: those that were answered have taken effect, in an order that
respects real time within a session and the order of the sessions, and one that was cut off has done so in a
stripe or has not.

## Main definitions

* `RAIDStorage.Session`: the storage at both ends of a session, its requests and their exchanges
* `RAIDStorage.directory`: the directory that is found by a session
* `RAIDStorage.Service`: sessions over one directory

## Main results

* `RAIDStorage.run_unfaulted`: no call fails in a session, and the metadata file tells the index
* `RAIDStorage.Service.resumes`: a session begins with the bytes and the index that the one before left
* `RAIDStorage.service_linearizable`: every start succeeds, and the sessions are linearizable together
-/

namespace LDS

open Memory FileMetadataStore

namespace RAIDStorage

variable {g : Geometry} {ι : Type}

/-! ## One session -/

/-- The request is one that a client can send, inside the device. -/
structure Sendable (g : Geometry) (isWrite : Bool) (data : DriverData) : Prop where
  offset_lt : data.offset < 2 ^ 64
  len_lt : requestLen isWrite data < 2 ^ 64
  inRange : g.InRange data.offset (requestLen isWrite data)

/-- The call of a request inside the device fits the minion that it is made to. -/
theorem mem_requestScript {isWrite : Bool} {data : DriverData} (h : Sendable g isWrite data) {o : RAIDCall g}
    (ho : o ∈ requestScript g isWrite data) :
    (∃ i a buf, o = .minionWrite i a buf ∧ a + buf.length ≤ g.stripeSize) ∨
      (∃ i a buf, o = .minionRead i a buf ∧ a + buf.length ≤ g.stripeSize) ∨
      ∃ offset size, o = .recordSize offset size ∧ offset < 2 ^ 64 ∧ size < 2 ^ 64 := by
  unfold requestScript at ho
  have hin := h.inRange
  have hlen := h.len_lt
  unfold requestLen at hin hlen
  by_cases hw : isWrite
  · rw [if_pos hw] at ho hin hlen
    rcases mem_writeScript hin ho with hwrite | hrecord
    · exact .inl hwrite
    · exact .inr (.inr ⟨_, _, hrecord, h.offset_lt, hlen⟩)
  · rw [if_neg hw] at ho hin
    obtain ⟨c, hc, rfl⟩ := List.mem_map.mp ho
    obtain ⟨hn, hs, hrange, -⟩ := (Geometry.partition_chunks hin 0).mem hc
    refine .inr (.inl ⟨_, _, _, rfl, ?_⟩)
    rw [List.length_replicate]
    exact Geometry.localOffset_add_le hn hs hrange

section Run

variable {μ : Type} [LawfulMinion μ] {s s' : RAIDStorage μ FileMetadataStore g}

/-- A call that fits its minion succeeds, and the metadata file goes on to tell the index. -/
theorem succeeds_of_unfaulted (hz : s.Sized) (h64 : g.stripeSize < 2 ^ 64) (hs : s.Saved) {o : RAIDCall g}
    {a : o.Answer} (ho : (∃ i a buf, o = .minionWrite i a buf ∧ a + buf.length ≤ g.stripeSize) ∨
      (∃ i a buf, o = .minionRead i a buf ∧ a + buf.length ≤ g.stripeSize) ∨
      ∃ offset size, o = .recordSize offset size ∧ offset < 2 ^ 64 ∧ size < 2 ^ 64)
    (h : Unfaulted s o a s') : Succeeds o a ∧ s'.Saved := by
  rcases ho with ⟨i, b, buf, rfl, hfit⟩ | ⟨i, b, buf, rfl, hfit⟩ | ⟨offset, size, rfl, hoffset, hsize⟩
  · exact saved_minionWrite hs hz h64 hfit h
  · have hread := handler_minionRead (s := s) (i := i) (by rwa [hz i]) (hz.size_lt h64 i)
    obtain ⟨rfl, rfl⟩ := Prod.mk.inj (Option.some.inj (hread.symm.trans h))
    exact ⟨⟨rfl, length_load⟩, hs⟩
  · exact ⟨trivial, (saved_recordSize hs hoffset hsize h).2⟩

/-- **A session**: no call fails, and in every state the metadata file tells the index. -/
theorem run_unfaulted [DecidableEq ι] {isWrite : ι → Bool} {data : ι → DriverData}
    {s₀ : RAIDStorage μ FileMetadataStore g} {T : ι → RAIDProg g DriverData}
    {tr : List (ι × Exchange (RAIDCall g) RAIDCall.Answer)} (hdata : ∀ t, Sendable g (isWrite t) (data t))
    (h64 : g.stripeSize < 2 ^ 64) (hz : s₀.Sized) (h₀ : s₀.Saved)
    (hr : Pool.Run Unfaulted (fun t => request g (isWrite t) (data t)) s₀ tr T s) :
    Pool.Run NoFailures (fun t => request g (isWrite t) (data t)) s₀ tr T s ∧ s.Sized ∧ s.Saved := by
  induction hr with
  | nil => exact ⟨.nil, hz, h₀⟩
  | snoc _ hs ih =>
    obtain ⟨hrun, hsized, hsaved⟩ := ih
    cases hs with
    | @call t o k a _ s' hT hR =>
      -- the call is the next one of the script of its request
      obtain ⟨todo, hscript, hp⟩ := run_script (fun t => (hdata t).inRange) hrun t
      rw [hT] at hp
      obtain ⟨rest, rfl⟩ := List.head?_eq_some_iff.mp hp.call_inv.1
      have ho : o ∈ requestScript g (isWrite t) (data t) := by
        rw [hscript]
        exact List.mem_append_right _ List.mem_cons_self
      obtain ⟨hok, hsaved'⟩ := succeeds_of_unfaulted hsized h64 hsaved (mem_requestScript (hdata t) ho) hR
      refine ⟨hrun.snoc (.call hT ⟨.own hR, hok⟩), fun i => ?_, hsaved'⟩
      exact (answers_size (.own hR) i).trans (hsized i)

end Run

/-! ## Sessions -/

/-- A session: the storage when it begins and when it is stopped or killed, its requests, what is left of them
then and the exchanges that they have made. -/
structure Session (ι : Type) (g : Geometry) where
  isWrite : ι → Bool
  data : ι → DriverData
  first : RAIDStorage CompleteFile FileMetadataStore g
  last : RAIDStorage CompleteFile FileMetadataStore g
  progs : ι → RAIDProg g DriverData
  trace : List (ι × Exchange (RAIDCall g) RAIDCall.Answer)

/-- The directory that the session `n` finds. -/
def directory (path : String) (x : Nat → Session ι g) : Nat → BackendDirectory
  | 0 => .empty path
  | n + 1 => (directory path x n).stop (x n).last.raw

theorem path_directory (path : String) (x : Nat → Session ι g) (n : Nat) :
    (directory path x n).path = path := by
  induction n with
  | zero => rfl
  | succ n ih => exact ih

variable [DecidableEq ι] {path : String} {numMinions minionSize : Nat} {x : Nat → Session ι g} {n : Nat}

/-- The first `n` sessions are over one directory, which was empty at first: each is started over what the one
before has left there. -/
structure Service (path : String) (numMinions minionSize : Nat) (x : Nat → Session ι g) (n : Nat) : Prop where
  start : ∀ j < n, (directory path x j).start numMinions minionSize = .ok ⟨g, (x j).first.raw⟩
  sendable : ∀ j < n, ∀ t, Sendable g ((x j).isWrite t) ((x j).data t)
  run : ∀ j < n, Pool.Run Unfaulted (fun t => request g ((x j).isWrite t) ((x j).data t)) (x j).first
    (x j).trace (x j).progs (x j).last

theorem raw_injective : Function.Injective (raw (g := g)) := by
  rintro ⟨m, i, st⟩ ⟨m', i', st'⟩ h
  obtain ⟨hm, rfl, rfl⟩ := RAIDStorage.mk.inj h
  obtain rfl : m = m' := funext fun k => Subtype.ext (congrFun hm k)
  rfl

/-- A storage that was started is one only. -/
theorem first_eq {dir : BackendDirectory} {s s' : RAIDStorage CompleteFile FileMetadataStore g}
    (h : dir.start numMinions minionSize = .ok ⟨g, s.raw⟩) (h' : dir.start numMinions minionSize = .ok ⟨g, s'.raw⟩) :
    s = s' := by
  rw [h] at h'
  obtain ⟨-, he⟩ := Sigma.mk.inj (Except.ok.inj h')
  exact raw_injective (eq_of_heq he)

/-- What is built over an empty directory holds zeros. -/
theorem device_of_empty {s : RAIDStorage CompleteFile FileMetadataStore g}
    (h : (BackendDirectory.empty path).start numMinions minionSize = .ok ⟨g, s.raw⟩) : s.device = fun _ => 0 := by
  obtain ⟨g', -, -, -, -, he⟩ := BackendDirectory.start_inv h
  obtain ⟨rfl, he⟩ := Sigma.mk.inj he
  have he : s.raw = (BackendDirectory.empty path).opened g := eq_of_heq he
  funext y
  have himage : (s.minions (g.primary (g.primaryIndex y))).1.image = List.replicate g.stripeSize 0 :=
    congrArg StorageMinionFile.image (congrFun (congrArg minions he) (g.primary (g.primaryIndex y)))
  change view 0 (s.minions (g.primary (g.primaryIndex y))).1.image (g.localOffset y) = 0
  rw [himage, view_replicate]

/-- Every session begins and ends with minions of one size and an index that the file tells. -/
theorem Service.kept (h : Service path numMinions minionSize x n) {j : Nat} (hj : j < n) :
    numMinions = g.numMinions ∧ minionSize = g.stripeSize ∧ path ≠ "" ∧
      ((x j).first.Sized ∧ (x j).first.Saved) ∧ ((x j).last.Sized ∧ (x j).last.Saved) := by
  induction j with
  | zero =>
    obtain ⟨hn, hs, hp, hz, hsaved, -⟩ := start_empty_inv (h.start 0 hj)
    have h64 : g.stripeSize < 2 ^ 64 := Nat.lt_trans (stripeSize_lt_of_sized hz) (by decide)
    exact ⟨hn, hs, hp, ⟨hz, hsaved⟩, (run_unfaulted (h.sendable 0 hj) h64 hz hsaved (h.run 0 hj)).2⟩
  | succ j ih =>
    obtain ⟨hn, hs, hp, -, hz, hsaved⟩ := ih (Nat.lt_of_succ_lt hj)
    have hpath : (directory path x j).path ≠ "" := by rwa [path_directory]
    have hstart := start_stop hpath hz
    rw [← hn, ← hs] at hstart
    have hfirst := first_eq (h.start (j + 1) hj) hstart
    have hz' : (x (j + 1)).first.Sized := by rw [hfirst]; exact hz
    have hsaved' : (x (j + 1)).first.Saved := by
      have hb : Bounded (load (x j).last.metadataStore).toList := by
        rw [hsaved.load_eq]
        exact hsaved.bounded
      rw [hfirst]
      exact ⟨hb, rfl⟩
    have h64 : g.stripeSize < 2 ^ 64 := Nat.lt_trans (stripeSize_lt_of_sized hz') (by decide)
    exact ⟨hn, hs, hp, ⟨hz', hsaved'⟩,
      (run_unfaulted (h.sendable (j + 1) hj) h64 hz' hsaved' (h.run (j + 1) hj)).2⟩

/-- The storage that is started over what a session has left. -/
theorem Service.start_directory (h : Service path numMinions minionSize x n) {j : Nat} (hj : j < n) :
    (directory path x (j + 1)).start numMinions minionSize =
      .ok ⟨g, ((x j).last.reopened (directory path x j)).raw⟩ := by
  obtain ⟨hn, hs, hp, -, hz, -⟩ := h.kept hj
  have hpath : (directory path x j).path ≠ "" := by rwa [path_directory]
  rw [hn, hs]
  exact start_stop hpath hz

/-- **A session resumes**: it begins with the bytes that the one before has left. -/
theorem Service.device_succ (h : Service path numMinions minionSize x n) {j : Nat} (hj : j + 1 < n) :
    (x (j + 1)).first.device = (x j).last.device := by
  rw [first_eq (h.start (j + 1) hj) (h.start_directory (Nat.lt_of_succ_lt hj))]
  exact device_congr rfl

/-! ## All sessions together -/

/-- Two images of the device that agree on the stripe `k`. -/
def AgreeOn (g : Geometry) (k : Fin g.numPrimary) (f f' : Nat → Byte) : Prop :=
  ∀ y, g.InRange y 1 → g.primaryIndex y = k → f y = f' y

theorem equivalence_agreeOn (k : Fin g.numPrimary) : Equivalence (AgreeOn g k) where
  refl _ := fun _ _ _ => rfl
  symm h := fun y hy hk => (h y hy hk).symm
  trans h h' := fun y hy hk => (h y hy hk).trans (h' y hy hk)

omit [DecidableEq ι] in
/-- The machine of a stripe reads and changes nothing but the stripe. -/
theorem respects_stripeMachine (h64 : g.capacity < 2 ^ 64) (k : Fin g.numPrimary) (isWrite : ι → Bool)
    (data : ι → DriverData) : (stripeMachine g k isWrite data).Respects (AgreeOn g k) where
  next := fun _ _ _ h y hy hk => next_congr (h y hy hk)
  output := by
    intro f f' t h
    unfold stripeMachine
    by_cases hw : isWrite t
    · simp only [hw, if_true]
    · simp only [hw, Bool.false_eq_true, if_false]
      refine congrArg some (load_congr fun m hm => ?_)
      -- an address of the fragment is one of the stripe
      unfold fragment Geometry.fragment at hm ⊢
      have hk : (k + 1 : Nat) * g.stripeSize ≤ g.capacity := Nat.mul_le_mul_right _ k.isLt
      apply h
      · intro _
        simp only at hm ⊢
        omega
      · rw [Geometry.primaryIndex_eq_iff (by simp only at hm ⊢; omega)]
        simp only at hm ⊢
        omega

/-- The machines of the stripe `k`, session by session. -/
def sessionMachine (x : Nat → Session ι g) (k : Fin g.numPrimary) :
    Machine (Nat → Byte) (Nat × ι) (Option (List Byte)) :=
  Machine.phases fun j => stripeMachine g k (x j).isWrite (x j).data

/-- **Linearizability across restarts.** The server runs over one directory, is stopped or killed between any two calls
and started again, any number of times. Every start succeeds, with the index that was there; and for every
stripe the requests of all sessions, those that were cut off included, have an order that respects real time, in
which every `READ` that was answered returns what the `WRITE`s before it, in its own and in earlier sessions,
have made of a device of zeros. -/
theorem service_linearizable (h64 : g.capacity < 2 ^ 64) (h : Service path numMinions minionSize x n) :
    (∀ j < n, ∃ s : RAIDStorage CompleteFile FileMetadataStore g,
      (directory path x (j + 1)).start numMinions minionSize = .ok ⟨g, s.raw⟩ ∧
        s.offsetSizes = (x j).last.offsetSizes) ∧
    ∀ k, ∃ order, (sessionMachine x k).Linearization (fun _ => 0)
      (fun p q => p.1 < q.1 ∨ p.1 = q.1 ∧ Pool.Precedes (x p.1).trace p.2 q.2)
      (fun p => p.1 < n ∧ 0 < (fragment g k ((x p.1).isWrite p.2) ((x p.1).data p.2)).len)
      (fun p b => p.1 < n ∧ Returned k (x p.1).isWrite (x p.1).data (x p.1).progs p.2 b) order := by
  constructor
  · intro j hj
    obtain ⟨-, -, -, -, -, hsaved⟩ := h.kept hj
    exact ⟨_, h.start_directory hj, hsaved.load_eq⟩
  intro k
  have hrun : ∀ j < n, Pool.Run NoFailures (fun t => request g ((x j).isWrite t) ((x j).data t)) (x j).first
      (x j).trace (x j).progs (x j).last := by
    intro j hj
    obtain ⟨-, -, -, ⟨hz, hsaved⟩, -⟩ := h.kept hj
    exact (run_unfaulted (h.sendable j hj) (Geometry.stripeSize_lt h64) hz hsaved (h.run j hj)).1
  have hin : ∀ j < n, ∀ t, g.InRange ((x j).data t).offset (requestLen ((x j).isWrite t) ((x j).data t)) :=
    fun j hj t => (h.sendable j hj t).inRange
  rcases Nat.eq_zero_or_pos n with rfl | hpos
  · refine ⟨[], .nil, ?_, ?_, .nil, ?_⟩
    · exact fun p hp => absurd hp List.not_mem_nil
    · exact fun p b hb => absurd hb.1 (Nat.not_lt_zero _)
    · intro before p after b horder
      simp at horder
  · -- the sessions are the phases, each with the order of the calls to the primary of the stripe
    have hphases := Machine.linearization_phases (equivalence_agreeOn k)
      (fun j => respects_stripeMachine h64 k (x j).isWrite (x j).data) (a := fun j => (x j).first.device)
      (fun j hj => linearization (hin j hj) (hrun j hj) k) (by
        intro j hj y hy hk
        rw [h.device_succ hj]
        exact (device_eq_stripeAfter (hin j (Nat.lt_of_succ_lt hj)) (hrun j (Nat.lt_of_succ_lt hj)) hy hk).symm)
    rw [device_of_empty (h.start 0 hpos)] at hphases
    exact ⟨_, hphases⟩

/-- Two `WRITE`s of a byte in the first session, a `READ` of both in the second one. -/
def writeThenRead (j : Nat) (t : Fin 2) : DriverData :=
  if j = 0 then .ofWrite t t [7 + 2 * UInt8.ofNat t] else .ofRead t 0 (2 - 2 * t)

theorem sendable_writeThenRead (j : Nat) (t : Fin 2) :
    Sendable ⟨1, 2, Nat.one_pos⟩ (j = 0) (writeThenRead j t) := by
  have hbounds : (writeThenRead j t).offset + requestLen (j = 0) (writeThenRead j t) ≤ 2 := by
    unfold writeThenRead requestLen
    by_cases hj : j = 0
    · simp only [hj, if_true, DriverData.ofWrite, DriverData.new, decide_true, List.length_singleton]
      omega
    · simp only [hj, if_false, DriverData.ofRead, DriverData.new, decide_false, Bool.false_eq_true]
      omega
  exact ⟨by omega, by omega, Geometry.inRange_of_le (by decide) hbounds⟩

/-- The process is killed when one `WRITE` is done and the other one has written the primary only; the `READ` of the
next session gets both bytes. -/
theorem service_linearizable_killed : ∃ x : Nat → Session (Fin 2) ⟨1, 2, Nat.one_pos⟩,
    Service "data" 2 2 x 2 ∧ ((x 0).progs 1).value? = none ∧
      ((x 1).progs 0).value?.map DriverData.buffer = some [7, 9] ∧
      ∃ order, (sessionMachine x 0).Linearization (fun _ => 0)
        (fun p q => p.1 < q.1 ∨ p.1 = q.1 ∧ Pool.Precedes (x p.1).trace p.2 q.2)
        (fun p => p.1 < 2 ∧ 0 < (fragment ⟨1, 2, Nat.one_pos⟩ 0 ((x p.1).isWrite p.2) ((x p.1).data p.2)).len)
        (fun p b => p.1 < 2 ∧ Returned 0 (x p.1).isWrite (x p.1).data (x p.1).progs p.2 b) order := by
  have hexec : ((Pool.exec handler [0, 1, 0, 0]
      (fun t : Fin 2 => request ⟨1, 2, Nat.one_pos⟩ true (writeThenRead 0 t))
      (inFiles "data" ⟨1, 2, Nat.one_pos⟩ (by decide))).bind fun r =>
        (Pool.exec handler [0] (fun t : Fin 2 => request ⟨1, 2, Nat.one_pos⟩ false (writeThenRead 1 t))
          (r.2.2.reopened (.empty "data"))).map fun r' =>
            ((r.2.1 1).value?.isNone, (r'.2.1 0).value?.map DriverData.buffer)) =
      some (true, some [7, 9]) := by
    decide +kernel
  obtain ⟨⟨tr₀, T₀, s₀⟩, he₀, hexec⟩ := Option.bind_eq_some_iff.mp hexec
  obtain ⟨⟨tr₁, T₁, s₁⟩, he₁, hfacts⟩ := Option.map_eq_some_iff.mp hexec
  obtain ⟨hcut, hread⟩ := Prod.mk.inj hfacts
  have hfirst := start_inFiles (by decide : "data" ≠ "") ⟨1, 2, Nat.one_pos⟩ (by decide)
  obtain ⟨-, -, hp, hz, hsaved, -⟩ := start_empty_inv hfirst
  have hrun₀ := Pool.run_of_exec (R := Unfaulted) (fun _ _ _ _ h => h) he₀
  have hrun₁ := Pool.run_of_exec (R := Unfaulted) (fun _ _ _ _ h => h) he₁
  have hz₀ := (run_unfaulted (fun t => sendable_writeThenRead 0 t) (by decide) hz hsaved hrun₀).2.1
  have hx : Service "data" 2 2 (fun j => if j = 0 then
      ⟨fun _ => true, writeThenRead 0, inFiles "data" ⟨1, 2, Nat.one_pos⟩ (by decide), s₀, T₀, tr₀⟩
      else ⟨fun _ => false, writeThenRead 1, s₀.reopened (.empty "data"), s₁, T₁, tr₁⟩) 2 := by
    refine ⟨fun j hj => ?_, fun j hj t => ?_, fun j hj => ?_⟩
    · obtain rfl | rfl : j = 0 ∨ j = 1 := by omega
      · exact hfirst
      · exact start_stop hp hz₀
    · obtain rfl | rfl : j = 0 ∨ j = 1 := by omega
      · exact sendable_writeThenRead 0 t
      · exact sendable_writeThenRead 1 t
    · obtain rfl | rfl : j = 0 ∨ j = 1 := by omega
      · exact hrun₀
      · exact hrun₁
  exact ⟨_, hx, Option.isNone_iff_eq_none.mp hcut, hread, (service_linearizable (by decide) hx).2 0⟩

end RAIDStorage

end LDS
