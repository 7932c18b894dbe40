import LDS.Server.NBDDriverComm
import LDS.Server.Socket

/-!
# Replies on one socket

A reply is a header and, for some requests, a payload. Both drivers send it by several `write` calls,
with no lock on the socket, while other workers may be sending replies of their own.

## Main definitions

* `TCPDriverComm.replyFrame`, `NBDDriverComm.replyFrame`: the bytes of a reply
* `SendsReply fd`: the calls of `SendReply` on the socket `fd`, with the bytes of their replies
* `Exclusive frame tr`: in the run `tr` nobody writes while the reply of another worker is half sent

## Main results

* `obeys_sendsReply`: `SendReply` sends the bytes of its reply
* `frames_in_turn`: replies that are sent one at a time arrive whole
-/

namespace LDS

/-! ## Frames -/

/-- The bytes of a TCP reply. -/
def TCPDriverComm.replyFrame (data : DriverData) : List Byte :=
  replyHeader data ++ if sendsPayload data then data.buffer else []

/-- The bytes of an NBD reply. -/
def NBDDriverComm.replyFrame (data : DriverData) : List Byte :=
  replyHeader data ++ if data.type = .read ∧ data.status = .success then data.buffer else []

@[simp] theorem TCPDriverComm.length_replyHeader (data : DriverData) :
    (replyHeader data).length = 16 := by simp [replyHeader]

@[simp] theorem NBDDriverComm.length_replyHeader (data : DriverData) :
    (replyHeader data).length = 16 := by simp [replyHeader]

theorem TCPDriverComm.obeys_sendReply_sends {data : DriverData} (h : 0 ≤ data.sourceFd) :
    Prog.Obeys (sends data.sourceFd) (fun rest _ => rest = []) (replyFrame data)
      (sendReply data) := by
  rw [sendReply, if_neg (by omega), replyFrame]
  refine (obeys_writeAll_sends (replyHeader data) _).bind ?_
  rintro rest r ⟨rfl, rfl⟩
  dsimp only
  split
  · refine (obeys_writeAll_rest data.buffer).bind ?_
    rintro rest r ⟨rfl, rfl⟩
    exact .ret rfl
  · exact .ret rfl

theorem NBDDriverComm.obeys_sendReply_sends (serverFd : Int) (data : DriverData) :
    Prog.Obeys (sends serverFd) (fun rest _ => rest = []) (replyFrame data)
      (sendReply serverFd data) := by
  rw [sendReply, replyFrame]
  refine (obeys_writeAll_sends (replyHeader data) _).bind ?_
  rintro rest r ⟨rfl, rfl⟩
  dsimp only
  split
  · exact (obeys_writeAll_rest data.buffer).mono fun _ _ h => h.1
  · exact .ret rfl

/-- A call of `SendReply` that writes to the socket `fd`, and the bytes of its reply: a TCP reply to a
client, or an NBD reply to the kernel. -/
inductive SendsReply (fd : Int) : ServerProg (Except String Unit) → List Byte → Prop
  | tcp {data : DriverData} (hfd : data.sourceFd = fd) (h : 0 ≤ fd) :
    SendsReply fd (TCPDriverComm.sendReply data) (TCPDriverComm.replyFrame data)
  | nbd {data : DriverData} :
    SendsReply fd (NBDDriverComm.sendReply fd data) (NBDDriverComm.replyFrame data)

/-- `SendReply` sends the bytes of its reply. -/
theorem obeys_sendsReply {fd : Int} {p : ServerProg (Except String Unit)} {frame : List Byte}
    (h : SendsReply fd p frame) : Prog.Obeys (sends fd) (fun rest _ => rest = []) frame p := by
  cases h with
  | tcp hfd h =>
    subst hfd
    exact TCPDriverComm.obeys_sendReply_sends h
  | nbd => exact NBDDriverComm.obeys_sendReply_sends fd _

/-- No reply is empty. -/
theorem SendsReply.frame_ne_nil {fd : Int} {p : ServerProg (Except String Unit)} {frame : List Byte}
    (h : SendsReply fd p frame) : frame ≠ [] := by
  apply List.ne_nil_of_length_pos
  cases h with
  | tcp _ _ => simp [TCPDriverComm.replyFrame]
  | nbd => simp [NBDDriverComm.replyFrame]

/-! ## Workers that reply side by side -/

section Workers

variable {ι : Type} [DecidableEq ι]

/-- What the peer has received of the reply of worker `i`. -/
def sent (i : ι) (tr : List (ι × Exchange ServerCall ServerCall.Answer)) : List Byte :=
  (Pool.own i tr).flatMap accepted

@[simp] theorem sent_nil (i : ι) : sent i [] = [] := rfl

theorem sent_snoc_self (i : ι) (tr : List (ι × Exchange ServerCall ServerCall.Answer))
    (e : Exchange ServerCall ServerCall.Answer) :
    sent i (tr ++ [(i, e)]) = sent i tr ++ accepted e := by
  rw [sent, Pool.own_snoc_self, List.flatMap_append, List.flatMap_singleton, sent]

theorem sent_snoc_of_ne {i j : ι} (h : i ≠ j)
    (tr : List (ι × Exchange ServerCall ServerCall.Answer))
    (e : Exchange ServerCall ServerCall.Answer) : sent j (tr ++ [(i, e)]) = sent j tr := by
  rw [sent, Pool.own_snoc_of_ne h, sent]

/-- Whenever a worker writes, no other one has sent a part of its reply only. -/
def Exclusive (frame : ι → List Byte) (tr : List (ι × Exchange ServerCall ServerCall.Answer)) : Prop :=
  ∀ k, ∀ h : k < tr.length, ∀ j, j ≠ (tr.get ⟨k, h⟩).1 →
    sent j (tr.take k) = [] ∨ sent j (tr.take k) = frame j

instance [Fintype ι] (frame : ι → List Byte)
    (tr : List (ι × Exchange ServerCall ServerCall.Answer)) : Decidable (Exclusive frame tr) :=
  inferInstanceAs (Decidable (∀ k, ∀ h : k < tr.length, ∀ j, j ≠ (tr.get ⟨k, h⟩).1 →
    sent j (tr.take k) = [] ∨ sent j (tr.take k) = frame j))

theorem exclusive_snoc {frame : ι → List Byte}
    {tr : List (ι × Exchange ServerCall ServerCall.Answer)}
    {e : ι × Exchange ServerCall ServerCall.Answer} (h : Exclusive frame (tr ++ [e])) :
    Exclusive frame tr ∧ ∀ j, j ≠ e.1 → sent j tr = [] ∨ sent j tr = frame j := by
  constructor
  · intro k hk j hj
    have hk' : k < (tr ++ [e]).length := by
      rw [List.length_append]
      omega
    -- what stands in front of an exchange is the same in the shorter trace
    have hget : (tr ++ [e]).get ⟨k, hk'⟩ = tr.get ⟨k, hk⟩ := List.getElem_append_left hk
    have := h k hk' j (by rwa [hget])
    rwa [List.take_append_of_le_length hk.le] at this
  · intro j hj
    have := h tr.length (by simp) j (by simpa using hj)
    rwa [List.take_left] at this

variable {fd : Int} {frame : ι → List Byte} {s₀ s s' : List Byte}
  {T₀ T T' : ι → ServerProg (Except String Unit)}
  {tr : List (ι × Exchange ServerCall ServerCall.Answer)}

/-- What was sent are parts of the replies of `order`, one after the other; all but the last of them
are whole. -/
structure InTurn (fd : Int) (frame : ι → List Byte) (s₀ : List Byte)
    (tr : List (ι × Exchange ServerCall ServerCall.Answer))
    (T : ι → ServerProg (Except String Unit)) (s : List Byte) (order : List ι) : Prop where
  rest : ∀ i, ∃ rest, frame i = sent i tr ++ rest ∧
    Prog.Obeys (sends fd) (fun rest _ => rest = []) rest (T i)
  stream : s = s₀ ++ order.flatMap (sent · tr)
  nodup : order.Nodup
  mem_iff : ∀ i, i ∈ order ↔ sent i tr ≠ []
  complete : ∀ i ∈ order.dropLast, sent i tr = frame i

/-- One `write` of one worker, while no other one has sent a part of its reply only. -/
theorem InTurn.step {order : List ι} {e : ι × Exchange ServerCall ServerCall.Answer}
    (h : InTurn fd frame s₀ tr T s order) (hs : Pool.Step (Accepts fd) T s e T' s')
    (hex : ∀ j, j ≠ e.1 → sent j tr = [] ∨ sent j tr = frame j) :
    ∃ order', InTurn fd frame s₀ (tr ++ [e]) T' s' order' := by
  obtain ⟨hrest, rfl, hnodup, hmem, hcomplete⟩ := h
  cases hs with
  | @call i o k a _ _ hi hR =>
    obtain ⟨rest, hframe, hp⟩ := hrest i
    rw [hi] at hp
    obtain ⟨ho, hk⟩ := hp.call_inv
    obtain ⟨ha, hne, rfl, hsplit⟩ := sends_step ho hR
    have hself : sent i (tr ++ [(i, ⟨o, a⟩)]) = sent i tr ++ accepted ⟨o, a⟩ := sent_snoc_self ..
    have hother : ∀ j, j ≠ i → sent j (tr ++ [(i, ⟨o, a⟩)]) = sent j tr := fun j hj =>
      sent_snoc_of_ne hj.symm ..
    have hrest' : ∀ j, ∃ rest, frame j = sent j (tr ++ [(i, ⟨o, a⟩)]) ++ rest ∧
        Prog.Obeys (sends fd) (fun rest _ => rest = []) rest (Function.update T i (k a) j) := by
      intro j
      rcases eq_or_ne j i with rfl | hj
      · exact ⟨_, by rw [hself, List.append_assoc, ← hsplit, hframe], by
          rw [Function.update_self]
          exact hk a ha⟩
      · rw [hother j hj, Function.update_of_ne hj]
        exact hrest j
    by_cases hi : i ∈ order
    · -- a worker that still has something to write is the last one that has written
      obtain ⟨front, last, rfl⟩ : ∃ front last, order = front ++ [last] := by
        rcases List.eq_nil_or_concat order with rfl | ⟨front, last, rfl⟩
        · cases hi
        · exact ⟨front, last, List.concat_eq_append⟩
      rw [List.dropLast_concat] at hcomplete
      have hfront : i ∉ front := fun hi' => by
        rw [hcomplete i hi', List.self_eq_append_right] at hframe
        rw [hframe] at hsplit
        exact hne (List.append_eq_nil_iff.mp hsplit.symm).1
      obtain rfl : i = last :=
        (List.mem_append.mp hi).elim (fun h => absurd h hfront) List.mem_singleton.mp
      have hsame : front.flatMap (sent · (tr ++ [(i, ⟨o, a⟩)])) = front.flatMap (sent · tr) :=
        List.flatMap_congr fun j hj => hother j (ne_of_mem_of_not_mem hj hfront)
      refine ⟨front ++ [i], hrest', ?_, hnodup, fun j => ?_, fun j hj => ?_⟩
      · simp only [List.flatMap_append, List.flatMap_singleton, hsame, hself, List.append_assoc]
      · rcases eq_or_ne j i with rfl | hj
        · simp [hself, hne]
        · rw [hmem j, hother j hj]
      · rw [List.dropLast_concat] at hj
        rw [hother j (ne_of_mem_of_not_mem hj hfront)]
        exact hcomplete j hj
    · -- a worker that begins finds every reply before its own whole
      have hsame : order.flatMap (sent · (tr ++ [(i, ⟨o, a⟩)])) = order.flatMap (sent · tr) :=
        List.flatMap_congr fun j hj => hother j (ne_of_mem_of_not_mem hj hi)
      have hnone : sent i tr = [] := by
        by_contra h
        exact hi ((hmem i).mpr h)
      refine ⟨order ++ [i], hrest', ?_, ?_, fun j => ?_, fun j hj => ?_⟩
      · simp only [List.flatMap_append, List.flatMap_singleton, hsame, hself, hnone,
          List.nil_append, List.append_assoc]
      · rw [List.nodup_append]
        refine ⟨hnodup, List.nodup_singleton i, fun j hj j' hj' => ?_⟩
        rw [List.mem_singleton.mp hj']
        exact ne_of_mem_of_not_mem hj hi
      · rcases eq_or_ne j i with rfl | hj
        · simp [hself, hne]
        · rw [List.mem_append, List.mem_singleton, or_iff_left hj, hmem j, hother j hj]
      · rw [List.dropLast_concat] at hj
        have hji := ne_of_mem_of_not_mem hj hi
        rw [hother j hji]
        exact (hex j hji).resolve_left ((hmem j).mp hj)

/-- The replies that were sent one at a time, so far. -/
theorem InTurn.run (hT : ∀ i, SendsReply fd (T₀ i) (frame i))
    (hr : Pool.Run (Accepts fd) T₀ s₀ tr T s) (hex : Exclusive frame tr) :
    ∃ order, InTurn fd frame s₀ tr T s order := by
  refine hr.invariant (I := fun tr T s => Exclusive frame tr →
    ∃ order, InTurn fd frame s₀ tr T s order) ?_ ?_ hex
  · intro _
    refine ⟨[], fun i => ⟨frame i, rfl, obeys_sendsReply (hT i)⟩, ?_, List.nodup_nil, ?_, ?_⟩
    · rw [List.flatMap_nil, List.append_nil]
    · simp
    · simp
  · intro tr T s e T' s' hs ih hex
    obtain ⟨hex, he⟩ := exclusive_snoc hex
    obtain ⟨order, h⟩ := ih hex
    exact h.step hs he

/-- **Replies that are sent one at a time** arrive whole: at any moment the peer has received whole
replies and a part of one more, and when the workers are done it has received every reply. -/
theorem frames_in_turn (hT : ∀ i, SendsReply fd (T₀ i) (frame i))
    (hr : Pool.Run (Accepts fd) T₀ s₀ tr T s) (hex : Exclusive frame tr) :
    ∃ (order : List ι) (part : List Byte), order.Nodup ∧ s = s₀ ++ order.flatMap frame ++ part ∧
      (part = [] ∨ ∃ i, i ∉ order ∧ part <+: frame i) ∧
      ((∀ i, (T i).value?.isSome) → part = [] ∧ ∀ i, i ∈ order) := by
  obtain ⟨order, hrest, rfl, hnodup, hmem, hcomplete⟩ := InTurn.run hT hr hex
  have hdone : (∀ i, (T i).value?.isSome) → ∀ i, sent i tr = frame i := fun h i => by
    obtain ⟨rest, hframe, hp⟩ := hrest i
    have hi := h i
    cases hTi : T i with
    | ret r =>
      rw [hTi] at hp
      rw [hframe, hp.ret_inv, List.append_nil]
    | call o k => rw [hTi] at hi; cases hi
    | abort => rw [hTi] at hi; cases hi
  have hall : (∀ i, (T i).value?.isSome) → ∀ i, i ∈ order := fun h i =>
    (hmem i).mpr (hdone h i ▸ (hT i).frame_ne_nil)
  rcases List.eq_nil_or_concat order with rfl | ⟨front, last, rfl⟩
  · exact ⟨[], [], List.nodup_nil, by simp, .inl rfl, fun h => ⟨rfl, hall h⟩⟩
  rw [List.concat_eq_append] at *
  rw [List.dropLast_concat] at hcomplete
  have hfront : front.flatMap (sent · tr) = front.flatMap frame := List.flatMap_congr hcomplete
  by_cases hlast : sent last tr = frame last
  · -- the last reply is whole as well
    refine ⟨front ++ [last], [], hnodup, ?_, .inl rfl, fun h => ⟨rfl, hall h⟩⟩
    simp only [List.flatMap_append, List.flatMap_singleton, hfront, hlast, List.append_nil]
  · refine ⟨front, sent last tr, (List.nodup_append.mp hnodup).1, ?_, .inr ⟨last, ?_, ?_⟩,
      fun h => absurd (hdone h last) hlast⟩
    · simp only [List.flatMap_append, List.flatMap_singleton, hfront, List.append_assoc]
    · exact fun h => (List.nodup_append.mp hnodup).2.2 last h last (List.mem_singleton_self _) rfl
    · obtain ⟨rest, hframe, -⟩ := hrest last
      exact ⟨rest, hframe.symm⟩

end Workers

/-! ## Two replies at a time -/

/-- A socket that takes all it is given. -/
def acceptAll (fd : Int) : Prog.Handler ServerCall ServerCall.Answer (List Byte)
  | .write fd' buf, s =>
    if fd' = fd ∧ 0 < buf.length then some (.ok (Fin.last buf.length), s ++ buf) else none
  | _, _ => none

theorem accepts_acceptAll {fd : Int} (s : List Byte) (o : ServerCall) (a : o.Answer)
    (s' : List Byte) (h : acceptAll fd o s = some (a, s')) : Accepts fd s o a s' := by
  unfold acceptAll at h
  split at h
  · rename_i fd' buf
    simp only [Option.ite_none_right_eq_some] at h
    obtain ⟨⟨rfl, hpos⟩, h⟩ := h
    obtain ⟨rfl, rfl⟩ := Prod.mk.inj (Option.some.inj h)
    have hw : Accepts fd' s (.write fd' buf) (.ok (Fin.last buf.length))
        (s ++ buf.take (Fin.last buf.length)) := .write hpos
    rwa [Fin.val_last, List.take_length] at hw
  · cases h

/-- Two `READ` requests of one client, served. -/
def twoReads (t : Fin 2) : DriverData :=
  { DriverData.new .read t 0 1 with buffer := [7], sourceFd := 5 }

/-- The second worker sends its header between the header and the payload of the first one. -/
theorem frames_interleave :
    ¬ ∀ (tr : List (Fin 2 × Exchange ServerCall ServerCall.Answer)) T s,
      Pool.Run (Accepts 5) (fun t => TCPDriverComm.sendReply (twoReads t)) [] tr T s →
      (∀ t, (T t).value?.isSome) →
      ∃ order : List (Fin 2), order.Nodup ∧ (∀ t, t ∈ order) ∧
        s = order.flatMap fun t => TCPDriverComm.replyFrame (twoReads t) := by
  intro h
  have hexec : (Pool.exec (acceptAll 5) [0, 1, 0, 1]
      (fun t => TCPDriverComm.sendReply (twoReads t)) []).map (fun r =>
        (decide (∀ t, (r.2.1 t).value?.isSome), decide (∀ order ∈ [[0, 1], [1, 0]],
          r.2.2 ≠ order.flatMap fun t => TCPDriverComm.replyFrame (twoReads t)))) =
        some (true, true) := by
    decide +kernel
  obtain ⟨⟨tr, T, s⟩, he, hproj⟩ := Option.map_eq_some_iff.mp hexec
  obtain ⟨hdone, hne⟩ := Prod.mk.inj hproj
  obtain ⟨order, hnodup, hall, hs⟩ := h tr T s (Pool.run_of_exec accepts_acceptAll he)
    (of_decide_eq_true hdone)
  -- there are two orders, and the bytes are those of neither
  have hperm : order.Perm (List.finRange 2) :=
    (List.perm_ext_iff_of_nodup hnodup (List.nodup_finRange 2)).mpr fun t => by simp [hall t]
  obtain ⟨t, t', rfl⟩ := List.length_eq_two.mp (hperm.length_eq.trans (List.length_finRange))
  have hmem : ∀ t t' : Fin 2, [t, t'].Nodup → [t, t'] ∈ [[0, 1], [(1 : Fin 2), 0]] := by decide
  exact of_decide_eq_true hne _ (hmem t t' hnodup) hs

/-- The same replies, one after the other. -/
theorem frames_in_turn_two_reads :
    ∃ tr, ∃ T : Fin 2 → _, ∃ s, Pool.Run (Accepts 5)
        (fun t => TCPDriverComm.sendReply (twoReads t)) [] tr T s ∧
      ∃ (order : List (Fin 2)) (part : List Byte), order.Nodup ∧
        s = [] ++ (order.flatMap fun t => TCPDriverComm.replyFrame (twoReads t)) ++ part ∧
        (part = [] ∨ ∃ t, t ∉ order ∧ part <+: TCPDriverComm.replyFrame (twoReads t)) ∧
        ((∀ t, (T t).value?.isSome) → part = [] ∧ ∀ t, t ∈ order) := by
  have hexec : (Pool.exec (acceptAll 5) [0, 0, 1, 1]
      (fun t => TCPDriverComm.sendReply (twoReads t)) []).map (fun r =>
        decide (Exclusive (fun t => TCPDriverComm.replyFrame (twoReads t)) r.1)) = some true := by
    decide +kernel
  obtain ⟨⟨tr, T, s⟩, he, hex⟩ := Option.map_eq_some_iff.mp hexec
  have hrun := Pool.run_of_exec accepts_acceptAll he
  exact ⟨tr, T, s, hrun, frames_in_turn (fun t => .tcp rfl (by decide)) hrun
    (of_decide_eq_true hex)⟩

end LDS
