import LDS.Library.Trace
import LDS.Server.ListOffsets
import LDS.Server.OneReply

/-!
# Durability

What a process writes to a file is in the cache of the kernel, which brings it to the disk when it likes,
unless the file is synced; when the machine crashes only what is on the disk is left. The server syncs no
file: its `FLUSH` handler does nothing but reply. What a client may rely on after a `FLUSH` is therefore what
the kernel has written back by itself.

## Main definitions

* `Host g`: the commands, the cached files under the storage, and what is on the disk
* `Host.Step`: a request is received, a command makes a call, the kernel writes back
* `Host.Durable`: each `WRITE` that was answered before a `FLUSH` was received is on the disk, once that is
  answered
* `Host.Synced`: a `FLUSH` is answered when the kernel has written back what was there when it was received

## Main results

* `Host.carriedOut_of_reply`: the calls of a `WRITE` that was answered
* `Host.image_of_trace`, `Host.images_of_trace`: bytes stay in the cache, and on the disk, until they are
  written over
* `Host.durable_of_synced`: what is durable as long as the kernel writes back in time
-/

namespace LDS

open Memory FileMetadataStore InputMediator

/-- The server over the file backend, and the disk under it: the commands, those that have been received,
the storage, whose minions and metadata store hold the cached files, and the files on the disk. -/
structure Host (g : Geometry) where
  commands : Nat → CommandProg (RAIDCall.Answer (g := g)) (Except String Unit)
  received : Finset Nat
  storage : RAIDStorage StorageMinionFile FileMetadataStore g
  images : Fin g.numMinions → List Byte
  metadata : List Byte

namespace Host

variable {g : Geometry}

/-- The actions: a request is received, a command makes a call, the kernel writes back. -/
inductive Action (g : Geometry)
  | receive (t : Nat)
  | call (t : Nat) (e : Exchange (CommandCall (RAIDCall g)) (CommandCall.Answer RAIDCall.Answer))
  | writeBack (images : Fin g.numMinions → List Byte) (metadata : List Byte)

/-- The bytes of the metadata file, as the process has left it. -/
def cachedMetadata (s : Host g) : List Byte := s.storage.metadataStore.file.getD []

/-- The index that is on the disk. -/
def persisted (s : Host g) : SizeMap := load ⟨"", some s.metadata⟩

/-- The steps of the server and of the kernel, which may write back any bytes. `Save` empties the
metadata file first, so that bytes of it may also be missing. -/
inductive Step : Host g → Action g → Host g → Prop
  | receive {s : Host g} {t : Nat} (ht : t ∉ s.received) :
      Step s (.receive t) { s with received := insert t s.received }
  | call {s : Host g} {st : RAIDStorage StorageMinionFile FileMetadataStore g} {t : Nat}
      {o : CommandCall (RAIDCall g)} {a : CommandCall.Answer RAIDCall.Answer o}
      {k : CommandCall.Answer RAIDCall.Answer o → CommandProg RAIDCall.Answer (Except String Unit)}
      (ht : t ∈ s.received) (hT : s.commands t = .call o k)
      (hR : Serves RAIDStorage.Answers s.storage o a st) :
      Step s (.call t ⟨o, a⟩) { s with commands := Function.update s.commands t (k a), storage := st }
  | writeBack {s : Host g} {images : Fin g.numMinions → List Byte} {metadata : List Byte}
      (hi : ∀ i (x : Nat), (images i)[x]? = (s.images i)[x]? ∨
        (images i)[x]? = ((s.storage.minions i).image)[x]?)
      (hm : ∀ x : Nat, metadata[x]? = s.metadata[x]? ∨ metadata[x]? = s.cachedMetadata[x]? ∨
        metadata[x]? = none) :
      Step s (.writeBack images metadata) { s with images := images, metadata := metadata }

/-- A server that has not received any of the requests yet. -/
structure Started (requests : Nat → DriverData) (s : Host g) : Prop where
  commands : s.commands = fun t => command (RAIDStorage.toIStorage g) (requests t)
  received : s.received = ∅

/-! ## What is durable -/

/-- A call writes the byte `x` of the image `i`, or part of its range. -/
def Covers (i : Fin g.numMinions) (x : Nat) : Action g → Prop
  | .call _ ⟨.storage (.minionWrite j a buf), _⟩ => j = i ∧ a ≤ x ∧ x < a + buf.length
  | _ => False

/-- A call records a size at the offset. -/
def Records (offset : Nat) : Action g → Prop
  | .call _ ⟨.storage (.recordSize a _), _⟩ => a = offset
  | _ => False

/-- The reply to a request is sent, with `SUCCESS`. -/
def Replies (t : Nat) (act : Action g) : Prop :=
  ∃ data a, act = .call t ⟨.sendReply data, a⟩ ∧ data.status = .success

/-- The `WRITE` was answered before the `FLUSH` was received, and that has been answered too. -/
def FlushedBy (requests : Nat → DriverData) (w f : Nat) (tr : List (Action g)) : Prop :=
  (requests w).type = .write ∧ (requests f).type = .flush ∧
    ∃ A B C D reply reply', Replies w reply ∧ Replies f reply' ∧
      tr = A ++ reply :: (B ++ .receive f :: (C ++ reply' :: D))

/-- The bytes of a chunk that the `WRITE` has stored in the image `i` are on the disk, those apart that have
been written over since. -/
def BytesPresent (request : DriverData) (w : Nat) (c : Chunk) (i : Fin g.numMinions) (tr : List (Action g))
    (s : Host g) : Prop :=
  ∃ A B, tr = A ++ .call w ⟨.storage (.minionWrite i (g.localOffset c.offset)
      (slice request.buffer c.bufPos c.len)), .ok ()⟩ :: B ∧
    ∀ k < c.len, (∀ act ∈ B, ¬ Covers i (g.localOffset c.offset + k) act) →
      (s.images i)[g.localOffset c.offset + k]? = (slice request.buffer c.bufPos c.len)[k]?

/-- The entry of the `WRITE` is in the index on the disk, unless another one has taken its place since. -/
def EntryPresent (request : DriverData) (w : Nat) (tr : List (Action g)) (s : Host g) : Prop :=
  ∃ A B, tr = A ++ .call w ⟨.storage (.recordSize request.offset request.buffer.length), .ok ()⟩ :: B ∧
    ((∀ act ∈ B, ¬ Records request.offset act) →
      s.persisted[request.offset]? = some request.buffer.length)

/-- After a crash every flushed `WRITE` is there: the bytes of each of its chunks in one of the copies, and
its entry. -/
def Durable (requests : Nat → DriverData) (tr : List (Action g)) (s : Host g) : Prop :=
  ∀ w f, FlushedBy requests w f tr →
    (∀ c ∈ g.chunks (requests w).offset (requests w).buffer.length 0, ∃ i,
      (i = g.primary (g.primaryIndex c.offset) ∨ i = g.mirrorIndex (g.primaryIndex c.offset)) ∧
        BytesPresent (requests w) w c i tr s) ∧
    EntryPresent (requests w) w tr s

/-! ## When it is durable -/

/-- What the files and the index held when `f` was received is on the disk, what has been replaced since
apart. -/
def WrittenBack (f : Nat) (tr : List (Action g)) (s : Host g) : Prop :=
  ∀ A B, tr = A ++ .receive f :: B →
    (∀ i (x : Nat), (∀ act ∈ B, ¬ Covers i x act) → (s.images i)[x]? = ((s.storage.minions i).image)[x]?) ∧
    ∀ offset : Nat, (∀ act ∈ B, ¬ Records offset act) →
      s.persisted[offset]? = s.storage.offsetSizes[offset]?

/-- A write-back does not take an entry off the disk, as it does when it comes between the two halves of a
`Save`. -/
def KeepsEntries (s : Host g) : Action g → Prop
  | .writeBack _ metadata => ∀ offset : Nat, s.persisted[offset]? = s.storage.offsetSizes[offset]? →
      (load ⟨"", some metadata⟩)[offset]? = s.storage.offsetSizes[offset]?
  | _ => True

/-- A `FLUSH` is answered when the kernel has written back by itself what was there when it was received,
and the kernel then keeps the entries on the disk. -/
def Synced (requests : Nat → DriverData) (x : List (Action g) × Host g) (act : Action g) : Prop :=
  (∀ f, (requests f).type = .flush → Replies f act → WrittenBack f x.1 x.2) ∧
    ((∃ f, (requests f).type = .flush ∧ ∃ reply ∈ x.1, Replies f reply) → x.2.KeepsEntries act)

variable {requests : Nat → DriverData} {s₀ s : Host g} {tr : List (Action g)}

/-! ## The commands of a run -/

/-- The call of a command. -/
def call? : Action g →
    Option (Nat × Exchange (CommandCall (RAIDCall g)) (CommandCall.Answer RAIDCall.Answer))
  | .call t e => some (t, e)
  | _ => none

/-- The calls of the commands. -/
def calls (tr : List (Action g)) :
    List (Nat × Exchange (CommandCall (RAIDCall g)) (CommandCall.Answer RAIDCall.Answer)) :=
  tr.filterMap call?

theorem mem_calls {t : Nat} {e : Exchange (CommandCall (RAIDCall g)) (CommandCall.Answer RAIDCall.Answer)} :
    (t, e) ∈ calls tr ↔ .call t e ∈ tr := by
  rw [calls, List.mem_filterMap]
  constructor
  · rintro ⟨act, hact, he⟩
    cases act with
    | call t' e' =>
      obtain ⟨rfl, rfl⟩ := Prod.mk.inj (Option.some.inj he)
      exact hact
    | receive t' => cases he
    | writeBack images metadata => cases he
  · exact fun h => ⟨_, h, rfl⟩

theorem calls_append (tr tr' : List (Action g)) : calls (tr ++ tr') = calls tr ++ calls tr' :=
  List.filterMap_append

/-- The commands run as in a pool; the kernel is not in their way. -/
theorem run_of_trace (h₀ : s₀.Started requests) (hr : Trace Step s₀ tr s) :
    Pool.Run (Serves RAIDStorage.Answers) (fun t => command (RAIDStorage.toIStorage g) (requests t))
      s₀.storage (calls tr) s.commands s.storage := by
  refine hr.invariant (I := fun tr s => Pool.Run (Serves RAIDStorage.Answers)
    (fun t => command (RAIDStorage.toIStorage g) (requests t)) s₀.storage (calls tr) s.commands s.storage)
    ?_ ?_
  · rw [h₀.commands]
    exact .nil
  · intro tr s act s' hs hrun
    rw [calls_append]
    cases hs with
    | receive ht => exact (List.append_nil (calls tr)).symm ▸ hrun
    | call ht hT hR => exact .snoc hrun (.call hT hR)
    | writeBack hi hm => exact (List.append_nil (calls tr)).symm ▸ hrun

/-- The calls that a `WRITE` has made when it is answered with `SUCCESS`. -/
theorem carriedOut_of_reply (h₀ : s₀.Started requests) (hr : Trace Step s₀ tr s) {w : Nat}
    (hw : (requests w).type = .write) {A B : List (Action g)} {reply : Action g} (hreply : Replies w reply)
    (htr : tr = A ++ reply :: B) :
    (∀ c ∈ g.chunks (requests w).offset (requests w).buffer.length 0, ∀ i,
      i = g.primary (g.primaryIndex c.offset) ∨ i = g.mirrorIndex (g.primaryIndex c.offset) →
      .call w ⟨.storage (.minionWrite i (g.localOffset c.offset)
        (slice (requests w).buffer c.bufPos c.len)), .ok ()⟩ ∈ A) ∧
    .call w ⟨.storage (.recordSize (requests w).offset (requests w).buffer.length), .ok ()⟩ ∈ A := by
  obtain ⟨data, a, rfl, hst⟩ := hreply
  -- the command, when it has just sent its reply
  rw [htr, ← List.singleton_append, ← List.append_assoc] at hr
  obtain ⟨s₁, hr₁, -⟩ := hr.append_inv
  obtain ⟨-, hsteps⟩ := (run_of_trace h₀ hr₁).steps (I := fun _ => True) (fun _ _ _ _ _ _ => trivial) trivial
  have hstep := hsteps w
  have hown : Pool.own w (calls (A ++ [Action.call w ⟨.sendReply data, a⟩])) =
      Pool.own w (calls A) ++ [⟨.sendReply data, a⟩] := by
    rw [calls_append]
    exact Pool.own_snoc_self w (calls A) _
  have hcommand : command (RAIDStorage.toIStorage g) (requests w) =
      callStorage (do return .ok (← RAIDStorage.write g (requests w))) >>= Backend.replyTo := by
    rw [command, hw]
    rfl
  rw [hown, hcommand] at hstep
  rcases Backend.callStorage_bind_inv (B := Backend.raidStorage StorageMinionFile FileMetadataStore g)
      hstep with ⟨p', tr', -, h, -⟩ | ⟨v, tr', tr₂, hp, h, hf⟩
  · exact absurd h (ne_map_ofStorage _ _ _ tr')
  rcases v with what | data'
  · obtain ⟨rfl, -, -⟩ := hf.ret_inv
    exact absurd (h.trans (List.append_nil _)) (ne_map_ofStorage _ _ _ tr')
  rcases hf.call_inv with ⟨rfl, -, -⟩ | ⟨a', ⟨⟩, tr₃, rfl, -, hf⟩
  · exact absurd (h.trans (List.append_nil _)) (ne_map_ofStorage _ _ _ tr')
  obtain ⟨rfl, -, -⟩ := hf.ret_inv
  obtain ⟨hcalls, hlast⟩ := List.append_inj' h rfl
  obtain ⟨hdata, -⟩ := Sigma.mk.inj (List.singleton_inj.mp hlast)
  obtain rfl := CommandCall.sendReply.inj hdata
  obtain ⟨data', ⟨⟩, tr₁, tr₂, rfl, hwrite, hret⟩ := hp.bind_ret_inv
  obtain ⟨rfl, hq, -⟩ := hret.ret_inv
  obtain rfl := Except.ok.inj (Prog.ret.inj hq)
  rw [List.append_nil] at hcalls
  have hdivisor : (requests w).buffer.length = 0 ∨ 0 < g.stripeSize := by
    by_contra hn
    have habort : RAIDStorage.write g (requests w) = .abort := by
      rw [RAIDStorage.write, RAIDStorage.writeLoop, if_pos (by omega), if_pos (by omega)]
      rfl
    rw [habort] at hwrite
    cases hwrite.abort_inv.2.1
  have hmem : ∀ e ∈ tr₁, Action.call w (ofStorage e) ∈ A := by
    intro e he
    rw [← mem_calls, ← Pool.mem_own, hcalls]
    exact List.mem_map_of_mem he
  obtain ⟨-, hok⟩ := RAIDStorage.write_returns hdivisor hwrite
  obtain ⟨hchunks, hrecord⟩ := hok hst
  exact ⟨fun c hc i hi => hmem _ (hchunks c hc i hi), hmem _ hrecord⟩

/-! ## The cached files -/

theorem getElem?_insert_of_ne {m : SizeMap} {k k' v : Nat} (h : ¬ k = k') : (m.insert k v)[k']? = m[k']? := by
  rw [Std.ExtTreeMap.getElem?_insert, if_neg fun hc => h (Nat.compare_eq_eq.mp hc)]

theorem getElem?_overwrite {l buf : List Byte} {a : Nat} (h : a ≤ l.length) (x : Nat) :
    (overwrite l a buf)[x]? =
      if a ≤ x ∧ x < a + buf.length then buf[x - a]? else l[x]? := by
  rw [overwrite, List.append_assoc]
  rcases Nat.lt_or_ge x a with hx | hx
  · rw [if_neg (by omega), List.getElem?_append_left (by simp; omega), List.getElem?_take_of_lt hx]
  rw [List.getElem?_append_right (by simp; omega), List.length_take, Nat.min_eq_left h]
  rcases Nat.lt_or_ge x (a + buf.length) with hx' | hx'
  · rw [if_pos ⟨hx, hx'⟩, List.getElem?_append_left (by omega)]
  · rw [if_neg (by omega), List.getElem?_append_right (by omega), List.getElem?_drop]
    congr 1
    omega

/-- What a `Write` makes of the image of a file minion. -/
theorem image_write (m : StorageMinionFile) (a : Nat) (buf : List Byte) :
    (StorageMinionFile.write m a buf).2.image = m.image ∧
        ((StorageMinionFile.write m a buf).1 = .ok () → buf = []) ∨
      ∃ moved, moved <+: buf ∧ (StorageMinionFile.write m a buf).2.image =
        overwrite (m.image ++ List.replicate (a - m.image.length) 0) a moved ∧
        ((StorageMinionFile.write m a buf).1 = .ok () → moved = buf) := by
  unfold StorageMinionFile.write StorageMinionFile.writeBy
  split
  · -- the guard throws
    exact .inl ⟨rfl, fun h => by cases h⟩
  by_cases hfile : 2 ^ 63 ≤ a + buf.length
  · rw [pwrite, if_pos hfile]
    exact .inl ⟨rfl, fun h => by cases h⟩
  rw [pwrite, if_neg hfile]
  -- a transfer of nothing leaves the image as long as it was
  by_cases hmoved : buf.take maxTransfer = []
  · left
    simp only [if_pos hmoved]
    split
    · exact ⟨rfl, fun h => by cases h⟩
    · rename_i hn
      exact ⟨rfl, fun _ => List.eq_nil_of_length_eq_zero (by omega)⟩
  · right
    refine ⟨buf.take maxTransfer, List.take_prefix _ _, ?_⟩
    simp only [if_neg hmoved]
    split
    · exact ⟨rfl, fun h => by cases h⟩
    · rename_i hn
      exact ⟨rfl, fun _ => (List.take_prefix _ _).eq_of_length (not_not.mp hn)⟩

/-- A `Write` that returns has left its bytes in the image. -/
theorem getElem?_image_write {m : StorageMinionFile} {a : Nat} {buf : List Byte}
    (hok : (StorageMinionFile.write m a buf).1 = .ok ()) {k : Nat} (hk : k < buf.length) :
    (StorageMinionFile.write m a buf).2.image[a + k]? = buf[k]? := by
  rcases image_write m a buf with ⟨-, hnil⟩ | ⟨moved, -, himage, hmoved⟩
  · rw [hnil hok] at hk
    cases hk
  · obtain rfl := hmoved hok
    rw [himage, getElem?_overwrite (by simp; omega), if_pos (by omega), Nat.add_sub_cancel_left]

/-- A `Write` leaves the bytes outside its range. -/
theorem getElem?_image_write_of_not {m : StorageMinionFile} {a x : Nat} {buf : List Byte} {b : Byte}
    (hb : m.image[x]? = some b) (hx : ¬ (a ≤ x ∧ x < a + buf.length)) :
    (StorageMinionFile.write m a buf).2.image[x]? = some b := by
  have hlt : x < m.image.length := (List.getElem?_eq_some_iff.mp hb).1
  rcases image_write m a buf with ⟨himage, -⟩ | ⟨moved, hmoved, himage, -⟩
  · rw [himage, hb]
  · have hle := hmoved.length_le
    rw [himage, getElem?_overwrite (by simp; omega), if_neg (by omega), List.getElem?_append_left hlt, hb]

/-- A call that does not cover a byte of an image leaves it. -/
theorem image_of_answers {s s' : RAIDStorage StorageMinionFile FileMetadataStore g} {o : RAIDCall g}
    {a : o.Answer} (h : RAIDStorage.Answers s o a s') {i : Fin g.numMinions} {x : Nat} {b : Byte}
    (hb : (s.minions i).image[x]? = some b) {t : Nat} (hx : ¬ Covers i x (.call t ⟨.storage o, a⟩)) :
    (s'.minions i).image[x]? = some b := by
  cases h.effect with
  | none => exact hb
  | @minionWrite j offset buf =>
    rcases eq_or_ne i j with rfl | hne
    · have hx' : ¬ (offset ≤ x ∧ x < offset + buf.length) := fun h => hx ⟨rfl, h⟩
      simp only [RAIDStorage.setMinion, Function.update_self]
      exact getElem?_image_write_of_not hb hx'
    · simpa [RAIDStorage.setMinion, hne] using hb
  | recordSize => exact hb

/-- What a `Write` that returns has written is there. -/
theorem image_of_answers_ok {s s' : RAIDStorage StorageMinionFile FileMetadataStore g}
    {i : Fin g.numMinions} {offset : Nat} {buf : List Byte}
    (h : RAIDStorage.Answers s (.minionWrite i offset buf) (.ok ()) s') {k : Nat} (hk : k < buf.length) :
    (s'.minions i).image[offset + k]? = buf[k]? := by
  cases h with
  | own h =>
    obtain ⟨a', ha, he⟩ := Option.map_eq_some_iff.mp h
    obtain ⟨rfl, rfl⟩ := Prod.mk.inj he
    simp only [RAIDStorage.setMinion, Function.update_self]
    exact getElem?_image_write (Outcome.answer?_eq_ok.mp ha) hk

/-- A call that does not record a size at the offset leaves its entry. -/
theorem index_of_answers {s s' : RAIDStorage StorageMinionFile FileMetadataStore g} {o : RAIDCall g}
    {a : o.Answer} (h : RAIDStorage.Answers s o a s') {offset t : Nat}
    (hx : ¬ Records offset (.call t ⟨.storage o, a⟩)) :
    s'.offsetSizes[offset]? = s.offsetSizes[offset]? := by
  cases h.effect with
  | none => rfl
  | minionWrite => rfl
  | recordSize => exact getElem?_insert_of_ne hx

theorem index_of_answers_ok {s s' : RAIDStorage StorageMinionFile FileMetadataStore g} {offset size : Nat}
    (h : RAIDStorage.Answers s (.recordSize offset size) (.ok ()) s') :
    s'.offsetSizes[offset]? = some size := by
  cases h with
  | own h =>
    obtain ⟨-, rfl⟩ := Prod.mk.inj (Option.some.inj h)
    exact Std.ExtTreeMap.getElem?_insert_self

theorem answers_of_serves {s s' : RAIDStorage StorageMinionFile FileMetadataStore g} {o : RAIDCall g}
    {a : o.Answer} (h : Serves RAIDStorage.Answers s (.storage o) a s') : RAIDStorage.Answers s o a s' := by
  match h with
  | .storage h => exact h

/-! ## A run, and the disk -/

/-- A byte of an image stays until it is written over. -/
theorem image_of_step {act : Action g} {s' : Host g} (hs : Step s act s') {i : Fin g.numMinions} {x : Nat}
    {b : Byte} (hb : (s.storage.minions i).image[x]? = some b) (hx : ¬ Covers i x act) :
    (s'.storage.minions i).image[x]? = some b := by
  cases hs with
  | receive ht => exact hb
  | writeBack hi hm => exact hb
  | call ht hT hR =>
    cases hR with
    | storage hR => exact image_of_answers hR hb hx
    | sendReply => exact hb

/-- A byte that is on the disk as in the image stays there: the kernel writes back nothing else. -/
theorem images_of_step {act : Action g} {s' : Host g} (hs : Step s act s') {i : Fin g.numMinions} {x : Nat}
    {b : Byte} (hb : (s.storage.minions i).image[x]? = some b) (hd : (s.images i)[x]? = some b) :
    (s'.images i)[x]? = some b := by
  cases hs with
  | receive ht => exact hd
  | writeBack hi hm => exact (hi i x).elim (·.trans hd) (·.trans hb)
  | call ht hT hR => exact hd

theorem image_of_trace (hr : Trace Step s₀ tr s) {i : Fin g.numMinions} {x : Nat} {b : Byte}
    (hb : (s₀.storage.minions i).image[x]? = some b) (hx : ∀ act ∈ tr, ¬ Covers i x act) :
    (s.storage.minions i).image[x]? = some b := by
  induction hr with
  | nil => exact hb
  | snoc _ hs ih =>
    obtain ⟨hx, hact⟩ := List.forall_mem_append.mp hx
    exact image_of_step hs (ih hx) (hact _ List.mem_cons_self)

theorem images_of_trace (hr : Trace Step s₀ tr s) {i : Fin g.numMinions} {x : Nat} {b : Byte}
    (hb : (s₀.storage.minions i).image[x]? = some b) (hd : (s₀.images i)[x]? = some b)
    (hx : ∀ act ∈ tr, ¬ Covers i x act) : (s.images i)[x]? = some b := by
  induction hr with
  | nil => exact hd
  | snoc hr hs ih =>
    obtain ⟨hx, -⟩ := List.forall_mem_append.mp hx
    exact images_of_step hs (image_of_trace hr hb hx) (ih hx)

theorem index_of_step {act : Action g} {s' : Host g} (hs : Step s act s') {offset : Nat}
    (hx : ¬ Records offset act) : s'.storage.offsetSizes[offset]? = s.storage.offsetSizes[offset]? := by
  cases hs with
  | receive ht => rfl
  | writeBack hi hm => rfl
  | call ht hT hR =>
    cases hR with
    | storage hR => exact index_of_answers hR hx
    | sendReply => rfl

theorem index_of_trace (hr : Trace Step s₀ tr s) {offset : Nat} (hx : ∀ act ∈ tr, ¬ Records offset act) :
    s.storage.offsetSizes[offset]? = s₀.storage.offsetSizes[offset]? := by
  induction hr with
  | nil => rfl
  | snoc _ hs ih =>
    obtain ⟨hx, hact⟩ := List.forall_mem_append.mp hx
    exact (index_of_step hs (hact _ List.mem_cons_self)).trans (ih hx)

/-- An entry that is on the disk as in the index stays there, once a `FLUSH` has been answered. -/
theorem persisted_of_step {act : Action g} {s' : Host g} (hs : Step s act s') (hk : s.KeepsEntries act)
    {offset : Nat} (hx : ¬ Records offset act) (hd : s.persisted[offset]? = s.storage.offsetSizes[offset]?) :
    s'.persisted[offset]? = s'.storage.offsetSizes[offset]? := by
  rw [index_of_step hs hx]
  cases hs with
  | receive ht => exact hd
  | writeBack hi hm => exact hk offset hd
  | call ht hT hR => exact hd

theorem persisted_of_trace {x y : List (Action g) × Host g}
    (hr : Trace (Where (Synced requests) (Logged Step)) x tr y) {f : Nat} (hf : (requests f).type = .flush)
    {reply : Action g} (hreply : Replies f reply) (hmem : reply ∈ x.1) {offset : Nat}
    (hx : ∀ act ∈ tr, ¬ Records offset act)
    (hd : x.2.persisted[offset]? = x.2.storage.offsetSizes[offset]?) :
    y.2.persisted[offset]? = y.2.storage.offsetSizes[offset]? := by
  induction hr with
  | nil => exact hd
  | snoc hr hs ih =>
    obtain ⟨hx, hact⟩ := List.forall_mem_append.mp hx
    obtain ⟨⟨-, hkeeps⟩, -, hstep⟩ := hs
    -- the reply is part of the log by then
    have hlog := (Trace.of_logged hr).1
    refine persisted_of_step hstep (hkeeps ⟨f, hf, reply, ?_, hreply⟩) (hact _ List.mem_cons_self) (ih hx)
    rw [hlog]
    exact List.mem_append_left _ hmem

/-- A byte that a call has written is in the image until it is written over. -/
theorem image_of_written {A B : List (Action g)} {t : Nat} {i : Fin g.numMinions} {a : Nat} {buf : List Byte}
    (hr : Trace Step s₀ (A ++ .call t ⟨.storage (.minionWrite i a buf), .ok ()⟩ :: B) s) {k : Nat}
    (hk : k < buf.length) (hB : ∀ act ∈ B, ¬ Covers i (a + k) act) :
    ((s.storage.minions i).image)[a + k]? = buf[k]? := by
  obtain ⟨s₁, -, hr⟩ := hr.append_inv
  obtain ⟨s₂, hs, hr⟩ := hr.cons_inv
  cases hs with
  | call ht hT hR =>
    have hwritten := image_of_answers_ok (answers_of_serves hR) hk
    rw [List.getElem?_eq_getElem hk] at hwritten ⊢
    exact image_of_trace hr hwritten hB

/-- An entry that a call has recorded is in the index until another one takes its place. -/
theorem index_of_recorded {A B : List (Action g)} {t offset size : Nat}
    (hr : Trace Step s₀ (A ++ .call t ⟨.storage (.recordSize offset size), .ok ()⟩ :: B) s)
    (hB : ∀ act ∈ B, ¬ Records offset act) : s.storage.offsetSizes[offset]? = some size := by
  obtain ⟨s₁, -, hr⟩ := hr.append_inv
  obtain ⟨s₂, hs, hr⟩ := hr.cons_inv
  cases hs with
  | call ht hT hR =>
    exact (index_of_trace hr hB).trans (index_of_answers_ok (answers_of_serves hR))

/-! ## A `FLUSH` that was answered -/

section Flush

variable {A B C D : List (Action g)} {f : Nat} {reply : Action g} {x : List (Action g) × Host g}

/-- The state in which a `FLUSH` is answered, and what the run does then. -/
theorem flush_inv (hf : (requests f).type = .flush) (hreply : Replies f reply)
    (hr : Trace (Where (Synced requests) (Logged Step)) ([], s₀) (A ++ .receive f :: (C ++ reply :: D)) x) :
    ∃ y, Trace Step s₀ (A ++ .receive f :: C) y.2 ∧ WrittenBack f (A ++ .receive f :: C) y.2 ∧
      Trace (Where (Synced requests) (Logged Step)) y (reply :: D) x := by
  rw [← List.cons_append, ← List.append_assoc] at hr
  obtain ⟨y, hbefore, hafter⟩ := hr.append_inv
  obtain ⟨hlog, hrun⟩ := Trace.of_logged hbefore
  obtain ⟨z, ⟨⟨hsync, -⟩, -⟩, -⟩ := hafter.cons_inv
  have hwritten := hsync f hf hreply
  rw [hlog] at hwritten
  exact ⟨y, hrun, hwritten, hafter⟩

/-- A byte that was written before the `FLUSH` was received is on the disk until it is written over. -/
theorem images_of_flush (hf : (requests f).type = .flush) (hreply : Replies f reply) {t : Nat}
    {i : Fin g.numMinions} {a : Nat} {buf : List Byte}
    (hr : Trace (Where (Synced requests) (Logged Step)) ([], s₀)
      (A ++ .call t ⟨.storage (.minionWrite i a buf), .ok ()⟩ :: (B ++ .receive f :: (C ++ reply :: D))) x)
    {k : Nat} (hk : k < buf.length)
    (hnot : ∀ act ∈ B ++ .receive f :: (C ++ reply :: D), ¬ Covers i (a + k) act) :
    (x.2.images i)[a + k]? = buf[k]? := by
  obtain ⟨hB, hnot⟩ := List.forall_mem_append.mp hnot
  obtain ⟨hreceive, hnot⟩ := List.forall_mem_cons.mp hnot
  obtain ⟨hC, hD⟩ := List.forall_mem_append.mp hnot
  rw [← List.cons_append, ← List.append_assoc] at hr
  obtain ⟨y, hrun, hwritten, hafter⟩ := flush_inv hf hreply hr
  -- the image, when the `FLUSH` is answered
  have hbyte : (y.2.storage.minions i).image[a + k]? = buf[k]? := by
    rw [List.append_assoc, List.cons_append] at hrun
    refine image_of_written hrun hk (List.forall_mem_append.mpr ⟨hB, ?_⟩)
    exact List.forall_mem_cons.mpr ⟨hreceive, hC⟩
  have hdisk := ((hwritten _ C rfl).1 i (a + k) hC).trans hbyte
  rw [List.getElem?_eq_getElem hk] at hbyte hdisk ⊢
  exact images_of_trace (Trace.of_logged hafter).2 hbyte hdisk hD

/-- So is an entry that was recorded before, until another one takes its place. -/
theorem persisted_of_flush (hf : (requests f).type = .flush) (hreply : Replies f reply)
    {t offset size : Nat}
    (hr : Trace (Where (Synced requests) (Logged Step)) ([], s₀)
      (A ++ .call t ⟨.storage (.recordSize offset size), .ok ()⟩ :: (B ++ .receive f :: (C ++ reply :: D))) x)
    (hnot : ∀ act ∈ B ++ .receive f :: (C ++ reply :: D), ¬ Records offset act) :
    x.2.persisted[offset]? = some size := by
  have hindex := index_of_recorded (Trace.of_logged hr).2 hnot
  obtain ⟨-, hnot⟩ := List.forall_mem_append.mp hnot
  obtain ⟨-, hnot⟩ := List.forall_mem_cons.mp hnot
  obtain ⟨hC, hD⟩ := List.forall_mem_append.mp hnot
  obtain ⟨hact, hD⟩ := List.forall_mem_cons.mp hD
  rw [← List.cons_append, ← List.append_assoc] at hr
  obtain ⟨y, hrun, hwritten, hafter⟩ := flush_inv hf hreply hr
  obtain ⟨z, ⟨-, hlog, hstep⟩, hafter⟩ := hafter.cons_inv
  have hdisk := (hwritten _ C rfl).2 offset hC
  -- the reply itself writes nothing back
  have hkeeps : y.2.KeepsEntries reply := by
    obtain ⟨data, a, rfl, -⟩ := hreply
    exact trivial
  have hmem : reply ∈ z.1 := hlog ▸ List.mem_append_right _ List.mem_cons_self
  exact (persisted_of_trace hafter hf hreply hmem hD (persisted_of_step hstep hkeeps hact hdisk)).trans hindex

end Flush

/-- **What a `FLUSH` is worth.** In every run in which a `FLUSH` is answered only when the kernel has by
itself written back what was there when it was received, and in which the kernel then keeps the entries on
the disk, every `WRITE` that was flushed is there after a crash. -/
theorem durable_of_synced {x : List (Action g) × Host g} (h₀ : s₀.Started requests)
    (hr : Trace (Where (Synced requests) (Logged Step)) ([], s₀) tr x) : Durable requests tr x.2 := by
  rintro w f ⟨hw, hf, A, B, C, D, reply, reply', hreply, hreply', rfl⟩
  obtain ⟨hchunks, hrecord⟩ := carriedOut_of_reply h₀ (Trace.of_logged hr).2 hw hreply rfl
  -- the run, from one of the calls on
  have hsplit : ∀ (A₁ A₂ : List (Action g)) act,
      A₁ ++ act :: A₂ ++ reply :: (B ++ .receive f :: (C ++ reply' :: D)) =
        A₁ ++ act :: (A₂ ++ reply :: B ++ .receive f :: (C ++ reply' :: D)) := by
    intro A₁ A₂ act
    simp
  constructor
  · intro c hc
    refine ⟨g.primary (g.primaryIndex c.offset), .inl rfl, ?_⟩
    obtain ⟨-, hlen⟩ := Geometry.mem_chunks hc
    have hbuf : (slice (requests w).buffer c.bufPos c.len).length = c.len := length_slice (by omega)
    obtain ⟨A₁, A₂, rfl⟩ := List.append_of_mem (hchunks c hc _ (.inl rfl))
    refine ⟨A₁, _, hsplit A₁ A₂ _, fun k hk hnot => ?_⟩
    exact images_of_flush hf hreply' (hsplit A₁ A₂ _ ▸ hr) (hbuf.symm ▸ hk) hnot
  · obtain ⟨A₁, A₂, rfl⟩ := List.append_of_mem hrecord
    refine ⟨A₁, _, hsplit A₁ A₂ _, fun hnot => ?_⟩
    exact persisted_of_flush hf hreply' (hsplit A₁ A₂ _ ▸ hr) hnot

/-! ## A crash -/

/-- A server that has just started over a directory, whose files are on the disk. -/
def boot (requests : Nat → DriverData) (dir : BackendDirectory) (g : Geometry) : Host g where
  commands t := command (RAIDStorage.toIStorage g) (requests t)
  received := ∅
  storage := dir.opened g
  images i := dir.images i
  metadata := dir.metadata.getD []

theorem started_boot (requests : Nat → DriverData) (dir : BackendDirectory) (g : Geometry) :
    (boot requests dir g).Started requests := ⟨rfl, rfl⟩

/-- A `WRITE` of one byte, and a `FLUSH`. -/
def writeThenFlush : Nat → DriverData
  | 0 => .ofWrite 0 0 [7]
  | _ => .new .flush 1 0 0

/-- A pair of minions of one byte. -/
def pair : Geometry := ⟨1, 1, Nat.one_pos⟩

/-- The `WRITE` is carried out and answered, and the `FLUSH` is received. -/
def untilFlush : List (Action pair) :=
  [.receive 0,
    .call 0 ⟨.storage (.minionWrite (pair.primary (pair.primaryIndex 0)) 0 [7]), .ok ()⟩,
    .call 0 ⟨.storage (.minionWrite (pair.mirrorIndex (pair.primaryIndex 0)) 0 [7]), .ok ()⟩,
    .call 0 ⟨.storage (.recordSize 0 1), .ok ()⟩,
    .call 0 ⟨.sendReply { writeThenFlush 0 with status := .success }, .ok ()⟩,
    .receive 1]

/-- The reply to the `FLUSH`. -/
def flushReply : Action pair :=
  .call 1 ⟨.sendReply { writeThenFlush 1 with status := .success }, .ok ()⟩

theorem run_untilFlush : ∃ s, Trace Step (boot writeThenFlush (.empty "data") pair) untilFlush s ∧
    s.received = {1, 0} ∧ s.commands 1 = command (RAIDStorage.toIStorage pair) (writeThenFlush 1) ∧
    s.metadata = [] ∧ s.storage.offsetSizes = (∅ : SizeMap).insert 0 1 ∧
    s.cachedMetadata = image s.storage.offsetSizes := by
  -- the one byte is one chunk, on the only pair
  have hchunks : pair.chunks 0 1 0 = [⟨0, 1, 0⟩] := by decide +kernel
  have hloop : RAIDStorage.writeLoop pair (writeThenFlush 0).buffer (writeThenFlush 0).offset
      (writeThenFlush 0).buffer.length 0 = RAIDStorage.writeChunks pair [7] [⟨0, 1, 0⟩] := by
    rw [← hchunks, ← RAIDStorage.writeLoop_eq Nat.one_pos]
    rfl
  have hcommand : command (RAIDStorage.toIStorage pair) (writeThenFlush 0) =
      callStorage (do return .ok (← RAIDStorage.write pair (writeThenFlush 0))) >>= Backend.replyTo := rfl
  rw [RAIDStorage.write, hloop] at hcommand
  refine ⟨_, .cons (.receive (Finset.notMem_empty 0)) (.cons (.call ?_ hcommand (.storage (.own rfl)))
    (.cons (.call ?_ rfl (.storage (.own rfl))) (.cons (.call ?_ rfl (.storage (.own rfl)))
      (.cons (.call ?_ rfl .sendReply) (.cons (.receive ?_) .nil))))), rfl, rfl, rfl, rfl, rfl⟩
  all_goals decide

/-- An action that records the size of one offset alone is not followed by another one. -/
theorem not_records_of_pairwise {offset : Nat} {A B : List (Action g)} {act : Action g}
    (h : (A ++ act :: B).Pairwise fun a b => Records offset a → ¬ Records offset b)
    (hact : Records offset act) : ∀ b ∈ B, ¬ Records offset b := by
  obtain ⟨-, hB, -⟩ := List.pairwise_append.mp h
  exact fun b hb => (List.pairwise_cons.mp hB).1 b hb hact

/-- The `FLUSH` is answered at once, and nothing has been written back when the power fails. -/
theorem flush_loses_write : ∃ s,
    Trace Step (boot writeThenFlush (.empty "data") pair) (untilFlush ++ [flushReply]) s ∧
      ¬ Durable writeThenFlush (untilFlush ++ [flushReply]) s := by
  obtain ⟨s, hr, hreceived, hcommand, hmetadata, -⟩ := run_untilFlush
  have ht : 1 ∈ s.received := by
    rw [hreceived]
    decide
  refine ⟨_, .snoc hr (.call ht hcommand .sendReply), fun hdurable => ?_⟩
  have hflushed : FlushedBy writeThenFlush 0 1 (untilFlush ++ [flushReply]) :=
    ⟨rfl, rfl, untilFlush.take 4, [], [], [], _, flushReply, ⟨_, _, rfl, rfl⟩, ⟨_, _, rfl, rfl⟩, rfl⟩
  obtain ⟨-, A, B, htr, hentry⟩ := hdurable 0 1 hflushed
  have hone : (untilFlush ++ [flushReply]).Pairwise fun a b => Records 0 a → ¬ Records 0 b := by
    simp [untilFlush, flushReply, Records]
  rw [htr] at hone
  have hpersisted := hentry (not_records_of_pairwise hone rfl)
  -- the file on the disk is empty
  have hempty : FileMetadataStore.load ⟨"", some []⟩ = ∅ := by
    change loadLoop [] ∅ = ∅
    rw [loadLoop, if_pos (by decide)]
  rw [persisted, hmetadata, hempty] at hpersisted
  cases Std.ExtTreeMap.getElem?_empty.symm.trans hpersisted

theorem not_replies_untilFlush {f : Nat} (hf : (writeThenFlush f).type = .flush) :
    ∀ act ∈ untilFlush, ¬ Replies f act := by
  rintro act hact ⟨data, a, rfl, -⟩
  -- the only reply is the one to the `WRITE`
  simp only [untilFlush, List.mem_cons, List.not_mem_nil, or_false, reduceCtorEq, false_or] at hact
  rcases hact with h | h | h | h <;> cases h
  cases hf

/-- The kernel has written everything back when the `FLUSH` is answered. -/
theorem durable_written_back : ∃ tr s, FlushedBy writeThenFlush 0 1 tr ∧
    Trace Step (boot writeThenFlush (.empty "data") pair) tr s ∧ Durable writeThenFlush tr s := by
  obtain ⟨s, hr, hreceived, hcommand, -, hindex, hcached⟩ := run_untilFlush
  have ht : 1 ∈ s.received := by
    rw [hreceived]
    decide
  -- up to here no `FLUSH` is answered, and nothing is written back
  have hfirst : Trace (Where (Synced writeThenFlush) (Logged Step))
      ([], boot writeThenFlush (.empty "data") pair) untilFlush (untilFlush, s) := by
    refine (hr.logged []).where_of_forall fun act hact x => ⟨fun f hf hreply => ?_, fun _ => ?_⟩
    · exact absurd hreply (not_replies_untilFlush hf act hact)
    · cases act with
      | writeBack images metadata => simp [untilFlush] at hact
      | receive t => trivial
      | call t e => trivial
  let s₁ : Host pair := { s with images := fun i => (s.storage.minions i).image, metadata := s.cachedMetadata }
  -- a write-back of everything
  have hback : Where (Synced writeThenFlush) (Logged Step) (untilFlush, s) (.writeBack s₁.images s₁.metadata)
      (untilFlush ++ [.writeBack s₁.images s₁.metadata], s₁) := by
    refine ⟨⟨fun f hf hreply => ?_, ?_⟩, rfl, .writeBack (fun i x => .inr rfl) fun x => .inr (.inl rfl)⟩
    · obtain ⟨data, a, h, -⟩ := hreply
      cases h
    · rintro ⟨f, hf, reply, hmem, hreply⟩
      exact absurd hreply (not_replies_untilFlush hf reply hmem)
  -- the metadata file holds the whole index
  have hpersisted : s₁.persisted = s.storage.offsetSizes := by
    have hb : Bounded s.storage.offsetSizes.toList := by
      rw [hindex]
      exact bounded_insert bounded_empty (by decide) (by decide)
    have hload := load_save hb ⟨"", none⟩
    rw [save, saveWith, List.take_length, ← hcached] at hload
    exact hload
  have hsynced : Synced writeThenFlush (untilFlush ++ [.writeBack s₁.images s₁.metadata], s₁) flushReply := by
    refine ⟨fun f hf hreply A B htr => ⟨fun i x hx => rfl, fun offset hx => ?_⟩, fun _ => trivial⟩
    rw [hpersisted]
  have hstep : Step s₁ flushReply _ := .call ht hcommand .sendReply
  have hrun := (hfirst.snoc hback).snoc
    (⟨hsynced, rfl, hstep⟩ : Where (Synced writeThenFlush) (Logged Step) _ flushReply (_, _))
  refine ⟨_, _, ?_, (Trace.of_logged hrun).2, durable_of_synced (started_boot _ _ _) hrun⟩
  exact ⟨rfl, rfl, untilFlush.take 4, [], [_], [], _, flushReply, ⟨_, _, rfl, rfl⟩, ⟨_, _, rfl, rfl⟩, rfl⟩

end Host

end LDS
