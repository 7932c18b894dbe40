import LDS.Server.ReplyFrames
import LDS.Server.ReplyRouting
import LDS.Storage.Scripts

/-!
# The allocations of the TCP driver

`ReceiveRequest` appends the payload of every `WRITE` to the allocation of its offset, before the storage
has seen the request. `RAIDStorage` sets the size of the offset when it has written the chunks. The two
agree on an offset that was written once, by a request that succeeded; on others they need not.

## Main definitions

* `DriverData.written?`: what a `WRITE` brings
* `Server.writes`: what the `WRITE` requests of the clients have brought
* `Server.Confirmed i tr`: the worker of the command `i` has sent a reply that confirms it

## Main results

* `Server.Allocated.run`: allocations and index in every state
* `Server.allocations_agree`: what both of them say of the requests
-/

namespace LDS

open Memory

variable {g : Geometry}

/-- Offset and payload of a `WRITE`. -/
def DriverData.written? (request : DriverData) : Option (Nat × List Byte) :=
  if request.type = .write then some (request.offset, request.buffer) else none

theorem DriverData.written?_eq_some {request : DriverData} {w : Nat × List Byte} :
    request.written? = some w ↔ request.type = .write ∧ (request.offset, request.buffer) = w := by
  simp [written?]

/-! ## What `Notify` does -/

namespace TCPDriverComm

/-- What `UpdateAllocation` does: it appends. -/
def allocate (allocations : Std.ExtTreeMap Nat (List Byte)) (w : Nat × List Byte) :
    Std.ExtTreeMap Nat (List Byte) :=
  allocations.insert w.1 (allocations[w.1]?.getD [] ++ w.2)

/-- The contract of `Notify`: an allocation is followed by the command of its `WRITE`, and no other `WRITE`
gets a command. The phase is the allocation that waits for its command. -/
def allocating : Prog.Contract ServerCall ServerCall.Answer (Option (Nat × List Byte)) where
  answers _ _ _ := True
  calls
    | x, .updateAllocation _ _ => x = none
    | x, .addCommand request => request.written? = x
    | _, _ => True
  next
    | _, .updateAllocation offset data, _ => some (offset, data)
    | _, .addCommand _, _ => none
    | x, _, _ => x
  mayAbort := False

/-- An offset has an allocation if something was received for it. -/
theorem mem_foldl_allocate {ws : List (Nat × List Byte)} {m : Std.ExtTreeMap Nat (List Byte)} {k : Nat} :
    k ∈ ws.foldl allocate m ↔ k ∈ m ∨ ∃ w ∈ ws, w.1 = k := by
  induction ws generalizing m with
  | nil => simp
  | cons w ws ih =>
    rw [List.foldl_cons, ih, allocate, Std.ExtTreeMap.mem_insert, Nat.compare_eq_eq, List.exists_mem_cons_iff,
      or_assoc, or_left_comm]

/-- An allocation is what was received for its offset, one after the other. -/
theorem getD_foldl_allocate (ws : List (Nat × List Byte)) (m : Std.ExtTreeMap Nat (List Byte)) (k : Nat) :
    (ws.foldl allocate m)[k]?.getD [] = m[k]?.getD [] ++ (ws.filter (·.1 = k)).flatMap Prod.snd := by
  induction ws generalizing m with
  | nil => simp
  | cons w ws ih =>
    rw [List.foldl_cons, ih, allocate, Std.ExtTreeMap.getElem?_insert]
    by_cases hk : w.1 = k
    · subst hk
      simp
    · simp [hk]

variable {x : Option (Nat × List Byte)} {o : ServerCall} {fd : Int}

/-- Any other call. -/
theorem leads_allocating (hupdate : ∀ offset data, o ≠ .updateAllocation offset data)
    (hadd : ∀ request, o ≠ .addCommand request) : allocating.Leads (· = x) (· = x) o := by
  rintro _ rfl
  cases o with
  | updateAllocation offset data => exact absurd rfl (hupdate offset data)
  | addCommand request => exact absurd rfl (hadd request)
  | _ => exact ⟨trivial, fun _ _ => rfl⟩

/-- `ReceiveRequest` allocates the payload of a `WRITE`, and nothing else. -/
theorem obeys_receiveRequest_allocating (fd : Int) :
    Prog.Obeys allocating (fun x r => x = r.toOption.bind DriverData.written?) none (receiveRequest fd) := by
  have hread : ∀ n, allocating.Leads (· = none) (· = none) (.read fd n) :=
    fun n => leads_allocating (by simp) (by simp)
  refine (obeys_readAll hread hread rfl 24).bind ?_
  rintro x (what | header) ⟨hx, -⟩
  · obtain rfl : x = none := hx.elim And.left id
    exact .ret rfl
  obtain rfl : x = none := hx.elim And.left id
  dsimp only
  split
  · rename_i hwrite
    refine (obeys_readAll hread hread rfl _).bind ?_
    rintro y (what | payload) ⟨hy, -⟩
    · -- the payload never came
      obtain rfl : y = none := hy.elim And.left id
      exact .ret rfl
    · obtain rfl : y = none := hy.elim And.left id
      -- it is allocated as one, and saved
      refine .call rfl fun _ _ => ?_
      refine .call_of_leads (leads_allocating (by simp) (by simp)) rfl ?_
      rintro _ _ rfl
      exact .ret (if_pos hwrite).symm
  · rename_i hwrite
    exact .ret (if_neg hwrite).symm

end TCPDriverComm

namespace Server

open TCPDriverComm

/-- `Notify` leaves no allocation without its command. -/
theorem obeys_notify_allocating (l fd : Int) :
    Prog.Obeys allocating (fun x _ => x = none) none (InputMediator.notify (toIDriverComm l) fd) := by
  have haccept : Prog.Obeys allocating (fun x _ => x = none) none (tryAccept l fd) :=
    obeys_tryAccept (fun _ => leads_allocating (by simp) (by simp))
      (fun _ => leads_allocating (by simp) (by simp))
      (fun _ _ => leads_allocating (by simp) (by simp)) rfl
  refine haccept.bind ?_
  rintro _ newFd rfl
  split
  · refine .call trivial ?_
    rintro (_ | _) - <;> exact .ret rfl
  · refine (obeys_receiveRequest_allocating fd).bind ?_
    rintro _ (what | request) rfl
    · refine .call trivial ?_
      rintro (_ | _) -
      · exact .ret rfl
      · exact .call trivial fun _ _ => .call trivial fun _ _ => .call trivial fun _ _ =>
          .call trivial fun _ _ => .ret rfl
    · -- the command of the request that was allocated
      exact .call rfl fun _ _ => .ret rfl

end Server

/-! ## What a command does -/

/-- The bytes are the header of a reply that confirms its request. -/
def Confirms (buf : List Byte) : Prop :=
  ∃ data : DriverData, data.status = .success ∧ buf = TCPDriverComm.replyHeader data

/-- What a failure sends confirms nothing, in whatever pieces it goes. -/
theorem not_confirms_drop {data : DriverData} (h : data.status ≠ .success) (n : Nat) :
    ¬ Confirms ((TCPDriverComm.replyHeader data).drop n) := by
  rintro ⟨data', hs, he⟩
  have hlen := congrArg List.length he
  rw [List.length_drop, TCPDriverComm.length_replyHeader, TCPDriverComm.length_replyHeader] at hlen
  obtain rfl : n = 0 := by omega
  -- the error fields differ
  have herror := congrArg (List.take 4) he
  simp only [List.drop_zero, TCPDriverComm.replyHeader, if_neg h, if_pos hs, List.append_assoc] at herror
  rw [List.take_append_of_le_length (by simp), List.take_append_of_le_length (by simp)] at herror
  revert herror
  decide

namespace RAIDStorage

/-- A call of a request: it records nothing but the size of a `WRITE`, its own. -/
def RecordsOwn (request : DriverData) (o : RAIDCall g) : Prop :=
  ∀ offset size, o = .recordSize offset size →
    request.type = .write ∧ offset = request.offset ∧ size = request.buffer.length

/-- Whether the size has been recorded, after one more call. -/
def recordedAfter (x : Bool) : RAIDCall g → Bool
  | .recordSize _ _ => true
  | _ => x

/-- The contract of the storage for a request, and whether it has recorded the size. -/
def recordsOwn (request : DriverData) : Prog.Contract (RAIDCall g) RAIDCall.Answer Bool where
  answers _ _ _ := True
  calls _ := RecordsOwn request
  next x o _ := recordedAfter x o
  mayAbort := True

/-- The contract of a command: a `WRITE` is not confirmed without the record. -/
def confirmsRecorded (request : DriverData) :
    Prog.Contract (CommandCall (RAIDCall g)) (CommandCall.Answer RAIDCall.Answer) Bool where
  answers _ _ _ := True
  calls
    | _, .storage o => RecordsOwn request o
    | x, .sendReply data => request.type = .write → x = false → data.status ≠ .success
  next
    | x, .storage o, _ => recordedAfter x o
    | x, .sendReply _, _ => x
  mayAbort := True

/-- A call to the driver, in terms of the bytes that it writes. -/
def WritesRecorded (request : DriverData) (x : Bool) (o : ServerCall) : Prop :=
  ∃ fd buf, o = .write fd buf ∧ (request.type = .write → x = false → ¬ Confirms buf)

/-- The same contract, of the worker. -/
def writesRecorded (request : DriverData) :
    Prog.Contract (JobCall (RAIDCall g)) (JobCall.Answer RAIDCall.Answer) Bool where
  answers _ _ _ := True
  calls
    | _, .storage o => RecordsOwn request o
    | x, .server o => WritesRecorded request x o
  next
    | x, .storage o, _ => recordedAfter x o
    | x, .server _, _ => x
  mayAbort := True

variable {request : DriverData}

/-- A `Write` that succeeds has recorded the size. -/
theorem obeys_write_recordsOwn (h : request.type = .write) :
    Prog.Obeys (recordsOwn request) (fun x data => data.status = .success → x = true) false
      (write g request) := by
  refine (obeys_writeLoop_of_leads (P := (· = false)) ?_ trivial _ _ _ _ rfl).bind ?_
  · rintro i a buf _ rfl
    exact ⟨by rintro _ _ ⟨⟩, fun _ _ => rfl⟩
  · rintro _ (what | ⟨⟩) rfl
    · exact .ret fun hs => by cases hs
    · refine .call ?_ ?_
      · rintro _ _ ⟨⟩
        exact ⟨h, rfl, rfl⟩
      · rintro (what | ⟨⟩) - <;> exact .ret fun _ => rfl

theorem obeys_read_recordsOwn (data : DriverData) :
    Prog.Obeys (recordsOwn request) (fun _ _ => True) false (read g data) := by
  refine (obeys_readLoop_of_leads (P := fun _ => True) ?_ trivial _ _ _ _ trivial).bind ?_
  · exact fun i a buf _ _ => ⟨by rintro _ _ ⟨⟩, fun _ _ => trivial⟩
  · rintro _ ⟨what | ⟨⟩, buffer⟩ - <;> exact .ret trivial

/-- A member of the storage, called by a command. -/
theorem obeys_callStorage {α : Type} {Q : Bool → α → Prop} {x : Bool} {p : RAIDProg g α}
    (hp : Prog.Obeys (recordsOwn request) Q x p) :
    Prog.Obeys (confirmsRecorded request) Q x (InputMediator.callStorage p) :=
  Prog.Obeys.lift_phases (f := CommandCall.storage) (C := recordsOwn request) hp id (fun _ _ h => h)
    (fun _ _ _ _ => trivial) fun _ _ _ => rfl

theorem obeys_command_recorded (request : DriverData) :
    Prog.Obeys (confirmsRecorded request) (fun _ _ => True) false
      (InputMediator.command (toIStorage g) request) := by
  -- a reply that says success needs the record
  have hreply : ∀ (x : Bool) (data : DriverData),
      (request.type = .write → x = false → data.status ≠ .success) →
      Prog.Obeys (confirmsRecorded (g := g) request) (fun _ _ => True) x (InputMediator.sendReply data) :=
    fun x data h => .call h fun _ _ => .ret trivial
  rw [InputMediator.command]
  cases htype : request.type with
  | read =>
    have hread : Prog.Obeys (recordsOwn request) (fun _ _ => True) false ((toIStorage g).read request) :=
      (obeys_read_recordsOwn request).bind fun _ _ _ => .ret trivial
    refine (obeys_callStorage hread).bind ?_
    rintro x (what | data) -
    · exact .ret trivial
    · exact hreply x data (by simp [htype])
  | write =>
    -- `Write` reports success only when it has recorded
    have hwrite : Prog.Obeys (recordsOwn request)
        (fun x r => ∀ data, r = .ok data → data.status = .success → x = true) false
        ((toIStorage g).write request) :=
      (obeys_write_recordsOwn htype).bind fun _ _ h => .ret fun _ hd => Except.ok.inj hd ▸ h
    refine (obeys_callStorage hwrite).bind ?_
    rintro x (what | data) h
    · exact .ret trivial
    · apply hreply x data
      intro _ hx hs
      rw [h data rfl hs] at hx
      cases hx
  | flush => exact hreply _ _ (by simp [htype])
  | trim => exact hreply _ _ (by simp [htype])
  | disconnect => exact .ret trivial
  | getSize =>
    refine (obeys_callStorage (Q := fun _ _ => True) (.call (by rintro _ _ ⟨⟩) fun _ _ => .ret trivial)).bind ?_
    exact fun x _ _ => hreply x _ (by simp [htype])
  | listOffsets =>
    refine (obeys_callStorage (Q := fun _ _ => True) (.call (by rintro _ _ ⟨⟩) fun _ _ => .ret trivial)).bind ?_
    exact fun x _ _ => hreply x _ (by simp [htype])
  | other code => exact .ret trivial

/-- The same contract, of `SendReply`. -/
def sendsRecorded (request : DriverData) : Prog.Contract ServerCall ServerCall.Answer Bool where
  answers _ _ _ := True
  calls := WritesRecorded request
  next x _ _ := x
  mayAbort := True

/-- `SendReply` confirms what is a success, and nothing else. -/
theorem obeys_sendReply_recorded {x : Bool} {data : DriverData}
    (h : request.type = .write → x = false → data.status ≠ .success) :
    Prog.Obeys (sendsRecorded request) (fun y _ => y = x) x (TCPDriverComm.sendReply data) := by
  have hwrite : ∀ buf : List Byte, (data.status ≠ .success → ∀ n, ¬ Confirms (buf.drop n)) →
      ∀ n, (sendsRecorded request).Leads (· = x) (· = x) (.write data.sourceFd (buf.drop n)) := by
    rintro buf hbuf n _ rfl
    exact ⟨⟨_, _, rfl, fun ht hx => hbuf (h ht hx) n⟩, fun _ _ => rfl⟩
  rw [TCPDriverComm.sendReply]
  split
  · exact .ret rfl
  refine (obeys_writeAll_drop _ (hwrite _ not_confirms_drop) rfl).bind ?_
  rintro _ (what | ⟨⟩) rfl
  · exact .ret rfl
  dsimp only
  split
  · -- a failure has no payload
    rename_i hpayload
    refine (obeys_writeAll_drop _ (hwrite _ fun hs => ?_) rfl).bind fun _ _ hy => .ret hy
    simp [TCPDriverComm.sendsPayload, hs] at hpayload
  · exact .ret rfl

theorem obeys_job_recorded (l : Int) (request : DriverData) :
    Prog.Obeys (writesRecorded request) (fun _ _ => True) false
      (InputMediator.job (TCPDriverComm.toIDriverComm l) (toIStorage g) request) := by
  refine (obeys_command_recorded request).inline_phases id ?_
  rintro x (o | data) ho
  · exact .call ho fun a _ => .ret ⟨trivial, rfl⟩
  · refine Prog.Obeys.mono (Prog.Obeys.lift_phases (f := JobCall.server) (obeys_sendReply_recorded ho) id
      (fun _ _ h => h) (fun _ _ _ _ => trivial) fun _ _ _ => rfl) ?_
    exact fun _ _ h => ⟨trivial, h⟩

end RAIDStorage

/-! ## Runs -/

namespace Server

open RAIDStorage TCPDriverComm

section Requests

variable {Op : Type} {Ans : Op → Type} {σ : Type} {s s' : Server Ans σ}

/-- What the `WRITE` requests of the clients have brought, in the order of their reception. -/
def writes (s : Server Ans σ) : List (Nat × List Byte) := s.jobs.filterMap fun job => job.request.written?

/-- The worker of the command `i` has sent the header of a reply that confirms it. -/
def Confirmed (i : Nat) (tr : List (Action Ans)) : Prop :=
  ∃ fd buf a, Confirms buf ∧ Action.worker i ⟨.write fd buf, a⟩ ∈ tr

theorem mem_writes {k : Nat} {data : List Byte} : (k, data) ∈ s.writes ↔
    ∃ job ∈ s.jobs, job.request.type = .write ∧ job.request.offset = k ∧ job.request.buffer = data := by
  simp [writes, DriverData.written?_eq_some]

/-- A job goes on with its request. -/
theorem writes_setJob {i : Nat} {job : Job Ans} (hj : s.jobs[i]? = some job)
    (p : Prog (JobCall Op) (JobCall.Answer Ans) (Except String Unit)) : (s.setJob i job p).writes = s.writes := by
  obtain ⟨hi, rfl⟩ := List.getElem?_eq_some_iff.mp hj
  -- what was written is a matter of the requests, which stay
  have hmap : ∀ jobs : List (Job Ans), jobs.filterMap (fun job => job.request.written?) =
      (jobs.map Job.request).filterMap DriverData.written? := fun jobs => by
    rw [List.filterMap_map]
    rfl
  rw [writes, writes, hmap, hmap, setJob, List.map_set]
  congr 1
  exact List.ext_getElem (by simp) fun n h₁ h₂ => by
    rw [List.getElem_set]
    split
    · rename_i hn
      subst hn
      simp
    · rfl

theorem confirmed_snoc {i : Nat} {tr : List (Action Ans)} {act : Action Ans} :
    Confirmed i (tr ++ [act]) ↔
      Confirmed i tr ∨ ∃ fd buf a, Confirms buf ∧ act = .worker i ⟨.write fd buf, a⟩ := by
  simp only [Confirmed, List.mem_append, List.mem_singleton, and_or_left, exists_or, eq_comm]

end Requests

/-- Only `UpdateAllocation` changes an allocation. -/
theorem allocations_of_answer {o : ServerCall} {a : o.Answer} {d d' : TCPDriverComm}
    (h : d.answer o a = some d') (ho : ∀ offset data, o ≠ .updateAllocation offset data) :
    d'.allocations = d.allocations := by
  cases o with
  | updateAllocation offset data => exact absurd rfl (ho offset data)
  | getClientIP fd =>
    simp only [TCPDriverComm.answer, Option.ite_none_right_eq_some] at h
    rw [← Option.some.inj h.2]
  | _ =>
    obtain rfl := Option.some.inj h
    rfl

/-- A server over a `RAIDStorage`. -/
abbrev OverRAID (μ τ : Type) (g : Geometry) : Type := Server (RAIDCall.Answer (g := g)) (RAIDStorage μ τ g)

/-- The steps of a server over a `RAIDStorage`. -/
abbrev RAIDAction (g : Geometry) : Type := Action (RAIDCall.Answer (g := g))

variable {μ τ : Type} [LawfulMinion μ] [IMetadataStore τ] {s s' : OverRAID μ τ g} {tr : List (RAIDAction g)}
  {act : RAIDAction g}

/-- A command in a state with the index `offsetSizes`: it confirms no `WRITE` whose size is not recorded, and
has not done so. -/
def Recorded (offsetSizes : SizeMap) (confirmed : Prop) (job : Job (RAIDCall.Answer (g := g))) : Prop :=
  ∃ x, Prog.Obeys (writesRecorded job.request) (fun _ _ => True) x job.prog ∧
    (x = true → job.request.offset ∈ offsetSizes) ∧ (job.request.type = .write → x = false → ¬ confirmed)

/-- The allocations are what was received, the index is made of sizes that were received, and every
command that is confirmed is in it. -/
structure Allocated (tr : List (RAIDAction g)) (s : OverRAID μ τ g) : Prop where
  notify : ∃ x : Option (Nat × List Byte), Prog.Obeys allocating (fun x _ => x = none) x s.notify ∧
    s.driver.allocations = (s.writes ++ x.toList).foldl allocate ∅
  jobs : ∀ i job, s.jobs[i]? = some job → Recorded s.storage.offsetSizes (Confirmed i tr) job
  fresh : ∀ i, s.jobs.length ≤ i → ¬ Confirmed i tr
  index : ∀ k size, s.storage.offsetSizes[k]? = some size → ∃ data, (k, data) ∈ s.writes ∧ data.length = size

/-- What does not come from a worker confirms nothing. -/
theorem confirmed_snoc_of_ne {i : Nat} (h : ∀ e, act ≠ .worker i e) : Confirmed i (tr ++ [act]) ↔ Confirmed i tr := by
  rw [confirmed_snoc, or_iff_left]
  rintro ⟨fd, buf, a, -, he⟩
  exact h _ he

theorem Recorded.mono {offsetSizes offsetSizes' : SizeMap} {confirmed confirmed' : Prop}
    {job : Job (RAIDCall.Answer (g := g))} (h : Recorded offsetSizes confirmed job)
    (hindex : ∀ k, k ∈ offsetSizes → k ∈ offsetSizes') (hc : confirmed' → confirmed) :
    Recorded offsetSizes' confirmed' job := by
  obtain ⟨x, hp, hx, hn⟩ := h
  exact ⟨x, hp, fun ht => hindex _ (hx ht), fun hw hf h => hn hw hf (hc h)⟩

omit [LawfulMinion μ] [IMetadataStore τ] in
/-- A step that is no worker's and no storage's. -/
theorem Allocated.congr (h : Allocated tr s) (hact : ∀ i e, act ≠ .worker i e)
    (hnotify : ∃ x : Option (Nat × List Byte), Prog.Obeys allocating (fun x _ => x = none) x s'.notify ∧
      s'.driver.allocations = (s'.writes ++ x.toList).foldl allocate ∅)
    (hjobs : s'.jobs = s.jobs) (hstorage : s'.storage = s.storage) : Allocated (tr ++ [act]) s' := by
  have hc : ∀ i, Confirmed i (tr ++ [act]) ↔ Confirmed i tr := fun i => confirmed_snoc_of_ne (hact i)
  refine ⟨hnotify, fun i job hj => ?_, fun i hi => ?_, fun k size hk => ?_⟩
  · rw [hjobs] at hj
    rw [hstorage]
    exact (h.jobs i job hj).mono (fun _ => id) (hc i).mp
  · rw [hjobs] at hi
    rw [hc]
    exact h.fresh i hi
  · rw [hstorage] at hk
    rw [writes, hjobs]
    exact h.index k size hk

omit [LawfulMinion μ] [IMetadataStore τ] in
/-- A call of the reactor thread. -/
theorem Allocated.reactor {s₁ : OverRAID μ τ g} {o : ServerCall} {a : o.Answer}
    {k : o.Answer → ServerProg (Except String Unit)} (h : Allocated tr s) (hn : s.notify = .call o k)
    (ha : s.answer ⟨o, a⟩ = some s₁) :
    Allocated (tr ++ [.reactor ⟨o, a⟩]) { s₁.record (toIStorage g) ⟨o, a⟩ with notify := k a } := by
  obtain ⟨x, hp, halloc⟩ := h.notify
  rw [hn] at hp
  obtain ⟨ho, hk⟩ := hp.call_inv
  have hk := hk a trivial
  obtain ⟨kernel, -, ha⟩ := Option.bind_eq_some_iff.mp ha
  obtain ⟨driver, hd, rfl⟩ := Option.map_eq_some_iff.mp ha
  have hworker : ∀ i e, (Action.reactor ⟨o, a⟩ : RAIDAction g) ≠ .worker i e := by simp
  cases o with
  | updateAllocation offset data =>
    -- the payload is allocated, and its command is still to come
    obtain rfl : x = none := ho
    obtain rfl := Option.some.inj hd
    refine h.congr hworker ⟨_, hk, ?_⟩ rfl rfl
    rw [Option.toList_none, List.append_nil] at halloc
    simp only [record, allocating, Option.toList_some, List.foldl_append, List.foldl_cons, List.foldl_nil]
    rw [allocate, halloc]
    rfl
  | addCommand request =>
    obtain rfl : request.written? = x := ho
    obtain rfl := Option.some.inj hd
    have hc : ∀ i, Confirmed i (tr ++ [.reactor ⟨.addCommand request, a⟩]) ↔ Confirmed i tr :=
      fun i => confirmed_snoc_of_ne (hworker i)
    have hwrites : ∀ job : Job (RAIDCall.Answer (g := g)), job.request = request →
        (s.jobs ++ [job]).filterMap (fun job => job.request.written?) = s.writes ++ request.written?.toList := by
      rintro job rfl
      rw [List.filterMap_append, writes]
      cases hw : job.request.written? <;> simp [hw]
    refine ⟨⟨none, hk, ?_⟩, fun i job hj => ?_, fun i hi => ?_, fun k' size hk' => ?_⟩
    · rw [Option.toList_none, List.append_nil, writes, record, hwrites _ rfl]
      exact halloc
    · rw [record] at hj
      rcases Nat.lt_or_ge i s.jobs.length with hi | hi
      · rw [List.getElem?_append_left hi] at hj
        exact (h.jobs i job hj).mono (fun _ => id) (hc i).mp
      · -- the command that was queued
        rw [List.getElem?_append_right hi] at hj
        obtain rfl := List.mem_singleton.mp (List.mem_of_getElem? hj)
        refine ⟨false, obeys_job_recorded _ request, nofun, fun _ _ => ?_⟩
        rw [hc]
        exact h.fresh i hi
    · rw [hc]
      exact h.fresh i (Nat.le_trans (by simp [record]) hi)
    · rw [writes, record, hwrites _ rfl]
      obtain ⟨data, hmem, hl⟩ := h.index k' size hk'
      exact ⟨data, List.mem_append_left _ hmem, hl⟩
  | _ =>
    exact h.congr hworker ⟨x, hk, (allocations_of_answer hd (by simp)).trans halloc⟩ rfl rfl

omit [LawfulMinion μ] [IMetadataStore τ] in
/-- A job after one call of the worker `i`. -/
theorem getElem?_setJob {i j : Nat} {job job' : Job (RAIDCall.Answer (g := g))}
    {p : Prog (JobCall (RAIDCall g)) (JobCall.Answer RAIDCall.Answer) (Except String Unit)}
    (hj : s.jobs[i]? = some job) (h : (s.setJob i job p).jobs[j]? = some job') :
    j = i ∧ job' = { job with prog := p } ∨ j ≠ i ∧ s.jobs[j]? = some job' := by
  rw [setJob, List.getElem?_set] at h
  rcases eq_or_ne i j with rfl | hne
  · rw [if_pos rfl, if_pos (List.getElem?_eq_some_iff.mp hj).1] at h
    exact .inl ⟨rfl, (Option.some.inj h).symm⟩
  · rw [if_neg hne] at h
    exact .inr ⟨hne.symm, h⟩

omit [LawfulMinion μ] [IMetadataStore τ] in
/-- A call of a worker to the driver. -/
theorem Allocated.worker {s₁ : OverRAID μ τ g} {i : Nat} {job : Job (RAIDCall.Answer (g := g))} {o : ServerCall}
    {a : o.Answer} {k : o.Answer → Prog (JobCall (RAIDCall g)) (JobCall.Answer RAIDCall.Answer) (Except String Unit)}
    (h : Allocated tr s) (hj : s.jobs[i]? = some job) (hprog : job.prog = .call (.server o) k)
    (ha : s.answer ⟨o, a⟩ = some s₁) : Allocated (tr ++ [.worker i ⟨o, a⟩]) (s₁.setJob i job (k a)) := by
  obtain ⟨x, hp, hx, hconf⟩ := h.jobs i job hj
  rw [hprog] at hp
  -- a worker calls the driver for a `write` only
  obtain ⟨⟨fd, buf, rfl, hbuf⟩, hk⟩ := hp.call_inv
  obtain ⟨kernel, -, ha⟩ := Option.bind_eq_some_iff.mp ha
  obtain ⟨driver, hd, rfl⟩ := Option.map_eq_some_iff.mp ha
  have hc : ∀ j, Confirmed j (tr ++ [.worker i ⟨.write fd buf, a⟩]) ↔
      Confirmed j tr ∨ Confirms buf ∧ j = i := by
    intro j
    rw [confirmed_snoc]
    refine or_congr_right ⟨?_, ?_⟩
    · rintro ⟨_, _, _, hb, ⟨⟩⟩
      exact ⟨hb, rfl⟩
    · rintro ⟨hb, rfl⟩
      exact ⟨_, _, _, hb, rfl⟩
  have hwrites := writes_setJob (s := { s with kernel := kernel, driver := driver }) hj (k a)
  refine ⟨?_, fun j job' hj' => ?_, fun j hj' => ?_, fun k' size hk' => ?_⟩
  · obtain ⟨y, hy, halloc⟩ := h.notify
    refine ⟨y, hy, ?_⟩
    rw [hwrites]
    exact (allocations_of_answer hd (by simp)).trans halloc
  · rcases getElem?_setJob hj hj' with ⟨rfl, rfl⟩ | ⟨hne, hj'⟩
    · -- the job that has written: a reply that confirms comes after the record
      refine ⟨x, hk a trivial, hx, fun hw hf => ?_⟩
      rw [hc]
      rintro (hold | ⟨hb, -⟩)
      · exact hconf hw hf hold
      · exact hbuf hw hf hb
    · refine (h.jobs j job' hj').mono (fun _ => id) fun hj => ?_
      exact ((hc j).mp hj).resolve_right fun hb => hne hb.2
  · rw [setJob, List.length_set] at hj'
    rw [hc]
    rintro (hold | ⟨-, rfl⟩)
    · exact h.fresh j hj' hold
    · -- jobs that are still to come have written nothing
      exact absurd (List.getElem?_eq_some_iff.mp hj).1 (Nat.not_lt.mpr hj')
  · rw [hwrites]
    exact h.index k' size hk'

/-- A call of a worker to the storage. -/
theorem Allocated.storage {st : RAIDStorage μ τ g} {i : Nat} {job : Job (RAIDCall.Answer (g := g))}
    {o : RAIDCall g} {a : o.Answer}
    {k : o.Answer → Prog (JobCall (RAIDCall g)) (JobCall.Answer RAIDCall.Answer) (Except String Unit)}
    (h : Allocated tr s) (hj : s.jobs[i]? = some job) (hprog : job.prog = .call (.storage o) k)
    (hR : RAIDStorage.Answers s.storage o a st) :
    Allocated (tr ++ [.storage i ⟨o, a⟩]) { s.setJob i job (k a) with storage := st } := by
  obtain ⟨x, hp, hx, hconf⟩ := h.jobs i job hj
  rw [hprog] at hp
  obtain ⟨hown, hk⟩ := hp.call_inv
  have hown : RecordsOwn job.request o := hown
  have hindex : st.offsetSizes = recordCall s.storage.offsetSizes ⟨o, a⟩ := offsetSizes_of_answers hR
  have hc : ∀ j, Confirmed j (tr ++ [.storage i ⟨o, a⟩]) ↔ Confirmed j tr :=
    fun j => confirmed_snoc_of_ne (by simp)
  have hwrites := writes_setJob hj (k a)
  -- an entry stays, and the new one is that of the request
  have hkeep : ∀ k, k ∈ s.storage.offsetSizes → k ∈ st.offsetSizes := fun k hk => by
    rw [hindex]
    have hmem : k ∈ [(⟨o, a⟩ : Exchange (RAIDCall g) RAIDCall.Answer)].foldl recordCall s.storage.offsetSizes :=
      mem_foldl_recordCall (v := 0) (.inl hk)
    exact hmem
  have hnew : ∀ k size, st.offsetSizes[k]? = some size → s.storage.offsetSizes[k]? = some size ∨
      job.request.type = .write ∧ k = job.request.offset ∧ size = job.request.buffer.length := by
    intro k size hks
    rw [hindex] at hks
    have hks : ([(⟨o, a⟩ : Exchange (RAIDCall g) RAIDCall.Answer)].foldl recordCall s.storage.offsetSizes)[k]? =
        some size := hks
    rcases getElem?_foldl_recordCall hks with hold | ⟨e, he, heo⟩
    · exact .inl hold
    · obtain rfl := List.mem_singleton.mp he
      exact .inr (hown k size heo)
  refine ⟨?_, fun j job' hj' => ?_, fun j hj' => ?_, fun k' size hk' => ?_⟩
  · obtain ⟨y, hy, halloc⟩ := h.notify
    exact ⟨y, hy, halloc.trans (by rw [← hwrites]; rfl)⟩
  · rcases getElem?_setJob hj hj' with ⟨rfl, rfl⟩ | ⟨hne, hj'⟩
    · refine ⟨recordedAfter x o, hk a trivial, fun hrec => ?_, fun hw hf => ?_⟩
      · cases o with
        | recordSize offset size =>
          obtain ⟨-, rfl, -⟩ := hown _ _ rfl
          rw [hindex]
          exact Std.ExtTreeMap.mem_insert_self
        | _ => exact hkeep _ (hx hrec)
      · rw [hc]
        cases o with
        | recordSize offset size => cases hf
        | _ => exact hconf hw hf
    · exact (h.jobs j job' hj').mono hkeep (hc j).mp
  · rw [hc]
    exact h.fresh j (Nat.le_trans (by simp [setJob]) hj')
  · have hmem : ∀ w, w ∈ s.writes → w ∈ ({ s.setJob i job (k a) with storage := st } : OverRAID μ τ g).writes :=
      fun w hw => hwrites ▸ hw
    rcases hnew k' size hk' with hold | ⟨hw, rfl, rfl⟩
    · obtain ⟨data, hd, hl⟩ := h.index k' size hold
      exact ⟨data, hmem _ hd, hl⟩
    · exact ⟨_, hmem _ (mem_writes.mpr ⟨job, List.mem_of_getElem? hj, hw, rfl, rfl⟩), rfl⟩

/-- A step of the server. -/
theorem Allocated.step (hs : Step RAIDStorage.Answers (toIStorage g) s act s') (h : Allocated tr s) :
    Allocated (tr ++ [act]) s' := by
  cases hs with
  | event hidle hfd =>
    obtain ⟨x, hp, halloc⟩ := h.notify
    rw [hidle] at hp
    obtain rfl : x = none := hp.ret_inv
    exact h.congr (by simp) ⟨none, obeys_notify_allocating _ _, halloc⟩ rfl rfl
  | reactor hn ha => exact h.reactor hn ha
  | worker hj hprog ha => exact h.worker hj hprog ha
  | storage hj hprog hR => exact h.storage hj hprog hR
  | openFile hfd => exact h.congr (by simp) h.notify rfl rfl
  | closeFile hfd => exact h.congr (by simp) h.notify rfl rfl

/-- Allocations and index in every state of a run from empty ones. -/
theorem Allocated.run {listenFd : Int} {storage : RAIDStorage μ τ g} (h₀ : storage.offsetSizes = ∅)
    (hr : Trace (Step RAIDStorage.Answers (toIStorage g)) (start listenFd ∅ storage) tr s) : Allocated tr s := by
  refine hr.invariant (I := Allocated) ⟨⟨none, .ret (by rfl), rfl⟩, ?_, ?_, ?_⟩ fun _ _ _ _ hs h => h.step hs
  · exact fun i job hj => by cases hj
  · rintro i - ⟨fd, buf, a, -, hmem⟩
    cases hmem
  · intro k size hk
    simp [start, h₀] at hk

/-- **Allocations and index** after any requests, failures included. The allocations have the offsets of the
`WRITE` requests that were received, each with their payloads one after the other. The index has some of
these offsets, each with the length of one of the payloads; the offset of a confirmed request is among them,
and if nothing else was received for it, both record the same number of bytes. -/
theorem allocations_agree {listenFd : Int} {storage : RAIDStorage μ τ g} (h₀ : storage.offsetSizes = ∅)
    (hr : Trace (Step RAIDStorage.Answers (toIStorage g)) (start listenFd ∅ storage) tr s)
    (hidle : s.notify.value?.isSome) :
    (∀ k, k ∈ s.driver.allocations ↔ ∃ w ∈ s.writes, w.1 = k) ∧
    (∀ k, s.driver.allocations[k]?.getD [] = (s.writes.filter (·.1 = k)).flatMap Prod.snd) ∧
    (∀ k, k ∈ s.storage.offsetSizes → k ∈ s.driver.allocations) ∧
    (∀ k size, s.storage.offsetSizes[k]? = some size → ∃ data, (k, data) ∈ s.writes ∧ data.length = size) ∧
    ∀ i job, s.jobs[i]? = some job → job.request.type = .write → Confirmed i tr →
      job.request.offset ∈ s.storage.offsetSizes ∧
      (s.writes.filter (·.1 = job.request.offset) = [(job.request.offset, job.request.buffer)] →
        (s.driver.allocations[job.request.offset]?.getD []).length =
          s.storage.offsetSizes[job.request.offset]?.getD 0) := by
  have h := Allocated.run h₀ hr
  have halloc : s.driver.allocations = s.writes.foldl allocate ∅ := by
    obtain ⟨x, hp, halloc⟩ := h.notify
    obtain ⟨r, hn⟩ := Option.isSome_iff_exists.mp hidle
    rw [Prog.value?_eq_some.mp hn] at hp
    obtain rfl : x = none := hp.ret_inv
    rwa [Option.toList_none, List.append_nil] at halloc
  have hkeys : ∀ k, k ∈ s.driver.allocations ↔ ∃ w ∈ s.writes, w.1 = k := fun k => by
    rw [halloc, mem_foldl_allocate]
    simp
  have hbytes : ∀ k, s.driver.allocations[k]?.getD [] = (s.writes.filter (·.1 = k)).flatMap Prod.snd := fun k => by
    rw [halloc, getD_foldl_allocate]
    simp
  refine ⟨hkeys, hbytes, fun k hk => ?_, h.index, fun i job hj hw hc => ?_⟩
  · obtain ⟨size, hsize⟩ := Option.isSome_iff_exists.mp (Std.ExtTreeMap.isSome_getElem?_iff_mem.mpr hk)
    obtain ⟨data, hmem, -⟩ := h.index k size hsize
    exact (hkeys k).mpr ⟨_, hmem, rfl⟩
  · obtain ⟨x, -, hx, hn⟩ := h.jobs i job hj
    have hmem : job.request.offset ∈ s.storage.offsetSizes := by
      cases x with
      | true => exact hx rfl
      | false => exact absurd hc (hn hw rfl)
    refine ⟨hmem, fun honly => ?_⟩
    obtain ⟨size, hsize⟩ := Option.isSome_iff_exists.mp (Std.ExtTreeMap.isSome_getElem?_iff_mem.mpr hmem)
    obtain ⟨data, hdata, rfl⟩ := h.index _ size hsize
    -- the size is that of the only payload
    have hdata : (job.request.offset, data) ∈ s.writes.filter (·.1 = job.request.offset) :=
      List.mem_filter.mpr ⟨hdata, decide_eq_true rfl⟩
    rw [honly] at hdata
    obtain ⟨-, rfl⟩ := Prod.mk.inj (List.mem_singleton.mp hdata)
    rw [hbytes, honly, hsize]
    simp

/-! ## Written twice -/

theorem length_writeHeader_le :
    (bigEndian 4 1 ++ bigEndian 8 0 ++ bigEndian 8 0 ++ bigEndian 4 1).length ≤ 24 := by decide

theorem length_byte_le : ([7] : List Byte).length ≤ 1 := by decide

/-- The client on descriptor 4 sends a `WRITE` of one byte at offset 0. -/
def writesByte : List (RAIDAction ⟨1, 4, Nat.one_pos⟩) :=
  [.event 4, .reactor ⟨.read 4 24, .ok ⟨bigEndian 4 1 ++ bigEndian 8 0 ++ bigEndian 8 0 ++ bigEndian 4 1,
      length_writeHeader_le⟩⟩,
    .reactor ⟨.read 4 1, .ok ⟨[7], length_byte_le⟩⟩, .reactor ⟨.updateAllocation 0 [7], ()⟩,
    .reactor ⟨.saveAllocations, ()⟩,
    .reactor ⟨.addCommand { DriverData.new .write 0 0 1 with buffer := [7], sourceFd := 4 }, ()⟩]

/-- The worker `i` writes the byte to the two minions, records its size, and confirms the request. -/
def servesByte (i : Nat) : List (RAIDAction ⟨1, 4, Nat.one_pos⟩ ⊕ Nat) :=
  [.inr i, .inr i, .inr i,
    .inl (.worker i ⟨.write 4 (bigEndian 4 0 ++ bigEndian 8 0 ++ bigEndian 4 0), .ok (Fin.last _)⟩)]

/-- The byte is written twice: two bytes are allocated, and the size is one. -/
theorem allocations_diverge :
    ¬ ∀ tr s, Trace (Step RAIDStorage.Answers (toIStorage _)) small tr s → s.notify.value?.isSome →
      (∀ job ∈ s.jobs, job.prog.value?.isSome) → ∀ k, (k ∈ s.driver.allocations ↔ k ∈ s.storage.offsetSizes) ∧
        (s.driver.allocations[k]?.getD []).length = s.storage.offsetSizes[k]?.getD 0 := by
  intro h
  -- a byte is written twice: the allocation grows, and the entry does not
  have hexec : (execAll (execWith RAIDStorage.handler (toIStorage _))
      ((connects "10.0.0.1" ++ writesByte).map .inl ++ servesByte 0 ++ writesByte.map .inl ++ servesByte 1)
        small).map (fun s => decide (s.notify.value?.isSome ∧ (∀ job ∈ s.jobs, job.prog.value?.isSome) ∧
          (s.driver.allocations[0]?.getD []).length = 2 ∧ s.storage.offsetSizes[0]?.getD 0 = 1)) = some true := by
    decide +kernel
  obtain ⟨s, he, hs⟩ := Option.map_eq_some_iff.mp hexec
  obtain ⟨hidle, hdone, hbytes, hsize⟩ := of_decide_eq_true hs
  obtain ⟨tr, hrun, -⟩ := trace_of_execWith (R := RAIDStorage.Answers) (fun _ _ _ _ => .own) he
  have := (h tr s hrun hidle hdone 0).2
  omega

/-- The byte is written once. -/
theorem allocations_agree_once :
    ∃ tr s, Trace (Step RAIDStorage.Answers (toIStorage _)) small tr s ∧
      (s.driver.allocations[0]?.getD []).length = s.storage.offsetSizes[0]?.getD 0 ∧
      0 ∈ s.storage.offsetSizes := by
  have hexec : (execAll (execWith RAIDStorage.handler (toIStorage _))
      ((connects "10.0.0.1" ++ writesByte).map .inl ++ servesByte 0) small).map (fun s =>
        (decide (s.notify.value?.isSome ∧ s.writes = [(0, [7])]),
          s.jobs[0]?.map fun job => (decide (job.request.type = .write), job.request.offset, job.request.buffer))) =
      some (true, some (true, 0, [7])) := by
    decide +kernel
  obtain ⟨s, he, hs⟩ := Option.map_eq_some_iff.mp hexec
  obtain ⟨hs, hjob⟩ := Prod.mk.inj hs
  obtain ⟨hidle, hwrites⟩ := of_decide_eq_true hs
  obtain ⟨job, hj, hjob⟩ := Option.map_eq_some_iff.mp hjob
  simp only [Prod.mk.injEq, decide_eq_true_eq] at hjob
  obtain ⟨hw, hoffset, hbuffer⟩ := hjob
  obtain ⟨tr, hrun, hmem⟩ := trace_of_execWith (R := RAIDStorage.Answers) (fun _ _ _ _ => .own) he
  have hreply : (.inl (.worker 0 ⟨.write 4 (bigEndian 4 0 ++ bigEndian 8 0 ++ bigEndian 4 0), .ok (Fin.last _)⟩) :
      RAIDAction ⟨1, 4, Nat.one_pos⟩ ⊕ Nat) ∈ servesByte 0 := by
    simp [servesByte]
  have hconfirmed : Confirmed 0 tr :=
    ⟨4, _, _, ⟨DriverData.new .write 0 0 1, rfl, rfl⟩, hmem _ (List.mem_append_right _ hreply)⟩
  obtain ⟨hindex, hagree⟩ := (allocations_agree rfl hrun hidle).2.2.2.2 0 job hj hw hconfirmed
  rw [hoffset] at hindex hagree
  exact ⟨tr, s, hrun, hagree (by rw [hwrites, hbuffer]; rfl), hindex⟩

end Server

end LDS
