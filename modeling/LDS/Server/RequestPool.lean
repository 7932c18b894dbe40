import LDS.Server.ListenSocket
import LDS.Server.ReplyFrames

/-!
# The server over its storage

A command lets the storage do its work, and has the driver send the reply when that is done. Seen from the
storage, the server is a pool of programs, one for each request that was queued; the replies are what these
programs return.

## Main definitions

* `InputMediator.outcome S request`: the storage's part of a command, and the reply that it is to send
* `Server.programs S s`: the storage's parts of the commands that were queued
* `Action.storageCall?`, `Action.writtenBy i`: what an action is for the storage, and for the client of a job
* `Server.Progress job q w`: how far the job has come

## Main results

* `InputMediator.job_eq`: a command is its storage's part and the reply
* `Server.Pooled.run_server`: a run of the server, seen from the storage
-/

namespace LDS

variable {Op : Type} {Ans : Op → Type} {σ : Type}

/-! ## The two parts of a command -/

namespace InputMediator

/-- What a command does with the storage, and what comes of it: the reply that is to be sent, if there is one,
or an exception. -/
def outcome (S : IStorage Op Ans) (request : DriverData) : Prog Op Ans (Except String (Option DriverData)) :=
  match request.type with
  | .read => do return (← S.read request).map some
  | .write => do return (← S.write request).map some
  | .flush => return .ok (some { request with status := .success })
  | .trim => return .ok (some { request with status := .success })
  | .disconnect => return .ok none
  | .getSize => do
    let len ← S.getDataSize request.offset
    return .ok (some { request with len := len, status := .success })
  | .listOffsets => do
    let buffer := packOffsets (← S.listOffsets)
    return .ok (some { request with buffer := buffer, len := buffer.length, status := .success })
  | .other _ => return .error "map::at"

/-- What a command does with what a member of the storage returns, or throws. -/
def replyOrThrow : Except String DriverData → CommandProg Ans (Except String Unit)
  | .error what => return .error what
  | .ok request => sendReply request

/-- What is left of a command when the storage has done its part. -/
def finish : Except String (Option DriverData) → Prog (JobCall Op) (JobCall.Answer Ans) (Except String Unit)
  | .error what => .ret (.error what)
  | .ok none => .ret (.ok ())
  | .ok (some data) => .lift (JobCall.Answer Ans) JobCall.server (TCPDriverComm.sendReply data)

/-- The calls of the storage stay what they are. -/
theorem inline_callStorage {α : Type} (driver : IDriverComm) (p : Prog Op Ans α) :
    (callStorage p).inline (runCall driver) = Prog.lift (JobCall.Answer Ans) JobCall.storage p := by
  induction p with
  | ret a => rfl
  | call o k ih => exact congrArg (Prog.call _) (funext fun a => ih a)
  | abort => rfl

/-- The reply of a TCP command. -/
theorem inline_sendReply (listenFd : Int) (data : DriverData) :
    (sendReply data : CommandProg Ans _).inline (runCall (TCPDriverComm.toIDriverComm listenFd)) =
      finish (.ok (some data)) :=
  Prog.bind_ret _

/-- What a worker runs is the storage's part of the command, and then the reply. -/
theorem job_eq (listenFd : Int) (S : IStorage Op Ans) (request : DriverData) :
    job (TCPDriverComm.toIDriverComm listenFd) S request =
      Prog.lift (JobCall.Answer Ans) JobCall.storage (outcome S request) >>= finish := by
  -- a member of the storage that returns the reply, or throws
  have hserve : ∀ p : Prog Op Ans (Except String DriverData),
      (callStorage p >>= replyOrThrow).inline (runCall (TCPDriverComm.toIDriverComm listenFd)) =
        Prog.lift (JobCall.Answer Ans) JobCall.storage (do return (← p).map some) >>= finish := by
    intro p
    rw [Prog.inline_bind, inline_callStorage, Prog.lift, Prog.lift, Prog.inline_bind, Prog.bind_assoc]
    congr
    funext r
    rcases r with what | data
    · rfl
    · exact inline_sendReply listenFd data
  -- a member of the storage that returns a part of the reply
  have hany : ∀ {α : Type} (p : Prog Op Ans α) (f : α → DriverData),
      (do sendReply (f (← callStorage p)) : CommandProg Ans _).inline
          (runCall (TCPDriverComm.toIDriverComm listenFd)) =
        Prog.lift (JobCall.Answer Ans) JobCall.storage (do return .ok (some (f (← p)))) >>= finish := by
    intro α p f
    rw [Prog.inline_bind, inline_callStorage, Prog.lift, Prog.lift, Prog.inline_bind, Prog.bind_assoc]
    congr
    funext a
    exact inline_sendReply listenFd (f a)
  obtain ⟨type, handle, offset, len, status, buffer, sourceFd⟩ := request
  cases type with
  | read => exact hserve _
  | write => exact hserve _
  | flush => exact inline_sendReply listenFd _
  | trim => exact inline_sendReply listenFd _
  | disconnect => rfl
  | getSize => exact hany _ (⟨.getSize, handle, offset, ·, .success, buffer, sourceFd⟩)
  | listOffsets =>
    exact hany _ fun offsets =>
      ⟨.listOffsets, handle, offset, (packOffsets offsets).length, .success, packOffsets offsets, sourceFd⟩
  | other code => rfl

end InputMediator

/-! ## Sending a reply -/

/-- The contract of a program that writes a byte string to `fd`, with what is left of it. It gives up when a
`write` fails. -/
def sending (fd : Int) : Prog.Contract ServerCall ServerCall.Answer (Option (List Byte)) where
  answers _ _ _ := True
  calls
    | some rest, o => ∃ buf, o = .write fd buf ∧ buf ≠ [] ∧ buf <+: rest
    | none, _ => False
  next
    | some rest, .write _ _, .ok n => if n.val = 0 then none else some (rest.drop n)
    | _, _, _ => none
  mayAbort := False

section Sending

variable {fd : Int} {failed : String → String} {zero : String}

theorem obeys_writeAll_sending (buf tail : List Byte) :
    Prog.Obeys (sending fd) (fun x r => x = some tail ∧ r = .ok () ∨ x = none ∧ ∃ what, r = .error what)
      (some (buf ++ tail)) (writeAll failed zero fd buf) := by
  induction hn : buf.length using Nat.strong_induction_on generalizing buf with
  | _ n ih =>
    rw [writeAll]
    split
    · rename_i hpos
      refine .call ⟨buf, rfl, List.ne_nil_of_length_pos hpos, tail, rfl⟩ ?_
      rintro (errno | m) -
      · exact .ret (.inr ⟨rfl, _, rfl⟩)
      have hle : m.val ≤ buf.length := Nat.le_of_lt_succ m.isLt
      change Prog.Obeys (sending fd) _ (if m.val = 0 then none else some ((buf ++ tail).drop m))
        (if m.val = 0 then .ret (.error zero) else writeAll failed zero fd (buf.drop m))
      by_cases hm : m.val = 0
      · rw [if_pos hm, if_pos hm]
        exact .ret (.inr ⟨rfl, _, rfl⟩)
      · rw [if_neg hm, if_neg hm, List.drop_append_of_le_length hle]
        exact ih _ (by rw [List.length_drop]; omega) _ rfl
    · obtain rfl := List.eq_nil_of_length_eq_zero (by omega : buf.length = 0)
      exact .ret (.inl ⟨rfl, rfl⟩)

/-- `SendReply` writes the bytes of its reply, or gives up. -/
theorem TCPDriverComm.obeys_sendReply_sending {data : DriverData} (h : 0 ≤ data.sourceFd) :
    Prog.Obeys (sending data.sourceFd) (fun x _ => x = some [] ∨ x = none) (some (replyFrame data))
      (sendReply data) := by
  rw [sendReply, if_neg (by omega), replyFrame]
  refine (obeys_writeAll_sending (replyHeader data) _).bind ?_
  rintro _ _ (⟨rfl, rfl⟩ | ⟨rfl, what, rfl⟩)
  · dsimp only
    split
    · have hpayload := @obeys_writeAll_sending data.sourceFd ("Write failed: " ++ ·)
        "Write failed - client disconnected" data.buffer []
      rw [List.append_nil] at hpayload
      refine hpayload.bind ?_
      rintro _ _ (⟨rfl, -⟩ | ⟨rfl, -⟩)
      · exact .ret (.inl rfl)
      · exact .ret (.inr rfl)
    · exact .ret (.inl rfl)
  · exact .ret (.inr rfl)

end Sending

/-! ## Jobs -/

/-- How far a job has come: the storage is to do `q` for it, and nothing has been written; or `q` has returned
a reply, of which `w` has been written. -/
inductive Server.Progress (job : Job Ans) (q : Prog Op Ans (Except String (Option DriverData)))
    (w : List Byte) : Prop
  | working (hw : w = []) (hp : job.prog = Prog.lift (JobCall.Answer Ans) JobCall.storage q >>= InputMediator.finish)
  | replying {data : DriverData} {x : Option (List Byte)} {p : ServerProg (Except String Unit)}
      (hq : q = .ret (.ok (some data))) (hp : job.prog = Prog.lift (JobCall.Answer Ans) JobCall.server p)
      (hx : Prog.Obeys (sending data.sourceFd) (fun x _ => x = some [] ∨ x = none) x p)
      (hw : w <+: TCPDriverComm.replyFrame data)
      (hrest : ∀ rest, x = some rest → w ++ rest = TCPDriverComm.replyFrame data)

namespace Server

section Progress

variable {job : Job Ans} {q : Prog Op Ans (Except String (Option DriverData))} {w : List Byte}

/-- A new job. -/
theorem progress_job (listenFd : Int) (S : IStorage Op Ans) (origin : Option Object) (request : DriverData) :
    Progress ⟨origin, request, InputMediator.job (TCPDriverComm.toIDriverComm listenFd) S request⟩
      (InputMediator.outcome S request) [] :=
  .working rfl (InputMediator.job_eq listenFd S request)

/-- A call of the storage is one of the storage's part. -/
theorem Progress.storage {o : Op} {k : Ans o → Prog (JobCall Op) (JobCall.Answer Ans) (Except String Unit)}
    (h : Progress job q w) (hp : job.prog = .call (.storage o) k) :
    w = [] ∧ ∃ k', q = .call o k' ∧ ∀ a, Progress { job with prog := k a } (k' a) [] := by
  cases h with
  | working hw hprog =>
    rw [hprog] at hp
    cases q with
    | ret r =>
      -- the reply makes no call of the storage
      obtain what | _ | data := r
      · cases hp
      · cases hp
      · cases hsend : TCPDriverComm.sendReply data with
        | ret r => simp [Prog.lift, InputMediator.finish, hsend] at hp
        | call o' k' => simp [Prog.lift, InputMediator.finish, hsend] at hp
        | abort => simp [Prog.lift, InputMediator.finish, hsend] at hp
    | call o' k' =>
      cases hp
      exact ⟨hw, k', rfl, fun a => .working rfl rfl⟩
    | abort => cases hp
  | replying hq hprog =>
    rename_i data x p hx hpre hrest
    rw [hprog] at hp
    cases p <;> cases hp

/-- A job that is about to call the driver has a reply to send. -/
theorem Progress.reply {o : ServerCall} {k : o.Answer → Prog (JobCall Op) (JobCall.Answer Ans) (Except String Unit)}
    (h : Progress job q w) (hp : job.prog = .call (.server o) k) :
    ∃ (data : DriverData) (x : Option (List Byte)) (p : ServerProg (Except String Unit)),
      q = .ret (.ok (some data)) ∧ job.prog = Prog.lift (JobCall.Answer Ans) JobCall.server p ∧
        Prog.Obeys (sending data.sourceFd) (fun x _ => x = some [] ∨ x = none) x p ∧
        w <+: TCPDriverComm.replyFrame data ∧ ∀ rest, x = some rest → w ++ rest = TCPDriverComm.replyFrame data := by
  cases h with
  | working hw hprog =>
    rw [hprog] at hp
    cases q with
    | ret r =>
      obtain what | _ | data := r
      · cases hp
      · cases hp
      · -- no reply is sent to a negative descriptor
        have hfd : 0 ≤ data.sourceFd := by
          by_contra hneg
          have hsend : TCPDriverComm.sendReply data = .ret (.ok ()) := by
            rw [TCPDriverComm.sendReply, if_pos (by omega), Prog.pure_eq]
          simp [Prog.lift, InputMediator.finish, hsend] at hp
        subst hw
        exact ⟨data, _, _, rfl, hprog, TCPDriverComm.obeys_sendReply_sending hfd, List.nil_prefix,
          fun rest hr => Option.some.inj hr ▸ rfl⟩
    | call o' k' => cases hp
    | abort => cases hp
  | replying hq hprog hx hpre hrest => exact ⟨_, _, _, hq, hprog, hx, hpre, hrest⟩

/-- A call of the driver is a `write` of the reply, once the storage has done its part. -/
theorem Progress.write {o : ServerCall} {k : o.Answer → Prog (JobCall Op) (JobCall.Answer Ans) (Except String Unit)}
    (h : Progress job q w) (hp : job.prog = .call (.server o) k) :
    ∃ data, q = .ret (.ok (some data)) ∧ (∃ buf, o = .write data.sourceFd buf) ∧
      ∀ a, Progress { job with prog := k a } q (w ++ accepted ⟨o, a⟩) := by
  obtain ⟨data, x, p, rfl, hprog, hx, hpre, hrest⟩ := h.reply hp
  rw [hprog] at hp
  cases p with
  | ret r => cases hp
  | abort => cases hp
  | call o' k' =>
    cases hp
    obtain ⟨ho, hk⟩ := hx.call_inv
    cases x with
    | none => exact ho.elim
    | some rest =>
      obtain ⟨buf, rfl, -, tail, rfl⟩ := ho
      have hframe := hrest _ rfl
      refine ⟨data, rfl, ⟨buf, rfl⟩, fun a => ?_⟩
      rcases a with errno | n
      · refine .replying rfl rfl (hk _ trivial) ?_ fun rest h => by cases h
        rwa [show accepted ⟨.write data.sourceFd buf, .error errno⟩ = [] from rfl, List.append_nil]
      have hle : n.val ≤ buf.length := Nat.le_of_lt_succ n.isLt
      have haccepted : accepted ⟨.write data.sourceFd buf, .ok n⟩ = buf.take n := rfl
      refine .replying rfl rfl (hk _ trivial) ?_ fun rest hr => ?_
      · -- what is accepted is the front of what was left
        rw [haccepted, ← hframe]
        refine ⟨buf.drop n ++ tail, ?_⟩
        rw [List.append_assoc, ← List.append_assoc (buf.take n), List.take_append_drop]
      · simp only [sending] at hr
        split at hr
        · cases hr
        · obtain rfl := Option.some.inj hr
          rw [haccepted, List.drop_append_of_le_length hle, List.append_assoc, ← List.append_assoc (buf.take n),
            List.take_append_drop, hframe]

end Progress

end Server

/-! ## Runs -/

/-- What an action is for the storage: a call for a job. -/
def Action.storageCall? : Action Ans → Option (Nat × Exchange Op Ans)
  | .storage i e => some (i, e)
  | _ => none

/-- The bytes of its reply that an action of the job `i` writes. -/
def Action.writtenBy (i : Nat) : Action Ans → List Byte
  | .worker j e => if j = i then accepted e else []
  | _ => []

namespace Server

/-- The calls of the storage in a run, with their jobs. -/
def storageCalls (tr : List (Action Ans)) : List (Nat × Exchange Op Ans) := tr.filterMap Action.storageCall?

/-- What the job `i` has written in a run. -/
def written (i : Nat) (tr : List (Action Ans)) : List Byte := tr.flatMap (Action.writtenBy i)

/-- What the storage is to do for the commands that were queued. -/
def programs (S : IStorage Op Ans) (jobs : List (Job Ans)) (i : Nat) :
    Prog Op Ans (Except String (Option DriverData)) :=
  match jobs[i]? with
  | some job => InputMediator.outcome S job.request
  | none => .ret (.ok none)

section History

variable {tr : List (Action Ans)} {act : Action Ans} {i j : Nat}

theorem storageCalls_snoc_none (h : act.storageCall? = none) : storageCalls (tr ++ [act]) = storageCalls tr := by
  simp [storageCalls, List.filterMap_append, h]

theorem storageCalls_snoc_some {e : Nat × Exchange Op Ans} (h : act.storageCall? = some e) :
    storageCalls (tr ++ [act]) = storageCalls tr ++ [e] := by
  simp [storageCalls, List.filterMap_append, h]

theorem written_snoc : written i (tr ++ [act]) = written i tr ++ act.writtenBy i := by
  simp [written]

theorem written_snoc_nil (h : act.writtenBy i = []) : written i (tr ++ [act]) = written i tr := by
  rw [written_snoc, h, List.append_nil]

end History

variable {R : Environment Op Ans σ} {S : IStorage Op Ans} {s₀ s s' : Server Ans σ} {act : Action Ans}
  {tr : List (Action Ans)} {T : Nat → Prog Op Ans (Except String (Option DriverData))}

/-- The jobs keep their requests. -/
theorem programs_set {jobs : List (Job Ans)} {i : Nat} {job : Job Ans} (hj : jobs[i]? = some job)
    (prog : Prog (JobCall Op) (JobCall.Answer Ans) (Except String Unit)) :
    programs S (jobs.set i { job with prog := prog }) = programs S jobs := by
  ext1 j
  rcases eq_or_ne i j with rfl | hne
  · have hlt := (List.getElem?_eq_some_iff.mp hj).1
    rw [programs, programs, hj, List.getElem?_set_self hlt]
  · rw [programs, programs, List.getElem?_set_ne hne]

/-- A run of the server, seen from the storage: the programs have come to `T`. -/
structure Pooled (R : Environment Op Ans σ) (S : IStorage Op Ans) (st₀ : σ) (tr : List (Action Ans))
    (s : Server Ans σ) (T : Nat → Prog Op Ans (Except String (Option DriverData))) : Prop where
  run : Pool.Run R (programs S s.jobs) st₀ (storageCalls tr) T s.storage
  job : ∀ i job, s.jobs[i]? = some job → Progress job (T i) (written i tr)
  unborn : ∀ i, s.jobs.length ≤ i → Pool.own i (storageCalls tr) = [] ∧ written i tr = []

/-- A step that calls nothing but the reactor. -/
theorem Pooled.congr (h : Pooled R S s₀.storage tr s T) (hcall : act.storageCall? = none)
    (hwritten : ∀ i, act.writtenBy i = []) (hstorage : s'.storage = s.storage) (hjobs : s'.jobs = s.jobs) :
    Pooled R S s₀.storage (tr ++ [act]) s' T where
  run := by
    rw [storageCalls_snoc_none hcall, hstorage, hjobs]
    exact h.run
  job i job hj := by
    rw [written_snoc_nil (hwritten i)]
    exact h.job i job (hjobs ▸ hj)
  unborn i hi := by
    rw [storageCalls_snoc_none hcall, written_snoc_nil (hwritten i)]
    exact h.unborn i (hjobs ▸ hi)

/-- A command is queued: its program joins the pool. -/
theorem Pooled.queue (h : Pooled R S s₀.storage tr s T) {o : Option Object} {request : DriverData} {l : Int}
    (hcall : act.storageCall? = none) (hwritten : ∀ i, act.writtenBy i = []) (hstorage : s'.storage = s.storage)
    (hjobs : s'.jobs = s.jobs ++
      [⟨o, request, InputMediator.job (TCPDriverComm.toIDriverComm l) S request⟩]) :
    ∃ T', Pooled R S s₀.storage (tr ++ [act]) s' T' := by
  obtain ⟨hrun, hjob, hunborn⟩ := h
  -- nothing has been asked of the storage under the new number
  have hnew := hunborn s.jobs.length le_rfl
  have hold : ∀ i < s.jobs.length, programs S s'.jobs i = programs S s.jobs i := by
    intro i hi
    rw [programs, programs, hjobs, List.getElem?_append_left hi]
  obtain ⟨T', hrun', hT'⟩ := hrun.replace (programs S s'.jobs) fun i hi => hold i (by
    by_contra hge
    exact hi (hunborn i (by omega)).1)
  refine ⟨T', ?_, fun i job hj => ?_, fun i hi => ?_⟩
  · rwa [storageCalls_snoc_none hcall, hstorage]
  · rw [written_snoc_nil (hwritten i)]
    rw [hjobs] at hj
    rcases lt_or_ge i s.jobs.length with hi | hi
    · rw [List.getElem?_append_left hi] at hj
      rw [hT' i (hold i hi)]
      exact hjob i job hj
    · obtain rfl : i = s.jobs.length := by
        have := (List.getElem?_eq_some_iff.mp hj).1
        simp only [List.length_append, List.length_singleton] at this
        omega
      rw [List.getElem?_concat_length] at hj
      obtain rfl := Option.some.inj hj
      rw [hrun'.eq_of_own hnew.1, hnew.2, programs, hjobs, List.getElem?_concat_length]
      exact progress_job l S o request
  · rw [storageCalls_snoc_none hcall, written_snoc_nil (hwritten i)]
    rw [hjobs, List.length_append] at hi
    exact hunborn i (by omega)

/-- A job goes on. -/
theorem Pooled.setJob (h : Pooled R S s₀.storage tr s T) {i : Nat} {job : Job Ans}
    {prog : Prog (JobCall Op) (JobCall.Answer Ans) (Except String Unit)}
    {q : Prog Op Ans (Except String (Option DriverData))} (hj : s.jobs[i]? = some job)
    (hjobs : s'.jobs = s.jobs.set i { job with prog := prog })
    (hrun : Pool.Run R (programs S s.jobs) s₀.storage (storageCalls (tr ++ [act])) (Function.update T i q) s'.storage)
    (hown : ∀ j, j ≠ i → Pool.own j (storageCalls (tr ++ [act])) = Pool.own j (storageCalls tr) ∧
      act.writtenBy j = [])
    (hprogress : Progress { job with prog := prog } q (written i (tr ++ [act]))) :
    Pooled R S s₀.storage (tr ++ [act]) s' (Function.update T i q) where
  run := by
    rw [hjobs, programs_set hj]
    exact hrun
  job j job' hj' := by
    have hlt := (List.getElem?_eq_some_iff.mp hj).1
    rcases eq_or_ne j i with rfl | hne
    · rw [hjobs, List.getElem?_set_self hlt] at hj'
      obtain rfl := Option.some.inj hj'
      rwa [Function.update_self]
    · rw [hjobs, List.getElem?_set_ne hne.symm] at hj'
      rw [Function.update_of_ne hne, written_snoc_nil (hown j hne).2]
      exact h.job j job' hj'
  unborn j hlen := by
    have hlt := (List.getElem?_eq_some_iff.mp hj).1
    rw [hjobs, List.length_set] at hlen
    have hne : j ≠ i := by omega
    rw [(hown j hne).1, written_snoc_nil (hown j hne).2]
    exact h.unborn j hlen

/-- One step of the server, seen from the storage. -/
theorem Pooled.step (hs : Step R S s act s') (h : Pooled R S s₀.storage tr s T) :
    ∃ T', Pooled R S s₀.storage (tr ++ [act]) s' T' := by
  cases hs with
  | event => exact ⟨T, h.congr rfl (fun _ => rfl) rfl rfl⟩
  | @reactor s₁ o a k hn ha =>
    obtain ⟨kernel, driver, -, -, rfl⟩ := answer_inv ha
    cases o with
    | addCommand request => exact h.queue rfl (fun _ => rfl) rfl rfl
    | _ => exact ⟨T, h.congr rfl (fun _ => rfl) rfl rfl⟩
  | @worker s₁ i job o a k hj hp ha =>
    obtain ⟨kernel, driver, -, -, rfl⟩ := answer_inv ha
    obtain ⟨data, hT, -, hwrite⟩ := (h.job i job hj).write hp
    have hcalls : storageCalls (tr ++ [.worker i ⟨o, a⟩]) = storageCalls tr := storageCalls_snoc_none rfl
    refine ⟨_, h.setJob hj rfl (q := T i) ?_ (fun j hne => ⟨by rw [hcalls], if_neg hne.symm⟩) ?_⟩
    · rw [hcalls, Function.update_eq_self]
      exact h.run
    · rw [written_snoc, Action.writtenBy, if_pos rfl]
      exact hwrite a
  | @storage st i job o a k hj hp hR =>
    obtain ⟨hw, k', hT, hcont⟩ := (h.job i job hj).storage hp
    have hcalls : storageCalls (tr ++ [.storage i ⟨o, a⟩]) = storageCalls tr ++ [(i, ⟨o, a⟩)] :=
      storageCalls_snoc_some rfl
    refine ⟨_, h.setJob hj rfl (q := k' a) ?_ (fun j hne => ⟨?_, rfl⟩) ?_⟩
    · rw [hcalls]
      exact .snoc h.run (.call hT hR)
    · rw [hcalls, Pool.own_snoc_of_ne hne.symm]
    · rw [written_snoc_nil rfl, hw]
      exact hcont a
  | openFile => exact ⟨T, h.congr rfl (fun _ => rfl) rfl rfl⟩
  | closeFile => exact ⟨T, h.congr rfl (fun _ => rfl) rfl rfl⟩

/-- **The server is a pool of requests** to its storage: in every run the calls of the storage are those of the
programs of the queued requests, side by side, and what the workers write are the replies that these programs
have returned. -/
theorem Pooled.run_server (h₀ : s₀.jobs = []) (hr : Trace (Step R S) s₀ tr s) :
    ∃ T, Pooled R S s₀.storage tr s T := by
  refine hr.invariant (I := fun tr s => ∃ T, Pooled R S s₀.storage tr s T) ⟨_, .nil, ?_, fun _ _ => ⟨rfl, rfl⟩⟩ ?_
  · intro i job hj
    rw [h₀] at hj
    cases hj
  · rintro tr s act s' hs ⟨T, h⟩
    exact h.step hs

end Server

end LDS
