import LDS.Server.Server

/-!
# Where replies go

A request keeps the number of its descriptor while it waits in the queue. The reactor thread may close
that descriptor in between, and the kernel may give the number away again; the reply then goes to
whatever the number refers to by then.

## Main definitions

* `Action.takes`: the number that an action gives to a new socket or file
* `Server.Reuses s act`: the action gives away the number of a request that is still to be answered
* `Server.Routed`: what holds as long as no action does

## Main results

* `Server.Routed.run`: as long as no number is reused, a request's number refers to its connection, or
  to nothing
* `Server.reply_reaches_asker`: what is written for a request then goes to its connection
* `Server.reused_descriptor_misroutes`: one reuse, and a reply for another client
-/

namespace LDS

variable {Op : Type} {Ans : Op → Type} {σ : Type}

/-- The number that an exchange gives to a new socket. -/
def takesNumber : Exchange ServerCall ServerCall.Answer → Option Int
  | ⟨.accept _, .ok (newFd, _)⟩ => some newFd
  | _ => none

/-- The number that an action gives to a new socket or file. -/
def Action.takes : Action Ans → Option Int
  | .reactor e => takesNumber e
  | .worker _ e => takesNumber e
  | .openFile fd => some fd
  | _ => none

/-- The object is a socket. -/
def Object.IsSocket : Object → Prop
  | .file _ => False
  | _ => True

/-! ## The descriptors -/

namespace Kernel

variable {k k' : Kernel} {e : Exchange ServerCall ServerCall.Answer} {fd fd' : Int} {x y : Object}

/-- A descriptor that refers to `x` goes on to do so until it is closed. -/
theorem refers_openAt (h : k.fds fd = some x) (hfree : k.fds fd' = none) :
    (k.openAt fd' y).fds fd = some x := by
  have hne : fd ≠ fd' := by
    rintro rfl
    cases hfree.symm.trans h
  rwa [fds_openAt_of_ne k y hne]

theorem Effect.refers (he : k.Effect e k') (h : k.fds fd = some x) (hclose : e.1 ≠ .close fd) :
    k'.fds fd = some x := by
  cases he with
  | none => exact h
  | accept hfree => exact refers_openAt h hfree
  | close => rwa [fds_closeAt_of_ne k fun hfd => hclose (congrArg ServerCall.close hfd.symm)]
  | epollAdd => exact h
  | epollDel => exact h

/-- The descriptor refers to `x`, or to nothing any more. -/
def Held (k : Kernel) (fd : Int) (x : Object) : Prop := k.fds fd = some x ∨ k.fds fd = none

theorem Held.openAt (h : k.Held fd x) (hne : fd' ≠ fd) : (k.openAt fd' y).Held fd x := by
  rwa [Held, fds_openAt_of_ne k y hne.symm]

theorem Held.closeAt (h : k.Held fd x) : (k.closeAt fd').Held fd x := by
  rcases eq_or_ne fd fd' with rfl | hne
  · exact .inr (fds_closeAt_self k)
  · rwa [Held, fds_closeAt_of_ne k hne]

/-- A descriptor that is not given away comes to refer to nothing else. -/
theorem Held.effect (h : k.Held fd x) (he : k.Effect e k') (htakes : takesNumber e ≠ some fd) :
    k'.Held fd x := by
  cases he with
  | none => exact h
  | accept hfree => exact h.openAt fun hfd => htakes (congrArg some hfd)
  | close => exact h.closeAt
  | epollAdd => exact h
  | epollDel => exact h

/-- Everything in the epoll set is an open socket. -/
def Polls (k : Kernel) : Prop := ∀ fd ∈ k.epoll, ∃ x, k.fds fd = some x ∧ x.IsSocket

theorem Polls.openAt (h : k.Polls) (hfree : k.fds fd = none) : (k.openAt fd x).Polls := by
  intro fd' hfd'
  obtain ⟨y, hy, hs⟩ := h fd' hfd'
  exact ⟨y, refers_openAt hy hfree, hs⟩

theorem Polls.closeAt (h : k.Polls) : (k.closeAt fd).Polls := by
  intro fd' hfd'
  obtain ⟨hne, hfd'⟩ := Finset.mem_erase.mp hfd'
  obtain ⟨y, hy, hs⟩ := h fd' hfd'
  exact ⟨y, by rwa [fds_closeAt_of_ne k hne], hs⟩

theorem Polls.effect (h : k.Polls) (he : k.Effect e k') : k'.Polls := by
  cases he with
  | none => exact h
  | accept hfree => exact h.openAt hfree
  | close => exact h.closeAt
  | @epollAdd fd id hfd =>
    intro fd' hfd'
    rcases Finset.mem_insert.mp hfd' with rfl | hfd'
    · exact ⟨_, hfd, trivial⟩
    · exact h fd' hfd'
  | epollDel => exact fun fd' hfd' => h fd' (Finset.mem_of_mem_erase hfd')

end Kernel

namespace Server

/-! ## What `Notify` does to its descriptor -/

/-- How far `Notify` has come with its descriptor: nothing was read; something was asked of it; it is
closed. -/
inductive Reading
  | waiting | asked | closed

/-- The contract of `Notify` for the descriptor `fd`: it reads from `fd`, queues requests that came from
`fd` after it has read, and closes `fd` last. -/
def routing (fd : Int) : Prog.Contract ServerCall ServerCall.Answer Reading where
  answers _ _ _ := True
  calls
    | .closed, _ => False
    | _, .read fd' _ => fd' = fd
    | .waiting, .addCommand _ => False
    | .asked, .addCommand request => request.sourceFd = fd
    | _, .close fd' => fd' = fd
    | _, _ => True
  next
    | _, .read _ _, _ => .asked
    | _, .close _, _ => .closed
    | x, _, _ => x
  mayAbort := False

section Routing

variable {fd l : Int}

/-- The phases before the descriptor is closed. -/
abbrev Open (x : Reading) : Prop := x = .waiting ∨ x = .asked

theorem leads_read (n : Nat) : (routing fd).Leads Open (· = .asked) (.read fd n) := by
  rintro _ (rfl | rfl) <;> exact ⟨rfl, fun _ _ => rfl⟩

/-- A failed request: the descriptor is removed and closed. -/
theorem routing_queueRequest {x : Reading} (hx : Open x) :
    Prog.Obeys (routing fd) (fun _ _ => True) x
      (InputMediator.queueRequest (TCPDriverComm.toIDriverComm l) fd) := by
  refine (TCPDriverComm.obeys_receiveRequest leads_read (fun n => fun x hx => leads_read n x (.inr hx))
    (fun _ _ => ?_) ?_ hx).bind ?_
  · rintro _ rfl
    exact ⟨trivial, fun _ _ => rfl⟩
  · rintro _ rfl
    exact ⟨trivial, fun _ _ => rfl⟩
  rintro _ (what | request) ⟨rfl, hreq⟩
  · -- no request: the client is taken out of its tables, and closed last
    refine .call trivial ?_
    rintro (_ | _) -
    · exact .ret trivial
    · refine .call trivial fun _ _ => ?_
      refine .call trivial fun _ _ => ?_
      refine .call trivial fun _ _ => ?_
      exact .call rfl fun _ _ => .ret trivial
  · exact .call (hreq request rfl).sourceFd fun _ _ => .ret trivial

theorem routing_notify (l fd : Int) :
    Prog.Obeys (routing fd) (fun _ _ => True) .waiting
      (InputMediator.notify (TCPDriverComm.toIDriverComm l) fd) := by
  have haccept : Prog.Obeys (routing fd) (fun x _ => x = .waiting) .waiting
      (TCPDriverComm.tryAccept l fd) := by
    refine TCPDriverComm.obeys_tryAccept (fun _ => ?_) (fun newFd => ?_) (fun newFd ip => ?_) rfl
    all_goals
      rintro _ rfl
      exact ⟨trivial, fun _ _ => rfl⟩
  refine haccept.bind ?_
  rintro _ newFd rfl
  split
  · refine .call trivial ?_
    rintro (_ | _) - <;> exact .ret trivial
  · exact routing_queueRequest (.inl rfl)

end Routing

/-! ## Runs -/

/-- The action gives away the number of a request whose job is not done. -/
def Reuses (s : Server Ans σ) (act : Action Ans) : Prop :=
  ∃ job ∈ s.jobs, job.prog.value? = none ∧ act.takes = some job.request.sourceFd

/-- `Notify` is at work on an open socket, and has read from this one only. -/
def AtWork (s : Server Ans σ) : Prop :=
  ∃ fd x, Prog.Obeys (routing fd) (fun _ _ => True) x s.notify ∧
    (x = .closed ∨ ∃ obj, s.kernel.fds fd = some obj ∧ obj.IsSocket ∧
      (x = .asked → s.readFrom = some obj))

/-- The job writes to the descriptor of its request only; as long as it is not done, that refers to the
socket the request was read from, or to nothing. -/
structure JobRouted (A : (o : Op) → Ans o → Prop) (k : Kernel) (job : Job Ans) : Prop where
  writes : Prog.Obeys (InputMediator.writesTo A (· = job.request.sourceFd)) (fun _ _ => True) ()
    job.prog
  held : job.prog.value? = none → ∃ x, job.origin = some x ∧ x.IsSocket ∧
    k.Held job.request.sourceFd x

/-- What holds of a server as long as no number of a waiting request is given away. -/
structure Routed (A : (o : Op) → Ans o → Prop) (s : Server Ans σ) : Prop where
  polls : s.kernel.Polls
  atWork : s.AtWork
  jobs : ∀ job ∈ s.jobs, JobRouted A s.kernel job

variable {R : Environment Op Ans σ} {S : IStorage Op Ans} {A : (o : Op) → Ans o → Prop}
  {s₀ s s' : Server Ans σ} {act : Action Ans} {tr : List (Action Ans)}

theorem Started.routed (h : s.Started) : s.Routed A where
  polls := by
    intro fd hfd
    rw [h.epoll, Finset.mem_singleton] at hfd
    exact ⟨.listener, hfd ▸ h.listening, trivial⟩
  atWork := ⟨0, .closed, by rw [h.idle]; exact .ret trivial, .inl rfl⟩
  jobs := by
    rw [h.jobs]
    exact fun job hmem => absurd hmem List.not_mem_nil

theorem AtWork.congr (h : s.AtWork) (hnotify : s'.notify = s.notify)
    (hread : s'.readFrom = s.readFrom)
    (hrefers : ∀ fd x, x.IsSocket → s.kernel.fds fd = some x → s'.kernel.fds fd = some x) :
    s'.AtWork := by
  obtain ⟨fd, x, hp, hx⟩ := h
  refine ⟨fd, x, hnotify ▸ hp, hx.imp_right ?_⟩
  rintro ⟨obj, hobj, hsocket, hasked⟩
  exact ⟨obj, hrefers fd obj hsocket hobj, hsocket, fun h => hread.trans (hasked h)⟩

/-- One call of the reactor thread. -/
theorem AtWork.call {o : ServerCall} {a : o.Answer} {k : o.Answer → ServerProg (Except String Unit)}
    (h : s.AtWork) (hn : s.notify = .call o k) {kernel : Kernel} {driver : TCPDriverComm}
    (he : s.kernel.Effect ⟨o, a⟩ kernel) :
    AtWork { ({ s with kernel := kernel, driver := driver } : Server Ans σ).record S ⟨o, a⟩ with
      notify := k a } := by
  obtain ⟨fd, x, hp, hx⟩ := h
  rw [hn] at hp
  obtain ⟨ho, hcont⟩ := hp.call_inv
  refine ⟨fd, _, hcont a trivial, ?_⟩
  obtain rfl | ⟨obj, hobj, hsocket, hasked⟩ := hx
  · exact ho.elim
  by_cases hclose : o = .close fd
  · subst hclose
    left
    cases x <;> rfl
  · have hobj' := he.refers hobj hclose
    refine .inr ⟨obj, by rw [kernel_record]; exact hobj', hsocket, fun hx' => ?_⟩
    cases o with
    | read fd' n =>
      -- the `read` was made on `fd`
      have hfd : fd' = fd := by
        cases x with
        | closed => exact ho.elim
        | _ => exact ho
      rw [← hobj', ← hfd]
      rfl
    | close fd' => cases x <;> cases hx'
    | _ => cases x <;> first | exact hasked rfl | cases hx'

theorem JobRouted.congr {k k' : Kernel} {job : Job Ans} (h : JobRouted A k job)
    (hk : ∀ x, job.prog.value? = none → k.Held job.request.sourceFd x →
      k'.Held job.request.sourceFd x) : JobRouted A k' job where
  writes := h.writes
  held hdone := by
    obtain ⟨x, hx, hsocket, hheld⟩ := h.held hdone
    exact ⟨x, hx, hsocket, hk x hdone hheld⟩

/-- One call of a worker. -/
theorem JobRouted.call {kernel : Kernel} {job : Job Ans} {o : JobCall Op}
    {k : JobCall.Answer Ans o → Prog (JobCall Op) (JobCall.Answer Ans) (Except String Unit)}
    (h : JobRouted A kernel job) (hp : job.prog = .call o k) {a : JobCall.Answer Ans o}
    (ha : (InputMediator.writesTo A (· = job.request.sourceFd)).answers () o a) :
    JobRouted A kernel { job with prog := k a } where
  writes := by
    have hw := h.writes
    rw [hp] at hw
    exact hw.call_inv.2 a ha
  held _ := h.held (by rw [hp]; rfl)

/-- A step that gives away no number of a waiting request. -/
theorem Routed.step (hS : S.Keeps A) (hA : ∀ st o a st', R st o a st' → A o a) (h : s.Routed A)
    (hs : Step R S s act s') (hfresh : ¬ s.Reuses act) : s'.Routed A := by
  obtain ⟨hpolls, hwork, hjobs⟩ := h
  have htakes : ∀ job ∈ s.jobs, job.prog.value? = none → act.takes ≠ some job.request.sourceFd :=
    fun job hmem hdone htakes => hfresh ⟨job, hmem, hdone, htakes⟩
  cases hs with
  | @event fd hidle hfd =>
    obtain ⟨obj, hobj, hsocket⟩ := hpolls fd hfd
    exact ⟨hpolls, ⟨fd, .waiting, routing_notify _ _, .inr ⟨obj, hobj, hsocket, nofun⟩⟩, hjobs⟩
  | @reactor s₁ o a k hn ha =>
    obtain ⟨kernel, driver, hk, hd, rfl⟩ := answer_inv ha
    have he := Kernel.effect_of_answer hk
    refine ⟨?_, hwork.call hn he, fun job hmem => ?_⟩
    · rw [kernel_record]
      exact hpolls.effect he
    · rw [kernel_record]
      rcases mem_jobs_record hmem with hmem | ⟨request, heq, rfl⟩
      · exact (hjobs job hmem).congr fun x hdone hheld => hheld.effect he (htakes job hmem hdone)
      · -- the request has been read from the socket that `Notify` is at work on
        cases heq
        refine ⟨InputMediator.obeys_job _ (InputMediator.obeys_command hS request), fun _ => ?_⟩
        obtain ⟨fd, x, hp, hx⟩ := hwork
        rw [hn] at hp
        obtain rfl | ⟨obj, hobj, hsocket, hasked⟩ := hx
        · exact hp.call_inv.1.elim
        · cases x with
          | waiting => exact hp.call_inv.1.elim
          | closed => exact hp.call_inv.1.elim
          | asked =>
            obtain rfl : request.sourceFd = fd := hp.call_inv.1
            exact ⟨obj, hasked rfl, hsocket, .inl (he.refers hobj (by simp))⟩
  | @worker s₁ i job o a k hj hp ha =>
    obtain ⟨kernel, driver, hk, hd, rfl⟩ := answer_inv ha
    have he := Kernel.effect_of_answer hk
    have hmem := List.mem_of_getElem? hj
    have hw := (hjobs job hmem).writes
    rw [hp] at hw
    obtain ⟨fd, buf, rfl, -⟩ := hw.call_inv.1
    refine ⟨hpolls.effect he, hwork.congr rfl rfl fun fd x _ hx => he.refers hx (by simp), ?_⟩
    intro job' hmem'
    have hold : ∀ job ∈ s.jobs, JobRouted A kernel job := fun job hmem =>
      (hjobs job hmem).congr fun x hdone hheld => hheld.effect he (htakes job hmem hdone)
    rcases List.mem_or_eq_of_mem_set hmem' with hmem' | rfl
    · exact hold job' hmem'
    · exact (hold job hmem).call hp trivial
  | @storage st i job o a k hj hp hR =>
    refine ⟨hpolls, hwork.congr rfl rfl fun _ _ _ hx => hx, fun job' hmem' => ?_⟩
    rcases List.mem_or_eq_of_mem_set hmem' with hmem' | rfl
    · exact hjobs job' hmem'
    · exact (hjobs job (List.mem_of_getElem? hj)).call hp (hA _ _ _ _ hR)
  | @openFile fd hfd =>
    refine ⟨hpolls.openAt hfd, hwork.congr rfl rfl fun _ _ _ hx => Kernel.refers_openAt hx hfd,
      fun job hmem => ?_⟩
    exact (hjobs job hmem).congr fun x hdone hheld =>
      hheld.openAt fun he => htakes job hmem hdone (congrArg some he)
  | @closeFile fd id hfd =>
    refine ⟨hpolls.closeAt, hwork.congr rfl rfl fun fd' x hsocket hx => ?_, fun job hmem => ?_⟩
    · have hne : fd' ≠ fd := by
        rintro rfl
        obtain rfl := Option.some.inj (hfd.symm.trans hx)
        exact hsocket
      exact (Kernel.fds_closeAt_of_ne _ hne).trans hx
    · exact (hjobs job hmem).congr fun x hdone hheld => hheld.closeAt

/-- The runs in which no number of a waiting request is given away. -/
theorem Routed.run (hS : S.Keeps A) (hA : ∀ st o a st', R st o a st' → A o a) (h₀ : s₀.Started)
    (hr : Trace (Where (fun s act => ¬ s.Reuses act) (Step R S)) s₀ tr s) : s.Routed A := by
  refine hr.invariant (I := fun _ s => s.Routed A) h₀.routed ?_
  rintro tr s act s' ⟨hfresh, hs⟩ h
  exact h.step hS hA hs hfresh

/-- What a worker writes goes to the connection of its request. -/
theorem Routed.write (h : s.Routed A) {i : Nat} {fd : Int} {buf : List Byte}
    {n : Fin (buf.length + 1)} (hs : Step R S s (.worker i ⟨.write fd buf, .ok n⟩) s') :
    ∃ job id, s.jobs[i]? = some job ∧ job.origin = some (.connection id) ∧
      s.kernel.fds fd = some (.connection id) := by
  cases hs with
  | @worker s₁ _ job _ _ k hj hp ha =>
    obtain ⟨kernel, driver, hk, hd, rfl⟩ := answer_inv ha
    obtain ⟨hw, hheld⟩ := h.jobs job (List.mem_of_getElem? hj)
    rw [hp] at hw
    obtain ⟨x, hx, hsocket, hheld⟩ := hheld (by rw [hp]; rfl)
    obtain ⟨fd', buf', he, hfd⟩ := hw.call_inv.1
    obtain ⟨rfl, rfl⟩ := ServerCall.write.inj he
    rw [← hfd] at hheld
    -- a `write` that succeeds is one to a connection or a file
    simp only [Kernel.answer] at hk
    split at hk
    · rename_i id hid
      refine ⟨job, id, hj, hx.trans ?_, hid⟩
      rcases hheld with hheld | hheld
      · exact hheld.symm.trans hid
      · cases hheld.symm.trans hid
    · rename_i id hid
      rcases hheld with hheld | hheld
      · obtain rfl := Option.some.inj (hheld.symm.trans hid)
        exact hsocket.elim
      · cases hheld.symm.trans hid
    · cases hk

/-- **A reply reaches the client that asked** in every run in which no number of a request that is still
to be answered is given to a new socket or file. -/
theorem reply_reaches_asker {μ τ : Type} [IStorageMinion μ] [IMetadataStore τ] {g : Geometry}
    {s₀ s s' : Server (RAIDCall.Answer (g := g)) (RAIDStorage μ τ g)}
    {tr : List (Action (RAIDCall.Answer (g := g)))} (h₀ : s₀.Started)
    (hr : Trace (Where (fun s act => ¬ s.Reuses act)
      (Step RAIDStorage.Answers (RAIDStorage.toIStorage g))) s₀ tr s)
    {i : Nat} {fd : Int} {buf : List Byte} {n : Fin (buf.length + 1)}
    (hs : Step RAIDStorage.Answers (RAIDStorage.toIStorage g) s (.worker i ⟨.write fd buf, .ok n⟩) s') :
    ∃ job id, s.jobs[i]? = some job ∧ job.origin = some (.connection id) ∧
      s.kernel.fds fd = some (.connection id) :=
  (Routed.run (RAIDStorage.keeps g) (fun _ _ _ _ _ => trivial) h₀ hr).write hs

/-! ## Reuse -/

section Reuse

/-- A client is accepted on descriptor 4. -/
def connects (ip : String) : List (Action (RAIDCall.Answer (g := ⟨1, 4, Nat.one_pos⟩))) :=
  [.event 3, .reactor ⟨.accept 3, .ok (4, ip)⟩, .reactor ⟨.insertClient 4, ()⟩,
    .reactor ⟨.recordClientIP 4 ip, ()⟩, .reactor ⟨.epollAdd 4, true⟩]

theorem length_flush_le :
    (bigEndian 4 3 ++ bigEndian 8 1 ++ bigEndian 8 0 ++ bigEndian 4 0).length ≤ 24 := by decide

/-- The client on descriptor 4 sends a `FLUSH` with handle 1. -/
def flushes : List (Action (RAIDCall.Answer (g := ⟨1, 4, Nat.one_pos⟩))) :=
  [.event 4, .reactor ⟨.read 4 24, .ok ⟨bigEndian 4 3 ++ bigEndian 8 1 ++ bigEndian 8 0 ++ bigEndian 4 0,
      length_flush_le⟩⟩,
    .reactor ⟨.addCommand { DriverData.new .flush 1 0 0 with sourceFd := 4 }, ()⟩]

theorem length_eof_le : ([] : List Byte).length ≤ 24 := by decide

/-- The client on descriptor 4 leaves. -/
def leaves (ip : String) : List (Action (RAIDCall.Answer (g := ⟨1, 4, Nat.one_pos⟩))) :=
  [.event 4, .reactor ⟨.read 4 24, .ok ⟨[], length_eof_le⟩⟩, .reactor ⟨.epollDel 4, true⟩,
    .reactor ⟨.eraseClient 4, ()⟩, .reactor ⟨.getClientIP 4, ip⟩, .reactor ⟨.forgetClientIP 4, ()⟩,
    .reactor ⟨.close 4, ()⟩]

/-- The reply to the `FLUSH` is written whole. -/
def replies : Action (RAIDCall.Answer (g := ⟨1, 4, Nat.one_pos⟩)) :=
  .worker 0 ⟨.write 4 (bigEndian 4 0 ++ bigEndian 8 1 ++ bigEndian 4 0), .ok (Fin.last _)⟩

/-- A client asks and leaves, and the next one gets its number: the reply goes to the newcomer. -/
theorem reused_descriptor_misroutes :
    ¬ ∀ tr s s' i fd buf n, Trace (Step RAIDStorage.Answers (RAIDStorage.toIStorage _)) small tr s →
      Step RAIDStorage.Answers (RAIDStorage.toIStorage _) s (.worker i ⟨.write fd buf, .ok n⟩) s' →
      ∃ job id, s.jobs[i]? = some job ∧ job.origin = some (.connection id) ∧
        s.kernel.fds fd = some (.connection id) := by
  intro h
  -- a client asks and leaves, and the next one gets its number
  have hexec : (execAll (exec (RAIDStorage.toIStorage _))
      (connects "10.0.0.1" ++ flushes ++ leaves "10.0.0.1" ++ connects "10.0.0.2") small).bind
      (fun s => (exec (RAIDStorage.toIStorage _) s replies).map fun _ =>
        (s.jobs[0]?.map Job.origin, s.kernel.fds 4)) =
      some (some (some (.connection 0)), some (.connection 1)) := by
    decide +kernel
  obtain ⟨s, he, hwrite⟩ := Option.bind_eq_some_iff.mp hexec
  obtain ⟨s', hs', hproj⟩ := Option.map_eq_some_iff.mp hwrite
  obtain ⟨horigin, hfd⟩ := Prod.mk.inj hproj
  have hrun := Trace.of_execAll (fun _ _ _ => step_of_exec RAIDStorage.Answers) he
  obtain ⟨job, id, hj, ho, hid⟩ := h _ s s' 0 4 _ _ hrun (step_of_exec RAIDStorage.Answers hs')
  rw [hj, Option.map_some, ho] at horigin
  rw [hid] at hfd
  simp only [Option.some.injEq, Object.connection.injEq] at horigin hfd
  omega

instance (s : Server Ans σ) (act : Action Ans) : Decidable (s.Reuses act) :=
  inferInstanceAs (Decidable (∃ job ∈ s.jobs, job.prog.value? = none ∧
    act.takes = some job.request.sourceFd))

/-- The same client stays until it has its reply. -/
theorem reply_reaches_asker_example :
    ∃ tr s s', Trace (Where (fun s act => ¬ s.Reuses act)
        (Step RAIDStorage.Answers (RAIDStorage.toIStorage _))) small tr s ∧
      Step RAIDStorage.Answers (RAIDStorage.toIStorage _) s replies s' ∧
      ∃ job id, s.jobs[0]? = some job ∧ job.origin = some (.connection id) ∧
        s.kernel.fds 4 = some (.connection id) := by
  have hexec : ((execAll (fun s act => if s.Reuses act then none else
        exec (RAIDStorage.toIStorage _) s act) (connects "10.0.0.1" ++ flushes) small).bind
      fun s => exec (RAIDStorage.toIStorage _) s replies).isSome := by
    decide +kernel
  obtain ⟨s', he⟩ := Option.isSome_iff_exists.mp hexec
  obtain ⟨s, he, hwrite⟩ := Option.bind_eq_some_iff.mp he
  have hrun : Trace (Where (fun s act => ¬ s.Reuses act)
      (Step RAIDStorage.Answers (RAIDStorage.toIStorage _))) small _ s :=
    Trace.of_execAll (fun s act s' h => by
      split at h
      · cases h
      · exact ⟨‹_›, step_of_exec _ h⟩) he
  have hs := step_of_exec RAIDStorage.Answers hwrite
  exact ⟨_, s, s', hrun, hs, reply_reaches_asker (started_start ..) hrun hs⟩

end Reuse

end Server

end LDS
