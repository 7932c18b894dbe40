import LDS.Server.Server

/-!
# The listening socket

`TryAccept` answers `-1` for "this is not the listening socket" and for "`accept` has failed". After a
failure `Notify` therefore goes on as for a client: it reads a request from the listening socket, which
fails, takes the socket out of the epoll set and closes it.

## Main definitions

* `Server.Listening s`: the listening socket is open, and in the epoll set
* `Action.acceptFails`: the action is a failing `accept`

## Main results

* `Server.listening_iff`: the socket survives as long as no `accept` fails, and no longer
* `Server.failed_accept_closes`: one failure closes it
-/

namespace LDS

variable {Op : Type} {Ans : Op → Type} {σ : Type}

/-- The action is a failing `accept`. -/
def Action.acceptFails : Action Ans → Bool
  | .reactor ⟨.accept _, .error _⟩ => true
  | _ => false

/-! ## The descriptors -/

namespace Kernel

/-- The descriptor `l` is the listening socket, and in the epoll set. -/
def Listens (k : Kernel) (l : Int) : Prop := k.fds l = some .listener ∧ l ∈ k.epoll

instance (k : Kernel) (l : Int) : Decidable (k.Listens l) :=
  inferInstanceAs (Decidable (k.fds l = some .listener ∧ l ∈ k.epoll))

variable {k k' : Kernel} {e : Exchange ServerCall ServerCall.Answer} {l fd : Int} {x : Object}

theorem Listens.openAt (h : k.Listens l) (hfd : k.fds fd = none) : (k.openAt fd x).Listens l := by
  have hne : l ≠ fd := by
    rintro rfl
    cases hfd.symm.trans h.1
  exact ⟨(fds_openAt_of_ne k x hne).trans h.1, h.2⟩

theorem Listens.closeAt (h : k.Listens l) (hne : l ≠ fd) : (k.closeAt fd).Listens l :=
  ⟨(fds_closeAt_of_ne k hne).trans h.1, Finset.mem_erase.mpr ⟨hne, h.2⟩⟩

/-- Only closing the listening socket, or taking it out of the epoll set, ends it. -/
theorem Listens.effect (h : k.Listens l) (he : k.Effect e k') (hclose : e.1 ≠ .close l)
    (hdel : e.1 ≠ .epollDel l) : k'.Listens l := by
  cases he with
  | none => exact h
  | accept hfree => exact h.openAt hfree
  | close => exact h.closeAt fun hl => hclose (congrArg ServerCall.close hl.symm)
  | epollAdd => exact ⟨h.1, Finset.mem_insert_of_mem h.2⟩
  | epollDel => exact ⟨h.1, Finset.mem_erase.mpr ⟨fun hl => hdel (congrArg _ hl.symm), h.2⟩⟩

theorem openAt_ne_listener (h : k.fds l ≠ some .listener) (hx : x ≠ .listener) :
    (k.openAt fd x).fds l ≠ some .listener := by
  rcases eq_or_ne l fd with rfl | hne
  · simpa using hx
  · rwa [fds_openAt_of_ne k x hne]

theorem closeAt_ne_listener (h : k.fds l ≠ some .listener) :
    (k.closeAt fd).fds l ≠ some .listener := by
  rcases eq_or_ne l fd with rfl | hne
  · simp
  · rwa [fds_closeAt_of_ne k hne]

/-- No call listens again. -/
theorem Effect.ne_listener (he : k.Effect e k') (h : k.fds l ≠ some .listener) :
    k'.fds l ≠ some .listener := by
  cases he with
  | none => exact h
  | accept => exact openAt_ne_listener h (by simp)
  | close => exact closeAt_ne_listener h
  | epollAdd => exact h
  | epollDel => exact h

end Kernel

namespace Server

/-- The listening socket is open, and in the epoll set. -/
def Listening (s : Server Ans σ) : Prop := s.kernel.Listens s.driver.listenFd

instance (s : Server Ans σ) : Decidable s.Listening :=
  inferInstanceAs (Decidable (s.kernel.Listens s.driver.listenFd))

/-! ## What `Notify` does to the listening socket -/

/-- How far `Notify` has come: nothing has failed; `accept` has; the listening socket is out of the epoll
set; it is closed. -/
inductive Phase
  | alive | failed | removed | closed
  deriving DecidableEq

/-- The contract of `Notify` with the listening socket `l`: it spares the socket until `accept` fails,
and then closes it. -/
def closing (l : Int) : Prog.Contract ServerCall ServerCall.Answer Phase where
  answers
    | .failed, .read _ _, .ok _ => False
    | .failed, .epollDel _, false => False
    | _, _, _ => True
  calls
    | .alive, o => o ≠ .close l ∧ o ≠ .epollDel l
    | .failed, o => o = .epollDel l ∨ ∃ n, o = .read l n
    | .removed, o => o = .eraseClient l ∨ o = .getClientIP l ∨ o = .forgetClientIP l ∨ o = .close l
    | .closed, _ => False
  next
    | .alive, .accept _, .error _ => .failed
    | .failed, .epollDel _, true => .removed
    | .removed, .close _, () => .closed
    | x, _, _ => x
  mayAbort := False

section Phases

variable {l fd : Int}

theorem leads_alive {o : ServerCall} (hne : ∀ fd, o ≠ .accept fd) (hclose : o ≠ .close l)
    (hdel : o ≠ .epollDel l) : (closing l).Leads (· = .alive) (· = .alive) o := by
  rintro _ rfl
  refine ⟨⟨hclose, hdel⟩, fun a _ => ?_⟩
  cases o with
  | accept fd => exact absurd rfl (hne fd)
  | _ => rfl

/-- The value of a program that has left the socket alone. -/
abbrev Settled {α : Type} (x : Phase) (_ : α) : Prop := x = .alive ∨ x = .closed

theorem closing_add : Prog.Obeys (closing l) Settled .alive (Reactor.add fd) := by
  refine .call_of_leads (leads_alive (by simp) (by simp) (by simp)) rfl ?_
  rintro _ (_ | _) rfl <;> exact .ret (.inl rfl)

/-- The request of a client leaves the listening socket alone. -/
theorem closing_queueRequest (hfd : fd ≠ l) :
    Prog.Obeys (closing l) Settled .alive
      (InputMediator.queueRequest (TCPDriverComm.toIDriverComm l) fd) := by
  have hread : ∀ n, (closing l).Leads (· = .alive) (· = .alive) (.read fd n) :=
    fun n => leads_alive (by simp) (by simp) (by simp)
  refine (TCPDriverComm.obeys_receiveRequest hread hread
    (fun _ _ => leads_alive (by simp) (by simp) (by simp))
    (leads_alive (by simp) (by simp) (by simp)) rfl).bind ?_
  rintro _ (what | request) ⟨rfl, -⟩
  · -- only `fd` is removed and closed
    refine .call_of_leads (leads_alive (by simp) (by simp) (by simpa using hfd)) rfl ?_
    rintro _ (_ | _) rfl
    · exact .ret (.inl rfl)
    · refine .call_of_leads (leads_alive (by simp) (by simp) (by simp)) rfl ?_
      rintro _ _ rfl
      refine .call_of_leads (leads_alive (by simp) (by simp) (by simp)) rfl ?_
      rintro _ _ rfl
      refine .call_of_leads (leads_alive (by simp) (by simp) (by simp)) rfl ?_
      rintro _ _ rfl
      refine .call_of_leads (leads_alive (by simp) (by simpa using hfd) (by simp)) rfl ?_
      rintro _ _ rfl
      exact .ret (.inl rfl)
  · refine .call_of_leads (leads_alive (by simp) (by simp) (by simp)) rfl ?_
    rintro _ _ rfl
    exact .ret (.inl rfl)

/-- After a failing `accept` the listening socket is treated as a client whose read fails: it is removed
and closed. -/
theorem closing_failed :
    Prog.Obeys (closing l) Settled .failed
      (InputMediator.queueRequest (TCPDriverComm.toIDriverComm l) l) := by
  -- there is nothing to read from a listening socket
  have hread : Prog.Obeys (closing l) (fun x r => x = .failed ∧ ∃ what, r = .error what) .failed
      (TCPDriverComm.receiveRequest l) := by
    rw [TCPDriverComm.receiveRequest, TCPDriverComm.readAll, readAll, if_pos (by decide)]
    refine .call (.inr ⟨24, rfl⟩) ?_
    rintro (errno | bytes) ha
    · exact .ret ⟨rfl, _, rfl⟩
    · exact ha.elim
  refine hread.bind ?_
  rintro _ _ ⟨rfl, what, rfl⟩
  refine .call (.inl rfl) ?_
  rintro (_ | _) ha
  · exact ha.elim
  · refine .call (.inl rfl) fun _ _ => ?_
    refine .call (.inr (.inl rfl)) fun _ _ => ?_
    refine .call (.inr (.inr (.inl rfl))) fun _ _ => ?_
    refine .call (.inr (.inr (.inr rfl))) fun _ _ => ?_
    exact .ret (.inr rfl)

/-- `Notify` spares the listening socket, or closes it in the end. -/
theorem closing_notify (l fd : Int) :
    Prog.Obeys (closing l) Settled .alive
      (InputMediator.notify (TCPDriverComm.toIDriverComm l) fd) := by
  rcases eq_or_ne fd l with rfl | hfd
  · have haccept : Prog.Obeys (closing fd) (fun x newFd => x = .alive ∧ 0 ≤ newFd ∨
        x = .failed ∧ newFd = -1) .alive (TCPDriverComm.tryAccept fd fd) := by
      rw [TCPDriverComm.tryAccept, if_neg (not_not_intro rfl)]
      refine .call ⟨by simp, by simp⟩ ?_
      rintro (errno | ⟨newFd, ip⟩) -
      · exact .ret (.inr ⟨rfl, rfl⟩)
      · refine .call_of_leads (leads_alive (by simp) (by simp) (by simp)) rfl ?_
        rintro _ _ rfl
        refine .call_of_leads (leads_alive (by simp) (by simp) (by simp)) rfl ?_
        rintro _ _ rfl
        exact .ret (.inl ⟨rfl, Int.natCast_nonneg _⟩)
    refine haccept.bind ?_
    rintro _ newFd (⟨rfl, hnew⟩ | ⟨rfl, rfl⟩)
    · rw [if_pos hnew]
      exact closing_add
    · rw [if_neg (by decide)]
      exact closing_failed
  · rw [InputMediator.notify_of_ne hfd]
    exact closing_queueRequest hfd

end Phases

/-! ## Runs -/

/-- What a phase says of the listening socket, where `failed` says whether an `accept` has failed. -/
def Phase.Holds (k : Kernel) (l : Int) (failed : Prop) : Phase → Prop
  | .alive => k.Listens l ∧ ¬ failed
  | .failed => k.Listens l ∧ failed
  | .removed => failed
  | .closed => k.fds l ≠ some .listener ∧ failed

/-- `Notify` is in a phase of its contract, or the listening socket has been closed for good. -/
def Tracked (s : Server Ans σ) (failed : Prop) : Prop :=
  (∃ x, Prog.Obeys (closing s.driver.listenFd) Settled x s.notify ∧
    x.Holds s.kernel s.driver.listenFd failed) ∨
  s.kernel.fds s.driver.listenFd ≠ some .listener ∧ failed

/-- Any job of a pool does nothing to descriptors but write to them. -/
def Writers (s : Server Ans σ) : Prop :=
  ∀ job ∈ s.jobs, Prog.Obeys (InputMediator.writesTo (fun _ _ => True) fun _ => True)
    (fun _ _ => True) () job.prog

variable {R : Environment Op Ans σ} {S : IStorage Op Ans} {s s' : Server Ans σ} {act : Action Ans}

theorem Phase.Holds.congr {k k' : Kernel} {l : Int} {failed : Prop} {x : Phase}
    (h : x.Holds k l failed) (hl : k.Listens l → k'.Listens l)
    (hc : k.fds l ≠ some .listener → k'.fds l ≠ some .listener) : x.Holds k' l failed := by
  cases x with
  | alive => exact ⟨hl h.1, h.2⟩
  | failed => exact ⟨hl h.1, h.2⟩
  | removed => exact h
  | closed => exact ⟨hc h.1, h.2⟩

variable (Ans) in
/-- One call of the reactor thread. -/
theorem Phase.Holds.call {k k' : Kernel} {l : Int} {failed : Prop} {x : Phase} {o : ServerCall}
    {a : o.Answer} (h : x.Holds k l failed) (ha : k.answer o a = some k')
    (ho : (closing l).calls x o) :
    (closing l).answers x o a ∧ ((closing l).next x o a).Holds k' l
      (failed ∨ (Action.reactor ⟨o, a⟩ : Action Ans).acceptFails = true) := by
  have he := Kernel.effect_of_answer ha
  cases x with
  | alive =>
    obtain ⟨hl, hf⟩ := h
    have hl' := hl.effect he ho.1 ho.2
    refine ⟨trivial, ?_⟩
    cases o with
    -- the only call that ends the phase
    | accept fd =>
      rcases a with errno | ⟨newFd, ip⟩
      · exact ⟨hl', .inr rfl⟩
      · exact ⟨hl', fun hf' => hf (hf'.resolve_right (by simp [Action.acceptFails]))⟩
    | _ => exact ⟨hl', fun hf' => hf (hf'.resolve_right (by simp [Action.acceptFails]))⟩
  | failed =>
    obtain ⟨hl, hf⟩ := h
    rcases ho with rfl | ⟨n, rfl⟩
    · cases a with
      -- the socket is in the epoll set, and can be taken out
      | false => exact absurd hl.2 (Kernel.not_mem_of_epollDel ha)
      | true => exact ⟨trivial, .inl hf⟩
    · rcases a with errno | bytes
      · exact ⟨trivial, hl.effect he (by simp) (by simp), .inl hf⟩
      · -- a listening socket is no connection: the `read` has failed
        obtain ⟨id, hid⟩ := Kernel.connection_of_read ha
        rw [hl.1] at hid
        cases hid
  | removed =>
    refine ⟨trivial, ?_⟩
    rcases ho with rfl | rfl | rfl | rfl
    · exact .inl h
    · exact .inl h
    · exact .inl h
    · obtain rfl := Option.some.inj ha
      exact ⟨by simp, .inl h⟩
  | closed => exact ho.elim

theorem Tracked.congr {failed : Prop} {kernel : Kernel} (h : s.Tracked failed)
    (hkernel : s'.kernel = kernel) (hdriver : s'.driver.listenFd = s.driver.listenFd)
    (hnotify : s'.notify = s.notify)
    (hl : s.kernel.Listens s.driver.listenFd → kernel.Listens s.driver.listenFd)
    (hc : s.kernel.fds s.driver.listenFd ≠ some .listener →
      kernel.fds s.driver.listenFd ≠ some .listener) : s'.Tracked failed := by
  subst hkernel
  rw [Tracked, hdriver, hnotify]
  rcases h with ⟨x, hp, hx⟩ | ⟨h, hf⟩
  · exact .inl ⟨x, hp, hx.congr hl hc⟩
  · exact .inr ⟨hc h, hf⟩

/-- A step of the server, in the phases of the listening socket. -/
theorem Tracked.step {failed : Prop} (hs : Step R S s act s') (hw : s.Writers)
    (h : s.Tracked failed) : s'.Tracked (failed ∨ act.acceptFails = true) := by
  cases hs with
  | @event fd hidle hfd =>
    have hf : failed ∨ (Action.event fd : Action Ans).acceptFails = true ↔ failed :=
      or_iff_left (by simp [Action.acceptFails])
    rw [hf]
    rcases h with ⟨x, hp, hx⟩ | ⟨h, hf⟩
    · rw [hidle] at hp
      -- the last event has left the socket alone, or has closed it
      rcases hp.ret_inv with rfl | rfl
      · exact .inl ⟨.alive, closing_notify _ _, hx⟩
      · exact .inr hx
    · exact .inr ⟨h, hf⟩
  | @reactor s₁ o a k hn ha =>
    obtain ⟨kernel, driver, hk, hd, rfl⟩ := answer_inv ha
    rw [Tracked, kernel_record, driver_record, hd]
    rcases h with ⟨x, hp, hx⟩ | ⟨h, hf⟩
    · rw [hn] at hp
      obtain ⟨ho, hcont⟩ := hp.call_inv
      obtain ⟨hanswer, hx'⟩ := hx.call Ans hk ho
      exact .inl ⟨_, hcont a hanswer, hx'⟩
    · exact .inr ⟨(Kernel.effect_of_answer hk).ne_listener h, .inl hf⟩
  | @worker s₁ i job o a k hj hp ha =>
    have hf : failed ∨ (Action.worker i ⟨o, a⟩ : Action Ans).acceptFails = true ↔ failed :=
      or_iff_left (by simp [Action.acceptFails])
    rw [hf]
    obtain ⟨kernel, driver, hk, hd, rfl⟩ := answer_inv ha
    have he := Kernel.effect_of_answer hk
    have hjob := hw job (List.mem_of_getElem? hj)
    rw [hp] at hjob
    obtain ⟨fd, buf, rfl, -⟩ := hjob.call_inv.1
    exact h.congr rfl hd rfl (fun hl => hl.effect he (by simp) (by simp)) he.ne_listener
  | storage hj hp hR =>
    rw [or_iff_left (by simp [Action.acceptFails])]
    exact h.congr rfl rfl rfl id id
  | openFile hfd =>
    rw [or_iff_left (by simp [Action.acceptFails])]
    exact h.congr rfl rfl rfl (fun hl => hl.openAt hfd)
      fun hc => Kernel.openAt_ne_listener hc (by simp)
  | @closeFile fd id hfd =>
    rw [or_iff_left (by simp [Action.acceptFails])]
    refine h.congr rfl rfl rfl (fun hl => hl.closeAt ?_) Kernel.closeAt_ne_listener
    rintro rfl
    cases hfd.symm.trans hl.1

theorem Writers.setJob {i : Nat} {job : Job Ans} (hw : s.Writers) (hj : s.jobs[i]? = some job)
    {o : JobCall Op} {k : JobCall.Answer Ans o → Prog (JobCall Op) (JobCall.Answer Ans) _}
    (hp : job.prog = .call o k) (a : JobCall.Answer Ans o) : (s.setJob i job (k a)).Writers := by
  intro job' hmem
  rcases List.mem_or_eq_of_mem_set hmem with hmem | rfl
  · exact hw job' hmem
  · have hjob := hw job (List.mem_of_getElem? hj)
    rw [hp] at hjob
    refine hjob.call_inv.2 a ?_
    cases o <;> trivial

theorem Writers.step (hs : Step R S s act s') (hw : s.Writers) : s'.Writers := by
  cases hs with
  | event hidle hfd => exact hw
  | reactor hn ha =>
    obtain ⟨kernel, driver, -, -, rfl⟩ := answer_inv ha
    intro job hmem
    rcases mem_jobs_record hmem with hmem | ⟨request, -, rfl⟩
    · exact hw job hmem
    · -- a new job only writes
      exact InputMediator.obeys_job _ (.of_allowed (fun _ o => by cases o <;> trivial) trivial
        fun _ _ => trivial)
  | worker hj hp ha =>
    obtain ⟨kernel, driver, -, -, rfl⟩ := answer_inv ha
    exact Writers.setJob (s := { s with kernel := kernel, driver := driver }) hw hj hp _
  | storage hj hp hR => exact hw.setJob hj hp _
  | openFile hfd => exact hw
  | closeFile hfd => exact hw

variable {s₀ : Server Ans σ} {tr : List (Action Ans)}

theorem Tracked.run (h₀ : s₀.Started) (hr : Trace (Step R S) s₀ tr s) :
    s.Tracked (∃ act ∈ tr, act.acceptFails = true) := by
  refine (hr.invariant (I := fun tr s => s.Writers ∧
    s.Tracked (∃ act ∈ tr, act.acceptFails = true)) ?_ ?_).2
  · refine ⟨fun job hmem => ?_, .inl ⟨.alive, ?_, ⟨h₀.listening, ?_⟩, by simp⟩⟩
    · rw [h₀.jobs] at hmem
      exact absurd hmem List.not_mem_nil
    · rw [h₀.idle]
      exact .ret (.inl rfl)
    · rw [h₀.epoll]
      exact Finset.mem_singleton_self _
  · rintro tr s act s' hs ⟨hw, ht⟩
    -- an `accept` has failed before, or fails now
    have hsnoc : (∃ act' ∈ tr ++ [act], act'.acceptFails = true) =
        ((∃ act' ∈ tr, act'.acceptFails = true) ∨ act.acceptFails = true) := by
      simp [or_and_right, exists_or]
    rw [hsnoc]
    exact ⟨hw.step hs, ht.step hs hw⟩

/-- **The listening socket** is open and in the epoll set in every state reached without a failing
`accept`; after one, it is not, as soon as `Notify` has finished. -/
theorem listening_iff (h₀ : s₀.Started) (hr : Trace (Step R S) s₀ tr s) :
    ((∀ act ∈ tr, act.acceptFails = false) → s.Listening) ∧
    (s.notify.value?.isSome → s.Listening → ∀ act ∈ tr, act.acceptFails = false) := by
  have hfail : (∃ act ∈ tr, act.acceptFails = true) ↔ ¬ ∀ act ∈ tr, act.acceptFails = false := by
    simp
  rcases Tracked.run h₀ hr with ⟨x, hp, hx⟩ | ⟨hc, hf⟩
  · constructor
    · intro hno
      -- a socket that `Notify` gives up has had a failing `accept`
      cases x with
      | alive => exact hx.1
      | failed => exact hx.1
      | removed => exact absurd hno (hfail.mp hx)
      | closed => exact absurd hno (hfail.mp hx.2)
    · intro hidle hl
      cases hn : s.notify with
      | ret r =>
        -- a `Notify` that has returned has spared the socket, or closed it
        rw [hn] at hp
        rcases hp.ret_inv with rfl | rfl
        · exact not_not.mp fun hno => hx.2 (hfail.mpr hno)
        · exact absurd hl.1 hx.1
      | call o k =>
        rw [hn] at hidle
        cases hidle
      | abort =>
        rw [hn] at hidle
        cases hidle
  · exact ⟨fun hno => absurd hno (hfail.mp hf), fun _ hl => absurd hl.1 hc⟩

/-- One `accept` that fails while the process has no descriptor left. -/
theorem failed_accept_closes :
    ¬ ∀ tr s, Trace (Step RAIDStorage.Answers (RAIDStorage.toIStorage _)) small tr s →
      s.Listening := by
  intro h
  have hexec : (execAll (exec (RAIDStorage.toIStorage _))
      [.event 3, .reactor ⟨.accept 3, .error "Too many open files"⟩,
        .reactor ⟨.read 3 24, .error "Transport endpoint is not connected"⟩,
        .reactor ⟨.epollDel 3, true⟩, .reactor ⟨.eraseClient 3, ()⟩, .reactor ⟨.getClientIP 3, ""⟩,
        .reactor ⟨.forgetClientIP 3, ()⟩, .reactor ⟨.close 3, ()⟩] small).map
      (fun s => decide s.Listening) = some false := by
    decide +kernel
  obtain ⟨s, he, hs⟩ := Option.map_eq_some_iff.mp hexec
  have hrun := Trace.of_execAll (fun _ _ _ => step_of_exec RAIDStorage.Answers) he
  exact of_decide_eq_false hs (h _ s hrun)

/-- A client connects. -/
theorem listening_after_accept :
    ∃ tr s, Trace (Step RAIDStorage.Answers (RAIDStorage.toIStorage _)) small tr s ∧
      s.Listening := by
  have hexec : (execAll (exec (RAIDStorage.toIStorage _))
      [.event 3, .reactor ⟨.accept 3, .ok (4, "10.0.0.1")⟩, .reactor ⟨.insertClient 4, ()⟩,
        .reactor ⟨.recordClientIP 4 "10.0.0.1", ()⟩, .reactor ⟨.epollAdd 4, true⟩] small).isSome := by
    decide +kernel
  obtain ⟨s, he⟩ := Option.isSome_iff_exists.mp hexec
  have hrun := Trace.of_execAll (fun _ _ _ => step_of_exec RAIDStorage.Answers) he
  exact ⟨_, s, hrun, (listening_iff (started_start ..) hrun).1 (by simp [Action.acceptFails])⟩

end Server

end LDS
