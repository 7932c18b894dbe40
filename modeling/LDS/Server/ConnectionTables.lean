import LDS.Server.ListenSocket
import LDS.Server.ReplyRouting

/-!
# The tables of the connections

A client is in the epoll set, in `m_client_fds` and in `m_fd_to_ip`. `Notify` enters it in the three of
them one after the other, and takes it out in the same way; between two events every descriptor is in all
of them or in none.

## Main definitions

* `Row`: the tables that a descriptor is in
* `Action.connectFails`: the action is a failing `accept`, or a failing `EPOLL_CTL_ADD`
* `Server.Consistent`: the tables have the same descriptors, which are open
* `Server.entering l`: the contract of `Notify`, with the row of the descriptor that it is at

## Main results

* `Server.Entered.step`, `Server.Entered.run`: the rows in every state
* `Server.tables_consistent`: between two events the tables agree, and nothing is closed before it has
  left them
-/

namespace LDS

variable {Op : Type} {Ans : Op → Type} {σ : Type}

/-- The tables that a descriptor is in. -/
structure Row where
  polled : Bool
  client : Bool
  address : Bool
  deriving DecidableEq

/-- The row of a client between two events. -/
def Row.full : Row := ⟨true, true, true⟩

/-- The row of a descriptor that is no client's. -/
def Row.empty : Row := ⟨false, false, false⟩

/-- The action is a failing `accept`, or a failing `EPOLL_CTL_ADD`. -/
def Action.connectFails : Action Ans → Bool
  | .reactor ⟨.accept _, .error _⟩ => true
  | .reactor ⟨.epollAdd _, false⟩ => true
  | _ => false

namespace Server

/-- The row of a descriptor. -/
def row (s : Server Ans σ) (fd : Int) : Row where
  polled := decide (fd ∈ s.kernel.epoll)
  client := decide (fd ∈ s.driver.clientFds)
  address := decide (fd ∈ s.driver.fdToIp)

/-- The descriptor is an open connection. -/
def IsConnection (s : Server Ans σ) (fd : Int) : Prop := ∃ id, s.kernel.fds fd = some (.connection id)

/-- The clients in the epoll set, in `m_client_fds` and in `m_fd_to_ip` are the same, and all of them are
open connections. -/
structure Consistent (s : Server Ans σ) : Prop where
  clients : ∀ fd, fd ∈ s.kernel.epoll.erase s.driver.listenFd ↔ fd ∈ s.driver.clientFds
  addresses : ∀ fd, fd ∈ s.driver.clientFds ↔ fd ∈ s.driver.fdToIp
  isOpen : ∀ fd ∈ s.driver.clientFds, s.IsConnection fd

/-! ## What a call does to the rows -/

/-- What an exchange does to the row of `fd`. -/
def enter (fd : Int) (r : Row) : Exchange ServerCall ServerCall.Answer → Row
  | ⟨.insertClient fd', _⟩ => if fd = fd' then { r with client := true } else r
  | ⟨.eraseClient fd', _⟩ => if fd = fd' then { r with client := false } else r
  | ⟨.recordClientIP fd' _, _⟩ => if fd = fd' then { r with address := true } else r
  | ⟨.forgetClientIP fd', _⟩ => if fd = fd' then { r with address := false } else r
  | ⟨.epollAdd fd', true⟩ => if fd = fd' then { r with polled := true } else r
  | ⟨.epollDel fd', true⟩ => if fd = fd' then { r with polled := false } else r
  | ⟨.close fd', _⟩ => if fd = fd' then { r with polled := false } else r
  | _ => r

variable {s s' : Server Ans σ} {o : ServerCall} {a : o.Answer} {fd l : Int}

/-- What an exchange does to the epoll set. -/
theorem mem_epoll_answer {k k' : Kernel} (h : k.answer o a = some k') (fd : Int) (c i : Bool) :
    decide (fd ∈ k'.epoll) = (enter fd ⟨decide (fd ∈ k.epoll), c, i⟩ ⟨o, a⟩).polled := by
  cases o with
  | accept fd' =>
    rcases a with errno | ⟨newFd, ip⟩
    · obtain rfl := Option.some.inj h
      rfl
    · -- a new connection is in no epoll set yet
      simp only [Kernel.answer, Option.ite_none_right_eq_some] at h
      obtain rfl := Option.some.inj h.2
      rfl
  | read fd' n =>
    rcases a with errno | bytes
    · obtain rfl := Option.some.inj h
      rfl
    · simp only [Kernel.answer] at h
      split at h
      · obtain rfl := Option.some.inj h
        rfl
      · cases h
  | write fd' buf =>
    rcases a with errno | n
    · obtain rfl := Option.some.inj h
      rfl
    · simp only [Kernel.answer] at h
      split at h
      · obtain rfl := Option.some.inj h
        rfl
      · obtain rfl := Option.some.inj h
        rfl
      · cases h
  | close fd' =>
    obtain rfl := Option.some.inj h
    rcases eq_or_ne fd fd' with rfl | hne
    · simp [enter]
    · simp [enter, hne]
  | epollAdd fd' =>
    cases a with
    | false =>
      obtain rfl := Option.some.inj h
      rfl
    | true =>
      simp only [Kernel.answer] at h
      split at h
      · split at h
        · cases h
        · obtain rfl := Option.some.inj h
          rcases eq_or_ne fd fd' with rfl | hne
          · simp [enter]
          · simp [enter, hne]
      · cases h
  | epollDel fd' =>
    cases a with
    | false =>
      simp only [Kernel.answer] at h
      split at h
      · cases h
      · obtain rfl := Option.some.inj h
        rfl
    | true =>
      simp only [Kernel.answer, Option.ite_none_right_eq_some] at h
      obtain rfl := Option.some.inj h.2
      rcases eq_or_ne fd fd' with rfl | hne
      · simp [enter]
      · simp [enter, hne]
  | insertClient fd' =>
    obtain rfl := Option.some.inj h
    rcases eq_or_ne fd fd' with rfl | hne <;> simp [enter, *]
  | eraseClient fd' =>
    obtain rfl := Option.some.inj h
    rcases eq_or_ne fd fd' with rfl | hne <;> simp [enter, *]
  | recordClientIP fd' ip =>
    obtain rfl := Option.some.inj h
    rcases eq_or_ne fd fd' with rfl | hne <;> simp [enter, *]
  | forgetClientIP fd' =>
    obtain rfl := Option.some.inj h
    rcases eq_or_ne fd fd' with rfl | hne <;> simp [enter, *]
  | _ =>
    obtain rfl := Option.some.inj h
    rfl

/-- What an exchange does to the tables of the driver. -/
theorem mem_tables_answer {d d' : TCPDriverComm} (h : d.answer o a = some d') (fd : Int) (p : Bool) :
    decide (fd ∈ d'.clientFds) =
        (enter fd ⟨p, decide (fd ∈ d.clientFds), decide (fd ∈ d.fdToIp)⟩ ⟨o, a⟩).client ∧
      decide (fd ∈ d'.fdToIp) =
        (enter fd ⟨p, decide (fd ∈ d.clientFds), decide (fd ∈ d.fdToIp)⟩ ⟨o, a⟩).address := by
  cases o with
  | insertClient fd' =>
    obtain rfl := Option.some.inj h
    rcases eq_or_ne fd fd' with rfl | hne <;> simp [enter, *]
  | eraseClient fd' =>
    obtain rfl := Option.some.inj h
    rcases eq_or_ne fd fd' with rfl | hne <;> simp [enter, *]
  | recordClientIP fd' ip =>
    obtain rfl := Option.some.inj h
    rcases eq_or_ne fd fd' with rfl | hne
    · simp [enter]
    · simp [enter, hne, hne.symm]
  | forgetClientIP fd' =>
    obtain rfl := Option.some.inj h
    rcases eq_or_ne fd fd' with rfl | hne
    · simp [enter]
    · simp [enter, hne, hne.symm]
  | getClientIP fd' =>
    -- `at` looks up, and changes nothing
    simp only [TCPDriverComm.answer, Option.ite_none_right_eq_some] at h
    obtain rfl := Option.some.inj h.2
    exact ⟨rfl, rfl⟩
  | close fd' =>
    obtain rfl := Option.some.inj h
    rcases eq_or_ne fd fd' with rfl | hne <;> simp [enter, *]
  | epollAdd fd' =>
    obtain rfl := Option.some.inj h
    cases a <;> rcases eq_or_ne fd fd' with rfl | hne <;> simp [enter, *]
  | epollDel fd' =>
    obtain rfl := Option.some.inj h
    cases a <;> rcases eq_or_ne fd fd' with rfl | hne <;> simp [enter, *]
  | _ =>
    obtain rfl := Option.some.inj h
    exact ⟨rfl, rfl⟩

theorem row_answer (h : s.answer ⟨o, a⟩ = some s') (fd : Int) :
    s'.row fd = enter fd (s.row fd) ⟨o, a⟩ := by
  obtain ⟨kernel, hk, h⟩ := Option.bind_eq_some_iff.mp h
  obtain ⟨driver, hd, rfl⟩ := Option.map_eq_some_iff.mp h
  obtain ⟨hclient, haddress⟩ := mem_tables_answer hd fd (decide (fd ∈ s.kernel.epoll))
  have hpolled := mem_epoll_answer hk fd (decide (fd ∈ s.driver.clientFds)) (decide (fd ∈ s.driver.fdToIp))
  exact congr (congr (congrArg Row.mk hpolled) hclient) haddress

/-! ## What `Notify` does to the rows -/

/-- The contract of `Notify` with the listening socket `l`. Its phase is the descriptor that it is at, if
any, with its row: a client is entered, or is taken out, table by table. -/
def entering (l : Int) : Prog.Contract ServerCall ServerCall.Answer (Option (Int × Row)) where
  answers
    | _, .accept _, .error _ => False
    | _, .epollAdd _, false => False
    | _, .epollDel _, false => False
    | _, _, _ => True
  calls
    | none, o => o = .accept l
    | some (fd, ⟨false, false, false⟩), o => o = .insertClient fd ∨ o = .close fd
    | some (fd, ⟨false, true, false⟩), o => ∃ ip, o = .recordClientIP fd ip
    | some (fd, ⟨false, true, true⟩), o => o = .epollAdd fd ∨ o = .eraseClient fd
    | some (fd, ⟨false, false, true⟩), o => o = .getClientIP fd ∨ o = .forgetClientIP fd
    | some (fd, ⟨true, true, true⟩), o => o = .epollDel fd ∨ (∃ n, o = .read fd n) ∨
      (∃ offset data, o = .updateAllocation offset data) ∨ o = .saveAllocations ∨
      ∃ request, o = .addCommand request
    | _, _ => False
  next
    | none, .accept _, .ok (newFd, _) => some (newFd, .empty)
    | some _, .close _, _ => none
    | some (fd, r), o, a => some (fd, enter fd r ⟨o, a⟩)
    | x, _, _ => x
  mayAbort := False

/-- `Notify` has returned, and the descriptor that it is at is in all tables. -/
def Returned (x : Option (Int × Row)) (r : Except String Unit) : Prop :=
  r = .ok () ∧ ∀ fd row, x = some (fd, row) → row = .full

/-- A call that moves the descriptor to another row. -/
theorem leads_entering {row row' : Row} (ho : (entering l).calls (some (fd, row)) o)
    (hclose : ∀ fd', o ≠ .close fd')
    (hrow : ∀ a, (entering l).answers (some (fd, row)) o a → enter fd row ⟨o, a⟩ = row') :
    (entering l).Leads (· = some (fd, row)) (· = some (fd, row')) o := by
  rintro _ rfl
  refine ⟨ho, fun a ha => ?_⟩
  rw [← hrow a ha]
  cases o with
  | close fd' => exact absurd rfl (hclose fd')
  | _ => rfl

/-- A client that connects is entered in the tables. -/
theorem entering_accept : Prog.Obeys (entering l) (fun x newFd => 0 ≤ newFd ∧
    x = some (newFd, ⟨false, true, true⟩)) none (TCPDriverComm.tryAccept l l) := by
  rw [TCPDriverComm.tryAccept, if_neg (not_not_intro rfl)]
  refine .call rfl ?_
  rintro (errno | ⟨newFd, ip⟩) ha
  · exact ha.elim
  -- one table after the other
  have hinsert : (entering l).Leads (· = some ((newFd : Int), Row.empty))
      (· = some ((newFd : Int), ⟨false, true, false⟩)) (.insertClient newFd) :=
    leads_entering (.inl rfl) (by simp) (by simp [enter, Row.empty])
  have hrecord : (entering l).Leads (· = some ((newFd : Int), ⟨false, true, false⟩))
      (· = some ((newFd : Int), ⟨false, true, true⟩)) (.recordClientIP newFd ip) :=
    leads_entering ⟨ip, rfl⟩ (by simp) (by simp [enter])
  refine .call_of_leads hinsert rfl ?_
  rintro _ _ rfl
  refine .call_of_leads hrecord rfl ?_
  rintro _ _ rfl
  exact .ret ⟨Int.natCast_nonneg _, rfl⟩

theorem entering_add :
    Prog.Obeys (entering l) Returned (some (fd, ⟨false, true, true⟩)) (Reactor.add fd) := by
  have hadd : (entering l).Leads (· = some (fd, ⟨false, true, true⟩)) (· = some (fd, Row.full)) (.epollAdd fd) := by
    refine leads_entering (.inl rfl) (by simp) ?_
    rintro (_ | _) ha
    · exact ha.elim
    · simp [enter, Row.full]
  refine .call (hadd _ rfl).1 ?_
  rintro (_ | _) ha
  · exact ha.elim
  · refine .ret ⟨rfl, fun fd' row hx => ?_⟩
    rw [(hadd _ rfl).2 true ha] at hx
    cases hx
    rfl

/-- A client that is taken out of the tables, and then closed. -/
theorem entering_remove {k : ServerProg (Except String Unit)}
    (hk : Prog.Obeys (entering l) Returned none k) :
    Prog.Obeys (entering l) Returned (some (fd, ⟨false, true, true⟩))
      (TCPDriverComm.removeClientFD fd >>= fun _ => k) := by
  -- the tables are left in another order than they were entered in
  have herase : (entering l).Leads (· = some (fd, ⟨false, true, true⟩)) (· = some (fd, ⟨false, false, true⟩))
      (.eraseClient fd) := leads_entering (.inr rfl) (by simp) (by simp [enter])
  have hget : (entering l).Leads (· = some (fd, ⟨false, false, true⟩)) (· = some (fd, ⟨false, false, true⟩))
      (.getClientIP fd) := leads_entering (.inl rfl) (by simp) (by simp [enter])
  have hforget : (entering l).Leads (· = some (fd, ⟨false, false, true⟩)) (· = some (fd, Row.empty))
      (.forgetClientIP fd) := leads_entering (.inr rfl) (by simp) (by simp [enter, Row.empty])
  refine .call_of_leads herase rfl ?_
  rintro _ _ rfl
  refine .call_of_leads hget rfl ?_
  rintro _ _ rfl
  refine .call_of_leads hforget rfl ?_
  rintro _ _ rfl
  exact .call (.inr rfl) fun _ _ => hk

/-- A request of a client leaves it in all tables, or in none. -/
theorem entering_queueRequest : Prog.Obeys (entering l) Returned (some (fd, .full))
    (InputMediator.queueRequest (TCPDriverComm.toIDriverComm l) fd) := by
  have hread : ∀ n, (entering l).Leads (· = some (fd, Row.full)) (· = some (fd, Row.full)) (.read fd n) :=
    fun n => leads_entering (.inr (.inl ⟨n, rfl⟩)) (by simp) fun _ _ => rfl
  have hupdate : ∀ offset data, (entering l).Leads (· = some (fd, Row.full)) (· = some (fd, Row.full))
      (.updateAllocation offset data) :=
    fun offset data => leads_entering (.inr (.inr (.inl ⟨offset, data, rfl⟩))) (by simp) fun _ _ => rfl
  have hsave : (entering l).Leads (· = some (fd, Row.full)) (· = some (fd, Row.full)) .saveAllocations :=
    leads_entering (.inr (.inr (.inr (.inl rfl)))) (by simp) fun _ _ => rfl
  have hdel : (entering l).Leads (· = some (fd, Row.full)) (· = some (fd, ⟨false, true, true⟩)) (.epollDel fd) := by
    refine leads_entering (.inl rfl) (by simp) ?_
    -- a client that is in the epoll set can be taken out
    rintro (_ | _) ha
    · exact ha.elim
    · simp [enter, Row.full]
  refine (TCPDriverComm.obeys_receiveRequest hread hread hupdate hsave rfl).bind ?_
  rintro _ (what | request) ⟨rfl, -⟩
  · refine .call (hdel _ rfl).1 ?_
    rintro (_ | _) ha
    · exact ha.elim
    rw [(hdel _ rfl).2 true ha]
    exact entering_remove (.ret ⟨rfl, fun _ _ hx => by cases hx⟩)
  · refine .call (.inr (.inr (.inr (.inr ⟨request, rfl⟩)))) fun _ _ => .ret ⟨rfl, ?_⟩
    rintro _ _ ⟨⟩
    rfl

/-- `Notify` enters a client, or serves or takes out the one that it is called for. -/
theorem entering_notify (l fd : Int) : Prog.Obeys (entering l) Returned
    (if fd = l then none else some (fd, .full)) (InputMediator.notify (TCPDriverComm.toIDriverComm l) fd) := by
  rcases eq_or_ne fd l with rfl | hfd
  · rw [if_pos rfl]
    refine entering_accept.bind ?_
    rintro _ newFd ⟨hnew, rfl⟩
    rw [if_pos hnew]
    exact entering_add
  · rw [if_neg hfd, InputMediator.notify_of_ne hfd]
    exact entering_queueRequest

/-! ## Runs -/

/-- Every client is in all tables, and is an open connection; every other descriptor is in none. Only the
descriptor that `Notify` is at may be between them. -/
structure Entered (s : Server Ans σ) (x : Option (Int × Row)) : Prop where
  listening : s.Listening
  listener : s.row s.driver.listenFd = ⟨true, false, false⟩
  others : ∀ fd, fd ≠ s.driver.listenFd → (∀ row, x ≠ some (fd, row)) →
    s.row fd = .empty ∨ s.row fd = .full ∧ s.IsConnection fd
  current : ∀ fd row, x = some (fd, row) →
    fd ≠ s.driver.listenFd ∧ s.IsConnection fd ∧ s.row fd = row

variable {R : Environment Op Ans σ} {S : IStorage Op Ans} {listenFd : Int}
  {allocations : Std.ExtTreeMap Nat (List Byte)} {storage : σ} {tr : List (Action Ans)}

namespace Entered

variable {x : Option (Int × Row)} {act : Action Ans}

/-- Between two events no descriptor is between the tables. -/
theorem settle (h : s.Entered x) (hx : ∀ fd row, x = some (fd, row) → row = .full) : s.Entered none := by
  refine ⟨h.listening, h.listener, fun fd hfd _ => ?_, fun _ _ hn => by cases hn⟩
  by_cases hcur : ∃ row, x = some (fd, row)
  · obtain ⟨row, rfl⟩ := hcur
    obtain ⟨-, hopen, hrow⟩ := h.current fd row rfl
    exact .inr ⟨hrow.trans (hx fd row rfl), hopen⟩
  · exact h.others fd hfd fun row hrow => hcur ⟨row, hrow⟩

theorem consistent (h : s.Entered none) : s.Consistent := by
  -- each descriptor by its row
  have hrows : ∀ fd, fd ≠ s.driver.listenFd →
      (fd ∈ s.kernel.epoll ↔ fd ∈ s.driver.clientFds) ∧ (fd ∈ s.driver.clientFds ↔ fd ∈ s.driver.fdToIp) ∧
        (fd ∈ s.driver.clientFds → s.IsConnection fd) := by
    intro fd hfd
    rcases h.others fd hfd (by simp) with hrow | ⟨hrow, hopen⟩
    · simp only [row, Row.empty, Row.mk.injEq, decide_eq_false_iff_not] at hrow
      obtain ⟨h₁, h₂, h₃⟩ := hrow
      simp [h₁, h₂, h₃]
    · simp only [row, Row.full, Row.mk.injEq, decide_eq_true_eq] at hrow
      obtain ⟨h₁, h₂, h₃⟩ := hrow
      simp [h₁, h₂, h₃, hopen]
  have hlistener := h.listener
  simp only [row, Row.mk.injEq, decide_eq_false_iff_not] at hlistener
  obtain ⟨-, hclient, haddress⟩ := hlistener
  refine ⟨fun fd => ?_, fun fd => ?_, fun fd hmem => ?_⟩
  · rw [Finset.mem_erase]
    rcases eq_or_ne fd s.driver.listenFd with rfl | hfd
    · simp [hclient]
    · simp [hfd, (hrows fd hfd).1]
  · rcases eq_or_ne fd s.driver.listenFd with rfl | hfd
    · simp [hclient, haddress]
    · exact (hrows fd hfd).2.1
  · rcases eq_or_ne fd s.driver.listenFd with rfl | hfd
    · exact absurd hmem hclient
    · exact (hrows fd hfd).2.2 hmem

/-- A step that leaves the rows and the connections alone. -/
theorem congr (h : s.Entered x) (hlisten : s.Listening → s'.Listening)
    (hl : s'.driver.listenFd = s.driver.listenFd) (hrow : ∀ fd, s'.row fd = s.row fd)
    (hopen : ∀ fd, s.IsConnection fd → s'.IsConnection fd) : s'.Entered x := by
  refine ⟨hlisten h.listening, ?_, fun fd hfd hx => ?_, fun fd row hx => ?_⟩
  · rw [hrow, hl]
    exact h.listener
  · rw [hrow]
    rw [hl] at hfd
    exact (h.others fd hfd hx).imp_right fun h => ⟨h.1, hopen fd h.2⟩
  · obtain ⟨hfd, hconn, hr⟩ := h.current fd row hx
    rw [hl]
    exact ⟨hfd, hopen fd hconn, (hrow fd).trans hr⟩

/-- A call of `Notify` for the descriptor that it is at. -/
theorem at_current {row : Row} (h : s.Entered (some (fd, row))) (ha : s.answer ⟨o, a⟩ = some s')
    (hother : ∀ fd' r, fd' ≠ fd → enter fd' r ⟨o, a⟩ = r) (hclose : ∀ fd', o ≠ .close fd')
    (hdel : o ≠ .epollDel s.driver.listenFd) : s'.Entered (some (fd, enter fd row ⟨o, a⟩)) := by
  obtain ⟨hfd, hconn, hr⟩ := h.current fd row rfl
  have hrow := row_answer ha
  obtain ⟨kernel, driver, hk, hd, rfl⟩ := answer_inv ha
  have he := Kernel.effect_of_answer hk
  have hlisten : kernel.Listens driver.listenFd := by
    rw [hd]
    exact Kernel.Listens.effect h.listening he (hclose _) hdel
  have hopen : ∀ fd', s.IsConnection fd' → ∃ id, kernel.fds fd' = some (.connection id) :=
    fun fd' ⟨id, hid⟩ => ⟨id, he.refers hid (hclose fd')⟩
  refine ⟨hlisten, ?_, fun fd' hfd' hx => ?_, ?_⟩
  · rw [hrow]
    simp only [hd]
    rw [hother _ _ hfd.symm]
    exact h.listener
  · -- another descriptor keeps its row, and what it refers to
    have hne : fd' ≠ fd := fun heq => hx _ (by rw [heq])
    rw [hrow, hother _ _ hne]
    refine (h.others fd' (by rwa [← hd]) ?_).imp_right fun h => ⟨h.1, hopen fd' h.2⟩
    exact fun row' hx' => hne (Prod.mk.inj (Option.some.inj hx')).1.symm
  · rintro _ _ ⟨⟩
    refine ⟨by rwa [← hd] at hfd, hopen fd hconn, ?_⟩
    rw [hrow, hr]

/-- A call in the middle of an event is for the current descriptor; it closes the descriptor, which has
left all tables then, or changes its row. -/
theorem calls_inv {row : Row} (ho : (entering l).calls (some (fd, row)) o) :
    o = .close fd ∧ row = .empty ∨
      (∀ fd', o ≠ .close fd') ∧ (∀ fd', o ≠ .accept fd') ∧
        (∀ fd', o = .epollDel fd' → fd' = fd ∧ row = .full) ∧
        ∀ a fd' r, fd' ≠ fd → enter fd' r ⟨o, a⟩ = r := by
  -- one case per row; those that the contract rules out go
  obtain ⟨_ | _, _ | _, _ | _⟩ := row <;> simp only [entering] at ho
  · rcases ho with rfl | rfl
    · exact .inr ⟨by simp, by simp, by simp, fun _ _ _ hne => if_neg hne⟩
    · exact .inl ⟨rfl, rfl⟩
  · rcases ho with rfl | rfl
    · exact .inr ⟨by simp, by simp, by simp, fun _ _ _ _ => rfl⟩
    · exact .inr ⟨by simp, by simp, by simp, fun _ _ _ hne => if_neg hne⟩
  · obtain ⟨ip, rfl⟩ := ho
    exact .inr ⟨by simp, by simp, by simp, fun _ _ _ hne => if_neg hne⟩
  · rcases ho with rfl | rfl
    · refine .inr ⟨by simp, by simp, by simp, ?_⟩
      rintro (_ | _) _ _ hne
      · rfl
      · exact if_neg hne
    · exact .inr ⟨by simp, by simp, by simp, fun _ _ _ hne => if_neg hne⟩
  · -- the full row: the client is taken out, or its request is read
    rcases ho with rfl | ⟨n, rfl⟩ | ⟨offset, data, rfl⟩ | rfl | ⟨request, rfl⟩
    · refine .inr ⟨by simp, by simp, by simp [Row.full, eq_comm], ?_⟩
      rintro (_ | _) _ _ hne
      · rfl
      · exact if_neg hne
    · exact .inr ⟨by simp, by simp, by simp, fun _ _ _ _ => rfl⟩
    · exact .inr ⟨by simp, by simp, by simp, fun _ _ _ _ => rfl⟩
    · exact .inr ⟨by simp, by simp, by simp, fun _ _ _ _ => rfl⟩
    · exact .inr ⟨by simp, by simp, by simp, fun _ _ _ _ => rfl⟩

/-- A client connects: its descriptor was nobody's, and is in no table yet. -/
theorem accepted {newFd : Nat} {ip : String} (h : s.Entered none)
    (ha : s.answer ⟨.accept l, .ok (newFd, ip)⟩ = some s') : s'.Entered (some (newFd, .empty)) := by
  have hrow := row_answer ha
  obtain ⟨kernel, driver, hk, hd, rfl⟩ := answer_inv ha
  simp only [Kernel.answer, Option.ite_none_right_eq_some] at hk
  obtain ⟨⟨-, hfree⟩, hk⟩ := hk
  obtain rfl := Option.some.inj hk
  have hne : (newFd : Int) ≠ s.driver.listenFd := by
    rintro heq
    rw [heq, h.listening.1] at hfree
    cases hfree
  refine ⟨?_, (hrow _).trans ?_, fun fd hfd hx => ?_, ?_⟩
  · rw [Listening, hd]
    exact h.listening.openAt hfree
  · rw [hd]
    exact h.listener
  · rw [hd] at hfd
    rw [hrow]
    refine (h.others fd hfd (by simp)).imp_right ?_
    rintro ⟨hfull, id, hid⟩
    refine ⟨hfull, id, ?_⟩
    have hother : fd ≠ newFd := fun heq => hx _ (by rw [heq])
    exact (Kernel.fds_openAt_of_ne _ _ hother).trans hid
  · rintro _ _ ⟨⟩
    refine ⟨by rwa [hd], ⟨_, Kernel.fds_openAt_self _ _⟩, (hrow _).trans ?_⟩
    -- a full row would be that of an open descriptor
    rcases h.others newFd hne (by simp) with hempty | ⟨-, id, hid⟩
    · exact hempty
    · rw [hfree] at hid
      cases hid

/-- A client is closed; it has left all tables before. -/
theorem closed (h : s.Entered (some (fd, .empty))) (ha : s.answer ⟨.close fd, ()⟩ = some s') :
    s'.Entered none := by
  have hrow := row_answer ha
  obtain ⟨hfd, -, hempty⟩ := h.current fd _ rfl
  obtain ⟨kernel, driver, hk, hd, rfl⟩ := answer_inv ha
  obtain rfl := Option.some.inj hk
  -- the call leaves the other rows
  have hother : ∀ fd' r, fd' ≠ fd → enter fd' r ⟨.close fd, ()⟩ = r := fun _ _ hne => if_neg hne
  refine ⟨?_, (hrow _).trans ?_, fun fd' hfd' _ => ?_, fun _ _ hx => by cases hx⟩
  · rw [Listening, hd]
    exact h.listening.closeAt hfd.symm
  · rw [hd, hother _ _ hfd.symm]
    exact h.listener
  · rw [hd] at hfd'
    rw [hrow]
    rcases eq_or_ne fd' fd with rfl | hne
    · refine .inl ?_
      rw [hempty]
      exact if_pos rfl
    · rw [hother _ _ hne]
      refine (h.others fd' hfd' ?_).imp_right fun ⟨hfull, id, hid⟩ => ⟨hfull, id, ?_⟩
      · exact fun row hx => hne (Prod.mk.inj (Option.some.inj hx)).1.symm
      · exact (Kernel.fds_closeAt_of_ne _ hne).trans hid

/-- One call of `Notify`. -/
theorem call (h : s.Entered x) (ho : (entering s.driver.listenFd).calls x o)
    (ha : s.answer ⟨o, a⟩ = some s') (hact : (Action.reactor ⟨o, a⟩ : Action Ans).connectFails = false) :
    (entering s.driver.listenFd).answers x o a ∧
      s'.Entered ((entering s.driver.listenFd).next x o a) := by
  rcases x with _ | ⟨fd, row⟩
  · -- between two events there is nothing but `accept`
    obtain rfl : o = .accept s.driver.listenFd := ho
    rcases a with errno | ⟨newFd, ip⟩
    · cases hact
    · exact ⟨trivial, h.accepted ha⟩
  rcases calls_inv ho with ⟨rfl, rfl⟩ | ⟨hclose, haccept, hdel, hother⟩
  · exact ⟨trivial, h.closed ha⟩
  have hnext : (entering s.driver.listenFd).next (some (fd, row)) o a =
      some (fd, enter fd row ⟨o, a⟩) := by
    cases o with
    | close fd' => exact absurd rfl (hclose fd')
    | _ => rfl
  obtain ⟨hfd, -, hrow⟩ := h.current fd row rfl
  rw [hnext]
  refine ⟨?_, h.at_current ha (hother a) hclose fun heq => hfd (hdel _ heq).1.symm⟩
  cases o with
  | accept fd' => exact absurd rfl (haccept fd')
  | epollAdd fd' =>
    cases a with
    | false => cases hact
    | true => trivial
  | epollDel fd' =>
    cases a with
    | true => trivial
    | false =>
      -- the descriptor is in the epoll set
      obtain ⟨rfl, rfl⟩ := hdel _ rfl
      obtain ⟨kernel, driver, hk, -, -⟩ := answer_inv ha
      have hmem : decide (fd' ∈ s.kernel.epoll) = true := congrArg Row.polled hrow
      exact absurd (of_decide_eq_true hmem) (Kernel.not_mem_of_epollDel hk)
  | _ => trivial

/-- A step of the server. -/
theorem step (hs : Step R S s act s') (hact : act.connectFails = false) (hw : s.Writers)
    (h : ∃ x, Prog.Obeys (entering s.driver.listenFd) Returned x s.notify ∧ s.Entered x) :
    ∃ x, Prog.Obeys (entering s'.driver.listenFd) Returned x s'.notify ∧ s'.Entered x := by
  obtain ⟨x, hp, hx⟩ := h
  cases hs with
  | @event fd hidle hfd =>
    rw [hidle] at hp
    have hnone := hx.settle hp.ret_inv.2
    refine ⟨_, entering_notify s.driver.listenFd fd, ?_⟩
    rcases eq_or_ne fd s.driver.listenFd with rfl | hne
    · rw [if_pos rfl]
      exact hnone.congr id rfl (fun _ => rfl) fun _ => id
    · rw [if_neg hne]
      -- a descriptor that is ready is in the epoll set, and so in all tables
      have hfull : s.row fd = .full ∧ s.IsConnection fd := by
        rcases hnone.others fd hne (by simp) with hempty | hfull
        · have hpolled : decide (fd ∈ s.kernel.epoll) = false := congrArg Row.polled hempty
          exact absurd hfd (of_decide_eq_false hpolled)
        · exact hfull
      refine ⟨hnone.listening, hnone.listener, fun fd' hfd' _ => hnone.others fd' hfd' (by simp), ?_⟩
      rintro _ _ ⟨⟩
      exact ⟨hne, hfull.2, hfull.1⟩
  | @reactor s₁ o a k hn ha =>
    rw [hn] at hp
    obtain ⟨ho, hcont⟩ := hp.call_inv
    obtain ⟨hanswer, hx'⟩ := hx.call ho ha hact
    have hl : s₁.driver.listenFd = s.driver.listenFd := by
      obtain ⟨kernel, driver, -, hd, rfl⟩ := answer_inv ha
      exact hd
    refine ⟨_, ?_, hx'.congr (fun hlisten => ?_) ?_ (fun fd => ?_) fun fd hfd => ?_⟩
    · simp only [driver_record, hl]
      exact hcont a hanswer
    · simpa [Listening] using hlisten
    · simp
    · simp [row]
    · simpa [IsConnection] using hfd
  | @worker s₁ i job o a k hj hprog ha =>
    have hjob := hw job (List.mem_of_getElem? hj)
    rw [hprog] at hjob
    obtain ⟨fd, buf, rfl, -⟩ := hjob.call_inv.1
    have hrow := row_answer ha
    obtain ⟨kernel, driver, hk, hd, rfl⟩ := answer_inv ha
    have he := Kernel.effect_of_answer hk
    refine ⟨x, by simpa [setJob, hd] using hp, hx.congr (fun hl => ?_) hd hrow fun fd' ⟨id, hid⟩ => ?_⟩
    · rw [Listening, setJob, hd]
      exact Kernel.Listens.effect hl he (by simp) (by simp)
    · exact ⟨id, he.refers hid (by simp)⟩
  | storage hj hprog hR => exact ⟨x, hp, hx.congr id rfl (fun _ => rfl) fun _ => id⟩
  | @openFile fd hfd =>
    exact ⟨x, hp, hx.congr (fun hl => hl.openAt hfd) rfl (fun _ => rfl)
      fun _ ⟨id, hid⟩ => ⟨id, Kernel.refers_openAt hid hfd⟩⟩
  | @closeFile fd id hfd =>
    -- a file is neither the listening socket nor a connection, so that its descriptor is in no table
    have hlisten : s.driver.listenFd ≠ fd := by
      rintro rfl
      cases hfd.symm.trans hx.listening.1
    have hconn : ¬ s.IsConnection fd := by
      rintro ⟨id', hid'⟩
      cases hfd.symm.trans hid'
    have hempty : s.row fd = .empty :=
      (hx.others fd hlisten.symm fun row hcur => hconn (hx.current fd row hcur).2.1).resolve_right
        fun hfull => hconn hfull.2
    have hmem : fd ∉ s.kernel.epoll := of_decide_eq_false (congrArg Row.polled hempty)
    refine ⟨x, hp, hx.congr (fun hl => hl.closeAt hlisten) rfl (fun fd' => ?_) fun fd' ⟨id', hid'⟩ => ?_⟩
    · simp only [row, Kernel.epoll_closeAt, Finset.erase_eq_of_notMem hmem]
    · have hne : fd' ≠ fd := by
        rintro rfl
        exact hconn ⟨id', hid'⟩
      exact ⟨id', (Kernel.fds_closeAt_of_ne _ hne).trans hid'⟩

/-- The rows in every state of a run without failures. -/
theorem run (hr : Trace (Where (fun _ act => act.connectFails = false) (Step R S))
    (start listenFd allocations storage) tr s) :
    s.Writers ∧ ∃ x, Prog.Obeys (entering s.driver.listenFd) Returned x s.notify ∧ s.Entered x := by
  refine hr.invariant (I := fun _ s => s.Writers ∧
    ∃ x, Prog.Obeys (entering s.driver.listenFd) Returned x s.notify ∧ s.Entered x) ?_ ?_
  · refine ⟨fun job hmem => absurd hmem List.not_mem_nil, none, .ret ⟨rfl, fun _ _ hx => by cases hx⟩, ?_⟩
    refine ⟨⟨by simp [start], by simp [start]⟩, by simp [start, row], fun fd hfd _ => .inl ?_,
      fun _ _ hx => by cases hx⟩
    have hne : fd ≠ listenFd := hfd
    simp [start, row, Row.empty, hne]
  · rintro _ s act s' ⟨hact, hs⟩ ⟨hw, hx⟩
    exact ⟨hw.step hs, step hs hact hw hx⟩

end Entered

/-- **The tables of the connections** agree whenever `Notify` has returned, it throws nothing, and a
descriptor that is closed is in none of them. -/
theorem tables_consistent (hr : Trace (Where (fun _ act => act.connectFails = false) (Step R S))
    (start listenFd allocations storage) tr s) :
    (∀ r, s.notify = .ret r → r = .ok () ∧ s.Consistent) ∧ s.notify ≠ .abort ∧
      (∀ fd k, s.notify = .call (.close fd) k → s.row fd = .empty) ∧
      ∀ job ∈ s.jobs, ∀ fd k, job.prog ≠ .call (.server (.close fd)) k := by
  obtain ⟨hw, x, hp, hx⟩ := Entered.run hr
  refine ⟨fun r hn => ?_, fun hn => ?_, fun fd k hn => ?_, fun job hjob fd k hprog => ?_⟩
  · rw [hn] at hp
    obtain ⟨hok, hfull⟩ := hp.ret_inv
    exact ⟨hok, (hx.settle hfull).consistent⟩
  · rw [hn] at hp
    exact hp.abort_inv
  · rw [hn] at hp
    have ho := hp.call_inv.1
    rcases x with _ | ⟨fd', row'⟩
    · cases ho
    rcases Entered.calls_inv ho with ⟨heq, rfl⟩ | ⟨hclose, -⟩
    · cases heq
      exact (hx.current fd _ rfl).2.2
    · exact absurd rfl (hclose fd)
  · -- the workers do nothing to descriptors but write to them
    have hjob := hw job hjob
    rw [hprog] at hjob
    obtain ⟨fd', buf, ho, -⟩ := hjob.call_inv.1
    cases ho

/-- A client connects and leaves, and another one gets its number. -/
theorem tables_consistent_small :
    ∃ tr s, Trace (Where (fun _ act => act.connectFails = false)
        (Step RAIDStorage.Answers (RAIDStorage.toIStorage _))) small tr s ∧
      s.kernel.fds 4 = some (.connection 1) ∧ s.driver.fdToIp[(4 : Int)]? = some "10.0.0.2" ∧ s.Consistent := by
  have hexec : ((execAll (fun s act => if act.connectFails = false then
        exec (RAIDStorage.toIStorage _) s act else none)
      (connects "10.0.0.1" ++ leaves "10.0.0.1" ++ connects "10.0.0.2") small).map fun s =>
      decide (s.kernel.fds 4 = some (.connection 1) ∧ s.driver.fdToIp[(4 : Int)]? = some "10.0.0.2" ∧
        s.notify.value?.isSome)) = some true := by
    decide +kernel
  obtain ⟨s, he, hs⟩ := Option.map_eq_some_iff.mp hexec
  obtain ⟨hid, hip, hdone⟩ := of_decide_eq_true hs
  have hrun : Trace (Where (fun _ act => act.connectFails = false)
      (Step RAIDStorage.Answers (RAIDStorage.toIStorage _))) small _ s :=
    Trace.of_execAll (fun s act s' h => by
      rw [Option.ite_none_right_eq_some] at h
      exact ⟨h.1, step_of_exec RAIDStorage.Answers h.2⟩) he
  refine ⟨_, s, hrun, hid, hip, ?_⟩
  -- `Notify` has returned
  cases hn : s.notify with
  | ret r => exact ((tables_consistent hrun).1 r hn).2
  | call o k =>
    rw [hn] at hdone
    cases hdone
  | abort => exact absurd hn (tables_consistent hrun).2.1

end Server

end LDS
