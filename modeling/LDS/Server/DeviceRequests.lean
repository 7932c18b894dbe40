import LDS.Server.Conversations
import LDS.Storage.Linearizability

/-!
# The device behind the server

Clients see the device through their replies. While no minion fails, the device is linearizable for them, too:
the `READ`s and `WRITE`s of all connections can be put in one order for each stripe, in which the reply to each
`READ` carries what the `WRITE`s before it have made of the stripe, and a request that was sent when the reply to
another one had come does not stand before it. The other requests leave the device alone.

## Main definitions

* `Server.deviceData jobs i`: the request of a job to the device
* `Server.Precedes tr i j`: the reply to a request has begun when another one is queued
* `Server.Sent`: what the clients are sent of a stripe

## Main results

* `Server.Precedes.storage`: the order in which clients see the requests is one of the calls to the storage
* `Server.Pooled.device`: the `READ`s and `WRITE`s of a server are a pool of requests to the device
* `Networked.device_linearizable`: the device is linearizable for the clients
-/

namespace LDS

open Memory

variable {Op : Type} {Ans : Op → Type} {σ : Type}

/-! ## Requests to the device -/

/-- The request is a `READ` or a `WRITE`. -/
def ActionType.onDevice : ActionType → Bool
  | .read => true
  | .write => true
  | _ => false

namespace Server

/-- The job has a request to the device. -/
def onDevice (jobs : List (Job Ans)) (i : Nat) : Bool := (jobs[i]?.map Job.request).any fun r => r.type.onDevice

/-- The request of a job to the device; one that has none is like a `READ` of nothing. -/
def deviceData (jobs : List (Job Ans)) (i : Nat) : DriverData :=
  ((jobs[i]?.map Job.request).filter fun r => r.type.onDevice).getD (.ofRead 0 0 0)

/-- The request of a job to the device is a `WRITE`. -/
def isWrite (jobs : List (Job Ans)) (i : Nat) : Bool := decide ((deviceData jobs i).type = .write)

section Data

variable {jobs : List (Job Ans)} {i : Nat} {job : Job Ans}

theorem deviceData_of_onDevice (hj : jobs[i]? = some job) (h : job.request.type.onDevice) :
    deviceData jobs i = job.request := by
  rw [deviceData, hj, Option.map_some, Option.filter_some, if_pos h, Option.getD_some]

theorem deviceData_of_not (h : ¬ onDevice jobs i = true) : deviceData jobs i = .ofRead 0 0 0 := by
  rw [onDevice] at h
  rw [deviceData]
  cases hr : jobs[i]?.map Job.request with
  | none => rfl
  | some request =>
    rw [hr, Option.any_some] at h
    rw [Option.filter_some, if_neg h, Option.getD_none]

/-- A job without a request to the device asks it for nothing. -/
theorem requestLen_of_not (h : ¬ onDevice jobs i = true) :
    RAIDStorage.requestLen (isWrite jobs i) (deviceData jobs i) = 0 := by
  rw [isWrite, deviceData_of_not h]
  rfl

end Data

end Server

namespace InputMediator

variable {g : Geometry}

/-- The storage's part of a `READ` or a `WRITE` is the request to the device. -/
theorem outcome_onDevice {request : DriverData} (h : request.type.onDevice) :
    outcome (RAIDStorage.toIStorage g) request =
      RAIDStorage.request g (decide (request.type = .write)) request >>= fun data => .ret (.ok (some data)) := by
  rw [outcome.eq_def, RAIDStorage.request]
  cases ht : request.type with
  | read => exact Prog.bind_assoc _ _ _
  | write => exact Prog.bind_assoc _ _ _
  | _ =>
    rw [ht] at h
    cases h

/-- The call looks something up in the metadata. -/
def LooksUp : RAIDCall g → Prop
  | .getDataSize _ => True
  | .listOffsets => True
  | _ => False

/-- The other requests only look something up. -/
theorem obeys_outcome_lookups {request : DriverData} (h : ¬ request.type.onDevice = true) :
    Prog.Obeys (.plain (fun _ _ => True) LooksUp True) (fun _ _ => True) ()
      (outcome (RAIDStorage.toIStorage g) request) := by
  rw [outcome.eq_def]
  split
  · rename_i ht
    exact absurd (congrArg ActionType.onDevice ht) h
  · rename_i ht
    exact absurd (congrArg ActionType.onDevice ht) h
  · exact .ret trivial
  · exact .ret trivial
  · exact .ret trivial
  · exact .call trivial fun _ _ => .ret trivial
  · exact .call trivial fun _ _ => .ret trivial
  · exact .ret trivial

/-- A look into the metadata changes nothing. -/
theorem LooksUp.eq {μ τ : Type} [LawfulMinion μ] [IMetadataStore τ] {s s' : RAIDStorage μ τ g} {o : RAIDCall g}
    {a : o.Answer} (ho : LooksUp o) (h : RAIDStorage.NoFailures s o a s') : s' = s := by
  cases o with
  | getDataSize offset =>
    cases h.1 with
    | own h => exact (Prod.mk.inj (Option.some.inj h)).2.symm
  | listOffsets =>
    cases h.1 with
    | own h => exact (Prod.mk.inj (Option.some.inj h)).2.symm
  | _ => exact ho.elim

end InputMediator

/-! ## Real time -/

/-- A command is queued. -/
def Action.queues : Action Ans → Bool
  | .reactor ⟨.addCommand _, _⟩ => true
  | _ => false

namespace Server

/-- How many commands were queued. -/
def queued (tr : List (Action Ans)) : Nat := tr.countP Action.queues

/-- The reply to `i` has begun to be written before `j` is queued. -/
def Precedes (tr : List (Action Ans)) (i j : Nat) : Prop :=
  ∃ tr₁ tr₂, tr = tr₁ ++ tr₂ ∧ written i tr₁ ≠ [] ∧ queued tr₁ ≤ j

section RealTime

variable {R : Environment Op Ans σ} {S : IStorage Op Ans} {s₀ s : Server Ans σ} {tr tr₁ tr₂ : List (Action Ans)}
  {i : Nat}

/-- There is a job for each command that was queued. -/
theorem length_jobs (h₀ : s₀.jobs = []) (hr : Trace (Step R S) s₀ tr s) : s.jobs.length = queued tr := by
  refine hr.invariant (I := fun tr s => s.jobs.length = queued tr) ?_ ?_
  · rw [h₀]
    rfl
  · intro tr s act s' hs ih
    rw [queued, List.countP_append, ← queued, List.countP_singleton]
    cases hs with
    | event => exact ih
    | @reactor s₁ o a k hn ha =>
      obtain ⟨kernel, driver, -, -, rfl⟩ := answer_inv ha
      cases o with
      | addCommand request =>
        change (s.jobs ++ [_]).length = _
        rw [List.length_append, ih]
        rfl
      | _ => exact ih
    | worker hj hp ha =>
      obtain ⟨kernel, driver, -, -, rfl⟩ := answer_inv ha
      exact (List.length_set ..).trans ih
    | storage => exact (List.length_set ..).trans ih
    | openFile => exact ih
    | closeFile => exact ih

/-- When the reply to a request has begun, its part of the storage's work is done. -/
theorem own_eq_nil_of_written (h₀ : s₀.jobs = []) (hr : Trace (Step R S) s₀ (tr₁ ++ tr₂) s)
    (hw : written i tr₁ ≠ []) : Pool.own i (storageCalls tr₂) = [] := by
  induction tr₂ using List.reverseRecOn generalizing s with
  | nil => rfl
  | append_singleton tr₂ act ih =>
    rw [← List.append_assoc] at hr
    obtain ⟨s', hr', hlast⟩ := hr.append_inv
    have hown := ih hr'
    obtain ⟨s'', hs, -⟩ := hlast.cons_inv
    obtain ⟨T, hpooled⟩ := Pooled.run_server h₀ hr'
    cases hs with
    | @storage st j job o a k hj hp hR =>
      rw [storageCalls_snoc_some (e := (j, ⟨o, a⟩)) rfl]
      by_cases hij : j = i
      · -- the job has written nothing yet
        subst hij
        obtain ⟨hnil, -⟩ := (hpooled.job j job hj).storage hp
        rw [written, List.flatMap_append] at hnil
        exact absurd (List.append_eq_nil_iff.mp hnil).1 hw
      · rw [Pool.own_snoc_of_ne hij, hown]
    | _ =>
      rw [storageCalls_snoc_none rfl]
      exact hown

/-- What precedes in the run of the server, precedes in that of the storage. -/
theorem Precedes.storage {j : Nat} (h₀ : s₀.jobs = []) (hr : Trace (Step R S) s₀ tr s) (h : Precedes tr i j)
    (p : Nat × Exchange Op Ans → Bool) : Pool.Precedes ((storageCalls tr).filter p) i j := by
  obtain ⟨tr₁, tr₂, rfl, hw, hj⟩ := h
  obtain ⟨s₁, hr₁, -⟩ := hr.append_inv
  obtain ⟨T, hpooled⟩ := Pooled.run_server h₀ hr₁
  refine ⟨(storageCalls tr₁).filter p, (storageCalls tr₂).filter p, ?_, ?_, ?_⟩
  · rw [storageCalls, List.filterMap_append, List.filter_append]
    rfl
  · rw [Pool.own_filter, own_eq_nil_of_written h₀ hr hw]
    rfl
  · rw [Pool.own_filter, (hpooled.unborn j (by rw [length_jobs h₀ hr₁]; exact hj)).1]
    rfl

end RealTime

/-! ## The device -/

section Device

variable {g : Geometry} {μ τ : Type} [LawfulMinion μ] [IMetadataStore τ] {st₀ : RAIDStorage μ τ g}
  {s : Server (RAIDCall.Answer (g := g)) (RAIDStorage μ τ g)} {tr : List (Action (RAIDCall.Answer (g := g)))}
  {T : Nat → RAIDProg g (Except String (Option DriverData))}

/-- What is left of a request to the device, `q`, is what is left of the storage's part of a command, `p`; other
commands only look something up. -/
def Follows (jobs : List (Job (RAIDCall.Answer (g := g)))) (i : Nat) (q : RAIDProg g DriverData)
    (p : RAIDProg g (Except String (Option DriverData))) : Prop :=
  if onDevice jobs i then p = q >>= fun data => .ret (.ok (some data))
  else Prog.Obeys (.plain (fun _ _ => True) InputMediator.LooksUp True) (fun _ _ => True) () p

theorem follows_programs (jobs : List (Job (RAIDCall.Answer (g := g)))) (i : Nat) :
    Follows jobs i (RAIDStorage.request g (isWrite jobs i) (deviceData jobs i))
      (programs (RAIDStorage.toIStorage g) jobs i) := by
  rw [Follows]
  split
  · rename_i hi
    rw [onDevice, Option.any_map, Option.any_eq_true] at hi
    obtain ⟨job, hj, htype⟩ := hi
    rw [programs, hj, isWrite, deviceData_of_onDevice hj htype]
    exact InputMediator.outcome_onDevice htype
  · rename_i hi
    rw [programs]
    split
    · rename_i job hj
      apply InputMediator.obeys_outcome_lookups
      intro htype
      apply hi
      rw [onDevice, hj]
      exact htype
    · exact .ret trivial

/-- The `READ`s and `WRITE`s of a server are a pool of requests to the device. -/
theorem Pooled.device (h : Pooled RAIDStorage.NoFailures (RAIDStorage.toIStorage g) st₀ tr s T) :
    ∃ Q, Pool.Run RAIDStorage.NoFailures (fun i => RAIDStorage.request g (isWrite s.jobs i) (deviceData s.jobs i)) st₀
        ((storageCalls tr).filter fun e => onDevice s.jobs e.1) Q s.storage ∧
      ∀ i, onDevice s.jobs i → T i = Q i >>= fun data => .ret (.ok (some data)) := by
  have hsim : ∃ Q, Pool.Run RAIDStorage.NoFailures
      (fun i => RAIDStorage.request g (isWrite s.jobs i) (deviceData s.jobs i)) st₀
      ((storageCalls tr).filter fun e => onDevice s.jobs e.1) Q s.storage ∧ ∀ i, Follows s.jobs i (Q i) (T i) := by
    apply h.run.simulate (onDevice s.jobs) (Follows s.jobs) (follows_programs s.jobs)
    · -- a call of a request is one of its command
      intro i q o k hi hrel
      rw [Follows, if_pos hi] at hrel
      cases q with
      | ret data => cases hrel
      | abort => cases hrel
      | call o' k' =>
        cases hrel
        refine ⟨k', rfl, fun a => ?_⟩
        rw [Follows, if_pos hi]
        rfl
    · intro i q o k st a st' hi hrel hR
      have hne : ¬ onDevice s.jobs i = true := by
        rw [hi]
        exact Bool.false_ne_true
      rw [Follows, if_neg hne] at hrel
      obtain ⟨ho, hk⟩ := hrel.call_inv
      refine ⟨ho.eq hR, ?_⟩
      rw [Follows, if_neg hne]
      exact hk a trivial
  obtain ⟨Q, hQ, hrel⟩ := hsim
  refine ⟨Q, hQ, fun i hi => ?_⟩
  have hfollows := hrel i
  rwa [Follows, if_pos hi] at hfollows

/-- What a command has returned is what its request to the device has. -/
theorem eq_ret_of_follows {q : RAIDProg g DriverData} {data : DriverData}
    (h : (q >>= fun data => .ret (.ok (some data))) =
      (.ret (.ok (some data)) : RAIDProg g (Except String (Option DriverData)))) : q = .ret data := by
  cases q with
  | ret data' =>
    cases h
    rfl
  | call o k => cases h
  | abort => cases h

/-- A reply that has begun is what the storage's part of the command has returned. -/
theorem Pooled.exists_reply {R : Environment Op Ans σ} {S : IStorage Op Ans} {A A₁ A₂ : (o : Op) → Ans o → Prop}
    {st₀ : σ} {tr : List (Action Ans)} {s : Server Ans σ} {T : Nat → Prog Op Ans (Except String (Option DriverData))}
    {i : Nat} (hS : S.Keeps A) (hS₁ : S.Fills A₁) (hS₂ : S.Fits A₂)
    (hR : ∀ st o a st', R st o a st' → (A o a ∧ A₁ o a) ∧ A₂ o a) (h : Pooled R S st₀ tr s T)
    (hframe : ∀ job ∈ s.jobs, ∃ (r : TCPDriverComm.RequestFrame) (fd : Int), job.request = r.data fd)
    (hw : written i tr ≠ []) : ∃ data, T i = .ret (.ok (some data)) ∧
      written i tr <+: TCPDriverComm.replyFrame data ∧ ∀ job, s.jobs[i]? = some job → FitReply job.request data := by
  have hlt : i < s.jobs.length := by
    by_contra hge
    exact hw (h.unborn i (Nat.le_of_not_lt hge)).2
  cases h.job i _ (List.getElem?_eq_getElem hlt) with
  | working hnil => exact absurd hnil hw
  | @replying data x p hret hp hx hpre hrest =>
    refine ⟨data, hret, hpre, fun job hj => ?_⟩
    have hT := h.replies hS hS₁ hS₂ hR hframe i
    rw [hret] at hT
    exact (hT.ret_inv job hj data rfl).2

theorem Pooled.mono {R R' : Environment Op Ans σ} {S : IStorage Op Ans} {st₀ : σ} {tr : List (Action Ans)}
    {s : Server Ans σ} {T : Nat → Prog Op Ans (Except String (Option DriverData))} (h : Pooled R S st₀ tr s T)
    (hRR : ∀ st o a st', R st o a st' → R' st o a st') : Pooled R' S st₀ tr s T :=
  ⟨h.run.mono hRR, h.job, h.unborn⟩

/-- What the client of a job is sent of the stripe `k`: a reply, of which the client has had the first bytes at
least; that of a `READ` carries the bytes `b` of the stripe. -/
def Sent (k : Fin g.numPrimary) (jobs : List (Job (RAIDCall.Answer (g := g))))
    (tr : List (Action (RAIDCall.Answer (g := g)))) (reply : Nat → DriverData) (i : Nat) (b : Option (List Byte)) :
    Prop :=
  let c := RAIDStorage.fragment g k (isWrite jobs i) (deviceData jobs i)
  0 < c.len ∧ written i tr ≠ [] ∧ b = if isWrite jobs i then none else some (slice (reply i).buffer c.bufPos c.len)

/-- A job that has something to do with a stripe is a `READ` or a `WRITE`. -/
theorem onDevice_of_fragment {jobs : List (Job Ans)} {k : Fin g.numPrimary} {i : Nat}
    (h : 0 < (RAIDStorage.fragment g k (isWrite jobs i) (deviceData jobs i)).len) : onDevice jobs i = true := by
  by_contra hnot
  unfold RAIDStorage.fragment Geometry.fragment at h
  rw [requestLen_of_not hnot] at h
  simp only at h
  omega

end Device

end Server

/-! ## Linearizability -/

section Linearizable

variable {g : Geometry} {μ τ : Type} [LawfulMinion μ] [IMetadataStore τ]

/-- The answers of the calls when no minion fails, and the metadata fit a reply. -/
def RAIDStorage.Serving : Environment (RAIDCall g) RAIDCall.Answer (RAIDStorage μ τ g) :=
  fun s o a s' => NoFailures s o a s' ∧ Brief o a

theorem RAIDStorage.answered_of_serving (st : RAIDStorage μ τ g) (o : RAIDCall g) (a : o.Answer)
    (st' : RAIDStorage μ τ g) (h : Serving st o a st') : (True ∧ Answered o a) ∧ Brief o a := by
  refine ⟨⟨trivial, ?_⟩, h.2⟩
  cases o with
  | minionRead i offset buf => exact (answers_minionRead h.1.1).2.1
  | _ => trivial

namespace Networked

variable {server₀ : Server (RAIDCall.Answer (g := g)) (RAIDStorage μ τ g)}
  {s : Networked (RAIDCall.Answer (g := g)) (RAIDStorage μ τ g)} {tr : List (NetworkAction (RAIDCall.Answer (g := g)))}

omit [LawfulMinion μ] [IMetadataStore τ] in
/-- The requests to the device are inside it, if the commands are. -/
theorem Framed.inRange {rest : Nat → List Byte} (h : s.Framed tr rest)
    (hin : ∀ job ∈ s.server.jobs, job.request.type.onDevice → g.InRange job.request.offset job.request.len) (i : Nat) :
    g.InRange (Server.deviceData s.server.jobs i).offset
      (RAIDStorage.requestLen (Server.isWrite s.server.jobs i) (Server.deviceData s.server.jobs i)) := by
  by_cases hi : Server.onDevice s.server.jobs i = true
  · rw [Server.onDevice, Option.any_map, Option.any_eq_true] at hi
    obtain ⟨job, hj, htype⟩ := hi
    have hmem := List.mem_of_getElem? hj
    obtain ⟨r, fd, hr⟩ := h.exists_frame hmem
    -- the buffer of a request is as long as its range
    have hlen : job.request.buffer.length = job.request.len := by
      rw [hr]
      exact r.length_buffer fd
    rw [Server.deviceData_of_onDevice hj htype, RAIDStorage.requestLen, hlen, ite_self]
    exact hin job hmem htype
  · rw [Server.requestLen_of_not hi]
    intro hpos
    exact absurd hpos (Nat.lt_irrefl 0)

/-- **The device is linearizable for the clients of the server.** While no minion fails, and the `READ`s and
`WRITE`s that come are inside the device, all of them together, of all connections, can be put in an order for each
stripe: a request that was queued when the reply to another one had begun does not stand before that, and the
reply to a `READ`, which never fails, carries what the `WRITE`s before it have made of the stripe. That holds for
every interleaving of the reactor thread, the workers and the clients, when clients leave, and when writes to their
sockets fail. -/
theorem device_linearizable (h₀ : server₀.Started)
    (hnone : ∀ fd id, server₀.kernel.fds fd ≠ some (.connection id))
    (hr : Trace (Step RAIDStorage.Serving (RAIDStorage.toIStorage g)) (start server₀) tr s)
    (hin : ∀ job ∈ s.server.jobs, job.request.type.onDevice → g.InRange job.request.offset job.request.len) :
    ∃ reply : Nat → DriverData,
      (∀ i job, s.server.jobs[i]? = some job → Server.written i (serverActions tr) ≠ [] →
        FitReply job.request (reply i) ∧
          Server.written i (serverActions tr) <+: TCPDriverComm.replyFrame (reply i) ∧
          (job.request.type = .read → (reply i).status = .success)) ∧
      ∀ k, ∃ order, (RAIDStorage.stripeMachine g k (Server.isWrite s.server.jobs)
          (Server.deviceData s.server.jobs)).Linearization server₀.storage.device
        (Server.Precedes (serverActions tr))
        (fun i => 0 < (RAIDStorage.fragment g k (Server.isWrite s.server.jobs i)
          (Server.deviceData s.server.jobs i)).len)
        (Server.Sent k s.server.jobs (serverActions tr) reply) order := by
  obtain ⟨rest, hf⟩ := Framed.run h₀ hnone hr
  have hsr := trace_server hr
  obtain ⟨T, hpooled⟩ := Server.Pooled.run_server h₀.jobs hsr
  have hexists : ∀ i, ∃ data, Server.written i (serverActions tr) ≠ [] → T i = .ret (.ok (some data)) ∧
      Server.written i (serverActions tr) <+: TCPDriverComm.replyFrame data ∧
      ∀ job, s.server.jobs[i]? = some job → FitReply job.request data := by
    intro i
    by_cases hw : Server.written i (serverActions tr) = []
    · exact ⟨.ofRead 0 0 0, fun hne => absurd hw hne⟩
    · obtain ⟨data, hdata⟩ := hpooled.exists_reply (RAIDStorage.keeps g) (RAIDStorage.fills g) (RAIDStorage.fits g)
        RAIDStorage.answered_of_serving (fun job hmem => hf.exists_frame hmem) hw
      exact ⟨data, fun _ => hdata⟩
  choose reply hreply using hexists
  obtain ⟨Q, hQ, hfollow⟩ := (hpooled.mono fun _ _ _ _ h => h.1).device
  have hQ' : ∀ i, Server.onDevice s.server.jobs i = true → Server.written i (serverActions tr) ≠ [] →
      Q i = .ret (reply i) :=
    fun i hi hw => Server.eq_ret_of_follows ((hfollow i hi).symm.trans (hreply i hw).1)
  have hrange := fun i => hf.inRange hin i
  refine ⟨reply, fun i job hj hw => ⟨(hreply i hw).2.2 job hj, (hreply i hw).2.1, fun hread => ?_⟩, fun k => ?_⟩
  · have htype : job.request.type.onDevice = true := by
      rw [hread]
      rfl
    have hi : Server.onDevice s.server.jobs i = true := by
      rw [Server.onDevice, hj]
      exact htype
    refine ((RAIDStorage.run_done hrange hQ (hQ' i hi hw)).2 ?_).2
    rw [Server.isWrite, Server.deviceData_of_onDevice hj htype, hread]
    rfl
  · refine ⟨_, (RAIDStorage.linearization hrange hQ k).mono (fun i j h => h.storage h₀.jobs hsr _) (fun _ h => h) ?_⟩
    rintro i b ⟨hlen, hw, hb⟩
    exact ⟨hlen, reply i, hQ' i (Server.onDevice_of_fragment hlen) hw, hb⟩

end Networked

end Linearizable

/-! ## Runs by a function -/

instance {g : Geometry} : (o : RAIDCall g) → (a : o.Answer) → Decidable (RAIDStorage.Brief o a)
  | .getDataSize _, a => inferInstanceAs (Decidable (a < 2 ^ 32))
  | .listOffsets, a => inferInstanceAs (Decidable (16 * a.length < 2 ^ 32))
  | .minionRead _ _ _, _ => .isTrue trivial
  | .minionWrite _ _ _, _ => .isTrue trivial
  | .recordSize _ _, _ => .isTrue trivial

namespace RAIDStorage

variable {g : Geometry} {μ τ : Type} [LawfulMinion μ] [IMetadataStore τ]

/-- The storage, as long as no minion fails and the metadata fit a reply. -/
def servingHandler : Prog.Handler (RAIDCall g) RAIDCall.Answer (RAIDStorage μ τ g) := fun o s =>
  (handler o s).filter fun r => decide (Succeeds o r.1 ∧ Brief o r.1)

theorem serving_of_handler {s s' : RAIDStorage μ τ g} {o : RAIDCall g} {a : o.Answer}
    (h : servingHandler o s = some (a, s')) : Serving s o a s' := by
  obtain ⟨ho, hserves⟩ := Option.filter_eq_some_iff.mp h
  obtain ⟨hok, hbrief⟩ := of_decide_eq_true hserves
  exact ⟨⟨.own ho, hok⟩, hbrief⟩

end RAIDStorage

namespace Networked

/-- The steps in the order of a schedule: an action, or the next call of a worker to the storage. -/
def execWith (h : Prog.Handler Op Ans σ) (S : IStorage Op Ans) (s : Networked Ans σ) :
    NetworkAction Ans ⊕ Nat → Option (Networked Ans σ)
  | .inl act => s.exec S act
  | .inr i => (s.server.execStorage h i).map fun server => { s with server := server }

/-- A schedule is a run, which writes what its actions write. -/
theorem trace_of_execWith {R : Environment Op Ans σ} {S : IStorage Op Ans} {h : Prog.Handler Op Ans σ}
    (hR : ∀ s o a s', h o s = some (a, s') → R s o a s') {sched : List (NetworkAction Ans ⊕ Nat)}
    {s s' : Networked Ans σ} (he : execAll (execWith h S) sched s = some s') :
    ∃ tr, Trace (Step R S) s tr s' ∧ ∀ i, Server.written i (serverActions tr) =
      Server.written i (serverActions (sched.filterMap Sum.getLeft?)) := by
  induction sched generalizing s with
  | nil =>
    obtain rfl := Option.some.inj he
    exact ⟨[], .nil, fun _ => rfl⟩
  | cons x sched ih =>
    obtain ⟨s₁, h₁, he⟩ := Option.bind_eq_some_iff.mp he
    obtain ⟨tr, hr, hw⟩ := ih he
    cases x with
    | inl act =>
      refine ⟨act :: tr, .cons (step_of_exec R h₁) hr, fun i => ?_⟩
      change Server.written i (serverActions ([act] ++ tr)) =
        Server.written i (serverActions ([act] ++ sched.filterMap Sum.getLeft?))
      simp only [serverActions, Server.written, List.filterMap_append, List.flatMap_append]
      exact congrArg _ (hw i)
    | inr i =>
      -- the handler gives the answer of the storage
      obtain ⟨server, hserver, rfl⟩ := Option.map_eq_some_iff.mp h₁
      obtain ⟨e, hs⟩ := Server.step_of_execStorage hR hserver
      exact ⟨.server (.storage i e) :: tr, .cons (.server rfl hs) hr, hw⟩

/-- The header of a `WRITE` of one byte at offset 0, with handle 1. -/
def writeHeader : List Byte := bigEndian 4 1 ++ bigEndian 8 1 ++ bigEndian 8 0 ++ bigEndian 4 1

/-- A `READ` of one byte at offset 0, with handle 2. -/
def readHeader : List Byte := bigEndian 4 0 ++ bigEndian 8 2 ++ bigEndian 8 0 ++ bigEndian 4 1

theorem length_writeHeader_le : writeHeader.length ≤ 24 := by decide

theorem length_readHeader_le : readHeader.length ≤ 24 := by decide

theorem length_payload_le : ([7] : List Byte).length ≤ 1 := by decide

/-- Two clients connect; one of them sends a `WRITE`, the other one a `READ`, and both requests are queued. -/
def writeAndRead : List (NetworkAction (RAIDCall.Answer (g := ⟨1, 4, Nat.one_pos⟩))) :=
  connects 4 "10.0.0.1" ++ connects 5 "10.0.0.2" ++
    [.arrive 0 (writeHeader ++ [7]), .arrive 1 readHeader,
      .server (.event 4), .server (.reactor ⟨.read 4 24, .ok ⟨writeHeader, length_writeHeader_le⟩⟩),
      .server (.reactor ⟨.read 4 1, .ok ⟨[7], length_payload_le⟩⟩),
      .server (.reactor ⟨.updateAllocation 0 [7], ()⟩), .server (.reactor ⟨.saveAllocations, ()⟩),
      .server (.reactor ⟨.addCommand { DriverData.new .write 1 0 1 with buffer := [7], sourceFd := 4 }, ()⟩),
      .server (.event 5), .server (.reactor ⟨.read 5 24, .ok ⟨readHeader, length_readHeader_le⟩⟩),
      .server (.reactor ⟨.addCommand { DriverData.new .read 2 0 1 with buffer := [0], sourceFd := 5 }, ()⟩)]

/-- The frame of the reply to the `READ`. -/
def readReply : List Byte := bigEndian 4 0 ++ bigEndian 8 2 ++ bigEndian 4 1

/-- The frame of the reply to the `WRITE`. -/
def writeReply : List Byte := bigEndian 4 0 ++ bigEndian 8 1 ++ bigEndian 4 0

/-- The `READ` comes between the two copies of the `WRITE`, and is answered before it. -/
def betweenCopies : List (NetworkAction (RAIDCall.Answer (g := ⟨1, 4, Nat.one_pos⟩)) ⊕ Nat) :=
  writeAndRead.map .inl ++ [.inr 0, .inr 1,
    .inl (.server (.worker 1 ⟨.write 5 readReply, .ok (Fin.last _)⟩)),
    .inl (.server (.worker 1 ⟨.write 5 [7], .ok (Fin.last _)⟩)), .inr 0, .inr 0,
    .inl (.server (.worker 0 ⟨.write 4 writeReply, .ok (Fin.last _)⟩))]

/-- A client gets the byte that the other one writes, before that has its reply: the `WRITE` comes first in the
order of the stripe. -/
theorem device_linearizable_between_copies : ∃ tr s,
    Trace (Step RAIDStorage.Serving (RAIDStorage.toIStorage _)) (start Server.small) tr s ∧
      Server.written 0 (serverActions tr) = writeReply ∧
      Server.written 1 (serverActions tr) = readReply ++ [7] ∧
      ∃ reply : Nat → DriverData,
        (∀ i job, s.server.jobs[i]? = some job → Server.written i (serverActions tr) ≠ [] →
          FitReply job.request (reply i) ∧
            Server.written i (serverActions tr) <+: TCPDriverComm.replyFrame (reply i) ∧
            (job.request.type = .read → (reply i).status = .success)) ∧
        ∀ k, ∃ order, (RAIDStorage.stripeMachine _ k (Server.isWrite s.server.jobs)
            (Server.deviceData s.server.jobs)).Linearization Server.small.storage.device
          (Server.Precedes (serverActions tr))
          (fun i => 0 < (RAIDStorage.fragment _ k (Server.isWrite s.server.jobs i)
            (Server.deviceData s.server.jobs i)).len)
          (Server.Sent k s.server.jobs (serverActions tr) reply) order := by
  have hexec : (execAll (execWith RAIDStorage.servingHandler (RAIDStorage.toIStorage _)) betweenCopies
      (start Server.small)).map (fun s => decide (∀ job ∈ s.server.jobs, job.request.offset + job.request.len ≤ 4)) =
        some true := by
    decide +kernel
  obtain ⟨s, he, hs⟩ := Option.map_eq_some_iff.mp hexec
  have hin := of_decide_eq_true hs
  obtain ⟨tr, hrun, hw⟩ := trace_of_execWith (R := RAIDStorage.Serving)
    (fun _ _ _ _ => RAIDStorage.serving_of_handler) he
  exact ⟨tr, s, hrun, (hw 0).trans (by decide), (hw 1).trans (by decide),
    device_linearizable (Server.started_start ..) (Server.not_connection_start _ _ _) hrun fun job hmem _ =>
      Geometry.inRange_of_le (by decide) (hin job hmem)⟩

end Networked

end LDS
