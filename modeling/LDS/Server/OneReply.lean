import LDS.Server.InputMediator
import LDS.Storage.Outcomes

/-!
# One request, one reply

A command answers its request at the end of its handler. What comes before may leave it without a reply:
the table of handlers throws for a code without an enumerator, `LocalStorage` throws beyond its bounds,
and the worker drops both exceptions; a call may be undefined, or divide by zero. Everywhere else a command
sends one reply.

## Main definitions

* `InputMediator.Serves R`: what the calls of commands do
* `InputMediator.replies tr`: the replies of a command
* `InputMediator.Backend`: a storage with what its calls do and when it has done its work
* `InputMediator.Backend.OneReply B s₀ request`: the request gets one reply, in every run

## Main results

* `InputMediator.Backend.oneReply_of_serving`: the reply of a command whose storage comes back
* `InputMediator.oneReply_iff`: which requests get one reply
-/

namespace LDS

open Memory

/-- The code of the action has an enumerator; any other one has no handler. -/
def ActionType.Named : ActionType → Prop
  | .other _ => False
  | _ => True

/-- The action moves bytes. -/
def ActionType.Moves : ActionType → Prop
  | .read => True
  | .write => True
  | _ => False

namespace InputMediator

/-! ## Runs of commands -/

section Commands

variable {Op : Type} {Ans : Op → Type} {σ : Type}

/-- What the calls of commands do, over a storage that answers as `R` says: a reply is written, or it is
not, and the storage stays as it is. -/
inductive Serves (R : Environment Op Ans σ) : Environment (CommandCall Op) (CommandCall.Answer Ans) σ
  | storage {s s' : σ} {o : Op} {a : Ans o} (h : R s o a s') : Serves R s (.storage o) a s'
  | sendReply {s : σ} {data : DriverData} {a : Except String Unit} : Serves R s (.sendReply data) a s

/-- The reply that a call sends. -/
def reply? : Exchange (CommandCall Op) (CommandCall.Answer Ans) → Option DriverData
  | ⟨.sendReply data, _⟩ => some data
  | ⟨.storage _, _⟩ => none

/-- What a call of the storage was answered. -/
def storageCall? : Exchange (CommandCall Op) (CommandCall.Answer Ans) → Option (Exchange Op Ans)
  | ⟨.sendReply _, _⟩ => none
  | ⟨.storage o, a⟩ => some ⟨o, a⟩

/-- The replies of a command. -/
def replies (tr : List (Exchange (CommandCall Op) (CommandCall.Answer Ans))) : List DriverData :=
  tr.filterMap reply?

/-- The calls that a command has made to the storage. -/
def storageCalls (tr : List (Exchange (CommandCall Op) (CommandCall.Answer Ans))) :
    List (Exchange Op Ans) := tr.filterMap storageCall?

/-- A call of the storage, as one of a command. -/
def ofStorage (e : Exchange Op Ans) : Exchange (CommandCall Op) (CommandCall.Answer Ans) :=
  ⟨.storage e.1, e.2⟩

variable {tr tr' : List (Exchange (CommandCall Op) (CommandCall.Answer Ans))}

theorem replies_append : replies (tr ++ tr') = replies tr ++ replies tr' := List.filterMap_append

theorem storageCalls_append :
    storageCalls (tr ++ tr') = storageCalls tr ++ storageCalls tr' := List.filterMap_append

@[simp] theorem replies_map_ofStorage (tr : List (Exchange Op Ans)) :
    replies (tr.map ofStorage) = [] := by
  simp [replies, List.filterMap_map, Function.comp_def, ofStorage, reply?]

@[simp] theorem storageCalls_map_ofStorage (tr : List (Exchange Op Ans)) :
    storageCalls (tr.map ofStorage) = tr := by
  simp [storageCalls, List.filterMap_map, Function.comp_def, ofStorage, storageCall?]

/-- Calls of the storage are no reply. -/
theorem ne_map_ofStorage (tr : List (Exchange (CommandCall Op) (CommandCall.Answer Ans)))
    (data : DriverData) (a : Except String Unit) (tr' : List (Exchange Op Ans)) :
    tr ++ [⟨.sendReply data, a⟩] ≠ tr'.map ofStorage := by
  intro h
  have hreplies := congrArg replies h
  rw [replies_append, replies_map_ofStorage] at hreplies
  cases (List.append_eq_nil_iff.mp hreplies).2

end Commands

/-- A storage behind the mediator: its members, what its calls answer in a run, what they answer by
themselves if they are defined, and when the calls of a request have carried out its operation. -/
structure Backend (Op : Type) (Ans : Op → Type) (σ : Type) where
  members : IStorage Op Ans
  answers : Environment Op Ans σ
  handler : Prog.Handler Op Ans σ
  CarriedOut : DriverData → List (Exchange Op Ans) → Prop

namespace Backend

variable {Op : Type} {Ans : Op → Type} {σ : Type} (B : Backend Op Ans σ)

/-- In every run of any requests, the command of `request` comes to its end, and has then sent one reply,
which is that of the request, and `FAILURE` if the operation was not carried out. -/
def OneReply (s₀ : σ) (request : DriverData) : Prop :=
  ∀ (requests : Nat → DriverData) (i : Nat) tr T s, requests i = request →
    Pool.Run (Serves B.answers) (fun t => command B.members (requests t)) s₀ tr T s →
    T i ≠ .abort ∧ (∀ o k, T i = .call (.storage o) k → B.handler o s ≠ none) ∧
    ∀ r, T i = .ret r → ∃ data, replies (Pool.own i tr) = [data] ∧ SameRequest request data ∧
      (¬ B.CarriedOut request (storageCalls (Pool.own i tr)) → data.status = .failure)

/-- While others run in states that satisfy `I`, a member of the storage makes no call but those in
`defined`, and the reply to what it comes back with is that of the request, which has failed if it was not
carried out. -/
structure Serving (I : σ → Prop) (defined : Op → Prop) (request : DriverData) {α : Type}
    (p : Prog Op Ans α) (f : α → CommandProg Ans (Except String Unit)) : Prop where
  goes : ∀ tr q, Steps (Interfered B.answers I) p () tr q () →
    q ≠ .abort ∧ ∀ o k, q = .call o k → defined o
  returns : ∀ tr v, Steps (Interfered B.answers I) p () tr (.ret v) () →
    ∃ data, f v = sendReply data ∧ SameRequest request data ∧
      (¬ B.CarriedOut request tr → data.status = .failure)

/-- What a command has done so far, and where it has come to, is on the way to the one reply. -/
structure OnItsWay (defined : Op → Prop) (request : DriverData)
    (tr : List (Exchange (CommandCall Op) (CommandCall.Answer Ans)))
    (q : CommandProg Ans (Except String Unit)) : Prop where
  ne_abort : q ≠ .abort
  defined : ∀ o k, q = .call (.storage o) k → defined o
  replied : ∀ r, q = .ret r → ∃ data, replies tr = [data] ∧ SameRequest request data ∧
    (¬ B.CarriedOut request (storageCalls tr) → data.status = .failure)

variable {B} {I : σ → Prop} {defined : Op → Prop} {request : DriverData}

/-- A call of a command to the storage is one of the storage's own. -/
theorem interfered_storage {o : Op} {a : Ans o}
    (h : Interfered (Serves B.answers) I () (.storage o) a ()) : Interfered B.answers I () o a () := by
  obtain ⟨s, s', hI, hs⟩ := h
  cases hs with
  | storage h => exact ⟨s, s', hI, h⟩

/-- A command that begins with a member of the storage is inside it, or has come back from it. -/
theorem callStorage_bind_inv {α β : Type} {p : Prog Op Ans α} {f : α → CommandProg Ans β}
    {q : CommandProg Ans β} {tr : List (Exchange (CommandCall Op) (CommandCall.Answer Ans))}
    (hs : Steps (Interfered (Serves B.answers) I) (callStorage p >>= f) () tr q ()) :
    (∃ p' tr', Steps (Interfered B.answers I) p () tr' p' () ∧ tr = tr'.map ofStorage ∧
      q = callStorage p' >>= f) ∨
    ∃ v tr' tr₂, Steps (Interfered B.answers I) p () tr' (.ret v) () ∧
      tr = tr'.map ofStorage ++ tr₂ ∧ Steps (Interfered (Serves B.answers) I) (f v) () tr₂ q () := by
  -- what has run of a lifted program has run of the program
  have hlift : ∀ {tr : List (Exchange (CommandCall Op) (CommandCall.Answer Ans))} {r : CommandProg Ans α},
      Steps (Interfered (Serves B.answers) I) (callStorage p) () tr r () → ∃ p' tr',
        r = callStorage p' ∧ tr = tr'.map ofStorage ∧ Steps (Interfered B.answers I) p () tr' p' () := by
    intro tr r hr
    obtain ⟨p', tr', hq, htr, hp⟩ := hr.lift_inv
    exact ⟨p', tr', hq, htr, hp.mono fun _ _ _ _ h => interfered_storage h⟩
  rcases hs.bind_inv with ⟨r, hr, rfl⟩ | ⟨v, ⟨⟩, tr₁, tr₂, rfl, hr, hf⟩
  · obtain ⟨p', tr', rfl, rfl, hp⟩ := hlift hr
    exact .inl ⟨p', tr', hp, rfl, rfl⟩
  · obtain ⟨p', tr', hq, rfl, hp⟩ := hlift hr
    cases p' with
    | ret w =>
      obtain rfl := Prog.ret.inj hq
      exact .inr ⟨v, tr', tr₂, hp, rfl, hf⟩
    | call o k => cases hq
    | abort => cases hq

/-- The reply comes after the calls to the storage. -/
theorem onItsWay_sendReply {data : DriverData} {tr' : List (Exchange Op Ans)}
    (hdata : SameRequest request data) (hfailed : ¬ B.CarriedOut request tr' → data.status = .failure)
    {tr : List (Exchange (CommandCall Op) (CommandCall.Answer Ans))}
    {q : CommandProg Ans (Except String Unit)}
    (hs : Steps (Interfered (Serves B.answers) I) (sendReply data) () tr q ()) :
    B.OnItsWay defined request (tr'.map ofStorage ++ tr) q := by
  rcases hs.call_inv with ⟨rfl, rfl, -⟩ | ⟨a, ⟨⟩, tr₁, rfl, -, hs⟩
  · exact ⟨nofun, nofun, nofun⟩
  · obtain ⟨rfl, rfl, -⟩ := hs.ret_inv
    refine ⟨nofun, nofun, fun r _ => ⟨data, ?_, hdata, fun h => hfailed fun hc => h ?_⟩⟩
    · rw [replies_append, replies_map_ofStorage]
      rfl
    · rw [storageCalls_append, storageCalls_map_ofStorage]
      exact (List.append_nil tr').symm ▸ hc

/-- A command whose storage comes back. -/
theorem Serving.onItsWay {α : Type} {p : Prog Op Ans α} {f : α → CommandProg Ans (Except String Unit)}
    (h : B.Serving I defined request p f)
    {tr : List (Exchange (CommandCall Op) (CommandCall.Answer Ans))}
    {q : CommandProg Ans (Except String Unit)}
    (hs : Steps (Interfered (Serves B.answers) I) (callStorage p >>= f) () tr q ()) :
    B.OnItsWay defined request tr q := by
  rcases callStorage_bind_inv hs with ⟨p', tr', hp, rfl, rfl⟩ | ⟨v, tr', tr₂, hp, rfl, hf⟩
  · -- the command is still in the member of the storage
    obtain ⟨habort, hdefined⟩ := h.goes tr' p' hp
    cases p' with
    | ret v =>
      obtain ⟨data, hv, -⟩ := h.returns tr' v hp
      change B.OnItsWay defined request _ (f v)
      rw [hv]
      exact ⟨nofun, nofun, nofun⟩
    | call o k =>
      refine ⟨nofun, fun o' k' hq => ?_, nofun⟩
      have ho : o = o' := by
        have := Prog.call.inj hq
        exact CommandCall.storage.inj this.1
      exact ho ▸ hdefined o k rfl
    | abort => exact absurd rfl habort
  · -- the member has returned, and the reply is next
    obtain ⟨data, hv, hdata, hfailed⟩ := h.returns tr' v hp
    rw [hv] at hf
    exact onItsWay_sendReply hdata hfailed hf

/-- A command that is always on its way gets one reply. -/
theorem oneReply_of_onItsWay {s₀ : σ} (hI : ∀ s o a s', B.answers s o a s' → I s → I s') (h₀ : I s₀)
    (hdef : ∀ s o, I s → defined o → B.handler o s ≠ none)
    (h : ∀ tr q, Steps (Interfered (Serves B.answers) I) (command B.members request) () tr q () →
      B.OnItsWay defined request tr q) : B.OneReply s₀ request := by
  intro requests i tr T s hi hr
  have hI' : ∀ s o a s', Serves B.answers s o a s' → I s → I s' := by
    intro s o a s' hs hIs
    cases hs with
    | storage hs => exact hI _ _ _ _ hs hIs
    | sendReply => exact hIs
  -- each command takes its steps under the interference of the others
  obtain ⟨hIs, hsteps⟩ := hr.steps hI' h₀
  have hstep := hsteps i
  simp only [hi] at hstep
  obtain ⟨habort, hdefined, hreplied⟩ := h _ _ hstep
  exact ⟨habort, fun o k hq => hdef s o hIs (hdefined o k hq), hreplied⟩

/-- The reply to what `Read` or `Write` comes back with; an exception leaves the handler. -/
def replyTo : Except String DriverData → CommandProg Ans (Except String Unit)
  | .error what => return .error what
  | .ok request => sendReply request

variable (I defined) in
/-- **One reply** for a request whose member of the storage comes back. -/
theorem oneReply_of_serving {s₀ : σ} (hI : ∀ s o a s', B.answers s o a s' → I s → I s') (h₀ : I s₀)
    (hdef : ∀ s o, I s → defined o → B.handler o s ≠ none) (hnamed : request.type.Named)
    (hconnected : request.type ≠ .disconnect)
    (hread : request.type = .read → B.Serving I defined request (B.members.read request) replyTo)
    (hwrite : request.type = .write → B.Serving I defined request (B.members.write request) replyTo)
    (hsize : request.type = .getSize → B.Serving I defined request
      (B.members.getDataSize request.offset)
      fun len => sendReply { request with len := len, status := .success })
    (hlist : request.type = .listOffsets → B.Serving I defined request B.members.listOffsets
      fun offsets => sendReply { request with
        buffer := packOffsets offsets
        len := (packOffsets offsets).length
        status := .success })
    (hdone : request.type = .flush ∨ request.type = .trim → ∀ tr, B.CarriedOut request tr) :
    B.OneReply s₀ request := by
  apply oneReply_of_onItsWay hI h₀ hdef
  intro tr q hs
  have hsame : SameRequest request { request with status := .success } := ⟨rfl, rfl, rfl, rfl⟩
  -- `FLUSH` and `TRIM` ask nothing of the storage
  have hreply : ∀ {tr q}, Steps (Interfered (Serves B.answers) I)
      (sendReply { request with status := .success }) () tr q () → (∀ tr, B.CarriedOut request tr) →
      B.OnItsWay defined request tr q := fun hs hcarried =>
    onItsWay_sendReply hsame (fun h => absurd (hcarried []) h) hs
  rw [command] at hs
  cases ht : request.type with
  | read =>
    rw [ht] at hs
    exact (hread ht).onItsWay hs
  | write =>
    rw [ht] at hs
    exact (hwrite ht).onItsWay hs
  | disconnect => exact absurd ht hconnected
  | flush =>
    rw [ht] at hs
    exact hreply hs (hdone (.inl ht))
  | trim =>
    rw [ht] at hs
    exact hreply hs (hdone (.inr ht))
  | getSize =>
    rw [ht] at hs
    exact (hsize ht).onItsWay hs
  | listOffsets =>
    rw [ht] at hs
    exact (hlist ht).onItsWay hs
  -- the table has no such handler
  | other code =>
    rw [ht] at hnamed
    exact hnamed.elim

/-- A contract says which calls a member makes. -/
theorem goes_of_obeys {α : Type} {p : Prog Op Ans α} {A : (o : Op) → Ans o → Prop} {Q : Unit → α → Prop}
    (hA : ∀ o a, Interfered B.answers I () o a () → A o a)
    (hp : Prog.Obeys (.plain A defined False) Q () p) {tr : List (Exchange Op Ans)} {q : Prog Op Ans α}
    (hs : Steps (Interfered B.answers I) p () tr q ()) :
    q ≠ .abort ∧ ∀ o k, q = .call o k → defined o := by
  obtain ⟨_, hq⟩ := hs.obeys (fun _ o a _ h _ => hA o a h) hp
  refine ⟨?_, ?_⟩
  · rintro rfl
    exact hq.abort_inv
  · rintro o k rfl
    exact hq.call_inv.1

/-- A member that is one call. -/
theorem serving_call {o : Op} {f : Ans o → CommandProg Ans (Except String Unit)} (ho : defined o)
    (hreturns : ∀ a, Interfered B.answers I () o a () →
      ∃ data, f a = sendReply data ∧ SameRequest request data ∧
        (¬ B.CarriedOut request [⟨o, a⟩] → data.status = .failure)) :
    B.Serving I defined request (.call o .ret) f where
  goes tr q hs := by
    rcases hs.call_inv with ⟨-, rfl, -⟩ | ⟨a, ⟨⟩, tr₁, -, -, hs⟩
    · refine ⟨nofun, fun o' k hq => ?_⟩
      -- the call is still to be made
      obtain ⟨rfl, -⟩ := Prog.call.inj hq
      exact ho
    · obtain ⟨-, rfl, -⟩ := hs.ret_inv
      exact ⟨nofun, nofun⟩
  returns tr w hs := by
    obtain ⟨a, ⟨⟩, tr₁, rfl, ha, hs⟩ := hs.call_ret_inv
    obtain ⟨rfl, hq, -⟩ := hs.ret_inv
    obtain rfl := Prog.ret.inj hq
    exact hreturns w ha

/-! ## Requests without a reply -/

/-- What a command alone comes to, in the run where nothing else does anything. -/
theorem OneReply.of_steps {s₀ s : σ} (h : B.OneReply s₀ request)
    {tr : List (Exchange (CommandCall Op) (CommandCall.Answer Ans))}
    {q : CommandProg Ans (Except String Unit)}
    (hs : Steps (Serves B.answers) (command B.members request) s₀ tr q s) :
    q ≠ .abort ∧ (∀ o k, q = .call (.storage o) k → B.handler o s ≠ none) ∧
      ∀ r, q = .ret r → replies tr ≠ [] := by
  -- a run in which no other command takes a step
  have hrun : Pool.Run (Serves B.answers) (fun _ : Nat => command B.members request) s₀ _ _ s :=
    .of_steps (i := 0) hs
  obtain ⟨habort, hdefined, hreplied⟩ := h (fun _ => request) 0 _ _ _ rfl hrun
  rw [Function.update_self] at habort hdefined hreplied
  refine ⟨habort, hdefined, fun r hr hnil => ?_⟩
  obtain ⟨data, hdata, -⟩ := hreplied r hr
  have hown : Pool.own 0 (tr.map ((0 : Nat), ·)) = tr := by
    simp [Pool.own, List.filterMap_map]
  rw [hown, hnil] at hdata
  cases hdata

/-- What a member of the storage does, a command does that begins with it. -/
theorem steps_callStorage {R : Environment Op Ans σ} {α β : Type} {p q : Prog Op Ans α} {s s' : σ}
    {tr : List (Exchange Op Ans)} (hs : Steps R p s tr q s') (f : α → CommandProg Ans β) :
    Steps (Serves R) (callStorage p >>= f) s (tr.map ofStorage) (callStorage q >>= f) s' := by
  induction hs with
  | refl => exact .refl _ _
  | call hR _ ih => exact .call (.storage hR) ih

/-- The member of the storage that a command begins with has a result. -/
theorem OneReply.run_ne_none {s₀ : σ} (h : B.OneReply s₀ request) {α : Type} {p : Prog Op Ans α}
    {f : α → CommandProg Ans (Except String Unit)} (hcommand : command B.members request = callStorage p >>= f)
    (hh : ∀ s o a s', B.handler o s = some (a, s') → B.answers s o a s') : p.run B.handler s₀ ≠ none := by
  intro hnone
  obtain ⟨tr, q, s', hs, hq⟩ := Steps.of_run_none hh hnone
  have hsteps := steps_callStorage hs f
  rw [← hcommand] at hsteps
  obtain ⟨habort, hdefined, -⟩ := h.of_steps hsteps
  rcases hq with rfl | ⟨o, k, rfl, hundefined⟩
  · exact habort rfl
  · exact hdefined o _ rfl hundefined

/-- The one call of a command to the storage has not thrown. -/
theorem OneReply.returns {s₀ s : σ} (h : B.OneReply s₀ request) {o : Op} {a : Ans o} {what : String}
    {k : Ans o → CommandProg Ans (Except String Unit)}
    (hcommand : command B.members request = .call (.storage o) k) (ha : B.answers s₀ o a s)
    (hk : k a = .ret (.error what)) : False := by
  have hs : Steps (Serves B.answers) (command B.members request) s₀ [⟨.storage o, a⟩] (k a) s := by
    rw [hcommand]
    exact .call (.storage ha) (.refl _ _)
  exact (h.of_steps hs).2.2 _ hk rfl

/-- The table has no handler for the code, and throws. -/
theorem named_of_oneReply {s₀ : σ} (h : B.OneReply s₀ request) : request.type.Named := by
  cases ht : request.type with
  | other code =>
    have hcommand : command B.members request = .ret (.error "map::at") := by
      rw [command, ht]
      rfl
    have hs : Steps (Serves B.answers) (command B.members request) s₀ [] (.ret (.error "map::at")) s₀ := by
      rw [hcommand]
      exact .refl _ _
    exact absurd rfl ((h.of_steps hs).2.2 _ rfl)
  | _ => trivial

/-! ## `LocalStorage` -/

/-- `LocalStorage` behind the mediator. -/
def localStorage : Backend LocalCall LocalCall.Answer LocalStorage where
  members := LocalStorage.toIStorage
  answers s o a s' := LocalStorage.handler o s = some (a, s')
  handler := LocalStorage.handler
  CarriedOut request tr := match request.type with
    | .read => ∃ data, ⟨.read request, .ok data⟩ ∈ tr
    | .write => ∃ data, ⟨.write request, .ok data⟩ ∈ tr
    | _ => True

/-- The range of the call lies inside an array of `n` bytes. -/
def InArray (n : Nat) : LocalCall → Prop
  | .read data => data.offset + data.buffer.length ≤ n
  | .write data => data.offset + data.buffer.length ≤ n
  | _ => True

variable {n : Nat} {ls ls' : LocalStorage}

/-- What a `Read` and a `Write` inside the array are answered. -/
theorem localStorage_answers (data : DriverData) (hn : n < 2 ^ 64) (hl : ls.storage.length = n)
    (hb : data.offset + data.buffer.length ≤ n) :
    (∃ data', LocalStorage.handler (.read data) ls = some (.ok data', ls) ∧ SameRequest data data') ∧
      ∃ ls', LocalStorage.handler (.write data) ls = some (.ok data, ls') ∧
        ls'.storage.length = n := by
  have hfit : data.offset + data.buffer.length ≤ ls.storage.length := by omega
  have hguard : ¬ addSize data.offset data.buffer.length > ls.storage.length := not_addSize_gt hfit (by omega)
  constructor
  · refine ⟨{ data with buffer := slice ls.storage data.offset data.buffer.length }, ?_,
      ⟨rfl, rfl, rfl, rfl⟩⟩
    simp only [LocalStorage.handler, LocalStorage.read, if_neg hguard, if_pos hfit]
  · refine ⟨{ storage := overwrite ls.storage data.offset data.buffer
              offsetSizes := ls.offsetSizes.insert data.offset data.buffer.length }, ?_,
      (length_overwrite hfit).trans hl⟩
    simp only [LocalStorage.handler, LocalStorage.write, if_neg hguard, if_pos hfit]

/-- The array keeps its length. -/
theorem length_storage_of_handler {o : LocalCall} {a : o.Answer}
    (h : LocalStorage.handler o ls = some (a, ls')) : ls'.storage.length = ls.storage.length := by
  cases o with
  | read data =>
    rcases LocalStorage.read_cases ls data with ⟨-, hr⟩ | ⟨-, -, hr⟩ | ⟨-, -, hr⟩ <;>
      simp only [LocalStorage.handler, hr] at h
    · rw [(Prod.mk.inj (Option.some.inj h)).2]
    · cases h
    · rw [(Prod.mk.inj (Option.some.inj h)).2]
  | write data =>
    rcases LocalStorage.write_cases ls data with ⟨-, hw⟩ | ⟨-, -, hw⟩ | ⟨-, hfit, hw⟩ <;>
      simp only [LocalStorage.handler, hw] at h
    · rw [(Prod.mk.inj (Option.some.inj h)).2]
    · cases h
    · rw [← (Prod.mk.inj (Option.some.inj h)).2]
      exact length_overwrite hfit
  | getDataSize offset => rw [(Prod.mk.inj (Option.some.inj h)).2]
  | listOffsets => rw [(Prod.mk.inj (Option.some.inj h)).2]

theorem handler_inArray (hn : n < 2 ^ 64) (hl : ls.storage.length = n) {o : LocalCall}
    (ho : InArray n o) : LocalStorage.handler o ls ≠ none := by
  cases o with
  | read data =>
    obtain ⟨⟨data', h, -⟩, -⟩ := localStorage_answers data hn hl ho
    rw [h]
    nofun
  | write data =>
    obtain ⟨-, ls', h, -⟩ := localStorage_answers data hn hl ho
    rw [h]
    nofun
  | getDataSize offset => nofun
  | listOffsets => nofun

/-- A request inside the array. -/
theorem oneReply_localStorage (hn : ls.storage.length < 2 ^ 64) (hnamed : request.type.Named)
    (hconnected : request.type ≠ .disconnect)
    (hb : request.type.Moves → request.offset + request.buffer.length ≤ ls.storage.length) :
    localStorage.OneReply ls request := by
  refine oneReply_of_serving (fun s => s.storage.length = ls.storage.length)
    (InArray ls.storage.length) (fun s o a s' h hs => (length_storage_of_handler h).trans hs)
    rfl (fun s o hs ho => handler_inArray hn hs ho) hnamed hconnected ?_ ?_ ?_ ?_ ?_
  · intro ht
    have hb := hb (by rw [ht]; trivial)
    refine serving_call hb ?_
    -- the call finds an array of the same length, whatever other commands did
    rintro a ⟨s, s', hs, ha⟩
    obtain ⟨⟨data, hread, hdata⟩, -⟩ := localStorage_answers request hn hs hb
    obtain ⟨rfl, -⟩ := Prod.mk.inj (Option.some.inj (ha.symm.trans hread))
    refine ⟨data, rfl, hdata, fun h => absurd ?_ h⟩
    simp only [localStorage, ht]
    exact ⟨data, List.mem_cons_self⟩
  · intro ht
    have hb := hb (by rw [ht]; trivial)
    refine serving_call hb ?_
    rintro a ⟨s, s', hs, ha⟩
    obtain ⟨-, ls', hwrite, -⟩ := localStorage_answers request hn hs hb
    obtain ⟨rfl, -⟩ := Prod.mk.inj (Option.some.inj (ha.symm.trans hwrite))
    refine ⟨request, rfl, ⟨rfl, rfl, rfl, rfl⟩, fun h => absurd ?_ h⟩
    simp only [localStorage, ht]
    exact ⟨request, List.mem_cons_self⟩
  · intro ht
    refine serving_call trivial fun a _ => ⟨_, rfl, ⟨rfl, rfl, rfl, rfl⟩, fun h => absurd ?_ h⟩
    simp only [localStorage, ht]
  · intro ht
    refine serving_call trivial fun a _ => ⟨_, rfl, ⟨rfl, rfl, rfl, rfl⟩, fun h => absurd ?_ h⟩
    simp only [localStorage, ht]
  · rintro (ht | ht) tr <;> simp only [localStorage, ht]

/-- A request beyond the array gets no reply: `LocalStorage` throws, or copies from outside. -/
theorem inArray_of_oneReply (h : localStorage.OneReply ls request) (ht : request.type.Moves) :
    request.offset + request.buffer.length ≤ ls.storage.length := by
  by_contra hout
  cases hty : request.type with
  | read =>
    have hcommand : command LocalStorage.toIStorage request =
        .call (.storage (.read request)) fun a => replyTo a := by
      rw [command, hty]
      rfl
    rcases LocalStorage.read_cases ls request with ⟨-, hr⟩ | ⟨-, -, hr⟩ | ⟨-, hin, -⟩
    · -- the exception reaches the worker, which drops it
      have hthrows : LocalStorage.handler (.read request) ls =
          some (.error "Read exceeds storage bounds", ls) := by
        simp only [LocalStorage.handler, hr]
      exact h.returns hcommand hthrows rfl
    · -- the copy leaves the array
      have hnone : LocalStorage.handler (.read request) ls = none := by
        simp only [LocalStorage.handler, hr]
      exact (h.of_steps (.refl _ _)).2.1 _ _ hcommand hnone
    · exact hout hin
  | write =>
    have hcommand : command LocalStorage.toIStorage request =
        .call (.storage (.write request)) fun a => replyTo a := by
      rw [command, hty]
      rfl
    rcases LocalStorage.write_cases ls request with ⟨-, hw⟩ | ⟨-, -, hw⟩ | ⟨-, hin, -⟩
    · have hthrows : LocalStorage.handler (.write request) ls =
          some (.error "Write exceeds storage bounds", ls) := by
        simp only [LocalStorage.handler, hw]
      exact h.returns hcommand hthrows rfl
    · have hnone : LocalStorage.handler (.write request) ls = none := by
        simp only [LocalStorage.handler, hw]
      exact (h.of_steps (.refl _ _)).2.1 _ _ hcommand hnone
    · exact hout hin
  | _ =>
    rw [hty] at ht
    exact ht.elim

/-! ## `RAIDStorage` -/

section RAIDStorage

open RAIDStorage

variable {μ τ : Type} [IStorageMinion μ] [IMetadataStore τ] {g : Geometry}

variable (μ τ g) in
/-- `RAIDStorage` behind the mediator. -/
def raidStorage : Backend (RAIDCall g) RAIDCall.Answer (RAIDStorage μ τ g) where
  members := toIStorage g
  answers := Answers
  handler := RAIDStorage.handler
  CarriedOut := RAIDStorage.CarriedOut g

/-- The minions have the size that they were created with. -/
def SizedMinions (s : RAIDStorage μ τ g) : Prop :=
  ∀ i, IStorageMinion.size (s.minions i) = g.stripeSize

/-- A member of `RAIDStorage` that comes back with the request, and with `SUCCESS` only if it was carried
out. -/
theorem serving_member {I : RAIDStorage μ τ g → Prop} {A : (o : RAIDCall g) → o.Answer → Prop}
    {D : RAIDCall g → Prop} (hA : ∀ o a, Interfered (raidStorage μ τ g).answers I () o a () → A o a)
    {p : RAIDProg g DriverData} (hp : Prog.Obeys (.plain A D False) (fun _ _ => True) () p)
    (hreturns : ∀ tr data, Steps (Interfered (raidStorage μ τ g).answers I) p () tr (.ret data) () →
      SameRequest request data ∧ (data.status = .success → RAIDStorage.CarriedOut g request tr)) :
    (raidStorage μ τ g).Serving I D request (do return .ok (← p)) replyTo where
  goes tr q hs := by
    -- the reply is wrapped, and no call is added
    have hmember : Prog.Obeys (.plain A D False) (fun _ _ => True) ()
        (p >>= fun data => Prog.ret (Except.ok data : Except String DriverData)) :=
      hp.bind fun _ _ _ => .ret trivial
    exact goes_of_obeys hA hmember hs
  returns tr v hs := by
    obtain ⟨data, ⟨⟩, tr₁, tr₂, rfl, hr, hs⟩ := hs.bind_ret_inv
    obtain ⟨rfl, hv, -⟩ := hs.ret_inv
    obtain rfl := Prog.ret.inj hv
    obtain ⟨hdata, hok⟩ := hreturns tr₁ data hr
    rw [List.append_nil]
    refine ⟨data, rfl, hdata, fun hn => ?_⟩
    cases hst : data.status with
    | failure => rfl
    | success => exact absurd (hok hst) hn

/-- A request over calls that are all defined. -/
theorem oneReply_raidStorage (hμ : InBounds μ) {A : (o : RAIDCall g) → o.Answer → Prop}
    {D : RAIDCall g → Prop} (hA : ∀ o a, StaysInside g o a → A o a)
    (hdef : ∀ (s : RAIDStorage μ τ g) o, SizedMinions s → D o → RAIDStorage.handler o s ≠ none)
    (hcalls : ∀ offset, D (.getDataSize offset) ∧ D .listOffsets) {s₀ : RAIDStorage μ τ g}
    (hs₀ : SizedMinions s₀) (hnamed : request.type.Named) (hconnected : request.type ≠ .disconnect)
    (hl : request.buffer.length = request.len)
    (hlen : request.type.Moves → request.len = 0 ∨ 0 < g.stripeSize)
    (hread : request.type = .read →
      Prog.Obeys (.plain A D False) (fun _ _ => True) () (read g request))
    (hwrite : request.type = .write →
      Prog.Obeys (.plain A D False) (fun _ _ => True) () (write g request)) :
    (raidStorage μ τ g).OneReply s₀ request := by
  have hbusy : ∀ o a, Interfered (raidStorage μ τ g).answers SizedMinions () o a () → StaysInside g o a :=
    fun o a h => bounded_of_busy hμ h
  refine oneReply_of_serving SizedMinions D
    (fun s o a s' h hs => sized_of_answers hμ h hs) hs₀ hdef hnamed hconnected ?_ ?_ ?_ ?_ ?_
  · intro ht
    refine serving_member (fun o a h => hA o a (hbusy o a h)) (hread ht) fun tr data hs => ?_
    obtain ⟨hdata, hok⟩ := read_returns hbusy (hlen (by rw [ht]; trivial)) hs
    -- only a reply that says success has to be carried out
    refine ⟨hdata, fun hst => ?_⟩
    simp only [RAIDStorage.CarriedOut, ht]
    exact hok hst
  · intro ht
    refine serving_member (fun o a h => hA o a (hbusy o a h)) (hwrite ht) fun tr data hs => ?_
    obtain ⟨hdata, hok⟩ := write_returns (by rw [hl]; exact hlen (by rw [ht]; trivial)) hs
    refine ⟨hdata, fun hst => ?_⟩
    simp only [RAIDStorage.CarriedOut, ht]
    exact hok hst
  · intro ht
    -- the size is one call, which any answer carries out
    refine serving_call (hcalls request.offset).1
      fun a _ => ⟨_, rfl, ⟨rfl, rfl, rfl, rfl⟩, fun h => absurd ?_ h⟩
    simp only [raidStorage, RAIDStorage.CarriedOut, ht]
  · intro ht
    refine serving_call (hcalls 0).2 fun a _ => ⟨_, rfl, ⟨rfl, rfl, rfl, rfl⟩, fun h => absurd ?_ h⟩
    simp only [raidStorage, RAIDStorage.CarriedOut, ht]
  · rintro (ht | ht) tr <;> simp only [raidStorage, RAIDStorage.CarriedOut, ht]

/-- The member of the storage that moves the bytes of a request has a result. -/
theorem run_request_of_oneReply {s₀ : RAIDStorage μ τ g} (h : (raidStorage μ τ g).OneReply s₀ request)
    (ht : request.type.Moves) :
    ∃ isWrite, (RAIDStorage.request g isWrite request).run RAIDStorage.handler s₀ ≠ none := by
  have hne : ∀ (p : RAIDProg g DriverData),
      command (toIStorage g) request = callStorage (do return .ok (← p)) >>= replyTo →
      p.run RAIDStorage.handler s₀ ≠ none := by
    intro p hcommand hnone
    refine h.run_ne_none hcommand (fun _ _ _ _ => Answers.own) ?_
    change (p >>= fun data => Prog.ret (Except.ok data)).run RAIDStorage.handler s₀ = none
    rw [Prog.run_bind, hnone, Option.bind_none]
  cases hty : request.type with
  | read => exact ⟨false, hne (read g request) (by rw [command, hty]; rfl)⟩
  | write => exact ⟨true, hne (write g request) (by rw [command, hty]; rfl)⟩
  | _ =>
    rw [hty] at ht
    exact ht.elim

/-- A request over stripes without size divides by zero. -/
theorem divisor_of_oneReply {s₀ : RAIDStorage μ τ g} (h : (raidStorage μ τ g).OneReply s₀ request)
    (hl : request.buffer.length = request.len) (ht : request.type.Moves) :
    request.len = 0 ∨ 0 < g.stripeSize := by
  by_contra hn
  obtain ⟨isWrite, hrun⟩ := run_request_of_oneReply h ht
  rw [request_eq_abort (by omega) (by omega) fun _ => hl] at hrun
  exact hrun rfl

/-- The requests that get a reply from a storage in memory. -/
theorem oneReply_memory_iff {s₀ : RAIDStorage StorageMinionMemory MemoryMetadataStore g}
    (hs₀ : SizedMinions s₀) (h64 : g.capacity < 2 ^ 64) (ho : request.offset < 2 ^ 64)
    (hl : request.buffer.length = request.len) (hconnected : request.type ≠ .disconnect) :
    (raidStorage _ _ g).OneReply s₀ request ↔
      request.type.Named ∧ (request.type.Moves → Safe g request.offset request.len) := by
  constructor
  · refine fun h => ⟨named_of_oneReply h, fun ht => ?_⟩
    -- the run by itself is one of the runs
    have hdata := divisor_of_oneReply h hl ht
    obtain ⟨isWrite, hrun⟩ := run_request_of_oneReply h ht
    obtain ⟨r, hr⟩ := Option.ne_none_iff_exists'.mp hrun
    have hwraps := (run_request_memory hs₀ hdata h64 ho fun _ => hl).mp ⟨r.1, r.2, hr⟩
    exact hdata.imp_right fun hS => ⟨hS, hwraps⟩
  · rintro ⟨hnamed, hsafe⟩
    -- every call of a safe request is defined, in any state
    refine oneReply_raidStorage (D := Defined g) (LawfulMinion.inBounds _) (fun _ _ h => h)
      (fun s o hs hD => handler_memory hs hD) (fun _ => ⟨trivial, trivial⟩) hs₀ hnamed hconnected hl (fun ht => ?_) (fun ht => ?_) fun ht => ?_
    · exact (hsafe ht).imp_right And.left
    · exact obeys_read_defined h64 ho (hsafe (by rw [ht]; trivial))
    · refine obeys_write_defined h64 ho ?_
      rw [hl]
      exact hsafe (by rw [ht]; trivial)

/-- The requests that get a reply from a storage in files. -/
theorem oneReply_file_iff {s₀ : RAIDStorage StorageMinionFile FileMetadataStore g}
    (hs₀ : SizedMinions s₀) (hl : request.buffer.length = request.len)
    (hconnected : request.type ≠ .disconnect) :
    (raidStorage _ _ g).OneReply s₀ request ↔
      request.type.Named ∧ (request.type.Moves → request.len = 0 ∨ 0 < g.stripeSize) := by
  constructor
  · exact fun h => ⟨named_of_oneReply h, divisor_of_oneReply h hl⟩
  · rintro ⟨hnamed, hdata⟩
    have hobeys : ∀ isWrite : Bool, request.type.Moves → Prog.Obeys (NoAbort g) (fun _ _ => True) ()
        (RAIDStorage.request g isWrite request) := fun _ ht => obeys_request (hdata ht) fun _ => hl
    refine oneReply_raidStorage (A := fun _ _ => True) (D := fun _ => True) StorageMinionFile.inBounds
      (fun _ _ _ => trivial) (fun s o _ _ => handler_file s o) (fun _ => ⟨trivial, trivial⟩) hs₀ hnamed
      hconnected hl hdata (fun ht => ?_) fun ht => ?_
    · exact hobeys false (by rw [ht]; trivial)
    · exact hobeys true (by rw [ht]; trivial)

end RAIDStorage

end Backend

open Backend

/-- **One reply.** A request gets one reply if and only if its code has an enumerator and, where it moves
bytes, `LocalStorage` has its range, `RAIDStorage` need not divide by zero and, in memory, no chunk
wraps. -/
theorem oneReply_iff {fd : Int} {request : DriverData} (hrequest : TCPDriverComm.FromClient fd request)
    (hconnected : request.type ≠ .disconnect) :
    (∀ ls : LocalStorage, ls.storage.length < 2 ^ 64 → (localStorage.OneReply ls request ↔
      request.type.Named ∧
        (request.type.Moves → request.offset + request.len ≤ ls.storage.length))) ∧
    (∀ g (s : RAIDStorage StorageMinionMemory MemoryMetadataStore g), SizedMinions s →
      g.capacity < 2 ^ 64 → ((raidStorage _ _ g).OneReply s request ↔
        request.type.Named ∧
          (request.type.Moves → RAIDStorage.Safe g request.offset request.len))) ∧
    ∀ g (s : RAIDStorage StorageMinionFile FileMetadataStore g), SizedMinions s →
      ((raidStorage _ _ g).OneReply s request ↔
        request.type.Named ∧ (request.type.Moves → request.len = 0 ∨ 0 < g.stripeSize)) := by
  obtain ⟨-, ho, -, hl⟩ := hrequest
  refine ⟨fun ls hn => ⟨fun h => ⟨named_of_oneReply h, fun ht => ?_⟩, fun ⟨hnamed, hin⟩ => ?_⟩,
    fun g s hs h64 => oneReply_memory_iff hs h64 ho hl hconnected,
    fun g s hs => oneReply_file_iff hs hl hconnected⟩
  · rw [← hl]
    exact inArray_of_oneReply h ht
  · apply oneReply_localStorage hn hnamed hconnected
    intro ht
    rw [hl]
    exact hin ht

/-- The first bytes of a connection: a header whose code is `7`. -/
def unknownCode : DriverData :=
  { DriverData.new (.ofCode 7) 1 0 0 with sourceFd := 4 }

/-- The worker drops the exception of the table, and nobody gets a reply. -/
theorem unknown_code_unanswered : TCPDriverComm.FromClient 4 unknownCode ∧
    ¬ localStorage.OneReply (LocalStorage.new 4) unknownCode ∧
      ¬ (raidStorage StorageMinionMemory MemoryMetadataStore ⟨1, 4, by decide⟩).OneReply
        (RAIDStorage.inMemory _) unknownCode :=
  ⟨⟨rfl, by decide, rfl, rfl⟩, fun h => named_of_oneReply h, fun h => named_of_oneReply h⟩

/-- A `READ` beyond the device, which fails with a reply: a pair of minions of four bytes. -/
theorem oneReply_beyond :
    (raidStorage StorageMinionMemory MemoryMetadataStore ⟨1, 4, by decide⟩).OneReply
      (RAIDStorage.inMemory _) { DriverData.new .read 1 4 1 with sourceFd := 4 } :=
  ((oneReply_iff ⟨rfl, by decide, rfl, rfl⟩ (by decide)).2.1 _ _ (RAIDStorage.blank_inMemory _).sized
    (by decide)).mpr ⟨trivial, fun _ => .inr ⟨by decide, by decide⟩⟩

end InputMediator

end LDS
