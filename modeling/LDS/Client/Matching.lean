import LDS.Client.Session

/-!
# Reports and replies

The client takes the next bytes of the stream for the reply to its last request. That is what they are as
long as every `recv` has brought what it was asked for; a `recv` that gave up or brought less leaves bytes
to the operations that follow.

## Main definitions

* `Smooth`: the calls that bring what they were asked for
* `Idle`, `Owed`: the streams between operations and behind a request

## Main results

* `ends_sendRequestWithReconnect`, `ends_recvReply`: a request and its reply
* `Session.reports_match`: the reports of a session whose calls are smooth
-/

namespace LDS

open Memory

namespace TCPBlockDeviceClient

open TCPDriverComm Method

/-! ## Smooth calls -/

/-- The call does not time out, and `recv` brings all the bytes that it was asked for. -/
def Whole : (o : ClientCall) → o.Answer → Prop
  | .sendall _, a => a ≠ .error .timeout
  | .recv _, .error e => e ≠ .timeout
  | .recv k, .ok bytes => bytes.length = k
  | _, _ => True

/-- The request could not be sent, or the client could not connect. -/
def Failed : (o : ClientCall) → o.Answer → Prop
  | .sendall _, .error _ => True
  | .connect, .error _ => True
  | _, _ => False

/-- The operation returns a size, be there a reply or not. -/
def Operation.ReturnsSize (op : Operation) : Prop := ∃ offset, op = .testGetSize offset

/-- The calls that do not time out and bring what they were asked for. A `test_get_size` always has an
attempt to connect left. -/
def Smooth (maxRetries : Nat) (op : Operation) : Environment ClientCall ClientCall.Answer Net :=
  fun n o a n' => Network n o a n' ∧ Whole o a ∧ (op.ReturnsSize → Failed o a → n'.refused < maxRetries)

variable {maxRetries : Nat} {op : Operation}

/-- Every call can be answered. -/
theorem exists_smooth (n : Net) (o : ClientCall) : ∃ a n', Smooth maxRetries op n o a n' := by
  cases o with
  | connect => exact ⟨_, _, ⟨n, .refl, .connected⟩, trivial, fun _ h => h.elim⟩
  | close => exact ⟨_, _, ⟨n, .refl, .close⟩, trivial, fun _ h => h.elim⟩
  | settimeout timeout => exact ⟨_, _, ⟨n, .refl, .settimeout⟩, trivial, fun _ h => h.elim⟩
  | sendall bytes => exact ⟨_, _, ⟨_, .single .lose, .unsent rfl⟩, nofun, fun _ h => h.elim⟩
  | recv k => exact ⟨_, _, ⟨n, .refl, .recvFails⟩, nofun, fun _ h => h.elim⟩
  | time => exact ⟨0, _, ⟨n, .refl, .time⟩, trivial, fun _ h => h.elim⟩
  | sleep => exact ⟨_, _, ⟨n, .refl, .sleep⟩, trivial, fun _ h => h.elim⟩

/-! ## Streams -/

/-- Of the stream to the server only `pending` is left, and of the stream to the client `incoming`. -/
def Idle (pending incoming : List Byte) (k : Connection) : Prop :=
  k.incoming = incoming ∧ (k.up = true → k.pending = pending ∧ k.asked = [])

/-- The request `r` is to be answered, or its reply is all that there is on the way. -/
def Owed (r : RequestFrame) (n : Net) : Prop :=
  (n.connection.incoming = [] ∧
    (n.connection.up = true →
      n.connection.pending = [] ∧ n.connection.asked = [r] ∧ .request r ∈ n.events)) ∨
  ∃ data, CorrectReply r data ∧ .request r ∈ n.events ∧ .reply r data ∈ n.events ∧
    Idle [] (replyFrame data) n.connection

/-- What the network does by itself keeps it, and what the client does but for the stream. -/
structure Stable (P : Net → Prop) : Prop where
  moves : ∀ {n n' : Net}, Moves n n' → P n → P n'
  timeout : ∀ {n : Net} (timeout : Option Nat), P n → P { n with connection.timeout := timeout }

theorem stable_idle (pending incoming : List Byte) : Stable fun n => Idle pending incoming n.connection where
  moves := by
    rintro n n' hm ⟨hin, hrest⟩
    cases hm with
    | answer hup hasked hdata =>
      -- there is nothing to answer
      have hnil := (hrest hup).2
      rw [hasked] at hnil
      simp at hnil
    | lose => exact ⟨hin, nofun⟩
  timeout _ h := h

theorem stable_owed (r : RequestFrame) : Stable (Owed r) where
  moves := by
    rintro n n' hm (⟨hin, hrest⟩ | ⟨data, hdata, hrequest, hreply, hidle⟩)
    · cases hm with
      | @answer before after r' data hup hasked hdata =>
        obtain ⟨hpending, hone, hrequest⟩ := hrest hup
        -- the only request is the one that is answered
        obtain ⟨rfl, rfl, rfl⟩ : before = [] ∧ r' = r ∧ after = [] := by
          rw [hasked] at hone
          cases before with
          | nil =>
            obtain ⟨rfl, rfl⟩ := List.cons.inj hone
            exact ⟨rfl, rfl, rfl⟩
          | cons _ before => simp at hone
        exact .inr ⟨data, hdata, List.mem_append_left _ hrequest, by simp [Net.answer],
          by simp [Net.answer, hin], fun _ => ⟨hpending, rfl⟩⟩
      | lose => exact .inl ⟨hin, nofun⟩
    · refine .inr ⟨data, hdata, ?_, ?_, (stable_idle _ _).moves hm hidle⟩ <;> cases hm
      · exact List.mem_append_left _ hrequest
      · exact hrequest
      · exact List.mem_append_left _ hreply
      · exact hreply
  timeout _ h := h

/-! ## What the operations keep -/

variable (op) in
/-- Between the calls of an operation that began with the written offsets `old`: the events `kept` have
happened, and the written offsets are those that the operation is to make of `old`. -/
structure Kept (old : List Int) (kept : List Event) (c : TCPBlockDeviceClient) (n : Net) : Prop where
  events : ∀ e ∈ kept, e ∈ n.events
  offsets : Noted op n.events old c.writtenOffsets

variable (op) in
/-- The client has a connection, whose stream is in `P`. -/
structure Open (old : List Int) (kept : List Event) (P : Net → Prop) (c : TCPBlockDeviceClient) (n : Net) :
    Prop extends Kept op old kept c n where
  socket : c.socket = true
  refused : n.refused = 0
  stream : P n

variable (op) in
/-- There is nothing on the way, be there a connection or not. -/
structure Resting (old : List Int) (kept : List Event) (c : TCPBlockDeviceClient) (n : Net) :
    Prop extends Kept op old kept c n where
  refused : c.socket = true → n.refused = 0
  idle : Idle [] [] n.connection

theorem Noted.mono {events events' : List Event} {old written : List Int}
    (h : Noted op events old written) (hsub : ∀ e ∈ events, e ∈ events') : Noted op events' old written := by
  induction h with
  | refl => exact .refl
  | wrote _ hop ih => exact .wrote ih hop
  | listed _ hrequest hreply hcode hstatus ih =>
    exact .listed ih (hsub _ hrequest) (hsub _ hreply) hcode hstatus

variable {old : List Int} {kept : List Event} {P : Net → Prop} {c : TCPBlockDeviceClient} {n n' : Net}

theorem Kept.mono (h : Kept op old kept c n) (hsub : ∀ e ∈ n.events, e ∈ n'.events) :
    Kept op old kept c n' where
  events e he := hsub e (h.events e he)
  offsets := h.offsets.mono hsub

theorem Kept.mono_kept {kept' : List Event} (h : Kept op old kept' c n) (hsub : kept ⊆ kept') :
    Kept op old kept c n :=
  ⟨fun e he => h.events e (hsub he), h.offsets⟩

/-- The network does not undo what has happened, and makes no connections. -/
theorem Moves.keeps (h : Moves n n') : (∀ e ∈ n.events, e ∈ n'.events) ∧ n'.refused = n.refused := by
  cases h with
  | answer hup hasked hdata => exact ⟨fun e he => List.mem_append_left _ he, rfl⟩
  | lose => exact ⟨fun e he => he, rfl⟩

theorem Open.moves (hP : Stable P) (h : Open op old kept P c n) (hm : Relation.ReflTransGen Moves n n') :
    Open op old kept P c n' := by
  induction hm with
  | refl => exact h
  | tail _ hm ih =>
    obtain ⟨hevents, hrefused⟩ := hm.keeps
    exact ⟨ih.toKept.mono hevents, ih.socket, hrefused.trans ih.refused, hP.moves hm ih.stream⟩

theorem Resting.mono_kept {kept' : List Event} (h : Resting op old kept' c n) (hsub : kept ⊆ kept') :
    Resting op old kept c n :=
  ⟨h.toKept.mono_kept hsub, h.refused, h.idle⟩

theorem Resting.moves (h : Resting op old kept c n) (hm : Relation.ReflTransGen Moves n n') :
    Resting op old kept c n' ∧ n'.refused = n.refused := by
  induction hm with
  | refl => exact ⟨h, rfl⟩
  | tail _ hm ih =>
    obtain ⟨hevents, hrefused⟩ := hm.keeps
    exact ⟨⟨ih.1.toKept.mono hevents, fun hc => hrefused.trans (ih.1.refused hc),
      (stable_idle [] []).moves hm ih.1.idle⟩, hrefused.trans ih.2⟩

/-- A connection with nothing on the way. -/
abbrev Quiet : Net → Prop := fun n => Idle [] [] n.connection

theorem Resting.open (h : Resting op old kept c n) (hc : c.socket = true) : Open op old kept Quiet c n :=
  ⟨h.toKept, hc, h.refused hc, h.idle⟩

theorem Open.resting (h : Open op old kept Quiet c n) : Resting op old kept c n :=
  ⟨h.toKept, fun _ => h.refused, h.stream⟩

variable (op) in
/-- What an exception leaves: it is no timeout, and nothing is on the way. -/
def Thrown (old : List Int) (kept : List Event) (e : ClientError) (c : TCPBlockDeviceClient) (n : Net) : Prop :=
  e ≠ .timeout ∧ Resting op old kept c n

variable (maxRetries op) in
/-- What a request that could not be sent leaves. If the connection has failed there was one, and there are
attempts to make another. -/
def Unsent (old : List Int) (kept : List Event) (e : ClientError) (c : TCPBlockDeviceClient) (n : Net) : Prop :=
  Thrown op old kept e c n ∧ (e = .os → c.socket = true ∧ (op.ReturnsSize → 0 < maxRetries))

/-! ## The socket -/

section Socket

variable {E : ClientError → TCPBlockDeviceClient → Net → Prop}

/-- A method of the socket of a client that has one. -/
theorem ends_onSocket {α : Type} {Q : α → TCPBlockDeviceClient → Net → Prop} {p : ClientProg α}
    (hc : c.socket = true) (hp : Ends (Smooth maxRetries op) Q E p c n) :
    Ends (Smooth maxRetries op) Q E (onSocket p) c n := by
  refine Ends.bind (.get (Q := fun a c' n' => a = c ∧ c' = c ∧ n' = n) ⟨rfl, rfl, rfl⟩) ?_
  rintro _ _ _ ⟨rfl, rfl, rfl⟩
  rwa [if_pos hc]

/-- A client without a socket throws. -/
theorem ends_onSocket_none {α : Type} {Q : α → TCPBlockDeviceClient → Net → Prop} {p : ClientProg α}
    (hc : c.socket = false) (hE : E .other c n) : Ends (Smooth maxRetries op) Q E (onSocket p) c n := by
  refine Ends.bind (.get (Q := fun a c' n' => a = c ∧ c' = c ∧ n' = n) ⟨rfl, rfl, rfl⟩) ?_
  rintro _ _ _ ⟨rfl, rfl, rfl⟩
  rw [if_neg (by simp [hc])]
  exact .throw hE

theorem ends_settimeout (hP : Stable P) (h : Open op old kept P c n) (timeout : Option Nat) :
    Ends (Smooth maxRetries op) (fun _ => Open op old kept P) E (settimeout timeout) c n := by
  refine ends_onSocket h.socket (.call (o := .settimeout timeout) (exists_smooth n _) ?_)
  rintro a n' ⟨⟨n₁, hm, hcall⟩, -, -⟩
  have h₁ := h.moves hP hm
  cases hcall
  exact ⟨⟨h₁.events, h₁.offsets⟩, h₁.socket, h₁.refused, hP.timeout timeout h₁.stream⟩

theorem ends_newHandle (c : TCPBlockDeviceClient) (n : Net) :
    Ends (Smooth maxRetries op)
      (fun handle c' n' => handle < 2 ^ 64 ∧ c' = c ∧ Relation.ReflTransGen Moves n n') E newHandle c n := by
  have htime : Ends (Smooth maxRetries op) (fun _ c' n' => c' = c ∧ Relation.ReflTransGen Moves n n') E
      (call ClientCall.time) c n := by
    refine .call (o := .time) (exists_smooth n _) ?_
    rintro a n' ⟨⟨n₁, hm, hcall⟩, -, -⟩
    cases hcall
    exact ⟨rfl, hm⟩
  refine htime.bind ?_
  rintro ms _ n' ⟨rfl, hm⟩
  exact .pure ⟨Nat.lt_of_lt_of_le (Nat.mod_lt _ (by decide)) (by decide), rfl, hm⟩

theorem ends_sleep (c : TCPBlockDeviceClient) (n : Net) :
    Ends (Smooth maxRetries op) (fun _ c' n' => c' = c ∧ Relation.ReflTransGen Moves n n') E
      (call ClientCall.sleep) c n := by
  refine .call (o := .sleep) (exists_smooth n _) ?_
  rintro a n' ⟨⟨n₁, hm, hcall⟩, -, -⟩
  cases hcall
  exact ⟨rfl, hm⟩

end Socket

/-- A `sendall` with nothing on the way to the client. -/
theorem ends_sendall {pending bytes : List Byte} {P' : Net → Prop}
    (h : Open op old kept (fun n => Idle pending [] n.connection) c n)
    (harrive : ∀ (n : Net) requests rest, n.connection.incoming = [] → n.connection.asked = [] →
      Arrives (pending ++ bytes) requests rest → P' (n.arrive requests rest))
    (hlost : ∀ (n : Net), n.connection.incoming = [] → n.connection.up = false → P' n) :
    Ends (Smooth maxRetries op) (fun _ => Open op old kept P') (Unsent maxRetries op old kept) (sendall bytes)
      c n := by
  refine ends_onSocket h.socket (Ends.bind (.call (o := .sendall bytes) (exists_smooth n _)
    (Q := fun a c' n' => c' = c ∧ Smooth maxRetries op n (.sendall bytes) a n') ?_) ?_)
  · exact fun a n' ha => ⟨rfl, ha⟩
  rintro a c n' ⟨rfl, ⟨n₁, hm, hcall⟩, hwhole, hleft⟩
  have h₁ := h.moves (stable_idle pending []) hm
  -- others may have run before the call is made
  obtain ⟨hin, hrest⟩ := h₁.stream
  cases hcall with
  | sent hup harrives =>
    obtain ⟨hpending, hasked⟩ := hrest hup
    rw [hpending] at harrives
    exact .pure ⟨h₁.toKept.mono fun e he => List.mem_append_left _ he, h₁.socket, h₁.refused,
      harrive n₁ _ _ hin hasked harrives⟩
  | unsent hup => exact .pure ⟨h₁.toKept, h₁.socket, h₁.refused, hlost _ hin hup⟩
  | sendFails =>
    -- the connection is gone, and what was on it too
    have hresting : Resting op old kept c { n₁ with connection.up := false } :=
      ⟨⟨h₁.events, h₁.offsets⟩, fun _ => h₁.refused, hin, nofun⟩
    refine .throw ⟨⟨nofun, hresting⟩, fun _ => ⟨h₁.socket, fun hsized => ?_⟩⟩
    exact Nat.lt_of_le_of_lt (Nat.zero_le _) (hleft hsized trivial)
  | sendTimesOut => exact absurd rfl hwhole

/-- A `recv` that brings what it was asked for. -/
theorem ends_recv {k : Nat} {Q : List Byte → Net → Prop} (hP : Stable P) (h : Open op old kept P c n)
    (hk : 0 < k)
    (hbytes : ∀ (n : Net) bytes rest, P n → n.connection.incoming = bytes ++ rest → bytes.length = k →
      Q bytes { n with connection.incoming := rest }) :
    Ends (Smooth maxRetries op) (fun bytes => Open op old kept (Q bytes)) (Thrown op old kept) (recv k) c n := by
  refine ends_onSocket h.socket (Ends.bind (.call (o := .recv k) (exists_smooth n _)
    (Q := fun a c' n' => c' = c ∧ Smooth maxRetries op n (.recv k) a n') ?_) ?_)
  · exact fun a n' ha => ⟨rfl, ha⟩
  rintro a c n' ⟨rfl, ⟨n₁, hm, hcall⟩, hwhole, -⟩
  have h₁ := h.moves hP hm
  cases hcall with
  | received hle hpos hin =>
    exact .pure ⟨⟨h₁.events, h₁.offsets⟩, h₁.socket, h₁.refused, hbytes n₁ _ _ h₁.stream hin hwhole⟩
  | ended hup hin =>
    -- the end of the stream is less than was asked for
    exact absurd hwhole hk.ne
  | recvFails => exact .throw ⟨nofun, ⟨h₁.events, h₁.offsets⟩, fun _ => h₁.refused, rfl, nofun⟩
  | recvTimesOut => exact absurd rfl hwhole

/-! ## Requests -/

theorem Arrives.of_bytes {r : RequestFrame} {requests : List RequestFrame} {rest : List Byte}
    (h : Arrives r.bytes requests rest) : requests = [r] ∧ rest = [] := by
  have hsplit := h.split
  cases requests with
  | nil => exact absurd (by simpa using hsplit.symm) (h.incomplete r [])
  | cons r' requests =>
    rw [List.flatMap_cons, List.append_assoc, ← List.append_nil r.bytes] at hsplit
    -- frames are told apart from their first bytes on
    obtain ⟨rfl, hnil⟩ := RequestFrame.bytes_append_inj hsplit
    obtain ⟨hnone, rfl⟩ := List.append_eq_nil_iff.mp hnil.symm
    refine ⟨?_, rfl⟩
    cases requests with
    | nil => rfl
    | cons r' requests =>
      -- a second frame would have a header
      have hlength := congrArg List.length hnone
      simp only [List.flatMap_cons, List.length_append, RequestFrame.bytes, r'.length_header,
        List.length_nil] at hlength
      omega

theorem Arrives.of_header {r : RequestFrame} {requests : List RequestFrame} {rest : List Byte}
    (hpayload : r.payload ≠ []) (h : Arrives r.header requests rest) : requests = [] ∧ rest = r.header := by
  have hsplit := h.split
  cases requests with
  | nil => exact ⟨rfl, hsplit.symm⟩
  | cons r' requests =>
    -- the whole request would be longer than itself
    have hbytes : r.bytes ++ [] = r'.bytes ++ (requests.flatMap RequestFrame.bytes ++ rest ++ r.payload) := by
      rw [List.append_nil, RequestFrame.bytes, hsplit, List.flatMap_cons]
      simp only [List.append_assoc]
    obtain ⟨-, hnil⟩ := RequestFrame.bytes_append_inj hbytes
    exact absurd (List.append_eq_nil_iff.mp hnil.symm).2 hpayload

/-- A header that is packed is one of a well-formed request. -/
theorem ends_pack {type handle : Nat} {offset length : Int} {data : List Byte}
    (hdata : (data.length : Int) = if type = 1 then length else 0) (h : Resting op old kept c n) :
    Ends (Smooth maxRetries op)
      (fun header c' n' => c' = c ∧ n' = n ∧ ∃ r, Asked type offset length data r ∧ header = r.header)
      (Unsent maxRetries op old kept) (pack type handle offset length) c n := by
  unfold pack
  split
  · rename_i hfits
    obtain ⟨htype, hhandle, ⟨hoffset, hoffset'⟩, hlength, hlength'⟩ := hfits
    refine .pure ⟨rfl, rfl, ⟨type, handle, offset.toNat, length.toNat, data, htype, hhandle, by omega,
      by omega, ?_⟩, ⟨rfl, by simp [hoffset], by simp [hlength], rfl⟩, rfl⟩
    split <;> split at hdata <;> omega
  · exact .throw ⟨⟨nofun, h⟩, nofun⟩

/-- The bytes that make a request complete. -/
theorem ends_sendall_rest {r : RequestFrame} {pending bytes : List Byte} (hbytes : pending ++ bytes = r.bytes)
    (h : Open op old kept (fun n => Idle pending [] n.connection) c n) :
    Ends (Smooth maxRetries op) (fun _ => Open op old kept (Owed r)) (Unsent maxRetries op old kept)
      (sendall bytes) c n := by
  refine ends_sendall h ?_ ?_
  · intro n requests rest hin hasked harrives
    rw [hbytes] at harrives
    obtain ⟨rfl, rfl⟩ := harrives.of_bytes
    exact .inl ⟨hin, fun _ => ⟨rfl, by simp [Net.arrive, hasked], by simp [Net.arrive]⟩⟩
  · exact fun n hin hup => .inl ⟨hin, fun h => by simp [hup] at h⟩

/-- A header that is not all of its request. -/
theorem ends_sendall_header {r : RequestFrame} (hpayload : r.payload ≠ []) (h : Open op old kept Quiet c n) :
    Ends (Smooth maxRetries op) (fun _ => Open op old kept fun n => Idle r.header [] n.connection)
      (Unsent maxRetries op old kept) (sendall r.header) c n := by
  refine ends_sendall h ?_ ?_
  · intro n requests rest hin hasked harrives
    rw [List.nil_append] at harrives
    obtain ⟨rfl, rfl⟩ := harrives.of_header hpayload
    exact ⟨hin, fun _ => ⟨rfl, by simp [Net.arrive, hasked]⟩⟩
  · exact fun n hin hup => ⟨hin, fun h => by simp [hup] at h⟩

/-- The request is sent in one piece, or in two. -/
theorem ends_sendRequest {type handle : Nat} {offset length : Int} {data : List Byte}
    (hdata : (data.length : Int) = if type = 1 then length else 0) (h : Resting op old kept c n) :
    Ends (Smooth maxRetries op)
      (fun _ c n => ∃ r, Asked type offset length data r ∧ Open op old kept (Owed r) c n)
      (Unsent maxRetries op old kept) (sendRequest type handle offset length data) c n := by
  refine (ends_pack hdata h).bind ?_
  rintro _ c n ⟨rfl, rfl, r, hr, rfl⟩
  by_cases hc : c.socket = true
  swap
  · refine Ends.bind (ends_onSocket_none (Q := fun _ _ _ => False) (by simpa using hc) ⟨⟨nofun, h⟩, nofun⟩) ?_
    rintro _ _ _ ⟨⟩
  by_cases hpayload : data = []
  · -- there is no payload to send
    have hbytes : [] ++ r.header = r.bytes := by
      rw [RequestFrame.bytes, hr.payload, hpayload, List.append_nil, List.nil_append]
    apply (ends_sendall_rest hbytes (h.open hc)).bind
    intro _ c n h
    rw [if_neg fun hw => hw.2 hpayload]
    exact .pure ⟨r, hr, h⟩
  · have hw : type = 1 := by
      by_contra hne
      rw [if_neg hne] at hdata
      exact hpayload (List.eq_nil_of_length_eq_zero (Int.ofNat.inj hdata))
    have hpayload' : r.payload ≠ [] := hr.payload ▸ hpayload
    apply (ends_sendall_header hpayload' (h.open hc)).bind
    intro _ c n h
    rw [if_pos ⟨hw, hpayload⟩]
    have hbytes : r.header ++ data = r.bytes := by rw [RequestFrame.bytes, hr.payload]
    exact (ends_sendall_rest hbytes h).mono (fun _ c n h => ⟨r, hr, h⟩) fun _ _ _ h => h

/-! ## Replies -/

/-- The events of a request and its reply. -/
abbrev answered (r : RequestFrame) (data : DriverData) : List Event := [.request r, .reply r data]

/-- The header of the reply that is owed. -/
theorem ends_recv_header {r : RequestFrame} (h : Open op old kept (Owed r) c n) :
    Ends (Smooth maxRetries op)
      (fun header c n => ∃ data, CorrectReply r data ∧ header = replyHeader data ∧
        Open op old (answered r data ++ kept) (fun n => Idle [] (payload data) n.connection) c n)
      (Thrown op old kept) (recv 16) c n := by
  refine (ends_recv (stable_owed r) h (by decide) (Q := fun header n => ∃ data, CorrectReply r data ∧
    header = replyHeader data ∧ .request r ∈ n.events ∧ .reply r data ∈ n.events ∧
    Idle [] (payload data) n.connection) ?_).mono ?_ fun _ _ _ h => h
  · rintro n bytes rest (⟨hin, -⟩ | ⟨data, hdata, hrequest, hreply, hin, hrest⟩) hsplit hlength
    · -- there are no sixteen bytes without a reply
      rw [hin] at hsplit
      rw [(List.append_eq_nil_iff.mp hsplit.symm).1] at hlength
      cases hlength
    · rw [hin, replyFrame_eq] at hsplit
      obtain ⟨rfl, rfl⟩ := List.append_inj hsplit (by rw [length_replyHeader, hlength])
      exact ⟨data, hdata, rfl, hrequest, hreply, rfl, hrest⟩
  · rintro header c n ⟨hkept, hsocket, hrefused, data, hdata, rfl, hrequest, hreply, hidle⟩
    refine ⟨data, hdata, rfl, ⟨fun e he => ?_, hkept.offsets⟩, hsocket, hrefused, hidle⟩
    rcases List.mem_append.mp he with h | h
    · rcases List.mem_cons.mp h with rfl | h
      · exact hrequest
      · rw [List.mem_singleton.mp h]
        exact hreply
    · exact hkept.events e h

/-- What the client makes of the header. -/
theorem unpack_replyHeader {r : RequestFrame} {data : DriverData} (h : CorrectReply r data) :
    unpack (replyHeader data) = ⟨if data.status = .success then 0 else eio, data.handle, replyLen data⟩ := by
  obtain ⟨herror, hhandle, hlen⟩ := replyHeader_fields data
  have hlt : data.handle < 2 ^ 64 := h.repliesTo.handle ▸ r.handle_lt
  rw [unpack, herror, hhandle, hlen, Nat.mod_eq_of_lt hlt, Nat.mod_eq_of_lt h.len_lt]

/-- The status that the client prints is the one of the reply. -/
theorem status_unpack {r : RequestFrame} {data : DriverData} (h : CorrectReply r data) :
    (unpack (replyHeader data)).status = statusText data := by
  rw [unpack_replyHeader h, ReplyHeader.status, statusText]
  cases data.status <;> simp [eio]

theorem error_unpack {r : RequestFrame} {data : DriverData} (h : CorrectReply r data) :
    (unpack (replyHeader data)).error = 0 ↔ data.status = .success := by
  rw [unpack_replyHeader h]
  cases data.status <;> simp [eio]

theorem ends_recvReply {r : RequestFrame} (h : Open op old kept (Owed r) c n) :
    Ends (Smooth maxRetries op)
      (fun header c n => ∃ data, CorrectReply r data ∧ header = some (unpack (replyHeader data)) ∧
        Open op old (answered r data ++ kept) (fun n => Idle [] (payload data) n.connection) c n)
      (Thrown op old kept) recvReply c n := by
  refine (ends_recv_header h).bind ?_
  rintro _ c n ⟨data, hdata, rfl, h⟩
  rw [if_neg (by simp)]
  exact .pure ⟨data, hdata, rfl, h⟩

/-- A timeout that the reply does not take. -/
theorem ends_recvReplyWithin {r : RequestFrame} (timeout : Nat) (h : Open op old kept (Owed r) c n) :
    Ends (Smooth maxRetries op)
      (fun header c n => ∃ data, CorrectReply r data ∧ header = some (some (unpack (replyHeader data))) ∧
        Open op old (answered r data ++ kept) (fun n => Idle [] (payload data) n.connection) c n)
      (Thrown op old kept) (recvReplyWithin timeout) c n := by
  refine Ends.tryCatch (F := Thrown op old kept) ?_ ?_
  · apply (ends_settimeout (stable_owed r) h _).bind
    intro _ c n h
    refine (ends_recvReply h).bind ?_
    rintro _ c n ⟨data, hdata, rfl, h⟩
    apply (ends_settimeout (stable_idle _ _) h _).bind
    intro _ c n h
    exact .pure ⟨data, hdata, rfl, h⟩
  · rintro e c n he
    rw [if_neg he.1]
    exact .throw he

/-- A payload of as many bytes as the client asks for. -/
theorem ends_recv_payload {bytes : List Byte} {k : Nat} (hk : bytes.length = k) (hpos : 0 < k)
    (h : Open op old kept (fun n => Idle [] bytes n.connection) c n) :
    Ends (Smooth maxRetries op) (fun payload c n => payload = bytes ∧ Open op old kept Quiet c n)
      (Thrown op old kept) (recv k) c n := by
  refine (ends_recv (stable_idle [] bytes) h hpos (Q := fun payload n => payload = bytes ∧ Quiet n) ?_).mono ?_
    fun _ _ _ h => h
  · rintro n payload rest ⟨hin, hrest⟩ hsplit hlength
    rw [hin, ← List.append_nil bytes] at hsplit
    obtain ⟨rfl, rfl⟩ := List.append_inj hsplit (hk.trans hlength.symm)
    exact ⟨rfl, rfl, hrest⟩
  · rintro payload c n ⟨hkept, hsocket, hrefused, rfl, hidle⟩
    exact ⟨rfl, hkept, hsocket, hrefused, hidle⟩

theorem ends_recvPayload {bytes : List Byte} {k : Nat} (hk : bytes.length = k)
    (h : Open op old kept (fun n => Idle [] bytes n.connection) c n) :
    Ends (Smooth maxRetries op) (fun payload c n => payload = bytes ∧ Open op old kept Quiet c n)
      (Thrown op old kept) (recvPayload k) c n := by
  unfold recvPayload
  split
  · rename_i hzero
    obtain rfl := List.eq_nil_of_length_eq_zero (hk.trans hzero)
    exact .pure ⟨rfl, h⟩
  · rename_i hpos
    exact ends_recv_payload hk (Nat.pos_of_ne_zero hpos) h

/-! ## Connections -/

section Connections

variable {E : ClientError → TCPBlockDeviceClient → Net → Prop}

/-- The reply to a request of another type than `READ` and `LIST_OFFSETS` has no payload, nor has an error. -/
theorem payload_eq_nil {r : RequestFrame} {data : DriverData} (hdata : CorrectReply r data)
    (h : data.status = .success → r.code ≠ 0 ∧ r.code ≠ 6) : payload data = [] := by
  apply List.eq_nil_of_length_eq_zero
  rw [length_payload, if_neg]
  rintro ⟨hstatus, htype⟩
  obtain ⟨hread, hlist⟩ := h hstatus
  rw [hdata.repliesTo.type] at htype
  change ActionType.ofCode r.code = .read ∨ ActionType.ofCode r.code = .listOffsets at htype
  unfold ActionType.ofCode at htype
  split at htype <;> simp_all

/-- A successful reply to `LIST_OFFSETS` has its list as payload. -/
theorem payload_eq_buffer {r : RequestFrame} {data : DriverData} (hdata : CorrectReply r data)
    (hcode : r.code = 0 ∨ r.code = 6) (hstatus : data.status = .success) : payload data = data.buffer := by
  have htype : data.type = ActionType.ofCode r.code := hdata.repliesTo.type
  rcases hcode with hcode | hcode <;> rw [hcode] at htype <;>
    simp only [payload, sendsPayload, hstatus, htype, ActionType.ofCode] <;> cases data.buffer <;> rfl

/-- A list of offsets is read whole. -/
theorem ends_queryOffsets (h : Resting op old kept c n) :
    Ends (Smooth maxRetries op) (fun _ => Resting op old kept) (fun _ => Resting op old kept) queryOffsets
      c n := by
  by_cases hc : c.socket = true
  swap
  · refine Ends.bind (ends_onSocket_none (Q := fun _ _ _ => False) (by simpa using hc) h) ?_
    rintro _ _ _ ⟨⟩
  apply (ends_settimeout (stable_idle [] []) (h.open hc) _).bind
  intro _ c n h
  refine (ends_newHandle c n).bind ?_
  rintro handle c n ⟨hhandle, rfl, hm⟩
  have h := h.moves (stable_idle [] []) hm
  have hunsent : ∀ e c n, Unsent maxRetries op old kept e c n → Resting op old kept c n := fun e c n h => h.1.2
  have hnone : (([] : List Byte).length : Int) = if 6 = 1 then 0 else 0 := rfl
  refine ((ends_pack hnone h.resting).mono (fun _ _ _ h => h) hunsent).bind ?_
  rintro _ c n ⟨rfl, rfl, r, hr, rfl⟩
  have hbytes : [] ++ r.header = r.bytes := by
    rw [RequestFrame.bytes, hr.payload, List.append_nil, List.nil_append]
  refine ((ends_sendall_rest hbytes h).mono (fun _ _ _ h => h) hunsent).bind fun _ c n h => ?_
  refine ((ends_recv_header h).mono (fun _ _ _ h => h) fun _ _ _ h => h.2).bind ?_
  rintro _ c n ⟨data, hdata, rfl, h⟩
  dsimp only
  rw [if_pos (length_replyHeader data), unpack_replyHeader hdata]
  have hfinish : ∀ c n, Open op old (answered r data ++ kept) Quiet c n →
      Ends (Smooth maxRetries op) (fun _ => Resting op old kept) (fun _ => Resting op old kept)
        (settimeout none) c n := fun c n h =>
    (ends_settimeout (E := fun _ => Resting op old kept) (stable_idle [] []) h none).mono
      (fun _ c n h => h.resting.mono_kept (List.subset_append_right _ _)) fun _ _ _ h => h
  by_cases hlist : (if data.status = .success then 0 else eio) = 0 ∧ 0 < replyLen data
  · rw [if_pos hlist]
    obtain ⟨hok, hpos⟩ := hlist
    have hstatus : data.status = .success := by
      by_contra hne
      rw [if_neg hne] at hok
      cases hok
    have hlength : (payload data).length = replyLen data := by
      have htype : data.type = .listOffsets := by
        rw [hdata.repliesTo.type]
        change ActionType.ofCode r.code = _
        rw [hr.code]
        rfl
      rw [length_payload, if_pos ⟨hstatus, .inr htype⟩]
    refine ((ends_recv_payload hlength hpos h).mono (fun _ _ _ h => h) fun _ c n h =>
      h.2.mono_kept (List.subset_append_right _ _)).bind ?_
    rintro _ c n ⟨rfl, h⟩
    rw [payload_eq_buffer hdata (.inr hr.code) hstatus]
    refine Ends.bind (.modify (Q := fun _ => Open op old (answered r data ++ kept) Quiet) ?_)
      fun _ c n h => hfinish c n h
    exact ⟨⟨h.events, .listed h.offsets (h.events _ (by simp)) (h.events _ (by simp)) hr.code hstatus⟩,
      h.socket, h.refused, h.stream⟩
  · -- without a list there is no payload
    rw [if_neg hlist]
    have hnil : payload data = [] := by
      apply List.eq_nil_of_length_eq_zero
      rw [length_payload]
      split
      · rename_i hlists
        rw [if_pos hlists.1] at hlist
        omega
      · rfl
    rw [hnil] at h
    exact hfinish c n h

/-- Whatever is thrown in `discover_offsets`, nothing is on the way. -/
theorem ends_discoverOffsets (h : Resting op old kept c n) :
    Ends (Smooth maxRetries op) (fun _ => Resting op old kept) E discoverOffsets c n := by
  apply (ends_queryOffsets h).tryCatch
  intro _ c n h
  refine Ends.bind (.get (Q := fun a c' n' => a = c ∧ c' = c ∧ n' = n) ⟨rfl, rfl, rfl⟩) ?_
  rintro _ c n ⟨rfl, rfl, rfl⟩
  split
  · rename_i hc
    exact (ends_settimeout (E := E) (stable_idle [] []) (h.open hc) none).mono (fun _ c n h => h.resting)
      fun _ _ _ h => h
  · exact .pure h

/-- The fields of a client that has given up its socket. -/
abbrev closed (c : TCPBlockDeviceClient) : TCPBlockDeviceClient := { c with socket := false }

theorem Resting.closed (h : Resting op old kept c n) : Resting op old kept (closed c) n :=
  ⟨⟨h.events, h.offsets⟩, nofun, h.idle⟩

/-- A new connection has nothing on the way. An attempt that fails is counted. -/
theorem ends_openSocket (h : Resting op old kept c n) :
    Ends (Smooth maxRetries op) (fun _ => Resting op old kept)
      (fun e c' n' => e = .os ∧ Resting op old kept (closed c') n' ∧ n'.refused = n.refused + 1 ∧
        (op.ReturnsSize → n'.refused < maxRetries)) openSocket c n := by
  refine Ends.bind (.modify (Q := fun _ c' n' => c' = { c with socket := true } ∧ n' = n) ⟨rfl, rfl⟩) ?_
  rintro _ _ n ⟨rfl, rfl⟩
  refine Ends.bind (.call (o := .connect) (exists_smooth n _)
    (Q := fun a c' n' => c' = { c with socket := true } ∧ Smooth maxRetries op n .connect a n')
    fun a n' ha => ⟨rfl, ha⟩) ?_
  rintro a _ n' ⟨rfl, ⟨n₁, hm, hcall⟩, -, hleft⟩
  -- the server may have moved before it is asked
  obtain ⟨h₁, hrefused⟩ := h.moves hm
  cases hcall with
  | connected => exact .pure ⟨⟨h₁.events, h₁.offsets⟩, fun _ => rfl, rfl, fun _ => ⟨rfl, rfl⟩⟩
  | refused =>
    refine .throw ⟨rfl, ⟨⟨h₁.events, h₁.offsets⟩, nofun, rfl, nofun⟩, congrArg Nat.succ hrefused, fun hsized => ?_⟩
    exact hleft hsized trivial

theorem ends_closeSocket (h : Resting op old kept (closed c) n) :
    Ends (Smooth maxRetries op) (fun _ c' n' => Resting op old kept c' n' ∧ n'.refused = n.refused) E
      closeSocket c n := by
  refine Ends.bind (.get (Q := fun a c' n' => a = c ∧ c' = c ∧ n' = n) ⟨rfl, rfl, rfl⟩) ?_
  rintro _ c n ⟨rfl, rfl, rfl⟩
  split
  · refine Ends.bind (.call (o := .close) (exists_smooth n _)
      (Q := fun _ c' n' => Resting op old kept (TCPBlockDeviceClient.closed c') n' ∧ n'.refused = n.refused) ?_)
      fun _ c n h => .modify h
    rintro a n' ⟨⟨n₁, hm, hcall⟩, -, -⟩
    obtain ⟨h₁, hrefused⟩ := h.moves hm
    -- what was on the way is gone with the connection
    cases hcall
    exact ⟨⟨⟨h₁.events, h₁.offsets⟩, nofun, rfl, nofun⟩, hrefused⟩
  · rename_i hc
    exact .pure ⟨⟨⟨h.events, h.offsets⟩, fun hc' => absurd hc' hc, h.idle⟩, rfl⟩

/-- `connect_with_retry` with attempts left to it, of which a `test_get_size` does not need the last. -/
theorem ends_connectWithRetry {attempts : Nat} (h : Resting op old kept c n)
    (hleft : op.ReturnsSize → 0 < attempts ∧ n.refused + attempts = maxRetries) :
    Ends (Smooth maxRetries op)
      (fun connected c n => Resting op old kept c n ∧ (op.ReturnsSize → connected = true)) E
      (connectWithRetry attempts) c n := by
  induction attempts generalizing c n with
  | zero => exact .pure ⟨h, fun hsized => absurd (hleft hsized).1 (Nat.lt_irrefl 0)⟩
  | succ attempts ih =>
    -- one attempt, with what it leaves for the attempts after it
    have hattempt : Ends (Smooth maxRetries op)
        (fun connected c' n' => Resting op old kept c' n' ∧ (connected = false →
          op.ReturnsSize → 0 < attempts ∧ n'.refused + attempts = maxRetries)) E
        (tryCatch (do openSocket; discoverOffsets; return true) fun e => do
          if e.isOSError then
            closeSocket
            if 0 < attempts then call ClientCall.sleep
            return false
          else throw e) c n := by
      refine Ends.tryCatch (F := fun e c' n' => e = .os ∧ Resting op old kept (closed c') n' ∧
        n'.refused = n.refused + 1 ∧ (op.ReturnsSize → n'.refused < maxRetries)) ?_ ?_
      · apply (ends_openSocket h).bind
        intro _ c n h
        exact (ends_discoverOffsets h).bind fun _ c n h => .pure ⟨h, nofun⟩
      · rintro _ c' n' ⟨rfl, h, hrefused, hlt⟩
        -- a refused attempt costs one of those that are left
        have hleft' : op.ReturnsSize → 0 < attempts ∧ n'.refused + attempts = maxRetries := fun hsized => by
          have := hleft hsized
          have := hlt hsized
          omega
        refine (ends_closeSocket h).bind ?_
        rintro _ c n ⟨h, hsame⟩
        rw [← hsame] at hleft'
        split
        · refine (ends_sleep c n).bind ?_
          rintro _ c n ⟨rfl, hm⟩
          obtain ⟨h, hsame'⟩ := h.moves hm
          exact .pure ⟨h, fun _ => hsame' ▸ hleft'⟩
        · exact .pure ⟨h, fun _ => hleft'⟩
    refine hattempt.bind ?_
    rintro (- | -) c n ⟨h, hleft⟩
    · exact ih h (hleft rfl)
    · exact .pure ⟨h, fun _ => rfl⟩

end Connections

/-- The request of an operation is sent, or it could not be sent at all. -/
theorem ends_sendRequestWithReconnect {type handle : Nat} {offset length : Int} {data : List Byte}
    (hdata : (data.length : Int) = if type = 1 then length else 0) (h : Resting op old kept c n) :
    Ends (Smooth maxRetries op)
      (fun sent c n => if sent then ∃ r, Asked type offset length data r ∧ Open op old kept (Owed r) c n
        else Resting op old kept c n ∧ ¬ op.ReturnsSize)
      (Thrown op old kept) (sendRequestWithReconnect maxRetries type handle offset length data) c n := by
  -- the first attempt and the one after the reconnect are the same
  have hsend : ∀ c n, Resting op old kept c n → Ends (Smooth maxRetries op)
      (fun (sent : Bool) c n => if sent then ∃ r, Asked type offset length data r ∧ Open op old kept (Owed r) c n
        else Resting op old kept c n ∧ ¬ op.ReturnsSize)
      (Unsent maxRetries op old kept) (do sendRequest type handle offset length data; return true) c n :=
    fun c n h => (ends_sendRequest hdata h).bind fun _ c n h => .pure (by rwa [if_pos rfl])
  refine (hsend c n h).tryCatch ?_
  rintro e c n ⟨⟨htimeout, h⟩, hbroken⟩
  cases e with
  | timeout => exact absurd rfl htimeout
  | os =>
    -- the socket broke: connect anew, and send once more
    obtain ⟨hc, hpos⟩ := hbroken rfl
    have hrefused : n.refused = 0 := h.refused hc
    refine (ends_closeSocket (E := Thrown op old kept) h.closed).bind ?_
    rintro _ c n' ⟨h, hsame⟩
    refine (ends_connectWithRetry (E := Thrown op old kept) h fun hsized => ⟨hpos hsized, by omega⟩).bind ?_
    rintro (- | -) c n ⟨h, hconnected⟩
    · exact .pure ⟨h, fun hsized => by cases hconnected hsized⟩
    · exact (hsend c n h).mono (fun _ _ _ h => h) fun _ _ _ h => h.1
  | other => exact .throw ⟨htimeout, h⟩

/-! ## Operations -/

theorem carries_of_kept {type : Nat} {offset length : Int} {payload : List Byte} {r : RequestFrame}
    {data : DriverData} {gives : DriverData → Prop} (h : Kept op old kept c n)
    (hsub : answered r data ⊆ kept) (hr : Asked type offset length payload r) (hdata : CorrectReply r data)
    (hgives : gives data) : Carries n.events (Asked type offset length payload) gives :=
  ⟨r, data, h.events _ (hsub (by simp)), h.events _ (hsub (by simp)), hr, hdata.repliesTo.handle, hgives⟩

/-- A request under a new handle, and the header of its reply. -/
theorem ends_ask {type timeout : Nat} {offset length : Int} {data : List Byte} {α : Type}
    {Q : α → TCPBlockDeviceClient → Net → Prop} {next : Option (Option ReplyHeader) → ClientProg α} {a : α}
    (hdata : (data.length : Int) = if type = 1 then length else 0) (h : Resting op old [] c n)
    (hunsent : ∀ c n, Resting op old [] c n → ¬ op.ReturnsSize → Q a c n)
    (hnext : ∀ c n r reply, Asked type offset length data r → CorrectReply r reply →
      Open op old (answered r reply) (fun n => Idle [] (payload reply) n.connection) c n →
      Ends (Smooth maxRetries op) Q (Thrown op old [])
        (next (some (some (unpack (replyHeader reply))))) c n) :
    Ends (Smooth maxRetries op) Q (Thrown op old [])
      (do
        let handle ← newHandle
        if ← sendRequestWithReconnect maxRetries type handle offset length data then
          next (← recvReplyWithin timeout)
        else return a) c n := by
  refine (ends_newHandle c n).bind ?_
  rintro handle c n ⟨-, rfl, hm⟩
  refine (ends_sendRequestWithReconnect hdata (h.moves hm).1).bind ?_
  rintro (- | -) c n h
  · exact .pure (hunsent c n h.1 h.2)
  · obtain ⟨r, hr, h⟩ := h
    refine (ends_recvReplyWithin timeout h).bind ?_
    rintro _ c n ⟨reply, hreply, rfl, h⟩
    -- no reply is kept from before, and this one is the only one
    rw [List.append_nil] at h
    exact hnext c n r reply hr hreply h

/-- The stream is quiet when the reply has been read. -/
theorem Open.done {events : List Event} (h : Open op old events Quiet c n) : Resting op old [] c n :=
  h.resting.mono_kept (List.nil_subset _)

/-- A reply without a payload leaves nothing. -/
theorem Open.quiet {r : RequestFrame} {data : DriverData}
    (h : Open op old kept (fun n => Idle [] (payload data) n.connection) c n) (hdata : CorrectReply r data)
    (hnone : data.status = .success → r.code ≠ 0 ∧ r.code ≠ 6) : Open op old kept Quiet c n := by
  rwa [payload_eq_nil hdata hnone] at h

theorem ends_testWrite {offset : Int} {data : List Byte} (hop : op = .testWrite offset data)
    (h : Resting op old [] c n) :
    Ends (Smooth maxRetries op)
      (fun status c n => op.Matches n.events (.status status) ∧ Resting op old [] c n) (Thrown op old [])
      (testWrite maxRetries offset data) c n := by
  refine ends_ask (by simp) h ?_ ?_
  · exact fun c n h _ => ⟨by rw [hop]; trivial, h⟩
  · intro c n r reply hr hreply h
    have h := h.quiet hreply fun _ => by simp [hr.code]
    refine Ends.bind (.modify (Q := fun _ => Open op old (answered r reply) Quiet) ?_) fun _ c n h => ?_
    · exact ⟨⟨h.events, .wrote h.offsets hop⟩, h.socket, h.refused, h.stream⟩
    · refine .pure ⟨?_, h.done⟩
      rw [hop]
      exact carries_of_kept h.toKept (List.Subset.refl _) hr hreply (status_unpack hreply)

/-- A `READ` that has succeeded has as many bytes as the client asks for. -/
theorem length_payload_read {r : RequestFrame} {data : DriverData} (hdata : CorrectReply r data)
    (hcode : r.code = 0) (hstatus : data.status = .success) : (payload data).length = r.len := by
  have htype : data.type = .read := by
    rw [hdata.repliesTo.type]
    change ActionType.ofCode r.code = _
    rw [hcode]
    rfl
  rw [payload_eq_buffer hdata (.inl hcode) hstatus]
  exact hdata.repliesTo.read htype hstatus

theorem ends_testRead {offset length : Int} (hop : op = .testRead offset length)
    (h : Resting op old [] c n) :
    Ends (Smooth maxRetries op)
      (fun payload c n => op.Matches n.events (.data payload) ∧ Resting op old [] c n) (Thrown op old [])
      (testRead maxRetries offset length) c n := by
  refine ends_ask (by simp) h ?_ ?_
  · exact fun c n h _ => ⟨by rw [hop]; trivial, h⟩
  · intro c n r reply hr hreply h
    change Ends _ _ _ (if (unpack (replyHeader reply)).error = 0 then _ else _) c n
    by_cases hstatus : reply.status = .success
    · rw [if_pos ((error_unpack hreply).mpr hstatus)]
      -- a `READ` that succeeds brings as many bytes as were asked for
      have hlength : (payload reply).length = length.toNat := by
        have hlen := hr.len
        rw [length_payload_read hreply hr.code hstatus]
        omega
      refine ((ends_recvPayload hlength h).mono (fun _ _ _ h => h) fun _ _ _ h =>
        ⟨h.1, h.2.mono_kept (List.nil_subset _)⟩).bind ?_
      rintro _ c n ⟨rfl, h⟩
      refine .pure ⟨?_, h.done⟩
      rw [hop, payload_eq_buffer hreply (.inl hr.code) hstatus]
      exact carries_of_kept h.toKept (List.Subset.refl _) hr hreply ⟨hstatus, rfl⟩
    · -- a failed `READ` brings none
      rw [if_neg (mt (error_unpack hreply).mp hstatus)]
      exact .pure ⟨by rw [hop]; trivial, (h.quiet hreply fun h => absurd h hstatus).done⟩

theorem ends_testFlush (hop : op = .testFlush) (h : Resting op old [] c n) :
    Ends (Smooth maxRetries op)
      (fun status c n => op.Matches n.events (.status status) ∧ Resting op old [] c n) (Thrown op old [])
      (testFlush maxRetries) c n := by
  refine ends_ask (by simp) h ?_ ?_
  · exact fun c n h _ => ⟨by rw [hop]; trivial, h⟩
  · intro c n r reply hr hreply h
    have h := h.quiet hreply fun _ => by simp [hr.code]
    refine .pure ⟨?_, h.done⟩
    rw [hop]
    exact carries_of_kept h.toKept (List.Subset.refl _) hr hreply (status_unpack hreply)

theorem ends_testGetSize {offset : Int} (hop : op = .testGetSize offset) (h : Resting op old [] c n) :
    Ends (Smooth maxRetries op)
      (fun size c n => op.Matches n.events (.size size) ∧ Resting op old [] c n) (Thrown op old [])
      (testGetSize maxRetries offset) c n := by
  refine ends_ask (by simp) h ?_ ?_
  · exact fun c n _ hsized => absurd ⟨offset, hop⟩ hsized
  · intro c n r reply hr hreply h
    have h := h.quiet hreply fun _ => by simp [hr.code]
    have htype : reply.type = .getSize := by
      rw [hreply.repliesTo.type]
      change ActionType.ofCode r.code = _
      rw [hr.code]
      rfl
    -- the client looks at the error field alone
    change Ends _ _ _ (if (unpack (replyHeader reply)).error = 0 then _ else _) c n
    by_cases hstatus : reply.status = .success
    · rw [if_pos ((error_unpack hreply).mpr hstatus)]
      refine .pure ⟨?_, h.done⟩
      rw [hop, unpack_replyHeader hreply]
      refine carries_of_kept h.toKept (List.Subset.refl _) hr hreply ?_
      simp only [replyLen, hstatus, htype, if_true]
    · rw [if_neg (mt (error_unpack hreply).mp hstatus)]
      refine .pure ⟨?_, h.done⟩
      rw [hop]
      refine carries_of_kept h.toKept (List.Subset.refl _) hr hreply ?_
      rw [if_neg hstatus]

theorem ends_testCycle {offset : Int} {data : List Byte} (hop : op = .testCycle offset data)
    (h : Resting op old [] c n) :
    Ends (Smooth maxRetries op)
      (fun cycle c n => op.Matches n.events (.cycle cycle) ∧ Resting op old [] c n) (Thrown op old [])
      (testCycle maxRetries offset data) c n := by
  refine (ends_sendRequestWithReconnect (by simp) h).bind ?_
  rintro (- | -) c n h
  · exact .pure ⟨by rw [hop]; exact ⟨nofun, nofun, nofun⟩, h.1⟩
  obtain ⟨w, hw, h⟩ := h
  refine (ends_recvReply h).bind ?_
  rintro _ c n ⟨written, hwritten, rfl, h⟩
  have h := h.quiet hwritten fun _ => by simp [hw.code]
  rw [List.append_nil] at h
  -- the reply to the `WRITE` stays known
  have hwrite : ∀ {kept c n}, Kept op old kept c n → answered w written ⊆ kept →
      ∀ status, some (unpack (replyHeader written)).status = some status →
        Carries n.events (Asked 1 offset data.length data) fun reply => status = statusText reply := by
    rintro kept c n h hsub _ ⟨⟩
    exact carries_of_kept h hsub hw hwritten (status_unpack hwritten)
  have hthrown : ∀ e c n, Thrown op old (answered w written) e c n → Thrown op old [] e c n :=
    fun e c n h => ⟨h.1, h.2.mono_kept (List.nil_subset _)⟩
  refine (ends_sleep c n).bind ?_
  rintro _ c n ⟨rfl, hm⟩
  refine ((ends_sendRequestWithReconnect (by simp) (h.resting.moves hm).1).mono (fun _ _ _ h => h) hthrown).bind ?_
  rintro (- | -) c n h
  · refine .pure ⟨?_, h.1.mono_kept (List.nil_subset _)⟩
    rw [hop]
    exact ⟨hwrite h.1.toKept (List.Subset.refl _), nofun, nofun⟩
  obtain ⟨r, hr, h⟩ := h
  refine ((ends_recvReply h).mono (fun _ _ _ h => h) hthrown).bind ?_
  rintro _ c n ⟨reply, hreply, rfl, h⟩
  have hread : ∀ {c n}, Kept op old (answered r reply ++ answered w written) c n →
      ∀ status, some (unpack (replyHeader reply)).status = some status →
        Carries n.events (Asked 0 offset data.length []) fun reply => status = statusText reply := by
    rintro c n h _ ⟨⟩
    exact carries_of_kept h (List.subset_append_left _ _) hr hreply (status_unpack hreply)
  change Ends _ _ _ (if (unpack (replyHeader reply)).error = 0 then _ else _) c n
  by_cases hstatus : reply.status = .success
  · rw [if_pos ((error_unpack hreply).mpr hstatus)]
    have hlength : (payload reply).length = (unpack (replyHeader reply)).len := by
      rw [unpack_replyHeader hreply, length_payload, if_pos]
      refine ⟨hstatus, .inl ?_⟩
      rw [hreply.repliesTo.type]
      change ActionType.ofCode r.code = _
      rw [hr.code]
      rfl
    refine ((ends_recvPayload hlength h).mono (fun _ _ _ h => h) fun _ _ _ h =>
      ⟨h.1, h.2.mono_kept (List.nil_subset _)⟩).bind ?_
    rintro _ c n ⟨rfl, h⟩
    refine .pure ⟨?_, h.done⟩
    rw [hop]
    refine ⟨hwrite h.toKept (List.subset_append_right _ _), hread h.toKept, ?_⟩
    rintro _ ⟨⟩
    rw [payload_eq_buffer hreply (.inl hr.code) hstatus]
    exact carries_of_kept h.toKept (List.subset_append_left _ _) hr hreply ⟨hstatus, rfl⟩
  · rw [if_neg (mt (error_unpack hreply).mp hstatus)]
    have h := h.quiet hreply fun h => absurd h hstatus
    refine .pure ⟨?_, h.done⟩
    rw [hop]
    exact ⟨hwrite h.toKept (List.subset_append_right _ _), hread h.toKept, nofun⟩

/-- An operation reports what the reply to its request carries, and leaves nothing on the way. -/
theorem ends_method (h : Resting op old [] c n) :
    Ends (Smooth maxRetries op) (fun outcome c n => op.Matches n.events outcome ∧ Resting op old [] c n)
      (Thrown op old []) (op.method maxRetries) c n := by
  cases hop : op with
  | connect =>
    subst hop
    refine .map ((ends_connectWithRetry h ?_).mono (fun _ _ _ h => ⟨trivial, h.1⟩) fun _ _ _ h => h)
    rintro ⟨offset, hsized⟩
    cases hsized
  | discoverOffsets =>
    subst hop
    exact .map ((ends_discoverOffsets h).mono (fun _ _ _ h => ⟨trivial, h⟩) fun _ _ _ h => h)
  | testWrite offset data => exact .map (ends_testWrite rfl (hop ▸ h))
  | testRead offset length => exact .map (ends_testRead rfl (hop ▸ h))
  | testFlush => exact .map (ends_testFlush rfl (hop ▸ h))
  | testGetSize offset => exact .map (ends_testGetSize rfl (hop ▸ h))
  | testCycle offset data => exact .map (ends_testCycle rfl (hop ▸ h))
  | disconnect =>
    subst hop
    exact .map ((ends_closeSocket h.closed).mono (fun _ _ _ h => ⟨trivial, h.1⟩) fun _ _ _ h => h)

/-! ## Sessions -/

theorem Session.reports_match_of_quiet {reports : List Report} {c' : TCPBlockDeviceClient}
    (hs : Session (Smooth maxRetries) maxRetries c n reports c' n') (hrefused : c.socket = true → n.refused = 0)
    (hidle : Quiet n) : ∀ report ∈ reports, report.Matches := by
  induction hs with
  | nil => nofun
  | @cons c c₁ c' n n₁ n' op tr result reports h _ ih =>
    -- an operation starts with no events of its own, on a connection at rest
    have hstart : Resting op c.writtenOffsets [] c { n with events := [] } :=
      ⟨⟨nofun, .refl⟩, hrefused, hidle⟩
    obtain ⟨hok, herror⟩ := (ends_method hstart).of_steps h
    have hresting : Resting op c.writtenOffsets [] c₁ n₁ := by
      cases result with
      | ok outcome => exact (hok outcome rfl).2
      | error e => exact (herror e rfl).2
    rintro report hreport
    rcases List.mem_cons.mp hreport with rfl | hreport
    · exact ⟨fun outcome he => (hok outcome he).1, hresting.offsets⟩
    · exact ih hresting.refused hresting.idle report hreport

/-- **Reports and replies.** In a session whose calls are smooth every operation reports what the reply to
its own request carries. -/
theorem Session.reports_match {reports : List Report} {c' : TCPBlockDeviceClient}
    (hs : Session (Smooth maxRetries) maxRetries initial Net.initial reports c' n') :
    ∀ report ∈ reports, report.Matches :=
  hs.reports_match_of_quiet nofun ⟨rfl, nofun⟩

/-! ## Runs -/

theorem arrives_bytes (r : RequestFrame) : Arrives r.bytes [r] [] where
  split := by simp
  incomplete r' more h := by
    have hlength := congrArg List.length h
    simp only [RequestFrame.bytes, List.length_append, r'.length_header, List.length_nil] at hlength
    omega

/-- The server answers the first of the requests. -/
theorem Moves.answer_head {n : Net} {asked : List RequestFrame} {r : RequestFrame} {data : DriverData}
    (hup : n.connection.up = true) (hasked : n.connection.asked = r :: asked) (hdata : CorrectReply r data) :
    Moves n (n.answer r data asked) :=
  @Moves.answer n [] asked r data hup hasked hdata

section Runs

variable {α : Type} {o : ClientCall} {a : o.Answer} {k : o.Answer → Prog ClientCall ClientCall.Answer α}
  {n n₁ n' : Net} {tr : List (Exchange ClientCall ClientCall.Answer)}
  {q : Prog ClientCall ClientCall.Answer α}

theorem Calls.steps (h : Calls n o a n₁) (hs : Steps Network (k a) n₁ tr q n') :
    Steps Network (.call o k) n (⟨o, a⟩ :: tr) q n' :=
  .call ⟨n, .refl, h⟩ hs

theorem Network.smooth (h : Network n o a n₁) (hw : Whole o a) (hf : ¬ Failed o a)
    (hs : Steps (Smooth maxRetries op) (k a) n₁ tr q n') :
    Steps (Smooth maxRetries op) (.call o k) n (⟨o, a⟩ :: tr) q n' :=
  .call ⟨h, hw, fun _ h => absurd h hf⟩ hs

theorem Calls.smooth (h : Calls n o a n₁) (hw : Whole o a) (hf : ¬ Failed o a)
    (hs : Steps (Smooth maxRetries op) (k a) n₁ tr q n') :
    Steps (Smooth maxRetries op) (.call o k) n (⟨o, a⟩ :: tr) q n' :=
  Network.smooth ⟨n, .refl, h⟩ hw hf hs

end Runs

theorem zero_lt_offset : 0 < 2 ^ 64 := by decide

theorem zero_lt_len : 0 < 2 ^ 32 := by decide

theorem length_no_payload {code : Nat} (hone : code ≠ 1) :
    ([] : List Byte).length = if code = 1 then 0 else 0 := by
  rw [if_neg hone]
  rfl

/-- A request of the client without a payload. -/
def plainRequest (code handle : Nat) (hcode : code < 2 ^ 32) (hone : code ≠ 1) (hhandle : handle < 2 ^ 64) :
    RequestFrame :=
  ⟨code, handle, 0, 0, [], hcode, hhandle, zero_lt_offset, zero_lt_len, length_no_payload hone⟩

/-- A `LIST_OFFSETS`. -/
def listRequest : RequestFrame := plainRequest 6 1 (by decide) (by decide) (by decide)

/-- The reply to it, a list of one entry. -/
def listReply : DriverData := { listRequest.data 5 with buffer := List.replicate 16 0 }

/-- A `GET_SIZE`. -/
def sizeRequest : RequestFrame := plainRequest 5 2 (by decide) (by decide) (by decide)

/-- The reply to it. -/
def sizeReply : DriverData := { sizeRequest.data 5 with len := 5 }

theorem correctReply_listReply : CorrectReply listRequest listReply :=
  ⟨⟨rfl, rfl, rfl, nofun⟩, by decide⟩

theorem correctReply_sizeReply : CorrectReply sizeRequest sizeReply :=
  ⟨⟨rfl, rfl, rfl, nofun⟩, by decide⟩

/-- A connection that has brought the list of offsets. -/
def listed : Net := ⟨⟨true, none, [], [], []⟩, 0, [.request listRequest, .reply listRequest listReply]⟩

theorem exists_steps_listed : ∃ tr written, Steps (Smooth 10 .connect) ((Operation.connect.method 10).exec initial)
    { Net.initial with events := [] } tr (.ret (.ok .nothing, ⟨true, written⟩)) listed := by
  have hsplit : replyFrame listReply = replyHeader listReply ++ payload listReply := rfl
  have hpayload : payload listReply = List.replicate 16 0 ++ [] := rfl
  exact ⟨_, _, Calls.connected.smooth trivial nofun <| Calls.settimeout.smooth trivial nofun <|
    (.time : Calls _ .time 1 _).smooth trivial nofun <|
    (Calls.sent rfl (arrives_bytes listRequest)).smooth nofun nofun <|
    Network.smooth ⟨_, .single (Moves.answer_head rfl rfl correctReply_listReply),
      .received (length_replyHeader _).le nofun hsplit⟩ (length_replyHeader _) nofun <|
    (.received (le_refl 16) nofun hpayload : Calls _ (.recv 16) (.ok (List.replicate 16 0)) _).smooth rfl nofun <|
    Calls.settimeout.smooth trivial nofun <| .refl _ _⟩

theorem exists_steps_size (written : List Int) : ∃ tr n,
    Steps (Smooth 10 (.testGetSize 0)) (((Operation.testGetSize 0).method 10).exec ⟨true, written⟩)
      { listed with events := [] } tr (.ret (.ok (.size 5), ⟨true, written⟩)) n := by
  have hsplit : replyFrame sizeReply = replyHeader sizeReply ++ [] := rfl
  exact ⟨_, _, (.time : Calls _ .time 2 _).smooth trivial nofun <|
    (Calls.sent rfl (arrives_bytes sizeRequest)).smooth nofun nofun <|
    Calls.settimeout.smooth trivial nofun <|
    Network.smooth ⟨_, .single (Moves.answer_head rfl rfl correctReply_sizeReply),
      .received (length_replyHeader _).le nofun hsplit⟩ (length_replyHeader _) nofun <|
    Calls.settimeout.smooth trivial nofun <| .refl _ _⟩

/-- A list of offsets, and then a size. -/
theorem reports_match_size : ∃ reports c n, Session (Smooth 10) 10 initial Net.initial reports c n ∧
    reports.map Report.result = [.ok .nothing, .ok (.size 5)] ∧ ∀ report ∈ reports, report.Matches := by
  obtain ⟨tr, written, hlist⟩ := exists_steps_listed
  obtain ⟨tr', n, hsize⟩ := exists_steps_size written
  have hs := Session.cons hlist (.cons hsize .nil)
  exact ⟨_, _, _, hs, rfl, hs.reports_match⟩

/-- A connection whose list of offsets has not come in time. -/
def late : Net := ⟨⟨true, none, [], [listRequest], []⟩, 0, [.request listRequest]⟩

theorem exists_steps_late : ∃ tr, Steps Network ((Operation.connect.method 10).exec initial)
    { Net.initial with events := [] } tr (.ret (.ok .nothing, ⟨true, []⟩)) late :=
  ⟨_, Calls.connected.steps <| Calls.settimeout.steps <| (.time : Calls _ .time 1 _).steps <|
    (Calls.sent rfl (arrives_bytes listRequest)).steps <| (Calls.recvTimesOut rfl).steps <|
    Calls.settimeout.steps <| .refl _ _⟩

/-- The header of the list, which comes then, is taken for the one of the size. -/
theorem exists_steps_size_late : ∃ tr n,
    Steps Network (((Operation.testGetSize 0).method 10).exec ⟨true, []⟩) { late with events := [] } tr
      (.ret (.ok (.size 16), ⟨true, []⟩)) n ∧
      n.events = [.request sizeRequest, .reply listRequest listReply, .reply sizeRequest sizeReply] := by
  have hsplit : replyFrame listReply ++ replyFrame sizeReply =
      replyHeader listReply ++ (payload listReply ++ replyFrame sizeReply) := by
    rw [replyFrame_eq, List.append_assoc]
  exact ⟨_, _, (.time : Calls _ .time 2 _).steps <| (Calls.sent rfl (arrives_bytes sizeRequest)).steps <|
    Calls.settimeout.steps <|
    .call ⟨_, .tail (.single (Moves.answer_head rfl rfl correctReply_listReply))
      (Moves.answer_head rfl rfl correctReply_sizeReply),
      .received (length_replyHeader _).le nofun hsplit⟩ <|
    Calls.settimeout.steps <| .refl _ _, rfl⟩

/-- A reply that comes after its timeout is taken for the one of the next operation. -/
theorem late_reply : ¬ ∀ reports c n, Session (fun _ => Network) 10 initial Net.initial reports c n →
    ∀ report ∈ reports, report.Matches := by
  intro h
  obtain ⟨tr, hconnect⟩ := exists_steps_late
  obtain ⟨tr', n, hsize, hevents⟩ := exists_steps_size_late
  have hreport := h _ _ _ (.cons hconnect (.cons hsize .nil)) _ (List.mem_cons_of_mem _ List.mem_cons_self)
  obtain ⟨r, data, hrequest, hreply, -, -, hlen⟩ := hreport.outcome _ rfl
  simp only [hevents, List.mem_cons, Event.request.injEq, Event.reply.injEq, reduceCtorEq, false_or,
    or_false, List.not_mem_nil] at hrequest hreply
  subst hrequest
  rcases hreply with ⟨hr, -⟩ | ⟨-, rfl⟩
  · cases congrArg RequestFrame.code hr
  · cases hlen

end TCPBlockDeviceClient

end LDS
