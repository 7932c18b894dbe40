import LDS.Library.Bytes
import LDS.Library.Memory
import LDS.Server.ServerCall

/-!
# The TCP driver

`TCPDriverComm` reads requests from the sockets of its clients and writes the replies to the
descriptor that a request came from. Its log is left out.

## Main definitions

* `TCPDriverComm.receiveRequest`, `TCPDriverComm.sendReply`: requests and replies
* `TCPDriverComm.tryAccept`, `TCPDriverComm.removeClientFD`: clients come and go
* `TCPDriverComm.FromClient fd data`: the fields of a request

## Main results

* `TCPDriverComm.obeys_receiveRequest`, `TCPDriverComm.obeys_sendReply`: the calls that they make
-/

namespace LDS

open Memory

/-- `EIO`. -/
def eio : Nat := 5

namespace TCPDriverComm

/-- `TCPDriverComm::ReadAll`. -/
def readAll (fd : Int) (count : Nat) : ServerProg (Except String (List Byte)) :=
  LDS.readAll ("Read failed: " ++ ·) "Client disconnected" fd count

/-- `TCPDriverComm::WriteAll`. -/
def writeAll (fd : Int) (buf : List Byte) : ServerProg (Except String Unit) :=
  LDS.writeAll ("Write failed: " ++ ·) "Write failed - client disconnected" fd buf

/-- `TCPDriverComm::ReceiveRequest`. The header is packed: type, handle, offset and length, in
network order. -/
def receiveRequest (fd : Int) : ServerProg (Except String DriverData) := do
  match ← readAll fd 24 with
  | .error what => return .error what
  | .ok header =>
    let type := ofBigEndian (slice header 0 4)
    let handle := ofBigEndian (slice header 4 8)
    let offset := ofBigEndian (slice header 12 8)
    let len := ofBigEndian (slice header 20 4)
    let ret : DriverData := { DriverData.new (.ofCode type) handle offset len with sourceFd := fd }
    if ret.type = .write then
      match ← readAll fd len with
      | .error what => return .error what
      | .ok payload =>
        let ret := { ret with buffer := payload }
        Prog.perform (ServerCall.updateAllocation offset ret.buffer)
        Prog.perform ServerCall.saveAllocations
        return .ok ret
    else return .ok ret

/-- The `len` field of a reply. -/
def replyLen (data : DriverData) : Nat :=
  match data.status, data.type with
  | .success, .read => data.buffer.length
  | .success, .listOffsets => data.buffer.length
  | .success, .getSize => data.len
  | _, _ => 0

/-- `send_payload`. -/
def sendsPayload (data : DriverData) : Bool :=
  match data.status, data.type with
  | .success, .read => !data.buffer.isEmpty
  | .success, .listOffsets => !data.buffer.isEmpty
  | _, _ => false

/-- The packed header of a reply: error, handle and length, in network order. -/
def replyHeader (data : DriverData) : List Byte :=
  bigEndian 4 (if data.status = .success then 0 else eio) ++ bigEndian 8 data.handle ++
    bigEndian 4 (replyLen data)

/-- `TCPDriverComm::SendReply`. The exceptions of `WriteAll` are caught. -/
def sendReply (data : DriverData) : ServerProg (Except String Unit) :=
  if data.sourceFd < 0 then return .ok ()
  else do
    match ← writeAll data.sourceFd (replyHeader data) with
    | .error _ => return .ok ()
    | .ok () =>
      if sendsPayload data then do
        let _ ← writeAll data.sourceFd data.buffer
        return .ok ()
      else return .ok ()

/-- `TCPDriverComm::AcceptNextClient`. -/
def acceptNextClient (listenFd : Int) : ServerProg Int := do
  match ← Prog.perform (ServerCall.accept listenFd) with
  | .error _ => return -1
  | .ok (newFd, clientIp) =>
    Prog.perform (ServerCall.insertClient newFd)
    Prog.perform (ServerCall.recordClientIP newFd clientIp)
    return newFd

/-- `TCPDriverComm::TryAccept`. -/
def tryAccept (listenFd fd : Int) : ServerProg Int :=
  if fd ≠ listenFd then return -1
  else acceptNextClient listenFd

/-- An event of a client accepts nobody. -/
theorem tryAccept_of_ne {listenFd fd : Int} (h : fd ≠ listenFd) : tryAccept listenFd fd = .ret (-1) := by
  rw [tryAccept, if_pos h, Prog.pure_eq]

/-- `TCPDriverComm::RemoveClientFD`. The address is for the log. -/
def removeClientFD (fd : Int) : ServerProg Unit := do
  Prog.perform (ServerCall.eraseClient fd)
  let _ip ← Prog.perform (ServerCall.getClientIP fd)
  Prog.perform (ServerCall.forgetClientIP fd)
  Prog.perform (ServerCall.close fd)

section Obeys

variable {φ : Type} {C : Prog.Contract ServerCall ServerCall.Answer φ} {P₀ P : φ → Prop} {x : φ}
  {fd : Int}

/-- What `ReceiveRequest` makes of any header and payload. -/
structure FromClient (fd : Int) (data : DriverData) : Prop where
  sourceFd : data.sourceFd = fd
  offset_lt : data.offset < 2 ^ 64
  status : data.status = .success
  length_buffer : data.buffer.length = data.len

/-- A field of a header is below the bound of its type. -/
theorem ofBigEndian_slice_lt (bytes : List Byte) (a n : Nat) :
    ofBigEndian (slice bytes a n) < 256 ^ n := by
  refine Nat.lt_of_lt_of_le (ofBigEndian_lt _) (Nat.pow_le_pow_right (by decide) ?_)
  rw [slice, List.length_take]
  exact Nat.min_le_left _ _

/-- `ReceiveRequest` reads from its descriptor before anything else, and makes a request of what it
reads. -/
theorem obeys_receiveRequest (h₀ : ∀ n, C.Leads P₀ P (.read fd n))
    (h : ∀ n, C.Leads P P (.read fd n))
    (hupdate : ∀ offset data, C.Leads P P (.updateAllocation offset data))
    (hsave : C.Leads P P .saveAllocations) (hx : P₀ x) :
    Prog.Obeys C (fun y r => P y ∧ ∀ data, r = .ok data → FromClient fd data) x
      (receiveRequest fd) := by
  refine (obeys_readAll h₀ h hx 24).bind ?_
  rintro y (what | header) ⟨hy, -⟩
  · exact .ret ⟨hy.resolve_left fun h => absurd h.2 (by decide), fun data hd => by cases hd⟩
  have hy : P y := hy.resolve_left fun h => absurd h.2 (by decide)
  have hoff : ofBigEndian (slice header 12 8) < 2 ^ 64 := ofBigEndian_slice_lt header 12 8
  dsimp only
  split
  · -- a `WRITE` brings its payload
    refine (obeys_readAll h h hy _).bind ?_
    rintro z (what | payload) ⟨hz, hlen⟩
    · exact .ret ⟨hz.elim And.left id, fun data hd => by cases hd⟩
    · refine .call_of_leads (hupdate _ _) (hz.elim And.left id) fun z₁ _ hz₁ => ?_
      refine .call_of_leads hsave hz₁ fun z₂ _ hz₂ => ?_
      refine .ret ⟨hz₂, fun data hd => ?_⟩
      obtain rfl := Except.ok.inj hd
      exact ⟨rfl, hoff, rfl, hlen _ rfl⟩
  · refine .ret ⟨hy, fun data hd => ?_⟩
    obtain rfl := Except.ok.inj hd
    exact ⟨rfl, hoff, rfl, List.length_replicate⟩

/-- `TryAccept` accepts on the listening socket only, and enters the client that it gets. -/
theorem obeys_tryAccept {l : Int} (haccept : fd = l → C.Leads P P (.accept l))
    (hinsert : ∀ newFd, C.Leads P P (.insertClient newFd))
    (hrecord : ∀ newFd ip, C.Leads P P (.recordClientIP newFd ip)) (hx : P x) :
    Prog.Obeys C (fun y _ => P y) x (tryAccept l fd) := by
  rcases ne_or_eq fd l with hfd | rfl
  · rw [tryAccept_of_ne hfd]
    exact .ret hx
  · rw [tryAccept, if_neg (not_not_intro rfl)]
    refine .call_of_leads (haccept rfl) hx ?_
    rintro y (errno | ⟨newFd, ip⟩) hy
    · exact .ret hy
    · refine .call_of_leads (hinsert newFd) hy fun y₁ _ hy₁ => ?_
      refine .call_of_leads (hrecord newFd ip) hy₁ fun y₂ _ hy₂ => ?_
      exact .ret hy₂

/-- `SendReply` makes nothing but `write` calls on the descriptor of the request. -/
theorem obeys_sendReply {data : DriverData} (h : ∀ buf, C.Leads P P (.write data.sourceFd buf))
    (hx : P x) : Prog.Obeys C (fun y _ => P y) x (sendReply data) := by
  rw [sendReply]
  split
  · exact .ret hx
  · refine (obeys_writeAll h hx _).bind ?_
    rintro y (what | ⟨⟩) hy
    · exact .ret hy
    · dsimp only
      split
      · exact (obeys_writeAll h hy _).bind fun z _ hz => .ret hz
      · exact .ret hy

end Obeys

/-- The driver that listens on `listenFd`, which is `m_listen_fd`. -/
def toIDriverComm (listenFd : Int) : IDriverComm where
  receiveRequest := receiveRequest
  sendReply := sendReply
  removeClientFD := removeClientFD
  tryAccept := tryAccept listenFd

end TCPDriverComm

end LDS
