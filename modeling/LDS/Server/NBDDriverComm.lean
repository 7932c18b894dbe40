import LDS.Server.TCPDriverComm

/-!
# The NBD driver

`NBDDriverComm` talks to the kernel's block device over one socket pair; every descriptor it is given
is ignored but recorded in the request.

## Main definitions

* `NBDDriverComm.receiveRequest`, `NBDDriverComm.sendReply`: requests and replies
-/

namespace LDS

open Memory

namespace NBDDriverComm

/-- `NBDDriverComm::ReadAll`. At the end of the stream `errno` is stale, and its text is left out. -/
def readAll (fd : Int) (count : Nat) : ServerProg (Except String (List Byte)) :=
  LDS.readAll ("ReadAll: failed to read from socket: " ++ ·) "ReadAll: failed to read from socket: "
    fd count

/-- `NBDDriverComm::WriteAll`. When nothing is accepted `errno` is stale, and its text is left out. -/
def writeAll (fd : Int) (buf : List Byte) : ServerProg (Except String Unit) :=
  LDS.writeAll ("WriteAll: failed to write to socket: " ++ ·)
    "WriteAll: failed to write to socket: " fd buf

/-- `NBD_REQUEST_MAGIC`. -/
def requestMagic : Nat := 0x25609513

/-- `NBD_REPLY_MAGIC`. -/
def replyMagic : Nat := 0x67446698

/-- The commands of `linux/nbd.h` that the driver knows. -/
def actionOfCommand : Nat → Option ActionType
  | 0 => some .read
  | 1 => some .write
  | 2 => some .disconnect
  | 3 => some .flush
  | 4 => some .trim
  | _ => none

/-- `NBDDriverComm::ReceiveRequest`. An `nbd_request` is its magic, type, handle, offset and length, in
network order but for the handle, whose bytes are copied to a `size_t` as they are. -/
def receiveRequest (serverFd fd : Int) : ServerProg (Except String DriverData) := do
  match ← readAll serverFd 28 with
  | .error what => return .error what
  | .ok request =>
    let magic := ofBigEndian (slice request 0 4)
    if magic ≠ requestMagic then return .error "Invalid NBD request magic"
    else
      let type := ofBigEndian (slice request 4 4)
      let handle := ofBigEndian (slice request 8 8).reverse
      let offset := ofBigEndian (slice request 16 8)
      let len := ofBigEndian (slice request 24 4)
      match actionOfCommand type with
      | none => return .error ("Unknown NBD command type: " ++ toString type)
      | some action =>
        let ret : DriverData := { DriverData.new action handle offset len with sourceFd := fd }
        if action = .write then
          match ← readAll serverFd len with
          | .error what => return .error what
          | .ok payload => return .ok { ret with buffer := payload }
        else return .ok ret

/-- An `nbd_reply`: magic, error and the bytes of the handle. -/
def replyHeader (data : DriverData) : List Byte :=
  bigEndian 4 replyMagic ++ bigEndian 4 (if data.status = .success then 0 else eio) ++
    (bigEndian 8 data.handle).reverse

/-- `NBDDriverComm::SendReply`. -/
def sendReply (serverFd : Int) (data : DriverData) : ServerProg (Except String Unit) := do
  match ← writeAll serverFd (replyHeader data) with
  | .error what => return .error what
  | .ok () =>
    if data.type = .read ∧ data.status = .success then writeAll serverFd data.buffer
    else return .ok ()

/-- The driver over the socket `serverFd`, which is `m_serverFd`. -/
def toIDriverComm (serverFd : Int) : IDriverComm where
  receiveRequest := receiveRequest serverFd
  sendReply := sendReply serverFd
  removeClientFD _ := return ()
  tryAccept _ := return -1

end NBDDriverComm

end LDS
