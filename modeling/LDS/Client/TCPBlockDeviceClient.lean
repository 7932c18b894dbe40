import LDS.Library.Method
import LDS.Server.ListOffsets

/-!
# `client.py`

The client packs a request, sends it and reads a header with one `recv`, and what follows the header with
another. It checks neither the handle of a reply nor, apart from the header, how many bytes it was given.

## Main definitions

* `ClientCall`: the calls of the client on its socket and on the clock
* `TCPBlockDeviceClient.Operation`: the operations of the menu, and `discover_offsets`
-/

namespace LDS

open Memory

/-- The exceptions of the socket, and any other. `socket.timeout` is an `OSError`, as the errors of a
broken or refused connection are. -/
inductive ClientError
  | timeout
  | os
  | other
  deriving DecidableEq

/-- What `except OSError` catches. -/
def ClientError.isOSError : ClientError → Bool
  | timeout => true
  | os => true
  | other => false

/-- The calls of the client: a new socket that is connected, the methods of the socket, `time.time` and
`time.sleep`. Times are in milliseconds. -/
inductive ClientCall
  | connect
  | close
  | settimeout (timeout : Option Nat)
  | sendall (bytes : List Byte)
  | recv (n : Nat)
  | time
  | sleep

/-- What a call returns or throws. -/
abbrev ClientCall.Answer : ClientCall → Type
  | connect => Except ClientError Unit
  | close => Unit
  | settimeout _ => Unit
  | sendall _ => Except ClientError Unit
  | recv _ => Except ClientError (List Byte)
  | time => Nat
  | sleep => Unit

/-- The fields of the client. `socket` says whether `self.socket` is not `None`. -/
structure TCPBlockDeviceClient where
  socket : Bool
  writtenOffsets : List Int

/-- The methods of the client. -/
abbrev ClientProg := Method ClientCall ClientCall.Answer TCPBlockDeviceClient ClientError

namespace TCPBlockDeviceClient

open Method

/-! ## Replies and offsets -/

/-- The header of a reply. -/
structure ReplyHeader where
  error : Nat
  handle : Nat
  len : Nat

/-- `struct.unpack('>I Q I', header)`. -/
def unpack (header : List Byte) : ReplyHeader where
  error := ofBigEndian (slice header 0 4)
  handle := ofBigEndian (slice header 4 8)
  len := ofBigEndian (slice header 12 4)

/-- The status that is printed. -/
def ReplyHeader.status (header : ReplyHeader) : String :=
  if header.error = 0 then "SUCCESS" else "ERROR(" ++ toString header.error ++ ")"

/-- `struct.pack('>I Q Q I', ...)`, which throws if a value does not fit its field. -/
def pack (type handle : Nat) (offset length : Int) : ClientProg (List Byte) :=
  if type < 2 ^ 32 ∧ handle < 2 ^ 64 ∧ (0 ≤ offset ∧ offset < 2 ^ 64) ∧ (0 ≤ length ∧ length < 2 ^ 32) then
    pure (bigEndian 4 type ++ bigEndian 8 handle ++ bigEndian 8 offset.toNat ++ bigEndian 4 length.toNat)
  else throw .other

/-- `if offset not in written_offsets: written_offsets.append(offset)`. -/
def appendOffset (written : List Int) (offset : Int) : List Int :=
  if offset ∈ written then written else written ++ [offset]

/-- `written_offsets.sort()`. -/
def sortOffsets (written : List Int) : List Int := written.mergeSort (· ≤ ·)

/-- An offset that has been written. -/
def noteOffset (written : List Int) (offset : Int) : List Int :=
  if offset ∈ written then written else sortOffsets (written ++ [offset])

/-- The offsets of a `LIST_OFFSETS` payload. -/
def noteOffsets (written : List Int) (data : List Byte) : List Int :=
  sortOffsets ((TCPDriverComm.splitOffsets data).foldl (fun w e => appendOffset w e.1) written)

/-! ## The socket -/

/-- A method of `self.socket`, which has none if it is `None`. -/
def onSocket (p : ClientProg α) : ClientProg α := do
  if (← get).socket then p else throw .other

def settimeout (timeout : Option Nat) : ClientProg Unit := onSocket (call (ClientCall.settimeout timeout))

def sendall (bytes : List Byte) : ClientProg Unit := onSocket (call (ClientCall.sendall bytes) >>= ofExcept)

def recv (n : Nat) : ClientProg (List Byte) := onSocket (call (ClientCall.recv n) >>= ofExcept)

/-- `int(time.time() * 1000) % 1000000`. -/
def newHandle : ClientProg Nat := do
  return (← call ClientCall.time) % 1000000

/-! ## Requests and replies -/

def sendRequest (type handle : Nat) (offset length : Int) (data : List Byte) : ClientProg Unit := do
  let header ← pack type handle offset length
  sendall header
  -- only a `WRITE` has a payload
  if type = 1 ∧ data ≠ [] then sendall data

/-- The header of a reply, or `None` if one `recv` did not give all of it. -/
def recvReply : ClientProg (Option ReplyHeader) := do
  let header ← recv 16
  if header.length < 16 then return none else return some (unpack header)

/-- What one `recv` gives. -/
def recvPayload (length : Nat) : ClientProg (List Byte) :=
  if length = 0 then return [] else recv length

/-- The part of `discover_offsets` that may throw. -/
def queryOffsets : ClientProg Unit := do
  settimeout (some 2000)
  let handle ← newHandle
  let header ← pack 6 handle 0 0
  sendall header
  let replyHeader ← recv 16
  if replyHeader.length = 16 then
    let reply := unpack replyHeader
    if reply.error = 0 ∧ 0 < reply.len then
      let data ← recv reply.len
      modify fun c => { c with writtenOffsets := noteOffsets c.writtenOffsets data }
  settimeout none

/-- `discover_offsets`. Whatever is thrown is caught. -/
def discoverOffsets : ClientProg Unit :=
  tryCatch queryOffsets fun _ => do
    if (← get).socket then settimeout none

/-- `self.socket = socket.socket(...)`, and `self.socket.connect(...)`. -/
def openSocket : ClientProg Unit := do
  modify fun c => { c with socket := true }
  call ClientCall.connect >>= ofExcept

/-- Close the socket and forget it. What `close` throws is caught. -/
def closeSocket : ClientProg Unit := do
  if (← get).socket then
    call ClientCall.close
    modify fun c => { c with socket := false }

/-- `connect_with_retry`, with the attempts that are left. -/
def connectWithRetry : Nat → ClientProg Bool
  | 0 => return false
  | attempts + 1 => do
    let connected ← tryCatch (do openSocket; discoverOffsets; return true) fun e => do
      if e.isOSError then
        closeSocket
        -- there is no pause after the last attempt
        if 0 < attempts then call ClientCall.sleep
        return false
      else throw e
    if connected then return true else connectWithRetry attempts

/-- `disconnect`. -/
def disconnect : ClientProg Unit := closeSocket

/-- `send_request_with_reconnect`. On a new connection the request is sent once more, and what this throws
is not caught. -/
def sendRequestWithReconnect (maxRetries type handle : Nat) (offset length : Int) (data : List Byte) :
    ClientProg Bool :=
  tryCatch (do sendRequest type handle offset length data; return true) fun e => do
    if e.isOSError then
      disconnect
      if ← connectWithRetry maxRetries then
        sendRequest type handle offset length data
        return true
      else return false
    else throw e

/-! ## Operations -/

/-- The result of `recv_reply` with a timeout, or `none` if it takes longer. -/
def recvReplyWithin (timeout : Nat) : ClientProg (Option (Option ReplyHeader)) :=
  tryCatch
    (do
      settimeout (some timeout)
      let header ← recvReply
      settimeout none
      return some header)
    fun e => do
      if e = .timeout then
        settimeout none
        return none
      else throw e

/-- `test_write`, which prints the status of the reply, if there is one. -/
def testWrite (maxRetries : Nat) (offset : Int) (data : List Byte) : ClientProg (Option String) := do
  let handle ← newHandle
  if ← sendRequestWithReconnect maxRetries 1 handle offset data.length data then
    let reply ← recvReplyWithin 500
    modify fun c => { c with writtenOffsets := noteOffset c.writtenOffsets offset }
    return reply.join.map ReplyHeader.status
  else return none

/-- `test_read`. It asks the socket for the length of the request, not for the one of the reply. -/
def testRead (maxRetries : Nat) (offset length : Int) : ClientProg (Option (List Byte)) := do
  let handle ← newHandle
  if ← sendRequestWithReconnect maxRetries 0 handle offset length [] then
    match (← recvReplyWithin 5000).join with
    | some header =>
      if header.error = 0 then return some (← recvPayload length.toNat) else return none
    | none => return none
  else return none

/-- `test_flush`, which prints the status of the reply, if there is one. -/
def testFlush (maxRetries : Nat) : ClientProg (Option String) := do
  let handle ← newHandle
  if ← sendRequestWithReconnect maxRetries 3 handle 0 0 [] then
    return (← recvReplyWithin 5000).join.map ReplyHeader.status
  else return none

/-- `test_get_size`, which is 0 if there is no size. -/
def testGetSize (maxRetries : Nat) (offset : Int) : ClientProg Nat := do
  let handle ← newHandle
  if ← sendRequestWithReconnect maxRetries 5 handle offset 0 [] then
    match (← recvReplyWithin 5000).join with
    | some header => if header.error = 0 then return header.len else return 0
    | none => return 0
  else return 0

/-- What `test_cycle` prints: the status of each reply, and whether the data match. -/
structure Cycle where
  write : Option String
  read : Option String
  dataMatch : Option Bool

/-- `test_cycle`, which waits for its replies without a timeout. -/
def testCycle (maxRetries : Nat) (offset : Int) (data : List Byte) : ClientProg Cycle := do
  if ← sendRequestWithReconnect maxRetries 1 100 offset data.length data then
    let write := (← recvReply).map ReplyHeader.status
    call ClientCall.sleep
    if ← sendRequestWithReconnect maxRetries 0 101 offset data.length [] then
      match ← recvReply with
      | some header =>
        if header.error = 0 then
          let payload ← recvPayload header.len
          return ⟨write, some header.status, some (payload = data)⟩
        else return ⟨write, some header.status, none⟩
      | none => return ⟨write, none, none⟩
    else return ⟨write, none, none⟩
  else return ⟨none, none, none⟩

/-- The operations. -/
inductive Operation
  | connect
  | discoverOffsets
  | testWrite (offset : Int) (data : List Byte)
  | testRead (offset length : Int)
  | testFlush
  | testGetSize (offset : Int)
  | testCycle (offset : Int) (data : List Byte)
  | disconnect

/-- What an operation returns or prints. -/
inductive Outcome
  | nothing
  | status (status : Option String)
  | data (payload : Option (List Byte))
  | size (size : Nat)
  | cycle (cycle : Cycle)

/-- The method of an operation. -/
def Operation.method (maxRetries : Nat) : Operation → ClientProg Outcome
  | connect => (fun _ => .nothing) <$> connectWithRetry maxRetries
  | discoverOffsets => (fun _ => .nothing) <$> TCPBlockDeviceClient.discoverOffsets
  | testWrite offset data => .status <$> TCPBlockDeviceClient.testWrite maxRetries offset data
  | testRead offset length => .data <$> TCPBlockDeviceClient.testRead maxRetries offset length
  | testFlush => .status <$> TCPBlockDeviceClient.testFlush maxRetries
  | testGetSize offset => .size <$> TCPBlockDeviceClient.testGetSize maxRetries offset
  | testCycle offset data => .cycle <$> TCPBlockDeviceClient.testCycle maxRetries offset data
  | disconnect => (fun _ => .nothing) <$> TCPBlockDeviceClient.disconnect

end TCPBlockDeviceClient

end LDS
