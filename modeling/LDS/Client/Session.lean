import LDS.Client.TCPBlockDeviceClient

/-!
# Sessions of the client

A stream brings a reply whenever it likes, in pieces of any size. The client takes the next bytes of the
stream for the reply to its last request. That is what they are as long as every `recv` has brought what it
was asked for; a `recv` that gave up or brought less leaves bytes to the operations that follow.

## Main definitions

* `Network`: the environment of the client, with a server that answers every request once
* `Session`: operations of a client, one after the other
* `Report.Matches`: what an operation reports is what the reply to its own request carries
-/

namespace LDS

open Memory

namespace TCPBlockDeviceClient

open TCPDriverComm Method

/-! ## The network -/

/-- One correct reply frame: `data` is of the type and the handle of the request `r`, a `READ` has as many
bytes as were asked for, and the length or size fits its field. -/
structure CorrectReply (r : RequestFrame) (data : DriverData) : Prop where
  repliesTo : RepliesTo (r.data data.sourceFd) data
  len_lt : replyLen data < 2 ^ 32

/-- The replies of the mediator are correct. -/
theorem CorrectReply.of_served {fd : Int} {r : RequestFrame} {data : DriverData} (h : Served fd r data) :
    CorrectReply r data := by
  have hreplies := h.repliesTo
  have hfd : data.sourceFd = fd := hreplies.sourceFd
  exact ⟨hfd ▸ hreplies, h.replyLen_lt⟩

/-- A connection: whether both sides still have it, the timeout of the socket, the bytes of an incomplete
request, the requests that are to be answered, and the bytes of replies that the client has not read. -/
structure Connection where
  up : Bool
  timeout : Option Nat
  pending : List Byte
  asked : List RequestFrame
  incoming : List Byte

/-- No connection. -/
def Connection.closed : Connection := ⟨false, none, [], [], []⟩

/-- What happens at the server. -/
inductive Event
  | request (r : RequestFrame)
  | reply (r : RequestFrame) (data : DriverData)

/-- The connection of the client, the attempts to connect that have failed since the last one that did
not, and what has happened at the server. -/
structure Net where
  connection : Connection
  refused : Nat
  events : List Event

/-- The state after the reply `data` to `r`, with the requests `asked` left. -/
def Net.answer (n : Net) (r : RequestFrame) (data : DriverData) (asked : List RequestFrame) : Net where
  connection :=
    { n.connection with
      asked := asked
      incoming := n.connection.incoming ++ replyFrame data }
  refused := n.refused
  events := n.events ++ [.reply r data]

/-- The server answers a request, in any order, or the connection is lost. -/
inductive Moves : Net → Net → Prop
  | answer {n : Net} {before after : List RequestFrame} {r : RequestFrame} {data : DriverData}
      (hup : n.connection.up = true) (hasked : n.connection.asked = before ++ r :: after)
      (hdata : CorrectReply r data) : Moves n (n.answer r data (before ++ after))
  | lose {n : Net} : Moves n { n with connection.up := false }

/-- The server makes the requests `requests` of the bytes, and waits for more behind `rest`. -/
structure Arrives (bytes : List Byte) (requests : List RequestFrame) (rest : List Byte) : Prop where
  split : bytes = requests.flatMap RequestFrame.bytes ++ rest
  incomplete : ∀ r more, rest ≠ RequestFrame.bytes r ++ more

/-- The state after the bytes have been sent, of which the server makes `requests`. -/
def Net.arrive (n : Net) (requests : List RequestFrame) (rest : List Byte) : Net where
  connection :=
    { n.connection with
      pending := rest
      asked := n.connection.asked ++ requests }
  refused := n.refused
  events := n.events ++ requests.map .request

/-- A call of the client. Only a socket with a timeout times out, and `recv` brings at least one byte as
long as there is a connection. -/
inductive Calls : Environment ClientCall ClientCall.Answer Net
  | connected {n : Net} :
      Calls n .connect (.ok ()) { n with connection := ⟨true, none, [], [], []⟩, refused := 0 }
  | refused {n : Net} :
      Calls n .connect (.error .os) { n with connection := .closed, refused := n.refused + 1 }
  | close {n : Net} : Calls n .close () { n with connection := .closed }
  | settimeout {n : Net} {timeout : Option Nat} :
      Calls n (.settimeout timeout) () { n with connection.timeout := timeout }
  | sent {n : Net} {bytes rest : List Byte} {requests : List RequestFrame}
      (hup : n.connection.up = true) (h : Arrives (n.connection.pending ++ bytes) requests rest) :
      Calls n (.sendall bytes) (.ok ()) (n.arrive requests rest)
  | unsent {n : Net} {bytes : List Byte} (hup : n.connection.up = false) :
      Calls n (.sendall bytes) (.ok ()) n
  | sendFails {n : Net} {bytes : List Byte} :
      Calls n (.sendall bytes) (.error .os) { n with connection.up := false }
  | sendTimesOut {n : Net} {bytes part rest : List Byte} {requests : List RequestFrame}
      (htimeout : n.connection.timeout.isSome) (hpart : part <+: bytes)
      (h : Arrives (n.connection.pending ++ part) requests rest) :
      Calls n (.sendall bytes) (.error .timeout) (n.arrive requests rest)
  | received {n : Net} {k : Nat} {bytes rest : List Byte} (hle : bytes.length ≤ k)
      (hpos : bytes = [] → k = 0) (h : n.connection.incoming = bytes ++ rest) :
      Calls n (.recv k) (.ok bytes) { n with connection.incoming := rest }
  | ended {n : Net} {k : Nat} (hup : n.connection.up = false) (h : n.connection.incoming = []) :
      Calls n (.recv k) (.ok []) n
  | recvFails {n : Net} {k : Nat} :
      Calls n (.recv k) (.error .os) { n with connection.up := false, connection.incoming := [] }
  | recvTimesOut {n : Net} {k : Nat} (htimeout : n.connection.timeout.isSome) :
      Calls n (.recv k) (.error .timeout) n
  | time {n : Net} {ms : Nat} : Calls n .time ms n
  | sleep {n : Net} : Calls n .sleep () n

/-- The environment of the client. Before each of its calls the server may answer some requests, or the
connection may be lost. -/
def Network : Environment ClientCall ClientCall.Answer Net := fun n o a n' =>
  ∃ n₁, Relation.ReflTransGen Moves n n₁ ∧ Calls n₁ o a n'

/-! ## Sessions -/

/-- What an operation has reported, what happened at the server meanwhile, and the written offsets before
and after it. -/
structure Report where
  operation : Operation
  result : Except ClientError Outcome
  events : List Event
  before : List Int
  after : List Int

/-- A client with the fields `c` carries out operations, one after the other. -/
inductive Session (R : Operation → Environment ClientCall ClientCall.Answer Net) (maxRetries : Nat) :
    TCPBlockDeviceClient → Net → List Report → TCPBlockDeviceClient → Net → Prop
  | nil {c : TCPBlockDeviceClient} {n : Net} : Session R maxRetries c n [] c n
  | cons {c c₁ c' : TCPBlockDeviceClient} {n n₁ n' : Net} {op : Operation}
      {tr : List (Exchange ClientCall ClientCall.Answer)} {result : Except ClientError Outcome}
      {reports : List Report}
      (h : Steps (R op) ((op.method maxRetries).exec c) { n with events := [] } tr (.ret (result, c₁)) n₁)
      (hrest : Session R maxRetries c₁ n₁ reports c' n') :
      Session R maxRetries c n
        (⟨op, result, n₁.events, c.writtenOffsets, c₁.writtenOffsets⟩ :: reports) c' n'

/-- A client without a connection. -/
def initial : TCPBlockDeviceClient := ⟨false, []⟩

/-- The network before any operation. -/
def Net.initial : Net := ⟨.closed, 0, []⟩

/-! ## Reports -/

/-- The request of an operation. -/
structure Asked (type : Nat) (offset length : Int) (payload : List Byte) (r : RequestFrame) : Prop where
  code : r.code = type
  offset : (r.offset : Int) = offset
  len : (r.len : Int) = length
  payload : r.payload = payload

/-- A request of the operation was answered, under its handle, by a reply in `gives`. -/
def Carries (events : List Event) (asks : RequestFrame → Prop) (gives : DriverData → Prop) : Prop :=
  ∃ r data, .request r ∈ events ∧ .reply r data ∈ events ∧ asks r ∧ data.handle = r.handle ∧ gives data

/-- The status of a reply, as it is printed. -/
def statusText (data : DriverData) : String :=
  if data.status = .success then "SUCCESS" else "ERROR(" ++ toString eio ++ ")"

/-- The status, size or data of an operation are those of the reply to its request. -/
def Operation.Matches (events : List Event) : Operation → Outcome → Prop
  | .testWrite offset data, .status (some status) =>
    Carries events (Asked 1 offset data.length data) fun reply => status = statusText reply
  | .testRead offset length, .data (some payload) =>
    Carries events (Asked 0 offset length []) fun reply => reply.status = .success ∧ payload = reply.buffer
  | .testFlush, .status (some status) =>
    Carries events (Asked 3 0 0 []) fun reply => status = statusText reply
  | .testGetSize offset, .size size =>
    Carries events (Asked 5 offset 0 []) fun reply =>
      size = if reply.status = .success then reply.len else 0
  | .testCycle offset data, .cycle cycle =>
    (∀ status, cycle.write = some status →
      Carries events (Asked 1 offset data.length data) fun reply => status = statusText reply) ∧
    (∀ status, cycle.read = some status →
      Carries events (Asked 0 offset data.length []) fun reply => status = statusText reply) ∧
    ∀ isMatch, cycle.dataMatch = some isMatch →
      Carries events (Asked 0 offset data.length []) fun reply =>
        reply.status = .success ∧ isMatch = decide (reply.buffer = data)
  | _, _ => True

/-- The written offsets that an operation makes of `old`: it adds the offset that it writes, and whole
lists of offsets that the server has replied. -/
inductive Noted (op : Operation) (events : List Event) (old : List Int) : List Int → Prop
  | refl : Noted op events old old
  | wrote {written : List Int} {offset : Int} {data : List Byte} (h : Noted op events old written)
      (hop : op = .testWrite offset data) : Noted op events old (noteOffset written offset)
  | listed {written : List Int} {r : RequestFrame} {data : DriverData} (h : Noted op events old written)
      (hrequest : .request r ∈ events) (hreply : .reply r data ∈ events) (hcode : r.code = 6)
      (hstatus : data.status = .success) : Noted op events old (noteOffsets written data.buffer)

/-- What the operation returns or prints, and the offsets that it adds, are what the replies to its own
requests carry. -/
structure Report.Matches (report : Report) : Prop where
  outcome : ∀ outcome, report.result = .ok outcome → report.operation.Matches report.events outcome
  offsets : Noted report.operation report.events report.before report.after

end TCPBlockDeviceClient

end LDS
