import LDS.Server.NBDDriverComm
import LDS.Server.Socket

/-!
# Requests on one socket

A client packs a request into a header and, for a `WRITE`, a payload, and sends one after the other.
The stream has no marks between them: each `ReceiveRequest` takes off it exactly what the sender of
the request put there, however the kernel cuts the stream into pieces.

## Main definitions

* `TCPDriverComm.RequestFrame`, `NBDDriverComm.RequestFrame`: well-formed requests
* `receiveAll p n`: `n` calls of `ReceiveRequest`

## Main results

* `TCPDriverComm.total_receiveRequest`, `NBDDriverComm.total_receiveRequest`: one call
* `TCPDriverComm.RequestFrame.bytes_append_inj`: where a request ends
* `requests_received`: a sequence of requests is received as it was sent
-/

namespace LDS

open Memory

theorem ActionType.ofCode_eq_write {code : Nat} : ofCode code = .write ↔ code = 1 := by
  constructor
  · unfold ofCode
    split <;> intro h <;> first | rfl | cases h
  · rintro rfl
    rfl

/-! ## TCP -/

namespace TCPDriverComm

/-- A request as a TCP client sends it. -/
structure RequestFrame where
  code : Nat
  handle : Nat
  offset : Nat
  len : Nat
  payload : List Byte
  code_lt : code < 2 ^ 32
  handle_lt : handle < 2 ^ 64
  offset_lt : offset < 2 ^ 64
  len_lt : len < 2 ^ 32
  length_payload : payload.length = if code = 1 then len else 0

namespace RequestFrame

/-- `struct.pack('>I Q Q I', ..)`. -/
def header (r : RequestFrame) : List Byte :=
  bigEndian 4 r.code ++ bigEndian 8 r.handle ++ bigEndian 8 r.offset ++ bigEndian 4 r.len

/-- The bytes of the request. -/
def bytes (r : RequestFrame) : List Byte := r.header ++ r.payload

/-- The request, received on `fd`. Only a `WRITE` has a payload; the buffer of any other request is
zeroed. -/
def data (fd : Int) (r : RequestFrame) : DriverData where
  type := .ofCode r.code
  handle := r.handle
  offset := r.offset
  len := r.len
  status := .success
  buffer := if r.code = 1 then r.payload else List.replicate r.len 0
  sourceFd := fd

theorem length_header (r : RequestFrame) : r.header.length = 24 := by simp [header]

/-- The fields of a header are where `ReceiveRequest` looks for them. -/
theorem fields (r : RequestFrame) :
    ofBigEndian (slice r.header 0 4) = r.code ∧ ofBigEndian (slice r.header 4 8) = r.handle ∧
      ofBigEndian (slice r.header 12 8) = r.offset ∧ ofBigEndian (slice r.header 20 4) = r.len := by
  refine ⟨?_, ?_, ?_, ?_⟩ <;>
    simp only [header, slice_append_right, slice_append_left, slice_self, List.length_append,
      length_bigEndian, Nat.reduceAdd, Nat.reduceSub, Nat.reduceLeDiff, Nat.le_refl]
  · exact ofBigEndian_bigEndian r.code_lt
  · exact ofBigEndian_bigEndian r.handle_lt
  · exact ofBigEndian_bigEndian r.offset_lt
  · exact ofBigEndian_bigEndian r.len_lt

/-- A stream of bytes begins with one request at most. -/
theorem bytes_append_inj {r r' : RequestFrame} {rest rest' : List Byte}
    (h : r.bytes ++ rest = r'.bytes ++ rest') : r = r' ∧ rest = rest' := by
  rw [bytes, bytes, List.append_assoc, List.append_assoc] at h
  obtain ⟨hheader, hrest⟩ := List.append_inj h (by rw [r.length_header, r'.length_header])
  have hfields := r.fields
  rw [hheader] at hfields
  obtain ⟨hcode, hhandle, hoffset, hlen⟩ := hfields
  obtain ⟨hcode', hhandle', hoffset', hlen'⟩ := r'.fields
  have hsame : r.code = r'.code ∧ r.len = r'.len := ⟨hcode.symm.trans hcode', hlen.symm.trans hlen'⟩
  -- the header tells how long the payload is
  have hlength : r.payload.length = r'.payload.length := by
    rw [r.length_payload, r'.length_payload, hsame.1, hsame.2]
  obtain ⟨hpayload, rfl⟩ := List.append_inj hrest hlength
  refine ⟨?_, rfl⟩
  cases r
  cases r'
  simp_all

end RequestFrame

/-- `ReceiveRequest` takes one request off the stream. -/
theorem total_receiveRequest (fd : Int) (r : RequestFrame) (rest : List Byte) :
    Prog.Total (Delivers fd) (fun a s => a = .ok (r.data fd) ∧ s = rest) (receiveRequest fd)
      (r.bytes ++ rest) := by
  obtain ⟨hcode, hhandle, hoffset, hlen⟩ := r.fields
  rw [RequestFrame.bytes, List.append_assoc]
  refine (total_readAll fd r.length_header _).bind ?_
  rintro _ _ ⟨rfl, rfl⟩
  dsimp only
  rw [hcode, hhandle, hoffset, hlen]
  have hpayload := r.length_payload
  have htype : (DriverData.new (.ofCode r.code) r.handle r.offset r.len).type = .write ↔ r.code = 1 :=
    ActionType.ofCode_eq_write
  by_cases hw : r.code = 1
  · -- a `WRITE` brings its payload
    rw [if_pos (htype.mpr hw)]
    rw [if_pos hw] at hpayload
    refine (total_readAll fd hpayload rest).bind ?_
    rintro _ _ ⟨rfl, rfl⟩
    refine .call ⟨_, _, .updateAllocation⟩ ?_
    rintro _ _ ⟨⟩
    refine .call ⟨_, _, .saveAllocations⟩ ?_
    rintro _ _ ⟨⟩
    refine .ret ⟨?_, rfl⟩
    rw [RequestFrame.data, if_pos hw]
    rfl
  · rw [if_neg (fun h => hw (htype.mp h))]
    rw [if_neg hw] at hpayload
    obtain hnil := List.eq_nil_of_length_eq_zero hpayload
    refine .ret ⟨?_, by rw [hnil, List.nil_append]⟩
    rw [RequestFrame.data, if_neg hw]
    rfl

end TCPDriverComm

/-! ## NBD -/

namespace NBDDriverComm

/-- A request as the kernel sends it: an `nbd_request` of one of the known commands. -/
structure RequestFrame where
  command : Nat
  action : ActionType
  handle : List Byte
  offset : Nat
  len : Nat
  payload : List Byte
  known : actionOfCommand command = some action
  length_handle : handle.length = 8
  offset_lt : offset < 2 ^ 64
  len_lt : len < 2 ^ 32
  length_payload : payload.length = if action = .write then len else 0

namespace RequestFrame

/-- The `nbd_request`. -/
def header (r : RequestFrame) : List Byte :=
  bigEndian 4 requestMagic ++ bigEndian 4 r.command ++ r.handle ++ bigEndian 8 r.offset ++
    bigEndian 4 r.len

/-- The bytes of the request. -/
def bytes (r : RequestFrame) : List Byte := r.header ++ r.payload

/-- The request, received for `fd`. The handle is kept as the `size_t` that has its bytes. -/
def data (fd : Int) (r : RequestFrame) : DriverData where
  type := r.action
  handle := ofBigEndian r.handle.reverse
  offset := r.offset
  len := r.len
  status := .success
  buffer := if r.action = .write then r.payload else List.replicate r.len 0
  sourceFd := fd

theorem length_header (r : RequestFrame) : r.header.length = 28 := by
  simp [header, r.length_handle]

theorem command_lt (r : RequestFrame) : r.command < 5 := by
  have h := r.known
  unfold actionOfCommand at h
  split at h <;> first | omega | cases h

/-- The fields of an `nbd_request` are where `ReceiveRequest` looks for them. -/
theorem fields (r : RequestFrame) :
    ofBigEndian (slice r.header 0 4) = requestMagic ∧
      ofBigEndian (slice r.header 4 4) = r.command ∧ slice r.header 8 8 = r.handle ∧
      ofBigEndian (slice r.header 16 8) = r.offset ∧ ofBigEndian (slice r.header 24 4) = r.len := by
  have hcommand := r.command_lt
  refine ⟨?_, ?_, ?_, ?_, ?_⟩ <;>
    simp only [header, slice_append_right, slice_append_left, slice_self, List.length_append,
      length_bigEndian, r.length_handle, Nat.reduceAdd, Nat.reduceSub, Nat.reduceLeDiff, Nat.le_refl]
  · exact ofBigEndian_bigEndian (by decide)
  · exact ofBigEndian_bigEndian (by omega)
  · exact ofBigEndian_bigEndian r.offset_lt
  · exact ofBigEndian_bigEndian r.len_lt

end RequestFrame

/-- `ReceiveRequest` takes one request off the stream. -/
theorem total_receiveRequest (serverFd fd : Int) (r : RequestFrame) (rest : List Byte) :
    Prog.Total (Delivers serverFd) (fun a s => a = .ok (r.data fd) ∧ s = rest)
      (receiveRequest serverFd fd) (r.bytes ++ rest) := by
  obtain ⟨hmagic, hcommand, hhandle, hoffset, hlen⟩ := r.fields
  rw [RequestFrame.bytes, List.append_assoc]
  refine (total_readAll serverFd r.length_header _).bind ?_
  rintro _ _ ⟨rfl, rfl⟩
  dsimp only
  rw [hmagic, hcommand, hhandle, hoffset, hlen, if_neg (fun h => h rfl), r.known]
  dsimp only
  have hpayload := r.length_payload
  by_cases hw : r.action = .write
  · -- a `WRITE` brings its payload
    rw [if_pos hw]
    rw [if_pos hw] at hpayload
    refine (total_readAll serverFd hpayload rest).bind ?_
    rintro _ _ ⟨rfl, rfl⟩
    refine .ret ⟨?_, rfl⟩
    rw [RequestFrame.data, if_pos hw]
    rfl
  · rw [if_neg hw]
    rw [if_neg hw] at hpayload
    obtain hnil := List.eq_nil_of_length_eq_zero hpayload
    refine .ret ⟨?_, by rw [hnil, List.nil_append]⟩
    rw [RequestFrame.data, if_neg hw]
    rfl

end NBDDriverComm

/-! ## Sequences -/

/-- As many calls of `ReceiveRequest`, one after the other, and what each returned or threw. -/
def receiveAll (p : ServerProg (Except String DriverData)) :
    Nat → ServerProg (List (Except String DriverData))
  | 0 => return []
  | n + 1 => do
    let r ← p
    return r :: (← receiveAll p n)

section Sequences

variable {fd : Int}

/-- Calls that take one frame each take a sequence of them. -/
theorem total_receiveAll {Frame : Type} {p : ServerProg (Except String DriverData)}
    {bytes : Frame → List Byte} {data : Frame → DriverData}
    (hp : ∀ r rest, Prog.Total (Delivers fd) (fun a s => a = .ok (data r) ∧ s = rest) p
      (bytes r ++ rest)) (frames : List Frame) (rest : List Byte) :
    Prog.Total (Delivers fd) (fun a s => a = frames.map (fun r => .ok (data r)) ∧ s = rest)
      (receiveAll p frames.length) (frames.flatMap bytes ++ rest) := by
  induction frames with
  | nil => exact .ret ⟨rfl, rfl⟩
  | cons r frames ih =>
    rw [List.flatMap_cons, List.append_assoc]
    refine (hp r _).bind ?_
    rintro _ _ ⟨rfl, rfl⟩
    refine ih.bind ?_
    rintro _ _ ⟨rfl, rfl⟩
    exact .ret ⟨rfl, rfl⟩

/-- **Requests are received as they were sent**, by both drivers: whatever nonempty pieces the stream
comes in, as many calls of `ReceiveRequest` as there are requests end, return them in their order, and
leave the stream where the last of them ends, at whatever follows. -/
theorem requests_received (fd : Int) (rest : List Byte) :
    (∀ frames : List TCPDriverComm.RequestFrame,
      Prog.Total (Delivers fd) (fun a s => a = frames.map (fun r => .ok (r.data fd)) ∧ s = rest)
        (receiveAll (TCPDriverComm.receiveRequest fd) frames.length)
        (frames.flatMap TCPDriverComm.RequestFrame.bytes ++ rest)) ∧
    (∀ (frames : List NBDDriverComm.RequestFrame) (serverFd : Int),
      Prog.Total (Delivers serverFd)
        (fun a s => a = frames.map (fun r => .ok (r.data fd)) ∧ s = rest)
        (receiveAll (NBDDriverComm.receiveRequest serverFd fd) frames.length)
        (frames.flatMap NBDDriverComm.RequestFrame.bytes ++ rest)) :=
  ⟨fun frames => total_receiveAll (TCPDriverComm.total_receiveRequest fd) frames rest,
    fun frames serverFd =>
      total_receiveAll (NBDDriverComm.total_receiveRequest serverFd fd) frames rest⟩

end Sequences

end LDS
