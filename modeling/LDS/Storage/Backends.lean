import LDS.Library.Service
import LDS.Storage.StorageMinionFile

/-!
# The two minion backends

A file minion and an in-memory minion of one size check the same bounds and keep the same index. What
tells them apart is a transfer inside the bounds that the kernel does not make in one call: the file
minion throws, after a part of it.

## Main definitions

* `MinionCall`: the calls of `IStorageMinion`
* `IStorageMinion.machine`: a minion as a machine that answers them
* `MinionCall.InOneCall S c`: the kernel makes the transfer of `c` in one call

## Main results

* `StorageMinionFile.Same.next`, `StorageMinionFile.Same.output`: such calls keep the minions the same
* `StorageMinionFile.interchangeable_iff`: when the backends are interchangeable
-/

namespace LDS

open Memory

/-! ## Calls -/

/-- The calls of `IStorageMinion`; a `Read` is handed a buffer. -/
inductive MinionCall
  | read (offset : Nat) (buf : List Byte)
  | write (offset : Nat) (buf : List Byte)
  | getDataSize (offset : Nat)

/-- What a call gives back: how it ended, the buffer of a `Read`, and the size that `GetDataSize` gives. -/
inductive MinionResult
  | read (outcome : Outcome Unit) (buf : List Byte)
  | write (outcome : Outcome Unit)
  | getDataSize (size : Nat)
  deriving DecidableEq

/-- A minion as a machine that answers calls. -/
def IStorageMinion.machine (μ : Type) [IStorageMinion μ] : Machine μ MinionCall MinionResult where
  next m
    | .write offset buf => (IStorageMinion.write m offset buf).2
    | _ => m
  output m
    | .read offset buf => .read (IStorageMinion.read m offset buf).1 (IStorageMinion.read m offset buf).2
    | .write offset buf => .write (IStorageMinion.write m offset buf).1
    | .getDataSize offset => .getDataSize (IStorageMinion.getDataSize m offset)

namespace MinionCall

/-- The end of the range of a call. -/
def rangeEnd : MinionCall → Nat
  | read offset buf => offset + buf.length
  | write offset buf => offset + buf.length
  | getDataSize offset => offset

/-- The number of bytes that a call is to move. -/
def len : MinionCall → Nat
  | read _ buf => buf.length
  | write _ buf => buf.length
  | getDataSize _ => 0

/-- The call ends beyond the `S` bytes of the minion, or the kernel makes its transfer in one call. -/
def InOneCall (S : Nat) (c : MinionCall) : Prop := c.rangeEnd ≤ S → c.len ≤ maxTransfer

end MinionCall

namespace StorageMinionFile

/-! ## Transfers -/

variable {image buf : List Byte} {offset count : Nat}

/-- What one call moves of a range of the image. -/
theorem pread_of_fits (h : offset + count ≤ image.length) (hi : image.length < 2 ^ 63) :
    pread image count offset = some (slice image offset (min count maxTransfer)) :=
  if_neg (by omega)

theorem pwrite_of_fits (h : offset + buf.length ≤ image.length) (hi : image.length < 2 ^ 63) :
    pwrite image buf offset =
      some ((buf.take maxTransfer).length, overwrite image offset (buf.take maxTransfer)) := by
  rw [pwrite, if_neg (by omega)]
  simp only
  split
  · rename_i hnil
    rw [hnil, overwrite_nil]
    rfl
  · rw [Nat.sub_eq_zero_of_le (by omega), List.replicate_zero, List.append_nil]

/-! ## The simulation -/

variable {f : StorageMinionFile} {m : StorageMinionMemory} {c : MinionCall}

/-- The minions have one size, the same bytes and the same index. -/
structure Same (f : StorageMinionFile) (m : StorageMinionMemory) : Prop where
  size : f.size = m.size
  image : f.image = m.data
  offsetSizes : f.offsetSizes = m.offsetSizes
  size_lt : m.size < 2 ^ 63

namespace Same

theorem length_image (h : Same f m) : f.image.length = m.size := by
  rw [h.image, m.length_data]

/-- A `Read` of both minions: beyond the bounds, in one call, or in part. -/
theorem read_cases (h : Same f m) (h64 : offset + buf.length < 2 ^ 64) :
    (offset + buf.length ≤ m.size → buf.length ≤ maxTransfer) ∧ f.read offset buf = m.read offset buf ∨
    offset + buf.length ≤ m.size ∧ maxTransfer < buf.length ∧
      (f.read offset buf).1 = .throws "pread returned fewer bytes than requested" ∧
      (m.read offset buf).1 = .ok () := by
  have hl := h.length_image
  have hsize := h.size_lt
  rcases Nat.lt_or_ge m.size (offset + buf.length) with hout | hfit
  · -- the guards are the same
    left
    have hg : addSize offset buf.length > m.size := by rwa [addSize_eq h64]
    refine ⟨fun hle => absurd hle (Nat.not_le_of_lt hout), ?_⟩
    rw [read, readBy, if_pos (by rwa [h.size]), StorageMinionMemory.read, if_pos hg]
  have hg : ¬ addSize offset buf.length > m.size := not_addSize_gt hfit (by omega)
  have hmem : m.read offset buf = (.ok (), slice m.data offset buf.length) := by
    rw [StorageMinionMemory.read, if_neg hg, if_pos (by rwa [m.length_data])]
  have hfile : f.read offset buf = _ := if_neg (by rwa [h.size])
  rw [pread_of_fits (by omega) (by omega), h.image] at hfile
  rcases Nat.lt_or_ge maxTransfer buf.length with hbig | hsmall
  · right
    have hlen : (slice m.data offset (min buf.length maxTransfer)).length = maxTransfer := by
      rw [length_slice (by rw [m.length_data]; omega)]
      omega
    refine ⟨hfit, hbig, ?_, by rw [hmem]⟩
    rw [hfile]
    simp only [hlen]
    rw [if_pos (by omega)]
  · left
    have hlen : (slice m.data offset buf.length).length = buf.length :=
      length_slice (by rwa [m.length_data])
    refine ⟨fun _ => hsmall, ?_⟩
    rw [hfile, hmem, Nat.min_eq_left hsmall]
    simp [hlen]

/-- A `Write` of both minions: beyond the bounds, in one call, or in part. -/
theorem write_cases (h : Same f m) (h64 : offset + buf.length < 2 ^ 64) :
    (offset + buf.length ≤ m.size → buf.length ≤ maxTransfer) ∧
      (f.write offset buf).1 = (m.write offset buf).1 ∧
      Same (f.write offset buf).2 (m.write offset buf).2 ∨
    offset + buf.length ≤ m.size ∧ maxTransfer < buf.length ∧
      (f.write offset buf).1 = .throws "pwrite wrote fewer bytes than requested" ∧
      (m.write offset buf).1 = .ok () := by
  have hl := h.length_image
  have hsize := h.size_lt
  rcases Nat.lt_or_ge m.size (offset + buf.length) with hout | hfit
  · left
    -- the guards are the same
    have hg : addSize offset buf.length > m.size := by rwa [addSize_eq h64]
    refine ⟨fun hle => absurd hle (Nat.not_le_of_lt hout), ?_⟩
    rw [write, writeBy, if_pos (by rwa [h.size]), StorageMinionMemory.write, if_pos hg]
    exact ⟨rfl, h⟩
  have hg : ¬ addSize offset buf.length > m.size := not_addSize_gt hfit (by omega)
  have hdata : offset + buf.length ≤ m.data.length := by rwa [m.length_data]
  have hmem : m.write offset buf = (.ok (), m.copyIn offset buf hdata) := by
    rw [StorageMinionMemory.write, if_neg hg, dif_pos hdata]
  have hfile : f.write offset buf = _ := if_neg (by rwa [h.size])
  rw [pwrite_of_fits (by omega) (by omega), h.image, h.offsetSizes] at hfile
  simp only [List.length_take] at hfile
  rcases Nat.lt_or_ge maxTransfer buf.length with hbig | hsmall
  · right
    refine ⟨hfit, hbig, ?_, by rw [hmem]⟩
    rw [hfile, if_pos (by omega)]
  · left
    refine ⟨fun _ => hsmall, ?_⟩
    rw [hfile, hmem, if_neg (by omega), List.take_of_length_le hsmall]
    exact ⟨rfl, h.size, rfl, rfl, h.size_lt⟩

/-- A call that the kernel makes at once gives the same on both minions, and keeps them the same; any other
one gives something else. -/
theorem call (h : Same f m) (h64 : c.rangeEnd < 2 ^ 64) :
    c.InOneCall m.size ∧
      (IStorageMinion.machine StorageMinionFile).output f c =
        (IStorageMinion.machine StorageMinionMemory).output m c ∧
      Same ((IStorageMinion.machine StorageMinionFile).next f c)
        ((IStorageMinion.machine StorageMinionMemory).next m c) ∨
    ¬ c.InOneCall m.size ∧ (IStorageMinion.machine StorageMinionFile).output f c ≠
      (IStorageMinion.machine StorageMinionMemory).output m c := by
  cases c with
  | read offset buf =>
    rcases h.read_cases h64 with ⟨hcall, he⟩ | ⟨hfit, hbig, hf, hm⟩
    · exact .inl ⟨hcall, congrArg (fun r : Outcome Unit × List Byte => MinionResult.read r.1 r.2) he, h⟩
    · refine .inr ⟨fun hcall => absurd (hcall hfit) (Nat.not_le_of_lt hbig), fun he => ?_⟩
      -- one throws where the other returns
      have hout := (MinionResult.read.inj he).1
      cases hf.symm.trans (hout.trans hm)
  | write offset buf =>
    rcases h.write_cases h64 with ⟨hcall, he, hs⟩ | ⟨hfit, hbig, hf, hm⟩
    · exact .inl ⟨hcall, congrArg MinionResult.write he, hs⟩
    · refine .inr ⟨fun hcall => absurd (hcall hfit) (Nat.not_le_of_lt hbig), fun he => ?_⟩
      have hout := MinionResult.write.inj he
      cases hf.symm.trans (hout.trans hm)
  | getDataSize offset =>
    refine .inl ⟨fun _ => Nat.zero_le _, congrArg MinionResult.getDataSize ?_, h⟩
    exact congrArg (fun sizes : SizeMap => sizes[offset]?.getD 0) h.offsetSizes

/-- Over any calls, until the first one that the kernel does not make at once. -/
theorem calls {cs : List MinionCall} (h : Same f m) (h64 : ∀ c ∈ cs, c.rangeEnd < 2 ^ 64) :
    ((IStorageMinion.machine StorageMinionFile).outputs f cs =
        (IStorageMinion.machine StorageMinionMemory).outputs m cs ∧
      (cs.foldl (IStorageMinion.machine StorageMinionFile).next f).image =
        (cs.foldl (IStorageMinion.machine StorageMinionMemory).next m).data) ↔
    ∀ c ∈ cs, c.InOneCall m.size := by
  induction cs generalizing f m with
  | nil => simp [Machine.outputs, h.image]
  | cons c cs ih =>
    obtain ⟨hc, hcs⟩ := List.forall_mem_cons.mp h64
    have hsize : ((IStorageMinion.machine StorageMinionMemory).next m c).size = m.size := by
      cases c with
      | write offset buf => exact LawfulMinion.size_write m offset buf
      | _ => rfl
    rw [List.forall_mem_cons, Machine.outputs, Machine.outputs, List.foldl_cons, List.foldl_cons]
    rcases h.call hc with ⟨hcall, hout, hs⟩ | ⟨hcall, hout⟩
    · -- the minions stay the same, and the rest decides
      rw [hout, List.cons_inj_right, ih hs hcs, hsize]
      exact (and_iff_right hcall).symm
    · constructor
      · exact fun he => absurd (List.cons.inj he.1).1 hout
      · exact fun he => absurd he.1 hcall

end Same

/-- A new image file and a new array of one size. -/
theorem same_new (filePath : String) {sizeBytes : Nat} (hS : sizeBytes < 2 ^ 63) :
    ∃ f, new filePath [] sizeBytes = .ok f ∧ Same f (.new sizeBytes) := by
  refine ⟨⟨filePath, sizeBytes, List.replicate sizeBytes 0, ∅⟩, ?_, rfl, rfl, rfl, hS⟩
  rw [new, if_pos rfl, if_neg (by omega)]

/-- **The two backends are interchangeable**, over a sequence of calls, exactly if the kernel makes each
transfer inside the bounds in one call. -/
theorem interchangeable_iff (filePath : String) {sizeBytes : Nat} (hS : sizeBytes < 2 ^ 63)
    {cs : List MinionCall} (h64 : ∀ c ∈ cs, c.rangeEnd < 2 ^ 64) :
    ∃ f, new filePath [] sizeBytes = .ok f ∧
      (((IStorageMinion.machine StorageMinionFile).outputs f cs =
          (IStorageMinion.machine StorageMinionMemory).outputs (.new sizeBytes) cs ∧
        (cs.foldl (IStorageMinion.machine StorageMinionFile).next f).image =
          (cs.foldl (IStorageMinion.machine StorageMinionMemory).next (.new sizeBytes)).data) ↔
        ∀ c ∈ cs, c.InOneCall sizeBytes) := by
  obtain ⟨f, hf, hs⟩ := same_new filePath hS
  exact ⟨f, hf, hs.calls h64⟩

/-- A minion of one byte more than the kernel moves in one call, and a `Write` of all of it. -/
theorem large_write_diverges :
    ¬ ∀ (filePath : String) (sizeBytes : Nat) (cs : List MinionCall) (f : StorageMinionFile),
      sizeBytes < 2 ^ 63 → (∀ c ∈ cs, c.rangeEnd < 2 ^ 64) → new filePath [] sizeBytes = .ok f →
        (IStorageMinion.machine StorageMinionFile).outputs f cs =
          (IStorageMinion.machine StorageMinionMemory).outputs (.new sizeBytes) cs := by
  intro h
  have hS : maxTransfer + 1 < 2 ^ 63 := by decide
  obtain ⟨f, hf, hs⟩ := same_new "minion0.img" hS
  have hl : (List.replicate (maxTransfer + 1) (0 : Byte)).length = maxTransfer + 1 := List.length_replicate
  have h64 : (MinionCall.write 0 (List.replicate (maxTransfer + 1) 0)).rangeEnd < 2 ^ 64 := by
    rw [MinionCall.rangeEnd, hl]
    decide
  have he := h "minion0.img" _ [.write 0 (List.replicate (maxTransfer + 1) 0)] f hS
    (fun c hc => List.mem_singleton.mp hc ▸ h64) hf
  -- one byte more than the kernel moves in one call
  rcases hs.call h64 with ⟨hcall, -⟩ | ⟨-, hout⟩
  · have hle : maxTransfer + 1 ≤ maxTransfer := hl ▸ hcall (by
      rw [MinionCall.rangeEnd, hl, Nat.zero_add]
      exact le_rfl)
    omega
  · exact hout (List.cons.inj he).1

/-- A minion of four bytes, a `Write` and a `Read` inside the bounds and one beyond them. -/
theorem interchangeable_four : ∃ f, new "minion0.img" [] 4 = .ok f ∧
    (((IStorageMinion.machine StorageMinionFile).outputs f [.write 1 [5, 6], .read 0 [0, 0, 0], .read 3 [0, 0]] =
        (IStorageMinion.machine StorageMinionMemory).outputs (.new 4)
          [.write 1 [5, 6], .read 0 [0, 0, 0], .read 3 [0, 0]] ∧
      ([.write 1 [5, 6], .read 0 [0, 0, 0], .read 3 [0, 0]].foldl
          (IStorageMinion.machine StorageMinionFile).next f).image =
        ([.write 1 [5, 6], .read 0 [0, 0, 0], .read 3 [0, 0]].foldl
          (IStorageMinion.machine StorageMinionMemory).next (.new 4)).data) ↔
      ∀ c ∈ [MinionCall.write 1 [5, 6], .read 0 [0, 0, 0], .read 3 [0, 0]], c.InOneCall 4) :=
  interchangeable_iff "minion0.img" (by decide) (by decide)

end StorageMinionFile

end LDS
