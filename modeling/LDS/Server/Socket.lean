import LDS.Library.Total
import LDS.Server.ServerCall

/-!
# Sockets

A socket is a stream of bytes. A `read` of it returns any nonempty part of what has arrived, a `write`
takes any nonempty part of what it is given; the loops of the drivers hide both.

## Main definitions

* `Delivers fd`: the environment of a thread that reads from `fd`; the state is what it has not read
* `Accepts fd`: the environment of threads that write to `fd`; the state is what the peer receives
* `sends fd`: the contract of a program that has a byte string left to write to `fd`

## Main results

* `total_readAll`: `ReadAll` takes exactly the bytes it asks for off the stream
* `obeys_writeAll_sends`: `WriteAll` sends its buffer
* `total_of_sends`: what a program has left to write is what its peer receives
-/

namespace LDS

/-! ## Reading -/

/-- The calls of a thread that reads from `fd`, which has sent the state and nothing else so far. A
`read` at the end of it waits. -/
inductive Delivers (fd : Int) : Environment ServerCall ServerCall.Answer (List Byte)
  | read {count : Nat} {bytes rest : List Byte} (hb : bytes ≠ []) (hl : bytes.length ≤ count) :
    Delivers fd (bytes ++ rest) (.read fd count) (.ok ⟨bytes, hl⟩) rest
  | updateAllocation {s : List Byte} {offset : Nat} {data : List Byte} :
    Delivers fd s (.updateAllocation offset data) () s
  | saveAllocations {s : List Byte} : Delivers fd s .saveAllocations () s

/-- A `read` takes a nonempty part off the front of the stream. -/
theorem delivers_read_inv {fd : Int} {count : Nat} {s s' : List Byte}
    {a : Except String { bytes : List Byte // bytes.length ≤ count }}
    (h : Delivers fd s (.read fd count) a s') :
    ∃ b bytes, ∃ hl : (b :: bytes).length ≤ count, a = .ok ⟨b :: bytes, hl⟩ ∧
      s = b :: bytes ++ s' := by
  cases h with
  | @read _ bytes _ hb hl =>
    obtain ⟨b, bytes, rfl⟩ := List.exists_cons_of_ne_nil hb
    exact ⟨b, bytes, hl, rfl, rfl⟩

/-- However the stream is cut, `ReadAll` takes exactly as many bytes as it asks for off its front. -/
theorem total_readAll {failed : String → String} {eof : String} (fd : Int) {bytes : List Byte}
    {count : Nat} (hn : bytes.length = count) (rest : List Byte) :
    Prog.Total (Delivers fd) (fun r s => r = .ok bytes ∧ s = rest) (readAll failed eof fd count)
      (bytes ++ rest) := by
  induction count using Nat.strong_induction_on generalizing bytes with
  | _ n ih =>
    rw [readAll]
    split
    · rename_i hpos
      refine .call ?_ fun a s' h => ?_
      · -- the whole of it may come at once
        exact ⟨_, _, .read (List.ne_nil_of_length_pos (by omega)) hn.le⟩
      · obtain ⟨b, first, hl, rfl, hs⟩ := delivers_read_inv h
        -- what was read is a prefix of what was asked for
        obtain ⟨more, rfl⟩ : b :: first <+: bytes :=
          List.prefix_of_prefix_length_le ⟨s', hs.symm⟩ ⟨rest, rfl⟩ (hn ▸ hl)
        obtain rfl : more ++ rest = s' := by
          rw [List.append_assoc] at hs
          exact List.append_cancel_left hs
        have hlen : more.length = n - (b :: first).length := by
          rw [← hn, List.length_append]
          omega
        refine (ih _ ?_ hlen).bind ?_
        · rw [List.length_cons]
          omega
        · rintro _ _ ⟨rfl, rfl⟩
          exact .ret ⟨rfl, rfl⟩
    · obtain rfl := List.eq_nil_of_length_eq_zero (by omega : bytes.length = 0)
      exact .ret ⟨rfl, rfl⟩

/-! ## Writing -/

/-- The calls of threads that write to `fd`; the state is what its peer has been sent. -/
inductive Accepts (fd : Int) : Environment ServerCall ServerCall.Answer (List Byte)
  | write {s buf : List Byte} {n : Fin (buf.length + 1)} (hn : 0 < n.val) :
    Accepts fd s (.write fd buf) (.ok n) (s ++ buf.take n)

/-- The bytes that the peer gets of an exchange. -/
def accepted : Exchange ServerCall ServerCall.Answer → List Byte
  | ⟨.write _ buf, .ok n⟩ => buf.take n
  | _ => []

/-- The contract of a program that has a byte string left to write: every buffer is the front of
it. -/
def sends (fd : Int) : Prog.Contract ServerCall ServerCall.Answer (List Byte) where
  answers _ := fun
    | .write _ _, a => ∃ n, a = .ok n ∧ 0 < n.val
    | _, _ => False
  calls rest o := ∃ buf, o = .write fd buf ∧ buf ≠ [] ∧ buf <+: rest
  next rest o a := rest.drop (accepted ⟨o, a⟩).length
  mayAbort := False

variable {fd : Int}

/-- `WriteAll` sends its buffer, and does not fail. -/
theorem obeys_writeAll_sends {failed : String → String} {zero : String} (buf tail : List Byte) :
    Prog.Obeys (sends fd) (fun rest r => rest = tail ∧ r = .ok ()) (buf ++ tail)
      (writeAll failed zero fd buf) := by
  induction hn : buf.length using Nat.strong_induction_on generalizing buf with
  | _ n ih =>
    rw [writeAll]
    split
    · rename_i hpos
      refine .call ⟨buf, rfl, List.ne_nil_of_length_pos hpos, tail, rfl⟩ ?_
      rintro _ ⟨m, rfl, hm⟩
      have hle : m.val ≤ buf.length := Nat.le_of_lt_succ m.isLt
      have hlen : (buf.take m).length = m := by rw [List.length_take, Nat.min_eq_left hle]
      -- what a `write` takes is gone from the front
      have hnext : (sends fd).next (buf ++ tail) (.write fd buf) (.ok m) = buf.drop m ++ tail := by
        simp only [sends, accepted]
        rw [hlen, List.drop_append_of_le_length hle]
      rw [hnext]
      change Prog.Obeys (sends fd) _ _
        (if m.val = 0 then .ret (.error zero) else writeAll failed zero fd (buf.drop m))
      rw [if_neg (by omega)]
      exact ih _ (by rw [List.length_drop]; omega) _ rfl
    · obtain rfl := List.eq_nil_of_length_eq_zero (by omega : buf.length = 0)
      exact .ret ⟨rfl, rfl⟩

/-- `WriteAll` of all that is left leaves nothing. -/
theorem obeys_writeAll_rest {failed : String → String} {zero : String} (buf : List Byte) :
    Prog.Obeys (sends fd) (fun rest r => rest = [] ∧ r = .ok ()) buf
      (writeAll failed zero fd buf) := by
  have h := @obeys_writeAll_sends fd failed zero buf []
  rwa [List.append_nil] at h

/-- A call that the contract allows is a `write` of the front of the rest, and what is accepted of it
comes off the rest. -/
theorem sends_step {rest s s' : List Byte} {o : ServerCall} {a : o.Answer}
    (ho : (sends fd).calls rest o) (h : Accepts fd s o a s') :
    (sends fd).answers rest o a ∧ accepted ⟨o, a⟩ ≠ [] ∧ s' = s ++ accepted ⟨o, a⟩ ∧
      rest = accepted ⟨o, a⟩ ++ (sends fd).next rest o a := by
  obtain ⟨buf, rfl, hbuf, tail, rfl⟩ := ho
  cases h with
  | @write _ _ n hn =>
    have hle : n.val ≤ buf.length := Nat.le_of_lt_succ n.isLt
    have hlen : (buf.take n).length = n := by rw [List.length_take, Nat.min_eq_left hle]
    refine ⟨⟨n, rfl, hn⟩, fun hnil => ?_, rfl, ?_⟩
    · rw [show accepted ⟨.write fd buf, .ok n⟩ = buf.take n from rfl] at hnil
      rw [hnil, List.length_nil] at hlen
      omega
    · simp only [sends, accepted]
      rw [hlen, List.drop_append_of_le_length hle, ← List.append_assoc, List.take_append_drop]

/-- What a program has left to write is what the peer receives. -/
theorem total_of_sends {α : Type} {Q : List Byte → α → Prop} {frame s : List Byte}
    {p : ServerProg α} (hp : Prog.Obeys (sends fd) Q frame p) :
    Prog.Total (Accepts fd) (fun a s' => ∃ rest, s' ++ rest = s ++ frame ∧ Q rest a) p s := by
  refine Prog.Obeys.total (I := fun rest s' => s' ++ rest = s ++ frame) ?_ ?_ id hp rfl
  · rintro rest s' o - ⟨buf, rfl, hbuf, -⟩
    have hpos := List.length_pos_of_ne_nil hbuf
    exact ⟨.ok ⟨buf.length, by omega⟩, _, .write hpos⟩
  · intro rest s' o a s'' hs ho h
    obtain ⟨ha, -, rfl, hrest⟩ := sends_step ho h
    exact ⟨ha, by rw [List.append_assoc, ← hrest, hs]⟩

end LDS
