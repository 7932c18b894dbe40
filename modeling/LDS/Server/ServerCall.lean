import LDS.Library.Program
import LDS.Storage.DriverData

/-!
# The calls of the server

The reactor thread and the pool workers share the kernel's descriptors, the tables of the driver and
the queue of the pool. A call is what others can see of a thread: one system call, or one critical
section.

## Main definitions

* `ServerCall`: the calls
* `readAll`, `writeAll`: the transfer loops of the drivers
* `IDriverComm`: the interface of a driver
* `Reactor.add`, `Reactor.remove`: the members of `Reactor` that a mediator calls

## Main results

* `obeys_readAll`, `obeys_writeAll`: the calls of the loops, and the number of bytes read
-/

namespace LDS

/-- The calls of the server's threads. -/
inductive ServerCall
  | accept (fd : Int)
  | read (fd : Int) (count : Nat)
  | write (fd : Int) (buf : List Byte)
  | close (fd : Int)
  | epollAdd (fd : Int)
  | epollDel (fd : Int)
  | insertClient (fd : Int)
  | eraseClient (fd : Int)
  | recordClientIP (fd : Int) (ip : String)
  | getClientIP (fd : Int)
  | forgetClientIP (fd : Int)
  | updateAllocation (offset : Nat) (data : List Byte)
  | saveAllocations
  | addCommand (request : DriverData)
  deriving DecidableEq

/-- What a call answers. `.error` is a result of `-1` and the text of `errno`; a `read` moves at most
`count` bytes, none at the end of the stream, and a `write` at most its buffer; `epoll_ctl` says
whether it succeeded. -/
abbrev ServerCall.Answer : ServerCall → Type
  | accept _ => Except String (Nat × String)
  | read _ count => Except String { bytes : List Byte // bytes.length ≤ count }
  | write _ buf => Except String (Fin (buf.length + 1))
  | epollAdd _ => Bool
  | epollDel _ => Bool
  | getClientIP _ => String
  | _ => Unit

/-- A program of the server. -/
abbrev ServerProg := Prog ServerCall ServerCall.Answer

/-! ## Transfer loops -/

/-- The loop of a driver's `ReadAll`, with the texts of its two exceptions. -/
def readAll (failed : String → String) (eof : String) (fd : Int) (count : Nat) :
    ServerProg (Except String (List Byte)) :=
  if 0 < count then do
    match ← Prog.perform (ServerCall.read fd count) with
    | .error errno => return .error (failed errno)
    | .ok ⟨[], _⟩ => return .error eof
    | .ok ⟨b :: bytes, _⟩ =>
      match ← readAll failed eof fd (count - (b :: bytes).length) with
      | .error what => return .error what
      | .ok rest => return .ok (b :: bytes ++ rest)
  else return .ok []
termination_by count
decreasing_by
  simp only [List.length_cons]
  omega

/-- The loop of a driver's `WriteAll`, with the texts of its two exceptions. -/
def writeAll (failed : String → String) (zero : String) (fd : Int) (buf : List Byte) :
    ServerProg (Except String Unit) :=
  if 0 < buf.length then do
    match ← Prog.perform (ServerCall.write fd buf) with
    | .error errno => return .error (failed errno)
    | .ok n =>
      if n.val = 0 then return .error zero
      else writeAll failed zero fd (buf.drop n)
  else return .ok ()
termination_by buf.length
decreasing_by
  rw [List.length_drop]
  omega

section Obeys

variable {φ : Type} {C : Prog.Contract ServerCall ServerCall.Answer φ} {P₀ P : φ → Prop} {x : φ}
  {failed : String → String} {text : String} {fd : Int}

/-- A transfer of no bytes makes no call; any other one makes a `read` first, and gives back as many
bytes as were asked for. -/
theorem obeys_readAll (h₀ : ∀ n, C.Leads P₀ P (.read fd n)) (h : ∀ n, C.Leads P P (.read fd n))
    (hx : P₀ x) (count : Nat) :
    Prog.Obeys C (fun y r => (P₀ y ∧ count = 0 ∨ P y) ∧ ∀ bytes, r = .ok bytes → bytes.length = count)
      x (readAll failed text fd count) := by
  induction count using Nat.strong_induction_on generalizing P₀ x with
  | _ count ih =>
    rw [readAll]
    split
    · refine .call_of_leads (h₀ count) hx ?_
      rintro y (errno | ⟨_ | ⟨b, bytes⟩, hlen⟩) hy
      · exact .ret ⟨.inr hy, fun bytes hb => by cases hb⟩
      · exact .ret ⟨.inr hy, fun bytes hb => by cases hb⟩
      · -- the rest of the bytes, in the phase after the first `read`
        simp only [List.length_cons] at hlen ⊢
        refine (ih (count - (bytes.length + 1)) (by omega) h hy).bind ?_
        rintro z (what | rest) ⟨hz, hrest⟩
        · exact .ret ⟨.inr (hz.elim And.left id), fun bytes hb => by cases hb⟩
        · refine .ret ⟨.inr (hz.elim And.left id), fun bytes' hb => ?_⟩
          obtain rfl := Except.ok.inj hb
          have := hrest rest rfl
          simp only [List.length_append, List.length_cons]
          omega
    · have hc : count = 0 := by omega
      exact .ret ⟨.inl ⟨hx, hc⟩, fun bytes hb => by rw [← Except.ok.inj hb, hc, List.length_nil]⟩

/-- A transfer makes nothing but `write` calls on its descriptor, of what is left of its buffer. -/
theorem obeys_writeAll_drop (buf : List Byte) (h : ∀ n, C.Leads P P (.write fd (buf.drop n))) (hx : P x) :
    Prog.Obeys C (fun y _ => P y) x (writeAll failed text fd buf) := by
  induction hn : buf.length using Nat.strong_induction_on generalizing buf x with
  | _ n ih =>
    rw [writeAll]
    split
    · refine .call_of_leads (h 0) hx ?_
      rintro y (errno | m) hy
      · exact .ret hy
      · change Prog.Obeys C _ y
          (if m.val = 0 then .ret (.error text) else writeAll failed text fd (buf.drop m))
        split
        · exact .ret hy
        · refine ih _ (by rw [List.length_drop]; omega) _ (fun k => ?_) hy rfl
          rw [List.drop_drop]
          exact h _
    · exact .ret hx

/-- A transfer makes nothing but `write` calls on its descriptor. -/
theorem obeys_writeAll (h : ∀ buf, C.Leads P P (.write fd buf)) (hx : P x) (buf : List Byte) :
    Prog.Obeys C (fun y _ => P y) x (writeAll failed text fd buf) :=
  obeys_writeAll_drop buf (fun _ => h _) hx

end Obeys

/-! ## Interfaces -/

/-- `IDriverComm`. A result `.error` is an exception. -/
structure IDriverComm where
  receiveRequest : Int → ServerProg (Except String DriverData)
  sendReply : DriverData → ServerProg (Except String Unit)
  removeClientFD : Int → ServerProg Unit
  tryAccept : Int → ServerProg Int

namespace Reactor

/-- `Reactor::Add`. -/
def add (fd : Int) : ServerProg (Except String Unit) := do
  if ← Prog.perform (ServerCall.epollAdd fd) then return .ok ()
  else return .error "Failed to add fd to epoll"

/-- `Reactor::Remove`. -/
def remove (fd : Int) : ServerProg (Except String Unit) := do
  if ← Prog.perform (ServerCall.epollDel fd) then return .ok ()
  else return .error "Failed to remove fd from epoll"

end Reactor

end LDS
