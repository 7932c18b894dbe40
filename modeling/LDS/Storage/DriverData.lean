import Mathlib

/-!
# Requests and the C++ they are served in

The values every layer works on: bytes, `size_t`, the way a C++ call ends, and `DriverData`, the
request that travels from a driver to the storage and back.

## Main definitions

* `addSize`: addition in `size_t`
* `Outcome α`: a call returns, throws, or has undefined behaviour
* `SizeMap`: `std::map<size_t, size_t>`, the offset→size index
* `DriverData`: a request, with its reply filled in
-/

namespace LDS

/-- A `char` of a buffer. -/
abbrev Byte := UInt8

/-- Addition in `size_t`, modulo `2 ^ 64`. -/
def addSize (a b : Nat) : Nat := (a + b) % 2 ^ 64

theorem addSize_eq {a b : Nat} (h : a + b < 2 ^ 64) : addSize a b = a + b := Nat.mod_eq_of_lt h

theorem addSize_lt (a b : Nat) : addSize a b < 2 ^ 64 := Nat.mod_lt _ (by decide)

theorem addSize_wrap {a b : Nat} (ha : a < 2 ^ 64) (hb : b ≤ 2 ^ 64) (h : 2 ^ 64 ≤ a + b) :
    addSize a b = a + b - 2 ^ 64 := by
  rw [addSize, Nat.mod_eq_sub_mod h, Nat.mod_eq_of_lt (by omega)]

/-- A bound check lets pass what fits. -/
theorem not_addSize_gt {a n size : Nat} (h : a + n ≤ size) (hs : size < 2 ^ 64) : ¬ addSize a n > size := by
  rw [addSize_eq (Nat.lt_of_le_of_lt h hs)]
  exact Nat.not_lt_of_le h

/-- What passes a bound check fits, unless its end wraps. -/
theorem le_of_not_addSize_gt {a n size : Nat} (h : ¬ addSize a n > size) (hw : a + n < 2 ^ 64) :
    a + n ≤ size := by
  rw [addSize_eq hw] at h
  exact Nat.le_of_not_lt h

/-- How a C++ call ends. `throws` is an exception derived from `std::exception`. -/
inductive Outcome (α : Type)
  | ok (a : α)
  | throws (what : String)
  | undefined
  deriving DecidableEq

/-- After a call that may throw comes what is done with its result. -/
theorem bind_eq_ok_iff {ε α β : Type} {x : Except ε α} {f : α → Except ε β} {b : β} :
    x >>= f = .ok b ↔ ∃ a, x = .ok a ∧ f a = .ok b := by
  cases x with
  | error e =>
    constructor
    · rintro ⟨⟩
    · rintro ⟨_, ⟨⟩, _⟩
  | ok a =>
    constructor
    · exact fun h => ⟨a, rfl, h⟩
    · rintro ⟨_, ⟨⟩, h⟩
      exact h

/-- `std::map<size_t, size_t>`: its entries come in ascending order of their keys. -/
abbrev SizeMap := Std.ExtTreeMap Nat Nat

/-- `DriverData::ActionType`. The TCP driver casts any 32-bit code to it; a code without an
enumerator is `other`. -/
inductive ActionType
  | read | write | disconnect | flush | trim | getSize | listOffsets
  | other (code : Nat)
  deriving DecidableEq

/-- `static_cast<DriverData::ActionType>(code)`. -/
def ActionType.ofCode : Nat → ActionType
  | 0 => .read
  | 1 => .write
  | 2 => .disconnect
  | 3 => .flush
  | 4 => .trim
  | 5 => .getSize
  | 6 => .listOffsets
  | code => .other code

/-- `DriverData::StatusType`. -/
inductive StatusType
  | success | failure
  deriving DecidableEq

/-- `DriverData`: a request, and after it was served its reply. -/
structure DriverData where
  type : ActionType
  handle : Nat
  offset : Nat
  len : Nat
  status : StatusType
  buffer : List Byte
  sourceFd : Int
  deriving DecidableEq

/-- `DriverData::DriverData`: a zeroed buffer of `nBytes` and no source descriptor. -/
def DriverData.new (type : ActionType) (handle offset nBytes : Nat)
    (status : StatusType := .success) : DriverData where
  type := type
  handle := handle
  offset := offset
  len := nBytes
  status := status
  buffer := List.replicate nBytes 0
  sourceFd := -1

end LDS
