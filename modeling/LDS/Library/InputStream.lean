import Mathlib.Data.List.Basic

/-!
# Input streams

An input stream over the bytes of a file, with the flags that a read sets, as `std::ifstream` has them; a
read does not fail but at the end of the file.

## Main definitions

* `InputStream`: what is left of the file, and the flags
* `InputStream.read n`: what a read of `n` bytes yields

## Main results

* `InputStream.read_of_le`, `InputStream.read_of_lt`: the bytes are there, or the file ends before
-/

/-- An input stream: what is left of the file, `eofbit` and `failbit`. -/
structure InputStream where
  rest : List UInt8
  eof : Bool
  fail : Bool

namespace InputStream

/-- A file that has been opened. -/
def ofBytes (bytes : List UInt8) : InputStream := ⟨bytes, false, false⟩

/-- `good()`. -/
def good (f : InputStream) : Bool := !f.eof && !f.fail

/-- `read`: the bytes that were read. A read that finds fewer bytes than it is to read takes those there are. -/
def read (n : Nat) (f : InputStream) : List UInt8 × InputStream :=
  if f.good then
    if n ≤ f.rest.length then (f.rest.take n, { f with rest := f.rest.drop n })
    else (f.rest, ⟨[], true, true⟩)
  else ([], { f with fail := true })

variable {n : Nat} {bytes : List UInt8}

theorem read_of_le (h : n ≤ bytes.length) :
    (ofBytes bytes).read n = (bytes.take n, ofBytes (bytes.drop n)) := if_pos h

theorem read_of_lt (h : bytes.length < n) : (ofBytes bytes).read n = (bytes, ⟨[], true, true⟩) :=
  if_neg (Nat.not_le.mpr h)

/-- A read that has not failed has taken its bytes. -/
theorem length_read_of_not_fail {f : InputStream} (h : (f.read n).2.fail = false) :
    (f.read n).2.rest.length + n = f.rest.length := by
  unfold read at h ⊢
  split at h
  · split at h
    · rw [if_pos ‹_›, if_pos ‹_›, List.length_drop]
      omega
    · cases h
  · cases h

theorem length_read_of_good {f : InputStream} (h : (f.read n).2.good) :
    (f.read n).2.rest.length + n = f.rest.length := by
  have hfail : (f.read n).2.fail = false := by
    simp only [good, Bool.and_eq_true, Bool.not_eq_true'] at h
    exact h.2
  exact length_read_of_not_fail hfail

theorem length_read_le (n : Nat) (f : InputStream) : (f.read n).2.rest.length ≤ f.rest.length := by
  unfold read
  split
  · split
    · rw [List.length_drop]
      exact Nat.sub_le _ _
    · exact Nat.zero_le _
  · exact Nat.le_refl _

end InputStream
