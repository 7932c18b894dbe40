import Mathlib.Data.List.Basic

/-!
# Files of records

A file of records is read one record after the other, as long as there is a whole one; what is left is the
tail of the file.

## Main definitions

* `RecordFormat β`: the bytes of a record, and how a whole record is recognised
* `RecordFormat.records`: the records of a file, and its tail

## Main results

* `RecordFormat.records_flatMap`: the records that were written are the records that are read
* `RecordFormat.flatMap_records`: the records and the tail make up the file
-/

/-- A format of records. -/
structure RecordFormat (β : Type) where
  /-- What can be written. -/
  Valid : β → Prop
  encode : β → List UInt8
  /-- The first record, and what follows it; `none` if there is no whole record. -/
  decode : List UInt8 → Option (β × List UInt8)
  encode_ne_nil : ∀ b, encode b ≠ []
  decode_encode : ∀ {b}, Valid b → ∀ rest, decode (encode b ++ rest) = some (b, rest)
  of_decode : ∀ {bytes b rest}, decode bytes = some (b, rest) → Valid b ∧ bytes = encode b ++ rest

namespace RecordFormat

variable {β : Type} (F : RecordFormat β)

theorem length_lt {bytes rest : List UInt8} {b : β} (h : F.decode bytes = some (b, rest)) :
    rest.length < bytes.length := by
  rw [(F.of_decode h).2, List.length_append]
  exact Nat.lt_add_of_pos_left (List.length_pos_of_ne_nil (F.encode_ne_nil b))

/-- The records of a file, and its tail. -/
def records (bytes : List UInt8) : List β × List UInt8 :=
  match h : F.decode bytes with
  | none => ([], bytes)
  | some (b, rest) =>
    have := F.length_lt h
    (b :: (records rest).1, (records rest).2)
termination_by bytes.length

variable {F} {bytes rest tail : List UInt8} {b : β} {bs : List β}

theorem records_of_none (h : F.decode bytes = none) : F.records bytes = ([], bytes) := by
  rw [records]
  split
  · rfl
  · rename_i h'
    cases h.symm.trans h'

theorem records_of_some (h : F.decode bytes = some (b, rest)) :
    F.records bytes = (b :: (F.records rest).1, (F.records rest).2) := by
  rw [records]
  split
  · rename_i h'
    cases h.symm.trans h'
  · rename_i h'
    cases h.symm.trans h'
    rfl

/-- **The records that were written are those that are read**, whatever tail without a whole record follows. -/
theorem records_flatMap (hbs : ∀ b ∈ bs, F.Valid b) (htail : F.decode tail = none) :
    F.records (bs.flatMap F.encode ++ tail) = (bs, tail) := by
  induction bs with
  | nil => exact records_of_none htail
  | cons b bs ih =>
    obtain ⟨hb, hbs⟩ := List.forall_mem_cons.mp hbs
    rw [List.flatMap_cons, List.append_assoc, records_of_some (F.decode_encode hb _), ih hbs]

/-- The records and the tail make up the file, and no record is left in the tail. -/
theorem flatMap_records (bytes : List UInt8) : (∀ b ∈ (F.records bytes).1, F.Valid b) ∧
    F.decode (F.records bytes).2 = none ∧ (F.records bytes).1.flatMap F.encode ++ (F.records bytes).2 = bytes := by
  induction hn : bytes.length using Nat.strongRecOn generalizing bytes with
  | ind n ih =>
    cases hdecode : F.decode bytes with
    | none =>
      rw [records_of_none hdecode]
      exact ⟨nofun, hdecode, rfl⟩
    | some r =>
      obtain ⟨b, rest⟩ := r
      obtain ⟨hb, hbytes⟩ := F.of_decode hdecode
      obtain ⟨hvalid, htail, hrest⟩ := ih rest.length (hn ▸ F.length_lt hdecode) rest rfl
      rw [records_of_some hdecode]
      refine ⟨List.forall_mem_cons.mpr ⟨hb, hvalid⟩, htail, ?_⟩
      rw [List.flatMap_cons, List.append_assoc, hrest, hbytes]

end RecordFormat
