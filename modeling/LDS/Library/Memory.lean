import Mathlib

/-!
# Memories

A memory gives every address a cell. A list is the image of a memory on its own addresses, and
overwriting a range of the list stores that range in the memory.

## Main definitions

* `store f a buf`, `load f a n`: a range stored in a memory, and a range of its cells
* `overwrite l a buf`, `slice l a n`: the same for lists
* `view d l`: the memory of a list, `d` beyond its end
* `lastWritten d ws`: the cells after the writes `ws`, `d` where there was none
* `Within P a buf`: what stands at each address of a range is one of those that `P` allows there

## Main results

* `store_append`, `load_add`: a range splits into consecutive ranges
* `store_comm`: disjoint ranges commute
* `view_overwrite`, `slice_eq_load`: lists refine memories
* `lastWritten_append`: one more write is stored over the ones before it
* `within_store`, `within_load`: a memory keeps to what is allowed, and shows nothing else
-/

namespace Memory

variable {α : Type}

/-- The memory `f` with `buf` stored from the address `a` on. -/
def store (f : Nat → α) (a : Nat) (buf : List α) : Nat → α :=
  fun x => if a ≤ x then buf.getD (x - a) (f x) else f x

/-- The `n` cells of `f` from the address `a` on. -/
def load (f : Nat → α) (a n : Nat) : List α :=
  (List.range n).map fun k => f (a + k)

variable {f g : Nat → α} {a b n x : Nat} {buf buf' : List α}

theorem store_of_lt (h : x < a) : store f a buf x = f x := if_neg (by omega)

theorem store_of_le (h : a + buf.length ≤ x) : store f a buf x = f x := by
  simp only [store]
  split
  · exact List.getD_eq_default _ _ (by omega)
  · rfl

theorem store_of_mem (h₁ : a ≤ x) (h₂ : x - a < buf.length) : store f a buf x = buf[x - a] := by
  rw [store, if_pos h₁, List.getD_eq_getElem _ _ h₂]

/-- An address outside the stored range keeps its cell. -/
theorem store_of_not_mem (h : ¬ (a ≤ x ∧ x < a + buf.length)) : store f a buf x = f x := by
  rcases Nat.lt_or_ge x a with hx | hx
  · exact store_of_lt hx
  · exact store_of_le (by omega)

/-- Inside the stored range, what was there before does not matter. -/
theorem store_congr_of_mem (h₁ : a ≤ x) (h₂ : x < a + buf.length) :
    store f a buf x = store g a buf x := by
  rw [store_of_mem h₁ (by omega), store_of_mem h₁ (by omega)]

@[simp] theorem store_nil : store f a [] = f := by
  funext x
  simp [store]

/-- Consecutive ranges are one range. -/
theorem store_append : store (store f a buf) (a + buf.length) buf' = store f a (buf ++ buf') := by
  funext x
  rcases Nat.lt_or_ge x a with h | h
  · rw [store_of_lt (by omega), store_of_lt h, store_of_lt h]
  rcases Nat.lt_or_ge x (a + buf.length) with h' | h'
  · rw [store_of_lt h', store_of_mem h (by omega), store_of_mem h (by simp; omega),
      List.getElem_append_left]
  rcases Nat.lt_or_ge x (a + buf.length + buf'.length) with h'' | h''
  · rw [store_of_mem h' (by omega), store_of_mem h (by simp; omega),
      List.getElem_append_right (by omega)]
    simp only [Nat.sub_sub]
  · rw [store_of_le h'', store_of_le h', store_of_le (by simp; omega)]

/-- Disjoint ranges can be stored in either order. -/
theorem store_comm (h : a + buf.length ≤ b ∨ b + buf'.length ≤ a) :
    store (store f a buf) b buf' = store (store f b buf') a buf := by
  funext x
  by_cases ha : a ≤ x ∧ x < a + buf.length
  · rw [store_of_not_mem (by omega), store_congr_of_mem ha.1 ha.2]
  · by_cases hb : b ≤ x ∧ x < b + buf'.length
    · rw [store_congr_of_mem hb.1 hb.2, store_of_not_mem (f := store f b buf') ha]
    · rw [store_of_not_mem hb, store_of_not_mem ha, store_of_not_mem ha, store_of_not_mem hb]

@[simp] theorem length_load : (load f a n).length = n := by simp [load]

@[simp] theorem load_zero : load f a 0 = [] := rfl

theorem getElem_load {k : Nat} (h : k < (load f a n).length) : (load f a n)[k] = f (a + k) := by
  simp [load]

/-- A range splits into consecutive ranges. -/
theorem load_add (m n : Nat) : load f a (m + n) = load f a m ++ load f (a + m) n := by
  simp [load, List.range_add, Function.comp_def, Nat.add_assoc]

theorem getElem?_load {k : Nat} (h : k < n) : (load f a n)[k]? = some (f (a + k)) := by
  rw [List.getElem?_eq_getElem (by rwa [length_load]), getElem_load]

theorem load_congr (h : ∀ k < n, f (a + k) = g (b + k)) : load f a n = load g b n :=
  List.map_congr_left fun k hk => h k (List.mem_range.mp hk)

/-! ## Lists -/

/-- The list `l` with `buf` copied over it from the index `a` on. -/
def overwrite (l : List α) (a : Nat) (buf : List α) : List α :=
  l.take a ++ buf ++ l.drop (a + buf.length)

/-- The `n` entries of `l` from the index `a` on. -/
def slice (l : List α) (a n : Nat) : List α := (l.drop a).take n

/-- The memory of a list: `d` beyond its end. -/
def view (d : α) (l : List α) : Nat → α := fun x => l.getD x d

variable {l l' : List α} {d : α}

theorem length_overwrite (h : a + buf.length ≤ l.length) :
    (overwrite l a buf).length = l.length := by
  simp [overwrite]
  omega

theorem overwrite_eq_of_length (h : buf.length = l.length) : overwrite l 0 buf = buf := by
  simp [overwrite, h]

@[simp] theorem overwrite_nil : overwrite l a [] = l := by simp [overwrite]

/-- Consecutive ranges are one range. -/
theorem overwrite_append (h : a + buf.length ≤ l.length) :
    overwrite (overwrite l a buf) (a + buf.length) buf' = overwrite l a (buf ++ buf') := by
  have ha : min a l.length = a := by omega
  have h₁ : (l.take a ++ buf).length = a + buf.length := by simp; omega
  have h₂ : (overwrite l a buf).take (a + buf.length) = l.take a ++ buf := by
    rw [overwrite, List.take_append_of_le_length h₁.ge, List.take_of_length_le h₁.le]
  have h₃ : (overwrite l a buf).drop (a + buf.length + buf'.length) =
      l.drop (a + buf.length + buf'.length) := by
    rw [overwrite, Nat.add_assoc, ← Nat.add_assoc, ← h₁, ← List.drop_drop, List.drop_left,
      List.drop_drop]
  rw [overwrite, h₂, h₃, overwrite, List.length_append, Nat.add_assoc, List.append_assoc (l.take a)]

theorem length_slice (h : a + n ≤ l.length) : (slice l a n).length = n := by
  simp [slice]
  omega

@[simp] theorem slice_zero_length : slice l 0 l.length = l := by simp [slice]

/-- A range splits into consecutive ranges. -/
theorem slice_add (m n : Nat) : slice l a (m + n) = slice l a m ++ slice l (a + m) n := by
  rw [slice, List.take_add, List.drop_drop]
  rfl

theorem slice_self (h : l.length = n) : slice l 0 n = l := by
  rw [← h, slice_zero_length]

theorem getElem?_slice {k : Nat} (h : k < n) : (slice l a n)[k]? = l[a + k]? := by
  rw [slice, List.getElem?_take_of_lt h, List.getElem?_drop]

/-- A range that is in the front part. -/
theorem slice_append_left (h : a + n ≤ l.length) : slice (l ++ l') a n = slice l a n := by
  rw [slice, List.drop_append_of_le_length (by omega), List.take_append_of_le_length, slice]
  rw [List.length_drop]
  omega

/-- A range that is behind the front part. -/
theorem slice_append_right (h : l.length ≤ a) :
    slice (l ++ l') a n = slice l' (a - l.length) n := by
  rw [slice, List.drop_append, List.drop_of_length_le h, List.nil_append, slice]

theorem view_of_lt (h : x < l.length) : view d l x = l[x] := List.getD_eq_getElem _ _ h

theorem view_of_le (h : l.length ≤ x) : view d l x = d := List.getD_eq_default _ _ h

@[simp] theorem view_replicate : view d (List.replicate n d) = fun _ => d := by
  funext x
  rcases Nat.lt_or_ge x n with h | h
  · rw [view_of_lt (by simpa using h), List.getElem_replicate]
  · exact view_of_le (by simpa using h)

/-- Overwriting a range of a list stores it in the memory of the list. -/
theorem view_overwrite (h : a + buf.length ≤ l.length) :
    view d (overwrite l a buf) = store (view d l) a buf := by
  funext x
  have hl := length_overwrite h
  rcases Nat.lt_or_ge x l.length with hx | hx
  · rw [view_of_lt (by omega)]
    -- before the range, in it, and behind it
    rcases Nat.lt_or_ge x a with h₁ | h₁
    · rw [store_of_lt h₁, view_of_lt hx]
      simp [overwrite, h₁, hx]
    rcases Nat.lt_or_ge x (a + buf.length) with h₂ | h₂
    · rw [store_of_mem h₁ (by omega)]
      have ha : min a l.length = a := by omega
      simp [overwrite, List.getElem_append, ha, show ¬ x < a by omega,
        show x - a < buf.length by omega]
    · rw [store_of_le h₂, view_of_lt hx]
      have ha : min a l.length = a := by omega
      simp only [overwrite, List.append_assoc, List.getElem_append, List.length_take, ha,
        show ¬ x < a by omega, show ¬ x - a < buf.length by omega, dite_false,
        List.getElem_drop]
      congr 1
      omega
  · rw [view_of_le (by omega), store_of_le (by omega), view_of_le hx]

/-- A slice of a list is a range of its memory. -/
theorem slice_eq_load (h : a + n ≤ l.length) : slice l a n = load (view d l) a n := by
  apply List.ext_getElem (by rw [length_slice h, length_load])
  intro k h₁ h₂
  rw [length_slice h] at h₁
  rw [getElem_load, view_of_lt (by omega)]
  simp [slice]

/-- Lists of one length with one memory are equal. -/
theorem eq_of_view (hl : l.length = l'.length) (h : view d l = view d l') : l = l' := by
  apply List.ext_getElem hl
  intro x h₁ h₂
  rw [← view_of_lt (d := d) h₁, h, view_of_lt h₂]

/-! ## The last write -/

/-- The cells after the writes `ws`, in their order: each is the one last written there, `d` where
nothing was written. -/
def lastWritten (d : α) (ws : List (Nat × List α)) (x : Nat) : α :=
  match ws.reverse.find? fun w => w.1 ≤ x ∧ x < w.1 + w.2.length with
  | some w => w.2.getD (x - w.1) d
  | none => d

theorem lastWritten_nil : lastWritten d [] = fun _ => d := rfl

/-- One more write is stored over the ones before it. -/
theorem lastWritten_append (ws : List (Nat × List α)) (w : Nat × List α) :
    lastWritten d (ws ++ [w]) = store (lastWritten d ws) w.1 w.2 := by
  funext x
  by_cases h : w.1 ≤ x ∧ x < w.1 + w.2.length
  · rw [store_of_mem h.1 (by omega)]
    simp [lastWritten, h, show x - w.1 < w.2.length by omega]
  · rw [store_of_not_mem h]
    simp only [lastWritten, List.reverse_append, List.reverse_singleton, List.singleton_append]
    rw [List.find?_cons_of_neg (by simpa using h)]

/-! ## What is allowed where -/

/-- Every entry of `buf`, put from the address `a` on, is allowed at its address. -/
def Within (P : Nat → α → Prop) (a : Nat) (buf : List α) : Prop :=
  ∀ k v, buf[k]? = some v → P (a + k) v

variable {P : Nat → α → Prop}

theorem within_nil : Within P a [] := fun _ _ h => by cases h

theorem Within.append (h : Within P a buf) (h' : Within P (a + buf.length) buf') :
    Within P a (buf ++ buf') := by
  intro k v hk
  by_cases hlt : k < buf.length
  · rw [List.getElem?_append_left hlt] at hk
    exact h k v hk
  · rw [List.getElem?_append_right (Nat.le_of_not_lt hlt)] at hk
    have hv := h' _ v hk
    rwa [Nat.add_assoc, Nat.add_sub_cancel' (Nat.le_of_not_lt hlt)] at hv

/-- What is allowed in a list is allowed in a part of it. -/
theorem Within.slice (h : Within P a l) (b n : Nat) : Within P (a + b) (slice l b n) := by
  intro k v hk
  by_cases hlt : k < n
  · rw [getElem?_slice hlt] at hk
    rw [Nat.add_assoc]
    exact h _ v hk
  · rw [Memory.slice, List.getElem?_take_eq_none (Nat.le_of_not_lt hlt)] at hk
    cases hk

/-- A range of a memory shows what the memory holds. -/
theorem within_load (h : ∀ x, P x (f x)) : Within P a (load f a n) := by
  intro k v hk
  obtain ⟨hlt, rfl⟩ := List.getElem?_eq_some_iff.mp hk
  rw [getElem_load]
  exact h _

/-- A memory that stores what is allowed holds nothing else. -/
theorem within_store (h : ∀ x, P x (f x)) (hbuf : Within P a buf) (x : Nat) : P x (store f a buf x) := by
  by_cases hc : a ≤ x ∧ x < a + buf.length
  · have hlt : x - a < buf.length := by omega
    rw [store_of_mem hc.1 hlt]
    have hv := hbuf (x - a) _ (List.getElem?_eq_getElem hlt)
    rwa [Nat.add_sub_cancel' hc.1] at hv
  · rw [store_of_not_mem hc]
    exact h x

end Memory
