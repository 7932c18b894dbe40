import Mathlib.Data.Finset.Max

/-!
# Priority queues

A priority queue is a multiset; what comes out of it is an element that no other one exceeds, and any of
them where there are several.

## Main definitions

* `Takes lt q x q'`: `x` comes out of the queue `q`, and leaves `q'`

## Main results

* `takes_cons`, `exists_takes`: any element that none exceeds can come out
* `exists_takes_of_key`: when elements are compared by a key, something comes out of a queue with elements
-/

variable {α : Type} {lt : α → α → Prop} {q q' : Multiset α} {x y : α}

/-- `x` comes out of the queue `q` and leaves `q'`: no element of `q` exceeds it. -/
structure Takes (lt : α → α → Prop) (q : Multiset α) (x : α) (q' : Multiset α) : Prop where
  eq_cons : q = x ::ₘ q'
  not_lt : ∀ y ∈ q, ¬ lt x y

theorem Takes.mem (h : Takes lt q x q') : x ∈ q := by
  rw [h.eq_cons]
  exact Multiset.mem_cons_self x q'

theorem Takes.subset (h : Takes lt q x q') (hy : y ∈ q') : y ∈ q := by
  rw [h.eq_cons]
  exact Multiset.mem_cons_of_mem hy

/-- An element that none exceeds, itself included, can come out. -/
theorem takes_cons (hx : ¬ lt x x) (h : ∀ y ∈ q, ¬ lt x y) : Takes lt (x ::ₘ q) x q where
  eq_cons := rfl
  not_lt y hy := by
    rcases Multiset.mem_cons.mp hy with rfl | hy
    · exact hx
    · exact h y hy

/-- Any element that none exceeds can come out. -/
theorem exists_takes (hx : x ∈ q) (h : ∀ y ∈ q, ¬ lt x y) : ∃ q', Takes lt q x q' := by
  obtain ⟨q', rfl⟩ := Multiset.exists_cons_of_mem hx
  exact ⟨q', rfl, h⟩

/-- When elements are compared by a key, something comes out of a queue that has elements. -/
theorem exists_takes_of_key {R : Type} [LinearOrder R] (f : α → R) (hlt : ∀ a b, lt a b → f a < f b)
    (hq : q ≠ 0) : ∃ x q', Takes lt q x q' := by
  obtain ⟨x, hx, hle⟩ := Multiset.exists_max_image f hq
  obtain ⟨q', htakes⟩ := exists_takes hx fun y hy hxy => (hle y hy).not_gt (hlt x y hxy)
  exact ⟨x, q', htakes⟩
