import Mathlib.Algebra.BigOperators.Group.List.Basic
import Mathlib.Algebra.Order.BigOperators.Group.List
import Mathlib.Tactic.Abel

/-!
# Sums over a list in which one entry changes

What a system of numbered parts amounts to is a sum over its parts. A step of one part changes one summand.

## Main results

* `List.sum_map_set`: the sum when an entry changes
* `List.countP_set_of_getElem?`: the number of entries with a property when an entry changes
-/

namespace List

variable {α M : Type*} {l : List α} {i : Nat} {x : α}

/-- The sum when an entry changes. -/
theorem sum_map_set [AddCommMonoid M] (f : α → M) (hx : l[i]? = some x) (y : α) :
    ((l.set i y).map f).sum + f x = (l.map f).sum + f y := by
  induction l generalizing i with
  | nil => simp at hx
  | cons z l ih =>
    cases i with
    | zero =>
      obtain rfl : z = x := by simpa using hx
      simp only [set_cons_zero, map_cons, sum_cons]
      abel
    | succ i =>
      have h := ih (i := i) (by simpa using hx)
      simp only [set_cons_succ, map_cons, sum_cons, add_assoc, h]

/-- The number of entries with a property when an entry changes. -/
theorem countP_set_of_getElem? (p : α → Bool) (hx : l[i]? = some x) (y : α) :
    (l.set i y).countP p + (p x).toNat = l.countP p + (p y).toNat := by
  obtain ⟨h, rfl⟩ := getElem?_eq_some_iff.mp hx
  have hle : (p l[i]).toNat ≤ l.countP p := by
    cases hp : p l[i] with
    | false => exact Nat.zero_le _
    | true => exact countP_pos_iff.mpr ⟨_, getElem_mem h, hp⟩
  rw [countP_set h]
  cases hp : p l[i] <;> cases p y <;>
    simp only [hp, Bool.toNat_true, Bool.toNat_false, if_true, Bool.false_eq_true, if_false] at hle ⊢ <;>
    omega

end List
