import Mathlib.Data.List.DropRight

/-!
# The last items

A store of bounded size in which a new item takes the place of the oldest one.  Whatever is
put into it, it holds the last items, in their order.
-/

namespace LastItems

variable {α : Type} {size : Nat} {items news : List α}

/-- Put an item behind the others; where there is no room for it, the first one goes. -/
def push (size : Nat) (items : List α) (item : α) : List α :=
  (if size ≤ items.length then items.tail else items) ++ [item]

theorem length_rtake
    (size : Nat) (items : List α) :
    (items.rtake size).length = min size items.length := by
  rw [List.rtake, List.length_drop]
  omega

theorem rtake_of_length_le
    (h : items.length ≤ size) :
    items.rtake size = items := by
  rw [List.rtake, Nat.sub_eq_zero_of_le h, List.drop_zero]

/-- A store with the last items holds the last ones after one more. -/
theorem push_rtake
    (hsize : 0 < size) (items : List α) (item : α) :
    push size (items.rtake size) item = (items ++ [item]).rtake size := by
  obtain ⟨n, rfl⟩ := Nat.exists_eq_succ_of_ne_zero (Nat.pos_iff_ne_zero.mp hsize)
  rw [List.rtake_concat_succ, push, length_rtake]
  congr 1
  split
  · rename_i hfull
    rw [List.rtake, List.tail_drop, List.rtake]
    congr 1
    omega
  · rename_i hroom
    rw [rtake_of_length_le (by omega), rtake_of_length_le (by omega)]

/-- The last items of the last ones. -/
theorem rtake_rtake
    (n size : Nat) (items : List α) :
    (items.rtake size).rtake n = items.rtake (min n size) := by
  rw [List.rtake, length_rtake, List.rtake, List.drop_drop, List.rtake]
  congr 1
  omega

theorem length_push_le
    (hsize : 0 < size) (h : items.length ≤ size) (item : α) :
    (push size items item).length ≤ size := by
  rw [push, List.length_append, List.length_singleton]
  split
  · rw [List.length_tail]
    omega
  · omega

end LastItems
