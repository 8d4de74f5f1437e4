import Mathlib.Data.Nat.Bitwise

/-!
# Masks of lanes

The comparison of a vector of lanes gives a mask with one bit for each lane, and the lanes
that fit are gone through by the lowest bit of the mask, which is cleared in each turn.
-/

namespace LaneMask

/-- One bit for each lane, the first lane lowest. -/
def movemask : List Bool → Nat
  | [] => 0
  | b :: lanes => b.toNat + 2 * movemask lanes

/-- The zeros below the lowest bit of a word of this width. -/
def trailingZeros : (width n : Nat) → Nat
  | 0, _ => 0
  | width + 1, n => if n % 2 = 1 then 0 else trailingZeros width (n / 2) + 1

/-- The mask without its lowest bit. -/
def clearLowest (mask : Nat) : Nat :=
  mask &&& (mask - 1)

theorem testBit_movemask
    (lanes : List Bool) (j : Nat) :
    (movemask lanes).testBit j = true ↔ lanes[j]? = some true := by
  induction lanes generalizing j with
  | nil => simp [movemask]
  | cons b lanes ih =>
      cases j with
      | zero =>
          rw [movemask, Nat.testBit_zero, List.getElem?_cons_zero]
          cases b <;> simp [Nat.add_mod]
      | succ j =>
          have hhalf : (b.toNat + 2 * movemask lanes) / 2 = movemask lanes := by
            cases b with
            | false => simp
            | true =>
                rw [Bool.toNat_true]
                omega
          rw [movemask, Nat.testBit_succ, hhalf, List.getElem?_cons_succ]
          exact ih j

theorem movemask_lt
    (lanes : List Bool) :
    movemask lanes < 2 ^ lanes.length := by
  induction lanes with
  | nil => exact Nat.one_pos
  | cons b lanes ih =>
      have hb : b.toNat ≤ 1 := Bool.toNat_le b
      rw [movemask, List.length_cons, Nat.pow_succ]
      omega

/-- The zeros end at a bit that is set. -/
theorem testBit_trailingZeros
    {width n : Nat}
    (hpos : n ≠ 0) (hlt : n < 2 ^ width) :
    n.testBit (trailingZeros width n) = true ∧
      ∀ j < trailingZeros width n, n.testBit j = false := by
  induction width generalizing n with
  | zero => exact absurd (Nat.lt_one_iff.mp hlt) hpos
  | succ width ih =>
      rw [trailingZeros]
      by_cases hodd : n % 2 = 1
      · rw [if_pos hodd]
        refine ⟨by simp [Nat.testBit_zero, hodd], fun j hj => absurd hj (Nat.not_lt_zero j)⟩
      · rw [if_neg hodd]
        rw [Nat.pow_succ] at hlt
        obtain ⟨hset, hlow⟩ := @ih (n / 2) (by omega) (by omega)
        refine ⟨by rw [Nat.testBit_succ, hset], fun j hj => ?_⟩
        cases j with
        | zero => simp [Nat.testBit_zero, hodd]
        | succ j =>
            rw [Nat.testBit_succ]
            exact hlow j (Nat.lt_of_succ_lt_succ hj)

theorem clearLowest_lt
    {mask : Nat}
    (hpos : mask ≠ 0) :
    clearLowest mask < mask :=
  Nat.lt_of_le_of_lt Nat.and_le_right (Nat.sub_one_lt hpos)

/-- All other bits stay. -/
theorem testBit_clearLowest
    {mask k : Nat}
    (hset : mask.testBit k = true) (hlow : ∀ j < k, mask.testBit j = false) (j : Nat) :
    (clearLowest mask).testBit j = (mask.testBit j && j != k) := by
  unfold clearLowest
  rw [Nat.testBit_and]
  induction k generalizing mask j with
  | zero =>
      have hodd : mask % 2 = 1 := by simpa [Nat.testBit_zero] using hset
      cases j with
      | zero =>
          have heven : (mask - 1) % 2 = 0 := by omega
          simp [Nat.testBit_zero, heven]
      | succ j =>
          have hhalf : (mask - 1) / 2 = mask / 2 := by omega
          simp [Nat.testBit_succ, hhalf]
  | succ k ih =>
      have heven : mask % 2 = 0 := by
        have := hlow 0 (Nat.succ_pos k)
        simpa [Nat.testBit_zero] using this
      rw [Nat.testBit_succ] at hset
      have hpos : mask / 2 ≠ 0 := by
        intro hzero
        rw [hzero, Nat.zero_testBit] at hset
        cases hset
      have hhalf : (mask - 1) / 2 = mask / 2 - 1 := by omega
      cases j with
      | zero => simp [Nat.testBit_zero, heven]
      | succ j =>
          have hrest : ∀ i < k, (mask / 2).testBit i = false := fun i hi => by
            rw [← Nat.testBit_succ]
            exact hlow (i + 1) (Nat.succ_lt_succ hi)
          rw [Nat.testBit_succ, Nat.testBit_succ, hhalf, ih hset hrest]
          simp

end LaneMask
