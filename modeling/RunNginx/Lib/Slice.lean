import Mathlib.Data.List.TakeDrop

/-!
# Slices with bounds

Slices of a list that fault outside of it, as the indexing of a systems language does, and
the search from the back.  A program with these operations is compared with one that takes
and drops: in bounds the slices are `take` and `drop`.
-/

namespace Slice

variable {α : Type*}

/-- `xs[start..stop]` -/
def slice (xs : List α) (start stop : Nat) : Option (List α) :=
  if start ≤ stop ∧ stop ≤ xs.length then some ((xs.take stop).drop start) else none

/-- `xs[start..]` -/
def sliceFrom (xs : List α) (start : Nat) : Option (List α) :=
  slice xs start xs.length

/-- `xs[..stop]` -/
def sliceTo (xs : List α) (stop : Nat) : Option (List α) :=
  slice xs 0 stop

/-- The position of the last element that satisfies `p`. -/
def rposition (p : α → Bool) (xs : List α) : Option Nat :=
  (xs.reverse.findIdx? p).map fun i => xs.length - 1 - i

section Bounds

variable {xs : List α} {start stop : Nat}

theorem slice_eq
    (hle : start ≤ stop) (hstop : stop ≤ xs.length) :
    slice xs start stop = some ((xs.take stop).drop start) :=
  if_pos ⟨hle, hstop⟩

theorem sliceFrom_eq
    (hstart : start ≤ xs.length) :
    sliceFrom xs start = some (xs.drop start) := by
  rw [sliceFrom, slice_eq hstart (Nat.le_refl _), List.take_length]

theorem sliceTo_eq
    (hstop : stop ≤ xs.length) :
    sliceTo xs stop = some (xs.take stop) := by
  rw [sliceTo, slice_eq (Nat.zero_le _) hstop, List.drop_zero]

/-- A slice of a length from a position on. -/
theorem slice_add_eq
    {n : Nat} (hstop : start + n ≤ xs.length) :
    slice xs start (start + n) = some ((xs.drop start).take n) := by
  rw [slice_eq (Nat.le_add_right _ _) hstop, List.drop_take, Nat.add_sub_cancel_left]

end Bounds

section Trim

variable {p : α → Bool} {xs : List α}

/-- What is dropped in front ends where the first element that does not satisfy `p` stands. -/
theorem dropWhile_eq_drop
    {start : Nat} (h : xs.findIdx? (fun x => !p x) = some start) :
    xs.dropWhile p = xs.drop start := by
  induction xs generalizing start with
  | nil => simp at h
  | cons x xs ih =>
      rw [List.findIdx?_cons] at h
      by_cases hx : p x = true
      · rw [hx] at h
        obtain ⟨i, hi, rfl⟩ := Option.map_eq_some_iff.mp h
        rw [List.dropWhile_cons, if_pos hx, ih hi]
        rfl
      · rw [Bool.eq_false_iff.mpr hx] at h
        obtain rfl := Option.some.inj h
        rw [List.dropWhile_cons, if_neg hx, List.drop_zero]

theorem dropWhile_eq_nil
    (h : xs.findIdx? (fun x => !p x) = none) :
    xs.dropWhile p = [] := by
  induction xs with
  | nil => rfl
  | cons x xs ih =>
      rw [List.findIdx?_cons] at h
      by_cases hx : p x = true
      · rw [hx] at h
        rw [List.dropWhile_cons, if_pos hx]
        exact ih (Option.map_eq_none_iff.mp h)
      · rw [Bool.eq_false_iff.mpr hx] at h
        cases h

/-- Trimming by the positions of the first and the last element that stay is in bounds. -/
theorem slice_trim
    (p : α → Bool) (xs : List α) :
    let start := (xs.findIdx? fun x => !p x).getD xs.length
    let stop := ((rposition (fun x => !p x) xs).map (· + 1)).getD 0
    (if stop ≤ start then slice xs 0 0 else slice xs start stop) =
      some ((xs.dropWhile p).reverse.dropWhile p).reverse := by
  intro start stop
  cases hfirst : xs.findIdx? fun x => !p x with
  | none =>
      have hstop : stop = 0 := by
        have hall : xs.reverse.findIdx? (fun x => !p x) = none := by
          rw [List.findIdx?_eq_none_iff] at hfirst ⊢
          exact fun x hx => hfirst x (List.mem_reverse.mp hx)
        simp only [stop, rposition, hall, Option.map_none, Option.getD_none]
      rw [hstop, if_pos (Nat.zero_le _), slice_eq (Nat.le_refl _) (Nat.zero_le _),
        dropWhile_eq_nil hfirst]
      rfl
  | some i =>
      have hstart : start = i := by simp only [start, hfirst, Option.getD_some]
      obtain ⟨hi, hhit, -⟩ := List.findIdx?_eq_some_iff_getElem.mp hfirst
      -- the part that is not dropped in front has an element that stays
      obtain ⟨j, hj⟩ : ∃ j, (xs.drop i).reverse.findIdx? (fun x => !p x) = some j := by
        rw [← Option.isSome_iff_exists, List.findIdx?_isSome, List.any_reverse, List.any_eq_true]
        have hhead : (xs.drop i).head? = some xs[i] := by
          rw [List.head?_drop, List.getElem?_eq_getElem hi]
        exact ⟨xs[i], List.mem_of_mem_head? hhead, hhit⟩
      have hjlt : j < xs.length - i := by
        obtain ⟨hlt, -⟩ := List.findIdx?_eq_some_iff_getElem.mp hj
        simpa using hlt
      have hlast : xs.reverse.findIdx? (fun x => !p x) = some j := by
        rw [← List.take_append_drop i xs, List.reverse_append, List.findIdx?_append, hj]
        rfl
      have hstop : stop = xs.length - j := by
        simp only [stop, rposition, hlast, Option.map_some, Option.getD_some]
        omega
      rw [hstart, hstop, if_neg (by omega), slice_eq (by omega) (by omega),
        dropWhile_eq_drop hfirst, dropWhile_eq_drop hj, List.drop_reverse,
        List.reverse_reverse, List.drop_take, List.length_drop,
        show xs.length - j - i = xs.length - i - j by omega]

end Trim

end Slice
