import Mathlib.Algebra.Ring.Nat
import Mathlib.Data.List.Basic
import Mathlib.Order.Lattice

/-!
# Ranks and counts

`classCounts` counts the elements of a list by classes, as a histogram does, and
`nthSmallest` is the element of a rank.

`sum_take_classCounts`: the counts of the first classes add up to the number of elements in
them.  `nthSmallest_iff`: a property that smaller elements keep holds of the element of a
rank exactly if at least so many elements have it.
-/

namespace Ranks

variable {α : Type}

section Counts

variable {p q : α → Bool} {f : α → Nat} {l : List α} {n : Nat}

/-- A count does not change under a weaker condition exactly if no element is new to it. -/
theorem countP_eq_iff
    (h : ∀ x ∈ l, p x = true → q x = true) :
    l.countP p = l.countP q ↔ ∀ x ∈ l, q x = true → p x = true := by
  have hcount : l.countP p = (l.filter q).countP p := by
    rw [List.countP_filter]
    refine List.countP_congr fun x hx => ?_
    rw [Bool.and_eq_true]
    exact ⟨fun hpx => ⟨hpx, h x hx hpx⟩, And.left⟩
  rw [hcount, List.countP_eq_length_filter (p := q), List.countP_eq_length]
  simp only [List.mem_filter, and_imp]

/-- How many elements are in each of the first classes. -/
def classCounts (n : Nat) (f : α → Nat) (l : List α) : List Nat :=
  (List.range n).map fun i => l.countP fun x => f x == i

@[simp] theorem length_classCounts
    (n : Nat) (f : α → Nat) (l : List α) :
    (classCounts n f l).length = n := by
  rw [classCounts, List.length_map, List.length_range]

theorem classCounts_nil
    (n : Nat) (f : α → Nat) :
    classCounts n f [] = List.replicate n 0 := by
  refine List.eq_replicate_iff.mpr ⟨length_classCounts n f [], fun c hc => ?_⟩
  obtain ⟨i, -, rfl⟩ := List.mem_map.mp hc
  rfl

/-- One more element is counted in its class. -/
theorem classCounts_concat
    (n : Nat) (f : α → Nat) (l : List α) (x : α) :
    classCounts n f (l ++ [x]) = (classCounts n f l).modify (f x) (· + 1) := by
  refine List.ext_getElem (by simp) fun i hi hi' => ?_
  rw [List.getElem_modify]
  simp only [classCounts, List.getElem_map, List.getElem_range, List.countP_append,
    List.countP_singleton, beq_iff_eq]
  split
  · rfl
  · rfl

theorem countP_lt_succ
    (f : α → Nat) (l : List α) (j : Nat) :
    l.countP (fun x => decide (f x < j + 1)) =
      l.countP (fun x => decide (f x < j)) + l.countP fun x => f x == j := by
  induction l with
  | nil => rfl
  | cons x l ih =>
      simp only [List.countP_cons, ih, beq_iff_eq, decide_eq_true_eq]
      split <;> split <;> split <;> omega

theorem sum_take_classCounts
    {j : Nat} (h : j ≤ n) :
    ((classCounts n f l).take j).sum = l.countP fun x => decide (f x < j) := by
  induction j with
  | zero => simp
  | succ j ih =>
      have hget : (classCounts n f l)[j]? = some (l.countP fun x => f x == j) := by
        simp [classCounts, Nat.lt_of_succ_le h]
      rw [List.take_add_one, hget, List.sum_append, ih (Nat.le_of_succ_le h), countP_lt_succ]
      simp

end Counts

section Order

variable [LinearOrder α] {l : List α} {p : α → Bool} {k : Nat} {x : α}

/-- The element of this rank; the smallest one has rank 1. -/
def nthSmallest (l : List α) (k : Nat) : Option α :=
  (l.mergeSort fun a b => decide (a ≤ b))[k - 1]?

theorem nthSmallest_singleton
    (x : α) :
    nthSmallest [x] 1 = some x := by
  rw [nthSmallest, List.mergeSort_singleton]
  rfl

theorem exists_nthSmallest
    (hpos : 0 < k) (hle : k ≤ l.length) :
    ∃ x, nthSmallest l k = some x := by
  refine ⟨_, List.getElem?_eq_getElem ?_⟩
  rw [List.length_mergeSort]
  omega

/-- In a sorted list, the elements with a property that smaller ones keep are the first ones. -/
theorem getElem?_iff
    {s : List α} {i : Nat}
    (hp : ∀ a b, a ≤ b → p b = true → p a = true) (hs : s.Pairwise (· ≤ ·))
    (h : s[i]? = some x) :
    p x = true ↔ i < s.countP p := by
  induction s generalizing i with
  | nil => cases h
  | cons a s ih =>
      obtain ⟨ha, hs⟩ := List.pairwise_cons.mp hs
      by_cases hpa : p a = true
      · rw [List.countP_cons_of_pos hpa]
        cases i with
        | zero =>
            cases h
            exact iff_of_true hpa (Nat.succ_pos _)
        | succ i =>
            rw [ih hs h]
            omega
      · have hnone : s.countP p = 0 := by
          rw [List.countP_eq_zero]
          exact fun b hb hpb => hpa (hp a b (ha b hb) hpb)
        rw [List.countP_cons_of_neg hpa, hnone]
        refine iff_of_false (fun hpx => hpa ?_) (Nat.not_lt_zero _)
        rcases List.mem_cons.mp (List.mem_of_getElem? h) with rfl | hx
        · exact hpx
        · exact hp a x (ha x hx) hpx

/--
A property that smaller elements keep holds of the element of a rank exactly if at least so
many elements have it.
-/
theorem nthSmallest_iff
    (hp : ∀ a b, a ≤ b → p b = true → p a = true) (hpos : 0 < k)
    (h : nthSmallest l k = some x) :
    p x = true ↔ k ≤ l.countP p := by
  have hsorted : (l.mergeSort fun a b => decide (a ≤ b)).Pairwise (· ≤ ·) := by
    have hpair := @List.pairwise_mergeSort _ (fun a b : α => decide (a ≤ b))
      (by simpa using fun a b c => le_trans) (by simpa using le_total) l
    simpa using hpair
  rw [getElem?_iff hp hsorted h, (List.mergeSort_perm l _).countP_eq]
  omega

/-- The element of a smaller rank is not greater. -/
theorem nthSmallest_mono
    {k' : Nat} {x' : α}
    (hpos : 0 < k) (hle : k ≤ k') (h : nthSmallest l k = some x)
    (h' : nthSmallest l k' = some x') :
    x ≤ x' := by
  have hp : ∀ a b, a ≤ b → decide (b ≤ x') = true → decide (a ≤ x') = true := by
    intro a b hab hb
    exact decide_eq_true (le_trans hab (of_decide_eq_true hb))
  have hrank := (nthSmallest_iff hp (Nat.lt_of_lt_of_le hpos hle) h').mp (decide_eq_true le_rfl)
  exact of_decide_eq_true ((nthSmallest_iff hp hpos h).mpr (Nat.le_trans hle hrank))

end Order

end Ranks
