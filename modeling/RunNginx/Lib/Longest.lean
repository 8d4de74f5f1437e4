import Mathlib.Data.List.Induction

/-!
# The longest of a list

Some members of a list have a length.  A scan that keeps the longer of what it has and what
it meets ends with one of the longest.
-/

namespace Longest

variable {α : Type} {len : α → Option Nat} {l : List α} {best : Option (α × Nat)}

/-- No member is longer than `n`. -/
def AtMost (len : α → Option Nat) (l : List α) (n : Nat) : Prop :=
  ∀ y ∈ l, ∀ m, len y = some m → m ≤ n

/-- One of the longest members of a list. -/
def IsLongest (len : α → Option Nat) (l : List α) (x : α) : Prop :=
  x ∈ l ∧ ∃ n, len x = some n ∧ AtMost len l n

/-- The longer of what a scan has found and of a further member, the former on a tie. -/
def keep (len : α → Option Nat) (best : Option (α × Nat)) (x : α) : Option (α × Nat) :=
  match len x, best with
  | none, _ => best
  | some n, none => some (x, n)
  | some n, some (_, m) => if m < n then some (x, n) else best

/-- What a scan over a list has to have found. -/
def Best (len : α → Option Nat) (l : List α) : Option (α × Nat) → Prop
  | none => ∀ x ∈ l, len x = none
  | some (x, n) => x ∈ l ∧ len x = some n ∧ AtMost len l n

theorem AtMost.concat
    {n k : Nat} {x : α}
    (h : AtMost len l n) (hle : n ≤ k) (hx : ∀ m, len x = some m → m ≤ k) :
    AtMost len (l ++ [x]) k := by
  intro y hy m hm
  rcases List.mem_append.mp hy with hy | hy
  · exact Nat.le_trans (h y hy m hm) hle
  · rw [List.mem_singleton.mp hy] at hm
    exact hx m hm

theorem atMost_of_none
    {n : Nat}
    (h : ∀ x ∈ l, len x = none) :
    AtMost len l n := by
  intro y hy m hm
  rw [h y hy] at hm
  cases hm

theorem Best.keep
    (x : α) (h : Best len l best) :
    Best len (l ++ [x]) (keep len best x) := by
  have hlast : x ∈ l ++ [x] := List.mem_append_right _ (List.mem_singleton_self x)
  unfold Longest.keep
  cases hx : len x with
  | none =>
      cases best with
      | none =>
          intro y hy
          rcases List.mem_append.mp hy with hy | hy
          · exact h y hy
          · rw [List.mem_singleton.mp hy, hx]
      | some b =>
          obtain ⟨hmem, hlen, hmax⟩ := h
          exact ⟨List.mem_append_left _ hmem, hlen,
            hmax.concat (Nat.le_refl _) (fun m hm => by simp [hx] at hm)⟩
  | some n =>
      have hself : ∀ m, len x = some m → m ≤ n := fun m hm => by
        rw [hx] at hm
        cases hm
        exact Nat.le_refl n
      cases best with
      | none => exact ⟨hlast, hx, (atMost_of_none h).concat (Nat.le_refl n) hself⟩
      | some b =>
          obtain ⟨hmem, hlen, hmax⟩ := h
          by_cases hlt : b.2 < n
          · simp only [hlt, if_true]
            exact ⟨hlast, hx, hmax.concat (Nat.le_of_lt hlt) hself⟩
          · simp only [hlt, if_false]
            refine ⟨List.mem_append_left _ hmem, hlen, hmax.concat (Nat.le_refl _) ?_⟩
            exact fun m hm => Nat.le_trans (hself m hm) (Nat.le_of_not_lt hlt)

/-- The whole scan. -/
def scan (len : α → Option Nat) (l : List α) : Option (α × Nat) :=
  l.foldl (keep len) none

theorem best_scan
    (len : α → Option Nat) (l : List α) :
    Best len l (scan len l) := by
  induction l using List.reverseRecOn with
  | nil => exact fun x hx => absurd hx (List.not_mem_nil)
  | append_singleton l x ih =>
      rw [scan, List.foldl_append]
      exact ih.keep x

theorem isLongest_of_scan
    {x : α} {n : Nat}
    (h : scan len l = some (x, n)) :
    IsLongest len l x := by
  have hbest : Best len l (scan len l) := best_scan len l
  rw [h] at hbest
  exact ⟨hbest.1, n, hbest.2⟩

/-- Nothing before it is as long, and nothing behind it is longer. -/
def IsFirst (len : α → Option Nat) (before after : List α) (n : Nat) : Prop :=
  (∀ y ∈ before, ∀ m, len y = some m → m < n) ∧ AtMost len after n

/-- What the scan has found is the first of the longest. -/
theorem scan_split
    {x : α} {n : Nat}
    (h : scan len l = some (x, n)) :
    len x = some n ∧ ∃ before after, l = before ++ x :: after ∧ IsFirst len before after n := by
  induction l using List.reverseRecOn generalizing x n with
  | nil => cases h
  | append_singleton l y ih =>
      have hbest : Best len l (scan len l) := best_scan len l
      have hkept : scan len l = some (x, n) → (∀ m, len y = some m → m ≤ n) →
          len x = some n ∧ ∃ before after, l ++ [y] = before ++ x :: after ∧
            IsFirst len before after n := by
        intro hl hy
        obtain ⟨hx, before, after, rfl, hbefore, hafter⟩ := ih hl
        exact ⟨hx, before, after ++ [y], by simp, hbefore, hafter.concat (Nat.le_refl n) hy⟩
      rw [scan, List.foldl_append, List.foldl_cons, List.foldl_nil, ← scan] at h
      unfold keep at h
      cases hy : len y with
      | none =>
          simp only [hy] at h
          exact hkept h fun m hm => by simp [hy] at hm
      | some k =>
          cases hl : scan len l with
          | none =>
              simp only [hy, hl] at h hbest
              cases h
              refine ⟨hy, l, [], rfl, fun z hz m hm => ?_, fun z hz => by cases hz⟩
              rw [hbest z hz] at hm
              cases hm
          | some b =>
              simp only [hy, hl] at h hbest
              split at h
              · rename_i hlt
                cases h
                exact ⟨hy, l, [], rfl,
                  fun z hz m hm => Nat.lt_of_le_of_lt (hbest.2.2 z hz m hm) hlt,
                  fun z hz => by cases hz⟩
              · rename_i hle
                obtain rfl : b = (x, n) := Option.some.inj h
                refine hkept hl fun m hm => ?_
                rw [hy] at hm
                cases hm
                exact Nat.le_of_not_lt hle

/-- Something is longest as soon as something has a length. -/
theorem exists_isLongest
    {x : α} {n : Nat}
    (hx : x ∈ l) (hlen : len x = some n) :
    ∃ y, IsLongest len l y := by
  have hbest : Best len l (scan len l) := best_scan len l
  cases hscan : scan len l with
  | none =>
      rw [hscan] at hbest
      exact absurd (hbest x hx) (by simp [hlen])
  | some b => exact ⟨b.1, isLongest_of_scan (n := b.2) hscan⟩

end Longest
