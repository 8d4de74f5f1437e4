import Mathlib.Data.List.Basic
import Mathlib.Data.List.Nodup

/-!
# Taking added entries out again

Entries are added behind a list and are to be taken out again one after the other, each by
a deletion that removes the first entry it fits.  A deletion may also fail.

`undone_iff`: the list is what it was before exactly if no deletion fails and none fits an
entry that was there before.  `cleared_iff`: where a deletion removes every entry it fits,
the list is what it was before exactly if the added entries are those that a deletion fits.
-/

namespace Undo

variable {α : Type}

/-- Deletions one after the other, each by `del`; `none` is one that fails. -/
def deletedBy (del : (α → Bool) → List α → List α) : List (Option (α → Bool)) → List α → List α
  | [], l => l
  | none :: ds, l => deletedBy del ds l
  | some p :: ds, l => deletedBy del ds (del p l)

theorem eraseFirst_sublist
    (ds : List (Option (α → Bool))) (l : List α) :
    (deletedBy List.eraseP ds l).Sublist l := by
  induction ds generalizing l with
  | nil => exact List.Sublist.refl l
  | cons d ds ih =>
      cases d with
      | none => exact ih l
      | some p => exact (ih (l.eraseP p)).trans List.eraseP_sublist

/-- Each deletion takes out one entry at most. -/
theorem length_le_eraseFirst
    (ds : List (Option (α → Bool))) (l : List α) :
    l.length ≤ (deletedBy List.eraseP ds l).length + ds.length := by
  induction ds generalizing l with
  | nil => exact Nat.le_add_right ..
  | cons d ds ih =>
      rw [List.length_cons]
      cases d with
      | none =>
          have := ih l
          rw [deletedBy]
          omega
      | some p =>
          have := ih (l.eraseP p)
          have hone : l.length ≤ (l.eraseP p).length + 1 := by
            rw [List.length_eraseP]
            split
            · omega
            · omega
          rw [deletedBy]
          omega

/-- Every deletion fits the entry it is meant for. -/
def Fits (ds : List (Option (α → Bool))) (added : List α) : Prop :=
  List.Forall₂ (fun d x => ∀ p ∈ d, p x = true) ds added

theorem not_mem_of_nodup_middle
    {a : α} {l₁ l₂ l₃ : List α}
    (h : (l₁ ++ a :: l₂ ++ l₃).Nodup) :
    a ∉ l₁ ++ l₂ ++ l₃ := by
  rw [List.append_assoc, List.cons_append, List.nodup_middle, List.nodup_cons] at h
  rw [List.append_assoc]
  exact h.1

/--
Deletions of the added entries restore a list exactly if none fails and none fits an entry
that was there before.
-/
theorem undone_iff
    {ds : List (Option (α → Bool))} {before added : List α}
    (hnodup : (before ++ added).Nodup) (hfits : Fits ds added) :
    deletedBy List.eraseP ds (before ++ added) = before ↔
      ∀ d ∈ ds, ∃ p, d = some p ∧ ∀ x ∈ before, p x = false := by
  induction hfits with
  | nil => simp [deletedBy]
  | @cons d x ds added hd hfits ih =>
      have hlen : ds.length = added.length := hfits.length_eq
      rw [List.forall_mem_cons]
      cases d with
      | none =>
          -- one entry is left that no deletion is left for
          refine iff_of_false (fun h => ?_) (fun h => by simp at h)
          have hle := length_le_eraseFirst ds (before ++ x :: added)
          rw [deletedBy] at h
          rw [h, List.length_append, List.length_cons] at hle
          omega
      | some p =>
          have hx : p x = true := hd p rfl
          by_cases hbefore : ∀ y ∈ before, p y = false
          · have herase : (before ++ x :: added).eraseP p = before ++ added := by
              rw [List.eraseP_append_right, List.eraseP_cons_of_pos hx]
              exact fun y hy => by simp [hbefore y hy]
            have hrest : (before ++ added).Nodup :=
              hnodup.sublist (List.Sublist.append_left (List.sublist_cons_self x added) before)
            rw [deletedBy, herase, ih hrest]
            exact ⟨fun h => ⟨⟨p, rfl, hbefore⟩, h⟩, fun h => h.2⟩
          · -- the deletion takes out an entry that was there before
            refine iff_of_false (fun h => ?_) (fun h => ?_)
            · push Not at hbefore
              obtain ⟨y, hy, hpy⟩ := hbefore
              have hpy : p y = true := by simpa using hpy
              obtain ⟨a, l₁, l₂, -, -, rfl, herase⟩ := List.exists_of_eraseP hy hpy
              rw [deletedBy, List.eraseP_append_left hpy _ hy, herase] at h
              have hsub := eraseFirst_sublist ds (l₁ ++ l₂ ++ x :: added)
              rw [h] at hsub
              have hmem := hsub.subset (List.mem_append_right l₁ List.mem_cons_self)
              exact not_mem_of_nodup_middle hnodup hmem
            · obtain ⟨q, hq, hnone⟩ := h.1
              cases hq
              exact hbefore hnone

/-- The deletion of every entry that fits. -/
def eraseAll (p : α → Bool) (l : List α) : List α :=
  l.filter fun x => !p x

/-- A deletion fits this entry. -/
def Hit (ds : List (Option (α → Bool))) (x : α) : Prop :=
  ∃ p, some p ∈ ds ∧ p x = true

theorem mem_eraseAll_iff
    {ds : List (Option (α → Bool))} {l : List α} {x : α} :
    x ∈ deletedBy eraseAll ds l ↔ x ∈ l ∧ ¬ Hit ds x := by
  induction ds generalizing l with
  | nil => simp [deletedBy, Hit]
  | cons d ds ih =>
      cases d with
      | none =>
          rw [deletedBy, ih]
          simp [Hit]
      | some p =>
          rw [deletedBy, eraseAll, ih, List.mem_filter, and_assoc]
          simp [Hit]

theorem eraseAll_append
    (ds : List (Option (α → Bool))) (l₁ l₂ : List α) :
    deletedBy eraseAll ds (l₁ ++ l₂) = deletedBy eraseAll ds l₁ ++ deletedBy eraseAll ds l₂ := by
  induction ds generalizing l₁ l₂ with
  | nil => rfl
  | cons d ds ih =>
      cases d with
      | none => exact ih l₁ l₂
      | some p =>
          rw [deletedBy, eraseAll, List.filter_append]
          exact ih ..

theorem eraseAll_eq_self
    {ds : List (Option (α → Bool))} {l : List α}
    (h : ∀ x ∈ l, ¬ Hit ds x) :
    deletedBy eraseAll ds l = l := by
  induction ds with
  | nil => rfl
  | cons d ds ih =>
      have hrest : ∀ x ∈ l, ¬ Hit ds x := fun x hx ⟨p, hp, hfit⟩ =>
        h x hx ⟨p, List.mem_cons_of_mem d hp, hfit⟩
      cases d with
      | none => exact ih hrest
      | some p =>
          have hfilter : l.filter (fun x => !p x) = l := by
            rw [List.filter_eq_self]
            intro x hx
            by_contra hpx
            exact h x hx ⟨p, List.mem_cons_self, by simpa using hpx⟩
          rw [deletedBy, eraseAll, hfilter]
          exact ih hrest

/--
Deletions of every entry they fit restore a list exactly if they fit the added entries and
no others.
-/
theorem cleared_iff
    {ds : List (Option (α → Bool))} {before added : List α}
    (hnodup : (before ++ added).Nodup) :
    deletedBy eraseAll ds (before ++ added) = before ↔
      (∀ x ∈ before, ¬ Hit ds x) ∧ ∀ x ∈ added, Hit ds x := by
  have hapart : ∀ x ∈ added, x ∉ before := fun x hx hbefore =>
    (List.nodup_append.mp hnodup).2.2 x hbefore x hx rfl
  constructor
  · intro h
    refine ⟨fun x hx => ?_, fun x hx => ?_⟩
    · rw [← h] at hx
      exact (mem_eraseAll_iff.mp hx).2
    · by_contra hhit
      apply hapart x hx
      rw [← h]
      exact mem_eraseAll_iff.mpr ⟨List.mem_append_right before hx, hhit⟩
  · rintro ⟨hbefore, hadded⟩
    have hnone : deletedBy eraseAll ds added = [] :=
      List.eq_nil_iff_forall_not_mem.mpr fun x hx =>
        have h := mem_eraseAll_iff.mp hx
        h.2 (hadded x h.1)
    rw [eraseAll_append, eraseAll_eq_self hbefore, hnone, List.append_nil]

end Undo
