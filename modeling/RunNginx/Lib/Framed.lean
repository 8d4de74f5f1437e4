import Mathlib.Data.List.Infix

/-!
# Framed separators

A separator between two texts that begins and ends with a quote, and has none within, can be
found at another place only where one text or the other holds it, with the quote beside it.
-/

namespace Framed

variable {α : Type} {q : α} {mid mid' x x' y y' : List α}

/-- A separator in quotes. -/
def framed (q : α) (mid : List α) : List α :=
  q :: (mid ++ [q])

@[simp] theorem length_framed :
    (framed q mid).length = mid.length + 2 := by
  simp [framed]

/-- Between two quotes the texts without one are the same. -/
theorem eq_of_quote
    {u v s t : List α} (hu : q ∉ u) (hv : q ∉ v) (h : u ++ q :: s = v ++ q :: t) :
    u = v ∧ s = t := by
  rw [List.append_eq_append_iff] at h
  rcases h with ⟨w, hv', hrest⟩ | ⟨w, hu', hrest⟩
  · cases w with
    | nil =>
        rw [List.append_nil] at hv'
        exact ⟨hv'.symm, (List.cons.inj hrest).2⟩
    | cons c w =>
        refine absurd ?_ hv
        rw [hv', (List.cons.inj hrest).1]
        exact List.mem_append_right _ List.mem_cons_self
  · cases w with
    | nil =>
        rw [List.append_nil] at hu'
        exact ⟨hu', ((List.cons.inj hrest).2).symm⟩
    | cons c w =>
        refine absurd ?_ hu
        rw [hu', (List.cons.inj hrest).1]
        exact List.mem_append_right _ List.mem_cons_self

/-- A separator that begins within the text in front ends there, or with the next quote. -/
theorem mem_front
    {t : List α} (hmid' : q ∉ mid')
    (h : framed q mid' ++ y' = t ++ framed q mid ++ y) (hne : t ≠ []) :
    ∃ s, t ++ [q] = framed q mid' ++ s := by
  obtain ⟨c, t, rfl⟩ := List.exists_cons_of_ne_nil hne
  simp only [framed, List.cons_append, List.append_assoc, List.nil_append] at h
  obtain ⟨rfl, htail⟩ := List.cons.inj h
  rw [List.append_eq_append_iff] at htail
  rcases htail with ⟨w, ht, hrest⟩ | ⟨w, hw, hrest⟩
  · cases w with
    | nil =>
        rw [List.append_nil] at ht
        refine ⟨[], ?_⟩
        simp [framed, ht]
    | cons b w =>
        obtain ⟨rfl, -⟩ := List.cons.inj hrest
        refine ⟨w ++ [q], ?_⟩
        simp [framed, ht]
  · cases w with
    | nil =>
        rw [List.append_nil] at hw
        refine ⟨[], ?_⟩
        simp [framed, hw]
    | cons b w =>
        refine absurd ?_ hmid'
        rw [hw, (List.cons.inj hrest).1]
        exact List.mem_append_right _ List.mem_cons_self

/-- One that begins behind the front begins at the second quote at the earliest. -/
theorem mem_back
    {t : List α} (hmid : q ∉ mid)
    (h : framed q mid ++ y = t ++ framed q mid' ++ y') (hne : t ≠ []) :
    ∃ s, q :: y = s ++ framed q mid' ++ y' := by
  obtain ⟨c, t, rfl⟩ := List.exists_cons_of_ne_nil hne
  simp only [framed, List.cons_append, List.append_assoc, List.nil_append] at h
  obtain ⟨rfl, htail⟩ := List.cons.inj h
  rw [List.append_eq_append_iff] at htail
  rcases htail with ⟨w, -, hrest⟩ | ⟨w, hw, hrest⟩
  · refine ⟨w, ?_⟩
    simp [framed, hrest]
  · cases w with
    | nil =>
        obtain ⟨-, hy⟩ := List.cons.inj hrest
        refine ⟨[], ?_⟩
        simp [framed, hy]
    | cons b w =>
        refine absurd ?_ hmid
        rw [hw, (List.cons.inj hrest).1]
        exact List.mem_append_right _ List.mem_cons_self

/--
Two readings of a text at a framed separator are the same, or one separator stands in the
front of the other reading, or behind it.
-/
theorem framed_cases
    (hmid : q ∉ mid) (hmid' : q ∉ mid')
    (h : x ++ framed q mid ++ y = x' ++ framed q mid' ++ y') :
    (x = x' ∧ mid = mid' ∧ y = y') ∨
      (∃ s, x ++ [q] = x' ++ framed q mid' ++ s) ∨
        ∃ s, q :: y = s ++ framed q mid' ++ y' := by
  rw [List.append_assoc, List.append_assoc, List.append_eq_append_iff] at h
  rcases h with ⟨t, hx', hrest⟩ | ⟨t, hx, hrest⟩
  · by_cases hne : t = []
    · subst hne
      rw [List.nil_append] at hrest
      simp only [framed, List.cons_append, List.append_assoc, List.nil_append] at hrest
      obtain ⟨hsame, hy⟩ := eq_of_quote hmid hmid' (List.cons.inj hrest).2
      exact Or.inl ⟨by rw [hx', List.append_nil], hsame, hy⟩
    · rw [← List.append_assoc] at hrest
      exact Or.inr (Or.inr (mem_back hmid hrest hne))
  · by_cases hne : t = []
    · subst hne
      rw [List.nil_append] at hrest
      simp only [framed, List.cons_append, List.append_assoc, List.nil_append] at hrest
      obtain ⟨hsame, hy⟩ := eq_of_quote hmid' hmid (List.cons.inj hrest).2
      exact Or.inl ⟨by rw [hx, List.append_nil], hsame.symm, hy.symm⟩
    · rw [← List.append_assoc] at hrest
      obtain ⟨s, hs⟩ := mem_front hmid' hrest hne
      refine Or.inr (Or.inl ⟨s, ?_⟩)
      rw [hx, List.append_assoc, hs, List.append_assoc]

end Framed
