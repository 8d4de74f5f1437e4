import Mathlib.Data.List.Chain

/-!
# Copies that are revalidated

A client keeps the last answer under its tag, and asks with the tag whether there is another one
by now.  What it is shown is the copy as long as the tag is the current one.

`shown_eq_plain_iff`: the client is shown what a client without copies is told at every visit,
exactly if no two visits in a row have one tag and different answers.
-/

namespace Revalidated

variable {τ γ : Type}

/-- What there is at a visit: the current tag, and the answer to a client without a copy. -/
structure Now (τ γ : Type) where
  current : Option τ
  plain : γ

section Client

variable [DecidableEq τ] (tagOf : γ → Option τ)

/-- An answer is kept if it has a tag. -/
def keep (answer : γ) : Option γ :=
  if (tagOf answer).isSome then some answer else none

/-- Is the copy of a client the current one? -/
def isCurrent (copy : Option γ) (now : Now τ γ) : Bool :=
  now.current.isSome && copy.bind tagOf == now.current

/-- What a client is shown, and the copy it has then. -/
def visit (copy : Option γ) (now : Now τ γ) : γ × Option γ :=
  if isCurrent tagOf copy now then (copy.getD now.plain, copy) else (now.plain, keep tagOf now.plain)

/-- What a client is shown at visits one after the other. -/
def shown : Option γ → List (Now τ γ) → List γ
  | _, [] => []
  | copy, now :: nows => (visit tagOf copy now).1 :: shown (visit tagOf copy now).2 nows

/-- Nothing changes under the tag of the first answer. -/
def Faithful (a b : Now τ γ) : Prop :=
  ∀ t, tagOf a.plain = some t → b.current = some t → b.plain = a.plain

end Client

section Faithfulness

variable {tagOf : γ → Option τ} {copy : Option γ} {now : Now τ γ}

/-- Nothing has changed under the tag of the copy. -/
def CopyFaithful (tagOf : γ → Option τ) (copy : Option γ) (now : Now τ γ) : Prop :=
  ∀ c t, copy = some c → tagOf c = some t → now.current = some t → now.plain = c

theorem copyFaithful_keep_iff
    {answer : γ} :
    CopyFaithful tagOf (keep tagOf answer) now ↔
      ∀ t, tagOf answer = some t → now.current = some t → now.plain = answer := by
  unfold CopyFaithful keep
  constructor
  · intro h t ht hcurrent
    exact h answer t (if_pos (Option.isSome_of_eq_some ht)) ht hcurrent
  · intro h c t hc ht hcurrent
    split at hc
    · rw [← Option.some.inj hc] at ht ⊢
      exact h t ht hcurrent
    · cases hc

variable [DecidableEq τ]

theorem isCurrent_iff :
    isCurrent tagOf copy now = true ↔
      ∃ c t, copy = some c ∧ tagOf c = some t ∧ now.current = some t := by
  unfold isCurrent
  rw [Bool.and_eq_true, Option.isSome_iff_exists, beq_iff_eq]
  constructor
  · rintro ⟨⟨t, ht⟩, heq⟩
    rw [ht] at heq
    obtain ⟨c, hc, htag⟩ := Option.bind_eq_some_iff.mp heq
    exact ⟨c, t, hc, htag, ht⟩
  · rintro ⟨c, t, rfl, htag, ht⟩
    exact ⟨⟨t, ht⟩, htag.trans ht.symm⟩

/-- A visit shows what there is if the copy is faithful, and the next copy is so if this is. -/
theorem visit_eq_plain_iff :
    (visit tagOf copy now).1 = now.plain ↔ CopyFaithful tagOf copy now := by
  unfold visit
  by_cases hcurrent : isCurrent tagOf copy now = true
  · rw [if_pos hcurrent]
    obtain ⟨c, t, rfl, htag, ht⟩ := isCurrent_iff.mp hcurrent
    constructor
    · rintro hplain c' t' hc - -
      rw [← Option.some.inj hc]
      exact hplain.symm
    · exact fun h => (h c t rfl htag ht).symm
  · rw [if_neg hcurrent]
    refine ⟨fun _ c t hc htag ht => ?_, fun _ => rfl⟩
    exact absurd (isCurrent_iff.mpr ⟨c, t, hc, htag, ht⟩) hcurrent

theorem copyFaithful_visit_iff
    {next : Now τ γ} (h : CopyFaithful tagOf copy now) :
    CopyFaithful tagOf (visit tagOf copy now).2 next ↔ Faithful tagOf now next := by
  unfold visit
  by_cases hcurrent : isCurrent tagOf copy now = true
  · rw [if_pos hcurrent]
    obtain ⟨c, t, rfl, htag, ht⟩ := isCurrent_iff.mp hcurrent
    unfold Faithful
    rw [h c t rfl htag ht]
    constructor
    · exact fun hcopy t' ht' hnext => hcopy c t' rfl ht' hnext
    · intro hfaithful c' t' hc
      obtain rfl := Option.some.inj hc
      exact hfaithful t'
  · rw [if_neg hcurrent]
    exact copyFaithful_keep_iff

/-- The same from any copy. -/
theorem shown_eq_plain_from_iff
    (copy : Option γ) (nows : List (Now τ γ)) :
    shown tagOf copy nows = nows.map Now.plain ↔
      (∀ now ∈ nows.head?, CopyFaithful tagOf copy now) ∧ nows.IsChain (Faithful tagOf) := by
  induction nows generalizing copy with
  | nil => simp [shown]
  | cons now nows ih =>
      rw [shown, List.map_cons, List.cons_eq_cons, visit_eq_plain_iff, ih, List.isChain_cons]
      rw [List.head?_cons]
      constructor
      · rintro ⟨hcopy, hnext, hchain⟩
        refine ⟨by simpa using hcopy, fun next hmem => ?_, hchain⟩
        exact (copyFaithful_visit_iff hcopy).mp (hnext next hmem)
      · rintro ⟨hcopy, hnext, hchain⟩
        have hfaithful : CopyFaithful tagOf copy now := hcopy now rfl
        refine ⟨hfaithful, fun next hmem => ?_, hchain⟩
        exact (copyFaithful_visit_iff hfaithful).mpr (hnext next hmem)

/--
The client is shown at every visit what a client without copies is told, exactly if no two visits
in a row have one tag and different answers.
-/
theorem shown_eq_plain_iff
    (nows : List (Now τ γ)) :
    shown tagOf none nows = nows.map Now.plain ↔ nows.IsChain (Faithful tagOf) := by
  rw [shown_eq_plain_from_iff]
  exact and_iff_right fun now _ c t hc => by cases hc

end Faithfulness

end Revalidated
