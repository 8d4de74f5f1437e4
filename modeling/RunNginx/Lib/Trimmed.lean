import RunNginx.Lib.Utf8

/-!
# Trimmed texts

A text is trimmed if no white space character stands at either end.  Trimming gives such a
text and leaves it as it is, and ASCII case does not matter for it.
-/

namespace Utf8

open ByteString

/-- No white space at either end. -/
structure Trimmed (s : Bytes) : Prop where
  start : ∀ w ∈ whitespace, ¬ w <+: s
  last : ∀ w ∈ whitespace, ¬ w <:+ s

theorem whitespace_ne_nil
    {w : Bytes} (hw : w ∈ whitespace) :
    w ≠ [] := by
  rintro rfl
  obtain ⟨_, _, hhead, -⟩ := whitespace_hidden hw
  cases hhead

section Loops

variable {fuel : Nat} {s : Bytes}

theorem trimStartLoop_of_start
    (h : ∀ w ∈ whitespace, ¬ w <+: s) :
    trimStartLoop fuel s = s := by
  have hnone : (whitespace.findSome? fun w => stripPrefix w s) = none := by
    rw [List.findSome?_eq_none_iff]
    intro w hw
    rw [Option.eq_none_iff_forall_ne_some]
    intro t ht
    exact h w hw ⟨t, (stripPrefix_eq_some_iff.mp ht).symm⟩
  cases fuel with
  | zero => rfl
  | succ fuel => rw [trimStartLoop, hnone]

theorem trimEndLoop_of_last
    (h : ∀ w ∈ whitespace, ¬ w <:+ s) :
    trimEndLoop fuel s = s := by
  have hnone : (whitespace.findSome? fun w => stripSuffix w s) = none := by
    rw [List.findSome?_eq_none_iff]
    intro w hw
    rw [Option.eq_none_iff_forall_ne_some]
    intro t ht
    exact h w hw ⟨t, (stripSuffix_eq_some_iff.mp ht).symm⟩
  cases fuel with
  | zero => rfl
  | succ fuel => rw [trimEndLoop, hnone]

/-- Every turn drops a character, so the text is used up before the fuel. -/
theorem start_trimStartLoop
    (h : s.length ≤ fuel) :
    ∀ w ∈ whitespace, ¬ w <+: trimStartLoop fuel s := by
  induction fuel generalizing s with
  | zero =>
      obtain rfl := List.length_eq_zero_iff.mp (Nat.le_zero.mp h)
      intro w hw hprefix
      exact whitespace_ne_nil hw (List.prefix_nil.mp hprefix)
  | succ fuel ih =>
      rw [trimStartLoop]
      cases hfound : whitespace.findSome? fun w => stripPrefix w s with
      | none =>
          rintro w hw ⟨t, ht⟩
          have hstrip := List.findSome?_eq_none_iff.mp hfound w hw
          rw [stripPrefix_eq_some_iff.mpr ht.symm] at hstrip
          cases hstrip
      | some rest =>
          obtain ⟨w, hw, hstrip⟩ := List.exists_of_findSome?_eq_some hfound
          have heq := stripPrefix_eq_some_iff.mp hstrip
          have hpos := List.length_pos_iff.mpr (whitespace_ne_nil hw)
          refine ih ?_
          rw [heq, List.length_append] at h
          omega

theorem last_trimEndLoop
    (h : s.length ≤ fuel) :
    ∀ w ∈ whitespace, ¬ w <:+ trimEndLoop fuel s := by
  induction fuel generalizing s with
  | zero =>
      obtain rfl := List.length_eq_zero_iff.mp (Nat.le_zero.mp h)
      intro w hw hsuffix
      exact whitespace_ne_nil hw (List.suffix_nil.mp hsuffix)
  | succ fuel ih =>
      rw [trimEndLoop]
      cases hfound : whitespace.findSome? fun w => stripSuffix w s with
      | none =>
          rintro w hw ⟨t, ht⟩
          have hstrip := List.findSome?_eq_none_iff.mp hfound w hw
          rw [stripSuffix_eq_some_iff.mpr ht.symm] at hstrip
          cases hstrip
      | some rest =>
          obtain ⟨w, hw, hstrip⟩ := List.exists_of_findSome?_eq_some hfound
          have heq := stripSuffix_eq_some_iff.mp hstrip
          have hpos := List.length_pos_iff.mpr (whitespace_ne_nil hw)
          refine ih ?_
          rw [heq, List.length_append] at h
          omega

theorem trimEndLoop_front
    (fuel : Nat) (s : Bytes) :
    trimEndLoop fuel s <+: s := by
  induction fuel generalizing s with
  | zero => exact List.prefix_rfl
  | succ fuel ih =>
      rw [trimEndLoop]
      cases hfound : whitespace.findSome? fun w => stripSuffix w s with
      | none => exact List.prefix_rfl
      | some rest =>
          obtain ⟨w, -, hstrip⟩ := List.exists_of_findSome?_eq_some hfound
          exact (ih rest).trans ⟨w, (stripSuffix_eq_some_iff.mp hstrip).symm⟩

end Loops

section Trim

variable {s : Bytes}

/-- What is left is trimmed. -/
theorem trimmed_trim
    (s : Bytes) :
    Trimmed (trim s) := by
  have hstart := start_trimStartLoop (Nat.le_refl s.length)
  refine ⟨fun w hw hfront => ?_, last_trimEndLoop (Nat.le_refl _)⟩
  exact hstart w hw (hfront.trans (trimEndLoop_front _ _))

theorem trim_eq_self_iff :
    trim s = s ↔ Trimmed s := by
  constructor
  · intro h
    exact h ▸ trimmed_trim s
  · rintro ⟨hstart, hlast⟩
    unfold trim
    dsimp only
    rw [trimStartLoop_of_start hstart, trimEndLoop_of_last hlast]

/-- A hidden byte is not in upper case, and no letter is turned into one. -/
theorem toLowerByte_hidden_iff
    {b c : UInt8} (hc : isVisible c = false) :
    toLowerByte b = c ↔ b = c := by
  have hlower : ∀ b : UInt8, isVisible (toLowerByte b) = false → toLowerByte b = b :=
    forall_byte (by decide +kernel)
  have hupper : ∀ b : UInt8, isVisible b = false → toLowerByte b = b :=
    forall_byte (by decide +kernel)
  constructor
  · rintro rfl
    exact (hlower b hc).symm
  · rintro rfl
    exact hupper b hc

theorem toAsciiLower_eq_iff
    {w t : Bytes} (hw : w ∈ whitespace) :
    toAsciiLower t = w ↔ t = w := by
  have hhidden := hidden_of_mem_whitespace hw
  clear hw
  induction t generalizing w with
  | nil => exact Iff.rfl
  | cons b t ih =>
      cases w with
      | nil => exact ⟨fun h => (by cases h), fun h => (by cases h)⟩
      | cons c w =>
          obtain ⟨hc, hrest⟩ := List.forall_mem_cons.mp hhidden
          have hcons : toAsciiLower (b :: t) = toLowerByte b :: toAsciiLower t := rfl
          rw [hcons, List.cons.injEq, List.cons.injEq, toLowerByte_hidden_iff hc]
          exact and_congr_right fun _ => ih hrest

/-- Case does not matter for what is trimmed. -/
theorem trimmed_toAsciiLower_iff :
    Trimmed (toAsciiLower s) ↔ Trimmed s := by
  have hstart : ∀ w ∈ whitespace, w <+: toAsciiLower s ↔ w <+: s := by
    intro w hw
    rw [toAsciiLower, List.prefix_map_iff]
    constructor
    · rintro ⟨t, ht, heq⟩
      rwa [(toAsciiLower_eq_iff hw).mp heq.symm] at ht
    · intro h
      exact ⟨w, h, ((toAsciiLower_eq_iff hw).mpr rfl).symm⟩
  have hlast : ∀ w ∈ whitespace, w <:+ toAsciiLower s ↔ w <:+ s := by
    intro w hw
    rw [toAsciiLower, List.suffix_map_iff]
    constructor
    · rintro ⟨t, ht, heq⟩
      rwa [(toAsciiLower_eq_iff hw).mp heq.symm] at ht
    · intro h
      exact ⟨w, h, ((toAsciiLower_eq_iff hw).mpr rfl).symm⟩
  constructor
  · rintro ⟨h, h'⟩
    exact ⟨fun w hw => mt (hstart w hw).mpr (h w hw), fun w hw => mt (hlast w hw).mpr (h' w hw)⟩
  · rintro ⟨h, h'⟩
    exact ⟨fun w hw => mt (hstart w hw).mp (h w hw), fun w hw => mt (hlast w hw).mp (h' w hw)⟩

/-- An ending of a trimmed text that starts with a visible byte is trimmed. -/
theorem Trimmed.of_suffix
    {b : UInt8} {t : Bytes} (h : Trimmed s) (hb : isVisible b = true) (hsuffix : b :: t <:+ s) :
    Trimmed (b :: t) := by
  refine ⟨fun w hw hprefix => ?_, fun w hw hlast => h.last w hw (hlast.trans hsuffix)⟩
  cases w with
  | nil => exact whitespace_ne_nil hw rfl
  | cons c w =>
      obtain ⟨rfl, -⟩ := List.cons_prefix_cons.mp hprefix
      have hhidden := hidden_of_mem_whitespace hw c List.mem_cons_self
      rw [hb] at hhidden
      cases hhidden

end Trim

end Utf8
