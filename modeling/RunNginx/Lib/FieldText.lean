import Mathlib.Data.List.TakeWhile
import RunNginx.Lib.HttpMessage
import RunNginx.Lib.Utf8

/-!
# Values of fields, trimmed in two ways

A recipient takes blanks off the ends of a field value; a string function takes all white
space.  A value that begins and ends with a visible byte is left the same by both.
-/

namespace HttpMessage

open ByteString

/-- What is trimmed are blanks at both ends. -/
theorem trimBy_split
    (p : UInt8 → Bool) (s : Bytes) :
    ∃ lead trail, (∀ b ∈ lead, p b = true) ∧ (∀ b ∈ trail, p b = true) ∧
      s = lead ++ trimBy p s ++ trail := by
  have hback : (s.dropWhile p).reverse.takeWhile p ++ (s.dropWhile p).reverse.dropWhile p =
      (s.dropWhile p).reverse :=
    List.takeWhile_append_dropWhile
  have hsplit : s.dropWhile p = trimBy p s ++ ((s.dropWhile p).reverse.takeWhile p).reverse := by
    have hreverse := congrArg List.reverse hback
    rw [List.reverse_append, List.reverse_reverse] at hreverse
    exact hreverse.symm
  refine ⟨s.takeWhile p, ((s.dropWhile p).reverse.takeWhile p).reverse,
    fun b hb => List.mem_takeWhile_imp hb, fun b hb => ?_, ?_⟩
  · exact List.mem_takeWhile_imp (List.mem_reverse.mp hb)
  · rw [List.append_assoc, ← hsplit, List.takeWhile_append_dropWhile]

/-- Blanks are white space at the beginning of a text. -/
theorem trimStartLoop_blanks
    {lead : Bytes} (hlead : ∀ b ∈ lead, isOws b = true) (fuel : Nat) (s : Bytes) :
    Utf8.trimStartLoop (lead.length + fuel) (lead ++ s) = Utf8.trimStartLoop fuel s := by
  induction lead with
  | nil => rw [List.length_nil, Nat.zero_add, List.nil_append]
  | cons b lead ih =>
      obtain ⟨hb, hrest⟩ := List.forall_mem_cons.mp hlead
      rw [isOws, Bool.or_eq_true, beq_iff_eq, beq_iff_eq] at hb
      rw [List.length_cons, Nat.add_right_comm, List.cons_append, Utf8.trimStartLoop]
      rcases hb with rfl | rfl
      · exact ih hrest
      · exact ih hrest

theorem stripSuffix_singleton
    (s : Bytes) (b c : UInt8) :
    stripSuffix [c] (s ++ [b]) = if c = b then some s else none := by
  split
  · rename_i heq
    rw [heq]
    exact stripSuffix_eq_some_iff.mpr rfl
  · rename_i hne
    refine Option.eq_none_iff_forall_ne_some.mpr fun t ht => hne ?_
    have hlast := (List.append_inj' (stripSuffix_eq_some_iff.mp ht) rfl).2
    exact (List.singleton_inj.mp hlast).symm

/-- And at the end. -/
theorem trimEndLoop_blanks
    {trail : Bytes} (htrail : ∀ b ∈ trail, isOws b = true) (fuel : Nat) (s : Bytes) :
    Utf8.trimEndLoop (trail.length + fuel) (s ++ trail) = Utf8.trimEndLoop fuel s := by
  induction trail using List.reverseRecOn with
  | nil => rw [List.length_nil, Nat.zero_add, List.append_nil]
  | append_singleton trail b ih =>
      have hb := htrail b (List.mem_append_right _ List.mem_cons_self)
      have hfound : (Utf8.whitespace.findSome? fun w => stripSuffix w (s ++ trail ++ [b])) =
          some (s ++ trail) := by
        rw [isOws, Bool.or_eq_true, beq_iff_eq, beq_iff_eq] at hb
        simp only [Utf8.whitespace, List.findSome?_cons, stripSuffix_singleton]
        rcases hb with rfl | rfl
        · rfl
        · rfl
      rw [List.length_append, List.length_singleton, Nat.add_right_comm, ← List.append_assoc,
        Utf8.trimEndLoop, hfound]
      exact ih fun c hc => htrail c (List.mem_append_left _ hc)

/-- The value that a recipient reads is the one that the string function leaves. -/
theorem trim_eq_trimBy
    {s : Bytes} (hne : trimBy isOws s ≠ [])
    (hvisible : ∀ b ∈ trimBy isOws s, Utf8.isVisible b = true) :
    Utf8.trim s = trimBy isOws s := by
  obtain ⟨lead, trail, hlead, htrail, hs⟩ := trimBy_split isOws s
  generalize trimBy isOws s = v at hne hvisible hs
  subst hs
  obtain ⟨b, v', rfl⟩ := List.exists_cons_of_ne_nil hne
  have hstart : Utf8.trimStartLoop (lead ++ (b :: v') ++ trail).length
      (lead ++ (b :: v') ++ trail) = b :: v' ++ trail := by
    rw [List.append_assoc, List.length_append, trimStartLoop_blanks hlead, List.cons_append]
    exact Utf8.trimStartLoop_of_visible (hvisible b List.mem_cons_self) _
  unfold Utf8.trim
  dsimp only
  rw [hstart, List.length_append, Nat.add_comm, trimEndLoop_blanks htrail]
  obtain ⟨u, c, heq⟩ := (List.eq_nil_or_concat (b :: v')).resolve_left hne
  rw [List.concat_eq_append] at heq
  rw [heq] at hvisible ⊢
  exact Utf8.trimEndLoop_of_visible (hvisible c (by simp)) _

theorem visible_of_isDigit
    {b : UInt8} (h : Decimal.isDigit b = true) :
    Utf8.isVisible b = true := by
  rw [Decimal.isDigit, Bool.and_eq_true, decide_eq_true_eq, decide_eq_true_eq] at h
  rw [Utf8.isVisible, Bool.and_eq_true, decide_eq_true_eq, decide_eq_true_eq]
  exact ⟨UInt8.le_trans (by decide) h.1, UInt8.lt_of_le_of_lt h.2 (by decide)⟩

/-- A numeral is read as its number, if that fits. -/
theorem parseUnsigned_trim
    {s : Bytes} {n : Nat} (h : IsNumeral (trimBy isOws s) n) (bound : Nat) :
    Decimal.parseUnsigned bound (Utf8.trim s) = if n < bound then some n else none := by
  obtain ⟨hne, hdigits, rfl⟩ := h
  have hvisible : ∀ b ∈ trimBy isOws s, Utf8.isVisible b = true :=
    fun b hb => visible_of_isDigit (List.all_eq_true.mp hdigits b hb)
  rw [trim_eq_trimBy hne hvisible]
  split
  · rename_i hlt
    exact Decimal.parseUnsigned_digits hne hdigits hlt
  · rename_i hge
    simp only [Decimal.parseUnsigned, Decimal.digitsOf_of_digits hdigits]
    exact if_neg fun h => hge h.2.2

end HttpMessage
