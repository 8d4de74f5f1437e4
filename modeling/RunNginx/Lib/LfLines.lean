import RunNginx.Lib.HttpMessage

/-!
# Lines at line feeds

A recipient that ends lines at a bare LF sees more fields than the sender wrote: every
piece behind a LF of a value is a line of its own.  `fieldsOf` are the lines with a given
name; `fieldsOf_joinLines` finds them line by line in a written head.
-/

namespace LfLines

open ByteString HttpMessage

/-- The name of a line: what stands in front of its first colon, without blanks. -/
def lineName (line : Bytes) : Option Bytes :=
  if 58 ∈ line then some (trimBy isOws (line.takeWhile (· != 58))) else none

/-- Is the line a field with one of these names? -/
def isFieldOf (names : Bytes → Bool) (line : Bytes) : Bool :=
  (lineName line).any names

/-- The lines at LF that are fields with one of these names. -/
def fieldsOf (names : Bytes → Bool) (text : Bytes) : List Bytes :=
  (splitByte 10 text).filter (isFieldOf names)

section Split

/-- The first piece reaches to the first separator. -/
theorem splitByte_eq_cons
    (c : UInt8) (s : Bytes) :
    ∃ pieces, splitByte c s = s.takeWhile (· != c) :: pieces := by
  induction s with
  | nil => exact ⟨[], rfl⟩
  | cons b s ih =>
      obtain ⟨pieces, hpieces⟩ := ih
      rw [splitByte, List.takeWhile_cons]
      by_cases hb : b = c
      · rw [if_pos hb, hb, bne_self_eq_false]
        exact ⟨_, rfl⟩
      · rw [if_neg hb, bne_iff_ne.mpr hb, hpieces]
        exact ⟨pieces, rfl⟩

theorem splitByte_append_cons
    (c : UInt8) (u v : Bytes) :
    splitByte c (u ++ c :: v) = splitByte c u ++ splitByte c v := by
  induction u with
  | nil => simp [splitByte]
  | cons b u ih =>
      rw [List.cons_append, splitByte, splitByte]
      by_cases hb : b = c
      · rw [if_pos hb, if_pos hb, ih, List.cons_append]
      · rw [if_neg hb, if_neg hb, ih]
        obtain ⟨pieces, hpieces⟩ := splitByte_eq_cons c u
        rw [hpieces]
        rfl

/-- A byte behind a text goes to its last piece. -/
theorem splitByte_concat
    {b c : UInt8} (hb : b ≠ c) (u : Bytes) :
    ∃ pieces last, splitByte c u = pieces ++ [last] ∧
      splitByte c (u ++ [b]) = pieces ++ [last ++ [b]] := by
  induction u with
  | nil => exact ⟨[], [], rfl, by simp [splitByte, hb]⟩
  | cons d u ih =>
      obtain ⟨pieces, last, hu, hub⟩ := ih
      rw [List.cons_append, splitByte, splitByte, hu, hub]
      by_cases hd : d = c
      · rw [if_pos hd, if_pos hd]
        exact ⟨[] :: pieces, last, rfl, rfl⟩
      · rw [if_neg hd, if_neg hd]
        cases pieces with
        | nil => exact ⟨[], d :: last, rfl, rfl⟩
        | cons piece pieces => exact ⟨(d :: piece) :: pieces, last, rfl, rfl⟩

/-- What stands in front of the text without a separator goes to the first piece. -/
theorem tail_splitByte_append
    {c : UInt8} {u : Bytes} (hu : c ∉ u) (v : Bytes) :
    (splitByte c (u ++ v)).tail = (splitByte c v).tail := by
  induction u with
  | nil => rfl
  | cons b u ih =>
      rw [List.mem_cons, not_or] at hu
      rw [List.cons_append, splitByte, if_neg (Ne.symm hu.1), ← ih hu.2]
      obtain ⟨pieces, hpieces⟩ := splitByte_eq_cons c (u ++ v)
      rw [hpieces]
      rfl

/-- A piece holds no separator. -/
theorem not_mem_of_mem_splitByte
    {c : UInt8} {s piece : Bytes} (h : piece ∈ splitByte c s) :
    c ∉ piece := by
  induction s generalizing piece with
  | nil =>
      rw [splitByte, List.mem_singleton] at h
      rw [h]
      exact List.not_mem_nil
  | cons b s ih =>
      rw [splitByte] at h
      split at h
      · rcases List.mem_cons.mp h with rfl | h
        · exact List.not_mem_nil
        · exact ih h
      · rename_i hb
        obtain ⟨pieces, hpieces⟩ := splitByte_eq_cons c s
        rw [hpieces] at h
        rcases List.mem_cons.mp h with rfl | h
        · rw [List.mem_cons, not_or]
          exact ⟨Ne.symm hb, ih (hpieces ▸ List.mem_cons_self)⟩
        · exact ih (hpieces ▸ List.mem_cons_of_mem _ h)

/-- Split at LF, a head is its lines exactly if none of them holds a LF. -/
theorem splitByte_joinLines_iff
    (lines : List Bytes) :
    splitByte 10 (joinLines lines) = lines.map (· ++ [13]) ++ [[]] ↔
      ∀ line ∈ lines, (10 : UInt8) ∉ line := by
  constructor
  · intro h line hline hmem
    have hpiece : line ++ [13] ∈ splitByte 10 (joinLines lines) := by
      rw [h]
      exact List.mem_append_left _ (List.mem_map_of_mem hline)
    exact not_mem_of_mem_splitByte hpiece (List.mem_append_left _ hmem)
  · intro h
    induction lines with
    | nil => rfl
    | cons line lines ih =>
        obtain ⟨hline, hlines⟩ := List.forall_mem_cons.mp h
        have htext : joinLines (line :: lines) = (line ++ [13]) ++ 10 :: joinLines lines := by
          simp [crlf]
        rw [htext, splitByte_append_cons, ih hlines,
          splitByte_of_not_mem (by simpa using hline)]
        rfl

end Split

section Fields

variable (names : Bytes → Bool)

theorem lineName_of_not_mem
    {line : Bytes} (h : (58 : UInt8) ∉ line) :
    lineName line = none :=
  if_neg h

theorem lineName_append_cons
    {name : Bytes} (h : (58 : UInt8) ∉ name) (value : Bytes) :
    lineName (name ++ 58 :: value) = some (trimBy isOws name) := by
  have hall : ∀ b ∈ name, (b != 58) = true := fun b hb =>
    bne_iff_ne.mpr fun heq => h (heq ▸ hb)
  rw [lineName, if_pos (by simp), List.takeWhile_append_of_pos hall, List.takeWhile_cons,
    bne_self_eq_false, if_neg Bool.false_ne_true, List.append_nil]

/-- The CR of the line end is not part of the name. -/
theorem lineName_cr
    (line : Bytes) :
    lineName (line ++ [13]) = lineName line := by
  by_cases hcolon : 58 ∈ line
  · obtain ⟨u, v, rfl, hu⟩ := List.eq_append_cons_of_mem hcolon
    rw [List.append_assoc, List.cons_append, lineName_append_cons hu, lineName_append_cons hu]
  · rw [lineName_of_not_mem hcolon, lineName_of_not_mem (by simpa using hcolon)]

theorem fieldsOf_append_lf
    (s t : Bytes) :
    fieldsOf names (s ++ 10 :: t) = fieldsOf names s ++ fieldsOf names t := by
  rw [fieldsOf, splitByte_append_cons, List.filter_append]
  rfl

/-- A written line has the fields of its text, each of them with the CR of the line end. -/
theorem fieldsOf_cr_eq_nil_iff
    (line : Bytes) :
    fieldsOf names (line ++ [13]) = [] ↔ fieldsOf names line = [] := by
  obtain ⟨pieces, last, hline, hcr⟩ := splitByte_concat (by decide : (13 : UInt8) ≠ 10) line
  unfold fieldsOf
  rw [hline, hcr, List.filter_append, List.filter_append, List.append_eq_nil_iff,
    List.append_eq_nil_iff, List.filter_singleton, List.filter_singleton]
  unfold isFieldOf
  rw [lineName_cr]
  cases (lineName last).any names <;> simp

theorem fieldsOf_joinLines
    (lines : List Bytes) (text : Bytes) :
    fieldsOf names (joinLines lines ++ text) =
      lines.flatMap (fun line => fieldsOf names (line ++ [13])) ++ fieldsOf names text := by
  induction lines with
  | nil => rfl
  | cons line lines ih =>
      have htext : joinLines (line :: lines) ++ text =
          (line ++ [13]) ++ 10 :: (joinLines lines ++ text) := by
        simp [crlf]
      rw [htext, fieldsOf_append_lf, ih, List.flatMap_cons, List.append_assoc]

theorem fieldsOf_flatMap_eq_nil_iff
    (lines : List Bytes) :
    lines.flatMap (fun line => fieldsOf names (line ++ [13])) = [] ↔
      ∀ line ∈ lines, fieldsOf names line = [] := by
  rw [List.flatMap_eq_nil_iff]
  simp only [fieldsOf_cr_eq_nil_iff]

/-- A text without LF is one line. -/
theorem fieldsOf_of_not_mem
    {text : Bytes} (h : (10 : UInt8) ∉ text) :
    fieldsOf names text = [text].filter (isFieldOf names) := by
  rw [fieldsOf, splitByte_of_not_mem h]

end Fields

end LfLines
