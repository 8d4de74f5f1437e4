import RunNginx.Server.StaticFiles

/-!
# The arithmetic of ranges

`parseRangeChecked` is the range parser with its subtractions checked, so that a step that
leaves the 64 bits is seen.  Where none does, it is `parseRange`.

`range_exact_iff`: ranges are right, without any such step, except for one form of the header
and an empty file.
-/

namespace RunNginx
namespace StaticFiles

open ByteString

section Checked

/-- Subtraction of 64-bit numbers; there is no result below zero. -/
def checkedSub (a b : Nat) : Option Nat :=
  if b ≤ a then some (a - b) else none

def checkedAdd (a b : Nat) : Option Nat :=
  if a + b < Decimal.u64Bound then some (a + b) else none

/-- The texts in front of and behind the first dash of a range. -/
def rangeParts (hdr : Bytes) : Option (Bytes × Bytes) :=
  (stripPrefix (ascii "bytes=") hdr).bind fun part =>
    (find [45] part).map fun dash =>
      (Utf8.trim (part.take dash), Utf8.trim (part.drop (dash + 1)))

/-- The end of the range; it is the last byte of the file where none is given. -/
def rangeEnd (endStr : Bytes) (fileSize : Nat) : Option (Option Nat) :=
  if endStr = [] then (checkedSub fileSize 1).map some
  else some (Decimal.parseUnsigned Decimal.u64Bound endStr)

/-- `parse_range` with checked subtractions: `none` is an overflow. -/
def parseRangeChecked (hdr : Bytes) (fileSize : Nat) : Option (Option (Nat × Nat)) :=
  match rangeParts hdr with
  | none => some none
  | some (startStr, endStr) =>
      if startStr = [] then
        match Decimal.parseUnsigned Decimal.u64Bound endStr with
        | none => some none
        | some n =>
            if n = 0 ∨ fileSize < n then some none
            else
              (checkedSub fileSize n).bind fun start =>
                (checkedSub fileSize 1).map fun last => some (start, last)
      else
        match Decimal.parseUnsigned Decimal.u64Bound startStr with
        | none => some none
        | some start =>
            (rangeEnd endStr fileSize).map fun last =>
              last.bind fun end_ =>
                if end_ < start ∨ fileSize ≤ end_ then none else some (start, end_)

/-- The number of bytes of a range, as `serve_range` computes it. -/
def rangeCount (start end_ : Nat) : Option Nat :=
  (checkedSub end_ start).bind fun d => checkedAdd d 1

variable {hdr : Bytes} {size : Nat}

theorem rangeParts_eq_some_iff
    {startStr endStr : Bytes} :
    rangeParts hdr = some (startStr, endStr) ↔
      ∃ front back, hdr = ascii "bytes=" ++ (front ++ 45 :: back) ∧ 45 ∉ front ∧
        Utf8.trim front = startStr ∧ Utf8.trim back = endStr := by
  unfold rangeParts
  constructor
  · intro h
    obtain ⟨part, hpart, h⟩ := Option.bind_eq_some_iff.mp h
    obtain ⟨dash, hdash, h⟩ := Option.map_eq_some_iff.mp h
    obtain ⟨hsplit, -, hfree⟩ := find_byte_split hdash
    refine ⟨part.take dash, part.drop (dash + 1), ?_, hfree, (Prod.mk.inj h).1, (Prod.mk.inj h).2⟩
    rw [← hsplit]
    exact stripPrefix_eq_some_iff.mp hpart
  · rintro ⟨front, back, rfl, hfree, rfl, rfl⟩
    rw [stripPrefix_eq_some_iff.mpr rfl, Option.bind_some, find_byte_append hfree,
      Option.map_some, List.take_left, ← List.drop_drop, List.drop_left, List.drop_one,
      List.tail_cons]

/-- The position behind which a range without an end stops; it wraps in an empty file. -/
def lastOf (size : Nat) : Nat :=
  (size + (Decimal.u64Bound - 1)) % Decimal.u64Bound

theorem lastOf_eq
    (hpos : 0 < size) (hsize : size < Decimal.u64Bound) :
    lastOf size = size - 1 := by
  unfold lastOf
  rw [show size + (Decimal.u64Bound - 1) = size - 1 + Decimal.u64Bound by
    simp only [Decimal.u64Bound]; omega, Nat.add_mod_right, Nat.mod_eq_of_lt (by omega)]

theorem parseRange_of_none
    (h : rangeParts hdr = none) :
    parseRange hdr size = none := by
  unfold rangeParts at h
  unfold parseRange
  cases hpart : stripPrefix (ascii "bytes=") hdr with
  | none => rfl
  | some part =>
      rw [hpart, Option.bind_some, Option.map_eq_none_iff] at h
      dsimp only
      rw [h]

theorem parseRange_of_suffix
    {endStr : Bytes} (h : rangeParts hdr = some ([], endStr)) :
    parseRange hdr size = (Decimal.parseUnsigned Decimal.u64Bound endStr).bind fun n =>
      if n = 0 ∨ size < n then none else some (size - n, lastOf size) := by
  obtain ⟨front, back, rfl, hfree, hfront, rfl⟩ := rangeParts_eq_some_iff.mp h
  unfold parseRange
  rw [stripPrefix_eq_some_iff.mpr rfl]
  dsimp only
  rw [find_byte_append hfree]
  dsimp only
  rw [List.take_left, ← List.drop_drop, List.drop_left, List.drop_one, List.tail_cons, hfront,
    if_pos rfl]
  cases Decimal.parseUnsigned Decimal.u64Bound (Utf8.trim back) with
  | none => rfl
  | some n => rfl

theorem parseRange_of_from
    {startStr endStr : Bytes} (h : rangeParts hdr = some (startStr, endStr))
    (hne : startStr ≠ []) :
    parseRange hdr size =
      (Decimal.parseUnsigned Decimal.u64Bound startStr).bind fun start =>
        (if endStr = [] then some (lastOf size)
          else Decimal.parseUnsigned Decimal.u64Bound endStr).bind fun end_ =>
            if end_ < start ∨ size ≤ end_ then none else some (start, end_) := by
  obtain ⟨front, back, rfl, hfree, rfl, rfl⟩ := rangeParts_eq_some_iff.mp h
  unfold parseRange
  rw [stripPrefix_eq_some_iff.mpr rfl]
  dsimp only
  rw [find_byte_append hfree]
  dsimp only
  rw [List.take_left, ← List.drop_drop, List.drop_left, List.drop_one, List.tail_cons,
    if_neg hne, ← lastOf]
  cases Decimal.parseUnsigned Decimal.u64Bound (Utf8.trim front) with
  | none => rfl
  | some start =>
      cases (if Utf8.trim back = [] then some (lastOf size)
          else Decimal.parseUnsigned Decimal.u64Bound (Utf8.trim back)) with
      | none => rfl
      | some end_ => rfl

/-- A range that is open at its end: `bytes=n-`. -/
def OpenRange (hdr : Bytes) : Prop :=
  ∃ front back n, hdr = ascii "bytes=" ++ (front ++ 45 :: back) ∧ 45 ∉ front ∧
    Decimal.parseUnsigned Decimal.u64Bound (Utf8.trim front) = some n ∧ Utf8.trim back = []

theorem checkedSub_eq_none_iff
    {a b : Nat} :
    checkedSub a b = none ↔ a < b := by
  unfold checkedSub
  rw [ite_eq_right_iff]
  constructor
  · exact fun h => Nat.not_le.mp fun hle => nomatch h hle
  · exact fun hlt hle => absurd hle (Nat.not_le.mpr hlt)

theorem checkedSub_of_le
    {a b : Nat} (h : b ≤ a) :
    checkedSub a b = some (a - b) :=
  if_pos h

/-- The one step that can go wrong is the one for a range without an end. -/
theorem parseRangeChecked_eq_none_iff :
    parseRangeChecked hdr size = none ↔ size = 0 ∧ OpenRange hdr := by
  have hopen : OpenRange hdr ↔ ∃ startStr n, rangeParts hdr = some (startStr, []) ∧
      Decimal.parseUnsigned Decimal.u64Bound startStr = some n := by
    constructor
    · rintro ⟨front, back, n, hhdr, hfree, hfront, hback⟩
      exact ⟨_, n, rangeParts_eq_some_iff.mpr ⟨front, back, hhdr, hfree, rfl, hback⟩, hfront⟩
    · rintro ⟨startStr, n, hparts, hstart⟩
      obtain ⟨front, back, hhdr, hfree, rfl, hback⟩ := rangeParts_eq_some_iff.mp hparts
      exact ⟨front, back, n, hhdr, hfree, hstart, hback⟩
  rw [hopen]
  unfold parseRangeChecked
  cases hparts : rangeParts hdr with
  | none => exact iff_of_false nofun fun h => by obtain ⟨-, _, _, h, -⟩ := h; cases h
  | some parts =>
      obtain ⟨startStr, endStr⟩ := parts
      dsimp only
      by_cases hempty : startStr = []
      · rw [if_pos hempty]
        subst hempty
        refine iff_of_false ?_ fun h => ?_
        · cases Decimal.parseUnsigned Decimal.u64Bound endStr with
          | none => nofun
          | some n =>
              dsimp only
              split
              · nofun
              · rename_i hn
                rw [checkedSub_of_le (by omega), checkedSub_of_le (by omega)]
                nofun
        · obtain ⟨-, startStr, n, hstart, hnumber⟩ := h
          cases hstart
          cases hnumber
      · rw [if_neg hempty]
        cases hstart : Decimal.parseUnsigned Decimal.u64Bound startStr with
        | none =>
            refine iff_of_false nofun fun h => ?_
            obtain ⟨-, _, n, hsame, hnumber⟩ := h
            cases hsame
            rw [hstart] at hnumber
            cases hnumber
        | some start =>
            dsimp only
            rw [Option.map_eq_none_iff, rangeEnd]
            split
            · rename_i hend
              subst hend
              rw [Option.map_eq_none_iff, checkedSub_eq_none_iff, Nat.lt_one_iff]
              exact (and_iff_left ⟨startStr, start, rfl, hstart⟩).symm
            · rename_i hend
              refine iff_of_false nofun fun h => ?_
              obtain ⟨-, _, n, hsame, -⟩ := h
              cases hsame
              exact hend rfl

/-- Where no step goes wrong, the parser is the one whose subtractions wrap. -/
theorem parseRange_of_checked
    {range : Option (Nat × Nat)} (hsize : size < Decimal.u64Bound)
    (h : parseRangeChecked hdr size = some range) :
    parseRange hdr size = range := by
  unfold parseRangeChecked at h
  cases hparts : rangeParts hdr with
  | none =>
      rw [hparts] at h
      cases h
      exact parseRange_of_none hparts
  | some parts =>
      obtain ⟨startStr, endStr⟩ := parts
      rw [hparts] at h
      dsimp only at h
      by_cases hempty : startStr = []
      · rw [if_pos hempty] at h
        subst hempty
        rw [parseRange_of_suffix hparts]
        cases hnumber : Decimal.parseUnsigned Decimal.u64Bound endStr with
        | none =>
            rw [hnumber] at h
            exact Option.some.inj h
        | some n =>
            rw [hnumber] at h
            dsimp only at h
            rw [Option.bind_some]
            split at h
            · rename_i hn
              rw [if_pos hn]
              exact Option.some.inj h
            · rename_i hn
              rw [if_neg hn, lastOf_eq (by omega) hsize]
              rw [checkedSub_of_le (by omega), checkedSub_of_le (by omega)] at h
              exact Option.some.inj h
      · rw [if_neg hempty] at h
        rw [parseRange_of_from hparts hempty]
        cases hstart : Decimal.parseUnsigned Decimal.u64Bound startStr with
        | none =>
            rw [hstart] at h
            exact Option.some.inj h
        | some start =>
            rw [hstart] at h
            obtain ⟨last, hlast, rfl⟩ := Option.map_eq_some_iff.mp h
            rw [Option.bind_some]
            congr 1
            unfold rangeEnd at hlast
            split at hlast
            · rename_i hend
              obtain ⟨n, hn, rfl⟩ := Option.map_eq_some_iff.mp hlast
              unfold checkedSub at hn
              split at hn
              · rename_i hle
                cases hn
                rw [if_pos hend, lastOf_eq hle hsize]
              · cases hn
            · rename_i hend
              rw [if_neg hend]
              exact Option.some.inj hlast

end Checked

section Exact

/-- `bytes=a-b`, `bytes=a-` and `bytes=-n`. -/
def rangeText (first last : Bytes) : Bytes :=
  ascii "bytes=" ++ (first ++ 45 :: last)

/--
The range is the one that the header means, it lies in the file, and no number on the way to
it or to its length leaves the 64 bits.
-/
structure ExactRange (hdr : Bytes) (size : Nat) : Prop where
  checked : parseRangeChecked hdr size = some (parseRange hdr size)
  bounds : ∀ start end_, parseRange hdr size = some (start, end_) →
    start ≤ end_ ∧ end_ < size ∧ rangeCount start end_ = some (end_ - start + 1)
  closed : ∀ a b, a ≤ b → b < size →
    hdr = rangeText (Decimal.render a) (Decimal.render b) → parseRange hdr size = some (a, b)
  openEnd : ∀ a, a < size →
    hdr = rangeText (Decimal.render a) [] → parseRange hdr size = some (a, size - 1)
  suffix : ∀ n, 1 ≤ n → n ≤ size →
    hdr = rangeText [] (Decimal.render n) → parseRange hdr size = some (size - n, size - 1)

variable {hdr : Bytes} {size : Nat}

theorem dash_not_mem_render
    (n : Nat) :
    45 ∉ Decimal.render n := by
  intro h
  exact absurd (Decimal.isDigit_of_mem_render h) (by decide)

theorem rangeParts_rangeText
    {first last : Bytes} (hdash : 45 ∉ first)
    (hfirst : ∀ b ∈ first, Utf8.isVisible b = true)
    (hlast : ∀ b ∈ last, Utf8.isVisible b = true) :
    rangeParts (rangeText first last) = some (first, last) :=
  rangeParts_eq_some_iff.mpr
    ⟨first, last, rfl, hdash, Utf8.trim_visible hfirst, Utf8.trim_visible hlast⟩

theorem parseRange_closed
    {a b : Nat} (hab : a ≤ b) (hb : b < size) (hsize : size < Decimal.u64Bound) :
    parseRange (rangeText (Decimal.render a) (Decimal.render b)) size = some (a, b) := by
  rw [parseRange_of_from (rangeParts_rangeText (dash_not_mem_render a) (fun b hb => Utf8.visible_of_mem_render hb)
    (fun b hb => Utf8.visible_of_mem_render hb)) (Decimal.render_ne_nil a), Decimal.parseUnsigned_render (by omega),
    Option.bind_some, if_neg (Decimal.render_ne_nil b), Decimal.parseUnsigned_render (by omega),
    Option.bind_some, if_neg (by omega)]

theorem parseRange_openEnd
    {a : Nat} (ha : a < size) (hsize : size < Decimal.u64Bound) :
    parseRange (rangeText (Decimal.render a) []) size = some (a, size - 1) := by
  rw [parseRange_of_from (rangeParts_rangeText (dash_not_mem_render a) (fun b hb => Utf8.visible_of_mem_render hb)
    (List.forall_mem_nil _))
    (Decimal.render_ne_nil a), Decimal.parseUnsigned_render (by omega), Option.bind_some,
    if_pos rfl, Option.bind_some, lastOf_eq (by omega) hsize, if_neg (by omega)]

theorem parseRange_suffix
    {n : Nat} (hpos : 1 ≤ n) (hn : n ≤ size) (hsize : size < Decimal.u64Bound) :
    parseRange (rangeText [] (Decimal.render n)) size = some (size - n, size - 1) := by
  rw [parseRange_of_suffix (rangeParts_rangeText List.not_mem_nil (List.forall_mem_nil _)
    (fun b hb => Utf8.visible_of_mem_render hb)),
    Decimal.parseUnsigned_render (by omega), Option.bind_some, if_neg (by omega),
    lastOf_eq (by omega) hsize]

theorem rangeCount_eq
    {start end_ : Nat} (hle : start ≤ end_) (hlt : end_ < size) (hsize : size < Decimal.u64Bound) :
    rangeCount start end_ = some (end_ - start + 1) := by
  rw [rangeCount, checkedSub_of_le hle, Option.bind_some, checkedAdd, if_pos (by omega)]

/-- Ranges are exact, but for one that is open at its end in an empty file. -/
theorem range_exact_iff
    (hsize : size < Decimal.u64Bound) :
    ExactRange hdr size ↔ ¬ (size = 0 ∧ OpenRange hdr) := by
  rw [← parseRangeChecked_eq_none_iff]
  constructor
  · intro h hnone
    rw [h.checked] at hnone
    cases hnone
  · intro h
    obtain ⟨range, hrange⟩ := Option.ne_none_iff_exists'.mp h
    refine ⟨?_, ?_, ?_, ?_, ?_⟩
    · rw [hrange, parseRange_of_checked hsize hrange]
    · intro start end_ hparse
      obtain ⟨hle, hlt⟩ := parseRange_bounds hsize hparse
      exact ⟨hle, hlt, rangeCount_eq hle hlt hsize⟩
    · rintro a b hab hb rfl
      exact parseRange_closed hab hb hsize
    · rintro a ha rfl
      exact parseRange_openEnd ha hsize
    · rintro n hpos hn rfl
      exact parseRange_suffix hpos hn hsize

/-- A range within a file of ten bytes, and any range in an empty file that has an end. -/
theorem range_exact_example :
    ExactRange (ascii "bytes=0-") 10 ∧ ExactRange (ascii "bytes=0-5") 0 := by
  constructor
  · exact (range_exact_iff (by decide)).mpr fun h => absurd h.1 (by decide)
  · refine (range_exact_iff (by decide)).mpr fun h => ?_
    exact absurd (parseRangeChecked_eq_none_iff.mpr h) (by decide)

/-- The last position of an empty file is below zero. -/
theorem empty_file_underflows :
    parseRangeChecked (ascii "bytes=0-") 0 = none ∧ lastOf 0 = 2 ^ 64 - 1 ∧
      ¬ ExactRange (ascii "bytes=0-") 0 := by
  have hnone : parseRangeChecked (ascii "bytes=0-") 0 = none := by
    decide
  refine ⟨hnone, by decide, fun h => ?_⟩
  have hchecked := h.checked
  rw [hnone] at hchecked
  cases hchecked

end Exact

end StaticFiles
end RunNginx
