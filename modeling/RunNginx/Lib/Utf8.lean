import RunNginx.Lib.Decimal

/-!
# UTF-8 validity and lossy decoding

`fromUtf8Lossy` replaces every maximal ill-formed run by the bytes of U+FFFD and
keeps the rest, so its result is again well-formed UTF-8; `isUtf8` recognises
the byte strings it leaves alone.
-/

namespace Utf8

open ByteString

/-- Continuation byte of a multi-byte sequence. -/
def isCont (b : UInt8) : Bool :=
  0x80 ≤ b && b ≤ 0xBF

/-- Admissible second byte behind a lead byte of a three-byte sequence. -/
def second3 (lead b : UInt8) : Bool :=
  if lead = 0xE0 then 0xA0 ≤ b && b ≤ 0xBF
  else if lead = 0xED then 0x80 ≤ b && b ≤ 0x9F
  else isCont b

/-- Admissible second byte behind a lead byte of a four-byte sequence. -/
def second4 (lead b : UInt8) : Bool :=
  if lead = 0xF0 then 0x90 ≤ b && b ≤ 0xBF
  else if lead = 0xF4 then 0x80 ≤ b && b ≤ 0x8F
  else isCont b

/--
Length of the sequence at the head of a nonempty string, and whether it is
well formed.  An ill-formed run stops before the first byte that cannot
continue it.
-/
def headChunk (lead : UInt8) (s : Bytes) : Bool × Nat :=
  if lead < 0x80 then (true, 1)
  else if 0xC2 ≤ lead ∧ lead ≤ 0xDF then
    match s with
    | b :: _ => if isCont b then (true, 2) else (false, 1)
    | [] => (false, 1)
  else if 0xE0 ≤ lead ∧ lead ≤ 0xEF then
    match s with
    | b :: c :: _ =>
        if second3 lead b then
          if isCont c then (true, 3) else (false, 2)
        else (false, 1)
    | [b] => if second3 lead b then (false, 2) else (false, 1)
    | [] => (false, 1)
  else if 0xF0 ≤ lead ∧ lead ≤ 0xF4 then
    match s with
    | b :: c :: d :: _ =>
        if second4 lead b then
          if isCont c then
            if isCont d then (true, 4) else (false, 3)
          else (false, 2)
        else (false, 1)
    | [b, c] =>
        if second4 lead b then
          if isCont c then (false, 3) else (false, 2)
        else (false, 1)
    | [b] => if second4 lead b then (false, 2) else (false, 1)
    | [] => (false, 1)
  else (false, 1)

/-- The bytes of U+FFFD. -/
def replacement : Bytes := [0xEF, 0xBF, 0xBD]

/-- Lossy decoding with fuel; every turn consumes at least one byte. -/
def lossyLoop : Nat → Bytes → Bytes
  | 0, _ => []
  | _, [] => []
  | fuel + 1, b :: s =>
      match headChunk b s with
      | (true, n) => (b :: s).take n ++ lossyLoop fuel ((b :: s).drop n)
      | (false, n) => replacement ++ lossyLoop fuel ((b :: s).drop n)

/-- Decode as UTF-8, replacing what is ill formed. -/
def fromUtf8Lossy (s : Bytes) : Bytes :=
  lossyLoop s.length s

/-- Validity test with fuel. -/
def validLoop : Nat → Bytes → Bool
  | _, [] => true
  | 0, _ => false
  | fuel + 1, b :: s =>
      match headChunk b s with
      | (true, n) => validLoop fuel ((b :: s).drop n)
      | (false, _) => false

/-- Is the string well-formed UTF-8? -/
def isUtf8 (s : Bytes) : Bool :=
  validLoop s.length s

/-- Description of the first ill-formed sequence, with fuel; `i` bytes are behind. -/
def errorLoop : Nat → Nat → Bytes → Bytes
  | 0, _, _ => []
  | _, _, [] => []
  | fuel + 1, i, b :: s =>
      match headChunk b s with
      | (true, n) => errorLoop fuel (i + n) ((b :: s).drop n)
      | (false, n) =>
          if n = (b :: s).length ∧ 0xC2 ≤ b ∧ b ≤ 0xF4 then
            ascii "incomplete utf-8 byte sequence from index " ++ Decimal.render i
          else
            ascii "invalid utf-8 sequence of " ++ Decimal.render n ++
              ascii " bytes from index " ++ Decimal.render i

/-- The message of a failed decoding. -/
def errorText (s : Bytes) : Bytes :=
  errorLoop s.length 0 s

/-- The characters with the White_Space property, in UTF-8. -/
def whitespace : List Bytes :=
  [[9], [10], [11], [12], [13], [32], [0xC2, 0x85], [0xC2, 0xA0], [0xE1, 0x9A, 0x80],
    [0xE2, 0x80, 0x80], [0xE2, 0x80, 0x81], [0xE2, 0x80, 0x82], [0xE2, 0x80, 0x83],
    [0xE2, 0x80, 0x84], [0xE2, 0x80, 0x85], [0xE2, 0x80, 0x86], [0xE2, 0x80, 0x87],
    [0xE2, 0x80, 0x88], [0xE2, 0x80, 0x89], [0xE2, 0x80, 0x8A], [0xE2, 0x80, 0xA8],
    [0xE2, 0x80, 0xA9], [0xE2, 0x80, 0xAF], [0xE2, 0x81, 0x9F], [0xE3, 0x80, 0x80]]

/-- Remove leading white space, with fuel. -/
def trimStartLoop : Nat → Bytes → Bytes
  | 0, s => s
  | fuel + 1, s =>
      match whitespace.findSome? fun w => stripPrefix w s with
      | some rest => trimStartLoop fuel rest
      | none => s

/-- Remove trailing white space, with fuel. -/
def trimEndLoop : Nat → Bytes → Bytes
  | 0, s => s
  | fuel + 1, s =>
      match whitespace.findSome? fun w => stripSuffix w s with
      | some rest => trimEndLoop fuel rest
      | none => s

/-- Remove white space at both ends. -/
def trim (s : Bytes) : Bytes :=
  let s := trimStartLoop s.length s
  trimEndLoop s.length s

/-- Length of the white space character at the head of a text, or zero. -/
def spaceLength (s : Bytes) : Nat :=
  ((whitespace.find? fun w => w.isPrefixOf s).map List.length).getD 0

/-- The words between white space, with fuel; `word` is the one being read. -/
def wordsLoop : Nat → Bytes → Bytes → List Bytes
  | 0, _, _ => []
  | _, word, [] => if word = [] then [] else [word]
  | fuel + 1, word, b :: s =>
      match spaceLength (b :: s) with
      | 0 => wordsLoop fuel (word ++ [b]) s
      | n + 1 =>
          if word = [] then wordsLoop fuel [] ((b :: s).drop (n + 1))
          else word :: wordsLoop fuel [] ((b :: s).drop (n + 1))

/-- The words between white space. -/
def splitWhitespace (s : Bytes) : List Bytes :=
  wordsLoop (s.length + 1) [] s

/-- The bytes of the character with this code, below 256. -/
def latin1 (b : UInt8) : Bytes :=
  if b < 0x80 then [b] else [(0xC0 : UInt8) ||| (b >>> 6), (0x80 : UInt8) ||| (b &&& 0x3F)]

theorem latin1_ne_nil
    (b : UInt8) :
    latin1 b ≠ [] := by
  unfold latin1
  split <;> exact List.cons_ne_nil _ _

/-- The character of a byte is the byte itself if it is ASCII, and has no ASCII byte else. -/
theorem latin1_cases
    (b : UInt8) :
    latin1 b = [b] ∨ ∀ c ∈ latin1 b, 0x80 ≤ c := by
  by_cases hb : b < 0x80
  · exact .inl (if_pos hb)
  · right
    intro c hc
    rw [latin1, if_neg hb, List.mem_cons, List.mem_singleton] at hc
    rw [UInt8.le_iff_toNat_le]
    rcases hc with rfl | rfl
    · rw [UInt8.toNat_or]
      exact Nat.le_trans (by decide) Nat.left_le_or
    · rw [UInt8.toNat_or]
      exact Nat.left_le_or

/-- ASCII strings are decoded to themselves. -/
theorem fromUtf8Lossy_ascii
    {s : Bytes}
    (hs : ∀ b ∈ s, b < 0x80) :
    fromUtf8Lossy s = s := by
  have hloop : ∀ (s : Bytes), (∀ b ∈ s, b < 0x80) →
      lossyLoop s.length s = s := by
    intro s
    induction s with
    | nil =>
        intro _
        rfl
    | cons b s ih =>
        intro hs
        have hb : headChunk b s = (true, 1) := by
          simp [headChunk, hs b (by simp)]
        simp only [List.length_cons, lossyLoop, hb]
        simpa using ih (fun c hc => hs c (by simp [hc]))
  exact hloop s hs

/-- ASCII strings are valid. -/
theorem isUtf8_ascii
    {s : Bytes}
    (hs : ∀ b ∈ s, b < 0x80) :
    isUtf8 s = true := by
  have hloop : ∀ s : Bytes, (∀ b ∈ s, b < 0x80) → validLoop s.length s = true := by
    intro s
    induction s with
    | nil =>
        intro _
        rfl
    | cons b s ih =>
        intro hs
        have hb : headChunk b s = (true, 1) := by
          simp [headChunk, hs b (by simp)]
        simp only [List.length_cons, validLoop, hb]
        simpa using ih (fun c hc => hs c (by simp [hc]))
  exact hloop s hs

section Characters

/-- The lead byte and the bytes behind it are one character. -/
def IsChar (lead : UInt8) (tail : Bytes) : Prop :=
  headChunk lead tail = (true, tail.length + 1)

/-- Characters one after the other. -/
inductive Chars : Bytes → Prop
  | nil : Chars []
  | cons
      (lead : UInt8) (tail : Bytes) {s : Bytes}
      (char : IsChar lead tail)
      (rest : Chars s) :
      Chars (lead :: (tail ++ s))

/-- A character is one whatever follows it. -/
theorem IsChar.append
    {lead : UInt8} {tail : Bytes} (h : IsChar lead tail) (s : Bytes) :
    headChunk lead (tail ++ s) = (true, tail.length + 1) := by
  unfold IsChar headChunk at h
  unfold headChunk
  split_ifs at h ⊢ with h1 h2 h3 h4
  · exact h
  · rcases tail with _ | ⟨b, tail⟩
    · cases h
    · exact h
  · rcases tail with _ | ⟨b, _ | ⟨c, tail⟩⟩
    · cases h
    · dsimp only at h
      split at h <;> cases h
    · exact h
  · rcases tail with _ | ⟨b, _ | ⟨c, _ | ⟨d, tail⟩⟩⟩
    · cases h
    · dsimp only at h
      split at h <;> cases h
    · dsimp only at h
      split_ifs at h <;> cases h
    · exact h
  · cases h

theorem isCont_ge
    {b : UInt8} (h : isCont b = true) :
    0x80 ≤ b := by
  unfold isCont at h
  simp only [Bool.and_eq_true, decide_eq_true_eq] at h
  exact h.1

theorem second3_ge
    {lead b : UInt8} (h : second3 lead b = true) :
    0x80 ≤ b := by
  unfold second3 at h
  simp only [UInt8.le_iff_toNat_le]
  split_ifs at h <;> simp [isCont, UInt8.le_iff_toNat_le] at h ⊢ <;> omega

theorem second4_ge
    {lead b : UInt8} (h : second4 lead b = true) :
    0x80 ≤ b := by
  unfold second4 at h
  simp only [UInt8.le_iff_toNat_le]
  split_ifs at h <;> simp [isCont, UInt8.le_iff_toNat_le] at h ⊢ <;> omega

/-- What the head of a string is found to be is a character of it. -/
theorem isChar_of_headChunk
    {lead : UInt8} {s : Bytes} {n : Nat} (h : headChunk lead s = (true, n)) :
    ∃ tail rest, s = tail ++ rest ∧ n = tail.length + 1 ∧ IsChar lead tail ∧
      ∀ b ∈ tail, 0x80 ≤ b := by
  unfold IsChar headChunk at *
  split_ifs at h ⊢ with h1 h2 h3 h4
  · obtain ⟨-, rfl⟩ := Prod.mk.inj h
    exact ⟨[], s, rfl, rfl, rfl, nofun⟩
  · split at h
    · split at h
      · rename_i b s hb
        obtain ⟨-, rfl⟩ := Prod.mk.inj h
        exact ⟨[b], s, rfl, rfl, by simp [hb], by simpa using isCont_ge hb⟩
      · simp at h
    · simp at h
  · split at h
    · split_ifs at h with hb hc
      · rename_i b c s
        obtain ⟨-, rfl⟩ := Prod.mk.inj h
        exact ⟨[b, c], s, rfl, rfl, by simp [hb, hc], by simpa using ⟨second3_ge hb, isCont_ge hc⟩⟩
      all_goals simp at h
    · split at h <;> simp at h
    · simp at h
  · split at h
    · split_ifs at h with hb hc hd
      · rename_i b c d s
        obtain ⟨-, rfl⟩ := Prod.mk.inj h
        exact ⟨[b, c, d], s, rfl, rfl, by simp [hb, hc, hd],
          by simpa using ⟨second4_ge hb, isCont_ge hc, isCont_ge hd⟩⟩
      all_goals simp at h
    · split_ifs at h <;> simp at h
    · split at h <;> simp at h
    · simp at h
  · simp at h

/-- Behind the lead byte there is no ASCII. -/
theorem IsChar.tail_ge
    {lead : UInt8} {tail : Bytes} (h : IsChar lead tail) :
    ∀ b ∈ tail, 0x80 ≤ b := by
  obtain ⟨tail', rest, htail, hlen, -, hge⟩ := isChar_of_headChunk h
  have hrest : rest = [] := by
    have hl := congrArg List.length htail
    rw [List.length_append] at hl
    exact List.eq_nil_of_length_eq_zero (by omega)
  rw [hrest, List.append_nil] at htail
  rwa [htail]

theorem chars_of_validLoop
    {fuel : Nat} {s : Bytes} (h : validLoop fuel s = true) :
    Chars s := by
  induction fuel generalizing s with
  | zero =>
      cases s with
      | nil => exact .nil
      | cons b s => simp [validLoop] at h
  | succ fuel ih =>
      cases s with
      | nil => exact .nil
      | cons lead s =>
          rw [validLoop] at h
          split at h
          · rename_i n hhead
            obtain ⟨tail, rest, rfl, rfl, hchar, -⟩ := isChar_of_headChunk hhead
            rw [List.drop_succ_cons, List.drop_left] at h
            exact .cons lead tail hchar (ih h)
          · cases h

theorem isUtf8_of_chars
    {s : Bytes} (h : Chars s) :
    isUtf8 s = true := by
  have hloop : ∀ fuel, s.length ≤ fuel → validLoop fuel s = true := by
    induction h with
    | nil =>
        intro fuel hfuel
        cases fuel <;> rfl
    | @cons lead tail s char rest ih =>
        intro fuel hfuel
        cases fuel with
        | zero => simp at hfuel
        | succ fuel =>
            rw [validLoop, char.append s]
            dsimp only
            rw [List.drop_succ_cons, List.drop_left]
            refine ih fuel ?_
            rw [List.length_cons, List.length_append] at hfuel
            omega
  exact hloop _ (Nat.le_refl _)

/-- A string is well formed when it consists of characters. -/
theorem isUtf8_iff
    (s : Bytes) :
    isUtf8 s = true ↔ Chars s :=
  ⟨chars_of_validLoop, isUtf8_of_chars⟩

theorem isUtf8_append
    {s t : Bytes} (hs : isUtf8 s = true) (ht : isUtf8 t = true) :
    isUtf8 (s ++ t) = true := by
  rw [isUtf8_iff] at *
  induction hs with
  | nil => exact ht
  | cons lead tail char _ ih =>
      rw [List.cons_append, List.append_assoc]
      exact .cons lead tail char ih

/-- What is well formed is decoded to itself. -/
theorem fromUtf8Lossy_of_isUtf8
    {s : Bytes} (h : isUtf8 s = true) :
    fromUtf8Lossy s = s := by
  rw [isUtf8_iff] at h
  have hloop : ∀ fuel, s.length ≤ fuel → lossyLoop fuel s = s := by
    induction h with
    | nil =>
        intro fuel _
        cases fuel <;> rfl
    | @cons lead tail s char rest ih =>
        intro fuel hfuel
        cases fuel with
        | zero => simp at hfuel
        | succ fuel =>
            rw [List.length_cons, List.length_append] at hfuel
            rw [lossyLoop, char.append s]
            dsimp only
            rw [List.drop_succ_cons, List.drop_left, List.take_succ_cons, List.take_left,
              ih fuel (by omega), List.cons_append]
  exact hloop _ (Nat.le_refl _)

/-- What stands in front of an ASCII byte consists of characters of its own. -/
theorem isUtf8_append_ascii
    {s t : Bytes} {b : UInt8} (hb : b < 0x80) (h : isUtf8 (s ++ b :: t) = true) :
    isUtf8 s = true := by
  rw [isUtf8_iff] at h ⊢
  generalize hw : s ++ b :: t = w at h
  induction h generalizing s with
  | nil => simp at hw
  | @cons lead tail w char rest ih =>
      cases s with
      | nil => exact .nil
      | cons c s =>
          rw [List.cons_append, List.cons.injEq] at hw
          obtain ⟨rfl, hw⟩ := hw
          rcases List.append_eq_append_iff.mp hw with ⟨u, hu, hu'⟩ | ⟨u, hu, hu'⟩
          · -- the character ends with `s`, or the ASCII byte would lie in it
            cases u with
            | nil =>
                rw [List.append_nil] at hu
                have h := Chars.cons c tail char Chars.nil
                rwa [hu, List.append_nil] at h
            | cons d u =>
                obtain ⟨rfl, -⟩ := List.cons.inj hu'
                have hge : 0x80 ≤ b := char.tail_ge b (by rw [hu]; simp)
                rw [UInt8.lt_iff_toNat_lt] at hb
                rw [UInt8.le_iff_toNat_le] at hge
                omega
          · rw [hu]
            exact .cons c tail char (ih hu'.symm)
end Characters

section Trim

/-- An ASCII byte that is no white space. -/
def isVisible (b : UInt8) : Bool :=
  33 ≤ b && b < 0x80

/-- White space characters neither begin nor end with a visible byte. -/
theorem whitespace_hidden
    {w : Bytes} (hw : w ∈ whitespace) :
    ∃ x y, w.head? = some x ∧ w.getLast? = some y ∧ isVisible x = false ∧
      isVisible y = false := by
  have hall : whitespace.all (fun w =>
      w.head?.any (fun x => !isVisible x) && w.getLast?.any (fun y => !isVisible y)) = true := by
    decide
  have h := List.all_eq_true.mp hall w hw
  rw [Bool.and_eq_true, Option.any_eq_true, Option.any_eq_true] at h
  obtain ⟨⟨x, hx, hx'⟩, y, hy, hy'⟩ := h
  exact ⟨x, y, hx, hy, by simpa using hx', by simpa using hy'⟩

theorem mem_of_mem_trimStartLoop
    {fuel : Nat} {s : Bytes} {b : UInt8} (h : b ∈ trimStartLoop fuel s) :
    b ∈ s := by
  induction fuel generalizing s with
  | zero => exact h
  | succ fuel ih =>
      unfold trimStartLoop at h
      split at h
      · rename_i rest hfound
        obtain ⟨w, _, hstrip⟩ := List.exists_of_findSome?_eq_some hfound
        rw [stripPrefix_eq_some_iff.mp hstrip]
        exact List.mem_append_right w (ih h)
      · exact h

theorem mem_of_mem_trimEndLoop
    {fuel : Nat} {s : Bytes} {b : UInt8} (h : b ∈ trimEndLoop fuel s) :
    b ∈ s := by
  induction fuel generalizing s with
  | zero => exact h
  | succ fuel ih =>
      unfold trimEndLoop at h
      split at h
      · rename_i rest hfound
        obtain ⟨w, _, hstrip⟩ := List.exists_of_findSome?_eq_some hfound
        rw [stripSuffix_eq_some_iff.mp hstrip]
        exact List.mem_append_left w (ih h)
      · exact h

/-- Trimming adds nothing. -/
theorem mem_of_mem_trim
    {s : Bytes} {b : UInt8} (h : b ∈ trim s) :
    b ∈ s :=
  mem_of_mem_trimStartLoop (mem_of_mem_trimEndLoop h)

theorem trimStartLoop_of_visible
    {b : UInt8} {s : Bytes} (hb : isVisible b = true) (fuel : Nat) :
    trimStartLoop fuel (b :: s) = b :: s := by
  have hnone : (whitespace.findSome? fun w => stripPrefix w (b :: s)) = none := by
    rw [List.findSome?_eq_none_iff]
    intro w hw
    obtain ⟨x, _, hx, _, hhidden, _⟩ := whitespace_hidden hw
    rw [Option.eq_none_iff_forall_ne_some]
    intro t ht
    rw [stripPrefix_eq_some_iff] at ht
    cases w with
    | nil => cases hx
    | cons c w =>
        obtain rfl := Option.some.inj hx
        rw [← (List.cons.inj ht).1, hb] at hhidden
        cases hhidden
  cases fuel with
  | zero => rfl
  | succ fuel =>
      rw [trimStartLoop, hnone]

theorem trimEndLoop_of_visible
    {b : UInt8} {s : Bytes} (hb : isVisible b = true) (fuel : Nat) :
    trimEndLoop fuel (s ++ [b]) = s ++ [b] := by
  have hnone : (whitespace.findSome? fun w => stripSuffix w (s ++ [b])) = none := by
    rw [List.findSome?_eq_none_iff]
    intro w hw
    obtain ⟨_, y, _, hy, _, hhidden⟩ := whitespace_hidden hw
    rw [Option.eq_none_iff_forall_ne_some]
    intro t ht
    rw [stripSuffix_eq_some_iff] at ht
    have hlast := congrArg List.getLast? ht
    rw [List.getLast?_concat, List.getLast?_append, hy, Option.some_or] at hlast
    rw [← Option.some.inj hlast, hb] at hhidden
    cases hhidden
  cases fuel with
  | zero => rfl
  | succ fuel =>
      rw [trimEndLoop, hnone]

/-- A visible text is what is left of its line. -/
theorem trim_line
    {s : Bytes} (hs : ∀ b ∈ s, isVisible b = true) :
    trim (s ++ [10]) = s := by
  rcases List.eq_nil_or_concat s with rfl | ⟨s, b, rfl⟩
  · rfl
  rw [List.concat_eq_append] at hs ⊢
  have hb : isVisible b = true := hs b (by simp)
  have hstart : ∀ fuel, trimStartLoop fuel (s ++ [b] ++ [10]) = s ++ [b] ++ [10] := by
    intro fuel
    cases s with
    | nil => exact trimStartLoop_of_visible hb fuel
    | cons c s => exact trimStartLoop_of_visible (hs c (by simp)) fuel
  have hlf : (whitespace.findSome? fun w => stripSuffix w (s ++ [b] ++ [10])) = some (s ++ [b]) := by
    have htab : stripSuffix [9] (s ++ [b] ++ [10]) = none := by
      rw [Option.eq_none_iff_forall_ne_some]
      intro t ht
      have := List.append_inj' (stripSuffix_eq_some_iff.mp ht) rfl
      exact absurd this.2 (by decide)
    rw [whitespace, List.findSome?_cons, htab, List.findSome?_cons,
      stripSuffix_eq_some_iff.mpr rfl]
  unfold trim
  simp only [hstart, List.length_append, List.length_singleton]
  rw [trimEndLoop, hlf]
  exact trimEndLoop_of_visible hb _

/-- Digits are visible. -/
theorem visible_of_mem_render
    {n : Nat} {b : UInt8} (hb : b ∈ Decimal.render n) :
    Utf8.isVisible b = true := by
  have hdigit : ∀ b, Decimal.isDigit b = true → Utf8.isVisible b = true :=
    forall_byte (by decide +kernel)
  exact hdigit b (Decimal.isDigit_of_mem_render hb)

/-- No byte of a white space character is visible. -/
theorem hidden_of_mem_whitespace
    {w : Bytes} (hw : w ∈ whitespace) :
    ∀ b ∈ w, isVisible b = false := by
  have hall : ∀ w ∈ whitespace, ∀ b ∈ w, isVisible b = false := by
    decide +kernel
  exact hall w hw

/-- A visible text has nothing to trim. -/
theorem trim_visible
    {s : Bytes} (hs : ∀ b ∈ s, isVisible b = true) :
    trim s = s := by
  cases s with
  | nil => rfl
  | cons c s =>
      unfold trim
      dsimp only
      rw [trimStartLoop_of_visible (hs c List.mem_cons_self)]
      obtain ⟨u, b, heq⟩ := (List.eq_nil_or_concat (c :: s)).resolve_left (List.cons_ne_nil _ _)
      rw [List.concat_eq_append] at heq
      rw [heq] at hs ⊢
      exact trimEndLoop_of_visible (hs b (by simp)) _

/-- A space in front is trimmed. -/
theorem trim_space
    (s : Bytes) :
    trim (32 :: s) = trim s := by
  have hstart : trimStartLoop (32 :: s).length (32 :: s) = trimStartLoop s.length s := by
    rw [List.length_cons, trimStartLoop]
    rfl
  unfold trim
  dsimp only
  rw [hstart]

/-- Behind a visible byte, trimming the end leaves a part of what follows. -/
theorem trimEndLoop_behind_visible
    {b : UInt8} (hb : isVisible b = true) (u : Bytes) (fuel : Nat) (v : Bytes) :
    ∃ v', v' <+: v ∧ trimEndLoop fuel (u ++ b :: v) = u ++ b :: v' := by
  induction fuel generalizing v with
  | zero => exact ⟨v, List.prefix_rfl, rfl⟩
  | succ fuel ih =>
      rw [trimEndLoop]
      cases hfound : whitespace.findSome? fun w => stripSuffix w (u ++ b :: v) with
      | none => exact ⟨v, List.prefix_rfl, rfl⟩
      | some rest =>
          obtain ⟨w, hw, hstrip⟩ := List.exists_of_findSome?_eq_some hfound
          have heq := stripSuffix_eq_some_iff.mp hstrip
          rcases List.append_eq_append_iff.mp heq with ⟨t, hrest, hw'⟩ | ⟨t, -, hw'⟩
          · cases t with
            | nil =>
                have hhidden := hidden_of_mem_whitespace hw b (by
                  rw [← List.nil_append w, ← hw']
                  exact List.mem_cons_self)
                rw [hb] at hhidden
                cases hhidden
            | cons c t =>
                obtain ⟨rfl, rfl⟩ := List.cons.inj hw'
                obtain ⟨v', hv', htrim⟩ := ih t
                refine ⟨v', hv'.trans (List.prefix_append _ _), ?_⟩
                rw [hrest]
                exact htrim
          · have hhidden := hidden_of_mem_whitespace hw b (by rw [hw']; simp)
            rw [hb] at hhidden
            cases hhidden

end Trim

section Words

theorem spaceLength_of_visible
    {b : UInt8} (hb : isVisible b = true) (s : Bytes) :
    spaceLength (b :: s) = 0 := by
  have hnone : (whitespace.find? fun w => w.isPrefixOf (b :: s)) = none := by
    rw [List.find?_eq_none]
    intro w hw hprefix
    obtain ⟨x, _, hx, _, hhidden, _⟩ := whitespace_hidden hw
    cases w with
    | nil => cases hx
    | cons c w =>
        obtain rfl := Option.some.inj hx
        obtain ⟨rfl, -⟩ := List.cons_prefix_cons.mp (List.isPrefixOf_iff_prefix.mp hprefix)
        rw [hb] at hhidden
        cases hhidden
  rw [spaceLength, hnone]
  rfl

/-- The first word ends at the end of the text or at a space. -/
theorem head?_splitWhitespace
    {u v : Bytes} (hne : u ≠ []) (hu : ∀ b ∈ u, isVisible b = true)
    (hv : v = [] ∨ ∃ v', v = 32 :: v') :
    (splitWhitespace (u ++ v)).head? = some u := by
  have hloop : ∀ (u word : Bytes) (fuel : Nat), (∀ b ∈ u, isVisible b = true) →
      word ++ u ≠ [] → u.length < fuel →
        (wordsLoop fuel word (u ++ v)).head? = some (word ++ u) := by
    intro u
    induction u with
    | nil =>
        intro word fuel _ hne hfuel
        rw [List.append_nil] at hne ⊢
        obtain ⟨fuel, rfl⟩ := Nat.exists_eq_succ_of_ne_zero (Nat.ne_of_gt hfuel)
        rcases hv with rfl | ⟨v', rfl⟩
        · rw [List.append_nil, wordsLoop, if_neg hne]
          · rfl
          · exact Nat.succ_ne_zero _
        · have hspace : spaceLength (32 :: v') = 1 := rfl
          rw [List.nil_append, wordsLoop, hspace]
          dsimp only
          rw [if_neg hne]
          rfl
    | cons b u ih =>
        intro word fuel hu hne hfuel
        obtain ⟨fuel, rfl⟩ :=
          Nat.exists_eq_succ_of_ne_zero (Nat.ne_of_gt (Nat.zero_lt_of_lt hfuel))
        obtain ⟨hb, hu⟩ := List.forall_mem_cons.mp hu
        rw [List.cons_append, wordsLoop, spaceLength_of_visible hb]
        dsimp only
        rw [ih (word ++ [b]) fuel hu (by simp) (Nat.lt_of_succ_lt_succ hfuel), List.append_assoc,
          List.singleton_append]
  refine hloop u [] _ hu hne ?_
  rw [List.length_append]
  omega

/-- Behind the first word and a space, the other words are read alike. -/
theorem splitWhitespace_append_space
    {u : Bytes} (hne : u ≠ []) (hu : ∀ b ∈ u, isVisible b = true) (v : Bytes) :
    splitWhitespace (u ++ 32 :: v) = u :: splitWhitespace v := by
  have hloop : ∀ (u word : Bytes), (∀ b ∈ u, isVisible b = true) → word ++ u ≠ [] →
      wordsLoop (u.length + (v.length + 2)) word (u ++ 32 :: v) =
        (word ++ u) :: splitWhitespace v := by
    intro u
    induction u with
    | nil =>
        intro word _ hne
        rw [List.append_nil] at hne ⊢
        have hspace : spaceLength (32 :: v) = 1 := rfl
        rw [List.length_nil, Nat.zero_add, List.nil_append, wordsLoop, hspace]
        dsimp only
        rw [if_neg hne]
        rfl
    | cons b u ih =>
        intro word hu _
        obtain ⟨hb, hu⟩ := List.forall_mem_cons.mp hu
        rw [List.length_cons, Nat.add_right_comm, List.cons_append, wordsLoop,
          spaceLength_of_visible hb]
        dsimp only
        rw [ih (word ++ [b]) hu (by simp), List.append_assoc, List.singleton_append]
  have hlength : (u ++ 32 :: v).length + 1 = u.length + (v.length + 2) := by
    rw [List.length_append, List.length_cons]
    omega
  rw [splitWhitespace, hlength]
  exact hloop u [] hu hne

end Words

end Utf8
