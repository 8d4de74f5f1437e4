import RunNginx.Config.Tokens
import RunNginx.Lib.Lexer

/-!
# Token lists as texts

Tokens are written one behind the other: a word in double quotes, with a backslash before
what would end it or start an escape, the other tokens as they are, and white space or
comment lines wherever there is no token.  The tokenizer reads such a text back.  A text may
also be put together from pieces that are whole tokens, with words without quotes between.

The source reads in turns, and a turn takes as many characters off the text as it needs.
`tokenizeLoop` is that loop with a bound on its turns: each of them takes a character, so
that as many turns as the text has characters are enough.  What the tokenizer looks for are
characters of one byte, and its turns are those of the bytes.
-/

namespace RunNginx
namespace ConfigParser

open ByteString

/-! ### Writing tokens -/

/-- The characters that are not themselves between double quotes. -/
def needsEscape (c : UInt8) : Bool :=
  c == 34 || c == 92 || c == 10

/-- A word between its quotes; other characters than the necessary ones may be escaped too. -/
def escapeWord (more : UInt8 → Bool) (w : Bytes) : Bytes :=
  w.flatMap fun c => if needsEscape c || more c then [92, c] else [c]

def Token.write (more : UInt8 → Bool) : Token → Bytes
  | .word w => 34 :: (escapeWord more w ++ [34])
  | .semicolon => [59]
  | .openBrace => [123]
  | .closeBrace => [125]

/-- What may stand between two tokens. -/
inductive Filler
  | space (c : UInt8) (h : isAsciiWhitespace c = true)
  | comment (line : Bytes) (h : (10 : UInt8) ∉ line)

def Filler.text : Filler → Bytes
  | .space c _ => [c]
  | .comment line _ => 35 :: (line ++ [10])

abbrev Layout : Type :=
  List Filler

def Layout.text (layout : Layout) : Bytes :=
  layout.flatMap Filler.text

/-- Tokens, each with what stands in front of it, and what stands behind the last. -/
def writeTokens (more : UInt8 → Bool) (ts : List (Layout × Token)) (last : Layout) : Bytes :=
  ts.flatMap (fun t => t.1.text ++ t.2.write more) ++ last.text

section Write

variable {more : UInt8 → Bool}

theorem tokenizeFrom_escapeWord
    (w v s : Bytes) :
    tokenizeFrom (.quoted 34 v) (escapeWord more w ++ 34 :: s) =
      .word (v ++ w) :: tokenizeFrom .between s := by
  induction w generalizing v with
  | nil => simp [escapeWord, tokenizeFrom]
  | cons c w ih =>
      rw [escapeWord, List.flatMap_cons, List.append_assoc, ← escapeWord]
      have hword : v ++ c :: w = (v ++ [c]) ++ w := by simp
      rw [hword, ← ih]
      split
      · simp [tokenizeFrom]
      · rename_i hplain
        simp only [needsEscape, Bool.or_eq_true, beq_iff_eq, not_or] at hplain
        obtain ⟨⟨⟨hquote, hbackslash⟩, hnewline⟩, -⟩ := hplain
        simp [tokenizeFrom, hquote, hbackslash, hnewline]

/-- A token is read back, whatever follows. -/
theorem tokenizeFrom_write
    (t : Token) (s : Bytes) :
    tokenizeFrom .between (t.write more ++ s) = t :: tokenizeFrom .between s := by
  cases t with
  | word w =>
      have hstart : scanStart 34 = ([], .quoted 34 []) := rfl
      simp [Token.write, tokenizeFrom, hstart, tokenizeFrom_escapeWord]
  | semicolon => rfl
  | openBrace => rfl
  | closeBrace => rfl

theorem tokenizeFrom_comment
    {line : Bytes} (h : (10 : UInt8) ∉ line) (s : Bytes) :
    tokenizeFrom .comment (line ++ 10 :: s) = tokenizeFrom .between s := by
  induction line with
  | nil => rfl
  | cons c line ih =>
      obtain ⟨hc, hline⟩ := not_or.mp (mt List.mem_cons.mpr h)
      rw [List.cons_append, tokenizeFrom, if_neg (Ne.symm hc), ih hline]

/-- What stands between tokens is passed over. -/
theorem tokenizeFrom_filler
    (f : Filler) (s : Bytes) :
    tokenizeFrom .between (f.text ++ s) = tokenizeFrom .between s := by
  cases f with
  | space c h => simp [Filler.text, tokenizeFrom, scanStart, h]
  | comment line h =>
      have hstart : scanStart 35 = ([], .comment) := rfl
      simp [Filler.text, tokenizeFrom, hstart, tokenizeFrom_comment h]

theorem tokenizeFrom_layout
    (layout : Layout) (s : Bytes) :
    tokenizeFrom .between (layout.text ++ s) = tokenizeFrom .between s := by
  induction layout with
  | nil => rfl
  | cons f layout ih =>
      rw [Layout.text, List.flatMap_cons, List.append_assoc, tokenizeFrom_filler, ← Layout.text, ih]

theorem tokenize_writeTokens
    (more : UInt8 → Bool) (ts : List (Layout × Token)) (last : Layout) :
    tokenize (writeTokens more ts last) = ts.map Prod.snd := by
  unfold tokenize writeTokens
  induction ts with
  | nil =>
      have hlast := tokenizeFrom_layout last []
      rw [List.append_nil] at hlast
      exact hlast
  | cons t ts ih =>
      rw [List.flatMap_cons, List.append_assoc, List.append_assoc, tokenizeFrom_layout,
        tokenizeFrom_write, ih]
      rfl

end Write

/-! ### Words without quotes -/

/-- What a byte completes at a place, and the place behind it. -/
def scanStep : Scan → UInt8 → List Token × Scan
  | .between, c => scanStart c
  | .comment, c => ([], if c = 10 then .between else .comment)
  | .word text, c =>
      if endsWord c then (.word text :: (scanStart c).1, (scanStart c).2)
      else ([], .word (text ++ [c]))
  | .quoted q text, c =>
      if c = 10 ∨ c = q then ([.word text], .between)
      else if c = 92 then ([], .escaped q text)
      else ([], .quoted q (text ++ [c]))
  | .escaped q text, c => ([], .quoted q (text ++ [c]))

/-- The tokenizer; whatever the end of the text finds open is a token. -/
def tokenLexer : Lexer Scan Token where
  start := .between
  step := scanStep
  finish place := some (tokenizeFrom place [])

deriving instance DecidableEq for Scan

/-- The text is made of whole tokens, whatever follows it. -/
def WholeTokens (a : Bytes) (ts : List Token) : Prop :=
  tokenLexer.run .between a = (ts, .between)

instance (a : Bytes) (ts : List Token) : Decidable (WholeTokens a ts) :=
  inferInstanceAs (Decidable (_ = _))

/-- A text without anything that ends a word. -/
def Unbroken (w : Bytes) : Prop :=
  ∀ c ∈ w, endsWord c = false

instance (w : Bytes) : Decidable (Unbroken w) :=
  decidable_of_iff (w.all (fun c => !endsWord c) = true) (by simp [Unbroken])

/-- A text that is a word without quotes. -/
structure IsPlain (w : Bytes) : Prop where
  unbroken : Unbroken w
  start : ∃ c w', w = c :: w' ∧ c ≠ 34 ∧ c ≠ 39

section Pieces

variable {place place' : Scan} {a b w text s : Bytes} {ts us : List Token} {c : UInt8}

theorem tokenizeFrom_cons
    (place : Scan) (c : UInt8) (s : Bytes) :
    tokenizeFrom place (c :: s) =
      (scanStep place c).1 ++ tokenizeFrom (scanStep place c).2 s := by
  cases place with
  | between => rfl
  | comment => rfl
  | word text =>
      rw [tokenizeFrom.eq_def, scanStep]
      dsimp only
      split <;> rfl
  | quoted q text =>
      rw [tokenizeFrom.eq_def, scanStep]
      dsimp only
      split_ifs <;> rfl
  | escaped q text => rfl

/-- A text is read behind what stands in front of it. -/
theorem tokenizeFrom_append
    (h : tokenLexer.run place a = (ts, place')) (s : Bytes) :
    tokenizeFrom place (a ++ s) = ts ++ tokenizeFrom place' s := by
  induction a generalizing place ts with
  | nil =>
      cases h
      rfl
  | cons c a ih =>
      rw [Lexer.run_cons] at h
      obtain ⟨rfl, rfl⟩ := Prod.mk.inj h
      rw [List.cons_append, tokenizeFrom_cons, List.append_assoc]
      exact congrArg ((scanStep place c).1 ++ ·) (ih rfl)

/-- A plain word is collected. -/
theorem IsPlain.run
    (h : IsPlain w) :
    tokenLexer.run .between w = ([], .word w) := by
  obtain ⟨hunbroken, d, w, rfl, hdouble, hsingle⟩ := h
  obtain ⟨hd, hw⟩ := List.forall_mem_cons.mp hunbroken
  have hstart : tokenLexer.step .between d = ([], .word [d]) := by
    simp only [endsWord, Bool.or_eq_false_iff, beq_eq_false_iff_ne] at hd
    simp [tokenLexer, scanStep, scanStart, hd, hdouble, hsingle]
  have hcollect : ∀ c ∈ w, ∀ v, tokenLexer.step (.word v) c = ([], .word (v ++ [c])) := by
    intro c hc v
    simp [tokenLexer, scanStep, hw c hc]
  rw [Lexer.run_cons, hstart, Lexer.run_collect hcollect]
  rfl

/-- A byte that ends a word is looked at again. -/
theorem scanStep_word
    (text : Bytes) (h : endsWord c = true) :
    scanStep (.word text) c = (.word text :: (scanStart c).1, (scanStart c).2) :=
  if_pos h

theorem wholeTokens_nil : WholeTokens [] [] :=
  rfl

/-- A literal, as the string of its characters. -/
theorem wholeTokens_ofList
    {cs : List Char} (h : WholeTokens (cs.map fun c => UInt8.ofNat c.toNat) ts) :
    WholeTokens (ascii (String.ofList cs)) ts := by
  rwa [ascii_ofList]

theorem WholeTokens.append
    (ha : WholeTokens a ts) (hb : WholeTokens b us) :
    WholeTokens (a ++ b) (ts ++ us) := by
  unfold WholeTokens
  rw [Lexer.run_append_of_eq ha, hb]

/-- A word between two texts, the second of which ends it. -/
theorem WholeTokens.word
    (ha : WholeTokens a ts) (hw : IsPlain w) (hb : WholeTokens b us)
    (hend : b.head?.any endsWord = true) :
    WholeTokens (a ++ (w ++ b)) (ts ++ .word w :: us) := by
  have hword : WholeTokens (w ++ b) (.word w :: us) := by
    unfold WholeTokens at hb ⊢
    rw [Lexer.run_append_of_eq hw.run]
    cases b with
    | nil => cases hend
    | cons c b =>
        rw [Lexer.run_cons] at hb ⊢
        obtain ⟨rfl, hlast⟩ := Prod.mk.inj hb
        have hstep : tokenLexer.step (.word w) c =
            (.word w :: (scanStart c).1, (scanStart c).2) := scanStep_word w hend
        rw [hstep]
        exact Prod.ext rfl hlast
  exact ha.append hword

theorem WholeTokens.tokenize_eq
    (h : WholeTokens a ts) :
    tokenize a = ts := by
  have hread := tokenizeFrom_append h []
  rwa [List.append_nil, tokenizeFrom, List.append_nil] at hread

/-- A plain word in front of what ends it. -/
theorem tokenizeFrom_plain
    (h : IsPlain w) (hc : endsWord c = true) (s : Bytes) :
    tokenizeFrom .between (w ++ c :: s) = .word w :: tokenizeFrom .between (c :: s) := by
  rw [tokenizeFrom_append h.run, tokenizeFrom_cons (.word w), scanStep_word w hc]
  rfl

theorem Unbroken.append
    (h : Unbroken w) (ht : Unbroken text) :
    Unbroken (w ++ text) := by
  intro c hc
  rcases List.mem_append.mp hc with hc | hc
  · exact h c hc
  · exact ht c hc

theorem IsPlain.append
    (hw : IsPlain w) (ht : Unbroken text) :
    IsPlain (w ++ text) := by
  obtain ⟨hunbroken, c, w', rfl, hdouble, hsingle⟩ := hw
  exact ⟨hunbroken.append ht, c, w' ++ text, rfl, hdouble, hsingle⟩

end Pieces

/-! ### The loop of the source -/

/-- Behind the line of a comment. -/
def behindComment : Bytes → Bytes
  | [] => []
  | c :: s => if c = 10 then s else behindComment s

/-- A quoted word behind its opening quote, and what follows it. -/
def readQuoted (q : UInt8) : Bytes → Bytes → Bytes × Bytes
  | text, [] => (text, [])
  | text, c :: s =>
      if c = 10 ∨ c = q then (text, s)
      else if c = 92 then
        match s with
        | [] => (text, [])
        | d :: s => readQuoted q (text ++ [d]) s
      else readQuoted q (text ++ [c]) s

/-- A word without quotes, and what follows it. -/
def readWord : Bytes → Bytes → Bytes × Bytes
  | text, [] => (text, [])
  | text, c :: s => if endsWord c then (text, c :: s) else readWord (text ++ [c]) s

/-- A turn of the loop at a character: the token it gives, if any, and what is left. -/
def turn (c : UInt8) (s : Bytes) : Option Token × Bytes :=
  if isAsciiWhitespace c then (none, s)
  else if c = 35 then (none, behindComment (c :: s))
  else if c = 59 then (some .semicolon, s)
  else if c = 123 then (some .openBrace, s)
  else if c = 125 then (some .closeBrace, s)
  else if c = 34 ∨ c = 39 then
    let (text, rest) := readQuoted c [] s
    (some (.word text), rest)
  else
    let (text, rest) := readWord [] (c :: s)
    (if text = [] then none else some (.word text), rest)

/-- The loop, as long as it has turns left; `none` if it is not at its end by then. -/
def tokenizeLoop : Nat → Bytes → Option (List Token)
  | _, [] => some []
  | 0, _ :: _ => none
  | turns + 1, c :: s => (tokenizeLoop turns (turn c s).2).map ((turn c s).1.toList ++ ·)

section Loop

variable {c q : UInt8}

theorem behindComment_length
    (s : Bytes) :
    (behindComment s).length ≤ s.length := by
  induction s with
  | nil => exact Nat.le_refl _
  | cons c s ih =>
      rw [behindComment]
      split
      · exact Nat.le_succ _
      · exact Nat.le_succ_of_le ih

theorem tokenizeFrom_comment_eq
    (s : Bytes) :
    tokenizeFrom .comment s = tokenizeFrom .between (behindComment s) := by
  induction s with
  | nil => rfl
  | cons c s ih =>
      rw [tokenizeFrom, behindComment]
      split
      · rfl
      · exact ih

theorem readQuoted_length
    (text s : Bytes) :
    (readQuoted q text s).2.length ≤ s.length := by
  fun_induction readQuoted q text s with
  | case1 => exact Nat.le_refl _
  | case2 => exact Nat.le_succ _
  | case3 => exact Nat.zero_le _
  | case4 _ d s _ ih => exact Nat.le_succ_of_le (Nat.le_succ_of_le ih)
  | case5 _ _ s _ _ ih => exact Nat.le_succ_of_le ih

theorem tokenizeFrom_quoted_eq
    (text s : Bytes) :
    tokenizeFrom (.quoted q text) s =
      .word (readQuoted q text s).1 :: tokenizeFrom .between (readQuoted q text s).2 := by
  fun_induction readQuoted q text s with
  | case1 => rfl
  | case2 text c s h => rw [tokenizeFrom, if_pos h]
  | case3 text h =>
      rw [tokenizeFrom.eq_def]
      simp only [h, if_false, if_true]
      rfl
  | case4 text d s h ih => rw [tokenizeFrom, if_neg h, if_pos rfl, tokenizeFrom, ih]
  | case5 text c s h hc ih => rw [tokenizeFrom, if_neg h, if_neg hc, ih]

theorem readWord_length
    (text s : Bytes) :
    (readWord text s).2.length ≤ s.length := by
  fun_induction readWord text s with
  | case1 => exact Nat.le_refl _
  | case2 => exact Nat.le_refl _
  | case3 _ _ _ _ ih => exact Nat.le_succ_of_le ih

theorem tokenizeFrom_word_eq
    (text s : Bytes) :
    tokenizeFrom (.word text) s =
      .word (readWord text s).1 :: tokenizeFrom .between (readWord text s).2 := by
  fun_induction readWord text s with
  | case1 => rfl
  | case2 text c s h =>
      rw [tokenizeFrom.eq_def]
      simp only [h, if_true, List.cons_append]
      rfl
  | case3 text c s h ih => rw [tokenizeFrom, if_neg h, ih]

/-- A word that a turn reads has at least the character it starts with. -/
theorem readWord_start
    (hc : endsWord c = false) (s : Bytes) :
    readWord [] (c :: s) = readWord [c] s := by
  rw [readWord, if_neg (by simp [hc]), List.nil_append]

theorem readWord_ne_nil
    {text : Bytes} (h : text ≠ []) (s : Bytes) :
    (readWord text s).1 ≠ [] := by
  fun_induction readWord text s with
  | case1 => exact h
  | case2 => exact h
  | case3 text c s _ ih => exact ih (by simp)

/-- A character that starts none of the other tokens is the first of a word. -/
theorem endsWord_eq_false
    (hspace : ¬ isAsciiWhitespace c = true) (hcomment : c ≠ 35) (hsemicolon : c ≠ 59)
    (hopen : c ≠ 123) (hclose : c ≠ 125) :
    endsWord c = false := by
  simp [endsWord, hspace, hcomment, hsemicolon, hopen, hclose]

/-- A turn takes at least one character. -/
theorem turn_length
    (c : UInt8) (s : Bytes) :
    (turn c s).2.length ≤ s.length := by
  unfold turn
  split_ifs with hspace hcomment hsemicolon hopen hclose hquote
  · exact Nat.le_refl _
  · rw [hcomment]
    exact behindComment_length s
  · exact Nat.le_refl _
  · exact Nat.le_refl _
  · exact Nat.le_refl _
  · exact readQuoted_length [] s
  · rw [readWord_start (endsWord_eq_false hspace hcomment hsemicolon hopen hclose)]
    exact readWord_length [c] s

/-- A turn gives the next token, or passes over what is none. -/
theorem tokenizeFrom_turn
    (c : UInt8) (s : Bytes) :
    tokenizeFrom .between (c :: s) = (turn c s).1.toList ++ tokenizeFrom .between (turn c s).2 := by
  rw [tokenizeFrom]
  unfold scanStart turn
  split_ifs with hspace hcomment hsemicolon hopen hclose hquote
  · rfl
  · rw [hcomment]
    exact tokenizeFrom_comment_eq s
  · rfl
  · rfl
  · rfl
  · exact tokenizeFrom_quoted_eq [] s
  · rw [readWord_start (endsWord_eq_false hspace hcomment hsemicolon hopen hclose)]
    dsimp only
    rw [if_neg (readWord_ne_nil (List.cons_ne_nil c []) s)]
    exact tokenizeFrom_word_eq [c] s

/-- As many turns as there are characters bring the loop to its end. -/
theorem tokenizeLoop_eq
    {turns : Nat} {s : Bytes} (h : s.length ≤ turns) :
    tokenizeLoop turns s = some (tokenize s) := by
  induction turns generalizing s with
  | zero =>
      obtain rfl := List.length_eq_zero_iff.mp (Nat.le_zero.mp h)
      rfl
  | succ turns ih =>
      cases s with
      | nil => rfl
      | cons c s =>
          have hlen : (turn c s).2.length ≤ turns :=
            (turn_length c s).trans (Nat.le_of_succ_le_succ h)
          rw [tokenizeLoop, ih hlen, Option.map_some, tokenize, tokenize, tokenizeFrom_turn]

end Loop

/-- What is written is read back, and the loop comes to its end on every text. -/
theorem tokenizer_exact :
    (∀ more ts last, tokenize (writeTokens more ts last) = ts.map Prod.snd) ∧
      ∀ src more, tokenizeLoop (src.length + more) src = some (tokenize src) :=
  ⟨tokenize_writeTokens, fun _ _ => tokenizeLoop_eq (Nat.le_add_right _ _)⟩

/-- Quotes, a semicolon and a hash in a word, and no space in front of a brace. -/
example :
    tokenize (writeTokens (fun _ => false)
      [([], .word (ascii "a\"; #")), ([.comment (ascii "\"") (by decide)], .word []),
        ([], .openBrace)] [.space 10 rfl]) =
      [.word (ascii "a\"; #"), .word [], .openBrace] := by
  decide

end ConfigParser
end RunNginx
