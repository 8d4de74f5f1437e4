import Mathlib.Data.List.Induction
import RunNginx.Lib.Lexer

/-!
# SQL text

The lexical rules of MySQL in its default mode: words, names between backticks, strings in
either kind of quotes, comments, and everything else byte by byte.  Inside a string a quote
is written twice or behind a backslash, and a backslash stands in front of the letters of
some control characters.  A backslash in front of `%` or `_` stays where it is.

`string_cases` says what a string literal denotes that a text is put into without any
escapes: that text exactly if it is `Verbatim`.
-/

namespace SqlText

open ByteString

inductive Token
  | word (text : Bytes)
  | name (text : Bytes)
  | string (value : Bytes)
  | symbol (b : UInt8)
deriving DecidableEq, Repr

inductive Mode
  | between
  | word (text : Bytes)
  | name (text : Bytes)
  /-- Behind a backtick that ends the name or is the first of two. -/
  | nameEnd (text : Bytes)
  | string (quote : UInt8) (value : Bytes)
  | escape (quote : UInt8) (value : Bytes)
  /-- Behind a quote that ends the string or is the first of two. -/
  | stringEnd (quote : UInt8) (value : Bytes)
  | dash
  | dashes
  | line
  | slash
  | block
  | star
deriving DecidableEq, Repr

/-- Bytes of words and of numbers. -/
def wordByte (b : UInt8) : Bool :=
  (48 ≤ b && b ≤ 57) || (65 ≤ b && b ≤ 90) || (97 ≤ b && b ≤ 122) || b == 95 || b == 36 || 128 ≤ b

/-- What a byte stands for behind a backslash. -/
def unescape (b : UInt8) : Bytes :=
  if b = 48 then [0] else if b = 98 then [8] else if b = 110 then [10]
  else if b = 114 then [13] else if b = 116 then [9] else if b = 90 then [26]
  else if b = 37 ∨ b = 95 then [92, b] else [b]

/-- The first byte of a token, or one between tokens. -/
def enter (b : UInt8) : List Token × Mode :=
  if b ≤ 32 then ([], .between)
  else if wordByte b then ([], .word [b])
  else if b = 96 then ([], .name [])
  else if b = 39 ∨ b = 34 then ([], .string b [])
  else if b = 45 then ([], .dash)
  else if b = 47 then ([], .slash)
  else if b = 35 then ([], .line)
  else ([.symbol b], .between)

/-- A byte behind the end of a token. -/
def leave (token : List Token) (b : UInt8) : List Token × Mode :=
  (token ++ (enter b).1, (enter b).2)

def step : Mode → UInt8 → List Token × Mode
  | .between, b => enter b
  | .word t, b => if wordByte b then ([], .word (t ++ [b])) else leave [.word t] b
  | .name t, b => if b = 96 then ([], .nameEnd t) else ([], .name (t ++ [b]))
  | .nameEnd t, b => if b = 96 then ([], .name (t ++ [96])) else leave [.name t] b
  | .string q v, b =>
      if b = 92 then ([], .escape q v)
      else if b = q then ([], .stringEnd q v)
      else ([], .string q (v ++ [b]))
  | .escape q v, b => ([], .string q (v ++ unescape b))
  | .stringEnd q v, b => if b = q then ([], .string q (v ++ [q])) else leave [.string v] b
  | .dash, b => if b = 45 then ([], .dashes) else leave [.symbol 45] b
  -- Two dashes begin a comment in front of white space only.
  | .dashes, b =>
      if b = 10 then ([], .between)
      else if b ≤ 32 ∨ b = 127 then ([], .line)
      else if b = 45 then ([.symbol 45], .dashes)
      else leave [.symbol 45, .symbol 45] b
  | .line, b => ([], if b = 10 then .between else .line)
  | .slash, b => if b = 42 then ([], .block) else leave [.symbol 47] b
  | .block, b => ([], if b = 42 then .star else .block)
  | .star, b => ([], if b = 47 then .between else if b = 42 then .star else .block)

def finish : Mode → Option (List Token)
  | .between | .line => some []
  | .word t => some [.word t]
  | .nameEnd t => some [.name t]
  | .stringEnd _ v => some [.string v]
  | .dash => some [.symbol 45]
  | .dashes => some [.symbol 45, .symbol 45]
  | .slash => some [.symbol 47]
  | .name _ | .string _ _ | .escape _ _ | .block | .star => none

def lexer : Lexer Mode Token where
  start := .between
  step := step
  finish := finish

section Strings

variable {p tail more v : Bytes} {b : UInt8}

/-- A text that denotes itself between single quotes. -/
def Verbatim (p : Bytes) : Prop :=
  39 ∉ p ∧ ∀ front back, p = front ++ 92 :: back →
    back.head? = some 37 ∨ back.head? = some 95

theorem verbatim_nil :
    Verbatim [] :=
  ⟨List.not_mem_nil, by simp⟩

theorem Verbatim.snoc
    (h : Verbatim p) (hquote : b ≠ 39) (hback : b ≠ 92) :
    Verbatim (p ++ [b]) := by
  refine ⟨by simp [h.1, Ne.symm hquote], fun front back heq => ?_⟩
  rcases List.eq_nil_or_concat back with rfl | ⟨back, c, rfl⟩
  · exact absurd (List.append_inj_right' heq rfl) (by simp [hback])
  · rw [List.concat_eq_append, ← List.cons_append, ← List.append_assoc] at heq
    obtain ⟨hp, -⟩ := List.append_inj' heq rfl
    rcases h.2 front back hp with hhead | hhead
    · exact .inl (by simp [hhead])
    · exact .inr (by simp [hhead])

theorem Verbatim.snoc_escape
    (h : Verbatim p) (hb : b = 37 ∨ b = 95) :
    Verbatim (p ++ [92, b]) := by
  have hb39 : b ≠ 39 ∧ b ≠ 92 := by rcases hb with rfl | rfl <;> decide
  refine ⟨by simp [h.1, Ne.symm hb39.1], fun front back heq => ?_⟩
  rcases List.eq_nil_or_concat back with rfl | ⟨back, c, rfl⟩
  · have hlast := congrArg List.getLast? heq
    simp [hb39.2] at hlast
  rcases List.eq_nil_or_concat back with rfl | ⟨back, d, rfl⟩
  · have hlast := congrArg List.getLast? heq
    simp only [List.getLast?_append, List.getLast?_cons_cons, List.getLast?_singleton,
      List.concat_eq_append, List.nil_append, Option.some_or, Option.some.injEq] at hlast
    rw [← hlast]
    rcases hb with rfl | rfl
    · exact .inl rfl
    · exact .inr rfl
  · have hsplit : p ++ [92, b] = (front ++ 92 :: back) ++ [d, c] := by
      rw [heq]
      simp
    obtain ⟨hp, -⟩ := List.append_inj' hsplit rfl
    rcases h.2 front back hp with hhead | hhead
    · exact .inl (by simp [hhead])
    · exact .inr (by simp [hhead])

/-- How far the lexer has come behind a text that is put between single quotes. -/
inductive Reading (p : Bytes) : List Token × Mode → Prop
  | inside (v : Bytes) (hle : v.length ≤ p.length)
      (hsame : v.length = p.length → v = p ∧ Verbatim p) :
      Reading p ([], .string 39 v)
  | escape (v front : Bytes) (hlast : p = front ++ [92]) (hle : v.length ≤ front.length)
      (hsame : v.length = front.length → v = front ∧ Verbatim front) :
      Reading p ([], .escape 39 v)
  | quote (v front : Bytes) (hlast : p = front ++ [39]) (hle : v.length ≤ front.length) :
      Reading p ([], .stringEnd 39 v)
  | closed (v : Bytes) (rest : List Token) (m : Mode) (hlt : v.length < p.length) :
      Reading p (.string v :: rest, m)

theorem length_unescape_le
    (b : UInt8) (hb : ¬ (b = 37 ∨ b = 95)) :
    (unescape b).length = 1 := by
  unfold unescape
  simp only [hb, if_false]
  repeat' split
  all_goals rfl

/-- What a literal denotes is no longer than what is written, and shorter but for itself. -/
theorem reading
    (p : Bytes) :
    Reading p (lexer.run (.string 39 []) p) := by
  induction p using List.reverseRecOn with
  | nil => exact .inside [] (Nat.le_refl 0) fun _ => ⟨rfl, verbatim_nil⟩
  | append_singleton p b ih =>
      rw [Lexer.run_snoc]
      generalize lexer.run (.string 39 []) p = r at ih
      cases ih with
      | inside v hle hsame =>
          by_cases hback : b = 92
          · subst hback
            exact .escape v p rfl hle hsame
          by_cases hquote : b = 39
          · subst hquote
            exact .quote v p rfl hle
          have hstep : lexer.step (.string 39 v) b = ([], .string 39 (v ++ [b])) := by
            simp [lexer, step, hback, hquote]
          rw [hstep]
          refine .inside (v ++ [b]) (by simpa using hle) fun hlength => ?_
          obtain ⟨rfl, hverbatim⟩ := hsame (by simpa using hlength)
          exact ⟨rfl, hverbatim.snoc hquote hback⟩
      | escape v front hlast hle hsame =>
          subst hlast
          have hstep : lexer.step (.escape 39 v) b = ([], .string 39 (v ++ unescape b)) := rfl
          rw [hstep]
          by_cases hkept : b = 37 ∨ b = 95
          · have hunescape : unescape b = [92, b] := by
              rcases hkept with rfl | rfl <;> rfl
            rw [hunescape]
            refine .inside _ (by simpa using hle) fun hlength => ?_
            obtain ⟨rfl, hverbatim⟩ := hsame (by simpa using hlength)
            exact ⟨by simp, by simpa using hverbatim.snoc_escape hkept⟩
          · have hone := length_unescape_le b hkept
            have hlt : (v ++ unescape b).length < (front ++ [92] ++ [b]).length := by
              simp [hone]
              omega
            exact .inside _ (Nat.le_of_lt hlt) fun heq => absurd heq (Nat.ne_of_lt hlt)
      | quote v front hlast hle =>
          subst hlast
          by_cases hquote : b = 39
          · subst hquote
            have hlt : (v ++ [39]).length < (front ++ [39] ++ [39]).length := by
              simp
              omega
            exact .inside _ (Nat.le_of_lt hlt) fun heq => absurd heq (Nat.ne_of_lt hlt)
          · have hstep : lexer.step (.stringEnd 39 v) b = leave [.string v] b := if_neg hquote
            rw [hstep]
            refine .closed v _ _ ?_
            simp
            omega
      | closed v rest m hlt =>
          refine .closed v _ _ ?_
          simp
          omega

/-- Bytes that are collected between single quotes. -/
theorem run_string
    (h : ∀ b ∈ p, b ≠ 39 ∧ b ≠ 92) (v : Bytes) :
    lexer.run (.string 39 v) p = ([], .string 39 (v ++ p)) := by
  refine @Lexer.run_collect _ _ lexer (Mode.string 39) p (fun b hb v => ?_) v
  simp [lexer, step, h b hb]

/-- Bytes that are collected between backticks. -/
theorem run_name
    (h : ∀ b ∈ p, b ≠ 96) (v : Bytes) :
    lexer.run (.name v) p = ([], .name (v ++ p)) := by
  refine @Lexer.run_collect _ _ lexer Mode.name p (fun b hb v => ?_) v
  simp [lexer, step, h b hb]

/-- Behind the end of a token the text is read from anew. -/
theorem run_name_end
    (hb : b ≠ 96) (t s : Bytes) :
    lexer.run (.name t) (96 :: b :: s) =
      (.name t :: (lexer.run .between (b :: s)).1, (lexer.run .between (b :: s)).2) := by
  have hquote : lexer.step (.name t) 96 = ([], .nameEnd t) := rfl
  have hend : lexer.step (.nameEnd t) b = leave [.name t] b := if_neg hb
  rw [Lexer.run_cons, hquote, Lexer.run_cons, hend]
  rfl

theorem run_string_end
    (hb : b ≠ 39) (v s : Bytes) :
    lexer.run (.string 39 v) (39 :: b :: s) =
      (.string v :: (lexer.run .between (b :: s)).1, (lexer.run .between (b :: s)).2) := by
  have hquote : lexer.step (.string 39 v) 39 = ([], .stringEnd 39 v) := rfl
  have hend : lexer.step (.stringEnd 39 v) b = leave [.string v] b := if_neg hb
  rw [Lexer.run_cons, hquote, Lexer.run_cons, hend]
  rfl

theorem run_name_text
    {s : Bytes} {ts : List Token} {m : Mode} (hb : b ≠ 96)
    (h : lexer.run .between (b :: s) = (ts, m)) (t rest : Bytes) :
    lexer.run (.name t) (96 :: (b :: s ++ rest)) =
      (.name t :: (ts ++ (lexer.run m rest).1), (lexer.run m rest).2) := by
  rw [List.cons_append, run_name_end hb, ← List.cons_append, Lexer.run_append_of_eq h]

theorem run_string_text
    {s : Bytes} {ts : List Token} {m : Mode} (hb : b ≠ 39)
    (h : lexer.run .between (b :: s) = (ts, m)) (v rest : Bytes) :
    lexer.run (.string 39 v) (39 :: (b :: s ++ rest)) =
      (.string v :: (ts ++ (lexer.run m rest).1), (lexer.run m rest).2) := by
  rw [List.cons_append, run_string_end hb, ← List.cons_append, Lexer.run_append_of_eq h]

/-- A text that denotes itself is collected as it is. -/
theorem run_verbatim
    (h : Verbatim p) (v : Bytes) :
    lexer.run (.string 39 v) p = ([], .string 39 (v ++ p)) := by
  induction hn : p.length using Nat.strong_induction_on generalizing p v with
  | _ n ih =>
      subst hn
      match p, h, ih with
      | [], _, _ => rw [List.append_nil]; rfl
      | b :: p, h, ih =>
          have hquote : b ≠ 39 := fun heq => h.1 (heq ▸ List.mem_cons_self)
          by_cases hback : b = 92
          · subst hback
            cases p with
            | nil => exact absurd (h.2 [] [] rfl) (by simp)
            | cons c p =>
                have hc : c = 37 ∨ c = 95 := by simpa using h.2 [] (c :: p) rfl
                have hunescape : unescape c = [92, c] := by rcases hc with rfl | rfl <;> rfl
                have hrest : Verbatim p := by
                  refine ⟨fun hmem => h.1 (by simp [hmem]), fun front back heq => ?_⟩
                  exact h.2 (92 :: c :: front) back (by rw [heq]; rfl)
                have htwo : lexer.run (.string 39 v) (92 :: c :: p) =
                    lexer.run (.string 39 (v ++ [92, c])) p := by
                  rw [← hunescape]
                  rfl
                rw [htwo, ih p.length (by simp only [List.length_cons]; omega) hrest _ rfl]
                simp
          · have hrest : Verbatim p := by
              refine ⟨fun hmem => h.1 (by simp [hmem]), fun front back heq => ?_⟩
              exact h.2 (b :: front) back (by rw [heq]; rfl)
            have hstep : lexer.step (.string 39 v) b = ([], .string 39 (v ++ [b])) := by
              simp [lexer, step, hback, hquote]
            rw [Lexer.run_cons, hstep, ih p.length (by simp) hrest _ rfl]
            simp

/--
The first token behind a single quote, where the text `p` is put in without escapes: `tail`
is what follows up to the next quote.
-/
theorem string_cases
    {c : UInt8} (hfirst : tail.head?.all (· ≠ 39) = true) (hlast : tail.getLast? = some 32)
    (htail : ∀ b ∈ tail, b ≠ 39 ∧ b ≠ 92) (hc : c ≠ 39) (p more : Bytes) :
    ∃ v rest, (lexer.run (.string 39 []) (p ++ 39 :: (tail ++ 39 :: c :: more))).1 =
        .string v :: rest ∧ (v = p → Verbatim p) := by
  have hover : ∀ w, ∃ rest, (lexer.run (.string 39 w) (tail ++ 39 :: c :: more)).1 =
      .string (w ++ tail) :: rest := by
    intro w
    rw [Lexer.run_append_of_eq (run_string htail w), List.nil_append, run_string_end hc]
    exact ⟨_, rfl⟩
  have hspace : ∀ (w front : Bytes) (d : UInt8), d ≠ 32 → w ++ tail ≠ front ++ [d] := by
    intro w front d hd heq
    have hlasts := congrArg List.getLast? heq
    rw [List.getLast?_append, hlast, List.getLast?_append] at hlasts
    simp [Ne.symm hd] at hlasts
  obtain ⟨t, tail', rfl⟩ : ∃ t tail', tail = t :: tail' := by
    cases tail with
    | nil => cases hlast
    | cons t tail' => exact ⟨t, tail', rfl⟩
  have ht : t ≠ 39 := by simpa using hfirst
  -- the quote behind the text is part of the string, and so is the tail
  have hquoted : ∀ {m : Mode} {v front : Bytes} {d : UInt8}, d ≠ 32 →
      lexer.step m 39 = ([], .string 39 (v ++ [39])) →
        ∃ w rest, (lexer.run m (39 :: (t :: tail' ++ 39 :: c :: more))).1 = .string w :: rest ∧
          (w = front ++ [d] → Verbatim (front ++ [d])) := by
    intro m v front d hd hstep
    obtain ⟨rest, hrest⟩ := hover (v ++ [39])
    refine ⟨v ++ [39] ++ t :: tail', rest, ?_, fun heq => absurd heq (hspace _ _ _ hd)⟩
    rw [Lexer.run_cons, hstep]
    exact hrest
  have hread := reading p
  rw [Lexer.run_append]
  generalize lexer.run (.string 39 []) p = r at hread
  cases hread with
  | inside v hle hsame =>
      have hend := run_string_end ht v (tail' ++ 39 :: c :: more)
      exact ⟨v, _, congrArg Prod.fst hend, fun heq => (hsame (by rw [heq])).2⟩
  | escape v front hlast' hle hsame =>
      subst hlast'
      exact hquoted (by decide) rfl
  | quote v front hlast' hle =>
      subst hlast'
      exact hquoted (by decide) rfl
  | closed v rest m hlt =>
      refine ⟨v, _, rfl, fun heq => ?_⟩
      rw [heq] at hlt
      exact absurd hlt (Nat.lt_irrefl _)

end Strings

end SqlText
