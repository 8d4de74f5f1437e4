import RunNginx.Lib.Lexer
import RunNginx.Lib.Replace

/-!
# PHP text

The lexical places of PHP: text outside of the tags, code, comments, and the three kinds of
quotes.  A literal between single quotes is one token, with its body as it is written; any
other byte stands for itself, with the place it is at.  (Heredocs are not told from code.)

Between single quotes a backslash stands in front of a quote or of a backslash; in front of
any other byte it is one byte more (`unquote`).
-/

namespace PhpText

open ByteString

/-- Where a byte stands. -/
inductive Place
  | html
  | code
  | comment
  | quoted
deriving DecidableEq, Repr

inductive Token
  | byte (place : Place) (b : UInt8)
  | literal (body : Bytes)
deriving DecidableEq, Repr

inductive Mode
  /-- Outside of the tags, behind so many bytes of an opening one. -/
  | html (tag : Nat)
  | code
  | slash
  | hash
  | mark
  | line
  | lineMark
  | block (star : Bool)
  | single (body : Bytes) (escaped : Bool)
  | quoted (backtick : Bool) (escaped : Bool)
deriving DecidableEq, Repr

/-- White space and line ends. -/
def blank (b : UInt8) : Bool :=
  b == 32 || b == 9 || b == 10 || b == 13

/-- Outside of the tags: `<?php` in front of a blank, and `<?=`, open one. -/
def html (tag : Nat) (b : UInt8) : Mode :=
  if tag = 5 ∧ blank b then .code
  else if tag = 2 ∧ b = 61 then .code
  else if (ascii "<?php")[tag]? = some (toLowerByte b) then .html (tag + 1)
  else if b = 60 then .html 1
  else .html 0

def code (b : UInt8) : List Token × Mode :=
  if b = 39 then ([], .single [] false)
  else if b = 34 then ([.byte .quoted b], .quoted false false)
  else if b = 96 then ([.byte .quoted b], .quoted true false)
  else if b = 47 then ([], .slash)
  else if b = 35 then ([], .hash)
  else if b = 63 then ([], .mark)
  else ([.byte .code b], .code)

/-- In a comment up to the end of the line, or of the code. -/
def line (b : UInt8) : List Token × Mode :=
  if b = 10 ∨ b = 13 then ([.byte .comment b], .code)
  else if b = 63 then ([], .lineMark)
  else ([.byte .comment b], .line)

/-- A byte in front of others. -/
def behind (token : Token) (r : List Token × Mode) : List Token × Mode :=
  (token :: r.1, r.2)

def step : Mode → UInt8 → List Token × Mode
  | .html tag, b => ([.byte .html b], html tag b)
  | .code, b => code b
  | .slash, b =>
      if b = 47 then ([.byte .comment 47, .byte .comment 47], .line)
      else if b = 42 then ([.byte .comment 47, .byte .comment 42], .block false)
      else behind (.byte .code 47) (code b)
  -- A bracket makes it an attribute, which is code.
  | .hash, b =>
      if b = 91 then ([.byte .code 35, .byte .code 91], .code)
      else behind (.byte .comment 35) (line b)
  | .mark, b =>
      if b = 62 then ([.byte .code 63, .byte .code 62], .html 0)
      else behind (.byte .code 63) (code b)
  | .line, b => line b
  | .lineMark, b =>
      if b = 62 then ([.byte .code 63, .byte .code 62], .html 0)
      else behind (.byte .comment 63) (line b)
  | .block star, b => ([.byte .comment b], if star ∧ b = 47 then .code else .block (b = 42))
  | .single body escaped, b =>
      if escaped then ([], .single (body ++ [b]) false)
      else if b = 39 then ([.literal body], .code)
      else ([], .single (body ++ [b]) (b = 92))
  | .quoted backtick escaped, b =>
      ([.byte .quoted b],
        if escaped then .quoted backtick false
        else if b = (if backtick then 96 else 34) then .code
        else .quoted backtick (b = 92))

def finish : Mode → Option (List Token)
  | .html _ | .code | .line => some []
  | .slash => some [.byte .code 47]
  | .hash => some [.byte .comment 35]
  | .mark => some [.byte .code 63]
  | .lineMark => some [.byte .comment 63]
  | .block _ | .single _ _ | .quoted _ _ => none

def lexer : Lexer Mode Token where
  start := .html 0
  step := step
  finish := finish

/-- What a token is written as. -/
def Token.text : Token → Bytes
  | .byte _ b => [b]
  | .literal body => 39 :: (body ++ [39])

/-- What is read of the next token. -/
def Mode.pending : Mode → Bytes
  | .slash => [47]
  | .hash => [35]
  | .mark | .lineMark => [63]
  | .single body _ => 39 :: body
  | _ => []

/-- The value of a literal, from its body; `none` if the literal ends before or behind it. -/
def unquote : Bytes → Option Bytes
  | [] => some []
  | [b] => if b = 39 ∨ b = 92 then none else some [b]
  | b :: c :: s =>
      if b = 39 then none
      else if b = 92 ∧ (c = 39 ∨ c = 92) then (unquote s).map (c :: ·)
      else (unquote (c :: s)).map (b :: ·)

section Places

theorem code_text
    (b : UInt8) :
    (code b).1.flatMap Token.text ++ (code b).2.pending = [b] := by
  unfold code
  repeat' split
  all_goals simp_all [Token.text, Mode.pending]

theorem line_text
    (b : UInt8) :
    (line b).1.flatMap Token.text ++ (line b).2.pending = [b] := by
  unfold line
  repeat' split
  all_goals simp_all [Token.text, Mode.pending]

theorem html_pending
    (tag : Nat) (b : UInt8) :
    (html tag b).pending = [] := by
  unfold html
  repeat' split
  all_goals rfl

theorem lossless :
    lexer.Lossless Token.text Mode.pending where
  start := rfl
  step m b := by
    have hbehind : ∀ (c : UInt8) (place : Place) (r : List Token × Mode),
        r.1.flatMap Token.text ++ r.2.pending = [b] →
        (behind (.byte place c) r).1.flatMap Token.text ++ (behind (.byte place c) r).2.pending =
          [c] ++ [b] := by
      intro c place r hr
      rw [behind, List.flatMap_cons, List.append_assoc, hr, Token.text]
    change (step m b).1.flatMap Token.text ++ (step m b).2.pending = m.pending ++ [b]
    cases m with
    | html tag =>
        rw [step, html_pending]
        rfl
    | code => exact code_text b
    | slash =>
        rw [step]
        split
        · rename_i hb
          rw [hb]
          rfl
        split
        · rename_i hb
          rw [hb]
          rfl
        · exact hbehind 47 .code _ (code_text b)
    | hash =>
        rw [step]
        split
        · rename_i hb
          rw [hb]
          rfl
        · exact hbehind 35 .comment _ (line_text b)
    | mark =>
        rw [step]
        split
        · rename_i hb
          rw [hb]
          rfl
        · exact hbehind 63 .code _ (code_text b)
    | line => exact line_text b
    | lineMark =>
        rw [step]
        split
        · rename_i hb
          rw [hb]
          rfl
        · exact hbehind 63 .comment _ (line_text b)
    | block star =>
        rw [step]
        split <;> rfl
    | single body escaped =>
        rw [step]
        split
        · rfl
        split
        · rename_i hb
          rw [hb]
          simp [Token.text, Mode.pending]
        · rfl
    | quoted backtick escaped =>
        rw [step]
        repeat' split
        all_goals rfl
  finish m ts h := by
    cases m <;> cases h <;> rfl

end Places

section Kinds

variable {m m' : Mode} {s pat new : Bytes}

/-- A mode without the body that is read. -/
def Mode.kind : Mode → Mode
  | .single _ escaped => .single [] escaped
  | m => m

/-- How a text goes on does not depend on the body that is read. -/
theorem step_kind
    (h : m.kind = m'.kind) (b : UInt8) :
    (step m b).2.kind = (step m' b).2.kind := by
  have hsingle : ∀ v v' e, (step (.single v e) b).2.kind = (step (.single v' e) b).2.kind := by
    intro v v' e
    rw [step, step]
    repeat' split
    all_goals rfl
  cases m with
  | single v e =>
      cases m' with
      | single v' e' =>
          obtain rfl : e = e' := (Mode.single.inj h).2
          exact hsingle v v' e
      | _ => cases h
  | _ =>
      cases m' <;> cases h
      rfl

theorem run_kind
    (h : m.kind = m'.kind) (s : Bytes) :
    (lexer.run m s).2.kind = (lexer.run m' s).2.kind := by
  induction s generalizing m m' with
  | nil => exact h
  | cons b s ih => exact ih (step_kind h b)

theorem run_append_kind
    (m : Mode) (s t : Bytes) :
    (lexer.run m (s ++ t)).2.kind = (lexer.run (lexer.run m s).2 t).2.kind := by
  rw [Lexer.run_append]

/-- Modes that wait for a mark. -/
def Mode.calm : Mode → Bool
  | .html tag => tag == 0
  | .code | .line => true
  | .block star => !star
  | .single _ escaped | .quoted _ escaped => !escaped
  | _ => false

/-- The bytes that lead from a calm mode to another one. -/
def marks : Bytes :=
  [10, 13, 34, 35, 39, 42, 47, 60, 63, 92, 96]

def dull (b : UInt8) : Bool :=
  !marks.contains b

theorem html_dull
    {b : UInt8} (hb : b ≠ 60) :
    html 0 b = .html 0 := by
  have hfirst : toLowerByte b ≠ 60 := by
    unfold toLowerByte
    split
    · simp only [ne_eq, UInt8.le_iff_toNat_le, ← UInt8.toNat_inj, UInt8.toNat_add,
        UInt8.reduceToNat] at *
      omega
    · exact hb
  have htag : (ascii "<?php")[0]? = some 60 := rfl
  simp [html, htag, hb, Ne.symm hfirst]

/-- A calm mode is not left but for a mark. -/
theorem step_dull
    {b : UInt8} (hm : m.calm = true) (hb : dull b = true) :
    (step m b).2.kind = m.kind ∧ (step m b).2.calm = true := by
  simp only [dull, marks, Bool.not_eq_true', List.contains_eq_mem, decide_eq_false_iff_not,
    List.mem_cons, List.not_mem_nil, or_false, not_or] at hb
  obtain ⟨h10, h13, h34, h35, h39, h42, h47, h60, h63, h92, h96⟩ := hb
  cases m with
  | html tag =>
      obtain rfl : tag = 0 := by simpa [Mode.calm] using hm
      rw [step, html_dull h60]
      exact ⟨rfl, rfl⟩
  | code => simp [step, code, h34, h35, h39, h47, h63, h96, Mode.calm]
  | line => simp [step, line, h10, h13, h63, Mode.calm]
  | block star =>
      obtain rfl : star = false := by simpa [Mode.calm] using hm
      simp [step, h42, Mode.calm]
  | single v e =>
      obtain rfl : e = false := by simpa [Mode.calm] using hm
      simp [step, h39, h92, Mode.calm, Mode.kind]
  | quoted backtick e =>
      obtain rfl : e = false := by simpa [Mode.calm] using hm
      cases backtick <;> simp [step, h34, h96, h92, Mode.calm]
  | slash | hash | mark | lineMark => cases hm

/-- A single quote leads from one calm mode to another. -/
theorem step_quote
    (hm : m.calm = true) :
    (step m 39).2.calm = true := by
  cases m with
  | html tag =>
      obtain rfl : tag = 0 := by simpa [Mode.calm] using hm
      rfl
  | code | line => rfl
  | block star =>
      obtain rfl : star = false := by simpa [Mode.calm] using hm
      rfl
  | single v e =>
      obtain rfl : e = false := by simpa [Mode.calm] using hm
      rfl
  | quoted backtick e =>
      obtain rfl : e = false := by simpa [Mode.calm] using hm
      cases backtick <;> rfl
  | slash | hash | mark | lineMark => cases hm

theorem run_dull
    (hm : m.calm = true) (hs : ∀ b ∈ s, dull b = true) :
    (lexer.run m s).2.kind = m.kind := by
  induction s generalizing m with
  | nil => rfl
  | cons b s ih =>
      obtain ⟨hb, hs⟩ := List.forall_mem_cons.mp hs
      obtain ⟨hkind, hcalm⟩ := step_dull hm hb
      exact (ih hcalm hs).trans hkind

theorem run_calm
    (hm : m.calm = true) (hs : ∀ b ∈ s, dull b = true ∨ b = 39) :
    (lexer.run m s).2.calm = true := by
  induction s generalizing m with
  | nil => exact hm
  | cons b s ih =>
      obtain ⟨hb, hrest⟩ := List.forall_mem_cons.mp hs
      rcases hb with hb | rfl
      · exact ih (step_dull hm hb).2 hrest
      · exact ih (step_quote hm) hrest

/-- A letter that is in no tag makes every mode calm. -/
theorem step_calm
    (m : Mode) :
    (step m 100).2.calm = true := by
  cases m with
  | html tag =>
      have htag : (ascii "<?php")[tag]? ≠ some 100 :=
        fun h => absurd (List.mem_of_getElem? h) (by decide)
      have hblank : blank 100 = false := rfl
      have hlower : toLowerByte 100 = 100 := rfl
      simp [step, html, hblank, hlower, htag, Mode.calm]
  | code | slash | hash | mark | line | lineMark => rfl
  | block star => cases star <;> rfl
  | single v e => cases e <;> rfl
  | quoted backtick e => cases backtick <;> cases e <;> rfl

/-- A dull text in the place of another one, behind a text that makes every mode calm. -/
theorem run_instead
    {v v' : Bytes} (hs : ∀ b ∈ s, dull b = true ∨ b = 39) (hv : ∀ b ∈ v, dull b = true)
    (hv' : ∀ b ∈ v', dull b = true) (m : Mode) (t : Bytes) :
    (lexer.run m (100 :: (s ++ (v ++ t)))).2.kind =
      (lexer.run m (100 :: (s ++ (v' ++ t)))).2.kind := by
  have hcalm : (lexer.run (step m 100).2 s).2.calm = true := run_calm (step_calm m) hs
  change (lexer.run (step m 100).2 (s ++ (v ++ t))).2.kind =
    (lexer.run (step m 100).2 (s ++ (v' ++ t))).2.kind
  rw [run_append_kind, run_append_kind, run_append_kind, run_append_kind]
  exact run_kind ((run_dull hcalm hv).trans (run_dull hcalm hv').symm) t

/-- Replacing a pattern by a text that leads to the same mode. -/
theorem run_replace_kind
    (hpat : pat ≠ []) (hsame : ∀ m, (lexer.run m new).2.kind = (lexer.run m pat).2.kind)
    (h : m.kind = m'.kind) (s : Bytes) :
    (lexer.run m (replace pat new s)).2.kind = (lexer.run m' s).2.kind := by
  induction s using replace_rec hpat generalizing m m' with
  | nil => exact h
  | found t ih =>
      rw [replace_pat hpat, run_append_kind, run_append_kind]
      exact ih ((run_kind h new).trans (hsame m'))
  | other b t hfront ih =>
      rw [replace_cons hfront]
      exact ih (step_kind h b)

end Kinds

section Literals

variable {s t x y body : Bytes}

/-- A byte that is neither a quote nor a backslash. -/
def Simple (b : UInt8) : Prop :=
  b ≠ 39 ∧ b ≠ 92

theorem unquote_cons
    {b : UInt8} (hb : Simple b) (s : Bytes) :
    unquote (b :: s) = (unquote s).map (b :: ·) := by
  cases s with
  | nil => simp [unquote, hb.1, hb.2]
  | cons c s => simp [unquote, hb.1, hb.2]

theorem unquote_backslash
    {b : UInt8} (hb : Simple b) (s : Bytes) :
    unquote (92 :: b :: s) = (unquote s).map (92 :: b :: ·) := by
  rw [unquote]
  simp [hb.1, hb.2, unquote_cons hb]
  cases unquote s <;> rfl

theorem unquote_escape
    {b : UInt8} (hb : b = 39 ∨ b = 92) (s : Bytes) :
    unquote (92 :: b :: s) = (unquote s).map (b :: ·) := by
  rw [unquote, if_neg (by decide), if_pos ⟨rfl, hb⟩]

/-- How the body of a literal is read. -/
inductive Reads : Bytes → Bytes → Prop
  | nil : Reads [] []
  | simple {b s x} (hb : Simple b) (h : Reads s x) : Reads (b :: s) (b :: x)
  | backslash {b s x} (hb : Simple b) (h : Reads s x) : Reads (92 :: b :: s) (92 :: b :: x)
  | escape {b s x} (hb : b = 39 ∨ b = 92) (h : Reads s x) : Reads (92 :: b :: s) (b :: x)

theorem unquote_eq_some_iff :
    unquote s = some x ↔ Reads s x := by
  constructor
  · intro h
    induction hn : s.length using Nat.strong_induction_on generalizing s x with
    | _ n ih =>
        subst hn
        match s, h, ih with
        | [], h, _ =>
            cases h
            exact .nil
        | b :: s, h, ih =>
            by_cases hquote : b = 39
            · subst hquote
              cases s <;> simp [unquote] at h
            by_cases hback : b = 92
            · subst hback
              cases s with
              | nil => simp [unquote] at h
              | cons c s =>
                  by_cases hc : c = 39 ∨ c = 92
                  · rw [unquote_escape hc] at h
                    obtain ⟨y, hy, rfl⟩ := Option.map_eq_some_iff.mp h
                    exact .escape hc (ih s.length (by simp only [List.length_cons]; omega) hy rfl)
                  · have hsimple : Simple c := not_or.mp hc
                    rw [unquote_backslash hsimple] at h
                    obtain ⟨y, hy, rfl⟩ := Option.map_eq_some_iff.mp h
                    exact .backslash hsimple
                      (ih s.length (by simp only [List.length_cons]; omega) hy rfl)
            · rw [unquote_cons ⟨hquote, hback⟩] at h
              obtain ⟨y, hy, rfl⟩ := Option.map_eq_some_iff.mp h
              exact .simple ⟨hquote, hback⟩ (ih s.length (by simp) hy rfl)
  · intro h
    induction h with
    | nil => rfl
    | simple hb _ ih => rw [unquote_cons hb, ih]; rfl
    | backslash hb _ ih => rw [unquote_backslash hb, ih]; rfl
    | escape hb _ ih => rw [unquote_escape hb, ih]; rfl

theorem Reads.functional
    (h : Reads s x) (h' : Reads s y) :
    x = y :=
  Option.some.inj ((unquote_eq_some_iff.mpr h).symm.trans (unquote_eq_some_iff.mpr h'))

theorem Reads.append
    (hs : Reads s x) (ht : Reads t y) :
    Reads (s ++ t) (x ++ y) := by
  induction hs with
  | nil => exact ht
  | simple hb _ ih => exact .simple hb ih
  | backslash hb _ ih => exact .backslash hb ih
  | escape hb _ ih => exact .escape hb ih

/-- A value is no longer than what is written. -/
theorem Reads.length_le
    (h : Reads s x) :
    x.length ≤ s.length := by
  induction h with
  | nil => exact Nat.le_refl 0
  | simple hb _ ih => simpa using ih
  | backslash hb _ ih => simpa using ih
  | escape hb _ ih =>
      simp only [List.length_cons]
      omega

/-- Every quote in a body is behind a backslash. -/
theorem Reads.quote_cases
    {front back rest : Bytes} (h : Reads s x) (hrest : 39 ∉ rest)
    (heq : s ++ 39 :: rest = front ++ 39 :: back) :
    front.getLast? = some 92 ∨ front = s ∧ back = rest := by
  induction h generalizing front with
  | nil =>
      cases front with
      | nil => exact .inr ⟨rfl, (List.cons.inj heq).2.symm⟩
      | cons f front =>
          have htail : rest = front ++ 39 :: back := (List.cons.inj heq).2
          exact absurd (htail ▸ by simp) hrest
  | simple hb _ ih =>
      cases front with
      | nil => exact absurd (List.cons.inj heq).1 hb.1
      | cons f front =>
          obtain ⟨rfl, htail⟩ := List.cons.inj heq
          exact (ih htail).imp (fun hlast => by rw [List.getLast?_cons, hlast]; rfl)
            fun hsame => ⟨by rw [hsame.1], hsame.2⟩
  | backslash _ _ ih | escape _ _ ih =>
      match front, heq with
      | [], heq => exact absurd (List.cons.inj heq).1 (by decide)
      | [f], heq => exact .inl (by rw [← (List.cons.inj heq).1]; rfl)
      | f :: g :: front, heq =>
          obtain ⟨rfl, hnext⟩ := List.cons.inj heq
          obtain ⟨rfl, htail⟩ := List.cons.inj hnext
          exact (ih htail).imp
            (fun hlast => by rw [List.getLast?_cons, List.getLast?_cons, hlast]; rfl)
            fun hsame => ⟨by rw [hsame.1], hsame.2⟩

/-- A body ends at the first quote that is not behind a backslash. -/
theorem Reads.unique
    {rest rest' : Bytes} (hs : Reads s x) (ht : Reads t y)
    (heq : s ++ 39 :: rest = t ++ 39 :: rest') :
    s = t ∧ rest = rest' := by
  induction hs generalizing t y with
  | nil =>
      cases ht with
      | nil => exact ⟨rfl, (List.cons.inj heq).2⟩
      | simple hb _ => exact absurd (List.cons.inj heq).1.symm hb.1
      | backslash | escape => exact absurd (List.cons.inj heq).1 (by decide)
  | simple hb _ ih =>
      cases ht with
      | nil => exact absurd (List.cons.inj heq).1 hb.1
      | simple _ ht =>
          obtain ⟨rfl, htail⟩ := List.cons.inj heq
          obtain ⟨rfl, hrest⟩ := ih ht htail
          exact ⟨rfl, hrest⟩
      | backslash | escape => exact absurd (List.cons.inj heq).1 hb.2
  | backslash hb _ ih | escape hb _ ih =>
      cases ht with
      | nil => exact absurd (List.cons.inj heq).1 (by decide)
      | simple hc _ => exact absurd (List.cons.inj heq).1.symm hc.2
      | backslash _ ht | escape _ ht =>
          obtain ⟨-, hnext⟩ := List.cons.inj heq
          obtain ⟨rfl, htail⟩ := List.cons.inj hnext
          obtain ⟨rfl, hrest⟩ := ih ht htail
          exact ⟨rfl, hrest⟩

theorem run_single
    {b : UInt8} (hb : Simple b) (v rest : Bytes) :
    lexer.run (.single v false) (b :: rest) = lexer.run (.single (v ++ [b]) false) rest := by
  have hstep : lexer.step (.single v false) b = ([], .single (v ++ [b]) false) := by
    simp [lexer, step, hb.1, hb.2]
  rw [Lexer.run_cons, hstep]
  rfl

theorem run_single_backslash
    (b : UInt8) (v rest : Bytes) :
    lexer.run (.single v false) (92 :: b :: rest) =
      lexer.run (.single (v ++ [92, b]) false) rest := by
  have hback : lexer.step (.single v false) 92 = ([], .single (v ++ [92]) true) := rfl
  have hnext : lexer.step (.single (v ++ [92]) true) b =
      ([], .single (v ++ [92] ++ [b]) false) := rfl
  rw [Lexer.run_cons, hback, Lexer.run_cons, hnext, List.append_assoc]
  rfl

/-- A body is collected up to its quote. -/
theorem Reads.run
    (h : Reads s x) (v rest : Bytes) :
    lexer.run (.single v false) (s ++ 39 :: rest) =
      (.literal (v ++ s) :: (lexer.run .code rest).1, (lexer.run .code rest).2) := by
  induction h generalizing v with
  | nil =>
      rw [List.append_nil]
      rfl
  | simple hb _ ih => rw [List.cons_append, run_single hb, ih, List.append_assoc]; rfl
  | backslash _ _ ih | escape _ _ ih =>
      rw [List.cons_append, List.cons_append, run_single_backslash, ih, List.append_assoc]
      rfl

end Literals

section Plain

variable {s x : Bytes}

/-- A text that denotes itself between single quotes. -/
def Plain (s : Bytes) : Prop :=
  39 ∉ s ∧ ¬ [92, 92] <:+: s ∧ s.getLast? ≠ some 92

theorem Plain.tail
    {b : UInt8} (h : Plain (b :: s)) :
    Plain s := by
  refine ⟨fun hmem => h.1 (List.mem_cons_of_mem b hmem),
    fun hin => h.2.1 (hin.trans (List.suffix_cons b s).isInfix), fun hlast => h.2.2 ?_⟩
  rw [List.getLast?_cons, hlast]
  rfl

theorem Reads.plain
    (h : Reads s x) (hsame : x = s) :
    Plain s := by
  have htwo : ∀ {b : UInt8} {s : Bytes}, b ≠ 92 → ¬ [92, 92] <:+: s → ¬ [92, 92] <:+: b :: s :=
    fun hb hs hin => (List.infix_cons_iff.mp hin).elim
      (fun hfront => hb (List.cons_prefix_cons.mp hfront).1.symm) hs
  have hend : ∀ {b : UInt8} {s : Bytes}, b ≠ 92 → s.getLast? ≠ some 92 →
      (b :: s).getLast? ≠ some 92 := by
    intro b s hb hs hlast
    cases s with
    | nil => exact hb (Option.some.inj hlast)
    | cons c s => exact hs (List.getLast?_cons_cons ▸ hlast)
  induction h with
  | nil => exact ⟨List.not_mem_nil, by simp, nofun⟩
  | simple hb h ih =>
      obtain ⟨hquote, hback, hlast⟩ := ih (List.cons.inj hsame).2
      exact ⟨by simp [Ne.symm hb.1, hquote], htwo hb.2 hback, hend hb.2 hlast⟩
  | @backslash b s x hb h ih =>
      obtain ⟨hquote, hback, hlast⟩ := ih (List.cons.inj (List.cons.inj hsame).2).2
      refine ⟨by simp [Ne.symm hb.1, hquote], fun hin => ?_, ?_⟩
      · rcases List.infix_cons_iff.mp hin with hfront | hin
        · have hsecond := (List.cons_prefix_cons.mp hfront).2
          exact hb.2 (List.cons_prefix_cons.mp hsecond).1.symm
        · exact htwo hb.2 hback hin
      · rw [List.getLast?_cons_cons]
        exact hend hb.2 hlast
  | escape _ h _ =>
      have hlength := congrArg List.length hsame
      have hle := h.length_le
      simp only [List.length_cons] at hlength
      omega

theorem Plain.reads
    (h : Plain s) :
    Reads s s := by
  induction hn : s.length using Nat.strong_induction_on generalizing s with
  | _ n ih =>
      subst hn
      match s, h, ih with
      | [], _, _ => exact .nil
      | b :: s, h, ih =>
          have hquote : b ≠ 39 := fun heq => h.1 (heq ▸ List.mem_cons_self)
          by_cases hback : b = 92
          · subst hback
            cases s with
            | nil => exact absurd rfl h.2.2
            | cons c s =>
                have hc : Simple c := by
                  refine ⟨fun heq => h.1 (by simp [heq]), fun heq => h.2.1 ?_⟩
                  rw [heq]
                  exact (List.prefix_append [92, 92] s).isInfix
                exact .backslash hc
                  (ih s.length (by simp only [List.length_cons]; omega) h.tail.tail rfl)
          · exact .simple ⟨hquote, hback⟩ (ih s.length (by simp) h.tail rfl)

theorem simple_of_not_mem
    (hquote : 39 ∉ s) (hback : 92 ∉ s) :
    ∀ b ∈ s, Simple b :=
  fun _ hb => ⟨ne_of_mem_of_not_mem hb hquote, ne_of_mem_of_not_mem hb hback⟩

theorem reads_of_simple
    (h : ∀ b ∈ s, Simple b) :
    Reads s s := by
  induction s with
  | nil => exact .nil
  | cons b s ih =>
      obtain ⟨hb, hs⟩ := List.forall_mem_cons.mp h
      exact .simple hb (ih hs)

end Plain

section Escape

variable {pat new value : Bytes}

def escapeByte (b : UInt8) : Bytes :=
  if b = 39 ∨ b = 92 then [92, b] else [b]

/-- The body that denotes a text. -/
def escape (s : Bytes) : Bytes :=
  s.flatMap escapeByte

theorem escape_cons
    (b : UInt8) (s : Bytes) :
    escape (b :: s) = escapeByte b ++ escape s := rfl

theorem Reads.escapeByte
    {s x : Bytes} (h : Reads s x) (b : UInt8) :
    Reads (escapeByte b ++ s) (b :: x) := by
  unfold PhpText.escapeByte
  split
  · rename_i hb
    exact .escape hb h
  · rename_i hb
    exact .simple (not_or.mp hb) h

theorem escape_reads
    (x : Bytes) :
    Reads (escape x) x := by
  induction x with
  | nil => exact .nil
  | cons b x ih => exact ih.escapeByte b

theorem escape_of_simple
    {s : Bytes} (h : ∀ b ∈ s, Simple b) :
    escape s = s := by
  induction s with
  | nil => rfl
  | cons b s ih =>
      obtain ⟨hb, hs⟩ := List.forall_mem_cons.mp h
      have hbyte : PhpText.escapeByte b = [b] := if_neg (not_or.mpr hb)
      rw [escape_cons, hbyte, ih hs]
      rfl

theorem escape_append
    (s t : Bytes) :
    escape (s ++ t) = escape s ++ escape t :=
  List.flatMap_append

/-- A simple pattern is at the front of an escaped text only if it is at that of the text. -/
theorem isPrefix_escape
    (hpat : ∀ b ∈ pat, Simple b) {s : Bytes} (h : pat <+: escape s) :
    pat <+: s := by
  induction pat generalizing s with
  | nil => exact List.nil_prefix
  | cons a pat ih =>
      obtain ⟨ha, hpat⟩ := List.forall_mem_cons.mp hpat
      cases s with
      | nil => exact absurd (List.prefix_nil.mp h) nofun
      | cons b s =>
          rw [escape_cons, PhpText.escapeByte] at h
          split at h
          · exact absurd (List.cons_prefix_cons.mp h).1 ha.2
          · obtain ⟨rfl, htail⟩ := List.cons_prefix_cons.mp h
            exact List.cons_prefix_cons.mpr ⟨rfl, ih hpat htail⟩

/-- A simple pattern is replaced in an escaped text where it is in the text. -/
theorem replace_escape_rec
    {P : Bytes → Bytes → Prop} (hne : pat ≠ []) (hpat : ∀ b ∈ pat, Simple b) (nil : P [] [])
    (found : ∀ s x, P s x → P (new ++ s) (value ++ x))
    (byte : ∀ b s x, P s x → P (escapeByte b ++ s) (b :: x)) (y : Bytes) :
    P (replace pat new (escape y)) (replace pat value y) := by
  induction y using replace_rec hne with
  | nil => exact nil
  | found t ih =>
      rw [escape_append, escape_of_simple hpat, replace_pat hne, replace_pat hne]
      exact found _ _ ih
  | other b t hfront ih =>
      have hbyte := byte b _ _ ih
      rw [replace_cons hfront]
      by_cases hb : b = 39 ∨ b = 92
      · have hnot : ∀ {c : UInt8} {s : Bytes}, c = 39 ∨ c = 92 → ¬ pat <+: c :: s := by
          intro c s hc hin
          obtain ⟨a, p, rfl⟩ := List.exists_cons_of_ne_nil hne
          have ha := hpat a List.mem_cons_self
          obtain rfl := (List.cons_prefix_cons.mp hin).1
          exact hc.elim ha.1 ha.2
        have hescape : PhpText.escapeByte b = [92, b] := if_pos hb
        rw [hescape] at hbyte
        rw [escape_cons, hescape]
        have htwo : replace pat new ([92, b] ++ escape t) =
            [92, b] ++ replace pat new (escape t) := by
          rw [List.cons_append, replace_cons (hnot (.inr rfl)), List.singleton_append,
            replace_cons (hnot hb)]
          rfl
        rw [htwo]
        exact hbyte
      · have hescape : PhpText.escapeByte b = [b] := if_neg hb
        have hescaped : escape (b :: t) = b :: escape t := by
          rw [escape_cons, hescape]
          rfl
        rw [hescape] at hbyte
        rw [hescaped, replace_cons fun hin => hfront (isPrefix_escape hpat (hescaped ▸ hin))]
        exact hbyte

/-- Escaping in advance. -/
theorem replace_escape
    (hne : pat ≠ []) (hpat : ∀ b ∈ pat, Simple b) (value y : Bytes) :
    replace pat (escape value) (escape y) = escape (replace pat value y) := by
  refine replace_escape_rec (P := fun s x => s = escape x) hne hpat rfl ?_ ?_ y
  · intro s x h
    rw [h, escape_append]
  · intro b s x h
    rw [h, escape_cons]

/-- A body put into a body. -/
theorem Reads.replace
    (hne : pat ≠ []) (hpat : ∀ b ∈ pat, Simple b) (h : Reads new value) (y : Bytes) :
    Reads (ByteString.replace pat new (PhpText.escape y)) (ByteString.replace pat value y) :=
  replace_escape_rec (P := Reads) hne hpat .nil (fun _ _ hs => h.append hs)
    (fun b _ _ hs => hs.escapeByte b) y

end Escape

end PhpText
