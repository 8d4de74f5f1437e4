import RunNginx.Config.Files
import RunNginx.Lib.EarlyReturn
import RunNginx.Lib.Reading

/-!
# Shapes of directives

A directive without a block is a row of words and a semicolon.  `IsSimple` says that a
parser reads exactly such a row, and what it makes of the words: one rule for each of the
combinators that directives are built from, and one for each directive with a parser of
its own.
-/

namespace RunNginx
namespace ConfigParser

open ByteString Parse

/-- A row of words. -/
def words (args : List Bytes) : List Token :=
  args.map .word

@[simp] theorem words_nil : words [] = [] := rfl

@[simp] theorem words_cons (w : Bytes) (args : List Bytes) :
    words (w :: args) = .word w :: words args := rfl

@[simp] theorem words_append (args more : List Bytes) :
    words (args ++ more) = words args ++ words more :=
  List.map_append

/-- No word stands at the front. -/
def NoWord (ts : List Token) : Prop :=
  ∀ w, ts.head? ≠ some (.word w)

theorem noWord_nil : NoWord [] := by
  intro w h
  cases h

theorem noWord_semicolon (ts : List Token) : NoWord (.semicolon :: ts) := by
  intro w h
  cases h

theorem noWord_openBrace (ts : List Token) : NoWord (.openBrace :: ts) := by
  intro w h
  cases h

theorem noWord_closeBrace (ts : List Token) : NoWord (.closeBrace :: ts) := by
  intro w h
  cases h

/-- The words at the front are determined by what is no word. -/
theorem words_append_inj
    {args args' : List Bytes} {ts ts' : List Token}
    (hts : NoWord ts) (hts' : NoWord ts')
    (h : words args ++ ts = words args' ++ ts') :
    args = args' ∧ ts = ts' := by
  induction args generalizing args' with
  | nil =>
      cases args' with
      | nil => exact ⟨rfl, h⟩
      | cons w args' =>
          refine absurd ?_ (hts w)
          rw [List.nil_append ts |>.symm.trans h]
          rfl
  | cons w args ih =>
      cases args' with
      | nil =>
          refine absurd ?_ (hts' w)
          rw [List.nil_append ts' |>.symm.trans h.symm]
          rfl
      | cons w' args' =>
          simp only [words_cons, List.cons_append, List.cons.injEq, Token.word.injEq] at h
          obtain ⟨rfl, h⟩ := h
          obtain ⟨rfl, rfl⟩ := ih h
          exact ⟨rfl, rfl⟩

/-! ### Single tokens -/

theorem reads_expectWord_iff
    {ts rest : List Token} {v : Bytes} :
    Reads expectWord ts v rest ↔ ts = .word v :: rest := by
  simp only [expectWord, reads_bind_iff, reads_peek_iff]
  constructor
  · rintro ⟨t, mid, ⟨rfl, rfl⟩, h⟩
    cases mid with
    | nil => simp [wordOf, reads_fail_iff] at h
    | cons t ts =>
        cases t with
        | word w =>
            simp only [List.head?_cons, wordOf, reads_bind_iff, reads_advance_iff,
              reads_pure_iff] at h
            obtain ⟨_, mid, rfl, rfl, rfl⟩ := h
            rfl
        | semicolon => simp [wordOf, reads_fail_iff] at h
        | openBrace => simp [wordOf, reads_fail_iff] at h
        | closeBrace => simp [wordOf, reads_fail_iff] at h
  · rintro rfl
    refine ⟨_, _, ⟨rfl, rfl⟩, ?_⟩
    simp only [List.head?_cons, wordOf, reads_bind_iff, reads_advance_iff, reads_pure_iff]
    exact ⟨(), rest, rfl, trivial, rfl⟩

theorem reads_token_iff
    {p : Parser Unit} {t : Token}
    (hp : p = (do
      let t' ← Parse.peek
      if t' = some t then Parse.advance else Parse.fail (.expectedSemicolon t')) ∨
      p = (do
      let t' ← Parse.peek
      if t' = some t then Parse.advance else Parse.fail (.expectedBrace t')))
    {ts rest : List Token} {u : Unit} :
    Reads p ts u rest ↔ ts = t :: rest := by
  have hread : ∀ e : Option Token → ConfigError, Reads (do
      let t' ← Parse.peek
      if t' = some t then Parse.advance else Parse.fail (e t') : Parser Unit) ts u rest ↔
        ts = t :: rest := by
    intro e
    simp only [reads_bind_iff, reads_peek_iff]
    constructor
    · rintro ⟨t', mid, ⟨rfl, rfl⟩, h⟩
      split at h
      · rename_i hhead
        obtain ⟨ts, rfl⟩ := List.head?_eq_some_iff.mp hhead
        rw [reads_advance_iff.mp h]
        rfl
      · exact absurd h reads_fail_iff.mp
    · rintro rfl
      refine ⟨_, _, ⟨rfl, rfl⟩, ?_⟩
      rw [List.head?_cons, if_pos rfl, reads_advance_iff]
      rfl
  rcases hp with rfl | rfl
  · exact hread .expectedSemicolon
  · exact hread .expectedBrace

theorem reads_expectSemi_iff
    {ts rest : List Token} {u : Unit} :
    Reads expectSemi ts u rest ↔ ts = .semicolon :: rest :=
  reads_token_iff (.inl rfl)

theorem reads_expectOpen_iff
    {ts rest : List Token} {u : Unit} :
    Reads expectOpen ts u rest ↔ ts = .openBrace :: rest :=
  reads_token_iff (.inr rfl)

theorem behindWords_eq
    (ts : List Token) :
    ts = words (leadingWords ts) ++ behindWords ts ∧ NoWord (behindWords ts) := by
  induction ts with
  | nil => exact ⟨rfl, fun w h => nomatch h⟩
  | cons t ts ih =>
      cases t with
      | word w =>
          refine ⟨?_, ih.2⟩
          rw [leadingWords, behindWords, words_cons, List.cons_append, ← ih.1]
      | semicolon => exact ⟨rfl, noWord_semicolon ts⟩
      | openBrace => exact ⟨rfl, noWord_openBrace ts⟩
      | closeBrace => exact ⟨rfl, noWord_closeBrace ts⟩

theorem reads_collectArgs_iff
    {ts rest : List Token} {args : List Bytes} :
    Reads collectArgs ts args rest ↔ ts = words args ++ rest ∧ NoWord rest := by
  obtain ⟨heq, hno⟩ := behindWords_eq ts
  constructor
  · rintro ⟨hle, h⟩
    cases h
    exact ⟨heq, hno⟩
  · rintro ⟨hts, hrest⟩
    obtain ⟨rfl, rfl⟩ := words_append_inj hno hrest (heq.symm.trans hts)
    exact ⟨behindWords_length ts, rfl⟩

/-- A word that may be missing: what comes before the semicolon is it or nothing. -/
theorem reads_skipWord_semi_iff
    {ts rest : List Token} {u : Unit} :
    Reads (do skipWord; expectSemi : Parser Unit) ts u rest ↔
      ∃ args, ts = words args ++ .semicolon :: rest ∧ args.length ≤ 1 := by
  simp only [reads_bind_iff, reads_expectSemi_iff, skipWord, reads_peek_iff]
  constructor
  · rintro ⟨_, mid, ⟨t, mid', ⟨rfl, rfl⟩, h⟩, rfl⟩
    split at h
    · rename_i hword
      cases mid' with
      | nil => simp [wordOf] at hword
      | cons t ts =>
          cases t with
          | word w =>
              have := reads_advance_iff.mp h
              simp only [List.drop_one, List.tail_cons] at this
              exact ⟨[w], by simp [this], by simp⟩
          | semicolon => simp [wordOf] at hword
          | openBrace => simp [wordOf] at hword
          | closeBrace => simp [wordOf] at hword
    · obtain ⟨-, rfl⟩ := reads_pure_iff.mp h
      exact ⟨[], rfl, by simp⟩
  · rintro ⟨args, rfl, hlength⟩
    match args, hlength with
    | [], _ =>
        refine ⟨(), _, ⟨_, _, ⟨rfl, rfl⟩, ?_⟩, rfl⟩
        exact reads_pure_iff.mpr ⟨rfl, rfl⟩
    | [w], _ =>
        refine ⟨(), _, ⟨_, _, ⟨rfl, rfl⟩, ?_⟩, rfl⟩
        exact reads_advance_iff.mpr rfl

/-! ### Rows of words -/

/-- The parser reads a row of words and a semicolon, and makes a value of the words. -/
def ReadsRow {α : Type} (p : Parser α) (q : List Bytes → Option α) : Prop :=
  ∀ ts a rest, Reads p ts a rest ↔
    ∃ args, ts = words args ++ .semicolon :: rest ∧ q args = some a

/-- The directive reads a row of words and a semicolon, and changes the state by the words. -/
def IsSimple {σ : Type} (d : σ → Parser σ) (f : List Bytes → σ → Option σ) : Prop :=
  ∀ st, ReadsRow (d st) fun args => f args st

section Rows

variable {σ α β : Type}

/-- The parser reads nothing, and gives this value or fails. -/
def ReadsNothing (p : Parser α) (x : Option α) : Prop :=
  ∀ ts a rest, Reads p ts a rest ↔ x = some a ∧ rest = ts

theorem nothing_pure (a : α) : ReadsNothing (pure a) (some a) := by
  intro ts b rest
  rw [reads_pure_iff, Option.some.injEq, eq_comm (a := b)]

theorem nothing_ofExcept
    (x : Except ConfigError α) :
    ReadsNothing (Parse.ofExcept x) x.toOption := by
  intro ts a rest
  rw [reads_ofExcept_iff, EarlyReturn.toOption_eq_some_iff]

theorem nothing_bind
    {p : Parser α} {k : α → Parser β} {x : Option α} {y : α → Option β}
    (h : ReadsNothing p x) (hk : ∀ a, ReadsNothing (k a) (y a)) :
    ReadsNothing (p >>= k) (x.bind y) := by
  intro ts b rest
  simp only [reads_bind_iff, h _ _ _, hk _ _ _ _, Option.bind_eq_some_iff]
  constructor
  · rintro ⟨a, mid, ⟨hx, rfl⟩, hy, rfl⟩
    exact ⟨⟨a, hx, hy⟩, rfl⟩
  · rintro ⟨⟨a, hx, hy⟩, rfl⟩
    exact ⟨a, rest, ⟨hx, rfl⟩, hy, rfl⟩

/-- What follows a row may read nothing more. -/
theorem ReadsRow.bind
    {p : Parser α} {k : α → Parser β} {q : List Bytes → Option α} {x : α → Option β}
    (h : ReadsRow p q) (hk : ∀ a, ReadsNothing (k a) (x a)) :
    ReadsRow (p >>= k) fun args => (q args).bind x := by
  intro ts b rest
  simp only [reads_bind_iff, h _ _ _, hk _ _ _ _]
  constructor
  · rintro ⟨a, mid, ⟨args, rfl, hq⟩, hx, rfl⟩
    exact ⟨args, rfl, Option.bind_eq_some_iff.mpr ⟨a, hq, hx⟩⟩
  · rintro ⟨args, rfl, hb⟩
    obtain ⟨a, hq, hx⟩ := Option.bind_eq_some_iff.mp hb
    exact ⟨a, rest, ⟨args, rfl, hq⟩, hx, rfl⟩

/-- Words and a semicolon. -/
theorem row_words
    {k : List Bytes → Parser α} {x : List Bytes → Option α}
    (hk : ∀ args, ReadsNothing (k args) (x args)) :
    ReadsRow (do
      let args ← collectArgs
      expectSemi
      k args) x := by
  intro ts a rest
  simp only [reads_bind_iff, reads_collectArgs_iff, reads_expectSemi_iff, hk _ _ _ _]
  constructor
  · rintro ⟨args, mid, ⟨rfl, -⟩, _, mid', rfl, hx, rfl⟩
    exact ⟨args, rfl, hx⟩
  · rintro ⟨args, rfl, hx⟩
    exact ⟨args, _, ⟨rfl, noWord_semicolon rest⟩, (), rest, rfl, hx, rfl⟩

/-- The value of a row that starts with a word. -/
def firstArg (q : Bytes → List Bytes → Option α) : List Bytes → Option α
  | [] => none
  | v :: args => q v args

/-- A word before a row makes a longer row. -/
theorem ReadsRow.word
    {p : Bytes → Parser α} {q : Bytes → List Bytes → Option α}
    (h : ∀ v, ReadsRow (p v) (q v)) :
    ReadsRow (expectWord >>= p) (firstArg q) := by
  intro ts a rest
  simp only [reads_bind_iff, reads_expectWord_iff, h _ _ _ _]
  constructor
  · rintro ⟨v, mid, rfl, args, rfl, hq⟩
    exact ⟨v :: args, rfl, hq⟩
  · rintro ⟨args, rfl, hq⟩
    cases args with
    | nil => cases hq
    | cons v args => exact ⟨v, _, rfl, args, rfl, hq⟩

/-- A value that is looked at before the rest of the row. -/
theorem ReadsRow.check
    {x : Except ConfigError β} {p : β → Parser α} {q : β → List Bytes → Option α}
    (h : ∀ b, ReadsRow (p b) (q b)) :
    ReadsRow (Parse.ofExcept x >>= p) fun args => x.toOption.bind fun b => q b args := by
  intro ts a rest
  simp only [reads_bind_iff, reads_ofExcept_iff]
  constructor
  · rintro ⟨b, mid, ⟨hx, rfl⟩, hp⟩
    obtain ⟨args, rfl, hq⟩ := (h b _ _ _).mp hp
    exact ⟨args, rfl, by simp [hx, Except.toOption, hq]⟩
  · rintro ⟨args, rfl, hq⟩
    obtain ⟨b, hx, hq⟩ := Option.bind_eq_some_iff.mp hq
    exact ⟨b, _, ⟨EarlyReturn.toOption_eq_some_iff.mp hx, rfl⟩, (h b _ _ _).mpr ⟨args, rfl, hq⟩⟩

/-- The value of a row without words. -/
def noArgs (x : Option α) : List Bytes → Option α
  | [] => x
  | _ :: _ => none

/-- The value of a row of one word at most. -/
def atMostOneArg (x : Option α) : List Bytes → Option α
  | [] => x
  | [_] => x
  | _ => none

/-- A semicolon alone is an empty row. -/
theorem row_semi
    {k : Parser α} {x : Option α}
    (hk : ReadsNothing k x) :
    ReadsRow (do
      expectSemi
      k) (noArgs x) := by
  intro ts a rest
  simp only [reads_bind_iff, reads_expectSemi_iff, hk _ _ _]
  constructor
  · rintro ⟨_, mid, rfl, hx, rfl⟩
    exact ⟨[], rfl, hx⟩
  · rintro ⟨args, rfl, hx⟩
    cases args with
    | nil => exact ⟨(), rest, rfl, hx, rfl⟩
    | cons w args => cases hx

/-- A semicolon, and a word before it that is passed over. -/
theorem row_skipWord
    {k : Parser α} {x : Option α}
    (hk : ReadsNothing k x) :
    ReadsRow (do
      skipWord
      expectSemi
      k) (atMostOneArg x) := by
  intro ts a rest
  have hskip := @reads_skipWord_semi_iff ts
  simp only [reads_bind_iff] at hskip
  simp only [reads_bind_iff, hk _ _ _]
  constructor
  · rintro ⟨_, mid, hword, _, mid', hsemi, hx, rfl⟩
    obtain ⟨args, rfl, hlength⟩ := hskip.mp ⟨_, _, hword, hsemi⟩
    refine ⟨args, rfl, ?_⟩
    match args, hlength with
    | [], _ => exact hx
    | [w], _ => exact hx
  · rintro ⟨args, rfl, h⟩
    have hlength : args.length ≤ 1 ∧ x = some a := by
      match args, h with
      | [], h => exact ⟨by simp, h⟩
      | [w], h => exact ⟨by simp, h⟩
    obtain ⟨_, mid, hword, hsemi⟩ := (@hskip rest ()).mpr ⟨args, rfl, hlength.1⟩
    exact ⟨_, mid, hword, (), rest, hsemi, hlength.2, rfl⟩

/-- The value of a row that may start with a word. -/
def optionalArg (q : Bytes → List Bytes → Option α) (q' : List Bytes → Option α) :
    List Bytes → Option α
  | [] => q' []
  | v :: args => q v args

/-- A row that goes on by its first word, where there is one. -/
theorem row_optional
    {p : Bytes → Parser α} {p' : Parser α} {q : Bytes → List Bytes → Option α}
    {q' : List Bytes → Option α}
    (h : ∀ v, ReadsRow (p v) (q v)) (h' : ReadsRow p' q') :
    ReadsRow (do
      let t ← Parse.peek
      match wordOf t with
      | some v => do
          Parse.advance
          p v
      | none => p') (optionalArg q q') := by
  intro ts a rest
  simp only [reads_bind_iff, reads_peek_iff]
  constructor
  · rintro ⟨t, mid, ⟨rfl, rfl⟩, hread⟩
    cases hword : wordOf mid.head? with
    | some v =>
        obtain ⟨ts, rfl⟩ : ∃ ts, mid = .word v :: ts := by
          cases mid with
          | nil => cases hword
          | cons t ts =>
              cases t with
              | word w =>
                  cases hword
                  exact ⟨ts, rfl⟩
              | semicolon => cases hword
              | openBrace => cases hword
              | closeBrace => cases hword
        simp only [hword, reads_bind_iff, reads_advance_iff, List.drop_one, List.tail_cons] at hread
        obtain ⟨_, mid, rfl, hread⟩ := hread
        obtain ⟨args, rfl, hq⟩ := (h v _ _ _).mp hread
        exact ⟨v :: args, rfl, hq⟩
    | none =>
        simp only [hword] at hread
        obtain ⟨args, rfl, hq⟩ := (h' _ _ _).mp hread
        cases args with
        | nil => exact ⟨[], rfl, hq⟩
        | cons v args => cases hword
  · rintro ⟨args, rfl, hq⟩
    refine ⟨_, _, ⟨rfl, rfl⟩, ?_⟩
    cases args with
    | nil => exact (h' _ _ _).mpr ⟨[], rfl, hq⟩
    | cons v args =>
        simp only [words_cons, List.cons_append, List.head?_cons, wordOf, reads_bind_iff,
          reads_advance_iff]
        exact ⟨(), _, rfl, (h v _ _ _).mpr ⟨args, rfl, hq⟩⟩

/-! ### The combinators -/

/-- What a directive of one word does. -/
def oneArg (g : Bytes → σ → Except ConfigError σ) (args : List Bytes) (st : σ) : Option σ :=
  firstArg (fun v => noArgs (g v st).toOption) args

/-- What a directive of two words does. -/
def twoArgs (f : Bytes → Bytes → σ → σ) (args : List Bytes) (st : σ) : Option σ :=
  firstArg (fun key => firstArg fun value => noArgs (some (f key value st))) args

/-- What a directive of any number of words does. -/
def anyArgs (f : List Bytes → σ → σ) (args : List Bytes) (st : σ) : Option σ :=
  some (f args st)

/-- What a directive of one word does that is looked at first. -/
def checkedArg (check : Bytes → Except ConfigError α) (f : α → σ → σ) (args : List Bytes)
    (st : σ) : Option σ :=
  firstArg (fun v => fun args => (check v).toOption.bind fun a => noArgs (some (f a st)) args) args

/-- What a directive does whose words stand for a value. -/
def valueOfArgs (q : List Bytes → Option α) (f : α → σ → σ) (args : List Bytes) (st : σ) :
    Option σ :=
  (q args).map fun a => f a st

theorem simple_oneWord (g : Bytes → σ → Except ConfigError σ) : IsSimple (oneWord g) (oneArg g) :=
  fun _ => ReadsRow.word fun _ => row_semi (nothing_ofExcept _)

theorem reads_oneWord_iff
    {g : Bytes → σ → Except ConfigError σ} {st st' : σ} {ts rest : List Token} :
    Reads (oneWord g st) ts st' rest ↔
      ∃ v, ts = .word v :: .semicolon :: rest ∧ g v st = .ok st' := by
  rw [simple_oneWord g st ts st' rest]
  constructor
  · rintro ⟨args, rfl, hone⟩
    match args, hone with
    | [v], hone => exact ⟨v, rfl, EarlyReturn.toOption_eq_some_iff.mp hone⟩
  · rintro ⟨v, rfl, hone⟩
    exact ⟨[v], rfl, EarlyReturn.toOption_eq_some_iff.mpr hone⟩

theorem simple_twoWords (f : Bytes → Bytes → σ → σ) : IsSimple (twoWords f) (twoArgs f) :=
  fun _ => ReadsRow.word fun _ => ReadsRow.word fun _ => row_semi (nothing_pure _)

theorem simple_anyWords (f : List Bytes → σ → σ) : IsSimple (anyWords f) (anyArgs f) :=
  fun _ => row_words fun _ => nothing_pure _

theorem simple_checkedWord
    (check : Bytes → Except ConfigError α) (f : α → σ → σ) :
    IsSimple (checkedWord check f) (checkedArg check f) :=
  fun _ => ReadsRow.word fun _ => ReadsRow.check fun _ => row_semi (nothing_pure _)

theorem simple_parsed
    {p : Parser α} {q : List Bytes → Option α} (f : α → σ → σ)
    (h : ReadsRow p q) :
    IsSimple (parsed p f) (valueOfArgs q f) := by
  intro st
  have := h.bind (k := fun a => pure (f a st)) fun a => nothing_pure _
  simp only [valueOfArgs, Option.map_eq_bind, Function.comp_def]
  exact this

end Rows

/-! ### Directives with a parser of their own -/

/-- The address, and which keywords stand with it. -/
def listenOf (args : List Bytes) : Option ListenDirective :=
  (parseListenAddr (listenAddrArg args)).toOption.map fun addr =>
    { addr := addr
      tls := args.contains (ascii "ssl")
      http2 := args.contains (ascii "http2")
      defaultServer := args.contains (ascii "default_server") }

theorem row_parseListen : ReadsRow parseListen listenOf := by
  have := row_words (k := fun args => do
      let addr ← Parse.ofExcept (parseListenAddr (listenAddrArg args))
      return {
        addr := addr
        tls := args.contains (ascii "ssl")
        http2 := args.contains (ascii "http2")
        defaultServer := args.contains (ascii "default_server") : ListenDirective })
    fun args => nothing_bind (nothing_ofExcept _) fun addr => nothing_pure _
  unfold listenOf
  simp only [Option.map_eq_bind, Function.comp_def]
  exact this

/-- The log a path stands for. -/
def accessLogOf (val : Bytes) : AccessLog :=
  if val = ascii "off" then .off
  else if val = ascii "stderr" then .stderr
  else .file val

theorem row_parseAccessLog :
    ReadsRow parseAccessLog (firstArg fun val => atMostOneArg (some (accessLogOf val))) :=
  ReadsRow.word fun _ => row_skipWord (nothing_pure _)

/-- The status and the body of a `return`. -/
def returnOf : List Bytes → Option ReturnDirective :=
  firstArg fun first args =>
    (parseNumber Decimal.u16Bound (ascii "return status code") first).toOption.bind fun status =>
      optionalArg
        (fun text => noArgs
          (some ⟨status, if 300 ≤ status ∧ status < 400 then .url text else .text text⟩))
        (noArgs (some ⟨status, .empty⟩)) args

theorem row_parseReturn : ReadsRow parseReturn returnOf :=
  ReadsRow.word fun _ => ReadsRow.check fun _ =>
    row_optional (fun _ => row_semi (nothing_pure _)) (row_semi (nothing_pure _))

/-- The rule of a `rewrite`. -/
def rewriteOf : List Bytes → Option RewriteRule :=
  firstArg fun pattern => firstArg fun replacement =>
    optionalArg (fun flag => noArgs (some ⟨pattern, replacement, parseRewriteFlag flag⟩))
      (noArgs (some ⟨pattern, replacement, .last⟩))

theorem row_parseRewrite : ReadsRow parseRewrite rewriteOf :=
  ReadsRow.word fun _ => ReadsRow.word fun _ =>
    row_optional (fun _ => row_semi (nothing_pure _)) (row_semi (nothing_pure _))

/-- The header of an `add_header`. -/
def addHeaderOf : List Bytes → Option (Bytes × Bytes)
  | [name, value] => some (name, value)
  | [name, value, always] => if always = ascii "always" then some (name, value) else none
  | _ => none

theorem row_parseAddHeader : ReadsRow parseAddHeader addHeaderOf := by
  intro ts a rest
  have hsemi : ∀ name value : Bytes, ReadsRow (do
      expectSemi
      return (name, value)) (noArgs (some (name, value))) :=
    fun name value => row_semi (nothing_pure (name, value))
  simp only [parseAddHeader, reads_bind_iff (p := expectWord), reads_expectWord_iff,
    reads_bind_iff (p := Parse.peek), reads_peek_iff]
  constructor
  · rintro ⟨name, _, rfl, value, _, rfl, t, mid, ⟨rfl, rfl⟩, h⟩
    split at h
    · rename_i halways
      obtain ⟨ts, rfl⟩ := List.head?_eq_some_iff.mp halways
      obtain ⟨_, mid, hadvance, hread⟩ := reads_bind_iff.mp h
      obtain rfl : mid = ts := reads_advance_iff.mp hadvance
      obtain ⟨args, rfl, hargs⟩ := (hsemi name value _ _ _).mp hread
      cases args with
      | nil => exact ⟨[name, value, ascii "always"], rfl, by simpa [addHeaderOf, noArgs] using hargs⟩
      | cons w args => cases hargs
    · obtain ⟨args, rfl, hargs⟩ := (hsemi name value _ _ _).mp h
      cases args with
      | nil => exact ⟨[name, value], rfl, hargs⟩
      | cons w args => cases hargs
  · rintro ⟨args, rfl, h⟩
    match args, h with
    | [name, value], h =>
        refine ⟨name, _, rfl, value, _, rfl, _, _, ⟨rfl, rfl⟩, ?_⟩
        rw [if_neg (fun h => nomatch h)]
        exact (hsemi name value _ _ _).mpr ⟨[], rfl, h⟩
    | [name, value, always], h =>
        simp only [addHeaderOf] at h
        split at h
        · rename_i halways
          subst halways
          refine ⟨name, _, rfl, value, _, rfl, _, _, ⟨rfl, rfl⟩, ?_⟩
          have halways : (words [ascii "always"] ++ .semicolon :: rest).head? =
              some (.word (ascii "always")) := rfl
          refine (if_pos halways).symm ▸ ?_
          exact reads_bind_iff.mpr ⟨(), _, reads_advance_iff.mpr rfl,
            (hsemi name value _ _ _).mpr ⟨[], rfl, h⟩⟩
        · cases h

/-- The seconds of a `keepalive_timeout`. -/
def keepaliveOf : List Bytes → Option Nat :=
  firstArg fun v args =>
    (parseNumber Decimal.u64Bound (ascii "keepalive_timeout") (trimSeconds v)).toOption.bind
      fun n => atMostOneArg (some n) args

theorem row_parseKeepalive : ReadsRow parseKeepalive keepaliveOf :=
  ReadsRow.word fun _ => ReadsRow.check fun _ => row_skipWord (nothing_pure _)

theorem row_parsePeer :
    ReadsRow parsePeer (firstArg fun addr args => some (addr, peerWeight args)) :=
  ReadsRow.word fun _ => row_words fun _ => nothing_pure _

theorem simple_policyDirective
    (policy : Bytes) :
    IsSimple (policyDirective policy) fun args g => noArgs (some { g with policy := policy }) args :=
  fun _ => row_semi (nothing_pure _)

/-! ### Tables -/

section Tables

variable {σ : Type}

/-- What the directives of a table do, by name; those that have a block are left out. -/
abbrev Shapes (σ : Type) : Type :=
  List (Bytes × Option (List Bytes → σ → Option σ))

/-- The directives of the table have these shapes. -/
def HasShapes (table : Directives σ) (shapes : Shapes σ) : Prop :=
  List.Forall₂ (fun d s => d.1 = s.1 ∧ ∀ f, s.2 = some f → IsSimple d.2 f) table shapes

theorem shapes_nil : HasShapes ([] : Directives σ) [] :=
  .nil

theorem shapes_simple
    {name : Bytes} {d : σ → Parser σ} {f : List Bytes → σ → Option σ} {table : Directives σ}
    {shapes : Shapes σ}
    (hd : IsSimple d f) (h : HasShapes table shapes) :
    HasShapes ((name, d) :: table) ((name, some f) :: shapes) :=
  .cons ⟨rfl, fun _ hf => Option.some.inj hf ▸ hd⟩ h

theorem shapes_nested
    {name : Bytes} {d : σ → Parser σ} {table : Directives σ} {shapes : Shapes σ}
    (h : HasShapes table shapes) :
    HasShapes ((name, d) :: table) ((name, none) :: shapes) :=
  .cons ⟨rfl, fun _ hf => nomatch hf⟩ h

/-- A name is in neither list, or it is in both under a directive and its shape. -/
theorem HasShapes.lookup
    {table : Directives σ} {shapes : Shapes σ}
    (h : HasShapes table shapes) (name : Bytes) :
    (table.lookup name = none ∧ shapes.lookup name = none) ∨
      ∃ d s, table.lookup name = some d ∧ shapes.lookup name = some s ∧
        ∀ f, s = some f → IsSimple d f := by
  induction h with
  | nil => exact .inl ⟨rfl, rfl⟩
  | @cons entry shape table shapes hentry _ ih =>
      obtain ⟨key, d⟩ := entry
      obtain ⟨key', s⟩ := shape
      obtain ⟨rfl, hsimple⟩ := hentry
      by_cases hname : name = key
      · subst hname
        exact .inr ⟨d, s, List.lookup_cons_self, List.lookup_cons_self, hsimple⟩
      · rw [List.lookup_cons, List.lookup_cons, beq_false_of_ne hname]
        exact ih

end Tables

section LocationTable

variable (lib : Libraries)

def locationShapes : Shapes LocationReader :=
  [(ascii "root", some <| oneArg fun p st => do
      return { st with root := some (← canonicalizeRoot p) }),
    (ascii "index", some <| anyArgs fun args st => { st with index := some args }),
    (ascii "try_files", some <| anyArgs fun args st => { st with tryFiles := some (parseTryFiles args) }),
    (ascii "proxy_pass", some <| oneArg fun url st => do
      return { st with handler := .proxy (← parseProxyPass lib url) }),
    (ascii "fastcgi_pass", some <| oneArg fun s st => do
      let upstream ← parseFastcgiUpstream s
      return { st with handler := .fastCgi ⟨upstream, [], none, 60, 5⟩ }),
    (ascii "fastcgi_param", some <| twoArgs fun key val =>
      onFastCgi fun fc => { fc with params := fc.params ++ [(key, val)] }),
    (ascii "fastcgi_index", some <| oneArg fun idx st =>
      .ok (onFastCgi (fun fc => { fc with index := some idx }) st)),
    (ascii "fastcgi_read_timeout", some <| oneArg fun v st =>
      .ok (onFastCgi (fun fc => { fc with
        readTimeout := (Decimal.parseUnsigned Decimal.u64Bound (trimSeconds v)).getD 60 }) st)),
    (ascii "proxy_set_header", some <| twoArgs fun key val =>
      onProxy fun pc => { pc with setHeaders := pc.setHeaders ++ [(key, val)] }),
    (ascii "proxy_read_timeout", some <| oneArg fun v st =>
      .ok (onProxy (fun pc => { pc with
        readTimeout := (Decimal.parseUnsigned Decimal.u64Bound (trimSeconds v)).getD 60 }) st)),
    (ascii "proxy_buffering", some <| oneArg fun v st =>
      .ok (onProxy (fun pc => { pc with buffering := v == ascii "on" }) st)),
    (ascii "proxy_allow_internal", some <| oneArg fun v st =>
      .ok (onProxy (fun pc => { pc with allowInternal := v == ascii "on" }) st)),
    (ascii "add_header", some <| valueOfArgs addHeaderOf fun h st =>
      { st with addHeaders := st.addHeaders ++ [h] }),
    (ascii "client_max_body_size", some <| checkedArg parseBodySize fun n st =>
      { st with clientMaxBodySize := some n }),
    (ascii "return", some <| valueOfArgs returnOf fun rd st =>
      { st with returnDirective := some rd, handler := .return rd }),
    (ascii "gzip", some <| oneArg fun v st => .ok { st with gzip := some (v == ascii "on") }),
    (ascii "limit_req", some <| anyArgs fun args st => { st with limitReq := parseLimitReq args }),
    (ascii "rewrite", some <| valueOfArgs rewriteOf fun rule st =>
      { st with rewrites := st.rewrites ++ [rule] }),
    (ascii "auth_basic", some <| oneArg fun realm st =>
      .ok (if realm = ascii "off" then st else { st with authBasicRealm := some realm })),
    (ascii "auth_basic_user_file", some <| oneArg fun file st =>
      .ok { st with authBasicFile := some file })]

theorem locationDirectives_shapes : HasShapes (locationDirectives lib) (locationShapes lib) :=
  shapes_simple (simple_oneWord _) <| shapes_simple (simple_anyWords _) <|
  shapes_simple (simple_anyWords _) <| shapes_simple (simple_oneWord _) <|
  shapes_simple (simple_oneWord _) <| shapes_simple (simple_twoWords _) <|
  shapes_simple (simple_oneWord _) <| shapes_simple (simple_oneWord _) <|
  shapes_simple (simple_twoWords _) <| shapes_simple (simple_oneWord _) <|
  shapes_simple (simple_oneWord _) <| shapes_simple (simple_oneWord _) <|
  shapes_simple (simple_parsed _ row_parseAddHeader) <|
  shapes_simple (simple_checkedWord _ _) <|
  shapes_simple (simple_parsed _ row_parseReturn) <| shapes_simple (simple_oneWord _) <|
  shapes_simple (simple_anyWords _) <| shapes_simple (simple_parsed _ row_parseRewrite) <|
  shapes_simple (simple_oneWord _) <| shapes_simple (simple_oneWord _) shapes_nil

end LocationTable

section ServerTable

/-- What a directive of one word does to the block. -/
def blockArg (f : Bytes → ServerBlock → ServerBlock) : List Bytes → ServerReader → Option ServerReader :=
  oneArg fun v st => .ok (onBlock f v st)

def serverShapes : Shapes ServerReader :=
  [(ascii "listen", some <| valueOfArgs listenOf (onBlock fun d b =>
      { b with listen := b.listen ++ [d] })),
    (ascii "server_name", some <| anyArgs (onBlock fun names b =>
      { b with serverNames := b.serverNames ++ names.map parseServerName })),
    (ascii "root", some <| oneArg fun p st => do
      let root ← canonicalizeRoot p
      return { st with block := { st.block with root := some root } }),
    (ascii "index", some <| anyArgs (onBlock fun args b => { b with index := args })),
    (ascii "access_log", some <| valueOfArgs
      (firstArg fun val => atMostOneArg (some (accessLogOf val)))
      (onBlock fun log b => { b with accessLog := some log })),
    (ascii "client_max_body_size", some <| checkedArg parseBodySize
      (onBlock fun n b => { b with clientMaxBodySize := some n })),
    (ascii "add_header", some <| valueOfArgs addHeaderOf
      (onBlock fun h b => { b with addHeaders := b.addHeaders ++ [h] })),
    (ascii "limit_req", some <| anyArgs
      (onBlock fun args b => { b with limitReq := parseLimitReq args })),
    (ascii "rewrite", some <| valueOfArgs rewriteOf
      (onBlock fun rule b => { b with rewrites := b.rewrites ++ [rule] })),
    (ascii "auth_basic", some <| blockArg withRealm),
    (ascii "auth_basic_user_file", some <| blockArg withUserFile),
    (ascii "error_page", some <| anyArgs (onBlock fun args b =>
      { b with errorPages := b.errorPages ++ (parseErrorPage args).toList })),
    (ascii "return", some <| valueOfArgs returnOf
      (onBlock fun rd b => { b with returnDirective := some rd })),
    (ascii "ssl_certificate", some <| blockArg fun p => withTls fun t => { t with certPath := p }),
    (ascii "ssl_certificate_key", some <| blockArg fun p =>
      withTls fun t => { t with keyPath := p }),
    (ascii "ssl_protocols", some <| anyArgs (onBlock fun args => withTls fun t =>
      { t with minVersion := if args.contains (ascii "TLSv1.2") then .tls12 else .tls13 })),
    (ascii "location", none),
    (ascii "ssl_redirect", some <| blockArg fun v b => { b with sslRedirect := isNotOff v }),
    (ascii "ssl-redirect", some <| blockArg fun v b => { b with sslRedirect := isNotOff v }),
    (ascii "hsts", some <| blockArg fun v b =>
      if isNotOff v then { b with hstsMaxAge := some 31536000 } else b),
    (ascii "hsts_max_age", some <| blockArg fun v b =>
      { b with hstsMaxAge := Decimal.parseUnsigned Decimal.u64Bound v }),
    (ascii "hsts-max-age", some <| blockArg fun v b =>
      { b with hstsMaxAge := Decimal.parseUnsigned Decimal.u64Bound v }),
    (ascii "hsts_include_subdomains", some <| blockArg fun v b =>
      { b with hstsIncludeSubdomains := isNotOff v }),
    (ascii "hsts-include-subdomains", some <| blockArg fun v b =>
      { b with hstsIncludeSubdomains := isNotOff v })]

theorem serverDirectives_shapes
    (lib : Libraries) :
    HasShapes (serverDirectives lib) serverShapes :=
  shapes_simple (simple_parsed _ row_parseListen) <| shapes_simple (simple_anyWords _) <|
  shapes_simple (simple_oneWord _) <| shapes_simple (simple_anyWords _) <|
  shapes_simple (simple_parsed _ row_parseAccessLog) <|
  shapes_simple (simple_checkedWord _ _) <|
  shapes_simple (simple_parsed _ row_parseAddHeader) <| shapes_simple (simple_anyWords _) <|
  shapes_simple (simple_parsed _ row_parseRewrite) <| shapes_simple (simple_oneWord _) <|
  shapes_simple (simple_oneWord _) <| shapes_simple (simple_anyWords _) <|
  shapes_simple (simple_parsed _ row_parseReturn) <| shapes_simple (simple_oneWord _) <|
  shapes_simple (simple_oneWord _) <| shapes_simple (simple_anyWords _) <|
  shapes_nested <| shapes_simple (simple_oneWord _) <| shapes_simple (simple_oneWord _) <|
  shapes_simple (simple_oneWord _) <| shapes_simple (simple_oneWord _) <|
  shapes_simple (simple_oneWord _) <| shapes_simple (simple_oneWord _) <|
  shapes_simple (simple_oneWord _) shapes_nil

end ServerTable

section UpstreamTable

def upstreamShapes : Shapes UpstreamGroupDef :=
  [(ascii "server", some <| valueOfArgs
      (firstArg fun addr args => some (addr, peerWeight args))
      fun peer g => { g with peers := g.peers ++ [peer] }),
    (ascii "least_conn", some fun args g =>
      noArgs (some { g with policy := ascii "least_conn" }) args),
    (ascii "ip_hash", some fun args g => noArgs (some { g with policy := ascii "ip_hash" }) args),
    (ascii "random", some fun args g => noArgs (some { g with policy := ascii "random" }) args),
    (ascii "keepalive", some <| oneArg fun v g =>
      .ok { g with keepalive := (Decimal.parseUnsigned Decimal.usizeBound v).getD 0 }),
    (ascii "fail_timeout", some <| oneArg fun v g =>
      .ok { g with
        failTimeout := (Decimal.parseUnsigned Decimal.u64Bound (trimSeconds v)).getD 30 }),
    (ascii "max_fails", some <| oneArg fun v g =>
      .ok { g with maxFails := (Decimal.parseUnsigned Decimal.u32Bound v).getD 3 }),
    (ascii "health_check", some <| anyArgs fun args g =>
      { g with
        healthInterval := argNumber Decimal.u64Bound 0 (ascii "interval=") args g.healthInterval
        healthTimeout := argNumber Decimal.u64Bound 5 (ascii "timeout=") args g.healthTimeout })]

theorem upstreamDirectives_shapes : HasShapes upstreamDirectives upstreamShapes :=
  shapes_simple (simple_parsed _ row_parsePeer) <| shapes_simple (simple_policyDirective _) <|
  shapes_simple (simple_policyDirective _) <| shapes_simple (simple_policyDirective _) <|
  shapes_simple (simple_oneWord _) <| shapes_simple (simple_oneWord _) <|
  shapes_simple (simple_oneWord _) <| shapes_simple (simple_anyWords _) shapes_nil

end UpstreamTable

section HttpTable

variable (lib : Libraries) (files : ConfigFiles) (configPath : Bytes)

/-- What a directive of one word does to the http block. -/
def httpArg (f : Bytes → HttpBlock → HttpBlock) : List Bytes → HttpReader → Option HttpReader :=
  oneArg fun v st => .ok (onHttp f v st)

def httpShapes : Shapes HttpReader :=
  [(ascii "gzip", some <| httpArg fun v h => { h with gzip := v == ascii "on" }),
    (ascii "gzip_types", some <| anyArgs (onHttp fun args h => { h with gzipTypes := args })),
    (ascii "gzip_min_length", some <| checkedArg (parseSize (ascii "gzip_min_length"))
      (onHttp fun n h => { h with gzipMinLength := n })),
    (ascii "access_log", some <| valueOfArgs
      (firstArg fun val => atMostOneArg (some (accessLogOf val)))
      (onHttp fun log h => { h with accessLog := log })),
    (ascii "client_max_body_size", some <| checkedArg parseBodySize
      (onHttp fun n h => { h with clientMaxBodySize := n })),
    (ascii "keepalive_timeout", some <| valueOfArgs keepaliveOf
      (onHttp fun n h => { h with keepaliveTimeout := n })),
    (ascii "send_timeout", some <| checkedArg
      (fun v => parseNumber Decimal.u64Bound (ascii "send_timeout") (trimSeconds v))
      (onHttp fun n h => { h with sendTimeout := n })),
    (ascii "api_key", some <| httpArg fun v h => { h with apiKey := v }),
    (ascii "webui_admin_user", some <| httpArg fun v h => { h with webuiAdminUser := v }),
    (ascii "webui_admin_password", some <| httpArg fun v h => { h with webuiAdminPassword := v }),
    (ascii "brotli", some <| httpArg fun v h => { h with brotli := v == ascii "on" }),
    (ascii "brotli_types", some <| anyArgs (onHttp fun args h => { h with brotliTypes := args })),
    (ascii "brotli_min_length", some <| checkedArg (parseSize (ascii "brotli_min_length"))
      (onHttp fun n h => { h with brotliMinLength := n })),
    (ascii "limit_req_zone", some <| anyArgs (onHttp fun args h =>
      { h with limitReqZones := h.limitReqZones ++ (parseLimitReqZone lib args).toList })),
    (ascii "upstream", none),
    (ascii "server", none),
    (ascii "include", some <| oneArg fun pattern st =>
      files.forEach configPath pattern (fun st _ tokens => includeServers lib st tokens) st)]

theorem httpDirectives_shapes :
    HasShapes (httpDirectives lib files configPath) (httpShapes lib files configPath) :=
  shapes_simple (simple_oneWord _) <| shapes_simple (simple_anyWords _) <|
  shapes_simple (simple_checkedWord _ _) <|
  shapes_simple (simple_parsed _ row_parseAccessLog) <|
  shapes_simple (simple_checkedWord _ _) <|
  shapes_simple (simple_parsed _ row_parseKeepalive) <|
  shapes_simple (simple_checkedWord _ _) <| shapes_simple (simple_oneWord _) <|
  shapes_simple (simple_oneWord _) <| shapes_simple (simple_oneWord _) <|
  shapes_simple (simple_oneWord _) <| shapes_simple (simple_anyWords _) <|
  shapes_simple (simple_checkedWord _ _) <| shapes_simple (simple_anyWords _) <|
  shapes_nested <| shapes_nested <| shapes_simple (simple_oneWord _) shapes_nil

end HttpTable

section RootTable

variable {σ : Type}

theorem shapes_append
    {table table' : Directives σ} {shapes shapes' : Shapes σ}
    (h : HasShapes table shapes) (h' : HasShapes table' shapes') :
    HasShapes (table ++ table') (shapes ++ shapes') := by
  induction h with
  | nil => exact h'
  | cons hentry _ ih => exact .cons hentry ih

/-- The same shape under several names. -/
def namedShape (names : List Bytes) (f : List Bytes → σ → Option σ) : Shapes σ :=
  names.map fun name => (name, some f)

theorem shapes_named
    {d : σ → Parser σ} {f : List Bytes → σ → Option σ}
    (names : List Bytes) (h : IsSimple d f) :
    HasShapes (named names d) (namedShape names f) := by
  induction names with
  | nil => exact .nil
  | cons name names ih => exact shapes_simple h ih

/-- What a directive of one word does to the configuration. -/
def rootArg (f : Bytes → Config → Config) : List Bytes → Config → Option Config :=
  oneArg fun v cfg => .ok (f v cfg)

variable (lib : Libraries) (files : ConfigFiles) (configPath : Bytes)

def rootShapes (sub : Option (Bytes → List Token → Except ConfigError Config)) : Shapes Config :=
  namedShape [ascii "firewall_manage", ascii "firewall"] (rootArg fun v cfg =>
    { cfg with firewallManage :=
      isOnUnless [ascii "off", ascii "false", ascii "no", ascii "0"] v }) ++
  [(ascii "firewall_backend", some <| rootArg fun v cfg =>
      { cfg with firewallBackend := if v = ascii "auto" then none else some v }),
    (ascii "firewall_tag", some <| rootArg fun v cfg => { cfg with firewallTag := v }),
    (ascii "worker_processes", some <| checkedArg parseWorkerCount fun n cfg =>
      { cfg with workerProcesses := n }),
    (ascii "worker_connections", some <| checkedArg
      (parseNumber Decimal.usizeBound (ascii "worker_connections"))
      fun n cfg => { cfg with workerConnections := n }),
    (ascii "events", none),
    (ascii "http", none),
    (ascii "include", some <| oneArg (handleInclude files configPath sub))] ++
  namedShape [ascii "numa_pin", ascii "numa-pin"] (rootArg fun v cfg =>
    { cfg with numaPin := isOnUnless [ascii "no", ascii "off"] (trimQuotes v) }) ++
  namedShape [ascii "icmp_protection", ascii "icmp-protection"] (rootArg fun v cfg =>
    { cfg with icmpProtection := isNotOff v }) ++
  namedShape [ascii "scan_detection", ascii "scan-detection"] (rootArg fun v cfg =>
    { cfg with scanDetection := isNotOff v }) ++
  namedShape [ascii "scan_window", ascii "scan_detection_window"] (rootArg fun v cfg =>
    { cfg with scanWindowSecs := (Decimal.parseUnsigned Decimal.u64Bound v).getD 60 }) ++
  namedShape [ascii "scan_threshold", ascii "scan_detection_threshold"] (rootArg fun v cfg =>
    { cfg with scanReqThreshold := (Decimal.parseUnsigned Decimal.u64Bound v).getD 100 }) ++
  namedShape [ascii "scan_error_rate", ascii "scan_detection_error_rate"] (rootArg fun v cfg =>
    { cfg with scanErrorRate := (lib.parseFloat v).getD (3 / 5) }) ++
  namedShape [ascii "scan_block", ascii "scan_detection_block"] (rootArg fun v cfg =>
    { cfg with scanBlockSecs := (Decimal.parseUnsigned Decimal.u64Bound v).getD 3600 }) ++
  namedShape [ascii "abuseipdb_key", ascii "scan_detection_abuseipdb_key"] (rootArg fun v cfg =>
    { cfg with scanAbuseipdbKey := some (trimQuotes v) }) ++
  namedShape [ascii "abuseipdb_report", ascii "scan_detection_abuseipdb_report"]
    (rootArg fun v cfg => { cfg with scanAbuseipdbReport := isNotOff v })

theorem rootDirectives_shapes
    (sub : Option (Bytes → List Token → Except ConfigError Config)) :
    HasShapes (rootDirectives lib files configPath sub) (rootShapes lib files configPath sub) := by
  refine shapes_append (shapes_append (shapes_append (shapes_append (shapes_append
    (shapes_append (shapes_append (shapes_append (shapes_append (shapes_append ?_ ?_) ?_) ?_)
      ?_) ?_) ?_) ?_) ?_) ?_) ?_
  rotate_left
  · exact shapes_simple (simple_oneWord _) <|
      shapes_simple (simple_oneWord _) <| shapes_simple (simple_checkedWord _ _) <|
      shapes_simple (simple_checkedWord _ _) <| shapes_nested <| shapes_nested <|
      shapes_simple (simple_oneWord _) shapes_nil
  all_goals exact shapes_named _ (simple_oneWord _)

end RootTable

end ConfigParser
end RunNginx
