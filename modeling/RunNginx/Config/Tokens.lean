import RunNginx.Lib.Parse
import RunNginx.Config.Types

/-!
# Tokens of the configuration

The tokenizer, and the readers of single tokens, words and blocks that the parser of
the configuration is made of.  A word may be quoted; in quotes a backslash takes the
next character as it is, and the end of the line ends the word.
-/

namespace RunNginx
namespace ConfigParser

open ByteString

inductive Token
  | word (text : Bytes)
  | semicolon
  | openBrace
  | closeBrace
deriving DecidableEq, Repr

/-- Where the tokenizer is: between tokens or inside one. -/
inductive Scan
  | between
  | comment
  | word (text : Bytes)
  | quoted (quote : UInt8) (text : Bytes)
  | escaped (quote : UInt8) (text : Bytes)

def isAsciiWhitespace (c : UInt8) : Bool :=
  c == 32 || c == 9 || c == 10 || c == 12 || c == 13

/-- A byte that ends an unquoted word. -/
def endsWord (c : UInt8) : Bool :=
  isAsciiWhitespace c || c == 59 || c == 123 || c == 125 || c == 35

/-- What a byte between two tokens starts, and the token it is by itself. -/
def scanStart (c : UInt8) : List Token × Scan :=
  if isAsciiWhitespace c then ([], .between)
  else if c = 35 then ([], .comment)
  else if c = 59 then ([.semicolon], .between)
  else if c = 123 then ([.openBrace], .between)
  else if c = 125 then ([.closeBrace], .between)
  else if c = 34 ∨ c = 39 then ([], .quoted c [])
  else ([], .word [c])

/-- The tokens of a text, from a place in one. -/
def tokenizeFrom : Scan → Bytes → List Token
  | .between, [] => []
  | .comment, [] => []
  | .word text, [] => [.word text]
  | .quoted _ text, [] => [.word text]
  | .escaped _ text, [] => [.word text]
  | .between, c :: s => (scanStart c).1 ++ tokenizeFrom (scanStart c).2 s
  | .comment, c :: s => tokenizeFrom (if c = 10 then .between else .comment) s
  | .word text, c :: s =>
      if endsWord c then .word text :: (scanStart c).1 ++ tokenizeFrom (scanStart c).2 s
      else tokenizeFrom (.word (text ++ [c])) s
  | .quoted q text, c :: s =>
      if c = 10 ∨ c = q then .word text :: tokenizeFrom .between s
      else if c = 92 then tokenizeFrom (.escaped q text) s
      else tokenizeFrom (.quoted q (text ++ [c])) s
  | .escaped q text, c :: s => tokenizeFrom (.quoted q (text ++ [c])) s

def tokenize (src : Bytes) : List Token :=
  tokenizeFrom .between src

/-- The blocks of a configuration file. -/
inductive Block
  | http
  | server
  | location
deriving DecidableEq, Repr

/-- Why a configuration is refused. -/
inductive ConfigError
  | expectedWord (got : Option Token)
  | expectedSemicolon (got : Option Token)
  | expectedBrace (got : Option Token)
  | unexpectedToken (block : Block) (got : Token)
  /-- A number that does not parse, in this directive. -/
  | invalidNumber (directive : Bytes)
  | invalidSize (directive text : Bytes)
  | tooManyServers
  | tooManyLocations
  | includeDepth
  | unreadable (path : Bytes)
  | emptyPattern
  | unknownModifier (modifier : Bytes)
  | tooManyPatternTokens (args : List Bytes)
  | invalidRegex (source : Bytes)
  | rootNullByte
  | rootParentDir
  | invalidListen (addr : Bytes)
  | invalidProxyUrl (url : Bytes)
  | proxyScheme (url : Bytes)
  | proxyUnspecified (url : Bytes)
  | proxyBlockedHost (url : Bytes)
  | invalidFastcgiPass (addr : Bytes)
deriving DecidableEq, Repr

/-- A parser of configuration tokens. -/
abbrev Parser (α : Type) : Type :=
  Parse Token ConfigError α

/-- The text of a word at the front. -/
def wordOf : Option Token → Option Bytes
  | some (.word w) => some w
  | _ => none

def expectWord : Parser Bytes := do
  let t ← Parse.peek
  match wordOf t with
  | some w => do
      Parse.advance
      return w
  | none => Parse.fail (.expectedWord t)

def expectSemi : Parser Unit := do
  let t ← Parse.peek
  if t = some .semicolon then Parse.advance else Parse.fail (.expectedSemicolon t)

def expectOpen : Parser Unit := do
  let t ← Parse.peek
  if t = some .openBrace then Parse.advance else Parse.fail (.expectedBrace t)

/-- The words in front of the first token that is none. -/
def leadingWords : List Token → List Bytes
  | .word w :: ts => w :: leadingWords ts
  | _ => []

/-- The tokens behind these words. -/
def behindWords : List Token → List Token
  | .word _ :: ts => behindWords ts
  | ts => ts

theorem behindWords_length
    (ts : List Token) :
    (behindWords ts).length ≤ ts.length := by
  induction ts with
  | nil => simp [behindWords]
  | cons t ts ih =>
      cases t with
      | word w =>
          rw [behindWords, List.length_cons]
          omega
      | semicolon => simp [behindWords]
      | openBrace => simp [behindWords]
      | closeBrace => simp [behindWords]

/-- Collect words up to a token that is none. -/
def collectArgs : Parser (List Bytes) :=
  fun ts => .ok (leadingWords ts, ⟨behindWords ts, behindWords_length ts⟩)

/-- The tokens behind the block whose opening brace was read, at this depth. -/
def behindBlock : Nat → List Token → List Token
  | 0, ts => ts
  | _ + 1, [] => []
  | depth + 1, .openBrace :: ts => behindBlock (depth + 2) ts
  | depth + 1, .closeBrace :: ts => behindBlock depth ts
  | depth + 1, _ :: ts => behindBlock (depth + 1) ts

theorem behindBlock_length
    (depth : Nat) (ts : List Token) :
    (behindBlock depth ts).length ≤ ts.length := by
  induction ts generalizing depth with
  | nil => cases depth <;> simp [behindBlock]
  | cons t ts ih =>
      cases depth with
      | zero => simp [behindBlock]
      | succ depth =>
          cases t with
          | openBrace => exact Nat.le_succ_of_le (ih _)
          | closeBrace => exact Nat.le_succ_of_le (ih _)
          | word w => exact Nat.le_succ_of_le (ih _)
          | semicolon => exact Nat.le_succ_of_le (ih _)

/-- Skip an entire block, including nested blocks. -/
def skipBlock : Parser Unit :=
  fun ts => .ok ((), ⟨behindBlock 1 ts, behindBlock_length 1 ts⟩)

/-- Pass over a word, where there is one. -/
def skipWord : Parser Unit := do
  let t ← Parse.peek
  if (wordOf t).isSome then Parse.advance else return ()

/-- Pass over the rest of a directive that is not known. -/
def skipDirective : Parser Unit := do
  let _ ← collectArgs
  let t ← Parse.peek
  match t with
  | some .semicolon => Parse.advance
  | some .openBrace => do
      Parse.advance
      skipBlock
  | _ => return ()

section Directives

variable {σ : Type}

/-- Directives by name; each reads its arguments and goes on from a state. -/
abbrev Directives (σ : Type) : Type :=
  List (Bytes × (σ → Parser σ))

/-- Read the directive of a name. -/
def runDirective (table : Directives σ) (other : σ → Parser σ) (name : Bytes) (s : σ) :
    Parser σ :=
  ((table.lookup name).getD other) s

/-- Skip a directive that a block does not know. -/
def unknownDirective (s : σ) : Parser σ := do
  skipDirective
  return s

/-- The head of a directive in a block that ends at its brace. -/
def blockHead (block : Block) (_ : σ) : Token → Parse.Head Bytes ConfigError
  | .word w => .item w
  | .closeBrace => .close
  | t => .bad (.unexpectedToken block t)

/-- Read the directives of a block up to its brace. -/
def parseBlock (block : Block) (table : Directives σ) (s : σ) : Parser σ :=
  Parse.block (blockHead block) (runDirective table unknownDirective) s

/-- The directives that `parseBlock` reads, each with the tokens behind its name. -/
def blockItems (block : Block) (table : Directives σ) (s : σ) (ts : List Token) :
    List (Bytes × List Token) :=
  Parse.items (blockHead block) (runDirective table unknownDirective) s ts

theorem runDirective_cases
    (table : Directives σ) (other : σ → Parser σ) (name : Bytes) (s : σ)
    {P : (σ → Parser σ) → Prop}
    (hknown : ∀ d, (name, d) ∈ table → P d)
    (hother : name ∉ table.map Prod.fst → P other) :
    ∃ d, P d ∧ runDirective table other name s = d s := by
  unfold runDirective
  cases h : table.lookup name with
  | some d =>
      obtain ⟨before, after, htable, _⟩ := List.lookup_eq_some_iff.mp h
      exact ⟨d, hknown d (by simp [htable]), rfl⟩
  | none =>
      refine ⟨other, hother ?_, rfl⟩
      intro hmem
      obtain ⟨entry, hentry, hname⟩ := List.mem_map.mp hmem
      have := List.lookup_eq_none_iff.mp h entry hentry
      simp [hname] at this

end Directives

end ConfigParser
end RunNginx
