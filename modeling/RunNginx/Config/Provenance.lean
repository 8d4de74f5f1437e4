import RunNginx.Config.Files
import RunNginx.Lib.EarlyReturn

/-!
# From blocks back to their text

A block was read from a text, directive by directive, and what its directives keep true
holds of the text and the block.  A directive keeps what it does not name: `Keeps` is that
property, with one rule for each shape of directive.
-/

namespace RunNginx
namespace ConfigParser

open ByteString Parse

section Keeps

variable {σ α : Type}

/-- The directive leaves a property of the state intact. -/
def Keeps (P : σ → Prop) (d : σ → Parser σ) : Prop :=
  ∀ st, P st → Gives (d st) P

variable {P : σ → Prop}

theorem keeps_oneWord
    {f : Bytes → σ → Except ConfigError σ}
    (h : ∀ v st st', P st → f v st = .ok st' → P st') :
    Keeps P (oneWord f) :=
  fun st hst => gives_bind_any fun v => gives_bind_any fun _ =>
    gives_ofExcept fun st' hst' => h v st st' hst hst'

theorem keeps_word
    {g : Bytes → σ → σ}
    (h : ∀ v st, P st → P (g v st)) :
    Keeps P (oneWord fun v st => .ok (g v st)) := by
  refine keeps_oneWord fun v st st' hst hrun => ?_
  rw [← Except.ok.inj hrun]
  exact h v st hst

theorem keeps_check
    {check : Bytes → Except ConfigError α} {g : α → σ → σ}
    (h : ∀ a st, P st → P (g a st)) :
    Keeps P (oneWord fun v st => do return g (← check v) st) := by
  refine keeps_oneWord fun v st st' hst hrun => ?_
  obtain ⟨a, _, hrun⟩ := EarlyReturn.bind_eq_ok_iff.mp hrun
  rw [← Except.ok.inj hrun]
  exact h a st hst

theorem keeps_twoWords
    {f : Bytes → Bytes → σ → σ}
    (h : ∀ key value st, P st → P (f key value st)) :
    Keeps P (twoWords f) :=
  fun st hst => gives_bind_any fun key => gives_bind_any fun value => gives_bind_any fun _ =>
    gives_pure (h key value st hst)

theorem keeps_anyWords
    {f : List Bytes → σ → σ}
    (h : ∀ args st, P st → P (f args st)) :
    Keeps P (anyWords f) :=
  fun st hst => gives_bind_any fun args => gives_bind_any fun _ => gives_pure (h args st hst)

theorem keeps_parsed
    {p : Parser α} {f : α → σ → σ}
    (h : ∀ a st, P st → P (f a st)) :
    Keeps P (parsed p f) :=
  fun st hst => gives_bind_any fun a => gives_pure (h a st hst)

theorem keeps_checkedWord
    {check : Bytes → Except ConfigError α} {f : α → σ → σ}
    (h : ∀ a st, P st → P (f a st)) :
    Keeps P (checkedWord check f) :=
  fun st hst => gives_bind_any fun _ => gives_bind_any fun a => gives_bind_any fun _ =>
    gives_pure (h a st hst)

theorem keeps_unknown : Keeps P unknownDirective :=
  fun _ hst => gives_bind_any fun _ => gives_pure hst

/-- Of a table, the directives under other names may do as they like. -/
theorem keeps_runDirective_of_not_mem
    {table : Directives σ} {other : σ → Parser σ} {name : Bytes} {names : List Bytes}
    (htable : ∀ entry ∈ table, entry.1 ∈ names ∨ Keeps P entry.2) (hother : Keeps P other)
    (hname : name ∉ names) :
    Keeps P (runDirective table other name) := by
  intro st hst
  obtain ⟨d, hd, heq⟩ := runDirective_cases table other name st (P := Keeps P)
    (fun d hd => (htable _ hd).resolve_left hname) fun _ => hother
  rw [heq]
  exact hd st hst

/-- What every directive keeps, a loop over them keeps. -/
theorem keeps_block
    {ν : Type} {classify : σ → Token → Head ν ConfigError} {step : ν → σ → Parser σ}
    (h : ∀ name, Keeps P (step name)) :
    Keeps P (block classify step) := by
  intro st hst ts st' rest hrun
  exact block_rule (P := fun _ s => P s)
    (fun _ name s ts s' rest hs hstep => h name s hs ts s' rest hstep) hst hrun

end Keeps

theorem expectWord_ok
    {ts : List Token} {v : Bytes} {rest : Rest ts}
    (h : expectWord ts = .ok (v, rest)) :
    ∃ ts', ts = .word v :: ts' := by
  cases ts with
  | nil => cases h
  | cons t ts =>
      cases t with
      | word w =>
          cases h
          exact ⟨ts, rfl⟩
      | semicolon => cases h
      | openBrace => cases h
      | closeBrace => cases h

/-- A directive of one word has read that word. -/
theorem oneWord_ok
    {σ : Type} {f : Bytes → σ → Except ConfigError σ} {st st' : σ} {ts : List Token}
    {rest : Rest ts}
    (h : oneWord f st ts = .ok (st', rest)) :
    ∃ v ts', ts = .word v :: ts' ∧ f v st = .ok st' := by
  obtain ⟨v, rest₁, rest₂, hword, h⟩ := bind_ok h
  obtain ⟨_, _, _, _, h⟩ := bind_ok h
  obtain ⟨ts', hts⟩ := expectWord_ok hword
  exact ⟨v, ts', hts, ofExcept_ok h⟩

section Texts

/-- The argument of a directive, where it starts with a word. -/
def itemArg (name : Bytes) (item : Bytes × List Token) : Option Bytes :=
  if item.1 = name then wordOf item.2.head? else none

/-- The arguments of the directives of a name. -/
def itemArgs (name : Bytes) (items : List (Bytes × List Token)) : List Bytes :=
  items.filterMap (itemArg name)

variable (lib : Libraries)

/-- The location was read from these tokens. -/
def LocationText (loc : LocationBlock) (ts : List Token) : Prop :=
  ∃ rest, parseLocation lib ts = .ok (loc, rest)

/-- The directives of a location. -/
def locationItems (ts : List Token) : List (Bytes × List Token) :=
  match parseLocationHead lib ts with
  | .error _ => []
  | .ok (_, rest) => blockItems .location (locationDirectives lib) .initial rest.1

/-- What the directives of a location keep true, its text and its block satisfy. -/
theorem location_rule
    {P : List (Bytes × List Token) → LocationReader → Prop}
    (hinit : P [] .initial)
    (hstep : ∀ before name st ts st' (rest : Rest ts), P before st →
      runDirective (locationDirectives lib) unknownDirective name st ts = .ok (st', rest) →
        P (before ++ [(name, ts)]) st')
    {loc : LocationBlock} {ts : List Token} (h : LocationText lib loc ts) :
    ∃ st pattern, st.finish pattern = loc ∧ P (locationItems lib ts) st := by
  obtain ⟨rest, h⟩ := h
  obtain ⟨pattern, rest₁, rest₂, hhead, h⟩ := bind_ok h
  obtain ⟨st, rest₃, rest₄, hblock, h⟩ := bind_ok h
  have hitems : locationItems lib ts =
      blockItems .location (locationDirectives lib) .initial rest₁.1 := by
    simp [locationItems, hhead]
  refine ⟨st, pattern, congrArg Prod.fst (Except.ok.inj h), ?_⟩
  rw [hitems]
  exact block_rule (P := P) hstep hinit hblock

end Texts

section Servers

variable (lib : Libraries)

/-- The server block was read from these tokens. -/
def ServerText (server : ServerBlock) (ts : List Token) : Prop :=
  ∃ rest, parseServerBlock lib ts = .ok (server, rest)

end Servers

end ConfigParser
end RunNginx
