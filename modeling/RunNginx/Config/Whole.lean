import RunNginx.Config.Statements

/-!
# Directives that are read whole

The nesting of blocks is a matter of braces, but not every parser looks at all of them: a
block that is not closed ends with the text, and an upstream block passes over opening
braces.  `net` counts the braces that a parser leaves open.  What a directive leaves open
is never negative, and where it is zero the parser has read a whole directive, up to a
semicolon that may be missing in front of a closing brace or at the end.

`ReadsWhole` is that property, for the directives of a kind `Q`, with one rule for each
shape of directive; `ClosesWhole` is the same for what comes behind an opening brace.
-/

namespace RunNginx
namespace ConfigParser

open ByteString Parse

/-! ### Braces that are left open -/

/-- Opening braces less closing braces. -/
def net : List Token → Int
  | [] => 0
  | .openBrace :: ts => net ts + 1
  | .closeBrace :: ts => net ts - 1
  | .word _ :: ts => net ts
  | .semicolon :: ts => net ts

@[simp] theorem net_nil : net [] = 0 := rfl

@[simp] theorem net_openBrace (ts : List Token) : net (.openBrace :: ts) = net ts + 1 := rfl

@[simp] theorem net_closeBrace (ts : List Token) : net (.closeBrace :: ts) = net ts - 1 := rfl

@[simp] theorem net_word (w : Bytes) (ts : List Token) : net (.word w :: ts) = net ts := rfl

@[simp] theorem net_semicolon (ts : List Token) : net (.semicolon :: ts) = net ts := rfl

@[simp] theorem net_append
    (ts ts' : List Token) :
    net (ts ++ ts') = net ts + net ts' := by
  induction ts with
  | nil => simp
  | cons t ts ih =>
      cases t <;> simp only [List.cons_append, net_openBrace, net_closeBrace, net_word,
        net_semicolon, ih] <;> omega

theorem net_concat_closeBrace
    (ts : List Token) :
    net (ts ++ [.closeBrace]) = net ts - 1 := by
  rw [net_append, net_closeBrace, net_nil]
  omega

@[simp] theorem net_words (args : List Bytes) : net (words args) = 0 := by
  induction args with
  | nil => rfl
  | cons w args ih => exact ih

theorem net_of_depthAfter
    {depth depth' : Nat} {ts : List Token}
    (h : depthAfter depth ts = some depth') :
    net ts = depth' - depth := by
  induction ts generalizing depth with
  | nil =>
      cases h
      simp
  | cons t ts ih =>
      cases t with
      | word w =>
          rw [depthAfter_word] at h
          exact ih h
      | semicolon =>
          rw [depthAfter_semicolon] at h
          exact ih h
      | openBrace =>
          rw [depthAfter_openBrace] at h
          rw [net_openBrace, ih h]
          omega
      | closeBrace =>
          cases depth with
          | zero => cases h
          | succ depth =>
              have hclose : depthAfter depth ts = some depth' := h
              rw [net_closeBrace, ih hclose]
              omega

theorem net_of_balanced
    {ts : List Token}
    (h : Balanced ts) :
    net ts = 0 := by
  rw [net_of_depthAfter h]
  rfl

theorem depthAfter_append
    {depth depth' : Nat} {ts : List Token} (ts' : List Token)
    (h : depthAfter depth ts = some depth') :
    depthAfter depth (ts ++ ts') = depthAfter depth' ts' := by
  induction ts generalizing depth with
  | nil =>
      cases h
      rfl
  | cons t ts ih =>
      rw [List.cons_append]
      cases t with
      | word w =>
          rw [depthAfter_word] at h ⊢
          exact ih h
      | semicolon =>
          rw [depthAfter_semicolon] at h ⊢
          exact ih h
      | openBrace =>
          rw [depthAfter_openBrace] at h ⊢
          exact ih h
      | closeBrace =>
          cases depth with
          | zero => cases h
          | succ depth => exact ih h

@[simp] theorem depthAfter_words
    (depth : Nat) (args : List Bytes) :
    depthAfter depth (words args) = some depth := by
  induction args with
  | nil => exact depthAfter_nil
  | cons w args ih => exact depthAfter_word.trans ih

theorem Balanced.append
    {ts ts' : List Token}
    (h : Balanced ts) (h' : Balanced ts') :
    Balanced (ts ++ ts') := by
  unfold Balanced
  rw [depthAfter_append ts' h]
  exact h'

theorem balanced_words (args : List Bytes) : Balanced (words args) :=
  depthAfter_words 0 args

/-- The tokens of a directive are balanced. -/
theorem Directive.balanced_text (d : Directive) : Balanced d.text := by
  rcases d.text_cases with ⟨-, htext⟩ | ⟨inner, hinner, -, htext⟩
  · rw [htext]
    exact (balanced_words _).append rfl
  · rw [htext]
    refine (balanced_words _).append ?_
    unfold Balanced depthAfter
    rw [depthAfter_append _ (depthAfter_of_balanced 1 hinner)]
    rfl

theorem balanced_bodyTokens (ds : List Directive) : Balanced (bodyTokens ds) := by
  induction ds with
  | nil => rfl
  | cons d ds ih =>
      rw [bodyTokens_cons]
      exact d.balanced_text.append ih

/-- The tokens that close one block are balanced up to its brace. -/
theorem closes_one
    {seg : List Token}
    (h : Closes 1 seg) :
    ∃ inner, Balanced inner ∧ seg = inner ++ [.closeBrace] := by
  have hgen : ∀ depth, Closes (depth + 1) seg →
      ∃ inner, depthAfter depth inner = some 0 ∧ seg = inner ++ [.closeBrace] := by
    clear h
    induction seg with
    | nil => exact fun _ h => nomatch h
    | cons t seg ih =>
        intro depth h
        cases t with
        | word w =>
            obtain ⟨inner, hinner, rfl⟩ := ih depth h
            exact ⟨.word w :: inner, by cases depth <;> exact hinner, rfl⟩
        | semicolon =>
            obtain ⟨inner, hinner, rfl⟩ := ih depth h
            exact ⟨.semicolon :: inner, by cases depth <;> exact hinner, rfl⟩
        | openBrace =>
            obtain ⟨inner, hinner, rfl⟩ := ih (depth + 1) h
            exact ⟨.openBrace :: inner, by cases depth <;> exact hinner, rfl⟩
        | closeBrace =>
            cases depth with
            | zero =>
                obtain rfl := closes_zero h
                exact ⟨[], rfl, rfl⟩
            | succ depth =>
                obtain ⟨inner, hinner, rfl⟩ := ih depth h
                exact ⟨.closeBrace :: inner, hinner, rfl⟩
  exact hgen 0 h

/-- A block that is skipped is closed, or open up to the end. -/
theorem behindBlock_cases
    (k : Nat) (ts : List Token) :
    (∃ seg, Closes k seg ∧ ts = seg ++ behindBlock k ts) ∨
      (behindBlock k ts = [] ∧ -(k : Int) < net ts) := by
  induction ts generalizing k with
  | nil =>
      cases k with
      | zero => exact .inl ⟨[], rfl, rfl⟩
      | succ k => exact .inr ⟨rfl, by rw [net_nil]; omega⟩
  | cons t ts ih =>
      cases k with
      | zero => exact .inl ⟨[], rfl, by simp [behindBlock]⟩
      | succ k =>
          cases t with
          | word w =>
              rcases ih (k + 1) with ⟨seg, hseg, heq⟩ | ⟨hend, hnet⟩
              · exact .inl ⟨.word w :: seg, hseg, congrArg (Token.word w :: ·) heq⟩
              · exact .inr ⟨hend, hnet⟩
          | semicolon =>
              rcases ih (k + 1) with ⟨seg, hseg, heq⟩ | ⟨hend, hnet⟩
              · exact .inl ⟨.semicolon :: seg, hseg, congrArg (Token.semicolon :: ·) heq⟩
              · exact .inr ⟨hend, hnet⟩
          | openBrace =>
              rcases ih (k + 2) with ⟨seg, hseg, heq⟩ | ⟨hend, hnet⟩
              · exact .inl ⟨.openBrace :: seg, hseg, congrArg (Token.openBrace :: ·) heq⟩
              · refine .inr ⟨hend, ?_⟩
                rw [net_openBrace]
                omega
          | closeBrace =>
              rcases ih k with ⟨seg, hseg, heq⟩ | ⟨hend, hnet⟩
              · exact .inl ⟨.closeBrace :: seg, hseg, congrArg (Token.closeBrace :: ·) heq⟩
              · refine .inr ⟨hend, ?_⟩
                rw [net_closeBrace]
                omega

/-! ### Whole directives -/

/-- Nothing follows that a row of words could go on with. -/
def Stuck (ts : List Token) : Prop :=
  NoWord ts ∧ ts.head? ≠ some .semicolon

/-- The text ends here, or the block does. -/
def AtEnd (ts : List Token) : Prop :=
  ts = [] ∨ ∃ ts', ts = .closeBrace :: ts'

theorem AtEnd.stuck
    {ts : List Token}
    (h : AtEnd ts) :
    Stuck ts := by
  rcases h with rfl | ⟨ts', rfl⟩
  · exact ⟨(fun _ h => nomatch h), fun h => nomatch h⟩
  · exact ⟨noWord_closeBrace ts', fun h => nomatch h⟩

/-- What the parser reads is a whole directive of this name and kind, wherever it leaves no
brace open, and such a directive it reads whatever comes behind it. -/
structure ReadsWhole {α : Type} (Q : Directive → Prop) (name : Bytes) (p : Parser α) : Prop where
  lands : ∀ ts a rest, Reads p ts a rest →
    ∃ seg, ts = seg ++ rest ∧ 0 ≤ net seg ∧
      (net seg = 0 → (∃ d : Directive, d.name = name ∧ d.text = seg ∧ Q d) ∨
        ∃ args, words args = seg ∧ Stuck rest)
  keeps : ∀ d : Directive, d.name = name → Q d → ∀ ts a rest, Reads p (d.text ++ ts) a rest →
    rest = ts ∧ ∀ more, Reads p (d.text ++ more) a more
  keepsWords : ∀ args ts a rest, AtEnd ts → Reads p (words args ++ ts) a rest →
    rest = ts ∧ ∀ more, AtEnd more → Reads p (words args ++ more) a more

section Whole

variable {σ α β : Type} {Q : Directive → Prop} {name : Bytes}

/-- A row of words is a directive without a block. -/
theorem whole_row
    {p : Parser α} {q : List Bytes → Option α}
    (h : ReadsRow p q) (hQ : ∀ d : Directive, d.name = name → d.block = none → Q d) :
    ReadsWhole Q name p where
  lands := by
    intro ts a rest hread
    obtain ⟨args, rfl, -⟩ := (h _ _ _).mp hread
    refine ⟨words args ++ [.semicolon], by simp, by simp, fun _ => .inl ?_⟩
    exact ⟨⟨name, args, none⟩, rfl, rfl, hQ _ rfl rfl⟩
  keeps := by
    intro d hname _ ts a rest hread
    obtain ⟨hblock, hq, rfl⟩ := (h.directive d).mp hread
    exact ⟨rfl, fun more => (h.directive d).mpr ⟨hblock, hq, rfl⟩⟩
  keepsWords := by
    intro args ts a rest hend hread
    obtain ⟨args', heq, -⟩ := (h _ _ _).mp hread
    obtain ⟨-, rfl⟩ := words_append_inj hend.stuck.1 (noWord_semicolon rest) heq
    exact absurd rfl hend.stuck.2

theorem whole_simple
    {d : σ → Parser σ} {f : List Bytes → σ → Option σ}
    (h : IsSimple d f) (hQ : ∀ d : Directive, d.name = name → d.block = none → Q d) (st : σ) :
    ReadsWhole Q name (d st) :=
  whole_row (h st) hQ

/-- The words in front of what ends a directive. -/
theorem reads_skipDirective_cases
    {ts rest : List Token} {u : Unit}
    (h : Reads skipDirective ts u rest) :
    ∃ args mid, ts = words args ++ mid ∧ NoWord mid ∧
      (mid = .semicolon :: rest ∨
        (∃ ts', mid = .openBrace :: ts' ∧ rest = behindBlock 1 ts') ∨
        (mid = rest ∧ AtEnd rest)) := by
  obtain ⟨args, mid, hargs, hend⟩ := reads_bind_iff.mp h
  obtain ⟨hts, hno⟩ := reads_collectArgs_iff.mp hargs
  refine ⟨args, mid, hts, hno, ?_⟩
  obtain ⟨t, mid', hpeek, h⟩ := reads_bind_iff.mp hend
  obtain ⟨rfl, rfl⟩ := reads_peek_iff.mp hpeek
  cases mid' with
  | nil =>
      obtain ⟨-, rfl⟩ := reads_pure_iff.mp h
      exact .inr (.inr ⟨rfl, .inl rfl⟩)
  | cons t ts =>
      cases t with
      | word w => exact absurd rfl (hno w)
      | semicolon =>
          obtain rfl := reads_advance_iff.mp h
          exact .inl rfl
      | openBrace =>
          obtain ⟨_, mid, hadvance, hskip⟩ := reads_bind_iff.mp h
          obtain rfl := reads_advance_iff.mp hadvance
          exact .inr (.inl ⟨_, rfl, reads_skipBlock_iff.mp hskip⟩)
      | closeBrace =>
          obtain ⟨-, rfl⟩ := reads_pure_iff.mp h
          exact .inr (.inr ⟨rfl, .inr ⟨ts, rfl⟩⟩)

/-- A directive that is not known is read whole, whatever it is. -/
theorem whole_unknown
    (hQ : ∀ d : Directive, d.name = name → Q d) (st : σ) :
    ReadsWhole Q name (unknownDirective st) where
  lands := by
    intro ts a rest hread
    obtain ⟨_, mid, hskip, hpure⟩ := reads_bind_iff.mp hread
    obtain ⟨rfl, rfl⟩ := reads_pure_iff.mp hpure
    obtain ⟨args, mid, rfl, hno, rfl | ⟨ts', rfl, rfl⟩ | ⟨rfl, hend⟩⟩ :=
      reads_skipDirective_cases hskip
    · refine ⟨words args ++ [.semicolon], by simp, by simp, fun _ => .inl ?_⟩
      exact ⟨⟨name, args, none⟩, rfl, rfl, hQ _ rfl⟩
    · rcases behindBlock_cases 1 ts' with ⟨seg, hseg, heq⟩ | ⟨hend, hnet⟩
      · obtain ⟨inner, hinner, rfl⟩ := closes_one hseg
        refine ⟨words args ++ .openBrace :: (inner ++ [.closeBrace]), ?_, ?_, fun _ => .inl ?_⟩
        · rw [List.append_assoc, List.cons_append, ← heq]
        · simp [net_of_balanced hinner]
        · exact ⟨⟨name, args, some ⟨inner, hinner⟩⟩, rfl, rfl, hQ _ rfl⟩
      · refine ⟨words args ++ .openBrace :: ts', by rw [hend, List.append_nil], ?_, fun hzero => ?_⟩
        · rw [net_append, net_words, net_openBrace]
          omega
        · rw [net_append, net_words, net_openBrace] at hzero
          omega
    · exact ⟨words args, rfl, by simp, fun _ => .inr ⟨args, rfl, hend.stuck⟩⟩
  keeps := by
    intro d hname _ ts a rest hread
    obtain ⟨rfl, rfl⟩ := (reads_unknownDirective d).mp hread
    exact ⟨rfl, fun more => (reads_unknownDirective d).mpr ⟨rfl, rfl⟩⟩
  keepsWords := by
    intro args ts a rest hend hread
    have hwhole : ∀ more, AtEnd more → Reads (unknownDirective st) (words args ++ more) st more := by
      intro more hmore
      refine reads_bind_iff.mpr ⟨(), more, ?_, reads_pure_iff.mpr ⟨rfl, rfl⟩⟩
      refine reads_bind_iff.mpr ⟨args, more, reads_collectArgs_iff.mpr ⟨rfl, hmore.stuck.1⟩, ?_⟩
      refine reads_bind_iff.mpr ⟨_, _, reads_peek_iff.mpr ⟨rfl, rfl⟩, ?_⟩
      rcases hmore with rfl | ⟨more', rfl⟩
      · exact reads_pure_iff.mpr ⟨rfl, rfl⟩
      · exact reads_pure_iff.mpr ⟨rfl, rfl⟩
    obtain ⟨rfl, rfl⟩ := hread.unique (hwhole ts hend)
    exact ⟨rfl, hwhole⟩

/-! ### Blocks -/

/-- What stands between the braces of a block: whole directives, of which the last one may
want its semicolon. -/
def BodyOf (Q : Directive → Prop) (inner : List Token) : Prop :=
  ∃ ds last, inner = bodyTokens ds ++ words last ∧ ∀ d ∈ ds, Q d

theorem BodyOf.balanced
    {inner : List Token}
    (h : BodyOf Q inner) :
    Balanced inner := by
  obtain ⟨ds, last, rfl, -⟩ := h
  exact (balanced_bodyTokens ds).append (balanced_words last)

/-- The same for a parser behind an opening brace, and the bodies of a kind. -/
structure ClosesWhole {α : Type} (B : List Token → Prop) (p : Parser α) : Prop where
  lands : ∀ ts a rest, Reads p ts a rest →
    ∃ seg, ts = seg ++ rest ∧ -1 ≤ net seg ∧
      (net seg = -1 → ∃ inner, Balanced inner ∧ B inner ∧ seg = inner ++ [.closeBrace])
  keeps : ∀ inner, Balanced inner → B inner → ∀ ts a rest,
    Reads p (inner ++ .closeBrace :: ts) a rest →
    rest = ts ∧ ∀ more, Reads p (inner ++ .closeBrace :: more) a more

variable {B : List Token → Prop}

theorem closes_fail (e : ConfigError) : ClosesWhole B (Parse.fail e : Parser α) where
  lands _ _ _ h := absurd h reads_fail_iff.mp
  keeps _ _ _ _ _ _ h := absurd h reads_fail_iff.mp

/-- What reads nothing may follow a block. -/
theorem ClosesWhole.bind
    {p : Parser α} {k : α → Parser β} {x : α → Option β}
    (h : ClosesWhole B p) (hk : ∀ a, ReadsNothing (k a) (x a)) :
    ClosesWhole B (p >>= k) where
  lands := by
    intro ts b rest hread
    obtain ⟨a, mid, hp, hrest⟩ := reads_bind_iff.mp hread
    obtain ⟨-, rfl⟩ := (hk a _ _ _).mp hrest
    exact h.lands ts a rest hp
  keeps := by
    intro inner hinner hB ts b rest hread
    obtain ⟨a, mid, hp, hrest⟩ := reads_bind_iff.mp hread
    obtain ⟨hx, rfl⟩ := (hk a _ _ _).mp hrest
    obtain ⟨rfl, hmore⟩ := h.keeps inner hinner hB ts a rest hp
    exact ⟨rfl, fun more => reads_bind_iff.mpr ⟨a, more, hmore more, (hk a _ _ _).mpr ⟨hx, rfl⟩⟩⟩

/-- What reads nothing may stand in front of a block. -/
theorem closes_after_nothing
    {p : Parser α} {k : α → Parser β} {x : Option α}
    (hp : ReadsNothing p x) (h : ∀ a, ClosesWhole B (k a)) :
    ClosesWhole B (p >>= k) where
  lands := by
    intro ts b rest hread
    obtain ⟨a, mid, hx, hrest⟩ := reads_bind_iff.mp hread
    obtain ⟨-, rfl⟩ := (hp _ _ _).mp hx
    exact (h a).lands mid b rest hrest
  keeps := by
    intro inner hinner hB ts b rest hread
    obtain ⟨a, mid, hnothing, hrest⟩ := reads_bind_iff.mp hread
    obtain ⟨hx, rfl⟩ := (hp _ _ _).mp hnothing
    obtain ⟨rfl, hmore⟩ := (h a).keeps inner hinner hB ts b rest hrest
    exact ⟨rfl, fun more => reads_bind_iff.mpr ⟨a, _, (hp _ _ _).mpr ⟨hx, rfl⟩, hmore more⟩⟩

/-- The parser reads a row of words, an opening brace, and what the words ask for. -/
def Opens {α : Type} (p : Parser α) (body : List Bytes → Parser α) : Prop :=
  ∀ ts a rest, Reads p ts a rest ↔
    ∃ args mid, ts = words args ++ .openBrace :: mid ∧ Reads (body args) mid a rest

/-- A directive with a block is read whole where its block is. -/
theorem whole_block
    {p : Parser α} {body : List Bytes → Parser α}
    (h : Opens p body) (hbody : ∀ args, ClosesWhole B (body args))
    (hQ : ∀ d : Directive, d.name = name →
      (Q d ↔ ∀ inner, d.block = some inner → B inner.1)) :
    ReadsWhole Q name p where
  lands := by
    intro ts a rest hread
    obtain ⟨args, mid, rfl, hmid⟩ := (h _ _ _).mp hread
    obtain ⟨seg, rfl, hnet, hclosed⟩ := (hbody args).lands mid a rest hmid
    refine ⟨words args ++ .openBrace :: seg, by simp, ?_, fun hzero => .inl ?_⟩
    · rw [net_append, net_words, net_openBrace]
      omega
    · rw [net_append, net_words, net_openBrace] at hzero
      obtain ⟨inner, hinner, hB, rfl⟩ := hclosed (by omega)
      refine ⟨⟨name, args, some ⟨inner, hinner⟩⟩, rfl, rfl, (hQ _ rfl).mpr ?_⟩
      intro inner' heq
      cases heq
      exact hB
  keeps := by
    intro d hname hd ts a rest hread
    obtain ⟨args, mid, heq, hmid⟩ := (h _ _ _).mp hread
    rcases d.text_cases with ⟨-, htext⟩ | ⟨inner, hinner, hblock, htext⟩
    · rw [htext, List.append_assoc, List.singleton_append] at heq
      obtain ⟨-, heq⟩ := words_append_inj (noWord_semicolon _) (noWord_openBrace _) heq
      cases heq
    · rw [htext, List.append_assoc, List.cons_append] at heq
      obtain ⟨rfl, hmidEq⟩ := words_append_inj (noWord_openBrace _) (noWord_openBrace _) heq
      obtain rfl : inner ++ [.closeBrace] ++ ts = mid := (List.cons.inj hmidEq).2
      obtain ⟨inner', hinner', rfl⟩ := Option.map_eq_some_iff.mp hblock
      have hB : B inner'.1 := (hQ d hname).mp hd inner' hinner'
      rw [List.append_assoc, List.singleton_append] at hmid
      obtain ⟨rfl, hmore⟩ := (hbody d.args).keeps inner'.1 hinner hB ts a rest hmid
      refine ⟨rfl, fun more => (h _ _ _).mpr ⟨d.args, _, ?_, hmore more⟩⟩
      rw [htext]
      simp
  keepsWords := by
    intro args ts a rest hend hread
    obtain ⟨args', mid, heq, -⟩ := (h _ _ _).mp hread
    obtain ⟨-, rfl⟩ := words_append_inj hend.stuck.1 (noWord_openBrace mid) heq
    rcases hend with h | ⟨ts', h⟩ <;> cases h

/-- Where the end of a block does not depend on what it holds, every balanced block is
closed whole. -/
theorem ClosesWhole.of_stays
    {p : Parser α}
    (h : ClosesWhole B p) (hstays : Stays 1 0 p) :
    ClosesWhole (fun _ => True) p where
  lands := by
    intro ts a rest hread
    obtain ⟨seg, rfl, hnet, hclosed⟩ := h.lands ts a rest hread
    refine ⟨seg, rfl, hnet, fun hone => ?_⟩
    obtain ⟨inner, hinner, -, rfl⟩ := hclosed hone
    exact ⟨inner, hinner, trivial, rfl⟩
  keeps := by
    intro inner hinner _ ts a rest hread
    have hinput : ∀ more, inner ++ .closeBrace :: more = inner ++ [.closeBrace] ++ more := by
      simp
    rw [hinput] at hread
    obtain ⟨seg, hseg, rfl, hmore⟩ :=
      hstays _ _ _ _ (closes_of_balanced hinner closes_nil) hread
    obtain rfl := closes_zero hseg
    refine ⟨rfl, fun more => ?_⟩
    rw [hinput]
    exact hmore more

/-- An opening brace alone. -/
theorem opens_expectOpen
    (p : Parser α) :
    Opens (do
      expectOpen
      p) fun args => if args = [] then p else Parse.fail .includeDepth := by
  intro ts a rest
  simp only [reads_bind_iff, reads_expectOpen_iff]
  constructor
  · rintro ⟨_, mid, rfl, hread⟩
    exact ⟨[], mid, rfl, by rwa [if_pos rfl]⟩
  · rintro ⟨args, mid, rfl, hread⟩
    by_cases hargs : args = []
    · subst hargs
      exact ⟨(), mid, rfl, by rwa [if_pos rfl] at hread⟩
    · rw [if_neg hargs] at hread
      exact absurd hread reads_fail_iff.mp

theorem closes_expectOpen
    {p : Parser α}
    (h : ClosesWhole B p) (args : List Bytes) :
    ClosesWhole B (if args = [] then p else Parse.fail .includeDepth) := by
  split
  · exact h
  · exact closes_fail _

/-! ### Loops over whole directives -/

/-- The loop reads a directive at every word, and ends at a closing brace or halts. -/
structure WordHeads {σ : Type} (classify : σ → Token → Head Bytes ConfigError) : Prop where
  word : ∀ s w, classify s (.word w) = .item w
  item : ∀ s t name, classify s t = .item name → t = .word name
  close : ∀ s t, classify s t = .close → t = .closeBrace
  skip : ∀ s t, classify s t ≠ .skip

variable {classify : σ → Token → Head Bytes ConfigError} {step : Bytes → σ → Parser σ}

/-- Where the loop cannot go on with a directive, it ends. -/
theorem blockReads_stuck
    {s s' : σ} {ts rest : List Token}
    (hheads : WordHeads classify) (hts : NoWord ts)
    (h : BlockReads classify step s ts s' rest) :
    s' = s ∧ (ts = rest ∨ (ts = .closeBrace :: rest ∧ classify s .closeBrace = .close)) := by
  cases h with
  | eof => exact ⟨rfl, .inl rfl⟩
  | halt h => exact ⟨rfl, .inl rfl⟩
  | close h =>
      obtain rfl := hheads.close _ _ h
      exact ⟨rfl, .inr ⟨rfl, h⟩⟩
  | skip h => exact absurd h (hheads.skip _ _)
  | item h =>
      obtain rfl := hheads.item _ _ _ h
      exact absurd rfl (hts _)

theorem bodyOf_cons
    {d : Directive} {seg : List Token}
    (hd : Q d) (h : BodyOf Q seg) :
    BodyOf Q (.word d.name :: (d.text ++ seg)) := by
  obtain ⟨ds, last, rfl, hds⟩ := h
  refine ⟨d :: ds, last, by simp, fun e he => ?_⟩
  rcases List.mem_cons.mp he with rfl | he
  · exact hd
  · exact hds e he

/-- A loop over directives that are read whole reads a body, unless it leaves a brace open. -/
theorem blockReads_lands
    {s s' : σ} {ts rest : List Token}
    (hheads : WordHeads classify) (hitem : ∀ name s, ReadsWhole Q name (step name s))
    (h : BlockReads classify step s ts s' rest) :
    ∃ seg, 0 ≤ net seg ∧ (net seg = 0 → BodyOf Q seg) ∧
      (ts = seg ++ rest ∨ (ts = seg ++ .closeBrace :: rest ∧ classify s' .closeBrace = .close)) := by
  have hempty : BodyOf Q [] := ⟨[], [], rfl, by simp⟩
  induction h with
  | eof s => exact ⟨[], by simp, fun _ => hempty, .inl rfl⟩
  | halt h => exact ⟨[], by simp, fun _ => hempty, .inl rfl⟩
  | close h =>
      obtain rfl := hheads.close _ _ h
      exact ⟨[], by simp, fun _ => hempty, .inr ⟨rfl, h⟩⟩
  | skip h => exact absurd h (hheads.skip _ _)
  | @item s s₁ s' t name input mid rest hclass hone hrest ih =>
      obtain rfl := hheads.item _ _ _ hclass
      obtain ⟨front, rfl, hfront, hwhole⟩ := (hitem name s).lands _ _ _ hone
      obtain ⟨seg, hseg, hbody, hsplit⟩ := ih
      by_cases hzero : net front = 0
      · rcases hwhole hzero with ⟨d, rfl, rfl, hd⟩ | ⟨last, rfl, hstuck⟩
        · refine ⟨.word d.name :: (d.text ++ seg), ?_, fun hnet => bodyOf_cons hd (hbody ?_), ?_⟩
          · rw [net_word, net_append]
            omega
          · rw [net_word, net_append] at hnet
            omega
          · rcases hsplit with rfl | ⟨rfl, hclose⟩
            · exact .inl (by simp)
            · exact .inr ⟨by simp, hclose⟩
        · -- the directive wants its semicolon, so that the loop ends behind it
          refine ⟨words (name :: last), by simp, fun _ => ⟨[], name :: last, rfl, by simp⟩, ?_⟩
          obtain ⟨rfl, rfl | ⟨rfl, hclose⟩⟩ := blockReads_stuck hheads hstuck.1 hrest
          · exact .inl rfl
          · exact .inr ⟨rfl, hclose⟩
      · refine ⟨.word name :: (front ++ seg), ?_, fun hnet => ?_, ?_⟩
        · rw [net_word, net_append]
          omega
        · rw [net_word, net_append] at hnet
          omega
        · rcases hsplit with rfl | ⟨rfl, hclose⟩
          · exact .inl (by simp)
          · exact .inr ⟨by simp, hclose⟩

/-- A body is read up to its end, whatever comes behind that. -/
theorem blockReads_keeps
    {s s' : σ} {seg ts rest : List Token}
    (hheads : WordHeads classify) (hitem : ∀ name s, ReadsWhole Q name (step name s))
    (hseg : BodyOf Q seg) (hts : AtEnd ts)
    (h : BlockReads classify step s (seg ++ ts) s' rest) :
    ∃ s₁, BlockReads classify step s₁ ts s' rest ∧
      ((seg = [] ∧ s₁ = s) ∨ ∃ name s₀ ts₀ mid₀, Reads (step name s₀) ts₀ s₁ mid₀) ∧
      ∀ more, AtEnd more → ∀ s'' rest', BlockReads classify step s₁ more s'' rest' →
        BlockReads classify step s (seg ++ more) s'' rest' := by
  obtain ⟨ds, last, rfl, hds⟩ := hseg
  induction ds generalizing s with
  | nil =>
      cases last with
      | nil => exact ⟨s, h, .inl ⟨rfl, rfl⟩, fun more _ s'' rest' hmore => hmore⟩
      | cons name last =>
          obtain ⟨s₁, mid, hone, hrest⟩ := (blockReads_item_iff (hheads.word s name)).mp h
          obtain ⟨rfl, hmore⟩ := (hitem name s).keepsWords last _ _ _ hts hone
          exact ⟨s₁, hrest, .inr ⟨name, s, _, _, hone⟩, fun more hend s'' rest' hafter =>
            .item (hheads.word s name) (hmore more hend) hafter⟩
  | cons d ds ih =>
      rw [bodyTokens_cons, List.cons_append, List.cons_append, List.append_assoc,
        List.append_assoc] at h
      obtain ⟨s₁, mid, hone, hrest⟩ := (blockReads_item_iff (hheads.word s d.name)).mp h
      obtain ⟨rfl, hmore⟩ := (hitem d.name s).keeps d rfl (hds d List.mem_cons_self) _ _ _ hone
      rw [← List.append_assoc] at hrest
      obtain ⟨s₂, hend, hcause, hafter⟩ := ih (fun e he => hds e (List.mem_cons_of_mem d he)) hrest
      refine ⟨s₂, hend, ?_, fun more hmoreEnd s'' rest' hlast => ?_⟩
      · rcases hcause with ⟨-, rfl⟩ | hcause
        · exact .inr ⟨d.name, s, _, _, hone⟩
        · exact .inr hcause
      · rw [bodyTokens_cons, List.cons_append, List.cons_append, List.append_assoc,
          List.append_assoc]
        refine .item (hheads.word s d.name) (hmore _) ?_
        rw [← List.append_assoc]
        exact hafter more hmoreEnd s'' rest' hlast

theorem wordHeads_blockHead (block : Block) : WordHeads (@blockHead σ block) where
  word _ _ := rfl
  item s t name h := by
    cases t <;> cases h
    rfl
  close s t h := by
    cases t <;> cases h
    rfl
  skip s t h := by
    cases t <;> cases h

/-- A block whose directives are read whole is closed whole. -/
theorem closes_parseBlock
    {block : Block} {table : Directives σ}
    (hitem : ∀ name s, ReadsWhole Q name (runDirective table unknownDirective name s)) (st : σ) :
    ClosesWhole (BodyOf Q) (parseBlock block table st) where
  lands := by
    intro ts a rest hread
    obtain ⟨seg, hnet, hbody, rfl | ⟨rfl, -⟩⟩ :=
      blockReads_lands (wordHeads_blockHead block) hitem (reads_block_iff.mp hread)
    · exact ⟨seg, rfl, by omega, fun h => by omega⟩
    · have hclosed : net (seg ++ [.closeBrace]) = net seg - 1 := by
        rw [net_append, net_closeBrace, net_nil]
        omega
      refine ⟨seg ++ [.closeBrace], by simp, by omega, fun hzero => ?_⟩
      have hseg := hbody (by omega)
      exact ⟨seg, hseg.balanced, hseg, rfl⟩
  keeps := by
    intro inner _ hinner ts a rest hread
    obtain ⟨s₁, hend, -, hmore⟩ := blockReads_keeps (wordHeads_blockHead block) hitem hinner
      (.inr ⟨ts, rfl⟩) (reads_block_iff.mp hread)
    have hclose : blockHead block s₁ .closeBrace = .close := rfl
    obtain ⟨rfl, rfl⟩ := (blockReads_close_iff hclose).mp hend
    exact ⟨rfl, fun more => reads_block_iff.mpr
      (hmore _ (.inr ⟨more, rfl⟩) _ _ ((blockReads_close_iff hclose).mpr ⟨rfl, rfl⟩))⟩

/-- In a table every directive is read whole, where the nested ones are. -/
theorem whole_runDirective
    {table : Directives σ} {shapes : Shapes σ}
    (h : HasShapes table shapes) (hQ : ∀ d : Directive, d.block = none → Q d)
    (hnested : ∀ name d, table.lookup name = some d → shapes.lookup name = some none →
      ∀ st, ReadsWhole Q name (d st))
    (hunknown : ∀ name, table.lookup name = none → ∀ d : Directive, d.name = name → Q d)
    (name : Bytes) (st : σ) :
    ReadsWhole Q name (runDirective table unknownDirective name st) := by
  unfold runDirective
  rcases h.lookup name with ⟨htable, -⟩ | ⟨d, s, htable, hshape, hsimple⟩
  · rw [htable]
    exact whole_unknown (hunknown name htable) st
  · rw [htable]
    cases s with
    | none => exact hnested name d htable hshape st
    | some f => exact whole_simple (hsimple f rfl) (fun d _ hblock => hQ d hblock) st

end Whole

end ConfigParser
end RunNginx
