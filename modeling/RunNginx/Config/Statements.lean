import RunNginx.Config.Braces

/-!
# Complete directives

A `Directive` is a name, a row of words, and a semicolon or a block of balanced tokens.
A parser reads such a directive whole or not at all, whatever comes behind it, so that a
body of directives is read as one change of the state after the other.
-/

namespace RunNginx
namespace ConfigParser

open ByteString Parse

/-- A directive with its semicolon or its block. -/
structure Directive where
  name : Bytes
  args : List Bytes
  block : Option { inner : List Token // Balanced inner }
deriving DecidableEq

namespace Directive

/-- What ends the directive. -/
def tail (d : Directive) : List Token :=
  match d.block with
  | none => [.semicolon]
  | some inner => .openBrace :: (inner.1 ++ [.closeBrace])

/-- The tokens behind the name. -/
def text (d : Directive) : List Token :=
  words d.args ++ d.tail

def tokens (d : Directive) : List Token :=
  .word d.name :: d.text

theorem text_cases
    (d : Directive) :
    (d.block = none ∧ d.text = words d.args ++ [.semicolon]) ∨
      ∃ inner : List Token, Balanced inner ∧ d.block.map (·.1) = some inner ∧
        d.text = words d.args ++ .openBrace :: (inner ++ [.closeBrace]) := by
  cases h : d.block with
  | none => exact .inl ⟨rfl, by simp [text, tail, h]⟩
  | some inner => exact .inr ⟨inner.1, inner.2, rfl, by simp [text, tail, h]⟩

end Directive

/-- The tokens of a body. -/
def bodyTokens (ds : List Directive) : List Token :=
  ds.flatMap Directive.tokens

@[simp] theorem bodyTokens_nil : bodyTokens [] = [] := rfl

@[simp] theorem bodyTokens_cons
    (d : Directive) (ds : List Directive) :
    bodyTokens (d :: ds) = .word d.name :: (d.text ++ bodyTokens ds) := by
  simp [bodyTokens, Directive.tokens]

@[simp] theorem bodyTokens_append
    (ds more : List Directive) :
    bodyTokens (ds ++ more) = bodyTokens ds ++ bodyTokens more := by
  simp [bodyTokens]

section Reading

variable {σ α : Type}

/-- A row is read off a directive that has no block. -/
theorem ReadsRow.directive
    {p : Parser α} {q : List Bytes → Option α}
    (h : ReadsRow p q) (d : Directive) {ts rest : List Token} {a : α} :
    Reads p (d.text ++ ts) a rest ↔ d.block = none ∧ q d.args = some a ∧ rest = ts := by
  rw [h _ _ _]
  rcases d.text_cases with ⟨hblock, htext⟩ | ⟨inner, -, hblock, htext⟩
  · rw [htext]
    constructor
    · rintro ⟨args, heq, hq⟩
      rw [List.append_assoc, List.singleton_append] at heq
      obtain ⟨rfl, hrest⟩ := words_append_inj (noWord_semicolon _) (noWord_semicolon _) heq
      cases hrest
      exact ⟨hblock, hq, rfl⟩
    · rintro ⟨-, hq, rfl⟩
      exact ⟨d.args, by simp, hq⟩
  · rw [htext]
    constructor
    · rintro ⟨args, heq, -⟩
      rw [List.append_assoc, List.cons_append] at heq
      obtain ⟨-, hrest⟩ := words_append_inj (noWord_openBrace _) (noWord_semicolon _) heq
      cases hrest
    · rintro ⟨hnone, -⟩
      rw [hnone] at hblock
      cases hblock

/-- A directive that is not known is passed over whole. -/
theorem reads_skipDirective
    (d : Directive) (ts : List Token) :
    Reads skipDirective (d.text ++ ts) () ts := by
  rcases d.text_cases with ⟨-, htext⟩ | ⟨inner, hinner, -, htext⟩
  · rw [htext, List.append_assoc, List.singleton_append]
    refine reads_bind_iff.mpr ⟨d.args, _, reads_collectArgs_iff.mpr
      ⟨rfl, noWord_semicolon ts⟩, ?_⟩
    exact reads_bind_iff.mpr ⟨_, _, reads_peek_iff.mpr ⟨rfl, rfl⟩, reads_advance_iff.mpr rfl⟩
  · rw [htext, List.append_assoc, List.cons_append]
    refine reads_bind_iff.mpr ⟨d.args, _, reads_collectArgs_iff.mpr
      ⟨rfl, noWord_openBrace _⟩, ?_⟩
    refine reads_bind_iff.mpr ⟨_, _, reads_peek_iff.mpr ⟨rfl, rfl⟩, ?_⟩
    refine reads_bind_iff.mpr ⟨(), _, reads_advance_iff.mpr rfl, ?_⟩
    exact reads_skipBlock_iff.mpr
      (behindBlock_closes (closes_of_balanced hinner closes_nil)).symm

theorem reads_unknownDirective
    (d : Directive) {ts rest : List Token} {st st' : σ} :
    Reads (unknownDirective st) (d.text ++ ts) st' rest ↔ st' = st ∧ rest = ts := by
  have hread : Reads (unknownDirective st) (d.text ++ ts) st ts :=
    reads_bind_iff.mpr ⟨(), ts, reads_skipDirective d ts, reads_pure_iff.mpr ⟨rfl, rfl⟩⟩
  constructor
  · intro h
    exact h.unique hread
  · rintro ⟨rfl, rfl⟩
    exact hread

theorem stays_unknownDirective
    {k : Nat} (st : σ) :
    Stays (k + 1) (k + 1) (unknownDirective st) := by
  unfold unknownDirective skipDirective
  refine Stays.bind ?_ fun _ => stays_of_nothing (nothing_pure st)
  refine stays_collectArgs.bind fun _ => ?_
  intro seg ts u rest hseg hread
  cases seg with
  | nil => cases hseg
  | cons t seg =>
      obtain ⟨t', mid, hpeek, hread⟩ := reads_bind_iff.mp hread
      obtain ⟨rfl, rfl⟩ := reads_peek_iff.mp hpeek
      cases t with
      | semicolon =>
          obtain rfl := reads_advance_iff.mp hread
          exact ⟨seg, hseg, rfl, fun more => reads_bind_iff.mpr
            ⟨_, _, reads_peek_iff.mpr ⟨rfl, rfl⟩, reads_advance_iff.mpr rfl⟩⟩
      | openBrace =>
          obtain ⟨_, mid, hmid, hskip⟩ := reads_bind_iff.mp hread
          obtain rfl := reads_advance_iff.mp hmid
          obtain ⟨seg', hseg', hrest, hmore⟩ := stays_skipBlock seg ts u rest
            (closes_openBrace.mp hseg) hskip
          exact ⟨seg', hseg', hrest, fun more => reads_bind_iff.mpr
            ⟨_, _, reads_peek_iff.mpr ⟨rfl, rfl⟩,
              reads_bind_iff.mpr ⟨(), _, reads_advance_iff.mpr rfl, hmore more⟩⟩⟩
      | closeBrace =>
          obtain ⟨rfl, rfl⟩ := reads_pure_iff.mp hread
          exact ⟨.closeBrace :: seg, hseg, rfl, fun more => reads_bind_iff.mpr
            ⟨_, _, reads_peek_iff.mpr ⟨rfl, rfl⟩, reads_pure_iff.mpr ⟨rfl, rfl⟩⟩⟩
      | word w =>
          obtain ⟨rfl, rfl⟩ := reads_pure_iff.mp hread
          exact ⟨.word w :: seg, hseg, rfl, fun more => reads_bind_iff.mpr
            ⟨_, _, reads_peek_iff.mpr ⟨rfl, rfl⟩, reads_pure_iff.mpr ⟨rfl, rfl⟩⟩⟩

/-- In a table every directive has a shape, or stays within the open blocks. -/
theorem stays_runDirective
    {k : Nat} {table : Directives σ} {shapes : Shapes σ}
    (h : HasShapes table shapes)
    (hnested : ∀ name d, table.lookup name = some d → shapes.lookup name = some none →
      ∀ st, Stays (k + 1) (k + 1) (d st))
    (name : Bytes) (st : σ) :
    Stays (k + 1) (k + 1) (runDirective table unknownDirective name st) := by
  unfold runDirective
  rcases h.lookup name with ⟨htable, -⟩ | ⟨d, s, htable, hshape, hsimple⟩
  · rw [htable]
    exact stays_unknownDirective st
  · rw [htable]
    cases s with
    | none => exact hnested name d htable hshape st
    | some f => exact stays_of_simple (hsimple f rfl) st

/-- A block whose nested directives stay within it ends with its brace. -/
theorem stays_parseBlock
    {k : Nat} {block : Block} {table : Directives σ} {shapes : Shapes σ}
    (h : HasShapes table shapes)
    (hnested : ∀ name d, table.lookup name = some d → shapes.lookup name = some none →
      ∀ st, Stays (k + 1) (k + 1) (d st))
    (st : σ) :
    Stays (k + 1) k (parseBlock block table st) := by
  refine stays_block (stays_runDirective h hnested) ?_ ?_ ?_ ?_ st
  · intro s t hhead
    cases t <;> cases hhead
  · intro s t hhead
    cases t <;> cases hhead
    rfl
  · intro s t name hhead
    cases t <;> cases hhead
    exact ⟨_, rfl⟩
  · intro s t hhead
    cases t <;> cases hhead

/-- What a directive does to the state, where it is known by its shape or not at all. -/
def change (shapes : Shapes σ) (d : Directive) (st : σ) : Option σ :=
  match shapes.lookup d.name, d.block with
  | none, _ => some st
  | some (some f), none => f d.args st
  | some _, _ => none

theorem reads_runDirective_iff
    {table : Directives σ} {shapes : Shapes σ} {d : Directive} {st st' : σ}
    {ts rest : List Token}
    (h : HasShapes table shapes) (hd : shapes.lookup d.name ≠ some none) :
    Reads (runDirective table unknownDirective d.name st) (d.text ++ ts) st' rest ↔
      change shapes d st = some st' ∧ rest = ts := by
  unfold runDirective change
  rcases h.lookup d.name with ⟨htable, hshape⟩ | ⟨p, s, htable, hshape, hsimple⟩
  · simp only [htable, hshape, Option.getD_none, reads_unknownDirective, Option.some.injEq]
    rw [eq_comm]
  · cases s with
    | none => exact absurd hshape hd
    | some f =>
        rw [htable, hshape, Option.getD_some, (hsimple f rfl st).directive d]
        cases d.block with
        | none => simp
        | some inner => simp

/-- A body is read as one change after the other. -/
theorem blockReads_body_iff
    {block : Block} {table : Directives σ} {change : Directive → σ → Option σ}
    {ds : List Directive} {st st' : σ} {ts rest : List Token}
    (h : ∀ d ∈ ds, ∀ st st' ts rest,
      Reads (runDirective table unknownDirective d.name st) (d.text ++ ts) st' rest ↔
        change d st = some st' ∧ rest = ts) :
    BlockReads (blockHead block) (runDirective table unknownDirective) st
        (bodyTokens ds ++ ts) st' rest ↔
      ∃ mid, ds.foldlM (fun st d => change d st) st = some mid ∧
        BlockReads (blockHead block) (runDirective table unknownDirective) mid ts st' rest := by
  induction ds generalizing st with
  | nil => simp
  | cons d ds ih =>
      have hds := fun d' hd => h d' (List.mem_cons_of_mem d hd)
      rw [bodyTokens_cons, List.cons_append, List.append_assoc, blockReads_item_iff rfl,
        List.foldlM_cons]
      simp only [h d List.mem_cons_self]
      constructor
      · rintro ⟨st₁, mid, ⟨hd, rfl⟩, hrest⟩
        obtain ⟨last, hfold, hlast⟩ := (ih hds).mp hrest
        exact ⟨last, by simp [hd, hfold], hlast⟩
      · rintro ⟨last, hfold, hlast⟩
        obtain ⟨st₁, hd, hfold⟩ := Option.bind_eq_some_iff.mp hfold
        exact ⟨st₁, _, ⟨hd, rfl⟩, (ih hds).mpr ⟨last, hfold, hlast⟩⟩

/-- A block of complete directives. -/
theorem reads_parseBlock_iff
    {block : Block} {table : Directives σ} {change : Directive → σ → Option σ}
    {ds : List Directive} {st st' : σ} {ts rest : List Token}
    (h : ∀ d ∈ ds, ∀ st st' ts rest,
      Reads (runDirective table unknownDirective d.name st) (d.text ++ ts) st' rest ↔
        change d st = some st' ∧ rest = ts) :
    Reads (parseBlock block table st) (bodyTokens ds ++ .closeBrace :: ts) st' rest ↔
      ds.foldlM (fun st d => change d st) st = some st' ∧ rest = ts := by
  unfold parseBlock
  rw [reads_block_iff, blockReads_body_iff h]
  have hclose : ∀ mid : σ, blockHead block mid .closeBrace = .close := fun _ => rfl
  simp only [blockReads_close_iff (hclose _)]
  constructor
  · rintro ⟨mid, hfold, rfl, rfl⟩
    exact ⟨hfold, rfl⟩
  · rintro ⟨hfold, rfl⟩
    exact ⟨st', hfold, rfl, rfl⟩

end Reading

end ConfigParser
end RunNginx
