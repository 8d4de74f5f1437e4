import RunNginx.Config.Includes
import RunNginx.Config.ServerOrder
import RunNginx.Config.Whole

/-!
# Complete configurations

The parser of a whole file stops at the first token that starts no directive, and what
follows is not looked at; nor is a block that is still open at the end an error.
`Complete` says of a row of tokens that it is a sequence of whole directives, that the
block of each `events` holds directives without blocks and at least one of them, and that
no upstream group has a brace in it.

`accepted_complete`: an accepted text is read to its end and has all its braces in pairs
exactly where it is complete.
-/

namespace RunNginx
namespace ConfigParser

open ByteString Limits Parse

/-! ### Location and server blocks -/

section Server

variable {lib : Libraries}

theorem opens_locationDirective
    (st : ServerReader) :
    Opens (locationDirective lib st) fun args =>
      if maxLocationBlocks ≤ st.locationCount then Parse.fail .tooManyLocations
      else do
        let pattern ← Parse.ofExcept (parseLocationPattern lib args)
        let loc ← parseBlock .location (locationDirectives lib) .initial
        return st.add (loc.finish pattern) := by
  intro ts a rest
  unfold locationDirective
  split
  · constructor
    · intro h
      exact absurd h reads_fail_iff.mp
    · rintro ⟨args, mid, -, h⟩
      exact absurd h reads_fail_iff.mp
  · simp only [parseLocation, parseLocationHead, reads_bind_iff, reads_collectArgs_iff,
      reads_expectOpen_iff, reads_ofExcept_iff, reads_pure_iff]
    constructor
    · rintro ⟨loc, mid, ⟨pattern, mid₁, ⟨args, mid₂, ⟨rfl, hno⟩, _, mid₃, rfl, hpattern, rfl⟩, st',
        mid₄, hblock, rfl, rfl⟩, rfl, rfl⟩
      exact ⟨args, _, rfl, pattern, _, ⟨hpattern, rfl⟩, st', _, hblock, rfl, rfl⟩
    · rintro ⟨args, mid, rfl, pattern, _, ⟨hpattern, rfl⟩, st', mid₄, hblock, rfl, rfl⟩
      exact ⟨_, _, ⟨pattern, _, ⟨args, _, ⟨rfl, noWord_openBrace _⟩, (), _, rfl, hpattern, rfl⟩, st',
        _, hblock, rfl, rfl⟩, rfl, rfl⟩

theorem whole_locationItem
    (name : Bytes) (st : LocationReader) :
    ReadsWhole (fun _ => True) name
      (runDirective (locationDirectives lib) unknownDirective name st) :=
  whole_runDirective (locationDirectives_shapes lib) (fun _ _ => trivial)
    (fun name _ _ hnested => absurd hnested (locationShapes_simple lib name))
    (fun _ _ _ _ => trivial) name st

/-- The block of a location is closed whole, whatever it holds. -/
theorem closes_location
    (st : LocationReader) :
    ClosesWhole (fun _ => True) (parseBlock .location (locationDirectives lib) st) :=
  (closes_parseBlock whole_locationItem st).of_stays <|
    stays_parseBlock (locationDirectives_shapes lib)
      (fun name _ _ hnested => absurd hnested (locationShapes_simple lib name)) st

theorem whole_locationDirective
    (name : Bytes) (st : ServerReader) :
    ReadsWhole (fun _ => True) name (locationDirective lib st) := by
  refine whole_block (B := fun _ => True) (opens_locationDirective st) (fun args => ?_)
    fun _ _ => by simp
  split
  · exact closes_fail _
  · exact closes_after_nothing (nothing_ofExcept _) fun pattern =>
      (closes_location _).bind fun _ => nothing_pure _

/-- Of the directives of a server block only a location has a block. -/
theorem serverShapes_nested
    {name : Bytes}
    (h : serverShapes.lookup name = some none) :
    name = ascii "location" := by
  have hnames : ∀ entry ∈ serverShapes, entry.2 = none → entry.1 = ascii "location" := by
    simp [serverShapes]
  exact hnames _ (mem_of_lookup h) rfl

theorem locationDirective_of_lookup
    {name : Bytes} {d : ServerReader → Parser ServerReader}
    (hd : (serverDirectives lib).lookup name = some d) (h : serverShapes.lookup name = some none) :
    d = locationDirective lib := by
  obtain rfl := serverShapes_nested h
  exact (Option.some.inj hd).symm

theorem stays_locationDirective
    {k : Nat} (st : ServerReader) :
    Stays (k + 1) (k + 1) (locationDirective lib st) := by
  unfold locationDirective
  split
  · intro seg ts a rest _ hread
    exact absurd hread reads_fail_iff.mp
  · exact stays_parseLocation.bind fun _ => stays_of_nothing (nothing_pure _)

theorem whole_serverItem
    (name : Bytes) (st : ServerReader) :
    ReadsWhole (fun _ => True) name
      (runDirective (serverDirectives lib) unknownDirective name st) := by
  refine whole_runDirective (serverDirectives_shapes lib) (fun _ _ => trivial) ?_
    (fun _ _ _ _ => trivial) name st
  intro name d hd hnested st
  rw [locationDirective_of_lookup hd hnested]
  exact whole_locationDirective name st

/-- A server block is closed whole, whatever it holds. -/
theorem closes_server :
    ClosesWhole (fun _ => True) (parseServerBlock lib) := by
  refine ClosesWhole.bind ?_ fun st => nothing_pure _
  refine (closes_parseBlock whole_serverItem .initial).of_stays ?_
  refine stays_parseBlock (serverDirectives_shapes lib) ?_ _
  intro name d hd hnested st
  rw [locationDirective_of_lookup hd hnested]
  exact stays_locationDirective st

end Server

/-! ### Upstream groups -/

/-- There is no brace in the tokens. -/
def Flat (ts : List Token) : Prop :=
  ∀ t ∈ ts, t ≠ .openBrace ∧ t ≠ .closeBrace

theorem flat_words (args : List Bytes) : Flat (words args) := by
  intro t ht
  obtain ⟨w, -, rfl⟩ := List.mem_map.mp ht
  exact ⟨(fun h => nomatch h), fun h => nomatch h⟩

theorem Flat.append
    {ts ts' : List Token}
    (h : Flat ts) (h' : Flat ts') :
    Flat (ts ++ ts') := by
  intro t ht
  exact (List.mem_append.mp ht).elim (h t) (h' t)

theorem Flat.balanced
    {ts : List Token}
    (h : Flat ts) :
    Balanced ts := by
  induction ts with
  | nil => rfl
  | cons t ts ih =>
      have hts := ih fun t ht => h t (List.mem_cons_of_mem _ ht)
      cases t with
      | word w => exact hts
      | semicolon => exact hts
      | openBrace => exact absurd rfl (h _ List.mem_cons_self).1
      | closeBrace => exact absurd rfl (h _ List.mem_cons_self).2

theorem Flat.net
    {ts : List Token}
    (h : Flat ts) :
    net ts = 0 :=
  net_of_balanced h.balanced

/-- Words that stand in front of a closing brace. -/
theorem words_before_brace
    {args : List Bytes} {inner ts mid : List Token}
    (h : inner ++ .closeBrace :: ts = words args ++ mid) :
    ∃ inner', inner = words args ++ inner' ∧ mid = inner' ++ .closeBrace :: ts := by
  induction args generalizing inner with
  | nil => exact ⟨inner, rfl, h.symm⟩
  | cons w args ih =>
      cases inner with
      | nil => cases h
      | cons t inner =>
          simp only [List.cons_append, words_cons, List.cons.injEq] at h
          obtain ⟨rfl, h⟩ := h
          obtain ⟨inner', rfl, hmid'⟩ := ih h
          exact ⟨inner', rfl, hmid'⟩

/-- What an upstream block reads behind a word: a row of words, perhaps with its semicolon. -/
structure ReadsFlat {α : Type} (p : Parser α) : Prop where
  lands : ∀ ts a rest, Reads p ts a rest → ∃ front, ts = front ++ rest ∧ Flat front
  keeps : ∀ inner ts a rest, Reads p (inner ++ .closeBrace :: ts) a rest →
    ∃ front inner', inner = front ++ inner' ∧ rest = inner' ++ .closeBrace :: ts ∧
      ∀ more, Reads p (inner ++ .closeBrace :: more) a (inner' ++ .closeBrace :: more)

theorem flat_row
    {α : Type} {p : Parser α} {q : List Bytes → Option α}
    (h : ReadsRow p q) :
    ReadsFlat p where
  lands := by
    intro ts a rest hread
    obtain ⟨args, rfl, -⟩ := (h _ _ _).mp hread
    refine ⟨words args ++ [.semicolon], by simp, (flat_words args).append ?_⟩
    simp [Flat]
  keeps := by
    intro inner ts a rest hread
    obtain ⟨args, heq, hq⟩ := (h _ _ _).mp hread
    obtain ⟨inner', rfl, hrest⟩ := words_before_brace heq
    cases inner' with
    | nil => cases hrest
    | cons t inner' =>
        simp only [List.cons_append, List.cons.injEq] at hrest
        obtain ⟨rfl, rfl⟩ := hrest
        exact ⟨words args ++ [.semicolon], inner', by simp, rfl,
          fun more => (h _ _ _).mpr ⟨args, by simp, hq⟩⟩

/-- A row of words of which the semicolon may be missing. -/
theorem reads_looseRow_iff
    {α : Type} {v a : α} {ts rest : List Token} :
    Reads (do
      let _ ← collectArgs
      let t ← Parse.peek
      if t = some .semicolon then Parse.advance
      return v : Parser α) ts a rest ↔
      a = v ∧ ∃ args mid, ts = words args ++ mid ∧ NoWord mid ∧
        rest = if mid.head? = some .semicolon then mid.drop 1 else mid := by
  simp only [reads_bind_iff, reads_collectArgs_iff, reads_peek_iff]
  constructor
  · rintro ⟨args, mid, ⟨rfl, hno⟩, t, _, ⟨rfl, rfl⟩, hif⟩
    split at hif
    · rename_i hsemi
      obtain ⟨_, mid', hadvance, hpure⟩ := reads_bind_iff.mp hif
      obtain ⟨rfl, rfl⟩ := reads_pure_iff.mp hpure
      exact ⟨rfl, args, _, rfl, hno, by rw [if_pos hsemi]; exact reads_advance_iff.mp hadvance⟩
    · rename_i hsemi
      obtain ⟨rfl, rfl⟩ := reads_pure_iff.mp hif
      exact ⟨rfl, args, _, rfl, hno, by rw [if_neg hsemi]⟩
  · rintro ⟨rfl, args, mid, rfl, hno, rfl⟩
    refine ⟨args, mid, ⟨rfl, hno⟩, _, mid, ⟨rfl, rfl⟩, ?_⟩
    split
    · exact reads_bind_iff.mpr ⟨(), _, reads_advance_iff.mpr rfl, reads_pure_iff.mpr ⟨rfl, rfl⟩⟩
    · exact reads_pure_iff.mpr ⟨rfl, rfl⟩

/-- Without a block, a directive is read whole as such a row. -/
theorem whole_looseRow
    {α : Type} {v : α} {name : Bytes} :
    ReadsWhole (fun d => d.block = none) name (do
      let _ ← collectArgs
      let t ← Parse.peek
      if t = some .semicolon then Parse.advance
      return v : Parser α) where
  lands := by
    intro ts a rest hread
    obtain ⟨rfl, args, mid, rfl, hno, rfl⟩ := reads_looseRow_iff.mp hread
    split
    · rename_i hsemi
      obtain ⟨mid, rfl⟩ := List.head?_eq_some_iff.mp hsemi
      refine ⟨words args ++ [.semicolon], by simp, by simp, fun _ => .inl ?_⟩
      exact ⟨⟨name, args, none⟩, rfl, rfl, rfl⟩
    · rename_i hsemi
      exact ⟨words args, rfl, by simp, fun _ => .inr ⟨args, rfl, hno, hsemi⟩⟩
  keeps := by
    intro d _ hblock ts a rest hread
    have htext : ∀ more, d.text ++ more = words d.args ++ .semicolon :: more := by
      intro more
      simp [Directive.text, Directive.tail, hblock]
    rw [htext] at hread
    obtain ⟨rfl, args, mid, heq, hno, rfl⟩ := reads_looseRow_iff.mp hread
    obtain ⟨rfl, rfl⟩ := words_append_inj (noWord_semicolon ts) hno heq
    refine ⟨rfl, fun more => ?_⟩
    rw [htext]
    exact reads_looseRow_iff.mpr
      ⟨rfl, d.args, .semicolon :: more, rfl, noWord_semicolon more, rfl⟩
  keepsWords := by
    intro args ts a rest hend hread
    obtain ⟨rfl, args', mid, heq, hno, rfl⟩ := reads_looseRow_iff.mp hread
    obtain ⟨rfl, rfl⟩ := words_append_inj hend.stuck.1 hno heq
    rw [if_neg hend.stuck.2]
    refine ⟨rfl, fun more hmore => reads_looseRow_iff.mpr ⟨rfl, args, more, rfl, hmore.stuck.1, ?_⟩⟩
    rw [if_neg hmore.stuck.2]

theorem flat_unknownUpstream
    (g : UpstreamGroupDef) :
    ReadsFlat (unknownUpstreamDirective g) where
  lands := by
    intro ts a rest hread
    obtain ⟨rfl, args, mid, rfl, -, rfl⟩ := reads_looseRow_iff.mp hread
    split
    · rename_i hsemi
      obtain ⟨mid, rfl⟩ := List.head?_eq_some_iff.mp hsemi
      refine ⟨words args ++ [.semicolon], by simp, (flat_words args).append ?_⟩
      simp [Flat]
    · exact ⟨words args, rfl, flat_words args⟩
  keeps := by
    intro inner ts a rest hread
    obtain ⟨rfl, args, mid, heq, hno, rfl⟩ := reads_looseRow_iff.mp hread
    obtain ⟨inner', rfl, rfl⟩ := words_before_brace heq
    cases inner' with
    | nil =>
        refine ⟨words args, [], rfl, rfl, fun more => ?_⟩
        exact reads_looseRow_iff.mpr
          ⟨rfl, args, .closeBrace :: more, by simp, noWord_closeBrace more, rfl⟩
    | cons t inner' =>
        by_cases hsemi : t = .semicolon
        · subst hsemi
          refine ⟨words args ++ [.semicolon], inner', by simp, rfl, fun more => ?_⟩
          exact reads_looseRow_iff.mpr
            ⟨rfl, args, .semicolon :: (inner' ++ .closeBrace :: more), by simp,
              noWord_semicolon _, rfl⟩
        · have hhead : ∀ more, (t :: inner' ++ Token.closeBrace :: more).head? ≠
              some .semicolon := by
            simpa using hsemi
          rw [if_neg (hhead ts)]
          refine ⟨words args, t :: inner', rfl, rfl, fun more => ?_⟩
          refine reads_looseRow_iff.mpr
            ⟨rfl, args, t :: inner' ++ .closeBrace :: more, by simp, ?_, by rw [if_neg (hhead more)]⟩
          exact hno

theorem flat_upstreamDirective
    (name : Bytes) (g : UpstreamGroupDef) :
    ReadsFlat (runDirective upstreamDirectives unknownUpstreamDirective name g) := by
  have hsimple : ∀ entry ∈ upstreamShapes, entry.2 ≠ none := by
    simp [upstreamShapes]
  unfold runDirective
  rcases upstreamDirectives_shapes.lookup name with ⟨htable, -⟩ | ⟨d, s, htable, hshape, hrow⟩
  · rw [htable]
    exact flat_unknownUpstream g
  · rw [htable]
    cases s with
    | none => exact absurd rfl (hsimple _ (mem_of_lookup hshape))
    | some f => exact flat_row (hrow f rfl g)

/-- The block of an upstream group is closed whole where there is no brace in it. -/
theorem closes_upstream
    (g : UpstreamGroupDef) :
    ClosesWhole Flat (Parse.block upstreamHead
      (runDirective upstreamDirectives unknownUpstreamDirective) g) where
  lands := by
    intro ts a rest hread
    have hblock := reads_block_iff.mp hread
    have hgoal : ∃ seg, 0 ≤ net seg ∧ (net seg = 0 → Flat seg) ∧
        (ts = seg ++ rest ∨ ts = seg ++ .closeBrace :: rest) := by
      clear hread
      induction hblock with
      | eof => exact ⟨[], by simp, fun _ => by simp [Flat], .inl rfl⟩
      | @halt s t ts h => cases t <;> cases h
      | @close s t ts h =>
          obtain rfl : t = .closeBrace := by
            cases t <;> cases h
            rfl
          exact ⟨[], by simp, fun _ => by simp [Flat], .inr rfl⟩
      | @skip s s' t ts rest h _ ih =>
          obtain ⟨seg, hnet, hflat, hsplit⟩ := ih
          cases t with
          | word w => cases h
          | closeBrace => cases h
          | semicolon =>
              refine ⟨.semicolon :: seg, hnet, fun hzero => ?_, ?_⟩
              · have hsemi : Flat [.semicolon] := by simp [Flat]
                exact hsemi.append (hflat hzero)
              · exact hsplit.imp (congrArg (Token.semicolon :: ·)) (congrArg (Token.semicolon :: ·))
          | openBrace =>
              refine ⟨.openBrace :: seg, ?_, fun hzero => ?_, ?_⟩
              · rw [net_openBrace]
                omega
              · rw [net_openBrace] at hzero
                omega
              · exact hsplit.imp (congrArg (Token.openBrace :: ·)) (congrArg (Token.openBrace :: ·))
      | @item s s₁ s' t name ts mid rest h hone _ ih =>
          obtain ⟨front, rfl, hfront⟩ := (flat_upstreamDirective name s).lands _ _ _ hone
          obtain ⟨seg, hnet, hflat, hsplit⟩ := ih
          obtain ⟨w, rfl⟩ : ∃ w, t = .word w := by
            cases t <;> cases h
            exact ⟨_, rfl⟩
          have hword : Flat (.word w :: front) :=
            (flat_words [w]).append hfront
          refine ⟨.word w :: front ++ seg, ?_, fun hzero => ?_, ?_⟩
          · rw [net_append, hword.net]
            omega
          · rw [net_append, hword.net] at hzero
            exact hword.append (hflat (by omega))
          · rcases hsplit with rfl | rfl
            · exact .inl (by simp)
            · exact .inr (by simp)
    obtain ⟨seg, hnet, hflat, rfl | rfl⟩ := hgoal
    · exact ⟨seg, rfl, by omega, fun h => by omega⟩
    · have hclosed := net_concat_closeBrace seg
      refine ⟨seg ++ [.closeBrace], by simp, by omega, fun hone => ?_⟩
      have hseg := hflat (by omega)
      refine ⟨seg, ?_, hseg, rfl⟩
      exact hseg.balanced
  keeps := by
    intro inner hbalanced hinner ts a rest hread
    have hblock := reads_block_iff.mp hread
    clear hbalanced
    generalize hinput : inner ++ .closeBrace :: ts = input at hblock
    have hgoal : rest = ts ∧ ∀ more, BlockReads upstreamHead
        (runDirective upstreamDirectives unknownUpstreamDirective) g
        (inner ++ .closeBrace :: more) a more := by
      clear hread
      -- induction over what the block has read; the front is always free of braces
      induction hblock generalizing inner with
      | eof => cases inner <;> cases hinput
      | @halt s t input h => cases t <;> cases h
      | @close s t input h =>
          cases inner with
          | nil =>
              cases hinput
              exact ⟨rfl, fun more => .close rfl⟩
          | cons t' inner =>
              simp only [List.cons_append, List.cons.injEq] at hinput
              obtain ⟨rfl, -⟩ := hinput
              obtain rfl : t' = .closeBrace := by
                cases t' <;> cases h
                rfl
              exact absurd rfl (hinner _ List.mem_cons_self).2
      | @skip s s' t input rest h _ ih =>
          cases inner with
          | nil =>
              cases hinput
              cases h
          | cons t' inner =>
              simp only [List.cons_append, List.cons.injEq] at hinput
              obtain ⟨rfl, rfl⟩ := hinput
              obtain ⟨hrest, hmore⟩ :=
                ih inner (fun t ht => hinner t (List.mem_cons_of_mem _ ht)) rfl
              exact ⟨hrest, fun more => .skip h (hmore more)⟩
      | @item s s₁ s' t name input mid rest h hone _ ih =>
          cases inner with
          | nil =>
              cases hinput
              cases h
          | cons t' inner =>
              simp only [List.cons_append, List.cons.injEq] at hinput
              obtain ⟨rfl, rfl⟩ := hinput
              obtain ⟨front, inner', rfl, rfl, hmore⟩ :=
                (flat_upstreamDirective name s).keeps _ _ _ _ hone
              obtain ⟨hrest, hafter⟩ := ih inner'
                (fun t ht => hinner t (List.mem_cons_of_mem _ (List.mem_append_right _ ht))) rfl
              exact ⟨hrest, fun more => .item h (hmore more) (hafter more)⟩
    exact ⟨hgoal.1, fun more => reads_block_iff.mpr (hgoal.2 more)⟩

/-! ### The http block -/

/-- In an http block the braces of an upstream group are the ones around it. -/
def HttpWhole (d : Directive) : Prop :=
  d.name = ascii "upstream" → ∀ inner, d.block = some inner → Flat inner.1

section Http

variable {lib : Libraries} {files : ConfigFiles} {configPath : Bytes}

/-- An upstream group before its first directive. -/
def initialGroup (name : Bytes) : UpstreamGroupDef where
  name := name
  peers := []
  policy := ascii "round_robin"
  healthInterval := 0
  healthTimeout := 5
  failTimeout := 30
  maxFails := 3
  keepalive := 0

theorem opens_upstream
    (st : HttpReader) :
    Opens (parsed parseUpstream (onHttp fun g h =>
      { h with upstreamGroups := h.upstreamGroups ++ [g] }) st) fun args =>
      match args with
      | [name] => do
          let g ← Parse.block upstreamHead
            (runDirective upstreamDirectives unknownUpstreamDirective) (initialGroup name)
          return onHttp (fun g h => { h with upstreamGroups := h.upstreamGroups ++ [g] }) g st
      | _ => Parse.fail (.expectedWord none) := by
  intro ts a rest
  simp only [parsed, parseUpstream, reads_bind_iff, reads_expectWord_iff, reads_expectOpen_iff,
    reads_pure_iff]
  constructor
  · rintro ⟨g, mid, ⟨name, _, rfl, _, _, rfl, hblock⟩, rfl, rfl⟩
    exact ⟨[name], _, rfl, reads_bind_iff.mpr ⟨g, _, hblock, reads_pure_iff.mpr ⟨rfl, rfl⟩⟩⟩
  · rintro ⟨args, mid, rfl, hread⟩
    match args, hread with
    | [], hread => exact absurd hread reads_fail_iff.mp
    | [name], hread =>
        obtain ⟨g, mid', hblock, hpure⟩ := reads_bind_iff.mp hread
        obtain ⟨rfl, rfl⟩ := reads_pure_iff.mp hpure
        exact ⟨g, _, ⟨name, _, rfl, (), _, rfl, hblock⟩, rfl, rfl⟩
    | _ :: _ :: _, hread => exact absurd hread reads_fail_iff.mp

/-- The nested directives of an http block. -/
theorem httpShapes_nested
    {name : Bytes}
    (h : (httpShapes lib files configPath).lookup name = some none) :
    name = ascii "upstream" ∨ name = ascii "server" := by
  have hnames : ∀ entry ∈ httpShapes lib files configPath, entry.2 = none →
      entry.1 = ascii "upstream" ∨ entry.1 = ascii "server" := by
    simp [httpShapes]
  exact hnames _ (mem_of_lookup h) rfl

theorem whole_httpDirective
    (name : Bytes) (st : HttpReader) :
    ReadsWhole HttpWhole name
      (runDirective (httpDirectives lib files configPath) unknownDirective name st) := by
  refine whole_runDirective (httpDirectives_shapes lib files configPath) ?_ ?_ ?_ name st
  · intro d hblock _ inner hinner
    rw [hblock] at hinner
    cases hinner
  · intro name d hd hnested st
    rcases httpShapes_nested hnested with rfl | rfl
    · obtain rfl := (Option.some.inj hd).symm
      refine whole_block (opens_upstream st) (fun args => ?_)
        fun d hname => ⟨fun h => h hname, fun h _ => h⟩
      match args with
      | [] => exact closes_fail _
      | [name] => exact (closes_upstream _).bind fun _ => nothing_pure _
      | _ :: _ :: _ => exact closes_fail _
    · obtain rfl := (Option.some.inj hd).symm
      refine whole_block (B := fun _ => True) (opens_expectOpen _) (closes_expectOpen ?_) ?_
      · split
        · exact closes_fail _
        · exact closes_server.bind fun _ => nothing_pure _
      · intro d hname
        simp only [implies_true, iff_true]
        intro hupstream
        rw [hname] at hupstream
        exact absurd hupstream (by decide)
  · intro name hunknown d hname hupstream
    rw [← hname, hupstream] at hunknown
    cases hunknown

theorem closes_http : ClosesWhole (BodyOf HttpWhole) (parseHttpBlock lib files configPath) :=
  (closes_parseBlock whole_httpDirective _).bind fun _ => nothing_pure _

end Http

/-! ### The events block -/

/-- What an events block holds: directives without blocks, and at least one of them. -/
def EventsBody (inner : List Token) : Prop :=
  inner ≠ [] ∧ BodyOf (fun d => d.block = none) inner

theorem wordHeads_events : WordHeads eventsHead where
  word _ _ := rfl
  item s t name h := by
    cases t with
    | word w =>
        cases h
        rfl
    | closeBrace =>
        cases hfirst : s.first <;> simp [eventsHead, hfirst] at h
    | semicolon => cases h
    | openBrace => cases h
  close s t h := by
    cases t with
    | closeBrace => rfl
    | word w => cases h
    | semicolon => cases h
    | openBrace => cases h
  skip s t h := by
    cases t with
    | closeBrace =>
        cases hfirst : s.first <;> simp [eventsHead, hfirst] at h
    | word w => cases h
    | semicolon => cases h
    | openBrace => cases h

theorem whole_eventsDirective
    (name : Bytes) (st : EventsReader) :
    ReadsWhole (fun d => d.block = none) name (eventsDirective name st) := by
  unfold eventsDirective
  split
  · have hrow : ReadsRow (workerConnectionsDirective st.cfg) _ := simple_checkedWord _ _ st.cfg
    exact whole_row (hrow.bind fun cfg => nothing_pure _) fun d _ hblock => hblock
  · exact whole_looseRow

/-- Behind its first directive an events block ends at its brace. -/
theorem eventsDirective_first
    {name : Bytes} {st st' : EventsReader} {ts rest : List Token}
    (h : Reads (eventsDirective name st) ts st' rest) :
    st'.first = false := by
  unfold eventsDirective at h
  split at h
  · obtain ⟨cfg, mid, -, hpure⟩ := reads_bind_iff.mp h
    obtain ⟨rfl, -⟩ := reads_pure_iff.mp hpure
    rfl
  · obtain ⟨rfl, -⟩ := reads_looseRow_iff.mp h
    rfl

theorem closes_events
    (cfg : Config) :
    ClosesWhole EventsBody (Parse.block eventsHead eventsDirective ⟨cfg, true⟩) where
  lands := by
    intro ts a rest hread
    have hblock := reads_block_iff.mp hread
    obtain ⟨seg, hnet, hbody, rfl | ⟨rfl, hclose⟩⟩ :=
      blockReads_lands wordHeads_events whole_eventsDirective hblock
    · exact ⟨seg, rfl, by omega, fun h => by omega⟩
    · have hclosed := net_concat_closeBrace seg
      refine ⟨seg ++ [.closeBrace], by simp, by omega, fun hone => ?_⟩
      have hseg := hbody (by omega)
      refine ⟨seg, hseg.balanced, ⟨?_, hseg⟩, rfl⟩
      rintro rfl
      -- the brace of an empty block is not read
      obtain ⟨rfl, hrest | ⟨-, hclose⟩⟩ :=
        blockReads_stuck wordHeads_events (noWord_closeBrace rest) hblock
      · simpa using congrArg List.length hrest
      · cases hclose
  keeps := by
    intro inner _ hinner ts a rest hread
    obtain ⟨s₁, hend, hcause, hmore⟩ := blockReads_keeps wordHeads_events whole_eventsDirective
      hinner.2 (.inr ⟨ts, rfl⟩) (reads_block_iff.mp hread)
    have hfirst : s₁.first = false := by
      rcases hcause with ⟨hempty, -⟩ | ⟨name, s₀, ts₀, mid₀, hone⟩
      · exact absurd hempty hinner.1
      · exact eventsDirective_first hone
    have hclose : eventsHead s₁ .closeBrace = .close := by
      simp [eventsHead, hfirst]
    obtain ⟨rfl, rfl⟩ := (blockReads_close_iff hclose).mp hend
    exact ⟨rfl, fun more => reads_block_iff.mpr
      (hmore _ (.inr ⟨more, rfl⟩) _ _ ((blockReads_close_iff hclose).mpr ⟨rfl, rfl⟩))⟩

/-! ### Whole files -/

/-- At the root, the blocks that are looked into hold what they may. -/
def RootWhole (d : Directive) : Prop :=
  (d.name = ascii "events" → ∀ inner, d.block = some inner → EventsBody inner.1) ∧
    (d.name = ascii "http" → ∀ inner, d.block = some inner → BodyOf HttpWhole inner.1)

/-- The tokens are whole directives from the first to the last. -/
def Complete (ts : List Token) : Prop :=
  BodyOf RootWhole ts

section Root

variable (lib : Libraries) (files : ConfigFiles)

variable {lib files}

/-- The nested directives of the root. -/
theorem rootShapes_nested
    {path name : Bytes} {sub : Option (Bytes → List Token → Except ConfigError Config)}
    (h : (rootShapes lib files path sub).lookup name = some none) :
    name = ascii "events" ∨ name = ascii "http" := by
  have hnames : ∀ entry ∈ rootShapes lib files path sub, entry.2 = none →
      entry.1 = ascii "events" ∨ entry.1 = ascii "http" := by
    simp [rootShapes, namedShape]
  exact hnames _ (mem_of_lookup h) rfl

theorem wordHeads_root : WordHeads rootHead where
  word _ _ := rfl
  item s t name h := by
    cases t <;> cases h
    rfl
  close s t h := by
    cases t <;> cases h
  skip s t h := by
    cases t <;> cases h

theorem whole_rootDirective
    {path : Bytes} {sub : Option (Bytes → List Token → Except ConfigError Config)}
    (name : Bytes) (cfg : Config) :
    ReadsWhole RootWhole name
      (runDirective (rootDirectives lib files path sub) unknownDirective name cfg) := by
  refine whole_runDirective (rootDirectives_shapes lib files path sub) ?_ ?_ ?_ name cfg
  · intro d hblock
    constructor <;> intro _ inner hinner <;> rw [hblock] at hinner <;> cases hinner
  · intro name d hd hnested cfg
    rcases rootShapes_nested hnested with rfl | rfl
    · obtain rfl : eventsBlock = d := Option.some.inj hd
      refine whole_block (opens_expectOpen _)
        (closes_expectOpen ((closes_events cfg).bind fun _ => nothing_pure _)) ?_
      intro d hname
      have hhttp : ¬ d.name = ascii "http" := by
        rw [hname]
        decide
      exact ⟨fun h => h.1 hname, fun h => ⟨fun _ => h, fun hname => absurd hname hhttp⟩⟩
    · obtain rfl : httpDirective lib files path = d := Option.some.inj hd
      refine whole_block (opens_expectOpen _)
        (closes_expectOpen (closes_http.bind fun _ => nothing_pure _)) ?_
      intro d hname
      have hevents : ¬ d.name = ascii "events" := by
        rw [hname]
        decide
      exact ⟨fun h => h.2 hname, fun h => ⟨fun hname => absurd hname hevents, fun _ => h⟩⟩
  · intro name hunknown d hname
    constructor
    · intro hevents
      rw [← hname, hevents] at hunknown
      cases hunknown
    · intro hhttp
      rw [← hname, hhttp] at hunknown
      cases hunknown

/-- An accepted text is read to its end, with all braces in pairs, where it is complete. -/
theorem accepted_complete
    {src : Bytes} {cfg : Config}
    (h : loadFromStr lib files src = .ok cfg) :
    (Balanced (tokenize src) ∧
      Reads (rootParser lib files maxIncludeDepth (ascii "<string>")) (tokenize src) cfg []) ↔
      Complete (tokenize src) := by
  constructor
  · rintro ⟨hbalanced, hread⟩
    obtain ⟨seg, -, hbody, heq | ⟨-, hclose⟩⟩ :=
      blockReads_lands wordHeads_root whole_rootDirective (reads_block_iff.mp hread)
    · rw [List.append_nil] at heq
      rw [heq] at hbalanced ⊢
      exact hbody (net_of_balanced hbalanced)
    · cases hclose
  · intro hcomplete
    obtain ⟨rest, hread⟩ := (parseRoot_ok_iff lib files).mp h
    refine ⟨hcomplete.balanced, ?_⟩
    have hblock := reads_block_iff.mp hread
    rw [← List.append_nil (tokenize src)] at hblock
    obtain ⟨s₁, hend, -, -⟩ :=
      blockReads_keeps wordHeads_root whole_rootDirective hcomplete (.inl rfl) hblock
    cases hend
    exact hread

end Root

/-- An empty events block in front of everything else. -/
def emptyEvents : Bytes :=
  ascii "events { }\nhttp { server { listen 80; } }\n"

/-- No file but the one that is read. -/
def noFiles : ConfigFiles where
  glob _ := []
  read _ := none

/-- The brace of an empty events block ends the configuration: no server is read. -/
theorem emptyEvents_ignored :
    let lib : Libraries := ⟨fun _ => none, fun _ => none, fun _ => none⟩
    ∃ cfg rest,
      loadFromStr lib noFiles emptyEvents = .ok cfg ∧ cfg.http.servers = [] ∧
        Reads (rootParser lib noFiles maxIncludeDepth (ascii "<string>")) (tokenize emptyEvents)
          cfg rest ∧
        rest ≠ [] := by
  intro lib
  have htokens : tokenize emptyEvents =
      [.word (ascii "events"), .openBrace, .closeBrace, .word (ascii "http"), .openBrace,
        .word (ascii "server"), .openBrace, .word (ascii "listen"), .word (ascii "80"), .semicolon,
        .closeBrace, .closeBrace] := by
    decide
  have hread : Reads (rootParser lib noFiles maxIncludeDepth (ascii "<string>"))
      (tokenize emptyEvents) initialConfig
      [.closeBrace, .word (ascii "http"), .openBrace, .word (ascii "server"), .openBrace,
        .word (ascii "listen"), .word (ascii "80"), .semicolon, .closeBrace, .closeBrace] := by
    rw [htokens]
    refine reads_block_iff.mpr (.item rfl ?_ (.halt rfl))
    refine reads_bind_iff.mpr ⟨(), _, reads_expectOpen_iff.mpr rfl, ?_⟩
    exact reads_bind_iff.mpr ⟨_, _, reads_block_iff.mpr (.halt rfl), reads_pure_iff.mpr ⟨rfl, rfl⟩⟩
  exact ⟨_, _, (parseRoot_ok_iff lib noFiles).mpr ⟨_, hread⟩, rfl, hread, by simp⟩

theorem accepted_complete_example :
    (Balanced (tokenize (ascii "worker_processes auto;")) ∧
      Reads (rootParser bareLibraries noFiles maxIncludeDepth (ascii "<string>")) (tokenize (ascii "worker_processes auto;")) initialConfig []) ↔
      Complete (tokenize (ascii "worker_processes auto;")) :=
  accepted_complete rfl

end ConfigParser
end RunNginx
