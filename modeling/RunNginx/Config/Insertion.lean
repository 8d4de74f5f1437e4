import RunNginx.Config.Complete

/-!
# Directives that are not known

Every context skips the directives that it does not know, each with code of its own.
`BlockInserts` says that a directive stands in front of one of the directives of a loop,
or behind the last of them, or inside a nested block; `RootInserts` puts the contexts of a
configuration together.

`unknown_transparent_iff`: in which contexts, and in which form, such a directive can be
inserted into every configuration without a difference.
-/

namespace RunNginx
namespace ConfigParser

open ByteString Limits Parse

/-! ### Insertion into a loop -/

section Insertion

variable {σ : Type}

/-- Tokens are inserted between the directives that a loop reads, or inside one of them. -/
inductive BlockInserts (classify : σ → Token → Head Bytes ConfigError)
    (step : Bytes → σ → Parser σ) (inside : Bytes → σ → List Token → List Token → Prop)
    (here : σ → List Token → Prop) (x : List Token) : σ → List Token → List Token → Prop
  | here {s : σ} {ts : List Token} :
      here s ts → BlockInserts classify step inside here x s ts (x ++ ts)
  | skip {s : σ} {t : Token} {ts ts' : List Token} :
      classify s t = .skip → BlockInserts classify step inside here x s ts ts' →
      BlockInserts classify step inside here x s (t :: ts) (t :: ts')
  | behind {s s₁ : σ} {d : Directive} {ts ts' : List Token} :
      Reads (step d.name s) (d.text ++ ts) s₁ ts →
      BlockInserts classify step inside here x s₁ ts ts' →
      BlockInserts classify step inside here x s (.word d.name :: (d.text ++ ts))
        (.word d.name :: (d.text ++ ts'))
  | inside {s : σ} {name : Bytes} {ts ts' : List Token} :
      inside name s ts ts' →
      BlockInserts classify step inside here x s (.word name :: ts) (.word name :: ts')

variable {classify : σ → Token → Head Bytes ConfigError} {step : Bytes → σ → Parser σ}
variable {inside : Bytes → σ → List Token → List Token → Prop} {here : σ → List Token → Prop}
variable {x : List Token}

/-- What makes no difference in front of a loop and inside its directives makes none in it. -/
theorem blockReads_insert
    {R : σ × List Token → σ × List Token → Prop}
    (hword : ∀ s w, classify s (.word w) = .item w)
    (hhere : ∀ s ts s' rest, here s ts → BlockReads classify step s ts s' rest →
      ∃ s'' rest', BlockReads classify step s (x ++ ts) s'' rest' ∧ R (s', rest) (s'', rest'))
    (hbehind : ∀ (d : Directive) s s₁ ts ts', Reads (step d.name s) (d.text ++ ts) s₁ ts →
      Reads (step d.name s) (d.text ++ ts') s₁ ts')
    (hinside : ∀ name s s₁ ts ts' mid s' rest, inside name s ts ts' →
      Reads (step name s) ts s₁ mid → BlockReads classify step s₁ mid s' rest →
      ∃ s₂ mid' s'' rest', Reads (step name s) ts' s₂ mid' ∧
        BlockReads classify step s₂ mid' s'' rest' ∧ R (s', rest) (s'', rest'))
    {s s' : σ} {ts ts' rest : List Token}
    (hinserts : BlockInserts classify step inside here x s ts ts')
    (h : BlockReads classify step s ts s' rest) :
    ∃ s'' rest', BlockReads classify step s ts' s'' rest' ∧ R (s', rest) (s'', rest') := by
  induction hinserts with
  | here hs => exact hhere _ _ _ _ hs h
  | skip hskip _ ih =>
      cases h with
      | skip _ hrest =>
          obtain ⟨s'', rest', hreads, hR⟩ := ih hrest
          exact ⟨s'', rest', .skip hskip hreads, hR⟩
      | halt h => rw [hskip] at h; cases h
      | close h => rw [hskip] at h; cases h
      | item h => rw [hskip] at h; cases h
  | behind hone _ ih =>
      obtain ⟨s₂, mid, htwo, hrest⟩ := (blockReads_item_iff (hword _ _)).mp h
      obtain ⟨rfl, rfl⟩ := hone.unique htwo
      obtain ⟨s'', rest', hreads, hR⟩ := ih hrest
      exact ⟨s'', rest', .item (hword _ _) (hbehind _ _ _ _ _ hone) hreads, hR⟩
  | inside hin =>
      obtain ⟨s₁, mid, hone, hrest⟩ := (blockReads_item_iff (hword _ _)).mp h
      obtain ⟨s₂, mid', s'', rest', htwo, hreads, hR⟩ := hinside _ _ _ _ _ _ _ _ hin hone hrest
      exact ⟨s'', rest', .item (hword _ _) htwo hreads, hR⟩

/-- The same where nothing changes at all. -/
theorem blockReads_insert_same
    (hword : ∀ s w, classify s (.word w) = .item w)
    (hhere : ∀ s ts s' rest, here s ts → BlockReads classify step s ts s' rest →
      BlockReads classify step s (x ++ ts) s' rest)
    (hbehind : ∀ (d : Directive) s s₁ ts ts', Reads (step d.name s) (d.text ++ ts) s₁ ts →
      Reads (step d.name s) (d.text ++ ts') s₁ ts')
    (hinside : ∀ name s s₁ ts ts' mid, inside name s ts ts' → Reads (step name s) ts s₁ mid →
      Reads (step name s) ts' s₁ mid)
    {s s' : σ} {ts ts' rest : List Token}
    (hinserts : BlockInserts classify step inside here x s ts ts')
    (h : BlockReads classify step s ts s' rest) :
    BlockReads classify step s ts' s' rest := by
  obtain ⟨_, _, hreads, rfl, rfl⟩ := blockReads_insert (R := fun a b => b.1 = a.1 ∧ b.2 = a.2) hword
    (fun s ts s' rest hs h => ⟨s', rest, hhere s ts s' rest hs h, rfl, rfl⟩) hbehind
    (fun name s s₁ ts ts' mid s' rest hin hone hrest =>
      ⟨s₁, mid, s', rest, hinside name s s₁ ts ts' mid hin hone, hrest, rfl, rfl⟩) hinserts h
  exact hreads

/-- An unknown directive in front of a loop. -/
theorem blockReads_unknown
    {table : Directives σ} {d : Directive} {s s' : σ} {ts rest : List Token}
    (hword : ∀ s w, classify s (.word w) = .item w) (hname : d.name ∉ table.map Prod.fst)
    (h : BlockReads classify (runDirective table unknownDirective) s ts s' rest) :
    BlockReads classify (runDirective table unknownDirective) s (d.tokens ++ ts) s' rest := by
  have hlookup : table.lookup d.name = none := by
    refine List.lookup_eq_none_iff.mpr fun entry hentry => ?_
    simpa using fun heq => hname (List.mem_map.mpr ⟨entry, hentry, heq.symm⟩)
  have hrun : runDirective table unknownDirective d.name s = unknownDirective s := by
    rw [runDirective, hlookup]
    rfl
  refine .item (hword s d.name) ?_ h
  rw [hrun]
  exact (reads_unknownDirective d).mpr ⟨rfl, rfl⟩

/-- A row of words is no whole directive. -/
theorem Directive.text_ne_words
    (d : Directive) (args : List Bytes) :
    words args ≠ d.text := by
  intro h
  rw [← List.append_nil (words args)] at h
  rcases d.text_cases with ⟨-, htext⟩ | ⟨inner, -, -, htext⟩
  · rw [htext] at h
    have := (words_append_inj noWord_nil (noWord_semicolon []) h).2
    cases this
  · rw [htext] at h
    have := (words_append_inj noWord_nil (noWord_openBrace _) h).2
    cases this

/-- A whole directive does not look at what comes behind it. -/
theorem ReadsWhole.behind
    {Q : Directive → Prop} {p : Parser σ} {d : Directive} {a : σ} {ts : List Token}
    (hp : ReadsWhole Q d.name p) (h : Reads p (d.text ++ ts) a ts) (ts' : List Token) :
    Reads p (d.text ++ ts') a ts' := by
  obtain ⟨seg, heq, -, hwhole⟩ := hp.lands _ _ _ h
  obtain rfl : d.text = seg := List.append_cancel_right heq
  rcases hwhole (net_of_balanced d.balanced_text) with ⟨d', hname, htext, hd'⟩ | ⟨args, htext, -⟩
  · rw [← htext] at h ⊢
    exact (hp.keeps d' hname hd' _ _ _ h).2 ts'
  · exact absurd htext (d.text_ne_words args)

/-- The insertion is inside the block of a directive of this name. -/
def InsertsBody (nested : Bytes) (body : List Bytes → List Token → List Token → Prop)
    (name : Bytes) (ts ts' : List Token) : Prop :=
  name = nested ∧ ∃ args mid mid', ts = words args ++ .openBrace :: mid ∧
    ts' = words args ++ .openBrace :: mid' ∧ body args mid mid'

theorem Opens.reads_iff
    {p : Parser σ} {body : List Bytes → Parser σ} {args : List Bytes} {mid rest : List Token}
    {a : σ}
    (h : Opens p body) :
    Reads p (words args ++ .openBrace :: mid) a rest ↔ Reads (body args) mid a rest := by
  rw [h _ _ _]
  constructor
  · rintro ⟨args', mid', heq, hread⟩
    obtain ⟨rfl, hmid⟩ := words_append_inj (noWord_openBrace _) (noWord_openBrace _) heq
    obtain rfl := (List.cons.inj hmid).2
    exact hread
  · intro hread
    exact ⟨args, mid, rfl, hread⟩

end Insertion

/-! ### Insertion into a configuration -/

/-- What directives stand in; an events block without any directive counts by itself. -/
inductive Place
  | root
  | events
  | emptyEvents
  | http
  | upstream
  | server
  | location
deriving DecidableEq

/-- A directive ends with a semicolon or with a block. -/
inductive Form
  | simple
  | block
deriving DecidableEq

def Directive.form (d : Directive) : Form :=
  match d.block with
  | none => .simple
  | some _ => .block

/-- Does the context skip unknown directives of this form? -/
def Place.skips : Place → Form → Bool
  | .events, .block => false
  | .emptyEvents, .simple => false
  | .upstream, .block => false
  | _, _ => true

section Places

variable (lib : Libraries) (files : ConfigFiles) (path : Bytes)

/-- The names that a context knows. -/
def Place.names : Place → List Bytes
  | .root => (rootDirectives lib files path none).map Prod.fst
  | .events => [ascii "worker_connections"]
  | .emptyEvents => [ascii "worker_connections"]
  | .http => (httpDirectives lib files path).map Prod.fst
  | .upstream => upstreamDirectives.map Prod.fst
  | .server => (serverDirectives lib).map Prod.fst
  | .location => (locationDirectives lib).map Prod.fst

variable (k : Place) (x : List Token)

def LocationInserts : LocationReader → List Token → List Token → Prop :=
  BlockInserts (blockHead .location) (runDirective (locationDirectives lib) unknownDirective)
    (fun _ _ _ _ => False) (fun _ _ => k = .location) x

def ServerInserts : ServerReader → List Token → List Token → Prop :=
  BlockInserts (blockHead .server) (runDirective (serverDirectives lib) unknownDirective)
    (fun name _ => InsertsBody (ascii "location")
      (fun _ => LocationInserts lib k x .initial) name)
    (fun _ _ => k = .server) x

def UpstreamInserts : UpstreamGroupDef → List Token → List Token → Prop :=
  BlockInserts upstreamHead (runDirective upstreamDirectives unknownUpstreamDirective)
    (fun _ _ _ _ => False) (fun _ _ => k = .upstream) x

def HttpInserts : HttpReader → List Token → List Token → Prop :=
  BlockInserts (blockHead .http) (runDirective (httpDirectives lib files path) unknownDirective)
    (fun name _ ts ts' =>
      InsertsBody (ascii "server") (fun _ => ServerInserts lib k x .initial) name ts ts' ∨
        InsertsBody (ascii "upstream")
          (fun args mid mid' => ∃ group, args = [group] ∧
            UpstreamInserts k x (initialGroup group) mid mid') name ts ts')
    (fun _ _ => k = .http) x

def EventsInserts : EventsReader → List Token → List Token → Prop :=
  BlockInserts eventsHead eventsDirective (fun _ _ _ _ => False)
    (fun st ts => if st.first = true ∧ ts.head? = some .closeBrace then k = .emptyEvents
      else k = .events) x

def RootInserts (depth : Nat) : Config → List Token → List Token → Prop :=
  BlockInserts rootHead (runDirective
      (rootDirectives lib files path (includedParser lib files depth)) unknownDirective)
    (fun name cfg ts ts' =>
      InsertsBody (ascii "http") (fun _ => HttpInserts lib files path k x ⟨.default, 0⟩) name ts ts' ∨
        InsertsBody (ascii "events") (fun _ => EventsInserts k x ⟨cfg, true⟩) name ts ts')
    (fun _ _ => k = .root) x

end Places

section Transparent

variable {lib : Libraries} {files : ConfigFiles} {path : Bytes} {k : Place} {d : Directive}

theorem location_insert
    {st st' : LocationReader} {ts ts' rest : List Token}
    (hname : d.name ∉ k.names lib files path)
    (hinserts : LocationInserts lib k d.tokens st ts ts')
    (h : Reads (parseBlock .location (locationDirectives lib) st) ts st' rest) :
    Reads (parseBlock .location (locationDirectives lib) st) ts' st' rest := by
  refine reads_block_iff.mpr (blockReads_insert_same (fun _ _ => rfl) ?_ ?_ ?_ hinserts
    (reads_block_iff.mp h))
  · rintro s ts s' rest rfl hreads
    exact blockReads_unknown (fun _ _ => rfl) hname hreads
  · intro e s s₁ ts ts' hone
    have hwhole : ReadsWhole (fun _ => True) e.name
        (runDirective (locationDirectives lib) unknownDirective e.name s) :=
      whole_locationItem e.name s
    exact hwhole.behind hone ts'
  · intro name s s₁ ts ts' mid hin
    exact hin.elim

theorem server_insert
    {st st' : ServerReader} {ts ts' rest : List Token}
    (hname : d.name ∉ k.names lib files path)
    (hinserts : ServerInserts lib k d.tokens st ts ts')
    (h : Reads (parseBlock .server (serverDirectives lib) st) ts st' rest) :
    Reads (parseBlock .server (serverDirectives lib) st) ts' st' rest := by
  refine reads_block_iff.mpr (blockReads_insert_same (fun _ _ => rfl) ?_ ?_ ?_ hinserts
    (reads_block_iff.mp h))
  · rintro s ts s' rest rfl hreads
    exact blockReads_unknown (fun _ _ => rfl) hname hreads
  · intro e s s₁ ts ts' hone
    exact (whole_serverItem e.name s).behind hone ts'
  · rintro name s s₁ ts ts' rest ⟨rfl, args, mid, mid', rfl, rfl, hbody⟩ hone
    have hopens : Opens (runDirective (serverDirectives lib) unknownDirective
        (ascii "location") s) _ := opens_locationDirective s
    rw [hopens.reads_iff] at hone ⊢
    split at hone
    · exact absurd hone reads_fail_iff.mp
    · rename_i hroom
      rw [if_neg hroom]
      obtain ⟨pattern, mid₁, hnothing, hrest⟩ := reads_bind_iff.mp hone
      obtain ⟨hpattern, rfl⟩ := reads_ofExcept_iff.mp hnothing
      obtain ⟨loc, mid₂, hblock, hpure⟩ := reads_bind_iff.mp hrest
      exact reads_bind_iff.mpr ⟨pattern, _, reads_ofExcept_iff.mpr ⟨hpattern, rfl⟩,
        reads_bind_iff.mpr ⟨loc, _, location_insert hname hbody hblock, hpure⟩⟩

/-- An upstream block reads whole what has no block. -/
theorem whole_upstreamItem
    (name : Bytes) (g : UpstreamGroupDef) :
    ReadsWhole (fun d => d.block = none) name
      (runDirective upstreamDirectives unknownUpstreamDirective name g) := by
  have hsimple : ∀ entry ∈ upstreamShapes, entry.2 ≠ none := by
    simp [upstreamShapes]
  unfold runDirective
  rcases upstreamDirectives_shapes.lookup name with ⟨htable, -⟩ | ⟨p, s, htable, hshape, hrow⟩
  · rw [htable]
    exact whole_looseRow
  · rw [htable]
    cases s with
    | none => exact absurd rfl (hsimple _ (mem_of_lookup hshape))
    | some f => exact whole_simple (hrow f rfl) (fun d _ hblock => hblock) g

/-- A directive without a block is its words and a semicolon. -/
theorem Directive.text_of_simple
    {d : Directive}
    (h : d.form = .simple) (ts : List Token) :
    d.text ++ ts = words d.args ++ .semicolon :: ts := by
  obtain ⟨name, args, block⟩ := d
  cases block with
  | none => simp [Directive.text, Directive.tail]
  | some inner => cases h

theorem upstream_insert
    {g g' : UpstreamGroupDef} {ts ts' rest : List Token}
    (hname : d.name ∉ k.names lib files path) (hskips : k.skips d.form = true)
    (hinserts : UpstreamInserts k d.tokens g ts ts')
    (h : BlockReads upstreamHead (runDirective upstreamDirectives unknownUpstreamDirective)
      g ts g' rest) :
    BlockReads upstreamHead (runDirective upstreamDirectives unknownUpstreamDirective)
      g ts' g' rest := by
  refine blockReads_insert_same (fun _ _ => rfl) ?_ ?_ ?_ hinserts h
  · rintro s ts s' rest rfl hreads
    have hform : d.form = .simple := by
      cases hform : d.form with
      | simple => rfl
      | block =>
          rw [hform] at hskips
          cases hskips
    have hlookup : upstreamDirectives.lookup d.name = none := by
      refine List.lookup_eq_none_iff.mpr fun entry hentry => ?_
      simpa using fun heq => hname (List.mem_map.mpr ⟨entry, hentry, heq.symm⟩)
    have hrun : runDirective upstreamDirectives unknownUpstreamDirective d.name s =
        unknownUpstreamDirective s := by
      rw [runDirective, hlookup]
      rfl
    have hskip : Reads (runDirective upstreamDirectives unknownUpstreamDirective d.name s)
        (d.text ++ ts) s ts := by
      rw [hrun, Directive.text_of_simple hform]
      exact reads_looseRow_iff.mpr ⟨rfl, d.args, .semicolon :: ts, rfl, noWord_semicolon ts, rfl⟩
    exact .item rfl hskip hreads
  · intro e s s₁ ts ts' hone
    exact (whole_upstreamItem e.name s).behind hone ts'
  · intro name s s₁ ts ts' mid hin
    exact hin.elim

theorem http_insert
    {st st' : HttpReader} {ts ts' rest : List Token}
    (hname : d.name ∉ k.names lib files path) (hskips : k.skips d.form = true)
    (hinserts : HttpInserts lib files path k d.tokens st ts ts')
    (h : Reads (parseBlock .http (httpDirectives lib files path) st) ts st' rest) :
    Reads (parseBlock .http (httpDirectives lib files path) st) ts' st' rest := by
  refine reads_block_iff.mpr (blockReads_insert_same (fun _ _ => rfl) ?_ ?_ ?_ hinserts
    (reads_block_iff.mp h))
  · rintro s ts s' rest rfl hreads
    exact blockReads_unknown (fun _ _ => rfl) hname hreads
  · intro e s s₁ ts ts' hone
    exact (whole_httpDirective e.name s).behind hone ts'
  · rintro name s s₁ ts ts' rest (⟨rfl, args, mid, mid', rfl, rfl, hbody⟩ |
      ⟨rfl, args, mid, mid', rfl, rfl, group, rfl, hbody⟩) hone
    · have hopens : Opens (runDirective (httpDirectives lib files path) unknownDirective
          (ascii "server") s) _ := opens_expectOpen _
      rw [hopens.reads_iff] at hone ⊢
      split at hone
      · rename_i hargs
        rw [if_pos hargs]
        split at hone
        · exact absurd hone reads_fail_iff.mp
        · rename_i hroom
          rw [if_neg hroom]
          obtain ⟨server, mid₁, hserver, hpure⟩ := reads_bind_iff.mp hone
          obtain ⟨st₁, mid₂, hblock, hpure'⟩ := reads_bind_iff.mp hserver
          exact reads_bind_iff.mpr ⟨server, mid₁, reads_bind_iff.mpr
            ⟨st₁, mid₂, server_insert hname hbody hblock, hpure'⟩, hpure⟩
      · exact absurd hone reads_fail_iff.mp
    · have hopens : Opens (runDirective (httpDirectives lib files path) unknownDirective
          (ascii "upstream") s) _ := opens_upstream s
      rw [hopens.reads_iff] at hone ⊢
      obtain ⟨g, mid₁, hblock, hpure⟩ := reads_bind_iff.mp hone
      refine reads_bind_iff.mpr ⟨g, mid₁, reads_block_iff.mpr ?_, hpure⟩
      exact upstream_insert hname hskips hbody (reads_block_iff.mp hblock)

/-- No directive starts with the first token. -/
def Halting (ts : List Token) : Prop :=
  ∃ t ts', ts = t :: ts' ∧ ∀ w, t ≠ .word w

/-- Whether a directive stands in front of it makes no difference to an events block, unless
the block would be empty without it. -/
theorem events_first
    {st s' : EventsReader} {ts rest : List Token}
    (hts : ¬ (st.first = true ∧ ts.head? = some .closeBrace))
    (h : BlockReads eventsHead eventsDirective st ts s' rest) :
    ∃ s'', BlockReads eventsHead eventsDirective ⟨st.cfg, false⟩ ts s'' rest ∧
      s''.cfg = s'.cfg := by
  cases h with
  | eof => exact ⟨⟨st.cfg, false⟩, .eof _, rfl⟩
  | @halt _ t ts h =>
      refine ⟨⟨st.cfg, false⟩, .halt ?_, rfl⟩
      cases t with
      | word w => cases h
      | semicolon => rfl
      | openBrace => rfl
      | closeBrace =>
          cases hfirst : st.first with
          | true => exact absurd ⟨hfirst, rfl⟩ hts
          | false => simp [eventsHead, hfirst] at h
  | close h =>
      obtain rfl := wordHeads_events.close _ _ h
      exact ⟨⟨st.cfg, false⟩, .close rfl, rfl⟩
  | skip h => exact absurd h (wordHeads_events.skip _ _)
  | item h hone hrest =>
      obtain rfl := wordHeads_events.item _ _ _ h
      exact ⟨s', .item rfl hone hrest, rfl⟩

theorem events_insert
    {cfg : Config} {st : EventsReader} {ts ts' rest : List Token}
    (hname : d.name ∉ k.names lib files path) (hskips : k.skips d.form = true)
    (hinserts : EventsInserts k d.tokens ⟨cfg, true⟩ ts ts')
    (h : BlockReads eventsHead eventsDirective ⟨cfg, true⟩ ts st rest) :
    ∃ st' rest', BlockReads eventsHead eventsDirective ⟨cfg, true⟩ ts' st' rest' ∧
      st'.cfg = st.cfg ∧ (rest' = rest ∨ (Halting rest ∧ Halting rest')) := by
  refine blockReads_insert
    (R := fun a b => b.1.cfg = a.1.cfg ∧ (b.2 = a.2 ∨ (Halting a.2 ∧ Halting b.2)))
    (fun _ _ => rfl) ?_ ?_ ?_ hinserts h
  · intro s ts s' rest hhere hreads
    by_cases hempty : s.first = true ∧ ts.head? = some .closeBrace
    · -- the block was empty, and a block of its own ends it just as its brace did
      rw [if_pos hempty] at hhere
      subst hhere
      obtain ⟨hfirst, hhead⟩ := hempty
      obtain ⟨ts, rfl⟩ := List.head?_eq_some_iff.mp hhead
      have hhalt : eventsHead s .closeBrace = .halt := by
        simp [eventsHead, hfirst]
      obtain ⟨rfl, rfl⟩ : s' = s ∧ rest = .closeBrace :: ts := by
        obtain ⟨hs, hrest | ⟨-, hclose⟩⟩ :=
          blockReads_stuck wordHeads_events (noWord_closeBrace ts) hreads
        · exact ⟨hs, hrest.symm⟩
        · rw [hhalt] at hclose
          cases hclose
      obtain ⟨name, args, block⟩ := d
      cases block with
      | none => cases hskips
      | some inner =>
          have hskip : Reads (eventsDirective name s')
              ((⟨name, args, some inner⟩ : Directive).text ++ .closeBrace :: ts) ⟨s'.cfg, false⟩
              (.openBrace :: (inner.1 ++ [.closeBrace] ++ .closeBrace :: ts)) := by
            unfold eventsDirective
            rw [if_neg (by simpa [Place.names] using hname)]
            refine reads_looseRow_iff.mpr ⟨rfl, args, _, ?_, noWord_openBrace _, rfl⟩
            simp [Directive.text, Directive.tail]
          exact ⟨_, _, .item rfl hskip (.halt rfl), rfl, .inr ⟨⟨_, _, rfl, by simp⟩,
            ⟨_, _, rfl, by simp⟩⟩⟩
    · rw [if_neg hempty] at hhere
      subst hhere
      have hform : d.form = .simple := by
        cases hform : d.form with
        | simple => rfl
        | block =>
            rw [hform] at hskips
            cases hskips
      have hskip : Reads (eventsDirective d.name s) (d.text ++ ts) ⟨s.cfg, false⟩ ts := by
        unfold eventsDirective
        rw [if_neg (by simpa [Place.names] using hname), Directive.text_of_simple hform]
        exact reads_looseRow_iff.mpr ⟨rfl, d.args, .semicolon :: ts, rfl, noWord_semicolon ts, rfl⟩
      obtain ⟨s'', hafter, hcfg⟩ := events_first hempty hreads
      exact ⟨s'', rest, .item rfl hskip hafter, hcfg, .inl rfl⟩
  · intro e s s₁ ts ts' hone
    exact (whole_eventsDirective e.name s).behind hone ts'
  · intro name s s₁ ts ts' mid s' rest hin
    exact hin.elim

theorem root_insert
    {depth : Nat} {cfg cfg' : Config} {ts ts' rest : List Token}
    (hname : d.name ∉ k.names lib files path) (hskips : k.skips d.form = true)
    (hinserts : RootInserts lib files path k d.tokens depth cfg ts ts')
    (h : BlockReads rootHead (runDirective
      (rootDirectives lib files path (includedParser lib files depth)) unknownDirective)
      cfg ts cfg' rest) :
    ∃ rest', BlockReads rootHead (runDirective
      (rootDirectives lib files path (includedParser lib files depth)) unknownDirective)
      cfg ts' cfg' rest' := by
  have hgoal := blockReads_insert (R := fun a b => b.1 = a.1) (fun _ _ => rfl) ?_ ?_ ?_ hinserts h
  · obtain ⟨_, rest', hreads, rfl⟩ := hgoal
    exact ⟨rest', hreads⟩
  · rintro s ts s' rest rfl hreads
    exact ⟨s', rest, blockReads_unknown (fun _ _ => rfl) hname hreads, rfl⟩
  · intro e s s₁ ts ts' hone
    exact (whole_rootDirective e.name s).behind hone ts'
  · rintro name s s₁ ts ts' mid₁ s' rest (⟨rfl, args, mid, mid', rfl, rfl, hbody⟩ |
      ⟨rfl, args, mid, mid', rfl, rfl, hbody⟩) hone hreads
    · have hopens : Opens (runDirective (rootDirectives lib files path
          (includedParser lib files depth)) unknownDirective (ascii "http") s) _ :=
        opens_expectOpen _
      refine ⟨s₁, mid₁, s', rest, ?_, hreads, rfl⟩
      rw [hopens.reads_iff] at hone ⊢
      split at hone
      · rename_i hargs
        rw [if_pos hargs]
        obtain ⟨http, mid₂, hhttp, hpure⟩ := reads_bind_iff.mp hone
        obtain ⟨st₁, mid₃, hblock, hpure'⟩ := reads_bind_iff.mp hhttp
        exact reads_bind_iff.mpr ⟨http, mid₂, reads_bind_iff.mpr
          ⟨st₁, mid₃, http_insert hname hskips hbody hblock, hpure'⟩, hpure⟩
      · exact absurd hone reads_fail_iff.mp
    · have hopens : Opens (runDirective (rootDirectives lib files path
          (includedParser lib files depth)) unknownDirective (ascii "events") s) _ :=
        opens_expectOpen _
      rw [hopens.reads_iff] at hone
      split at hone
      · rename_i hargs
        obtain ⟨st₁, mid₂, hblock, hpure⟩ := reads_bind_iff.mp hone
        obtain ⟨rfl, rfl⟩ := reads_pure_iff.mp hpure
        obtain ⟨st₂, mid₃, hblock', hcfg, hmid⟩ :=
          events_insert hname hskips hbody (reads_block_iff.mp hblock)
        have hone' : Reads (runDirective (rootDirectives lib files path
            (includedParser lib files depth)) unknownDirective (ascii "events") s)
            (words args ++ .openBrace :: mid') st₁.cfg mid₃ := by
          rw [hopens.reads_iff, if_pos hargs]
          exact reads_bind_iff.mpr ⟨st₂, mid₃, reads_block_iff.mpr hblock',
            reads_pure_iff.mpr ⟨hcfg.symm, rfl⟩⟩
        rcases hmid with rfl | ⟨⟨t, tail, rfl, ht⟩, t', tail', rfl, ht'⟩
        · exact ⟨_, _, s', rest, hone', hreads, rfl⟩
        · have hhalt : ∀ {t : Token}, (∀ w, t ≠ .word w) → rootHead st₁.cfg t = .halt := by
            intro t ht
            cases t with
            | word w => exact absurd rfl (ht w)
            | semicolon => rfl
            | openBrace => rfl
            | closeBrace => rfl
          have hno : NoWord (t :: tail) := by
            intro w hw
            exact ht w (Option.some.inj hw)
          obtain ⟨rfl, -⟩ := blockReads_stuck wordHeads_root hno hreads
          exact ⟨_, _, _, _, hone', .halt (hhalt ht'), rfl⟩
      · exact absurd hone reads_fail_iff.mp

/-- A context skips unknown directives of a form: inserted anywhere in it, they make no
difference to any configuration that parses. -/
def Transparent (k : Place) (form : Form) : Prop :=
  ∀ (lib : Libraries) (files : ConfigFiles) (path : Bytes) (depth : Nat) (d : Directive)
    (ts ts' : List Token) (cfg : Config),
    d.form = form → d.name ∉ k.names lib files path →
    RootInserts lib files path k d.tokens depth initialConfig ts ts' →
    parseRoot lib files depth path ts = .ok cfg → parseRoot lib files depth path ts' = .ok cfg

theorem transparent_of_skips
    {form : Form}
    (h : k.skips form = true) :
    Transparent k form := by
  rintro lib files path depth d ts ts' cfg rfl hname hinserts hparse
  obtain ⟨rest, hread⟩ := (parseRoot_ok_iff lib files).mp hparse
  obtain ⟨rest', hreads⟩ := root_insert hname h hinserts (reads_block_iff.mp hread)
  exact (parseRoot_ok_iff lib files).mpr ⟨rest', reads_block_iff.mpr hreads⟩

end Transparent

/-! ### The contexts that do not skip -/

/-- The number of servers that are read off the tokens. -/
def serverCount (ts : List Token) : Option Nat :=
  (parseRoot bareLibraries noFiles 0 [] ts).toOption.map fun cfg => cfg.http.servers.length

theorem serverCount_of_transparent
    {k : Place} {form : Form} (d : Directive) {ts ts' : List Token} (n : Nat)
    (h : Transparent k form) (hform : d.form = form)
    (hname : d.name ∉ k.names bareLibraries noFiles [])
    (hinserts : RootInserts bareLibraries noFiles [] k d.tokens 0 initialConfig ts ts')
    (hcount : serverCount ts = some n) :
    serverCount ts' = some n := by
  obtain ⟨cfg, hparse, hservers⟩ := Option.map_eq_some_iff.mp hcount
  have hparse' := h bareLibraries noFiles [] 0 d ts ts' cfg hform hname hinserts
    (EarlyReturn.toOption_eq_some_iff.mp hparse)
  unfold serverCount
  rw [hparse']
  exact congrArg some hservers

/-- The tokens of an http block with one server. -/
def httpTokens : List Token :=
  [.word (ascii "http"), .openBrace, .word (ascii "server"), .openBrace, .closeBrace, .closeBrace]

/-- An events block of these tokens, and a server. -/
def eventsTokens (inner : List Token) : List Token :=
  .word (ascii "events") :: (words [] ++ .openBrace :: (inner ++ .closeBrace :: httpTokens))

/-- A directive without a block, and one with an empty block. -/
def simpleDirective : Directive :=
  ⟨ascii "accept_mutex", [ascii "on"], none⟩

def blockDirective : Directive :=
  ⟨ascii "accept_mutex", [], some ⟨[], rfl⟩⟩

theorem not_transparent_emptyEvents : ¬ Transparent .emptyEvents .simple := by
  intro h
  have hinserts : RootInserts bareLibraries noFiles [] .emptyEvents simpleDirective.tokens 0
      initialConfig (eventsTokens []) (eventsTokens simpleDirective.tokens) :=
    .inside (.inr ⟨rfl, [], _, _, rfl, rfl, .here rfl⟩)
  have hcount := serverCount_of_transparent simpleDirective 0 h rfl (by decide) hinserts
    (by decide)
  exact absurd hcount (by decide)

theorem not_transparent_events : ¬ Transparent .events .block := by
  intro h
  have hfirst : Reads (eventsDirective simpleDirective.name ⟨initialConfig, true⟩)
      (simpleDirective.text ++ .closeBrace :: httpTokens) ⟨initialConfig, false⟩
      (.closeBrace :: httpTokens) :=
    reads_looseRow_iff.mpr ⟨rfl, [ascii "on"], _, rfl, noWord_semicolon _, rfl⟩
  have hinserts : RootInserts bareLibraries noFiles [] .events blockDirective.tokens 0
      initialConfig (eventsTokens simpleDirective.tokens)
      (eventsTokens (simpleDirective.tokens ++ blockDirective.tokens)) :=
    .inside (.inr ⟨rfl, [], _, _, rfl, rfl, .behind hfirst (.here rfl)⟩)
  have hcount := serverCount_of_transparent blockDirective 1 h rfl (by decide) hinserts
    (by decide)
  exact absurd hcount (by decide)

/-- An upstream group with these tokens in front of its peer. -/
def upstreamTokens (inner : List Token) : List Token :=
  .word (ascii "http") :: (words [] ++ .openBrace :: .word (ascii "upstream") ::
    (words [ascii "app"] ++ .openBrace :: (inner ++ [.word (ascii "server"), .word (ascii "a:1"),
      .semicolon, .closeBrace, .closeBrace])))

theorem not_transparent_upstream : ¬ Transparent .upstream .block := by
  intro h
  have hinserts : RootInserts bareLibraries noFiles [] .upstream blockDirective.tokens 0
      initialConfig (upstreamTokens []) (upstreamTokens blockDirective.tokens) :=
    .inside (.inl ⟨rfl, [], _, _, rfl, rfl,
      .inside (.inr ⟨rfl, [ascii "app"], _, _, rfl, rfl, _, rfl, .here rfl⟩)⟩)
  have hcount := serverCount_of_transparent blockDirective 0 h rfl (by decide) hinserts
    (by decide)
  exact absurd hcount (by decide)

/-- Unknown directives are transparent in the contexts and forms that `skips` names. -/
theorem unknown_transparent_iff
    (k : Place) (form : Form) :
    Transparent k form ↔ k.skips form = true := by
  constructor
  · intro h
    cases k <;> cases form <;>
      first
      | rfl
      | exact absurd h not_transparent_emptyEvents
      | exact absurd h not_transparent_events
      | exact absurd h not_transparent_upstream
  · exact transparent_of_skips

/-- An events block with one directive more, which has a block. -/
def eventsText : Bytes :=
  ascii "events { use epoll; }\nhttp { server { } }\n"

def eventsTextWithBlock : Bytes :=
  ascii "events { use epoll; debug { } }\nhttp { server { } }\n"

/-- Behind the block nothing is read: the server is lost. -/
theorem eventsTextWithBlock_lost :
    (∃ d : Directive, d.name = ascii "debug" ∧
      d.name ∉ Place.events.names bareLibraries noFiles (ascii "<string>") ∧
      RootInserts bareLibraries noFiles (ascii "<string>") .events d.tokens maxIncludeDepth
        initialConfig (tokenize eventsText) (tokenize eventsTextWithBlock)) ∧
      (loadFromStr bareLibraries noFiles eventsText).toOption.map
        (fun cfg => cfg.http.servers.length) = some 1 ∧
      (loadFromStr bareLibraries noFiles eventsTextWithBlock).toOption.map
        (fun cfg => cfg.http.servers.length) = some 0 := by
  have hbefore : tokenize eventsText = .word (ascii "events") :: (words [] ++ .openBrace ::
      .word (ascii "use") :: ((⟨ascii "use", [ascii "epoll"], none⟩ : Directive).text ++
        .closeBrace :: httpTokens)) := by
    decide
  have hafter : tokenize eventsTextWithBlock = .word (ascii "events") :: (words [] ++ .openBrace ::
      .word (ascii "use") :: ((⟨ascii "use", [ascii "epoll"], none⟩ : Directive).text ++
        ((⟨ascii "debug", [], some ⟨[], rfl⟩⟩ : Directive).tokens ++
          .closeBrace :: httpTokens))) := by
    decide
  refine ⟨⟨⟨ascii "debug", [], some ⟨[], rfl⟩⟩, rfl, by decide, ?_⟩, by decide,
    by decide⟩
  have hfirst : Reads (eventsDirective (ascii "use") ⟨initialConfig, true⟩)
      ((⟨ascii "use", [ascii "epoll"], none⟩ : Directive).text ++ .closeBrace :: httpTokens)
      ⟨initialConfig, false⟩ (.closeBrace :: httpTokens) :=
    reads_looseRow_iff.mpr ⟨rfl, [ascii "epoll"], _, rfl, noWord_semicolon _, rfl⟩
  rw [hbefore, hafter]
  exact .inside (.inr ⟨rfl, [], _, _, rfl, rfl,
    BlockInserts.behind (d := ⟨ascii "use", [ascii "epoll"], none⟩) hfirst (.here rfl)⟩)

end ConfigParser
end RunNginx
