import RunNginx.Config.Provenance
import RunNginx.Config.Shapes

/-!
# What a load keeps

`kept` is the list of server blocks that a load keeps, each with the file it stands in and
the place it stands at.  An http block starts the list anew, an include at the root adds
what the load of each file keeps, and an include in the http block adds the blocks of the
files up to the cap.

`load_kept` says that the servers of a configuration are read from these blocks, in their
order.
-/

namespace RunNginx
namespace ConfigParser

open ByteString Limits Parse

section Parts

/-- The parts of an http block that its other directives leave alone. -/
structure HttpParts where
  servers : List ServerBlock
  serverCount : Nat
  zones : List LimitReqZoneDef
  groups : List UpstreamGroupDef

def HttpReader.parts (st : HttpReader) : HttpParts where
  servers := st.http.servers
  serverCount := st.serverCount
  zones := st.http.limitReqZones
  groups := st.http.upstreamGroups

/-- The directives that change a part. -/
def partDirectives : List Bytes :=
  [ascii "limit_req_zone", ascii "upstream", ascii "server", ascii "include"]

variable (lib : Libraries) (files : ConfigFiles) (configPath : Bytes)

theorem httpDirectives_keep
    {P : HttpParts → Prop} :
    ∀ entry ∈ httpDirectives lib files configPath,
      entry.1 ∈ partDirectives ∨ Keeps (fun st => P st.parts) entry.2 := by
  simp only [httpDirectives, List.forall_mem_cons]
  refine ⟨.inr (keeps_word fun _ _ h => h), .inr (keeps_anyWords fun _ _ h => h),
    .inr (keeps_checkedWord fun _ _ h => h), .inr (keeps_parsed fun _ _ h => h),
    .inr (keeps_checkedWord fun _ _ h => h), .inr (keeps_parsed fun _ _ h => h),
    .inr (keeps_checkedWord fun _ _ h => h), .inr (keeps_word fun _ _ h => h),
    .inr (keeps_word fun _ _ h => h), .inr (keeps_word fun _ _ h => h),
    .inr (keeps_word fun _ _ h => h), .inr (keeps_anyWords fun _ _ h => h),
    .inr (keeps_checkedWord fun _ _ h => h), ?_, ?_, ?_, ?_, by simp⟩
  all_goals simp [partDirectives]

/-- Directives under other names leave the parts as they are. -/
theorem http_otherParts
    {name : Bytes} {st st' : HttpReader} {ts : List Token} {rest : Rest ts}
    (hname : name ∉ partDirectives)
    (h : runDirective (httpDirectives lib files configPath) unknownDirective name st ts =
      .ok (st', rest)) :
    st'.parts = st.parts :=
  keeps_runDirective_of_not_mem (httpDirectives_keep lib files configPath (P := (· = st.parts)))
    keeps_unknown hname st rfl ts st' rest h

theorem keeps_zoneDirective
    {P : HttpReader → Prop}
    (h : ∀ args st, P st → P (onHttp (fun args h =>
      { h with limitReqZones := h.limitReqZones ++ (parseLimitReqZone lib args).toList }) args st)) :
    Keeps P (zoneDirective lib) :=
  keeps_anyWords h

theorem keeps_upstreamDirective
    {P : HttpReader → Prop}
    (h : ∀ g st, P st → P (onHttp (fun g h =>
      { h with upstreamGroups := h.upstreamGroups ++ [g] }) g st)) :
    Keeps P (parsed parseUpstream (onHttp fun g h =>
      { h with upstreamGroups := h.upstreamGroups ++ [g] })) :=
  keeps_parsed h

/-- Only its own directives change the servers of an http block. -/
theorem http_otherServers
    {name : Bytes} {st st' : HttpReader} {ts : List Token} {rest : Rest ts}
    (hserver : name ≠ ascii "server") (hinclude : name ≠ ascii "include")
    (h : runDirective (httpDirectives lib files configPath) unknownDirective name st ts =
      .ok (st', rest)) :
    st'.http.servers = st.http.servers ∧ st'.serverCount = st.serverCount := by
  let P (s : HttpReader) : Prop :=
    s.http.servers = st.http.servers ∧ s.serverCount = st.serverCount
  by_cases hzone : name = ascii "limit_req_zone"
  · subst hzone
    exact keeps_zoneDirective lib (P := P) (fun _ _ h => h) st ⟨rfl, rfl⟩ ts st' rest h
  by_cases hupstream : name = ascii "upstream"
  · subst hupstream
    exact keeps_upstreamDirective (P := P) (fun _ _ h => h) st ⟨rfl, rfl⟩ ts st' rest h
  have hparts := http_otherParts lib files configPath
    (by simp [partDirectives, hzone, hupstream, hserver, hinclude]) h
  exact ⟨congrArg HttpParts.servers hparts, congrArg HttpParts.serverCount hparts⟩

section Root

variable {P : HttpBlock → Prop}

theorem keeps_rootWord
    {f : Bytes → Config → Config}
    (hf : ∀ v cfg, (f v cfg).http = cfg.http) :
    Keeps (fun cfg => P cfg.http) (rootWord f) := by
  refine keeps_word ?_
  intro v cfg hcfg
  rw [hf]
  exact hcfg

theorem keeps_named
    {names : List Bytes} {d : Config → Parser Config}
    (h : Keeps (fun cfg => P cfg.http) d) :
    ∀ entry ∈ named names d, Keeps (fun cfg => P cfg.http) entry.2 := by
  intro entry hentry
  obtain ⟨name, _, rfl⟩ := List.mem_map.mp hentry
  exact h

theorem keeps_workerConnections :
    Keeps (fun cfg => P cfg.http) workerConnectionsDirective :=
  keeps_checkedWord fun _ _ h => h

theorem keeps_eventsBlock : Keeps (fun cfg => P cfg.http) eventsBlock := by
  intro cfg hcfg
  refine gives_bind_any fun _ => ?_
  refine gives_bind (R := fun st : EventsReader => P st.cfg.http) ?_ fun st hst => gives_pure hst
  refine keeps_block (P := fun st : EventsReader => P st.cfg.http)
    (fun name st hst => ?_) ⟨cfg, true⟩ hcfg
  unfold eventsDirective
  split
  · exact gives_bind (keeps_workerConnections st.cfg hst) fun _ h => gives_pure h
  · refine gives_bind_any fun _ => gives_bind_any fun t => ?_
    split
    · exact gives_bind_any fun _ => gives_pure hst
    · exact gives_pure hst

/-- The directives of the root that change the http block. -/
def httpNames : List Bytes :=
  [ascii "http", ascii "include"]

theorem rootDirectives_keep
    (sub : Option (Bytes → List Token → Except ConfigError Config)) :
    ∀ entry ∈ rootDirectives lib files configPath sub,
      entry.1 ∈ httpNames ∨ Keeps (fun cfg => P cfg.http) entry.2 := by
  have hmiddle : ∀ entry ∈
      [(ascii "firewall_backend", rootWord fun v cfg =>
          { cfg with firewallBackend := if v = ascii "auto" then none else some v }),
        (ascii "firewall_tag", rootWord fun v cfg => { cfg with firewallTag := v }),
        (ascii "worker_processes", checkedWord parseWorkerCount fun n cfg =>
          { cfg with workerProcesses := n }),
        (ascii "worker_connections", workerConnectionsDirective),
        (ascii "events", eventsBlock),
        (ascii "http", httpDirective lib files configPath),
        (ascii "include", oneWord (handleInclude files configPath sub))],
      entry.1 ∈ httpNames ∨ Keeps (fun cfg => P cfg.http) entry.2 := by
    simp only [List.forall_mem_cons]
    exact ⟨.inr (keeps_rootWord fun _ _ => rfl), .inr (keeps_rootWord fun _ _ => rfl),
      .inr (keeps_checkedWord fun _ _ h => h), .inr keeps_workerConnections,
      .inr keeps_eventsBlock, .inl (by simp [httpNames]), .inl (by simp [httpNames]), by simp⟩
  intro entry hentry
  simp only [rootDirectives, List.mem_append] at hentry
  rcases hentry with (((((((((h | h) | h) | h) | h) | h) | h) | h) | h) | h) | h
  · refine .inr (keeps_named ?_ entry h)
    exact keeps_rootWord fun _ _ => rfl
  · exact hmiddle entry h
  all_goals
    refine .inr (keeps_named ?_ entry h)
    exact keeps_rootWord fun _ _ => rfl

/-- Directives under other names leave the http block as it is. -/
theorem root_otherHttp
    {sub : Option (Bytes → List Token → Except ConfigError Config)}
    {name : Bytes} {cfg cfg' : Config} {ts : List Token} {rest : Rest ts}
    (hname : name ∉ httpNames)
    (h : runDirective (rootDirectives lib files configPath sub) unknownDirective name cfg ts =
      .ok (cfg', rest)) :
    cfg'.http = cfg.http :=
  keeps_runDirective_of_not_mem
    (rootDirectives_keep lib files configPath (P := (· = cfg.http)) sub)
    keeps_unknown hname cfg rfl ts cfg' rest h

end Root

end Parts

namespace ConfigFiles

/-- The files that an include names, with their tokens. -/
def entries (files : ConfigFiles) (configPath pattern : Bytes) : List (Bytes × List Token) :=
  (files.glob (fullPattern configPath pattern)).filterMap fun entry =>
    (files.read entry).map fun src => (entry, tokenize src)

/-- What each file preserves, going through the files of an include preserves. -/
theorem forEach_rule
    {σ : Type} {files : ConfigFiles} {configPath pattern : Bytes}
    {P : List (Bytes × List Token) → σ → Prop}
    {f : σ → Bytes → List Token → Except ConfigError σ}
    (hf : ∀ before entry tokens s s', P before s → f s entry tokens = .ok s' →
      P (before ++ [(entry, tokens)]) s')
    {s s' : σ} (hs : P [] s)
    (h : files.forEach configPath pattern f s = .ok s') :
    P (files.entries configPath pattern) s' := by
  refine EarlyReturn.foldlM_rule (P := fun names => P (names.filterMap fun entry =>
    (files.read entry).map fun src => (entry, tokenize src))) ?_ hs h
  intro before entry s s' hbefore hone
  cases hread : files.read entry with
  | none =>
      rw [hread] at hone
      cases hone
  | some src =>
      rw [hread] at hone
      simpa [hread] using hf _ _ _ _ _ hbefore hone

end ConfigFiles

section Sources

/-- A server block of a file: the tokens behind its opening brace. -/
structure Source where
  file : Bytes
  tokens : List Token
deriving DecidableEq, Repr

/-- The block of a directive, where it is one of a name. -/
def bodyOf (name : Bytes) (item : Bytes × List Token) : Option (List Token) :=
  match item.2 with
  | .openBrace :: ts => if item.1 = name then some ts else none
  | _ => none

/-- The pattern of a directive, where it is an include. -/
def includeOf (item : Bytes × List Token) : Option Bytes :=
  match item.2 with
  | .word pattern :: .semicolon :: _ => if item.1 = ascii "include" then some pattern else none
  | _ => none

theorem bodyOf_ne
    {name name' : Bytes}
    (h : name' ≠ name) (ts : List Token) :
    bodyOf name (name', ts) = none := by
  unfold bodyOf
  split
  · exact if_neg h
  · rfl

theorem bodyOf_block
    (name : Bytes) (ts : List Token) :
    bodyOf name (name, .openBrace :: ts) = some ts :=
  if_pos rfl

theorem includeOf_ne
    {name : Bytes}
    (h : name ≠ ascii "include") (ts : List Token) :
    includeOf (name, ts) = none := by
  unfold includeOf
  split
  · exact if_neg h
  · rfl

theorem includeOf_include
    (pattern : Bytes) (ts : List Token) :
    includeOf (ascii "include", .word pattern :: .semicolon :: ts) = some pattern := by
  simp [includeOf]

variable (lib : Libraries)

/-- The server that is read from a block. -/
def Source.server (s : Source) : Option ServerBlock :=
  Parse.value (parseServerBlock lib) s.tokens

/-- The load of an http-level include stops at the word `server` only. -/
def scanHead (_ : Unit) : Token → Head Bytes ConfigError
  | .word w => if w = ascii "server" then .item w else .skip
  | _ => .skip

def scanServer (_ : Bytes) (_ : Unit) : Parser Unit := do
  let t ← Parse.peek
  if t = some .openBrace then do
    Parse.advance
    let _ ← parseServerBlock lib
    return ()
  else return ()

/-- The server blocks that an http-level include finds in a file, if there is no cap. -/
def foundIn (file : Bytes) (tokens : List Token) : List Source :=
  ((Parse.items scanHead (scanServer lib) () tokens).filterMap (bodyOf (ascii "server"))).map
    (Source.mk file)

variable (files : ConfigFiles)

/-- What a directive of an http block does to the blocks that are kept. -/
def httpKeeps (path : Bytes) (blocks : List Source) (item : Bytes × List Token) : List Source :=
  match bodyOf (ascii "server") item, includeOf item with
  | some ts, _ => blocks ++ [⟨path, ts⟩]
  | none, some pattern =>
      blocks ++ ((files.entries path pattern).flatMap fun e => foundIn lib e.1 e.2).take
        (maxServerBlocks - blocks.length)
  | none, none => blocks

/-- The directives of an http block. -/
def httpItems (path : Bytes) (tokens : List Token) : List (Bytes × List Token) :=
  blockItems .http (httpDirectives lib files path) ⟨.default, 0⟩ tokens

/-- The server blocks that an http block keeps. -/
def httpKept (path : Bytes) (tokens : List Token) : List Source :=
  (httpItems lib files path tokens).foldl (httpKeeps lib files path) []

/-- What a directive of the root does to the blocks that are kept. -/
def rootKeeps (sub : Bytes → List Token → List Source) (path : Bytes) (blocks : List Source)
    (item : Bytes × List Token) : List Source :=
  match bodyOf (ascii "http") item, includeOf item with
  | some ts, _ => httpKept lib files path ts
  | none, some pattern =>
      blocks ++ (files.entries path pattern).flatMap fun e => sub e.1 e.2
  | none, none => blocks

/-- What reads the files that an include at the root names. -/
def includedParser : Nat → Option (Bytes → List Token → Except ConfigError Config)
  | 0 => none
  | depth + 1 => some (parseRoot lib files depth)

/-- The directives of the root of a file. -/
def rootItems (depth : Nat) (path : Bytes) (tokens : List Token) : List (Bytes × List Token) :=
  Parse.items rootHead
    (runDirective (rootDirectives lib files path (includedParser lib files depth))
      unknownDirective) initialConfig tokens

/-- The server blocks that the load of a file keeps. -/
def rootKept : Nat → Bytes → List Token → List Source
  | 0, path, tokens =>
      (rootItems lib files 0 path tokens).foldl (rootKeeps lib files (fun _ _ => []) path) []
  | depth + 1, path, tokens =>
      (rootItems lib files (depth + 1) path tokens).foldl
        (rootKeeps lib files (rootKept depth) path) []

/-- The server blocks that a load keeps. -/
def kept (path : Bytes) : List Source :=
  match files.read path with
  | none => []
  | some src => rootKept lib files maxIncludeDepth path (tokenize src)

end Sources

section Http

variable {lib : Libraries} {files : ConfigFiles}

/-- The servers are read from these blocks, in their order. -/
def ReadFrom (lib : Libraries) (blocks : List Source) (servers : List ServerBlock) : Prop :=
  blocks.map (Source.server lib) = servers.map some

theorem ReadFrom.append
    {blocks more : List Source} {servers others : List ServerBlock}
    (h : ReadFrom lib blocks servers) (hmore : ReadFrom lib more others) :
    ReadFrom lib (blocks ++ more) (servers ++ others) := by
  unfold ReadFrom at *
  rw [List.map_append, List.map_append, h, hmore]

theorem ReadFrom.length
    {blocks : List Source} {servers : List ServerBlock}
    (h : ReadFrom lib blocks servers) :
    blocks.length = servers.length := by
  simpa using congrArg List.length h

theorem readFrom_one
    {path : Bytes} {ts rest : List Token} {server : ServerBlock}
    (h : Reads (parseServerBlock lib) ts server rest) :
    ReadFrom lib [⟨path, ts⟩] [server] := by
  have hvalue : Parse.value (parseServerBlock lib) ts = some server :=
    value_eq_some_iff.mpr ⟨rest, h⟩
  simp [ReadFrom, Source.server, hvalue]

/-- The reader of an http block has kept these blocks. -/
structure HttpReader.Kept (lib : Libraries) (st : HttpReader) (blocks : List Source) : Prop where
  servers : ReadFrom lib blocks st.http.servers
  count : st.serverCount = blocks.length

theorem HttpReader.Kept.add
    {st : HttpReader} {blocks : List Source} {ts rest : List Token} {server : ServerBlock}
    (h : st.Kept lib blocks) (path : Bytes) (hread : Reads (parseServerBlock lib) ts server rest) :
    (st.add server).Kept lib (blocks ++ [⟨path, ts⟩]) where
  servers := h.servers.append (readFrom_one hread)
  count := by simp [HttpReader.add, h.count]

/-- A server block of the http block itself. -/
theorem serverDirective_kept
    (path : Bytes) {st st' : HttpReader} {blocks : List Source} {ts rest : List Token}
    (h : st.Kept lib blocks) (hread : Reads (serverDirective lib st) ts st' rest) :
    ∃ body, ts = .openBrace :: body ∧ st'.Kept lib (blocks ++ [⟨path, body⟩]) := by
  obtain ⟨_, body, hopen, hread⟩ := reads_bind_iff.mp hread
  refine ⟨body, reads_expectOpen_iff.mp hopen, ?_⟩
  split at hread
  · exact (reads_fail_iff.mp hread).elim
  · obtain ⟨server, mid, hserver, hread⟩ := reads_bind_iff.mp hread
    obtain ⟨rfl, -⟩ := reads_pure_iff.mp hread
    exact h.add path hserver

theorem bodyOf_server_of_ne
    {ts : List Token}
    (h : ts.head? ≠ some .openBrace) :
    bodyOf (ascii "server") (ascii "server", ts) = none := by
  unfold bodyOf
  split
  · rename_i heq
    exact absurd (congrArg List.head? heq) h
  · rfl

theorem reads_scanServer_iff
    {name : Bytes} {ts rest : List Token} :
    Reads (scanServer lib name ()) ts () rest ↔
      (∃ body server, ts = .openBrace :: body ∧ Reads (parseServerBlock lib) body server rest) ∨
        ts.head? ≠ some .openBrace ∧ rest = ts := by
  simp only [scanServer, reads_bind_iff, reads_peek_iff]
  constructor
  · rintro ⟨t, mid, ⟨rfl, rfl⟩, h⟩
    split at h
    · rename_i hhead
      obtain ⟨body, rfl⟩ := List.head?_eq_some_iff.mp hhead
      obtain ⟨_, mid, hadvance, hrest⟩ := reads_bind_iff.mp h
      obtain rfl := reads_advance_iff.mp hadvance
      obtain ⟨server, _, hserver, hend⟩ := reads_bind_iff.mp hrest
      obtain ⟨-, rfl⟩ := reads_pure_iff.mp hend
      exact .inl ⟨_, server, rfl, hserver⟩
    · rename_i hhead
      exact .inr ⟨hhead, (reads_pure_iff.mp h).2⟩
  · rintro (⟨body, server, rfl, hserver⟩ | ⟨hhead, rfl⟩)
    · refine ⟨_, _, ⟨rfl, rfl⟩, ?_⟩
      rw [List.head?_cons, if_pos rfl]
      refine reads_bind_iff.mpr ⟨(), body, reads_advance_iff.mpr rfl, ?_⟩
      exact reads_bind_iff.mpr ⟨server, rest, hserver, reads_pure_iff.mpr ⟨rfl, rfl⟩⟩
    · refine ⟨_, _, ⟨rfl, rfl⟩, ?_⟩
      rw [if_neg hhead]
      exact reads_pure_iff.mpr ⟨rfl, rfl⟩

/-- The scan of a file at a word `server`. -/
theorem foundIn_server
    {file : Bytes} {ts mid : List Token}
    (h : Reads (scanServer lib (ascii "server") ()) ts () mid) :
    foundIn lib file (.word (ascii "server") :: ts) =
      ((bodyOf (ascii "server") (ascii "server", ts)).map (Source.mk file)).toList ++
        foundIn lib file mid := by
  have hclass : scanHead () (.word (ascii "server")) = .item (ascii "server") := by
    simp [scanHead]
  unfold foundIn
  rw [items_item hclass h, List.filterMap_cons]
  cases bodyOf (ascii "server") (ascii "server", ts) <;> rfl

/-- In an included file a token is passed over, unless it is the word `server`. -/
theorem includedHead_cases
    (st : HttpReader) (t : Token) :
    includedHead st t = .skip ∧ scanHead () t = .skip ∨
      t = .word (ascii "server") ∧ includedHead st t = .item (ascii "server") := by
  cases t with
  | word w =>
      by_cases hw : w = ascii "server"
      · subst hw
        exact .inr ⟨rfl, by simp [includedHead]⟩
      · exact .inl ⟨by simp [includedHead, hw], by simp [scanHead, hw]⟩
  | semicolon => exact .inl ⟨rfl, rfl⟩
  | openBrace => exact .inl ⟨rfl, rfl⟩
  | closeBrace => exact .inl ⟨rfl, rfl⟩

theorem foundIn_skip
    {file : Bytes} {t : Token} {ts : List Token}
    (h : scanHead () t = .skip) :
    foundIn lib file (t :: ts) = foundIn lib file ts := by
  unfold foundIn
  rw [items_skip h]

theorem includeServers_reads
    {st st' : HttpReader} {tokens : List Token}
    (h : includeServers lib st tokens = .ok st') :
    ∃ rest, BlockReads includedHead (includedServer lib) st tokens st' rest := by
  unfold includeServers at h
  cases hblock : Parse.block includedHead (includedServer lib) st tokens with
  | error e =>
      rw [hblock] at h
      cases h
  | ok r =>
      rw [hblock] at h
      obtain rfl := Except.ok.inj h
      exact ⟨r.2.1, reads_block_iff.mp ⟨r.2.2, hblock⟩⟩

/-- What a server block of an included file does, at the cap and below it. -/
theorem reads_includedServer
    {name : Bytes} {st st' : HttpReader} {ts rest : List Token}
    (h : Reads (includedServer lib name st) ts st' rest) :
    (∃ body server, ts = .openBrace :: body ∧ st.serverCount < maxServerBlocks ∧
        Reads (parseServerBlock lib) body server rest ∧ st' = st.add server) ∨
      st' = st ∧ (ts.head? ≠ some .openBrace ∧ rest = ts ∨ maxServerBlocks ≤ st.serverCount) := by
  obtain ⟨t, _, hpeek, hnext⟩ := reads_bind_iff.mp h
  obtain ⟨rfl, rfl⟩ := reads_peek_iff.mp hpeek
  split at hnext
  · rename_i hhead
    obtain ⟨body, rfl⟩ := List.head?_eq_some_iff.mp hhead
    obtain ⟨_, mid, hadvance, hrest⟩ := reads_bind_iff.mp hnext
    obtain rfl := reads_advance_iff.mp hadvance
    split at hrest
    · rename_i hcount
      obtain ⟨server, _, hserver, hend⟩ := reads_bind_iff.mp hrest
      obtain ⟨rfl, rfl⟩ := reads_pure_iff.mp hend
      exact .inl ⟨_, server, rfl, hcount, hserver, rfl⟩
    · rename_i hcount
      exact .inr ⟨(reads_pure_iff.mp hrest).1, .inr (Nat.le_of_not_lt hcount)⟩
  · rename_i hhead
    obtain ⟨rfl, rfl⟩ := reads_pure_iff.mp hnext
    exact .inr ⟨rfl, .inl ⟨hhead, rfl⟩⟩

/-- A file keeps its blocks up to the cap; behind the cap the scan reads no block, and
whatever it passes over it adds nothing. -/
theorem includeServers_kept
    (file : Bytes) {st st' : HttpReader} {blocks : List Source} {tokens : List Token}
    (h : st.Kept lib blocks) (hrun : includeServers lib st tokens = .ok st') :
    st'.Kept lib
      (blocks ++ (foundIn lib file tokens).take (maxServerBlocks - blocks.length)) := by
  obtain ⟨rest, hreads⟩ := includeServers_reads hrun
  clear hrun
  induction hreads generalizing blocks with
  | eof s => simpa [foundIn, items_nil] using h
  | @halt s t ts hclass =>
      rcases includedHead_cases s t with ⟨hskip, -⟩ | ⟨-, hitem⟩
      · cases hskip.symm.trans hclass
      · cases hitem.symm.trans hclass
  | @close s t ts hclass =>
      rcases includedHead_cases s t with ⟨hskip, -⟩ | ⟨-, hitem⟩
      · cases hskip.symm.trans hclass
      · cases hitem.symm.trans hclass
  | @skip s s' t ts rest hclass hrest ih =>
      rcases includedHead_cases s t with ⟨-, hskip⟩ | ⟨-, hitem⟩
      · rw [foundIn_skip hskip]
        exact ih h
      · cases hitem.symm.trans hclass
  | @item s s₁ s' t name ts mid rest hclass hone hrest ih =>
      obtain ⟨rfl, rfl⟩ : t = .word (ascii "server") ∧ name = ascii "server" := by
        rcases includedHead_cases s t with ⟨hskip, -⟩ | ⟨ht, hitem⟩
        · cases hskip.symm.trans hclass
        · exact ⟨ht, (Head.item.inj (hitem.symm.trans hclass)).symm⟩
      rcases reads_includedServer hone with
        ⟨body, server, rfl, hcount, hserver, rfl⟩ | ⟨rfl, ⟨hhead, rfl⟩ | hcount⟩
      · rw [foundIn_server (reads_scanServer_iff.mpr (.inl ⟨body, server, rfl, hserver⟩)),
          bodyOf_block]
        have hroom : maxServerBlocks - blocks.length =
            (maxServerBlocks - (blocks ++ [Source.mk file body]).length) + 1 := by
          rw [h.count] at hcount
          simp only [List.length_append, List.length_singleton]
          omega
        have hmore := ih (h.add file hserver)
        rw [hroom]
        simpa using hmore
      · rw [foundIn_server (reads_scanServer_iff.mpr (.inr ⟨hhead, rfl⟩)),
          bodyOf_server_of_ne hhead]
        simpa using ih h
      · have hroom : maxServerBlocks - blocks.length = 0 := by
          rw [h.count] at hcount
          omega
        have hmore := ih h
        rw [hroom] at hmore ⊢
        simpa using hmore

/-- The files of an include keep their blocks one after the other, up to the cap. -/
theorem forEach_kept
    {st st' : HttpReader} {blocks : List Source} {path pattern : Bytes}
    (h : st.Kept lib blocks)
    (hrun : files.forEach path pattern (fun st _ tokens => includeServers lib st tokens) st =
      .ok st') :
    st'.Kept lib (blocks ++ ((files.entries path pattern).flatMap fun e => foundIn lib e.1 e.2).take
      (maxServerBlocks - blocks.length)) := by
  refine ConfigFiles.forEach_rule (P := fun entries (st : HttpReader) => st.Kept lib
    (blocks ++ (entries.flatMap fun e => foundIn lib e.1 e.2).take
      (maxServerBlocks - blocks.length))) ?_ (by simpa using h) hrun
  intro before entry tokens st st' hbefore hone
  have hmore := includeServers_kept entry hbefore hone
  rw [List.append_assoc, List.length_append] at hmore
  rw [List.flatMap_append, List.take_append, List.flatMap_singleton]
  -- what is left of the cap behind the files so far
  have hroom : maxServerBlocks -
      (blocks.length + ((before.flatMap fun e => foundIn lib e.1 e.2).take
        (maxServerBlocks - blocks.length)).length) =
      maxServerBlocks - blocks.length - (before.flatMap fun e => foundIn lib e.1 e.2).length := by
    rw [List.length_take]
    omega
  rw [hroom] at hmore
  exact hmore

/-- A directive of an http block changes the blocks that are kept as `httpKeeps` says. -/
theorem httpDirective_kept
    {st st' : HttpReader} {blocks : List Source} {path name : Bytes} {ts rest : List Token}
    (h : st.Kept lib blocks)
    (hread : Reads (runDirective (httpDirectives lib files path) unknownDirective name st) ts st'
      rest) :
    st'.Kept lib (httpKeeps lib files path blocks (name, ts)) := by
  by_cases hserver : name = ascii "server"
  · subst hserver
    obtain ⟨body, rfl, hkept⟩ := serverDirective_kept path h hread
    simpa only [httpKeeps, bodyOf_block] using hkept
  by_cases hinclude : name = ascii "include"
  · subst hinclude
    obtain ⟨pattern, rfl, hone⟩ := reads_oneWord_iff.mp hread
    have hbody : bodyOf (ascii "server")
        (ascii "include", .word pattern :: .semicolon :: rest) = none := rfl
    simp only [httpKeeps, hbody, includeOf_include]
    exact forEach_kept h hone
  obtain ⟨hservers, hcount⟩ := http_otherServers lib files path hserver hinclude hread.2
  simp only [httpKeeps, bodyOf_ne hserver, includeOf_ne hinclude]
  exact ⟨by rw [hservers]; exact h.servers, by rw [hcount]; exact h.count⟩

/-- The servers of an http block are read from the blocks it keeps. -/
theorem httpBlock_kept
    {path : Bytes} {ts rest : List Token} {http : HttpBlock}
    (h : Reads (parseHttpBlock lib files path) ts http rest) :
    ReadFrom lib (httpKept lib files path ts) http.servers := by
  obtain ⟨st, mid, ⟨hle, hblock⟩, hend⟩ := reads_bind_iff.mp h
  obtain ⟨rfl, -⟩ := reads_pure_iff.mp hend
  have hkept : st.Kept lib (httpKept lib files path ts) := by
    refine block_rule (P := fun items (st : HttpReader) =>
      st.Kept lib (items.foldl (httpKeeps lib files path) [])) ?_ ⟨rfl, rfl⟩ hblock
    intro before name st ts st' rest hbefore hone
    rw [List.foldl_append]
    exact httpDirective_kept hbefore (reads_of_ok hone)
  exact hkept.servers

end Http

section Load

variable (lib : Libraries) (files : ConfigFiles)

/-- The parser of a file, with what it leaves. -/
def rootParser (depth : Nat) (path : Bytes) : Parser Config :=
  Parse.block rootHead (runDirective
    (rootDirectives lib files path (includedParser lib files depth)) unknownDirective) initialConfig

theorem parseRoot_ok_iff
    {depth : Nat} {path : Bytes} {tokens : List Token} {cfg : Config} :
    parseRoot lib files depth path tokens = .ok cfg ↔
      ∃ rest, Reads (rootParser lib files depth path) tokens cfg rest := by
  have hrun : parseRoot lib files depth path tokens =
      (rootParser lib files depth path tokens).map Prod.fst := by
    cases depth <;> rfl
  rw [hrun]
  constructor
  · intro h
    cases hread : rootParser lib files depth path tokens with
    | error e =>
        rw [hread] at h
        cases h
    | ok r =>
        rw [hread] at h
        cases h
        exact ⟨r.2.1, r.2.2, hread⟩
  · rintro ⟨rest, hle, hread⟩
    rw [hread]
    rfl

variable {lib files}

/-- A directive of the root changes the blocks that are kept as `rootKeeps` says. -/
theorem rootDirective_kept
    {parseSub : Option (Bytes → List Token → Except ConfigError Config)}
    (sub : Bytes → List Token → List Source)
    (hsub : ∀ p ∈ parseSub, ∀ entry tokens cfg, p entry tokens = .ok cfg →
      ReadFrom lib (sub entry tokens) cfg.http.servers)
    {cfg cfg' : Config} {blocks : List Source} {path name : Bytes} {ts rest : List Token}
    (h : ReadFrom lib blocks cfg.http.servers)
    (hread : Reads (runDirective (rootDirectives lib files path parseSub) unknownDirective name cfg)
      ts cfg' rest) :
    ReadFrom lib (rootKeeps lib files sub path blocks (name, ts)) cfg'.http.servers := by
  by_cases hhttp : name = ascii "http"
  · subst hhttp
    obtain ⟨_, body, hopen, hbody⟩ := reads_bind_iff.mp hread
    obtain rfl := reads_expectOpen_iff.mp hopen
    obtain ⟨http, mid, hblock, hend⟩ := reads_bind_iff.mp hbody
    obtain ⟨rfl, -⟩ := reads_pure_iff.mp hend
    simp only [rootKeeps, bodyOf_block]
    exact httpBlock_kept hblock
  by_cases hinclude : name = ascii "include"
  · subst hinclude
    obtain ⟨pattern, rfl, hone⟩ := reads_oneWord_iff.mp hread
    have hbody : bodyOf (ascii "http")
        (ascii "include", .word pattern :: .semicolon :: rest) = none := rfl
    simp only [rootKeeps, hbody, includeOf_include]
    cases parseSub with
    | none => cases hone
    | some p =>
        simp only [handleInclude] at hone
        refine ConfigFiles.forEach_rule (P := fun entries (cfg : Config) =>
          ReadFrom lib (blocks ++ entries.flatMap fun e => sub e.1 e.2) cfg.http.servers)
          ?_ (by simpa using h) hone
        intro before entry tokens cfg cfg' hbefore hone
        obtain ⟨subCfg, hparse, hrest⟩ := EarlyReturn.bind_eq_ok_iff.mp hone
        cases hrest
        rw [List.flatMap_append, List.flatMap_singleton, ← List.append_assoc]
        exact hbefore.append (hsub p rfl entry tokens subCfg hparse)
  have hsame := root_otherHttp lib files path (by simp [httpNames, hhttp, hinclude]) hread.2
  simp only [rootKeeps, bodyOf_ne hhttp, includeOf_ne hinclude]
  rw [hsame]
  exact h

/-- The servers of a file are read from the blocks that its load keeps. -/
theorem parseRoot_kept
    {depth : Nat} {path : Bytes} {tokens : List Token} {cfg : Config}
    (h : parseRoot lib files depth path tokens = .ok cfg) :
    ReadFrom lib (rootKept lib files depth path tokens) cfg.http.servers := by
  induction depth generalizing path tokens cfg with
  | zero =>
      obtain ⟨rest, hle, hread⟩ := (parseRoot_ok_iff lib files).mp h
      refine block_rule (P := fun items (cfg : Config) => ReadFrom lib
        (items.foldl (rootKeeps lib files (fun _ _ => []) path) []) cfg.http.servers) ?_ rfl hread
      intro before name cfg ts cfg' rest hbefore hone
      rw [List.foldl_append]
      exact rootDirective_kept (fun _ _ => []) (by simp [includedParser]) hbefore
        (reads_of_ok hone)
  | succ depth ih =>
      obtain ⟨rest, hle, hread⟩ := (parseRoot_ok_iff lib files).mp h
      refine block_rule (P := fun items (cfg : Config) => ReadFrom lib
        (items.foldl (rootKeeps lib files (rootKept lib files depth) path) []) cfg.http.servers)
        ?_ rfl hread
      intro before name cfg ts cfg' rest hbefore hone
      rw [List.foldl_append]
      refine rootDirective_kept _ ?_ hbefore (reads_of_ok hone)
      rintro p hp entry tokens cfg hsub
      obtain rfl : parseRoot lib files depth = p := by simpa [includedParser] using hp
      exact ih hsub

/-- The servers of a configuration are read from the blocks that its load keeps. -/
theorem load_kept
    {path : Bytes} {cfg : Config}
    (h : load lib files path = .ok cfg) :
    ReadFrom lib (kept lib files path) cfg.http.servers := by
  unfold load at h
  unfold kept
  cases hread : files.read path with
  | none =>
      rw [hread] at h
      cases h
  | some src =>
      rw [hread] at h
      exact parseRoot_kept h

variable (lib files)

/-- The servers of a configuration have texts. -/
def ConfigWritten (cfg : Config) : Prop :=
  ∀ server ∈ cfg.http.servers, ∃ ts, ServerText lib server ts

theorem load_written
    {path : Bytes} {cfg : Config}
    (h : load lib files path = .ok cfg) :
    ConfigWritten lib cfg := by
  intro server hmem
  have hsome : some server ∈ (kept lib files path).map (Source.server lib) := by
    rw [load_kept h]
    exact List.mem_map.mpr ⟨server, hmem, rfl⟩
  obtain ⟨source, -, hsource⟩ := List.mem_map.mp hsome
  obtain ⟨rest, hle, hread⟩ := value_eq_some_iff.mp hsource
  exact ⟨source.tokens, _, hread⟩

end Load

end ConfigParser
end RunNginx
