import RunNginx.Config.Complete

/-!
# Configurations of server blocks

A configuration of one http block, in which server blocks stand and nothing else, is loaded
where each of them is read by itself, and its servers are what is read.
-/

namespace RunNginx
namespace ConfigParser

open ByteString Limits Parse

/-- The tokens of a server block of this body. -/
def serverBlockTokens (ds : List Directive) : List Token :=
  .word (ascii "server") :: .openBrace :: (bodyTokens ds ++ [.closeBrace])

/-- The tokens of server blocks of these bodies. -/
def serversTokens (bodies : List (List Directive)) : List Token :=
  bodies.flatMap serverBlockTokens

/-- The tokens of an http block of these server blocks. -/
def httpBlockTokens (bodies : List (List Directive)) : List Token :=
  .word (ascii "http") :: .openBrace :: (serversTokens bodies ++ [.closeBrace])

/-- A configuration that says nothing but its servers. -/
def serversConfig (servers : List ServerBlock) : Config :=
  { initialConfig with http := { HttpBlock.default with servers := servers } }

section Bodies

variable {lib : Libraries} {files : ConfigFiles} {path : Bytes} {ts rest : List Token}

theorem reads_serverBody_iff
    {ds : List Directive} {server : ServerBlock} :
    Reads (parseServerBlock lib) (bodyTokens ds ++ .closeBrace :: ts) server rest ↔
      readServer lib ds = some server ∧ rest = ts := by
  have hknown : ∀ d ∈ ds, ∀ st st' ts rest,
      Reads (runDirective (serverDirectives lib) unknownDirective d.name st) (d.text ++ ts) st'
        rest ↔ serverChange lib d st = some st' ∧ rest = ts :=
    fun d _ st st' ts rest => reads_serverDirective_iff
  unfold parseServerBlock
  rw [readServer_eq]
  simp only [reads_bind_iff, reads_pure_iff, reads_parseBlock_iff hknown, Option.map_eq_some_iff]
  constructor
  · rintro ⟨st, _, ⟨hrun, rfl⟩, rfl, rfl⟩
    exact ⟨⟨st, hrun, rfl⟩, rfl⟩
  · rintro ⟨⟨st, hrun, rfl⟩, rfl⟩
    exact ⟨st, _, ⟨hrun, rfl⟩, rfl, rfl⟩

/-- A server block is read as long as there may be one more. -/
theorem reads_serverBlock_iff
    {ds : List Directive} {st st' : HttpReader} (h : st.serverCount < maxServerBlocks) :
    Reads (runDirective (httpDirectives lib files path) unknownDirective (ascii "server") st)
        (.openBrace :: (bodyTokens ds ++ .closeBrace :: ts)) st' rest ↔
      ∃ server, readServer lib ds = some server ∧ st' = st.add server ∧ rest = ts := by
  have hrun : runDirective (httpDirectives lib files path) unknownDirective (ascii "server") st =
      serverDirective lib st := rfl
  rw [hrun, serverDirective]
  simp only [reads_bind_iff, reads_expectOpen_iff, if_neg (Nat.not_le.mpr h), reads_pure_iff]
  constructor
  · rintro ⟨_, mid, hopen, server, _, hserver, rfl, rfl⟩
    obtain rfl := (List.cons.inj hopen).2
    obtain ⟨hread, rfl⟩ := reads_serverBody_iff.mp hserver
    exact ⟨server, hread, rfl, rfl⟩
  · rintro ⟨server, hread, rfl, rfl⟩
    exact ⟨(), _, rfl, server, _, reads_serverBody_iff.mpr ⟨hread, rfl⟩, rfl, rfl⟩

theorem foldl_add
    (servers : List ServerBlock) (st : HttpReader) :
    servers.foldl HttpReader.add st =
      { http := { st.http with servers := st.http.servers ++ servers }
        serverCount := st.serverCount + servers.length } := by
  induction servers generalizing st with
  | nil => simp
  | cons server servers ih =>
      rw [List.foldl_cons, ih]
      simp [HttpReader.add, Nat.add_comm, Nat.add_left_comm]

/-- The server blocks at the front of an http block are read one after the other. -/
theorem blockReads_servers_iff
    {bodies : List (List Directive)} {st st' : HttpReader}
    (h : st.serverCount + bodies.length ≤ maxServerBlocks) :
    BlockReads (blockHead .http) (runDirective (httpDirectives lib files path) unknownDirective)
        st (serversTokens bodies ++ ts) st' rest ↔
      ∃ servers : List ServerBlock, bodies.map (readServer lib) = servers.map some ∧
        BlockReads (blockHead .http)
          (runDirective (httpDirectives lib files path) unknownDirective)
          (servers.foldl HttpReader.add st) ts st' rest := by
  induction bodies generalizing st with
  | nil => simp [serversTokens]
  | cons ds bodies ih =>
      rw [List.length_cons] at h
      have hroom : st.serverCount < maxServerBlocks := by omega
      have htokens : serversTokens (ds :: bodies) ++ ts =
          .word (ascii "server") :: .openBrace ::
            (bodyTokens ds ++ .closeBrace :: (serversTokens bodies ++ ts)) := by
        simp [serversTokens, serverBlockTokens]
      rw [htokens, blockReads_item_iff rfl]
      simp only [reads_serverBlock_iff hroom]
      constructor
      · rintro ⟨_, _, ⟨server, hread, rfl, rfl⟩, hrest⟩
        have hmore : (st.add server).serverCount + bodies.length ≤ maxServerBlocks := by
          simp only [HttpReader.add]
          omega
        obtain ⟨servers, hservers, hlast⟩ := (ih hmore).mp hrest
        exact ⟨server :: servers, by simp [hread, hservers], hlast⟩
      · rintro ⟨servers, hservers, hlast⟩
        cases servers with
        | nil => cases hservers
        | cons server servers =>
            rw [List.map_cons, List.map_cons] at hservers
            obtain ⟨hread, hservers⟩ := List.cons.inj hservers
            have hmore : (st.add server).serverCount + bodies.length ≤ maxServerBlocks := by
              simp only [HttpReader.add]
              omega
            exact ⟨_, _, ⟨server, hread, rfl, rfl⟩, (ih hmore).mpr ⟨servers, hservers, hlast⟩⟩

/-- An http block of server blocks. -/
theorem reads_httpBody_iff
    {bodies : List (List Directive)} {http : HttpBlock} (h : bodies.length ≤ maxServerBlocks) :
    Reads (parseHttpBlock lib files path) (serversTokens bodies ++ .closeBrace :: ts) http rest ↔
      ∃ servers : List ServerBlock, bodies.map (readServer lib) = servers.map some ∧
        http = { HttpBlock.default with servers := servers } ∧ rest = ts := by
  have hroom : (⟨.default, 0⟩ : HttpReader).serverCount + bodies.length ≤ maxServerBlocks := by
    simpa using h
  have hclose : ∀ st : HttpReader, blockHead .http st .closeBrace = .close := fun _ => rfl
  unfold parseHttpBlock parseBlock
  simp only [reads_bind_iff, reads_pure_iff, reads_block_iff, blockReads_servers_iff hroom,
    blockReads_close_iff (hclose _), foldl_add]
  constructor
  · rintro ⟨_, _, ⟨servers, hservers, rfl, rfl⟩, rfl, rfl⟩
    exact ⟨servers, hservers, rfl, rfl⟩
  · rintro ⟨servers, hservers, rfl, rfl⟩
    exact ⟨_, _, ⟨servers, hservers, rfl, rfl⟩, rfl, rfl⟩

/-- A configuration of server blocks is loaded where each of them is read by itself. -/
theorem parseRoot_servers_iff
    {bodies : List (List Directive)} {depth : Nat} {cfg : Config}
    (h : bodies.length ≤ maxServerBlocks) :
    parseRoot lib files depth path (httpBlockTokens bodies) = .ok cfg ↔
      ∃ servers : List ServerBlock, bodies.map (readServer lib) = servers.map some ∧
        cfg = serversConfig servers := by
  have hrun : runDirective (rootDirectives lib files path (includedParser lib files depth))
      unknownDirective (ascii "http") initialConfig =
        httpDirective lib files path initialConfig := rfl
  have hdirective : ∀ cfg' rest, Reads (httpDirective lib files path initialConfig)
      (.openBrace :: (serversTokens bodies ++ [.closeBrace])) cfg' rest ↔
        ∃ servers : List ServerBlock, bodies.map (readServer lib) = servers.map some ∧
          cfg' = serversConfig servers ∧ rest = [] := by
    intro cfg' rest
    simp only [httpDirective, reads_bind_iff, reads_expectOpen_iff, reads_pure_iff]
    constructor
    · rintro ⟨_, mid, hopen, http, _, hhttp, rfl, rfl⟩
      obtain rfl := (List.cons.inj hopen).2
      obtain ⟨servers, hservers, rfl, rfl⟩ := (reads_httpBody_iff h).mp hhttp
      exact ⟨servers, hservers, rfl, rfl⟩
    · rintro ⟨servers, hservers, rfl, rfl⟩
      exact ⟨(), _, rfl, _, _, (reads_httpBody_iff h).mpr ⟨servers, hservers, rfl, rfl⟩, rfl, rfl⟩
  rw [parseRoot_ok_iff]
  unfold rootParser httpBlockTokens
  constructor
  · rintro ⟨rest, hread⟩
    obtain ⟨cfg', mid, hone, hrest⟩ := (blockReads_item_iff rfl).mp (reads_block_iff.mp hread)
    rw [hrun, hdirective] at hone
    obtain ⟨servers, hservers, rfl, rfl⟩ := hone
    cases hrest
    exact ⟨servers, hservers, rfl⟩
  · rintro ⟨servers, hservers, rfl⟩
    refine ⟨[], reads_block_iff.mpr (.item rfl ?_ (.eof _))⟩
    rw [hrun, hdirective]
    exact ⟨servers, hservers, rfl, rfl⟩

end Bodies

end ConfigParser
end RunNginx
