import RunNginx.Config.ServerBodies

/-!
# Included server blocks

An http block that includes files, in which server blocks stand and nothing else, is loaded as
if the blocks of all the files stood in it, in the order of the files.
-/

namespace RunNginx
namespace ConfigParser

open ByteString Limits Parse

/-- The tokens of an http block that includes the files of a pattern. -/
def includingTokens (pattern : Bytes) : List Token :=
  [.word (ascii "http"), .openBrace, .word (ascii "include"), .word pattern, .semicolon,
    .closeBrace]

/-- A file with server blocks of these bodies. -/
def HoldsBodies (files : ConfigFiles) (entry : Bytes) (bodies : List (List Directive)) : Prop :=
  ∃ text, files.read entry = some text ∧ tokenize text = serversTokens bodies

section Included

variable {lib : Libraries} {files : ConfigFiles} {path pattern : Bytes}
variable {bodies : List (List Directive)} {servers : List ServerBlock} {st : HttpReader}

theorem reads_includedBody
    {name : Bytes} {ds : List Directive} {server : ServerBlock} {ts : List Token}
    (hread : readServer lib ds = some server) (hroom : st.serverCount < maxServerBlocks) :
    Reads (includedServer lib name st) (.openBrace :: (bodyTokens ds ++ .closeBrace :: ts))
      (st.add server) ts := by
  refine reads_bind_iff.mpr ⟨_, _, reads_peek_iff.mpr ⟨rfl, rfl⟩, ?_⟩
  rw [List.head?_cons, if_pos rfl]
  refine reads_bind_iff.mpr ⟨(), _, reads_advance_iff.mpr rfl, ?_⟩
  rw [if_pos hroom]
  exact reads_bind_iff.mpr ⟨server, ts, reads_serverBody_iff.mpr ⟨hread, rfl⟩,
    reads_pure_iff.mpr ⟨rfl, rfl⟩⟩

/-- The blocks of a file are read one after the other. -/
theorem includeServers_bodies
    (hread : bodies.map (readServer lib) = servers.map some)
    (hroom : st.serverCount + bodies.length ≤ maxServerBlocks) :
    includeServers lib st (serversTokens bodies) = .ok (servers.foldl HttpReader.add st) := by
  have hreads : BlockReads includedHead (includedServer lib) st (serversTokens bodies)
      (servers.foldl HttpReader.add st) [] := by
    induction bodies generalizing st servers with
    | nil =>
        obtain rfl := List.map_eq_nil_iff.mp hread.symm
        exact .eof _
    | cons ds bodies ih =>
        cases servers with
        | nil => cases hread
        | cons server servers =>
            rw [List.length_cons] at hroom
            rw [List.map_cons, List.map_cons] at hread
            obtain ⟨hserver, hread⟩ := List.cons.inj hread
            have htokens : serversTokens (ds :: bodies) =
                .word (ascii "server") :: .openBrace ::
                  (bodyTokens ds ++ .closeBrace :: serversTokens bodies) := by
              simp [serversTokens, serverBlockTokens]
            have hmore : (st.add server).serverCount + bodies.length ≤ maxServerBlocks := by
              simp only [HttpReader.add]
              omega
            rw [htokens]
            exact .item rfl (reads_includedBody hserver (by omega)) (ih hread hmore)
  obtain ⟨hle, hblock⟩ := reads_block_iff.mpr hreads
  unfold includeServers
  rw [hblock]
  rfl

/-- The files of an include are read one after the other. -/
theorem forEach_bodies
    {held : List (List (List Directive))}
    (hheld : List.Forall₂ (HoldsBodies files)
      (files.glob (ConfigFiles.fullPattern path pattern)) held)
    (hread : held.flatten.map (readServer lib) = servers.map some)
    (hroom : st.serverCount + held.flatten.length ≤ maxServerBlocks) :
    files.forEach path pattern (fun st _ tokens => includeServers lib st tokens) st =
      .ok (servers.foldl HttpReader.add st) := by
  unfold ConfigFiles.forEach
  generalize files.glob (ConfigFiles.fullPattern path pattern) = entries at hheld
  induction hheld generalizing st servers with
  | nil =>
      obtain rfl := List.map_eq_nil_iff.mp hread.symm
      rfl
  | @cons entry bodies entries held hfile _ ih =>
      obtain ⟨text, htext, htokens⟩ := hfile
      rw [List.flatten_cons, List.length_append] at hroom
      rw [List.flatten_cons, List.map_append] at hread
      obtain ⟨own, rest, rfl, hown, hrest⟩ := List.map_eq_append_iff.mp hread.symm
      have hone : includeServers lib st (serversTokens bodies) =
          .ok (own.foldl HttpReader.add st) :=
        includeServers_bodies hown.symm (by omega)
      have hcount : (own.foldl HttpReader.add st).serverCount =
          st.serverCount + bodies.length := by
        have hlength := congrArg List.length hown
        rw [List.length_map, List.length_map] at hlength
        rw [foldl_add, hlength]
      have hmore := @ih rest (own.foldl HttpReader.add st) hrest.symm (by omega)
      rw [List.foldlM_cons, htext]
      dsimp only
      rw [htokens, hone, List.foldl_append]
      exact hmore

/-- A configuration that includes files of server blocks has their servers. -/
theorem parseRoot_including
    {held : List (List (List Directive))} {depth : Nat}
    (hheld : List.Forall₂ (HoldsBodies files)
      (files.glob (ConfigFiles.fullPattern path pattern)) held)
    (hread : held.flatten.map (readServer lib) = servers.map some)
    (hroom : held.flatten.length ≤ maxServerBlocks) :
    parseRoot lib files depth path (includingTokens pattern) = .ok (serversConfig servers) := by
  have hroot : runDirective (rootDirectives lib files path (includedParser lib files depth))
      unknownDirective (ascii "http") initialConfig =
        httpDirective lib files path initialConfig := rfl
  have hinclude : runDirective (httpDirectives lib files path) unknownDirective
      (ascii "include") ⟨.default, 0⟩ = oneWord (fun pattern st =>
        files.forEach path pattern (fun st _ tokens => includeServers lib st tokens) st)
          ⟨.default, 0⟩ := rfl
  have hfiles := @forEach_bodies lib files path pattern servers ⟨.default, 0⟩ held hheld hread
    (by simpa using hroom)
  have hhttp : Reads (parseHttpBlock lib files path)
      [.word (ascii "include"), .word pattern, .semicolon, .closeBrace]
      { HttpBlock.default with servers := servers } [] := by
    unfold parseHttpBlock parseBlock
    have hone : Reads (runDirective (httpDirectives lib files path) unknownDirective
        (ascii "include") ⟨.default, 0⟩) [.word pattern, .semicolon, .closeBrace]
        (servers.foldl HttpReader.add ⟨.default, 0⟩) [.closeBrace] := by
      rw [hinclude]
      exact reads_oneWord_iff.mpr ⟨pattern, rfl, hfiles⟩
    have hclose : blockHead .http (servers.foldl HttpReader.add ⟨.default, 0⟩) .closeBrace =
        .close := rfl
    refine reads_bind_iff.mpr ⟨_, [], reads_block_iff.mpr (.item rfl hone (.close hclose)), ?_⟩
    rw [foldl_add]
    exact reads_pure_iff.mpr ⟨rfl, rfl⟩
  rw [parseRoot_ok_iff]
  unfold rootParser includingTokens
  refine ⟨[], reads_block_iff.mpr (.item rfl ?_ (.eof _))⟩
  rw [hroot]
  unfold httpDirective
  exact reads_bind_iff.mpr ⟨(), _, reads_expectOpen_iff.mpr rfl,
    reads_bind_iff.mpr ⟨_, [], hhttp, reads_pure_iff.mpr ⟨rfl, rfl⟩⟩⟩

end Included

end ConfigParser
end RunNginx
