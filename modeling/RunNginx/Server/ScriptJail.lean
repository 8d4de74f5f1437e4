import Mathlib.Data.List.TakeWhile
import RunNginx.Lib.LexicalPath
import RunNginx.Lib.LfLines
import RunNginx.Server.RewrittenScripts
import RunNginx.Server.TryFiles

/-!
# The jail of FastCGI scripts

The script of a request is named by a text: the document root, the path of the request and,
for a directory, the index file.  Nobody looks at the file tree, so that the application
server follows the `..` in it.  The check of the URI refuses `../` only: a `..` at the end of
the URI gets through, and so does what the rewrite rules write.

`scriptUnderRoot_iff`: the script lies under the document root exactly if the path and the
index file climb no higher than they come back by the names of the root.
-/

namespace RunNginx
namespace Handler

open ByteString StaticFiles Proxy LexicalPath

section Names

theorem components_append
    (s t : Bytes) :
    FileSystem.components (s ++ PathText.slash :: t) =
      FileSystem.components s ++ FileSystem.components t := by
  unfold FileSystem.components PathText.pieces
  rw [LfLines.splitByte_append_cons, List.map_append]

theorem namesOf_append
    (s t : Bytes) :
    namesOf (s ++ PathText.slash :: t) = namesOf s ++ namesOf t := by
  unfold namesOf
  rw [components_append, List.filter_append]

@[simp] theorem namesOf_nil : namesOf [] = [] :=
  rfl

theorem namesOf_dropWhile
    (s : Bytes) :
    namesOf (s.dropWhile isSlash) = namesOf s := by
  induction s with
  | nil => rfl
  | cons b s ih =>
      by_cases hb : isSlash b = true
      · rw [List.dropWhile_cons_of_pos hb, ih, beq_iff_eq.mp hb]
        exact (namesOf_append [] s).symm
      · rw [List.dropWhile_cons_of_neg hb]

theorem namesOf_trimEndSlashes
    (s : Bytes) :
    namesOf (trimEndSlashes s) = namesOf s := by
  induction s using List.reverseRecOn with
  | nil => rfl
  | append_singleton s b ih =>
      unfold trimEndSlashes at ih ⊢
      rw [List.reverse_append, List.reverse_singleton, List.singleton_append]
      by_cases hb : isSlash b = true
      · rw [List.dropWhile_cons_of_pos hb, ih, beq_iff_eq.mp hb, namesOf_append, namesOf_nil,
          List.append_nil]
      · rw [List.dropWhile_cons_of_neg hb, List.reverse_cons, List.reverse_reverse]

/-- A slash behind a path without its last slashes does not change where it begins. -/
theorem isAbsolute_trimEndSlashes
    {s : Bytes} (hne : s ≠ []) (t : Bytes) :
    PathText.isAbsolute (trimEndSlashes s ++ PathText.slash :: t) = PathText.isAbsolute s := by
  obtain ⟨b, s, rfl⟩ := List.exists_cons_of_ne_nil hne
  by_cases hall : ∀ c ∈ b :: s, isSlash c = true
  · have hnil : trimEndSlashes (b :: s) = [] := by
      unfold trimEndSlashes
      rw [List.reverse_eq_nil_iff, List.dropWhile_eq_nil_iff]
      exact fun c hc => hall c (List.mem_reverse.mp hc)
    rw [hnil, beq_iff_eq.mp (hall b List.mem_cons_self)]
    rfl
  · simp only [not_forall] at hall
    obtain ⟨c, hc, hslash⟩ := hall
    obtain ⟨front, back, hsplit⟩ := List.append_of_mem hc
    rw [hsplit, trimEndSlashes_append_cons (Bool.eq_false_iff.mpr hslash)]
    cases front with
    | nil => rfl
    | cons d front => rfl

end Names

section Jail

variable (server : ServerBlock) (location : Option LocationBlock) (fc : FastCgiConfig)
variable (path : Bytes)

def documentRoot : Bytes :=
  (effectiveRoot server location).getD (ascii "/var/www/html")

/-- The name of the script, normalised, is that of the document root with names behind it. -/
def ScriptUnderRoot : Prop :=
  PathText.isAbsolute (scriptPath server location fc path) =
      PathText.isAbsolute (documentRoot server location) ∧
    Under (PathText.isAbsolute (documentRoot server location))
      (FileSystem.components (documentRoot server location))
      (FileSystem.components (scriptPath server location fc path))

/-- The way from the document root to the script. -/
def scriptWay : Way Bytes :=
  .ofPath (FileSystem.components path ++
    if TakesIndex server location path then
      FileSystem.components (fc.index.getD (ascii "index.php"))
    else [])

/-- The names of the document root, the last one first. -/
def rootNames : List Bytes :=
  (Way.ofPath (FileSystem.components (documentRoot server location))).names

/-- The way to the script comes back by the names of the root that it has climbed over. -/
structure StaysUnder : Prop where
  root_ne_nil : documentRoot server location ≠ []
  returns : (rootNames server location).take (scriptWay server location fc path).climbs <:+
    (scriptWay server location fc path).names
  reaches : PathText.isAbsolute (documentRoot server location) = true ∨
    (scriptWay server location fc path).climbs ≤ (rootNames server location).length

variable {server location fc path}

theorem namesOf_documentFile :
    namesOf (documentFile server location path) =
      namesOf (documentRoot server location) ++ namesOf path := by
  unfold documentFile documentRoot
  have hslash : ascii "/" = [PathText.slash] := rfl
  rw [hslash, List.append_assoc, List.singleton_append, namesOf_append, namesOf_trimEndSlashes,
    namesOf_dropWhile]

/-- The names of the script are those of the root, of the path and of the index file. -/
theorem namesOf_scriptPath :
    namesOf (scriptPath server location fc path) =
      namesOf (documentRoot server location) ++
        (FileSystem.components path ++
          if TakesIndex server location path then
            FileSystem.components (fc.index.getD (ascii "index.php"))
          else []).filter fun c => c != .here := by
  have hslash : ascii "/" = [PathText.slash] := rfl
  rw [scriptPath_eq]
  split
  · unfold indexFile
    rw [hslash, List.append_assoc, List.singleton_append, namesOf_append,
      namesOf_trimEndSlashes, namesOf_documentFile, List.filter_append, List.append_assoc]
    rfl
  · rw [namesOf_documentFile, List.append_nil]
    rfl

theorem documentFile_ne_nil :
    documentFile server location path ≠ [] := by
  simp [documentFile, ascii]

/-- An index file does not change where the path begins. -/
theorem isAbsolute_scriptPath_eq :
    PathText.isAbsolute (scriptPath server location fc path) =
      PathText.isAbsolute (documentFile server location path) := by
  have hslash : ascii "/" = [PathText.slash] := rfl
  rw [scriptPath_eq]
  split
  · unfold indexFile
    rw [hslash, List.append_assoc, List.singleton_append]
    exact isAbsolute_trimEndSlashes documentFile_ne_nil _
  · rfl

theorem isAbsolute_scriptPath
    (hroot : documentRoot server location ≠ []) :
    PathText.isAbsolute (scriptPath server location fc path) =
      PathText.isAbsolute (documentRoot server location) := by
  have hslash : ascii "/" = [PathText.slash] := rfl
  rw [isAbsolute_scriptPath_eq]
  unfold documentFile
  rw [hslash, List.append_assoc, List.singleton_append]
  exact isAbsolute_trimEndSlashes hroot _

/-- An empty root is no place to be under: the script begins with a slash. -/
theorem isAbsolute_scriptPath_of_nil
    (hroot : documentRoot server location = []) :
    PathText.isAbsolute (scriptPath server location fc path) = true := by
  have hslash : ascii "/" = [PathText.slash] := rfl
  have htrim : trimEndSlashes (documentRoot server location) = [] := by
    rw [hroot]
    rfl
  unfold documentRoot at htrim
  rw [isAbsolute_scriptPath_eq]
  unfold documentFile
  rw [htrim, hslash]
  rfl

/--
The script lies under the document root if and only if the way to it, by the path as the
rewrite rules left it and the index file, comes back to the root it has climbed over.
-/
theorem scriptUnderRoot_iff
    (server : ServerBlock) (location : Option LocationBlock) (fc : FastCgiConfig)
    (path : Bytes) :
    ScriptUnderRoot server location fc path ↔ StaysUnder server location fc path := by
  have hunder : Under (PathText.isAbsolute (documentRoot server location))
      (FileSystem.components (documentRoot server location))
      (FileSystem.components (scriptPath server location fc path)) ↔
        (rootNames server location).take (scriptWay server location fc path).climbs <:+
            (scriptWay server location fc path).names ∧
          (PathText.isAbsolute (documentRoot server location) = true ∨
            (scriptWay server location fc path).climbs ≤ (rootNames server location).length) := by
    have hiff := under_iff (PathText.isAbsolute (documentRoot server location))
      (namesOf (documentRoot server location))
      ((FileSystem.components path ++
        if TakesIndex server location path then
          FileSystem.components (fc.index.getD (ascii "index.php"))
        else []).filter fun c => c != .here)
    rw [← namesOf_scriptPath, Way.ofPath_filter] at hiff
    unfold Under namesOf at hiff
    rw [normalize_filter, normalize_filter, Way.ofPath_filter] at hiff
    exact hiff
  unfold ScriptUnderRoot
  rw [hunder]
  constructor
  · rintro ⟨habsolute, hreturns, hreaches⟩
    refine ⟨fun hroot => ?_, hreturns, hreaches⟩
    rw [isAbsolute_scriptPath_of_nil hroot, hroot] at habsolute
    cases habsolute
  · rintro ⟨hroot, hreturns, hreaches⟩
    exact ⟨isAbsolute_scriptPath hroot, hreturns, hreaches⟩

/-- A path and an index file without `..` stay under any root. -/
theorem staysUnder_of_no_up
    (hroot : documentRoot server location ≠ []) (hpath : .up ∉ FileSystem.components path)
    (hindex : .up ∉ FileSystem.components (fc.index.getD (ascii "index.php"))) :
    StaysUnder server location fc path := by
  have hclimbs : ∀ (cs : List (FileTree.Component Bytes)) (w : Way Bytes), .up ∉ cs →
      (cs.foldl Way.step w).climbs = w.climbs := by
    intro cs
    induction cs with
    | nil => exact fun w _ => rfl
    | cons c cs ih =>
        intro w hup
        rw [List.mem_cons, not_or] at hup
        rw [List.foldl_cons, ih _ hup.2]
        cases c with
        | here => rfl
        | up => exact absurd rfl hup.1
        | name n => rfl
  have hzero : (scriptWay server location fc path).climbs = 0 := by
    refine hclimbs _ _ ?_
    rw [List.mem_append, not_or]
    refine ⟨hpath, ?_⟩
    split
    · exact hindex
    · exact List.not_mem_nil
  refine ⟨hroot, ?_, Or.inr ?_⟩
  · rw [hzero]
    exact List.nil_suffix
  · rw [hzero]
    exact Nat.zero_le _

end Jail

/-- The parent of the document root is reached by a URI that ends in two dots. -/
theorem parent_script_named :
    ¬ ∀ (ctx : Context) (env : Env) (st : ServerState) (raw : Bytes)
      (req routed : ParsedRequest) (server : ServerBlock) (location : Option LocationBlock)
      (fc : FastCgiConfig),
      Admitted ctx env st raw req server location routed →
        location.map LocationBlock.handler = some (.fastCgi fc) →
          ScriptUnderRoot server location fc routed.path := by
  intro h
  have hexit : (dispatch (phpContext []) (quietEnv exampleFiles) (stateWithCache 0 0)
      (requestOf ["GET /.. HTTP/1.1", "Host: a"])).exit = .finished := by
    decide +kernel
  have hparsed : (parseRequest (requestOf ["GET /.. HTTP/1.1", "Host: a"])).toOption.map
      (fun req => (req.path, req.query, req.body)) = some (ascii "/..", [], []) := by
    decide +kernel
  obtain ⟨req, routed, hadmitted, hpath, -, -⟩ := admitted_of_finished hexit hparsed rfl rfl
  have hunder := h _ _ _ _ _ _ _ _ _ hadmitted rfl
  rw [hpath, scriptUnderRoot_iff] at hunder
  have hreturns := hunder.returns
  revert hreturns
  decide +kernel

end Handler
end RunNginx
