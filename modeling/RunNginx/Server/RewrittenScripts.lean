import RunNginx.FastCgi.Params
import RunNginx.Router.Locations
import RunNginx.Server.Exits

/-!
# The script of a rewritten FastCGI request

The query is cut off the URI once, before the rewrite rules.  What the rules leave is taken
for a path, also where a replacement has a query part of its own: the name of the script
file is made of all of it, and the query of the request is put behind it with a `?`.

`rewritten_params_iff`: the variables keep path and query apart exactly if no `?` is left by
the rules, or the configuration sets the variables that would go wrong.
-/

namespace RunNginx
namespace Handler

open ByteString StaticFiles Proxy

section Split

variable {front back : Bytes}

theorem splitUri_of_not_mem
    (h : 63 ∉ front) :
    ParsedRequest.splitUri front = (front, []) := by
  unfold ParsedRequest.splitUri
  cases hfind : find [63] front with
  | none => rfl
  | some q =>
      obtain ⟨hsplit, -, -⟩ := find_byte_split hfind
      refine absurd ?_ h
      rw [hsplit]
      exact List.mem_append_right _ List.mem_cons_self

theorem splitUri_append
    (h : 63 ∉ front) :
    ParsedRequest.splitUri (front ++ 63 :: back) = (front, back) := by
  rw [ParsedRequest.splitUri, find_byte_append h]
  simp

/-- A URI without a `?` is all path, and any other one is cut at its first. -/
theorem splitUri_cases
    (uri : Bytes) :
    63 ∉ uri ∨ 63 ∉ (ParsedRequest.splitUri uri).1 ∧
      uri = (ParsedRequest.splitUri uri).1 ++ 63 :: (ParsedRequest.splitUri uri).2 := by
  by_cases h : 63 ∈ uri
  · obtain ⟨front, back, rfl, hfront⟩ := List.eq_append_cons_of_mem h
    rw [splitUri_append hfront]
    exact .inr ⟨hfront, rfl⟩
  · exact .inl h

end Split

section Script

variable {server : ServerBlock} {location : Option LocationBlock} {fc : FastCgiConfig}
variable {front back : Bytes}

variable (server location) in
/-- The file of a path under the document root. -/
def documentFile (path : Bytes) : Bytes :=
  trimEndSlashes ((effectiveRoot server location).getD (ascii "/var/www/html")) ++ ascii "/" ++
    path.dropWhile isSlash

variable (server location) in
/-- The index file is put behind this path. -/
def TakesIndex (path : Bytes) : Prop :=
  path.getLast? = some PathText.slash ∨
    PathText.extension (documentFile server location path) = none

variable (server location fc) in
/-- The index file of a path. -/
def indexFile (path : Bytes) : Bytes :=
  trimEndSlashes (documentFile server location path) ++ ascii "/" ++
    fc.index.getD (ascii "index.php")

instance (path : Bytes) : Decidable (TakesIndex server location path) := by
  unfold TakesIndex
  infer_instance

theorem scriptPath_eq
    (path : Bytes) :
    scriptPath server location fc path =
      if TakesIndex server location path then indexFile server location fc path
      else documentFile server location path :=
  rfl

theorem dropWhile_append_cons
    {b : UInt8} (hb : isSlash b = false) (xs ys : Bytes) :
    (xs ++ b :: ys).dropWhile isSlash = xs.dropWhile isSlash ++ b :: ys := by
  induction xs with
  | nil => rw [List.nil_append, List.dropWhile_cons_of_neg (by simp [hb])]; rfl
  | cons x xs ih =>
      by_cases hx : isSlash x = true
      · rw [List.cons_append, List.dropWhile_cons_of_pos hx, List.dropWhile_cons_of_pos hx, ih]
      · rw [List.cons_append, List.dropWhile_cons_of_neg hx, List.dropWhile_cons_of_neg hx]
        rfl

theorem trimEndSlashes_append_cons
    {b : UInt8} (hb : isSlash b = false) (xs ys : Bytes) :
    trimEndSlashes (xs ++ b :: ys) = xs ++ b :: trimEndSlashes ys := by
  unfold trimEndSlashes
  rw [List.reverse_append, List.reverse_cons, List.append_assoc, List.singleton_append,
    dropWhile_append_cons hb, List.reverse_append, List.reverse_cons, List.reverse_reverse,
    List.append_assoc, List.singleton_append]

theorem length_trimEndSlashes_le
    (s : Bytes) :
    (trimEndSlashes s).length ≤ s.length := by
  have hle := (List.dropWhile_suffix isSlash (l := s.reverse)).length_le
  rw [trimEndSlashes, List.length_reverse]
  rwa [List.length_reverse] at hle

theorem documentFile_append
    (front back : Bytes) :
    documentFile server location (front ++ 63 :: back) =
      documentFile server location front ++ 63 :: back := by
  unfold documentFile
  rw [dropWhile_append_cons (by decide), ← List.append_assoc]

variable (server location fc) in
/--
The name of the index file happens to spell the query part, so that the path and the whole
URI lead to the same name.
-/
structure IndexSpells (front back : Bytes) : Prop where
  path : TakesIndex server location front
  uri : ¬ TakesIndex server location (front ++ 63 :: back)
  spells : indexFile server location fc front = documentFile server location front ++ 63 :: back

/-- A query part changes the name of the script, unless the index file spells it. -/
theorem scriptPath_append_iff :
    scriptPath server location fc (front ++ 63 :: back) =
        scriptPath server location fc front ↔
      IndexSpells server location fc front back := by
  have hlonger : ∀ s : Bytes, documentFile server location front ++ 63 :: s ≠
      documentFile server location front := by
    intro s heq
    have hlength := congrArg List.length heq
    rw [List.length_append, List.length_cons] at hlength
    omega
  rw [scriptPath_eq, scriptPath_eq]
  by_cases huri : TakesIndex server location (front ++ 63 :: back)
  · refine iff_of_false ?_ fun h => h.uri huri
    rw [if_pos huri, indexFile, documentFile_append, trimEndSlashes_append_cons (by decide)]
    by_cases hpath : TakesIndex server location front
    · rw [if_pos hpath, indexFile]
      intro heq
      have hlength := congrArg List.length heq
      have hle := length_trimEndSlashes_le (documentFile server location front)
      simp only [List.length_append, List.length_cons] at hlength
      omega
    · rw [if_neg hpath, List.append_assoc, List.append_assoc, List.cons_append]
      exact hlonger _
  · rw [if_neg huri, documentFile_append]
    by_cases hpath : TakesIndex server location front
    · rw [if_pos hpath]
      exact ⟨fun heq => ⟨hpath, huri, heq.symm⟩, fun h => h.spells.symm⟩
    · rw [if_neg hpath]
      exact iff_of_false (hlonger back) fun h => hpath h.path

end Script

section Variables

variable {server : ServerBlock} {location : Option LocationBlock} {fc : FastCgiConfig}

/-- The query part of a replacement, and behind it the query of the request. -/
def joinQuery (rewritten query : Bytes) : Bytes :=
  if rewritten = [] then query
  else if query = [] then rewritten
  else rewritten ++ ascii "&" ++ query

/--
The variables of a request whose path the rules have left as `uri`: script name and script
file are those of its path part, and the query is the query part in front of the one of the
request.
-/
structure Coherent (server : ServerBlock) (location : Option LocationBlock) (fc : FastCgiConfig)
    (uri query : Bytes) (params : Table Bytes Bytes) : Prop where
  scriptName : params.lookup (ascii "SCRIPT_NAME") = some (ParsedRequest.splitUri uri).1
  scriptFilename : params.lookup (ascii "SCRIPT_FILENAME") =
    some (scriptPath server location fc (ParsedRequest.splitUri uri).1)
  queryString : params.lookup (ascii "QUERY_STRING") =
    some (joinQuery (ParsedRequest.splitUri uri).2 query)

variable (fc) in
/-- What the configuration sets a variable to, if it does, and a condition if it does not. -/
def SetTo (name value : Bytes) (ok : Prop) : Prop :=
  Table.lastValue fc.params name = some value ∨ Table.lastValue fc.params name = none ∧ ok

variable (server location fc) in
/-- The variables cannot mix up path and query. -/
structure KeepsApart (uri query : Bytes) : Prop where
  scriptName : SetTo fc (ascii "SCRIPT_NAME") (ParsedRequest.splitUri uri).1 True
  scriptFilename : SetTo fc (ascii "SCRIPT_FILENAME")
    (scriptPath server location fc (ParsedRequest.splitUri uri).1)
    (63 ∉ uri ∨ IndexSpells server location fc (ParsedRequest.splitUri uri).1
      (ParsedRequest.splitUri uri).2)
  queryString : SetTo fc (ascii "QUERY_STRING")
    (joinQuery (ParsedRequest.splitUri uri).2 query) (63 ∉ uri ∨ query = [])

theorem splitUri_uriWithQuery
    (uri query : Bytes) :
    ParsedRequest.splitUri (uriWithQuery uri query) =
      ((ParsedRequest.splitUri uri).1,
        if 63 ∈ uri then uriWithQuery (ParsedRequest.splitUri uri).2 query else query) := by
  have hmark : ascii "?" = [63] := by decide
  rcases splitUri_cases uri with huri | ⟨hfront, huri⟩
  · rw [if_neg huri, splitUri_of_not_mem huri, uriWithQuery, hmark]
    by_cases hquery : query = []
    · rw [if_pos hquery, splitUri_of_not_mem huri, hquery]
    · rw [if_neg hquery, List.append_assoc, List.singleton_append, splitUri_append huri]
  · have hmem : 63 ∈ uri := by
      rw [huri]
      exact List.mem_append_right _ List.mem_cons_self
    rw [if_pos hmem]
    generalize ParsedRequest.splitUri uri = parts at hfront huri
    subst huri
    unfold uriWithQuery
    by_cases hquery : query = []
    · rw [if_pos hquery, if_pos hquery, splitUri_append hfront]
    · rw [if_neg hquery, if_neg hquery, List.append_assoc, List.append_assoc, List.cons_append,
        splitUri_append hfront, List.append_assoc]

/-- The query is right unless two query parts are joined. -/
theorem query_eq_joinQuery_iff
    (uri query : Bytes) :
    (ParsedRequest.splitUri (uriWithQuery uri query)).2 =
        joinQuery (ParsedRequest.splitUri uri).2 query ↔
      63 ∉ uri ∨ query = [] := by
  have hmark : ascii "?" = [63] := by decide
  have hamp : ascii "&" = [38] := by decide
  rw [splitUri_uriWithQuery]
  by_cases hmem : 63 ∈ uri
  · rw [if_pos hmem, uriWithQuery, joinQuery, hmark, hamp]
    by_cases hquery : query = []
    · refine iff_of_true ?_ (.inr hquery)
      rw [if_pos hquery, if_pos hquery]
      split
      · rename_i hnil
        rw [hnil, hquery]
      · rfl
    · refine iff_of_false ?_ (not_or.mpr ⟨fun h => h hmem, hquery⟩)
      rw [if_neg hquery, if_neg hquery]
      split
      · intro heq
        have hlength := congrArg List.length heq
        simp only [List.length_append, List.length_singleton] at hlength
        omega
      · simp
  · rw [if_neg hmem, splitUri_of_not_mem hmem]
    exact iff_of_true rfl (.inl hmem)

/-- A variable that the server sets has the right value if the server's is right, or set. -/
theorem lookup_eq_iff
    {method uri scriptPath name own : Bytes} {headers : Headers} {bodyLen : Nat} (value : Bytes)
    (hname : ¬ ascii "HTTP_" <+: name)
    (hown : Table.lastValue
      (FastCgi.serverParams fc method uri scriptPath headers bodyLen) name = some own) :
    (FastCgi.buildParams fc method uri scriptPath headers bodyLen).lookup name = some value ↔
      SetTo fc name value (own = value) := by
  rw [FastCgi.lookup_buildParams, FastCgi.lastValue_passedParams_of_not_http hname,
    Option.none_or, hown, SetTo]
  cases Table.lastValue fc.params name with
  | none => simp
  | some set => simp

theorem setTo_congr
    {name value : Bytes} {p q : Prop} (h : p ↔ q) :
    SetTo fc name value p ↔ SetTo fc name value q := by
  rw [SetTo, SetTo, h]

/-- The variables the server sets for a URI. -/
theorem lastValue_serverParams
    (fc : FastCgiConfig) (method uri scriptPath : Bytes) (headers : Headers) (bodyLen : Nat) :
    let server := FastCgi.serverParams fc method uri scriptPath headers bodyLen
    Table.lastValue server (ascii "SCRIPT_NAME") = some (ParsedRequest.splitUri uri).1 ∧
      Table.lastValue server (ascii "SCRIPT_FILENAME") = some scriptPath ∧
      Table.lastValue server (ascii "QUERY_STRING") = some (ParsedRequest.splitUri uri).2 := by
  unfold FastCgi.serverParams ParsedRequest.splitUri
  cases find [63] uri with
  | none => exact ⟨rfl, rfl, rfl⟩
  | some q => exact ⟨rfl, rfl, rfl⟩

theorem coherent_iff
    {method : Bytes} {headers : Headers} {bodyLen : Nat} (uri query : Bytes) :
    Coherent server location fc uri query
        (FastCgi.buildParams fc method (uriWithQuery uri query)
          (scriptPath server location fc uri) headers bodyLen) ↔
      KeepsApart server location fc uri query := by
  obtain ⟨hname, hfile, hquery⟩ := lastValue_serverParams fc method (uriWithQuery uri query)
    (scriptPath server location fc uri) headers bodyLen
  have hscript : scriptPath server location fc uri =
      scriptPath server location fc (ParsedRequest.splitUri uri).1 ↔
        63 ∉ uri ∨ IndexSpells server location fc (ParsedRequest.splitUri uri).1
          (ParsedRequest.splitUri uri).2 := by
    rcases splitUri_cases uri with huri | ⟨-, huri⟩
    · rw [splitUri_of_not_mem huri]
      exact iff_of_true rfl (.inl huri)
    · conv_lhs => lhs; rw [huri]
      have hmem : 63 ∈ uri := by
        rw [huri]
        exact List.mem_append_right _ List.mem_cons_self
      rw [scriptPath_append_iff]
      exact (or_iff_right fun h => h hmem).symm
  have hname' := lookup_eq_iff (ParsedRequest.splitUri uri).1 (by decide) hname
  have hfile' := lookup_eq_iff (scriptPath server location fc (ParsedRequest.splitUri uri).1)
    (by decide) hfile
  have hquery' := lookup_eq_iff (joinQuery (ParsedRequest.splitUri uri).2 query) (by decide) hquery
  rw [setTo_congr (iff_true_intro (congrArg Prod.fst (splitUri_uriWithQuery uri query)))]
    at hname'
  rw [setTo_congr hscript] at hfile'
  rw [setTo_congr (query_eq_joinQuery_iff uri query)] at hquery'
  exact ⟨fun h => ⟨hname'.mp h.scriptName, hfile'.mp h.scriptFilename, hquery'.mp h.queryString⟩,
    fun h => ⟨hname'.mpr h.scriptName, hfile'.mpr h.scriptFilename, hquery'.mpr h.queryString⟩⟩

end Variables

section Dispatched

variable {ctx : Context} {env : Env} {st : ServerState} {raw : Bytes}
variable {req routed : ParsedRequest} {server : ServerBlock} {location : Option LocationBlock}
variable {fc : FastCgiConfig}

theorem fastcgi_effects
    (h : Admitted ctx env st raw req server location routed)
    (hfc : location.map LocationBlock.handler = some (.fastCgi fc))
    (params : Table Bytes Bytes) (body : Bytes) :
    .fastcgi params body ∈ (dispatch ctx env st raw).effects ↔
      params = FastCgi.buildParams fc routed.method (uriWithQuery routed.path routed.query)
          (scriptPath server location fc routed.path) routed.headers routed.body.length ∧
        body = routed.body := by
  have hstage : handlerStage env (afterLookup env st req) server location routed =
      .ok (fastCgiHandler env server location fc routed) := by
    rw [handlerStage, hfc]
  rw [(Ends.finished h hstage).dispatch_eq]
  simp [finish, ParsedRequest.logEntry]

/--
A request that gets to an application server gives it variables, and those keep path and
query of the rewritten URI apart exactly if they cannot be mixed up.
-/
theorem rewritten_params_iff
    (h : Admitted ctx env st raw req server location routed)
    (hfc : location.map LocationBlock.handler = some (.fastCgi fc)) :
    (∃ params, .fastcgi params routed.body ∈ (dispatch ctx env st raw).effects) ∧
      ∀ params body, .fastcgi params body ∈ (dispatch ctx env st raw).effects →
        (Coherent server location fc routed.path req.query params ↔
          KeepsApart server location fc routed.path req.query) := by
  refine ⟨⟨_, (fastcgi_effects h hfc _ _).mpr ⟨rfl, rfl⟩⟩, ?_⟩
  intro params body hmem
  obtain ⟨first, path, -, -, -, hrouted⟩ := h.enters
  have hquery : req.query = routed.query := by
    rw [hrouted]
  obtain ⟨rfl, -⟩ := (fastcgi_effects h hfc params body).mp hmem
  rw [hquery]
  exact coherent_iff _ _

end Dispatched

section Example

/-- The application server of the examples. -/
def phpSocket : FastCgiConfig where
  upstream := .unixSocket (ascii "/run/php.sock")
  params := []
  index := none
  readTimeout := 60
  connectTimeout := 10

/-- Everything is handed to one script, the path as its argument. -/
def frontRule : RewriteRule :=
  ⟨ascii "^/(.*)$", ascii "/index.php?q=$1", .last⟩

/-- The expression of that rule. -/
def frontRegex : Regex where
  isMatch := fun uri => (ascii "/").isPrefixOf uri
  replace := fun uri template =>
    if (ascii "/").isPrefixOf uri ∧ template = frontRule.replacement then
      ascii "/index.php?q=" ++ uri.drop 1
    else uri

/-- A location for all paths in front of the application server. -/
def phpLocation (rules : List RewriteRule) : LocationBlock :=
  { Router.bareLocation (.longestPrefix (ascii "/")) with
    handler := .fastCgi phpSocket
    rewrites := rules }

def phpContext (rules : List RewriteRule) : Context :=
  { contextOf (serverWith (phpLocation rules)) with
    lib := ⟨fun _ => none, fun p => if p = frontRule.pattern then some frontRegex else none,
      fun _ => none⟩ }

/-- A request that is answered behind its handler has got there. -/
theorem admitted_of_finished
    {rules : List RewriteRule} {env : Env} {st : ServerState} {raw path query body new : Bytes}
    (hexit : (dispatch (phpContext rules) env st raw).exit = .finished)
    (hparsed : (parseRequest raw).toOption.map (fun req => (req.path, req.query, req.body)) =
      some (path, query, body))
    (hlocation : Router.selectLocation (serverWith (phpLocation rules)) path =
      some (phpLocation rules))
    (hnew : rewrittenPath (phpContext rules).lib rules path = some new) :
    ∃ req routed, Admitted (phpContext rules) env st raw req (serverWith (phpLocation rules))
      (some (phpLocation rules)) routed ∧
        routed.path = new ∧ req.query = query ∧ routed.body = body := by
  have hends := ends_dispatch (phpContext rules) env st raw
  generalize dispatch (phpContext rules) env st raw = o at hexit hends
  cases hends with
  | @finished req routed server location resp effects hreq _ =>
      obtain ⟨first, last, henters, hselected, hlast, hrouted⟩ := hreq.enters
      rw [henters.parses] at hparsed
      obtain ⟨rfl, hrest⟩ := Prod.mk.inj (Option.some.inj hparsed)
      obtain ⟨rfl, rfl⟩ := Prod.mk.inj hrest
      obtain rfl : server = serverWith (phpLocation rules) := by
        rw [hreq.server_eq]
        exact List.mem_singleton.mp (serverFor_mem (phpContext rules) req)
      obtain rfl : req.path = first := by
        have hfirst := henters.rewritten
        rw [← hreq.server_eq] at hfirst
        exact Option.some.inj hfirst
      obtain rfl : some (phpLocation rules) = location := (hselected.trans hlocation).symm
      have hrules : rewrittenPath (phpContext rules).lib rules req.path = some last := hlast
      obtain rfl : new = last := Option.some.inj (hnew.symm.trans hrules)
      exact ⟨req, routed, hreq, by rw [hrouted], rfl, by rw [hrouted]⟩
  | _ => cases hexit

/-- A path that no rule has changed. -/
theorem rewritten_params_example :
    let raw := requestOf ["GET /a.php?b=c HTTP/1.1", "Host: a"]
    ∃ params, .fastcgi params [] ∈
        (dispatch (phpContext []) (quietEnv exampleFiles) (stateWithCache 0 0) raw).effects ∧
      Coherent (serverWith (phpLocation [])) (some (phpLocation [])) phpSocket (ascii "/a.php")
        (ascii "b=c") params := by
  intro raw
  have hexit : (dispatch (phpContext []) (quietEnv exampleFiles) (stateWithCache 0 0) raw).exit =
      .finished := by
    decide +kernel
  have hparsed : (parseRequest raw).toOption.map (fun req => (req.path, req.query, req.body)) =
      some (ascii "/a.php", ascii "b=c", []) := by
    decide +kernel
  obtain ⟨req, routed, hadmitted, hpath, hquery, hbody⟩ :=
    admitted_of_finished hexit hparsed rfl rfl
  obtain ⟨⟨params, hmem⟩, hiff⟩ := rewritten_params_iff hadmitted rfl
  have hcoherent := hiff params _ hmem
  rw [hpath, hquery] at hcoherent
  rw [hbody] at hmem
  have hplain : 63 ∉ ascii "/a.php" := by decide
  exact ⟨params, hmem, hcoherent.mpr ⟨.inr ⟨rfl, trivial⟩, .inr ⟨rfl, .inl hplain⟩,
    .inr ⟨rfl, .inl hplain⟩⟩⟩

/-- The argument that the rule puts behind the script becomes part of its name. -/
theorem front_controller_incoherent :
    let raw := requestOf ["GET /a?b=c HTTP/1.1", "Host: a"]
    ∃ params, .fastcgi params [] ∈ (dispatch (phpContext [frontRule]) (quietEnv exampleFiles)
        (stateWithCache 0 0) raw).effects ∧
      ¬ Coherent (serverWith (phpLocation [frontRule])) (some (phpLocation [frontRule])) phpSocket
        (ascii "/index.php?q=a") (ascii "b=c") params := by
  intro raw
  have hexit : (dispatch (phpContext [frontRule]) (quietEnv exampleFiles) (stateWithCache 0 0)
      raw).exit = .finished := by
    decide +kernel
  have hparsed : (parseRequest raw).toOption.map (fun req => (req.path, req.query, req.body)) =
      some (ascii "/a", ascii "b=c", []) := by
    decide +kernel
  have hnew : rewrittenPath (phpContext [frontRule]).lib [frontRule] (ascii "/a") =
      some (ascii "/index.php?q=a") := by
    decide
  obtain ⟨req, routed, hadmitted, hpath, hquery, hbody⟩ :=
    admitted_of_finished hexit hparsed rfl hnew
  have heffect := (fastcgi_effects hadmitted rfl _ _).mpr ⟨rfl, rfl⟩
  obtain ⟨first, last, -, -, -, hrouted⟩ := hadmitted.enters
  have hquery' : routed.query = ascii "b=c" := by
    rw [hrouted, ← hquery]
  rw [hbody, hpath, hquery'] at heffect
  refine ⟨_, heffect, fun h => ?_⟩
  have hkeeps := (coherent_iff _ _).mp h
  rcases hkeeps.queryString with hset | ⟨-, hplain | hnone⟩
  · exact absurd hset (by decide)
  · exact hplain (by decide)
  · exact absurd hnone (by decide)

end Example

end Handler
end RunNginx
