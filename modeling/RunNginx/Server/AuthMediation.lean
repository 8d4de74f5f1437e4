import RunNginx.Config.AuthText
import RunNginx.Config.Includes
import RunNginx.Server.Dispatch

/-!
# From the text of a block to the authentication of a request

A location whose text asks for credentials, or whose server does while it says nothing
itself, is `Protected`.  The theorem says of a request that is served when its
credentials were accepted: the block must name a user file somewhere, and the answer
must not come out of the cache, which is asked before any credentials are.
-/

namespace RunNginx
namespace Handler

open ByteString ConfigParser

/-- Exits behind the authentication: the return and handler stages, and the cache. -/
def Exit.serves : Exit → Bool
  | .cacheHit | .returned | .upgraded | .upgradeFailed | .finished => true
  | _ => false

section Stages

variable {ctx : Context} {env : Env} {st st' : ServerState} {raw : Bytes}
variable {server : ServerBlock} {location : Option LocationBlock} {req routed : ParsedRequest}
variable {o : Outcome}

/-- Where a request is routed to does not depend on the state. -/
theorem route_state
    (h : route ctx env st req = .ok (server, location, routed)) (st' : ServerState) :
    route ctx env st' req = .ok (server, location, routed) := by
  have hssl : ∀ {server : ServerBlock}, sslStage env st server req = .ok () →
      sslStage env st' server req = .ok () := by
    intro server h
    unfold sslStage at h ⊢
    split at h
    · cases h
    · rename_i hcond
      rw [if_neg hcond]
  have hrewrite : ∀ {rules : List RewriteRule} {r r' : ParsedRequest},
      rewriteStage ctx env st rules r = .ok r' → rewriteStage ctx env st' rules r = .ok r' := by
    intro rules r r' h
    unfold rewriteStage at h ⊢
    split at h
    · cases h
    · exact h
    · exact h
  unfold route at h ⊢
  obtain ⟨_, hfirst, h⟩ := EarlyReturn.bind_eq_ok_iff.mp h
  obtain ⟨rewritten, hserver, h⟩ := EarlyReturn.bind_eq_ok_iff.mp h
  obtain ⟨final, hlocation, h⟩ := EarlyReturn.bind_eq_ok_iff.mp h
  exact EarlyReturn.bind_eq_ok_iff.mpr ⟨_, hssl hfirst,
    EarlyReturn.bind_eq_ok_iff.mpr ⟨rewritten, hrewrite hserver,
      EarlyReturn.bind_eq_ok_iff.mpr ⟨final, hrewrite hlocation, h⟩⟩⟩

variable (ctx env) in
/-- The server and the location that are selected for a request. -/
def Selected (st : ServerState) (raw : Bytes)
    (server : ServerBlock) (location : Option LocationBlock) (routed : ParsedRequest) : Prop :=
  ∃ req, parseStage st raw = .ok req ∧
    route ctx env st req = .ok (server, location, routed)

variable (env) in
/-- The cache holds a fresh answer for the request. -/
def Stored (st : ServerState) (req : ParsedRequest) : Prop :=
  Cache.isCachedMethod req.method = true ∧
    Cache.requestBypassesCache req.headers = false ∧
    (st.cache.get (Cache.ResponseCache.cacheKey req.host req.method req.fullUri)
      env.cacheNow).1.isSome = true

/-- The cache answers exactly what it holds. -/
theorem cacheStage_error_iff
    {rawLen : Nat} :
    (∃ o, cacheStage env st req rawLen = .error o) ↔ Stored env st req := by
  unfold cacheStage Stored
  by_cases hmethod : Cache.isCachedMethod req.method = true
  · by_cases hbypass : Cache.requestBypassesCache req.headers = true
    · simp [hmethod, hbypass]
    · simp only [Bool.not_eq_true] at hbypass
      simp only [hmethod, hbypass, Bool.not_false, Bool.and_self, if_true, true_and]
      cases hget : st.cache.get (Cache.ResponseCache.cacheKey req.host req.method req.fullUri)
        env.cacheNow with
      | mk found cache =>
          cases found with
          | none => simp
          | some bytes => simp [answer]
  · simp [hmethod]

theorem early_serves
    (h : LeavesEarly ctx env st raw o) (hserves : o.exit.serves = true) :
    ∃ req, parseStage st raw = .ok req ∧ Stored env st req := by
  cases h with
  | scan h =>
      unfold scanStage at h
      split at h <;> cases h
      cases hserves
  | parse h =>
      unfold parseStage at h
      repeat' split at h
      all_goals cases h
      all_goals cases hserves
  | cache hreq h => exact ⟨_, hreq, cacheStage_error_iff.mp ⟨o, h⟩⟩
  | challenge _ _ h =>
      unfold challengeStage at h
      split at h <;> cases h
      cases hserves
  | userApi _ _ h =>
      unfold userApiStage at h
      dsimp only at h
      split at h <;> cases h
      cases hserves
  | api _ _ h =>
      unfold apiStage at h
      split at h <;> cases h
      cases hserves

/-- A request that is served, and not from the cache, has passed the authentication. -/
theorem served_authorized
    (hselected : Selected ctx env st raw server location routed)
    (hserves : (dispatch ctx env st raw).exit.serves = true)
    (hstored : ∀ req, parseStage st raw = .ok req → ¬ Stored env st req) :
    ∃ st', authStage env st' server location routed = .ok () := by
  obtain ⟨req, hparse, hroute⟩ := hselected
  -- the dispatch routes the request the way `Selected` does
  have hsame : ∀ {st₁ req₁ server₁ location₁ routed₁},
      preRoute ctx env st raw = .ok (st₁, req₁) →
      route ctx env st₁ req₁ = .ok (server₁, location₁, routed₁) →
      server₁ = server ∧ location₁ = location ∧ routed₁ = routed := by
    intro st₁ req₁ server₁ location₁ routed₁ hpre hroute₁
    obtain ⟨_, hparse₁, _⟩ := preRoute_ok hpre
    rw [hparse] at hparse₁
    obtain rfl := Except.ok.inj hparse₁
    have := (route_state hroute st₁).symm.trans hroute₁
    obtain ⟨h1, h2⟩ := Prod.mk.inj (Except.ok.inj this)
    obtain ⟨h2, h3⟩ := Prod.mk.inj h2
    exact ⟨h1.symm, h2.symm, h3.symm⟩
  have hleaves := dispatch_leaves ctx env st raw
  generalize dispatch ctx env st raw = o at hserves hleaves
  cases hleaves with
  | preRoute h =>
      obtain ⟨req', hparse', hstore⟩ := early_serves (preRoute_error h) hserves
      exact absurd hstore (hstored req' hparse')
  | @route st₁ req₁ hpre h =>
      obtain ⟨_, hparse₁, _⟩ := preRoute_ok hpre
      rw [hparse] at hparse₁
      obtain rfl := Except.ok.inj hparse₁
      rw [route_state hroute st₁] at h
      cases h
  | @gates st₁ _ _ _ _ hpre hroute₁ h =>
      obtain ⟨rfl, rfl, rfl⟩ := hsame hpre hroute₁
      rcases gates_error h with h | h | h | ⟨h, _⟩
      · unfold authStage at h
        repeat' split at h
        all_goals cases h
        cases hserves
      · unfold limitStage at h
        repeat' split at h
        all_goals cases h
        cases hserves
      · unfold bodyStage at h
        split at h <;> cases h
        cases hserves
      · exact ⟨st₁, h⟩
  | @handler st₁ _ _ _ _ hpre hroute₁ hgates _ =>
      obtain ⟨rfl, rfl, rfl⟩ := hsame hpre hroute₁
      exact ⟨st₁, (gates_ok hgates).1⟩
  | @finish st₁ _ _ _ _ _ _ hpre hroute₁ hgates _ _ =>
      obtain ⟨rfl, rfl, rfl⟩ := hsame hpre hroute₁
      exact ⟨st₁, (gates_ok hgates).1⟩

end Stages

section Texts

variable {ctx : Context} {env : Env} {st : ServerState} {raw : Bytes}
variable {server : ServerBlock} {location : Option LocationBlock} {routed : ParsedRequest}
variable {serverTokens locTokens : List Token}

/-- The blocks were read from these tokens, the location in its server block. -/
structure TextsOf (lib : Libraries) (server : ServerBlock) (location : Option LocationBlock)
    (serverTokens locTokens : List Token) : Prop where
  server : ServerText lib server serverTokens
  location : ∀ loc ∈ location,
    (ascii "location", locTokens) ∈ serverItems lib serverTokens ∧ LocationText lib loc locTokens

/-- The directives of the selected location; without a location there are none. -/
def selectedItems (lib : Libraries) (location : Option LocationBlock)
    (locTokens : List Token) : List (Bytes × List Token) :=
  if location.isSome then locationItems lib locTokens else []

@[simp]
theorem selectedItems_some
    {lib : Libraries} {loc : LocationBlock} :
    selectedItems lib (some loc) locTokens = locationItems lib locTokens :=
  rfl

/--
The location block asks for credentials, or it has no `auth_basic` and its server block
asks for them.
-/
def Protected (lib : Libraries) (location : Option LocationBlock)
    (serverTokens locTokens : List Token) : Prop :=
  realms (selectedItems lib location locTokens) ≠ [] ∨
    (itemArgs (ascii "auth_basic") (selectedItems lib location locTokens) = [] ∧
      realms (serverItems lib serverTokens) ≠ [])

/-- One of the configured user files accepts the credentials of the request. -/
def Accepted (env : Env) (lib : Libraries) (location : Option LocationBlock)
    (serverTokens locTokens : List Token) (req : ParsedRequest) : Prop :=
  ∃ file ∈ userFiles (selectedItems lib location locTokens) ++
      userFiles (serverItems lib serverTokens),
    (Request.getHeader req.headers (ascii "authorization")).any
      (Auth.checkBasicAuth env.fs env.bcryptVerify file) = true

/-- The location names a user file, or its server block asks for credentials. -/
def Configured (lib : Libraries) (location : Option LocationBlock)
    (serverTokens locTokens : List Token) : Prop :=
  userFiles (selectedItems lib location locTokens) ≠ [] ∨
    realms (serverItems lib serverTokens) ≠ [] ∨ userFiles (serverItems lib serverTokens) ≠ []

/-- No user file at all accepts nobody. -/
theorem checkBasicAuth_noFile
    (fs : StaticFiles.FileSystem) (bcryptVerify : Bytes → Bytes → Bool)
    (authorization : Bytes) :
    Auth.checkBasicAuth fs bcryptVerify [] authorization = false := by
  have hfile : fs.readFile [] = none := rfl
  unfold Auth.checkBasicAuth
  split
  · rfl
  split
  · rfl
  · simp [hfile]

/-- Every server and location of a loaded configuration has texts. -/
theorem exists_textsOf
    {files : ConfigFiles} {path : Bytes} {cfg : Config}
    (hload : load ctx.lib files path = .ok cfg)
    (hserver : server ∈ cfg.http.servers) (hlocation : ∀ loc ∈ location, loc ∈ server.locations) :
    ∃ serverTokens locTokens, TextsOf ctx.lib server location serverTokens locTokens := by
  obtain ⟨serverTokens, htext⟩ := load_written ctx.lib files hload server hserver
  cases location with
  | none => exact ⟨serverTokens, [], htext, by simp⟩
  | some loc =>
      obtain ⟨locTokens, hitem, hloc⟩ :=
        (serverText_read ctx.lib htext).locations loc (hlocation loc rfl)
      refine ⟨serverTokens, locTokens, htext, ?_⟩
      intro l hl
      obtain rfl : loc = l := by simpa using hl
      exact ⟨hitem, hloc⟩

/-- The settings a request is checked against come from the text. -/
theorem authConfig_of_texts
    {cfg : AuthBasicConfig}
    (htexts : TextsOf ctx.lib server location serverTokens locTokens)
    (h : authConfig server location = some cfg) :
    cfg.userFile = [] ∨ cfg.userFile ∈ userFiles (selectedItems ctx.lib location locTokens) ++
      userFiles (serverItems ctx.lib serverTokens) := by
  rcases Option.or_eq_some_iff.mp h with hloc | ⟨_, hserver⟩
  · obtain ⟨loc, rfl, hauth⟩ := Option.bind_eq_some_iff.mp hloc
    rw [location_authBasic ctx.lib (htexts.location loc rfl).2] at hauth
    split at hauth
    · rename_i realm file hrealm hfile
      right
      rw [← Option.some.inj hauth]
      simp [selectedItems, List.mem_of_getLast? hfile]
    · cases hauth
  · rcases (serverText_read ctx.lib htexts.server).userFile cfg hserver with hnone | hmem
    · exact Or.inl hnone
    · exact Or.inr (List.mem_append_right _ hmem)

/-- A protected location with a user file somewhere does ask for credentials. -/
theorem authConfig_isSome
    (htexts : TextsOf ctx.lib server location serverTokens locTokens)
    (hprotected : Protected ctx.lib location serverTokens locTokens)
    (hconfigured : Configured ctx.lib location serverTokens locTokens) :
    (authConfig server location).isSome = true := by
  have hasks := (serverText_read ctx.lib htexts.server).asks_iff
  by_cases hserver : server.authBasic.isSome = true
  · unfold authConfig
    rw [Option.isSome_or]
    simp [hserver]
  · have hno : ¬ (realms (serverItems ctx.lib serverTokens) ≠ [] ∨
        userFiles (serverItems ctx.lib serverTokens) ≠ []) :=
      fun h => hserver (hasks.mpr h)
    have hrealm : realms (selectedItems ctx.lib location locTokens) ≠ [] :=
      hprotected.resolve_right fun h => hno (Or.inl h.2)
    have hfile : userFiles (selectedItems ctx.lib location locTokens) ≠ [] :=
      hconfigured.resolve_right hno
    cases location with
    | none => simp [selectedItems, realms, itemArgs] at hrealm
    | some loc =>
        simp only [selectedItems, Option.isSome_some, if_true] at hrealm hfile
        have hauth := location_authBasic ctx.lib (htexts.location loc rfl).2
        rw [List.getLast?_eq_some_getLast hrealm, List.getLast?_eq_some_getLast hfile] at hauth
        simp [authConfig, hauth]

/-- A request that is served without the cache had its credentials accepted. -/
theorem accepted_of_served
    (htexts : TextsOf ctx.lib server location serverTokens locTokens)
    (hprotected : Protected ctx.lib location serverTokens locTokens)
    (hconfigured : Configured ctx.lib location serverTokens locTokens)
    (hauth : authStage env st server location routed = .ok ()) :
    Accepted env ctx.lib location serverTokens locTokens routed := by
  obtain ⟨cfg, hcfg⟩ := Option.isSome_iff_exists.mp
    (authConfig_isSome htexts hprotected hconfigured)
  have hcheck : isAuthorized env cfg routed = true := by
    unfold authStage at hauth
    rw [hcfg] at hauth
    simp only at hauth
    split at hauth
    · rename_i hok
      exact hok
    · cases hauth
  rcases authConfig_of_texts htexts hcfg with hnone | hmem
  · obtain ⟨value, _, haccept⟩ := (Option.any_eq_true _ _).mp hcheck
    rw [hnone, checkBasicAuth_noFile] at haccept
    cases haccept
  · exact ⟨cfg.userFile, hmem, hcheck⟩

end Texts

section Example

/-- No URL and no regular expression is understood. -/
def noLibraries : Libraries := ⟨fun _ => none, fun _ => none, fun _ => none⟩

/-- A configuration of one server with one location, which has these directives. -/
def configFiles (directives : String) : ConfigFiles where
  glob := fun _ => []
  read := fun _ => some
    (ascii ("http \x7b server \x7b listen 80; location / \x7b " ++ directives ++
      " \x7d \x7d \x7d"))

/-- The tokens behind `server` and its brace in that configuration. -/
def tokensOfServer (directives : String) : List Token :=
  tokenize (ascii ("listen 80; location / \x7b " ++ directives ++ " \x7d \x7d \x7d"))

/-- The tokens behind `location` in that configuration. -/
def tokensOfLocation (directives : String) : List Token :=
  (tokensOfServer directives).drop 4

/-- The server of that configuration. -/
def serverOf (directives : String) : ServerBlock :=
  ((parseServerBlock noLibraries (tokensOfServer directives)).toOption.map Prod.fst).getD
    (StaticFiles.serverAt [])

/-- A server with the user `u` of the password `p` in `/users`. -/
def passwordEnv : Env :=
  quietEnv
    { tree := ⟨fun names =>
        if names = [ascii "users"] then some (.file ⟨ascii "u:p", some 7, true, by decide⟩)
        else none⟩
      cwd := []
      cwd_dir := .root }

/-- What that configuration makes of a request. -/
def guarded (directives : String) (lines : List String) : Outcome :=
  dispatch (contextOf (serverOf directives)) passwordEnv (stateWithCache 0 0) (requestOf lines)

/-- The configuration is read, and its location is selected for the request. -/
structure Guards (directives : String) (lines : List String) (cfg : Config)
    (loc : LocationBlock) (routed : ParsedRequest) : Prop where
  lib : (contextOf (serverOf directives)).lib = noLibraries
  load : ConfigParser.load noLibraries (configFiles directives) (ascii "a.conf") = .ok cfg
  http : (contextOf (serverOf directives)).http = cfg.http
  texts : TextsOf noLibraries (serverOf directives) (some loc)
    (tokensOfServer directives) (tokensOfLocation directives)
  selected : Selected (contextOf (serverOf directives)) passwordEnv (stateWithCache 0 0)
    (requestOf lines) (serverOf directives) (some loc) routed

/-- The tokens of a configuration whose server has these. -/
def rootTokens (ts : List Token) : List Token :=
  words [ascii "http"] ++ .openBrace :: (words [ascii "server"] ++ .openBrace :: ts)

/-- The configuration that these tokens are read to. -/
def readRoot (directives : String) (ts : List Token) : Except ConfigError Config :=
  parseRoot noLibraries (configFiles directives) Limits.maxIncludeDepth (ascii "a.conf") ts

theorem load_configFiles
    {directives : String} {ts : List Token}
    (htokens : tokenize (ascii ("http \x7b server \x7b listen 80; location / \x7b " ++
      directives ++ " \x7d \x7d \x7d")) = ts) :
    load noLibraries (configFiles directives) (ascii "a.conf") = readRoot directives ts := by
  rw [← htokens]
  rfl

/-- The configuration guards its location, if its tokens are these. -/
theorem exists_guards
    {directives : String} (lines : List String) {ts : List Token}
    (hts : tokensOfServer directives = ts)
    (htokens : tokenize (ascii ("http \x7b server \x7b listen 80; location / \x7b " ++
      directives ++ " \x7d \x7d \x7d")) = rootTokens ts)
    (hload : (readRoot directives (rootTokens ts)).toOption.map Config.http =
      some (contextOf (serverOf directives)).http)
    (hread : (parseServerBlock noLibraries ts).toOption.isSome = true)
    (hitems : (serverItems noLibraries ts).all (fun item =>
      item.1 != ascii "location" || item.2 == ts.drop 4) = true)
    (hroute : (parseStage (stateWithCache 0 0) (requestOf lines)).toOption.any (fun req =>
      (route (contextOf (serverOf directives)) passwordEnv (stateWithCache 0 0)
        req).toOption.any fun routed => routed.2.1.isSome) = true) :
    ∃ cfg loc routed, Guards directives lines cfg loc routed := by
  subst hts
  rw [← load_configFiles htokens] at hload
  obtain ⟨cfg, hcfg, hhttp⟩ := Option.map_eq_some_iff.mp hload
  obtain ⟨req, hreq, hroute⟩ := (Option.any_eq_true _ _).mp hroute
  obtain ⟨⟨server, location, routed⟩, hrouted, hsome⟩ := (Option.any_eq_true _ _).mp hroute
  obtain ⟨loc, rfl⟩ := Option.isSome_iff_exists.mp hsome
  have hparse := EarlyReturn.toOption_eq_some_iff.mp hreq
  have hroute := EarlyReturn.toOption_eq_some_iff.mp hrouted
  obtain ⟨hserver, rewritten, _, hlocation, _⟩ := route_ok hroute
  obtain rfl : server = serverOf directives := by
    rw [hserver]
    exact List.mem_singleton.mp (serverFor_mem (contextOf (serverOf directives)) req)
  have htext : ServerText noLibraries (serverOf directives) (tokensOfServer directives) := by
    obtain ⟨⟨server, rest⟩, hserver⟩ := Option.isSome_iff_exists.mp hread
    refine ⟨rest, ?_⟩
    rw [EarlyReturn.toOption_eq_some_iff.mp hserver]
    simp [serverOf, hserver]
  have hloc := Router.selectLocation_mem hlocation.symm
  obtain ⟨lts, hitem, hloctext⟩ := (serverText_read noLibraries htext).locations loc hloc
  have hlts : lts = tokensOfLocation directives := by
    simpa [tokensOfLocation] using List.all_eq_true.mp hitems _ hitem
  subst hlts
  refine ⟨cfg, loc, routed, ⟨rfl, EarlyReturn.toOption_eq_some_iff.mp hcfg, hhttp.symm, ⟨htext, ?_⟩,
    ⟨req, hparse, hroute⟩⟩⟩
  intro l hl
  obtain rfl : loc = l := by simpa using hl
  exact ⟨hitem, hloctext⟩

theorem tokensOfServer_password :
    tokensOfServer "auth_basic A; auth_basic_user_file /users; return 200 ok;" =
      words [ascii "listen", ascii "80"] ++ .semicolon ::
        (words [ascii "location", ascii "/"] ++ .openBrace ::
          (words [ascii "auth_basic", ascii "A"] ++ .semicolon ::
            (words [ascii "auth_basic_user_file", ascii "/users"] ++ .semicolon ::
              (words [ascii "return", ascii "200", ascii "ok"] ++
                [.semicolon, .closeBrace, .closeBrace, .closeBrace])))) := by
  rw [tokensOfServer, ascii_append, ascii_append, ascii_ofList, ascii_ofList, ascii_ofList]
  decide +kernel

theorem tokenize_password :
    tokenize (ascii ("http \x7b server \x7b listen 80; location / \x7b " ++
      "auth_basic A; auth_basic_user_file /users; return 200 ok;" ++ " \x7d \x7d \x7d")) =
      rootTokens (tokensOfServer "auth_basic A; auth_basic_user_file /users; return 200 ok;") := by
  rw [tokensOfServer_password, ascii_append, ascii_append, ascii_ofList, ascii_ofList, ascii_ofList]
  decide +kernel

theorem tokensOfServer_noUserFile :
    tokensOfServer "auth_basic A; return 200 ok;" =
      words [ascii "listen", ascii "80"] ++ .semicolon ::
        (words [ascii "location", ascii "/"] ++ .openBrace ::
          (words [ascii "auth_basic", ascii "A"] ++ .semicolon ::
            (words [ascii "return", ascii "200", ascii "ok"] ++
              [.semicolon, .closeBrace, .closeBrace, .closeBrace]))) := by
  rw [tokensOfServer, ascii_append, ascii_append, ascii_ofList, ascii_ofList, ascii_ofList]
  decide +kernel

theorem tokenize_noUserFile :
    tokenize (ascii ("http \x7b server \x7b listen 80; location / \x7b " ++
      "auth_basic A; return 200 ok;" ++ " \x7d \x7d \x7d")) =
      rootTokens (tokensOfServer "auth_basic A; return 200 ok;") := by
  rw [tokensOfServer_noUserFile, ascii_append, ascii_append, ascii_ofList, ascii_ofList,
    ascii_ofList]
  decide +kernel

end Example

end Handler
end RunNginx
