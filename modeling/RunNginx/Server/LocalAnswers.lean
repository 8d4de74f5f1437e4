import RunNginx.Server.Framing

/-!
# Answers given without a backend

Every stage that answers a request by itself writes a framed message, as long as the
configured texts and the request hold no line feed.  Some answers are kept out: a 304
of the static handler has no length by design, the rate limit, the body limit, login
and logout declare a length that is not theirs, and two pages of the management API
end their lines with a bare line feed.
-/

namespace RunNginx
namespace Handler

open ByteString EarlyReturn HttpMessage StaticFiles Proxy

section Configuration

/-- The text of a `return` directive ends no line. -/
def CleanReturn (rd : ReturnDirective) : Prop :=
  ∀ url, rd.body = .url url → (10 : UInt8) ∉ url

structure CleanLocation (loc : LocationBlock) : Prop where
  addHeaders : ∀ h ∈ loc.addHeaders, Other h
  realm : ∀ auth, loc.authBasic = some auth → (10 : UInt8) ∉ auth.realm
  rewrites : ∀ rule ∈ loc.rewrites, (10 : UInt8) ∉ rule.replacement
  returnDirective : ∀ rd, loc.returnDirective = some rd → CleanReturn rd
  handler : ∀ rd, loc.handler = .return rd → CleanReturn rd

structure CleanServer (server : ServerBlock) : Prop where
  addHeaders : ∀ h ∈ server.addHeaders, Other h
  realm : ∀ auth, server.authBasic = some auth → (10 : UInt8) ∉ auth.realm
  rewrites : ∀ rule ∈ server.rewrites, (10 : UInt8) ∉ rule.replacement
  returnDirective : ∀ rd, server.returnDirective = some rd → CleanReturn rd
  locations : ∀ loc ∈ server.locations, CleanLocation loc

/-- Configured texts end no line, and no `add_header` sets a Content-Length. -/
def CleanConfig (http : HttpBlock) : Prop :=
  ∀ server ∈ http.servers, CleanServer server

theorem rules_clean
    {location : Option LocationBlock}
    (h : ∀ loc ∈ location, CleanLocation loc) :
    ∀ rule ∈ (location.map LocationBlock.rewrites).getD [], (10 : UInt8) ∉ rule.replacement := by
  cases location with
  | none => simp
  | some loc => exact (h loc rfl).rewrites

/-- A regular expression puts texts together from the path and its template. -/
def CleanRegex (lib : Libraries) : Prop :=
  ∀ pattern re, lib.compileRegex pattern = some re → ∀ text template,
    (10 : UInt8) ∉ text → (10 : UInt8) ∉ template → (10 : UInt8) ∉ re.replace text template

/-- A request whose host and path end no line, and that is no HEAD request. -/
structure CleanRequest (req : ParsedRequest) : Prop where
  method : eqIgnoreCase req.method (ascii "HEAD") = false
  host : (10 : UInt8) ∉ req.host
  path : (10 : UInt8) ∉ req.path

/-- Every cached message is framed. -/
def FramedCache (st : ServerState) : Prop :=
  ∀ key entry, st.cache.entries.lookup key = some entry → Framed entry.bytes

end Configuration

variable {ctx : Context} {env : Env} {st : ServerState} {o : Outcome}

variable (env) in
/-- Pages of the management API whose length is wrong or whose lines are not CRLF lines. -/
inductive OddPage (bytes : Bytes) : Prop
  | login (hdrs : Headers) (h : bytes = Api.loginResponse hdrs env.api.token)
  | logout (h : bytes = Api.logoutResponse)
  | webui (h : bytes = Api.serveWebui env.api)
  | logs (query : Bytes) (h : bytes = Api.apiLogs env.api query)

variable (env) in
/-- Answers that are kept out. -/
inductive KeptOut (o : Outcome) : Prop
  | notModified (hexit : o.exit = .finished) (hstatus : o.result.status = 304)
  | limited (hexit : o.exit = .limited)
  | tooLarge (hexit : o.exit = .tooLarge)
  | page (hexit : o.exit = .api) (h : OddPage env o.result.bytes)

section Management

theorem runCall_framed
    (call : Api.ApiCall) :
    Framed (Api.runCall env.api call) ∨
      OddPage env (Api.runCall env.api call) :=
  Or.inl (jsonResponse_framed _ _)

theorem handleSitesRoute_framed
    (path query method : Bytes) :
    Framed (Api.handleSitesRoute env.api path query method) ∨
      OddPage env (Api.handleSitesRoute env.api path query method) := by
  unfold Api.handleSitesRoute
  simp only
  split
  · exact runCall_framed _
  · exact Or.inl (jsonResponse_framed _ _)

theorem handleApiInner_framed
    (path query method body : Bytes) :
    Framed (Api.handleApiInner env.api path query method body) ∨
      OddPage env (Api.handleApiInner env.api path query method body) := by
  unfold Api.handleApiInner
  simp only
  split
  · exact Or.inl (jsonResponse_framed _ _)
  split
  · exact runCall_framed _
  split
  · exact runCall_framed _
  split
  · exact runCall_framed _
  split
  · exact Or.inr (.logs query rfl)
  split
  · exact runCall_framed _
  split
  · exact runCall_framed _
  split
  · exact runCall_framed _
  split
  · exact runCall_framed _
  · exact Or.inl (jsonResponse_framed _ _)

theorem healthResponse_framed : Framed Api.healthResponse :=
  framed_around [ascii "Content-Type: application/json"]
    [ascii "Connection: close"] (by decide) (by decide) _

theorem prometheusMetrics_framed
    (api : Api.ApiEnv) :
    Framed (Api.prometheusMetrics api) :=
  framed_around [ascii "Content-Type: text/plain; version=0.0.4; charset=utf-8"]
    [ascii "Connection: keep-alive"] (by decide) (by decide) api.metrics

theorem serveLogin_framed
    (api : Api.ApiEnv) :
    Framed (Api.serveLogin api) :=
  framed_around [ascii "Content-Type: text/html; charset=utf-8"]
    [ascii "Cache-Control: no-cache", ascii "Connection: keep-alive"]
    (by decide) (by decide) api.loginHtml

theorem redirectToLogin_framed : Framed Api.redirectToLogin := by
  have hstart : ascii "HTTP/1.1 302 Found" ≠ [] ∧
      (10 : UInt8) ∉ ascii "HTTP/1.1 302 Found" := by
    decide
  have h := framed_around [ascii "Location: /login"] [ascii "Connection: close"]
    hstart (by decide) []
  rw [List.append_nil] at h
  exact h

theorem handleLoginPost_framed
    (settings : Api.ApiSettings) (sessions : Api.SessionStore) (hdrs : Headers)
    (body : Bytes) :
    Framed (Api.handleLoginPost env.api settings sessions hdrs body).1 ∨
      OddPage env (Api.handleLoginPost env.api settings sessions hdrs body).1 := by
  unfold Api.handleLoginPost
  split
  · exact Or.inl (jsonResponse_framed _ _)
  split
  · exact Or.inr (.login hdrs rfl)
  · exact Or.inl (jsonResponse_framed _ _)

theorem handleLogout_framed
    (sessions : Api.SessionStore) (hdrs : Headers) :
    OddPage env (Api.handleLogout sessions hdrs).1 := by
  unfold Api.handleLogout
  split
  · exact .logout rfl
  · exact .logout rfl

/-- An answer to a request that is let through only with authorization. -/
theorem guarded_framed
    {authorized : Bool} {response : Bytes}
    (h : Framed response ∨ OddPage env response) :
    Framed (if authorized then response else Api.jsonUnauthorized) ∨
      OddPage env (if authorized then response else Api.jsonUnauthorized) := by
  cases authorized with
  | true => exact h
  | false => exact Or.inl (jsonResponse_framed _ _)

/-- The branches of the management API. -/
theorem handleApi_framed
    {settings : Api.ApiSettings} {sessions : Api.SessionStore}
    {path query method : Bytes} {hdrs : Headers} {body : Bytes}
    {answer : Bytes × Api.SessionStore}
    (h : Api.handleApi env.api settings sessions path query method hdrs body = some answer) :
    Framed answer.1 ∨ OddPage env answer.1 := by
  have hgoal : ∀ {bytes : Bytes} {after : Api.SessionStore},
      (Framed bytes ∨ OddPage env bytes) → some (bytes, after) = some answer →
        Framed answer.1 ∨ OddPage env answer.1 := by
    intro bytes after hbytes heq
    rw [← Option.some.inj heq]
    exact hbytes
  unfold Api.handleApi at h
  refine of_ite h (fun _ => hgoal (Or.inl healthResponse_framed)) fun _ h => ?_
  refine of_ite h (fun _ => hgoal (Or.inl (prometheusMetrics_framed _))) fun _ h => ?_
  refine of_ite h (fun _ => hgoal (Or.inl (serveLogin_framed _))) fun _ h => ?_
  refine of_ite h (fun _ h => ?_) fun _ h => ?_
  · refine of_ite h (fun _ => hgoal (Or.inl (jsonResponse_framed _ _))) fun _ h => ?_
    rw [← Option.some.inj h]
    exact handleLoginPost_framed settings sessions hdrs body
  refine of_ite h (fun _ h => ?_) fun _ h => ?_
  · rw [← Option.some.inj h]
    exact Or.inr (handleLogout_framed sessions hdrs)
  refine of_ite h (fun _ h => ?_) fun _ h => ?_
  · exact of_ite h (fun _ => hgoal (Or.inl redirectToLogin_framed))
      fun _ => hgoal (Or.inr (.webui rfl))
  refine of_ite h (fun _ => hgoal (guarded_framed (runCall_framed _))) fun _ h => ?_
  refine of_ite h (fun _ => hgoal (guarded_framed (runCall_framed _))) fun _ h => ?_
  refine of_ite h (fun _ => hgoal (guarded_framed (handleSitesRoute_framed path query method)))
    fun _ h => ?_
  refine of_ite h (fun _ => hgoal (guarded_framed (runCall_framed _))) fun _ h => ?_
  refine of_ite h (fun _ => hgoal (guarded_framed (handleApiInner_framed path query method body)))
    fun _ h => ?_
  cases h

theorem apiStage_framed
    {req : ParsedRequest}
    (h : apiStage ctx env st req = .error o) :
    (Framed o.result.bytes ∨ OddPage env o.result.bytes) ∧ o.exit = .api := by
  unfold apiStage at h
  simp only at h
  split at h
  · rename_i hcall
    cases h
    exact ⟨handleApi_framed hcall, rfl⟩
  · cases h

end Management

section EarlyStages

theorem scanStage_framed
    (h : scanStage env st = .error o) :
    Framed o.result.bytes := by
  unfold scanStage at h
  split at h
  · cases h
    refine framed_formatResponse ?_ 429 false
    have hother : ∀ h ∈ [(ascii "Retry-After", ascii "3600"),
        (ascii "Content-Type", ascii "text/plain")], Other h := by
      decide
    exact (declares_length _).append hother
  · cases h

theorem badRequest_framed
    (reason : Bytes) (keepAlive : Bool) :
    Framed (HandlerResult.badRequest reason keepAlive).bytes :=
  framed_formatResponse ((declares_length _).cons (by decide)) 400 keepAlive

theorem parseStage_framed
    {raw : Bytes}
    (h : parseStage st raw = .error o) :
    Framed o.result.bytes := by
  unfold parseStage at h
  split at h
  · cases h
    exact badRequest_framed _ _
  split at h
  · cases h
    exact badRequest_framed _ _
  split at h
  · cases h
    exact badRequest_framed _ _
  · cases h

theorem cacheStage_framed
    {req : ParsedRequest} {rawLen : Nat}
    (hcache : FramedCache st)
    (h : cacheStage env st req rawLen = .error o) :
    Framed o.result.bytes := by
  unfold cacheStage at h
  split at h
  · split at h
    · rename_i bytes cache hget
      cases h
      obtain ⟨entry, hentry, hbytes, _⟩ :=
        Cache.ResponseCache.get_eq_some (congrArg Prod.fst hget)
      rw [← hbytes]
      exact hcache _ _ hentry
    · cases h
  · cases h

theorem challengeStage_framed
    {req : ParsedRequest}
    (h : challengeStage env st req = .error o) :
    Framed o.result.bytes := by
  unfold challengeStage at h
  split at h
  · cases h
    exact framed_formatResponse ((declares_length _).cons (by decide)) 200 false
  · cases h

theorem handleUserApi_framed
    {users users' : MultiUser.UserRegistry} {path method body key bytes : Bytes}
    {isAdmin : Bool}
    (h : MultiUser.handleUserApi env.users users path method body key isAdmin =
      some (bytes, users')) :
    Framed bytes := by
  have hpost : Framed (MultiUser.postUser env.users users body).1 := by
    unfold MultiUser.postUser
    simp only
    split
    · exact jsonErr_framed _ _
    split
    · exact jsonErr_framed _ _
    split
    · exact jsonOk_framed _
    · exact jsonErr_framed _ _
  unfold MultiUser.handleUserApi at h
  simp only at h
  split at h
  · cases h
  split at h
  · cases h
    exact jsonOk_framed _
  split at h
  · rw [Option.some.inj h] at hpost
    exact hpost
  split at h
  · split at h
    · cases h
      exact jsonOk_framed _
    · cases h
      exact jsonErr_framed _ _
  split at h
  · split at h
    · cases h
      exact jsonOk_framed _
    · cases h
      exact jsonErr_framed _ _
  · cases h

theorem userApiStage_framed
    {req : ParsedRequest}
    (h : userApiStage ctx env st req = .error o) :
    Framed o.result.bytes := by
  unfold userApiStage at h
  simp only at h
  split at h
  · rename_i hcall
    cases h
    exact handleUserApi_framed hcall
  · cases h

end EarlyStages

section Redirects

theorem redirectResult_framed
    (status : Nat) {location : Bytes} (keepAlive : Bool)
    (h : (10 : UInt8) ∉ location) :
    Framed (redirectResult status location keepAlive).bytes := by
  have hlength : Declares [(ascii "Content-Length", ascii "0")] ([] : Bytes).length :=
    declares_length 0
  exact framed_formatResponse (hlength.cons (other_of_name (by decide) h)) status keepAlive

theorem sslStage_framed
    {server : ServerBlock} {req : ParsedRequest}
    (hreq : CleanRequest req)
    (h : sslStage env st server req = .error o) :
    Framed o.result.bytes := by
  unfold sslStage at h
  split at h
  · cases h
    apply redirectResult_framed
    have hscheme : (10 : UInt8) ∉ ascii "https://" := by decide
    have hlocal : (10 : UInt8) ∉ ascii "localhost" := by decide
    have hhost : (10 : UInt8) ∉ (if req.host = [] then ascii "localhost" else req.host) := by
      split
      · exact hlocal
      · exact hreq.host
    simp [hscheme, hhost, hreq.path]
  · cases h

variable {rules : List RewriteRule}

/-- A rewrite of a clean path gives a clean path. -/
theorem applyRewrites_clean
    {path uri : Bytes}
    (hlib : CleanRegex ctx.lib)
    (hrules : ∀ rule ∈ rules, (10 : UInt8) ∉ rule.replacement)
    (hpath : (10 : UInt8) ∉ path)
    (h : (∃ stop, Rewrite.applyRewrites ctx.lib rules path = .rewritten uri stop) ∨
      ∃ status, Rewrite.applyRewrites ctx.lib rules path = .redirect uri status) :
    (10 : UInt8) ∉ uri := by
  induction rules with
  | nil => simp [Rewrite.applyRewrites] at h
  | cons rule rules ih =>
      have hrest := ih fun r hr => hrules r (by simp [hr])
      simp only [Rewrite.applyRewrites] at h
      cases hre : ctx.lib.compileRegex rule.pattern with
      | none =>
          simp only [hre] at h
          exact hrest h
      | some re =>
          simp only [hre] at h
          split at h
          · have hclean := hlib _ _ hre path rule.replacement hpath (hrules rule (by simp))
            have huri : uri = re.replace path rule.replacement := by
              unfold Rewrite.outcome at h
              cases hflag : rule.flag <;> simp only [hflag] at h <;> grind
            rw [huri]
            exact hclean
          · exact hrest h

theorem rewriteStage_framed
    {req : ParsedRequest}
    (hlib : CleanRegex ctx.lib)
    (hrules : ∀ rule ∈ rules, (10 : UInt8) ∉ rule.replacement)
    (hreq : CleanRequest req)
    (h : rewriteStage ctx env st rules req = .error o) :
    Framed o.result.bytes := by
  unfold rewriteStage at h
  split at h
  · rename_i uri status happly
    cases h
    exact redirectResult_framed _ _
      (applyRewrites_clean hlib hrules hreq.path (Or.inr ⟨_, happly⟩))
  · cases h
  · cases h

/-- A request that goes on under a new path is still clean. -/
theorem rewriteStage_clean
    {req rewritten : ParsedRequest}
    (hlib : CleanRegex ctx.lib)
    (hrules : ∀ rule ∈ rules, (10 : UInt8) ∉ rule.replacement)
    (hreq : CleanRequest req)
    (h : rewriteStage ctx env st rules req = .ok rewritten) :
    CleanRequest rewritten := by
  obtain ⟨heq, hpath⟩ := rewriteStage_ok h
  have hclean : (10 : UInt8) ∉ rewritten.path := by
    rcases hpath with ⟨_, hsame⟩ | ⟨stop, happly⟩
    · rw [hsame]
      exact hreq.path
    · exact applyRewrites_clean hlib hrules hreq.path (Or.inl ⟨stop, happly⟩)
  rw [heq]
  exact ⟨hreq.method, hreq.host, hclean⟩

end Redirects

section Gates

theorem unauthorizedResponse_framed
    {realm : Bytes}
    (h : (10 : UInt8) ∉ realm) :
    Framed (Auth.unauthorizedResponse realm) := by
  have hrealm : (10 : UInt8) ∉ replace [34] (ascii "\\\"") realm := by
    intro hmem
    rcases mem_replace hmem with hmem | hmem
    · exact absurd hmem (by decide)
    · exact h hmem
  have hline : OtherLine (ascii "WWW-Authenticate: " ++
      (ascii "Basic realm=\"" ++ replace [34] (ascii "\\\"") realm ++ ascii "\"")) := by
    have hname : (10 : UInt8) ∉ ascii "WWW-Authenticate: " := by decide
    have hbasic : (10 : UInt8) ∉ ascii "Basic realm=\"" := by decide
    have hquote : (10 : UInt8) ∉ ascii "\"" := by decide
    refine ⟨by simp [ascii], by simp [hname, hbasic, hquote, hrealm], ?_⟩
    have hsplit : ∀ v : Bytes, ascii "WWW-Authenticate: " ++ v =
        ascii "WWW-Authenticate" ++ 58 :: (32 :: v) := by
      intro v
      simp [ascii]
    rw [hsplit, valueOf_field _ (by decide), if_neg (by decide)]
  exact framed_around [_]
    [ascii "Content-Type: text/plain", ascii "Connection: keep-alive"]
    (by decide) (by
      intro l hl
      simp only [List.cons_append, List.nil_append, List.mem_cons, List.not_mem_nil,
        or_false] at hl
      rcases hl with rfl | rfl | rfl
      · exact hline
      · decide
      · decide) _

variable {server : ServerBlock} {location : Option LocationBlock} {req : ParsedRequest}

theorem authStage_framed
    (hserver : CleanServer server) (hlocation : ∀ loc ∈ location, CleanLocation loc)
    (h : authStage env st server location req = .error o) :
    Framed o.result.bytes := by
  unfold authStage at h
  split at h
  · rename_i cfg hcfg
    split at h
    · cases h
    · cases h
      apply unauthorizedResponse_framed
      rcases Option.or_eq_some_iff.mp hcfg with hloc | ⟨_, hsrv⟩
      · obtain ⟨loc, hmem, hauth⟩ := Option.bind_eq_some_iff.mp hloc
        exact (hlocation loc hmem).realm cfg hauth
      · exact hserver.realm cfg hsrv
  · cases h

theorem limitStage_exit
    (h : limitStage env st server location req = .error o) :
    o.exit = .limited := by
  unfold limitStage at h
  split at h
  · split at h
    · cases h
      rfl
    · cases h
  · cases h

theorem bodyStage_exit
    (h : bodyStage ctx env st server location req = .error o) :
    o.exit = .tooLarge := by
  unfold bodyStage at h
  split at h
  · cases h
    rfl
  · cases h

theorem handleReturn_framed
    {rd : ReturnDirective} (keepAlive : Bool)
    (h : CleanReturn rd) :
    Framed (handleReturn rd keepAlive).bytes := by
  have htype : Other (ascii "Content-Type", ascii "text/plain") := by decide
  unfold handleReturn
  cases hbody : rd.body with
  | empty =>
      have hnone : ∀ h ∈ ([] : Headers), Other h := by simp
      exact framed_formatResponse ((declares_length _).append hnone) _ _
  | text t =>
      refine framed_formatResponse ((declares_length _).append ?_) _ _
      intro k hk
      by_cases ht : t = []
      · simp [ht] at hk
      · have hk : k = (ascii "Content-Type", ascii "text/plain") := by simpa [ht] using hk
        rw [hk]
        exact htype
  | url u =>
      have hlocation : Other (ascii "Location", u) := other_of_name (by decide) (h u hbody)
      exact framed_formatResponse ((declares_length _).append (by simpa using hlocation)) _ _

theorem answerReturn_framed
    {α : Type} {rd : ReturnDirective}
    (hrd : CleanReturn rd)
    (h : (answerReturn env st rd req : Stage α) = .error o) :
    Framed o.result.bytes := by
  cases h
  exact handleReturn_framed _ hrd

theorem returnStage_framed
    (hserver : CleanServer server) (hlocation : ∀ loc ∈ location, CleanLocation loc)
    (h : returnStage env st server location req = .error o) :
    Framed o.result.bytes := by
  unfold returnStage at h
  split at h
  · rename_i rd hrd
    refine answerReturn_framed ?_ h
    rcases Option.or_eq_some_iff.mp hrd with hloc | ⟨_, hsrv⟩
    · obtain ⟨loc, hmem, hreturn⟩ := Option.bind_eq_some_iff.mp hloc
      exact (hlocation loc hmem).returnDirective rd hreturn
    · exact hserver.returnDirective rd hsrv
  · cases h

end Gates

section Handlers

variable {server : ServerBlock} {location : Option LocationBlock} {req : ParsedRequest}
variable {resp : StaticResponse}

/-- A proxy that contacts nobody answers with its own page. -/
theorem proxyRequest_local
    {pc : ProxyConfig} {method path locPrefix : Bytes} {hdrs : Headers} {body : Bytes}
    {ex : Exchange}
    (h : (proxyRequest pc method path locPrefix hdrs body ex).2 = []) :
    ∃ reason, (proxyRequest pc method path locPrefix hdrs body ex).1 = badGateway reason := by
  have hcontact : (getConnection pc ex).2 ≠ [] := by
    unfold getConnection
    split <;> simp
  cases hblock : ssrfBlock pc with
  | some reason => exact ⟨reason, by simp [proxyRequest, doProxy, hblock, orBadGateway]⟩
  | none =>
      exfalso
      apply hcontact
      cases hconn : getConnection pc ex with
      | mk result events =>
          simp only [proxyRequest, doProxy, hblock, hconn] at h
          cases result with
          | error e => simpa [orBadGateway] using h
          | ok u =>
              simp only at h
              cases hsent : sendAndReceive (buildProxyRequest pc method
                  (buildUpstreamPath pc path locPrefix) hdrs body) ex with
              | mk answer sent =>
                  cases answer with
                  | error e =>
                      simp only [hsent, orBadGateway, List.append_eq_nil_iff] at h
                      exact h.1
                  | ok r =>
                      simp only [hsent, orBadGateway, List.append_eq_nil_iff] at h
                      exact h.1.1

/-- What a handler answers without a backend declares its body, but for a 304. -/
theorem handlerStage_local
    {effects : List Effect}
    (hreq : CleanRequest req)
    (hlocal : ∀ e ∈ effects, e.isBackend = false)
    (h : handlerStage env st server location req = .ok (resp, effects)) :
    Declares resp.headers resp.body.length ∨ resp.status = 304 := by
  have hnet : ∀ events : List NetEvent,
      (∀ e ∈ events.map Effect.net, e.isBackend = false) → events = [] := by
    intro events hevents
    cases events with
    | nil => rfl
    | cons e events => exact absurd (hevents (.net e) (by simp)) (by simp [Effect.isBackend])
  have hstatic : Declares
      (staticHandler env.fs server location req.path req.method req.headers).headers
      (staticHandler env.fs server location req.path req.method req.headers).body.length ∨
      (staticHandler env.fs server location req.path req.method req.headers).status = 304 :=
    (staticHandler_declares _ _ _ _ _ hreq.method).imp_right And.left
  cases handlerStage_ok_iff.mp h with
  | static => exact hstatic
  | proxy =>
      obtain ⟨reason, hreason⟩ := proxyRequest_local (hnet _ hlocal)
      rw [hreason]
      exact Or.inl (badGateway_declares reason)
  | @upstreamGroup group =>
      unfold groupHandler at hlocal ⊢
      split at hlocal
      · exact absurd (hlocal (.connectGroup group) (by simp)) (by simp [Effect.isBackend])
      · exact absurd (hlocal (.connectGroup group) (by simp)) (by simp [Effect.isBackend])
      · exact Or.inl (notImplemented_declares _)
  | fastCgi =>
      exact absurd (hlocal _ (List.mem_singleton_self _)) (by simp [Effect.isBackend])

/-- A handler that ends the dispatch without a backend has a `return` directive. -/
theorem handlerStage_error_local
    (hlocation : ∀ loc ∈ location, CleanLocation loc)
    (hlocal : ∀ e ∈ o.effects, e.isBackend = false)
    (h : handlerStage env st server location req = .error o) :
    Framed o.result.bytes := by
  unfold handlerStage at h
  split at h
  · rename_i rd hhandler
    obtain ⟨loc, hloc, hrd⟩ := Option.map_eq_some_iff.mp hhandler
    exact answerReturn_framed ((hlocation loc hloc).handler rd hrd) h
  · cases h
  · cases h
  · exfalso
    unfold proxyHandler at h
    split at h
    · rename_i pc _ _
      have hconnect := WebSocket.upgradeToWebsocket_connects (upstreamAddr pc) req.method
        req.path req.headers env.exchange
      unfold upgradeHandler at h
      split at h
      · rename_i bytes events hup
        cases h
        rw [hup] at hconnect
        exact absurd (hlocal (.net (.connect (upstreamAddr pc))) (by simp [hconnect]))
          (by simp [Effect.isBackend])
      · rename_i reason events hup
        cases h
        rw [hup] at hconnect
        exact absurd (hlocal (.net (.connect (upstreamAddr pc))) (by simp [hconnect]))
          (by simp [Effect.isBackend])
    · cases h
  · cases h
  · cases h

/-- Every header the configuration adds is another one than Content-Length. -/
theorem addedHeaders_other
    (hserver : CleanServer server) (hlocation : ∀ loc ∈ location, CleanLocation loc) :
    ∀ h ∈ addedHeaders env server location, Other h := by
  intro h hh
  rw [addedHeaders_eq] at hh
  rcases List.mem_append.mp hh with hh | hh
  · rcases List.mem_append.mp hh with hh | hh
    · exact hserver.addHeaders h hh
    · cases location with
      | none => cases hh
      | some loc => exact (hlocation loc rfl).addHeaders h hh
  · unfold hstsHeaders at hh
    split at hh
    · split at hh
      · rw [List.mem_singleton.mp hh]
        exact other_of_name (by decide) (not_lf_hstsValue server _)
      · cases hh
    · cases hh

/-- Compressing the body keeps the declared length true. -/
theorem encodedHeaders_declares
    (h : Declares resp.headers resp.body.length) :
    Declares
      (encodedHeaders resp.headers (encodeBody ctx env location req resp).2
        (encodeBody ctx env location req resp).1.length)
      (encodeBody ctx env location req resp).1.length := by
  have hcoding : ∀ coding ∈ [ascii "gzip", ascii "br"],
      Other (ascii "Content-Encoding", coding) := by
    decide
  unfold encodeBody
  simp only
  split
  · exact (h.append (by simpa using hcoding _ (by simp))).replaceContentLength _
  · rename_i body hgzip
    have hbody := Compress.eq_of_compressIf hgzip
    split
    · exact (h.append (by simpa using hcoding _ (by simp))).replaceContentLength _
    · rename_i body' hbrotli
      rw [Compress.eq_of_compressIf hbrotli, hbody]
      exact h

theorem finish_framed
    {effects : List Effect}
    (hserver : CleanServer server) (hlocation : ∀ loc ∈ location, CleanLocation loc)
    (h : Declares resp.headers resp.body.length) :
    Framed (finish ctx env st server location req resp effects).result.bytes := by
  refine framed_formatResponse ?_ _ _
  exact (encodedHeaders_declares h).append (addedHeaders_other hserver hlocation)

end Handlers

section Example

/-- A request for a file, with these further header lines. -/
def fileRequest (fields : List String) : Bytes :=
  requestOf (["GET /a.txt HTTP/1.1", "Host: a"] ++ fields)

/-- The answer to a request is given without a backend and is not framed. -/
def LocalUnframed (server : ServerBlock) (st : ServerState) (raw : Bytes) : Prop :=
  let o := dispatch (contextOf server) (quietEnv exampleFiles) st raw
  (∀ e ∈ o.effects, e.isBackend = false) ∧ ¬ Framed o.result.bytes

instance (server : ServerBlock) (st : ServerState) (raw : Bytes) :
    Decidable (LocalUnframed server st raw) := by
  unfold LocalUnframed
  infer_instance

end Example

end Handler
end RunNginx
