import RunNginx.Server.Dispatch

/-!
# What decides how a request is answered

`Ends` has one rule for every exit of the dispatcher: the conditions under which it is
taken, in terms of the request, the configuration and what the server finds, and the
outcome.  `dispatch_eq_iff` says that the rules are right and leave no request out.
-/

namespace RunNginx
namespace Handler

open ByteString EarlyReturn Request Simd StaticFiles

section Conditions

/-- The request that the bytes hold, or what is wrong with them. -/
def parseRequest (raw : Bytes) : Except Bytes ParsedRequest :=
  match parseRequestLine raw with
  | .error e => .error e
  | .ok (line, len) =>
      if !isUriSafe line.uri then .error (ascii "forbidden URI sequence")
      else match readBehindLine raw line len with
      | .error e => .error e
      | .ok received => .ok (ParsedRequest.ofReceived received)

variable (ctx : Context) (env : Env) (st : ServerState)

/-- Requests that are looked up in the cache. -/
def asksCache (req : ParsedRequest) : Bool :=
  Cache.isCachedMethod req.method && !Cache.requestBypassesCache req.headers

/-- The answer the cache holds for a request. -/
def cachedAnswer (req : ParsedRequest) : Option Bytes :=
  if asksCache req then
    (st.cache.get (Cache.ResponseCache.cacheKey req.host req.method req.fullUri) env.cacheNow).1
  else none

/-- The state after the lookup, which may drop an expired entry. -/
def afterLookup (req : ParsedRequest) : ServerState :=
  if asksCache req then
    { st with
      cache := (st.cache.get (Cache.ResponseCache.cacheKey req.host req.method req.fullUri)
        env.cacheNow).2 }
  else st

/-- The key authorization a request asks for. -/
def challengeAnswer (req : ParsedRequest) : Option Bytes :=
  (stripPrefix (ascii "/.well-known/acme-challenge/") req.path).bind env.challenge

/-- The answer of the user API. -/
def userApiAnswer (req : ParsedRequest) : Option (Bytes × MultiUser.UserRegistry) :=
  MultiUser.handleUserApi env.users st.users req.path req.method req.body (bearerToken req)
    (!ctx.http.apiKey.isEmpty && bearerToken req == ctx.http.apiKey)

/-- The answer of the management API. -/
def apiAnswer (req : ParsedRequest) : Option (Bytes × Api.SessionStore) :=
  Api.handleApi env.api (apiSettings ctx) st.sessions req.path req.query req.method req.headers
    req.body

/-- Requests that are sent to the encrypted port. -/
def redirectsToTls (server : ServerBlock) : Bool :=
  server.sslRedirect && !env.isTls

/-- Where such a request is sent. -/
def tlsLocation (req : ParsedRequest) : Bytes :=
  ascii "https://" ++ (if req.host = [] then ascii "localhost" else req.host) ++ req.path

/-- The path after a list of rewrite rules, unless one of them redirects. -/
def rewrittenPath (lib : Libraries) (rules : List RewriteRule) (path : Bytes) : Option Bytes :=
  match Rewrite.applyRewrites lib rules path with
  | .redirect _ _ => none
  | .rewritten uri _ => some uri
  | .noMatch => some path

/-- The rewrite rules of a location. -/
def rulesOf (location : Option LocationBlock) : List RewriteRule :=
  (location.map LocationBlock.rewrites).getD []

/-- A rate limit turns the request away. -/
def overLimit (server : ServerBlock) (location : Option LocationBlock) : Bool :=
  ((location.bind LocationBlock.limitReq).or server.limitReq).any fun limit =>
    env.limitAllows limit.zone limit.burst == some false

/-- The `return` directive of a location, or of its server. -/
def returnFor (server : ServerBlock) (location : Option LocationBlock) :
    Option ReturnDirective :=
  (location.bind LocationBlock.returnDirective).or server.returnDirective

/-- The request is read: its client is not blocked, and its bytes are well formed. -/
structure Received (raw : Bytes) (req : ParsedRequest) : Prop where
  free : env.scanBlocked = false
  parses : parseRequest raw = .ok req

/-- The cache has no answer to the request. -/
structure Missed (raw : Bytes) (req : ParsedRequest) : Prop extends Received env raw req where
  uncached : cachedAnswer env st req = none

/-- Nor is it a request for a challenge token or to an API. -/
structure Proceeds (raw : Bytes) (req : ParsedRequest) : Prop extends Missed env st raw req where
  noChallenge : challengeAnswer env req = none
  noUserApi : userApiAnswer ctx env st req = none
  noApi : apiAnswer ctx env st req = none

/-- The request gets past the rules of its server, which leave it this path. -/
structure Enters (raw : Bytes) (req : ParsedRequest) (first : Bytes) : Prop
    extends Proceeds ctx env st raw req where
  noTls : redirectsToTls env (serverFor ctx req) = false
  rewritten : rewrittenPath ctx.lib (serverFor ctx req).rewrites req.path = some first

/-- The request is routed, and its location sees it as `routed`. -/
structure Routes (raw : Bytes) (req : ParsedRequest) (server : ServerBlock)
    (location : Option LocationBlock) (routed : ParsedRequest) : Prop where
  server_eq : server = serverFor ctx req
  enters : ∃ first path, Enters ctx env st raw req first ∧
    location = Router.selectLocation server first ∧
    rewrittenPath ctx.lib (rulesOf location) first = some path ∧
    routed = { req with path := path }

/-- The routed request has the credentials it needs, where it needs any. -/
structure Authorized (raw : Bytes) (req : ParsedRequest) (server : ServerBlock)
    (location : Option LocationBlock) (routed : ParsedRequest) : Prop
    extends Routes ctx env st raw req server location routed where
  authorized : ∀ cfg ∈ authConfig server location, isAuthorized env cfg routed = true

/-- Nor is it turned away for its rate. -/
structure WithinRate (raw : Bytes) (req : ParsedRequest) (server : ServerBlock)
    (location : Option LocationBlock) (routed : ParsedRequest) : Prop
    extends Authorized ctx env st raw req server location routed where
  inRate : overLimit env server location = false

/-- Nor for its size. -/
structure Fits (raw : Bytes) (req : ParsedRequest) (server : ServerBlock)
    (location : Option LocationBlock) (routed : ParsedRequest) : Prop
    extends WithinRate ctx env st raw req server location routed where
  fits : routed.contentLen ≤ maxBody ctx server location

/-- The request gets to the handler of its location. -/
structure Admitted (raw : Bytes) (req : ParsedRequest) (server : ServerBlock)
    (location : Option LocationBlock) (routed : ParsedRequest) : Prop
    extends Fits ctx env st raw req server location routed where
  noReturn : returnFor server location = none

end Conditions

section Answers

/-- The answer to a client that is blocked. -/
def blockedResult : HandlerResult :=
  let body := ascii "Too Many Requests"
  { bytes := Response.formatResponse 429
      [(ascii "Content-Length", Decimal.render body.length),
        (ascii "Retry-After", ascii "3600"),
        (ascii "Content-Type", ascii "text/plain")] false body
    keepAlive := false
    status := 429
    tunnel := none }

def challengeResult (body : Bytes) : HandlerResult :=
  { bytes := Response.formatResponse 200
      [(ascii "Content-Type", ascii "application/octet-stream"),
        (ascii "Content-Length", Decimal.render body.length)] false body
    keepAlive := false
    status := 200
    tunnel := none }

/-- The answer of an API, whose status is read off the bytes. -/
def apiResult (bytes : Bytes) : HandlerResult :=
  ⟨bytes, false, extractStatusFromResponse bytes, none⟩

def unauthorizedResult (realm : Bytes) (keepAlive : Bool) : HandlerResult :=
  ⟨Auth.unauthorizedResponse realm, keepAlive, 401, none⟩

def limitedResult : HandlerResult :=
  { bytes := Response.formatResponse 429
      [(ascii "Content-Type", ascii "text/plain"),
        (ascii "Content-Length", ascii "19"),
        (ascii "Retry-After", ascii "1")] false (ascii "429 Too Many Requests")
    keepAlive := false
    status := 429
    tunnel := none }

def tooLargeResult (keepAlive : Bool) : HandlerResult :=
  { bytes := Response.formatResponse 413
      [(ascii "Content-Type", ascii "text/plain"), (ascii "Content-Length", ascii "22")]
      keepAlive (ascii "413 Content Too Large")
    keepAlive := false
    status := 413
    tunnel := none }

def upgradeFailedResult : HandlerResult :=
  { bytes := Response.formatResponse 502 [(ascii "Content-Length", ascii "0")] false []
    keepAlive := false
    status := 502
    tunnel := none }

/-- An answer that is logged under the protocol version of its request. -/
def logged (env : Env) (st : ServerState) (exit : Exit) (req : ParsedRequest)
    (r : HandlerResult) : Outcome :=
  ⟨exit, r, st, [req.logRequest env r]⟩

end Answers

section Rules

variable (ctx : Context) (env : Env) (st : ServerState) (raw : Bytes)

/-- How a request is answered, by what decides it. -/
inductive Ends : Outcome → Prop
  | blocked
      (h : env.scanBlocked = true) :
      Ends ⟨.blocked, blockedResult, st, []⟩
  | badRequest {reason : Bytes}
      (hfree : env.scanBlocked = false) (h : parseRequest raw = .error reason) :
      Ends ⟨.badRequest, .badRequest reason false, st, []⟩
  | cacheHit {req : ParsedRequest} {bytes : Bytes}
      (hreq : Received env raw req) (h : cachedAnswer env st req = some bytes) :
      Ends ⟨.cacheHit, ⟨bytes, true, 200, none⟩, afterLookup env st req,
        [.stats 200 bytes.length raw.length]⟩
  | challenge {req : ParsedRequest} {body : Bytes}
      (hreq : Missed env st raw req) (h : challengeAnswer env req = some body) :
      Ends ⟨.challenge, challengeResult body, afterLookup env st req, []⟩
  | userApi {req : ParsedRequest} {bytes : Bytes} {users : MultiUser.UserRegistry}
      (hreq : Missed env st raw req) (hchallenge : challengeAnswer env req = none)
      (h : userApiAnswer ctx env st req = some (bytes, users)) :
      Ends ⟨.userApi, apiResult bytes, { afterLookup env st req with users := users },
        [req.logEntry env (ascii "HTTP/1.1") (apiResult bytes).status bytes.length]⟩
  | api {req : ParsedRequest} {bytes : Bytes} {sessions : Api.SessionStore}
      (hreq : Missed env st raw req) (hchallenge : challengeAnswer env req = none)
      (huser : userApiAnswer ctx env st req = none)
      (h : apiAnswer ctx env st req = some (bytes, sessions)) :
      Ends (logged env { afterLookup env st req with sessions := sessions } .api req
        (apiResult bytes))
  | sslRedirect {req : ParsedRequest}
      (hreq : Proceeds ctx env st raw req)
      (h : redirectsToTls env (serverFor ctx req) = true) :
      Ends (logged env (afterLookup env st req) .sslRedirect req
        (redirectResult 301 (tlsLocation req) req.keepAlive))
  | serverRedirect {req : ParsedRequest} {uri : Bytes} {status : Nat}
      (hreq : Proceeds ctx env st raw req)
      (hplain : redirectsToTls env (serverFor ctx req) = false)
      (h : Rewrite.applyRewrites ctx.lib (serverFor ctx req).rewrites req.path =
        .redirect uri status) :
      Ends (logged env (afterLookup env st req) .rewriteRedirect req
        (redirectResult status uri req.keepAlive))
  | locationRedirect {req : ParsedRequest} {first uri : Bytes} {status : Nat}
      (hreq : Enters ctx env st raw req first)
      (h : Rewrite.applyRewrites ctx.lib
        (rulesOf (Router.selectLocation (serverFor ctx req) first)) first =
          .redirect uri status) :
      Ends (logged env (afterLookup env st req) .rewriteRedirect { req with path := first }
        (redirectResult status uri req.keepAlive))
  | unauthorized {req routed : ParsedRequest} {server : ServerBlock}
      {location : Option LocationBlock} {cfg : AuthBasicConfig}
      (hreq : Routes ctx env st raw req server location routed)
      (hcfg : authConfig server location = some cfg)
      (h : isAuthorized env cfg routed = false) :
      Ends ⟨.unauthorized, unauthorizedResult cfg.realm routed.keepAlive,
        afterLookup env st req,
        [routed.logEntry env (ascii "HTTP/1.1") 401
          (unauthorizedResult cfg.realm routed.keepAlive).bytes.length]⟩
  | limited {req routed : ParsedRequest} {server : ServerBlock}
      {location : Option LocationBlock}
      (hreq : Authorized ctx env st raw req server location routed)
      (h : overLimit env server location = true) :
      Ends (logged env (afterLookup env st req) .limited routed limitedResult)
  | tooLarge {req routed : ParsedRequest} {server : ServerBlock}
      {location : Option LocationBlock}
      (hreq : WithinRate ctx env st raw req server location routed)
      (h : maxBody ctx server location < routed.contentLen) :
      Ends (logged env (afterLookup env st req) .tooLarge routed
        (tooLargeResult routed.keepAlive))
  | returned {req routed : ParsedRequest} {server : ServerBlock}
      {location : Option LocationBlock} {rd : ReturnDirective}
      (hreq : Fits ctx env st raw req server location routed)
      (h : returnFor server location = some rd) :
      Ends (logged env (afterLookup env st req) .returned routed
        (handleReturn rd routed.keepAlive))
  | handlerReturned {req routed : ParsedRequest} {server : ServerBlock}
      {location : Option LocationBlock} {rd : ReturnDirective}
      (hreq : Admitted ctx env st raw req server location routed)
      (h : location.map LocationBlock.handler = some (.return rd)) :
      Ends (logged env (afterLookup env st req) .returned routed
        (handleReturn rd routed.keepAlive))
  | upgraded {req routed : ParsedRequest} {server : ServerBlock}
      {location : Option LocationBlock} {pc : ProxyConfig} {bytes : Bytes}
      {events : List Proxy.NetEvent}
      (hreq : Admitted ctx env st raw req server location routed)
      (hproxy : location.map LocationBlock.handler = some (.proxy pc))
      (hws : isWsUpgrade routed.headers = true)
      (h : WebSocket.upgradeToWebsocket (Proxy.upstreamAddr pc) routed.method routed.path
        routed.headers env.exchange = (.ok bytes, events)) :
      Ends ⟨.upgraded, ⟨bytes, false, 101, some (Proxy.upstreamAddr pc)⟩,
        afterLookup env st req,
        events.map .net ++ [routed.logEntry env (ascii "HTTP/1.1") 101 0]⟩
  | upgradeFailed {req routed : ParsedRequest} {server : ServerBlock}
      {location : Option LocationBlock} {pc : ProxyConfig} {reason : Bytes}
      {events : List Proxy.NetEvent}
      (hreq : Admitted ctx env st raw req server location routed)
      (hproxy : location.map LocationBlock.handler = some (.proxy pc))
      (hws : isWsUpgrade routed.headers = true)
      (h : WebSocket.upgradeToWebsocket (Proxy.upstreamAddr pc) routed.method routed.path
        routed.headers env.exchange = (.error reason, events)) :
      Ends ⟨.upgradeFailed, upgradeFailedResult, afterLookup env st req, events.map .net⟩
  | finished {req routed : ParsedRequest} {server : ServerBlock}
      {location : Option LocationBlock} {resp : StaticResponse} {effects : List Effect}
      (hreq : Admitted ctx env st raw req server location routed)
      (h : handlerStage env (afterLookup env st req) server location routed =
        .ok (resp, effects)) :
      Ends (finish ctx env (afterLookup env st req) server location routed resp effects)

end Rules

variable {ctx : Context} {env : Env} {st : ServerState} {raw : Bytes} {o : Outcome}

section Stages

variable {req : ParsedRequest} {server : ServerBlock} {location : Option LocationBlock}

theorem scanStage_eq :
    scanStage env st =
      if env.scanBlocked then .error ⟨.blocked, blockedResult, st, []⟩ else .ok () :=
  rfl

theorem parseStage_eq :
    parseStage st raw =
      match parseRequest raw with
      | .error reason => .error ⟨.badRequest, .badRequest reason false, st, []⟩
      | .ok req => .ok req := by
  unfold parseStage parseRequest
  cases parseRequestLine raw with
  | error e => rfl
  | ok parsed =>
      obtain ⟨line, len⟩ := parsed
      dsimp only
      cases isUriSafe line.uri with
      | false => rfl
      | true =>
          cases readBehindLine raw line len with
          | error e => rfl
          | ok received => rfl

theorem cacheStage_eq
    (req : ParsedRequest) (rawLen : Nat) :
    cacheStage env st req rawLen =
      match cachedAnswer env st req with
      | some bytes =>
          .error ⟨.cacheHit, ⟨bytes, true, 200, none⟩, afterLookup env st req,
            [.stats 200 bytes.length rawLen]⟩
      | none => .ok (afterLookup env st req) := by
  unfold cacheStage cachedAnswer afterLookup
  change (if asksCache req = true then _ else _) = _
  cases asksCache req with
  | false => rfl
  | true =>
      simp only [↓reduceIte]
      generalize st.cache.get _ _ = r
      obtain ⟨answer, cache⟩ := r
      cases answer with
      | none => rfl
      | some bytes => rfl

theorem challengeStage_eq :
    challengeStage env st req =
      match challengeAnswer env req with
      | some body => .error ⟨.challenge, challengeResult body, st, []⟩
      | none => .ok () :=
  rfl

/-- A lookup in the cache changes nothing but the cache. -/
theorem afterLookup_eq
    (env : Env) (st : ServerState) (req : ParsedRequest) :
    ∃ cache, afterLookup env st req = { st with cache := cache } := by
  unfold afterLookup
  split
  · exact ⟨_, rfl⟩
  · exact ⟨st.cache, rfl⟩

theorem userApiAnswer_afterLookup :
    userApiAnswer ctx env (afterLookup env st req) req = userApiAnswer ctx env st req := by
  obtain ⟨cache, h⟩ := afterLookup_eq env st req
  rw [h]
  rfl

theorem apiAnswer_afterLookup :
    apiAnswer ctx env (afterLookup env st req) req = apiAnswer ctx env st req := by
  obtain ⟨cache, h⟩ := afterLookup_eq env st req
  rw [h]
  rfl

theorem userApiStage_eq :
    userApiStage ctx env st req =
      match userApiAnswer ctx env st req with
      | some (bytes, users) =>
          .error ⟨.userApi, apiResult bytes, { st with users := users },
            [req.logEntry env (ascii "HTTP/1.1") (apiResult bytes).status bytes.length]⟩
      | none => .ok () :=
  rfl

theorem apiStage_eq :
    apiStage ctx env st req =
      match apiAnswer ctx env st req with
      | some (bytes, sessions) =>
          .error (logged env { st with sessions := sessions } .api req (apiResult bytes))
      | none => .ok () :=
  rfl

theorem sslStage_eq :
    sslStage env st server req =
      if redirectsToTls env server then
        .error (logged env st .sslRedirect req
          (redirectResult 301 (tlsLocation req) req.keepAlive))
      else .ok () :=
  rfl

theorem limitStage_eq :
    limitStage env st server location req =
      if overLimit env server location then .error (logged env st .limited req limitedResult)
      else .ok () := by
  unfold limitStage overLimit
  cases (location.bind LocationBlock.limitReq).or server.limitReq with
  | none => rfl
  | some limit =>
      rw [Option.any_some]
      cases hverdict : env.limitAllows limit.zone limit.burst with
      | none =>
          simp only [hverdict]
          rfl
      | some allowed =>
          simp only [hverdict]
          cases allowed with
          | true => rfl
          | false => rfl

theorem bodyStage_eq :
    bodyStage ctx env st server location req =
      if maxBody ctx server location < req.contentLen then
        .error (logged env st .tooLarge req (tooLargeResult req.keepAlive))
      else .ok () :=
  rfl

theorem returnStage_eq :
    returnStage env st server location req =
      match returnFor server location with
      | some rd => .error (logged env st .returned req (handleReturn rd req.keepAlive))
      | none => .ok () :=
  rfl

theorem rewriteStage_ok_iff
    {rules : List RewriteRule} {rewritten : ParsedRequest} :
    rewriteStage ctx env st rules req = .ok rewritten ↔
      ∃ path, rewrittenPath ctx.lib rules req.path = some path ∧
        rewritten = { req with path := path } := by
  unfold rewriteStage rewrittenPath
  cases Rewrite.applyRewrites ctx.lib rules req.path with
  | redirect uri status =>
      refine iff_of_false nofun ?_
      rintro ⟨path, h, -⟩
      cases h
  | rewritten uri stop =>
      constructor
      · intro h
        exact ⟨uri, rfl, (Except.ok.inj h).symm⟩
      · rintro ⟨path, h, rfl⟩
        rw [Option.some.inj h]
  | noMatch =>
      constructor
      · intro h
        exact ⟨req.path, rfl, (Except.ok.inj h).symm⟩
      · rintro ⟨path, h, rfl⟩
        rw [← Option.some.inj h]

theorem rewriteStage_error_iff
    {rules : List RewriteRule} :
    rewriteStage ctx env st rules req = .error o ↔
      ∃ uri status, Rewrite.applyRewrites ctx.lib rules req.path = .redirect uri status ∧
        o = logged env st .rewriteRedirect req (redirectResult status uri req.keepAlive) := by
  unfold rewriteStage
  cases Rewrite.applyRewrites ctx.lib rules req.path with
  | redirect uri status =>
      constructor
      · intro h
        exact ⟨uri, status, rfl, (Except.error.inj h).symm⟩
      · rintro ⟨uri', status', h, rfl⟩
        cases h
        rfl
  | rewritten uri stop => simp
  | noMatch => simp

theorem authStage_ok_iff :
    authStage env st server location req = .ok () ↔
      ∀ cfg ∈ authConfig server location, isAuthorized env cfg req = true := by
  unfold authStage
  cases authConfig server location with
  | none => exact iff_of_true rfl nofun
  | some cfg =>
      cases hauth : isAuthorized env cfg req with
      | true => simp [hauth]
      | false => simp [hauth, answer]

theorem authStage_error_iff :
    authStage env st server location req = .error o ↔
      ∃ cfg, authConfig server location = some cfg ∧ isAuthorized env cfg req = false ∧
        o = ⟨.unauthorized, unauthorizedResult cfg.realm req.keepAlive, st,
          [req.logEntry env (ascii "HTTP/1.1") 401
            (unauthorizedResult cfg.realm req.keepAlive).bytes.length]⟩ := by
  unfold authStage
  cases authConfig server location with
  | none => simp
  | some cfg =>
      cases hauth : isAuthorized env cfg req with
      | true => simp [hauth]
      | false =>
          constructor
          · intro h
            simp only [hauth] at h
            exact ⟨cfg, rfl, hauth, (Except.error.inj h).symm⟩
          · rintro ⟨cfg', h, -, rfl⟩
            cases h
            simp only [hauth]
            rfl

end Stages

section Reached

variable {req routed : ParsedRequest} {first : Bytes}
variable {server : ServerBlock} {location : Option LocationBlock}

theorem Received.preRoute_eq
    (h : Received env raw req) :
    preRoute ctx env st raw = do
      let st' ← cacheStage env st req raw.length
      challengeStage env st' req
      userApiStage ctx env st' req
      apiStage ctx env st' req
      return (st', req) := by
  unfold preRoute
  rw [scanStage_eq, h.free, parseStage_eq, h.parses]
  rfl

theorem Missed.preRoute_eq
    (h : Missed env st raw req) :
    preRoute ctx env st raw = do
      challengeStage env (afterLookup env st req) req
      userApiStage ctx env (afterLookup env st req) req
      apiStage ctx env (afterLookup env st req) req
      return (afterLookup env st req, req) := by
  rw [h.toReceived.preRoute_eq, cacheStage_eq, h.uncached]
  rfl

theorem Proceeds.preRoute_eq
    (h : Proceeds ctx env st raw req) :
    preRoute ctx env st raw = .ok (afterLookup env st req, req) := by
  rw [h.toMissed.preRoute_eq, challengeStage_eq, h.noChallenge, userApiStage_eq,
    userApiAnswer_afterLookup, h.noUserApi, apiStage_eq, apiAnswer_afterLookup, h.noApi]
  rfl

theorem Enters.route_eq
    (h : Enters ctx env st raw req first) (st' : ServerState) :
    route ctx env st' req = do
      let routed ← rewriteStage ctx env st'
        (rulesOf (Router.selectLocation (serverFor ctx req) first)) { req with path := first }
      return (serverFor ctx req, Router.selectLocation (serverFor ctx req) first, routed) := by
  unfold route
  dsimp only
  rw [sslStage_eq, h.noTls, rewriteStage_ok_iff.mpr ⟨first, h.rewritten, rfl⟩]
  rfl

theorem Routes.route_eq
    (h : Routes ctx env st raw req server location routed) (st' : ServerState) :
    route ctx env st' req = .ok (server, location, routed) := by
  obtain ⟨first, path, henters, rfl, hpath, rfl⟩ := h.enters
  rw [h.server_eq] at hpath ⊢
  rw [henters.route_eq, rewriteStage_ok_iff.mpr ⟨path, hpath, rfl⟩]
  rfl

theorem Routes.proceeds
    (h : Routes ctx env st raw req server location routed) :
    Proceeds ctx env st raw req := by
  obtain ⟨_, _, henters, _⟩ := h.enters
  exact henters.toProceeds

theorem Authorized.gates_eq
    (h : Authorized ctx env st raw req server location routed) (st' : ServerState) :
    gates ctx env st' server location routed = (do
      limitStage env st' server location routed
      bodyStage ctx env st' server location routed
      returnStage env st' server location routed) := by
  unfold gates
  rw [authStage_ok_iff.mpr h.authorized]
  rfl

theorem WithinRate.gates_eq
    (h : WithinRate ctx env st raw req server location routed) (st' : ServerState) :
    gates ctx env st' server location routed = (do
      bodyStage ctx env st' server location routed
      returnStage env st' server location routed) := by
  rw [h.toAuthorized.gates_eq, limitStage_eq, h.inRate]
  rfl

theorem Fits.gates_eq
    (h : Fits ctx env st raw req server location routed) (st' : ServerState) :
    gates ctx env st' server location routed =
      returnStage env st' server location routed := by
  rw [h.toWithinRate.gates_eq, bodyStage_eq, if_neg (Nat.not_lt.mpr h.fits)]
  rfl

theorem Admitted.gates_eq
    (h : Admitted ctx env st raw req server location routed) (st' : ServerState) :
    gates ctx env st' server location routed = .ok () := by
  rw [h.toFits.gates_eq, returnStage_eq, h.noReturn]

theorem dispatch_of_preRoute
    (h : preRoute ctx env st raw = .error o) :
    dispatch ctx env st raw = o := by
  unfold dispatch stages
  rw [h]
  rfl

theorem Proceeds.dispatch_of_route
    (h : Proceeds ctx env st raw req)
    (hroute : route ctx env (afterLookup env st req) req = .error o) :
    dispatch ctx env st raw = o := by
  unfold dispatch stages
  rw [h.preRoute_eq]
  simp only [bind, Except.bind, hroute]

theorem Routes.dispatch_of_gates
    (h : Routes ctx env st raw req server location routed)
    (hgates : gates ctx env (afterLookup env st req) server location routed = .error o) :
    dispatch ctx env st raw = o := by
  unfold dispatch stages
  rw [h.proceeds.preRoute_eq]
  simp only [bind, Except.bind, h.route_eq, hgates]

/-- The dispatch of a request that is admitted is decided by its handler. -/
theorem Admitted.dispatch_eq
    (h : Admitted ctx env st raw req server location routed) :
    dispatch ctx env st raw =
      match handlerStage env (afterLookup env st req) server location routed with
      | .error o => o
      | .ok (resp, effects) =>
          finish ctx env (afterLookup env st req) server location routed resp effects := by
  unfold dispatch stages
  rw [h.proceeds.preRoute_eq]
  simp only [bind, Except.bind, h.toRoutes.route_eq, h.gates_eq]
  cases handlerStage env (afterLookup env st req) server location routed with
  | error o => rfl
  | ok r => rfl

end Reached

/-- The rules are right. -/
theorem Ends.dispatch_eq
    (h : Ends ctx env st raw o) :
    dispatch ctx env st raw = o := by
  cases h with
  | blocked h =>
      refine dispatch_of_preRoute ?_
      unfold preRoute
      rw [scanStage_eq, if_pos h]
      rfl
  | badRequest hfree h =>
      refine dispatch_of_preRoute ?_
      unfold preRoute
      rw [scanStage_eq, hfree, parseStage_eq, h]
      rfl
  | cacheHit hreq h =>
      refine dispatch_of_preRoute ?_
      rw [hreq.preRoute_eq, cacheStage_eq, h]
      rfl
  | challenge hreq h =>
      refine dispatch_of_preRoute ?_
      rw [hreq.preRoute_eq, challengeStage_eq, h]
      rfl
  | userApi hreq hchallenge h =>
      refine dispatch_of_preRoute ?_
      rw [hreq.preRoute_eq, challengeStage_eq, hchallenge, userApiStage_eq,
        userApiAnswer_afterLookup, h]
      rfl
  | api hreq hchallenge huser h =>
      refine dispatch_of_preRoute ?_
      rw [hreq.preRoute_eq, challengeStage_eq, hchallenge, userApiStage_eq,
        userApiAnswer_afterLookup, huser, apiStage_eq, apiAnswer_afterLookup, h]
      rfl
  | sslRedirect hreq h =>
      refine hreq.dispatch_of_route ?_
      unfold route
      dsimp only
      rw [sslStage_eq, if_pos h]
      rfl
  | serverRedirect hreq hplain h =>
      refine hreq.dispatch_of_route ?_
      unfold route
      dsimp only
      rw [sslStage_eq, hplain, rewriteStage_error_iff.mpr ⟨_, _, h, rfl⟩]
      rfl
  | locationRedirect hreq h =>
      refine hreq.toProceeds.dispatch_of_route ?_
      rw [hreq.route_eq, rewriteStage_error_iff.mpr ⟨_, _, h, rfl⟩]
      rfl
  | unauthorized hreq hcfg h =>
      refine hreq.dispatch_of_gates ?_
      unfold gates
      rw [authStage_error_iff.mpr ⟨_, hcfg, h, rfl⟩]
      rfl
  | limited hreq h =>
      refine hreq.toRoutes.dispatch_of_gates ?_
      rw [hreq.gates_eq, limitStage_eq, if_pos h]
      rfl
  | tooLarge hreq h =>
      refine hreq.toRoutes.dispatch_of_gates ?_
      rw [hreq.gates_eq, bodyStage_eq, if_pos h]
      rfl
  | returned hreq h =>
      refine hreq.toRoutes.dispatch_of_gates ?_
      rw [hreq.gates_eq, returnStage_eq, h]
  | handlerReturned hreq h =>
      rw [hreq.dispatch_eq]
      unfold handlerStage
      rw [h]
      rfl
  | upgraded hreq hproxy hws h =>
      rw [hreq.dispatch_eq]
      unfold handlerStage
      rw [hproxy]
      dsimp only
      unfold proxyHandler upgradeHandler
      rw [if_pos hws, h]
      rfl
  | upgradeFailed hreq hproxy hws h =>
      rw [hreq.dispatch_eq]
      unfold handlerStage
      rw [hproxy]
      dsimp only
      unfold proxyHandler upgradeHandler
      rw [if_pos hws, h]
      rfl
  | finished hreq h => rw [hreq.dispatch_eq, h]

section Complete

variable {req routed : ParsedRequest} {server : ServerBlock} {location : Option LocationBlock}

theorem exists_ends_or_proceeds
    (ctx : Context) (env : Env) (st : ServerState) (raw : Bytes) :
    (∃ o, Ends ctx env st raw o) ∨ ∃ req, Proceeds ctx env st raw req := by
  cases hfree : env.scanBlocked with
  | true => exact Or.inl ⟨_, .blocked hfree⟩
  | false =>
  cases hparses : parseRequest raw with
  | error reason => exact Or.inl ⟨_, .badRequest hfree hparses⟩
  | ok req =>
  have hreceived : Received env raw req := ⟨hfree, hparses⟩
  cases hcache : cachedAnswer env st req with
  | some bytes => exact Or.inl ⟨_, .cacheHit hreceived hcache⟩
  | none =>
  have hmissed : Missed env st raw req := ⟨hreceived, hcache⟩
  cases hchallenge : challengeAnswer env req with
  | some body => exact Or.inl ⟨_, .challenge hmissed hchallenge⟩
  | none =>
  cases huser : userApiAnswer ctx env st req with
  | some answer => exact Or.inl ⟨_, .userApi hmissed hchallenge huser⟩
  | none =>
  cases hapi : apiAnswer ctx env st req with
  | some answer => exact Or.inl ⟨_, .api hmissed hchallenge huser hapi⟩
  | none => exact Or.inr ⟨req, hmissed, hchallenge, huser, hapi⟩

theorem rewritten_or_redirected
    (lib : Libraries) (rules : List RewriteRule) (path : Bytes) :
    (∃ uri status, Rewrite.applyRewrites lib rules path = .redirect uri status) ∨
      ∃ uri, rewrittenPath lib rules path = some uri := by
  unfold rewrittenPath
  cases Rewrite.applyRewrites lib rules path with
  | redirect uri status => exact Or.inl ⟨uri, status, rfl⟩
  | rewritten uri stop => exact Or.inr ⟨uri, rfl⟩
  | noMatch => exact Or.inr ⟨path, rfl⟩

theorem Proceeds.ends_or_routes
    (h : Proceeds ctx env st raw req) :
    (∃ o, Ends ctx env st raw o) ∨
      ∃ server location routed, Routes ctx env st raw req server location routed := by
  cases htls : redirectsToTls env (serverFor ctx req) with
  | true => exact Or.inl ⟨_, .sslRedirect h htls⟩
  | false =>
  rcases rewritten_or_redirected ctx.lib (serverFor ctx req).rewrites req.path with
    ⟨uri, status, hredirect⟩ | ⟨first, hfirst⟩
  · exact Or.inl ⟨_, .serverRedirect h htls hredirect⟩
  have henters : Enters ctx env st raw req first := ⟨h, htls, hfirst⟩
  rcases rewritten_or_redirected ctx.lib
    (rulesOf (Router.selectLocation (serverFor ctx req) first)) first with
    ⟨uri, status, hredirect⟩ | ⟨path, hpath⟩
  · exact Or.inl ⟨_, .locationRedirect henters hredirect⟩
  · exact Or.inr ⟨_, _, _, rfl, first, path, henters, rfl, hpath, rfl⟩

theorem Routes.ends_or_admitted
    (h : Routes ctx env st raw req server location routed) :
    (∃ o, Ends ctx env st raw o) ∨ Admitted ctx env st raw req server location routed := by
  by_cases hauth : ∀ cfg ∈ authConfig server location, isAuthorized env cfg routed = true
  · have hauthorized : Authorized ctx env st raw req server location routed := ⟨h, hauth⟩
    cases hlimit : overLimit env server location with
    | true => exact Or.inl ⟨_, .limited hauthorized hlimit⟩
    | false =>
    have hrate : WithinRate ctx env st raw req server location routed := ⟨hauthorized, hlimit⟩
    rcases Nat.lt_or_ge (maxBody ctx server location) routed.contentLen with hlarge | hfits
    · exact Or.inl ⟨_, .tooLarge hrate hlarge⟩
    have hfit : Fits ctx env st raw req server location routed := ⟨hrate, hfits⟩
    cases hreturn : returnFor server location with
    | some rd => exact Or.inl ⟨_, .returned hfit hreturn⟩
    | none => exact Or.inr ⟨hfit, hreturn⟩
  · push Not at hauth
    obtain ⟨cfg, hcfg, hno⟩ := hauth
    exact Or.inl ⟨_, .unauthorized h hcfg (Bool.eq_false_iff.mpr hno)⟩

/-- Only a `return` directive and a WebSocket upgrade end a dispatch in the handler. -/
theorem handlerStage_ok
    (env : Env) (st' : ServerState)
    (hreturn : ∀ rd, location.map LocationBlock.handler ≠ some (.return rd))
    (hws : ∀ pc, location.map LocationBlock.handler = some (.proxy pc) →
      isWsUpgrade routed.headers = false) :
    ∃ resp effects, handlerStage env st' server location routed = .ok (resp, effects) := by
  cases hhandler : location.map LocationBlock.handler with
  | none => exact ⟨_, _, handlerStage_ok_iff.mpr (.static (Or.inl hhandler))⟩
  | some handler =>
  cases handler with
  | «return» rd => exact absurd hhandler (hreturn rd)
  | static => exact ⟨_, _, handlerStage_ok_iff.mpr (.static (Or.inr hhandler))⟩
  | proxy pc => exact ⟨_, _, handlerStage_ok_iff.mpr (.proxy hhandler (hws pc hhandler))⟩
  | upstreamGroup group => exact ⟨_, _, handlerStage_ok_iff.mpr (.upstreamGroup hhandler)⟩
  | fastCgi fc => exact ⟨_, _, handlerStage_ok_iff.mpr (.fastCgi hhandler)⟩

theorem of_handlerStage_ok
    {st' : ServerState} {resp : StaticResponse} {effects : List Effect}
    (h : handlerStage env st' server location routed = .ok (resp, effects)) :
    (∀ rd, location.map LocationBlock.handler ≠ some (.return rd)) ∧
      ∀ pc, location.map LocationBlock.handler = some (.proxy pc) →
        isWsUpgrade routed.headers = false := by
  cases handlerStage_ok_iff.mp h with
  | static hhandler =>
      rcases hhandler with hhandler | hhandler
      · rw [hhandler]
        exact ⟨nofun, nofun⟩
      · rw [hhandler]
        exact ⟨nofun, nofun⟩
  | proxy hhandler hws =>
      rw [hhandler]
      exact ⟨nofun, fun _ _ => hws⟩
  | upstreamGroup hhandler =>
      rw [hhandler]
      exact ⟨nofun, nofun⟩
  | fastCgi hhandler =>
      rw [hhandler]
      exact ⟨nofun, nofun⟩

theorem Admitted.ends
    (h : Admitted ctx env st raw req server location routed) :
    ∃ o, Ends ctx env st raw o := by
  by_cases hreturn : ∃ rd, location.map LocationBlock.handler = some (.return rd)
  · obtain ⟨rd, hrd⟩ := hreturn
    exact ⟨_, .handlerReturned h hrd⟩
  by_cases hupgrade : ∃ pc, location.map LocationBlock.handler = some (.proxy pc) ∧
      isWsUpgrade routed.headers = true
  · obtain ⟨pc, hpc, hws⟩ := hupgrade
    generalize hanswer : WebSocket.upgradeToWebsocket (Proxy.upstreamAddr pc) routed.method
      routed.path routed.headers env.exchange = answer
    obtain ⟨answer | answer, events⟩ := answer
    · exact ⟨_, .upgradeFailed h hpc hws hanswer⟩
    · exact ⟨_, .upgraded h hpc hws hanswer⟩
  obtain ⟨resp, effects, hhandler⟩ :=
    @handlerStage_ok routed server location env (afterLookup env st req)
      (fun rd hrd => hreturn ⟨rd, hrd⟩)
      (fun pc hpc => Bool.eq_false_iff.mpr fun hws => hupgrade ⟨pc, hpc, hws⟩)
  exact ⟨_, .finished h hhandler⟩

/-- The rules leave no request out. -/
theorem exists_ends
    (ctx : Context) (env : Env) (st : ServerState) (raw : Bytes) :
    ∃ o, Ends ctx env st raw o := by
  rcases exists_ends_or_proceeds ctx env st raw with h | ⟨req, hproceeds⟩
  · exact h
  rcases hproceeds.ends_or_routes with h | ⟨server, location, routed, hroutes⟩
  · exact h
  rcases hroutes.ends_or_admitted with h | hadmitted
  · exact h
  · exact hadmitted.ends

/-- A dispatch ends by exactly one of the rules. -/
theorem dispatch_eq_iff :
    dispatch ctx env st raw = o ↔ Ends ctx env st raw o := by
  constructor
  · intro h
    obtain ⟨o', hends⟩ := exists_ends ctx env st raw
    rw [← h, hends.dispatch_eq]
    exact hends
  · exact Ends.dispatch_eq

/-- How a dispatch ends. -/
theorem ends_dispatch
    (ctx : Context) (env : Env) (st : ServerState) (raw : Bytes) :
    Ends ctx env st raw (dispatch ctx env st raw) :=
  dispatch_eq_iff.mp rfl

end Complete

end Handler
end RunNginx
