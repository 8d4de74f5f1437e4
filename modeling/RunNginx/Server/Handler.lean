import RunNginx.Api
import RunNginx.Auth
import RunNginx.Cache
import RunNginx.FastCgi
import RunNginx.Http.Compress
import RunNginx.MultiUser.UserApi
import RunNginx.Rewrite
import RunNginx.Router
import RunNginx.WebSocket

/-!
# Request dispatcher

A request passes a sequence of stages.  A stage lets it through, or answers it and
ends the dispatch: `Stage α` is an early return (`Except.error`) or a value for the
next stage.  The answer says by which `Exit` the dispatch was left, what the server
state is then, and what was done to log, statistics, scan detector and network.

Whatever comes from outside the process while one request is handled is in `Env`.
-/

namespace RunNginx
namespace Handler

open ByteString Simd Request StaticFiles Proxy

structure LogEntry where
  remoteAddr : SocketAddr
  requestLine : Bytes
  status : Nat
  bodyBytes : Nat
  referer : Bytes
  userAgent : Bytes
deriving DecidableEq, Repr

/-- What dispatching a request does beside answering it. -/
inductive Effect
  | enter
  | leave
  | log (entry : LogEntry)
  | stats (status sent received : Nat)
  /-- The scan detector records a request. -/
  | scan (path : Bytes) (status : Nat)
  | net (event : NetEvent)
  /-- An upstream group is asked for a connection. -/
  | connectGroup (group : Bytes)
  | releaseGroup (group : Bytes) (peer : SocketAddr)
  /-- A request to an application server. -/
  | fastcgi (params : Table Bytes Bytes) (body : Bytes)

/-- Where the dispatch was left. -/
inductive Exit
  | blocked
  | badRequest
  | cacheHit
  | challenge
  | userApi
  | api
  | sslRedirect
  | rewriteRedirect
  | unauthorized
  | limited
  | tooLarge
  | returned
  | upgraded
  | upgradeFailed
  | finished
deriving DecidableEq, Repr

/-- The parts of the server state a request can change. -/
structure ServerState where
  cache : Cache.ResponseCache
  users : MultiUser.UserRegistry
  sessions : Api.SessionStore

/-- How the dispatch of a request ends. -/
structure Outcome where
  exit : Exit
  result : HandlerResult
  state : ServerState
  effects : List Effect

/-- What does not change while the server runs. -/
structure Context where
  lib : Libraries
  http : HttpBlock
  servers_ne_nil : http.servers ≠ []

/-- What comes from outside while one request is handled. -/
structure Env where
  peer : SocketAddr
  isTls : Bool
  /-- Verdict of the scan detector on the client. -/
  scanBlocked : Bool
  /-- Clock readings before and after the request is handled. -/
  cacheNow : Nat
  storeNow : Nat
  /-- Key authorization of an ACME challenge token. -/
  challenge : Bytes → Option Bytes
  users : MultiUser.UserApiEnv
  api : Api.ApiEnv
  fs : FileSystem
  bcryptVerify : Bytes → Bytes → Bool
  /-- Verdict of a rate limit zone for a burst; `none` is an unknown zone. -/
  limitAllows : Bytes → Nat → Option Bool
  exchange : Exchange
  /-- Peer of an upstream group, or a failed connection; `none` is an unknown group. -/
  connectGroup : Bytes → Option (Option SocketAddr)
  fastcgi : FastCgiConfig → Table Bytes Bytes → Bytes → Except Bytes Bytes
  gzip : Bytes → Option Bytes
  brotli : Bytes → Option Bytes

/-- A request after parsing, with the path that later stages may rewrite. -/
structure ParsedRequest where
  method : Bytes
  path : Bytes
  query : Bytes
  fullUri : Bytes
  version10 : Bool
  headers : Headers
  host : Bytes
  contentLen : Nat
  keepAlive : Bool
  body : Bytes
deriving DecidableEq, Repr

/-- A stage answers the request or lets it through. -/
abbrev Stage (α : Type) := Except Outcome α

/-- Answer the request here. -/
def answer {α : Type} (exit : Exit) (st : ServerState) (result : HandlerResult)
    (effects : List Effect) : Stage α :=
  .error ⟨exit, result, st, effects⟩

namespace ParsedRequest

/-- The request URI, cut at its first question mark. -/
def splitUri (fullUri : Bytes) : Bytes × Bytes :=
  match find [63] fullUri with
  | some q => (fullUri.take q, fullUri.drop (q + 1))
  | none => (fullUri, [])

theorem splitUri_prefix
    (uri : Bytes) :
    (splitUri uri).1 <+: uri := by
  unfold splitUri
  split
  · exact List.take_prefix _ _
  · exact List.prefix_rfl

def ofReceived (r : Received) : ParsedRequest :=
  let headers := headerStrings r.headers
  let fullUri := Utf8.fromUtf8Lossy r.line.uri
  let version10 := r.line.version == ascii "HTTP/1.0"
  { method := Utf8.fromUtf8Lossy r.line.method
    path := (splitUri fullUri).1
    query := (splitUri fullUri).2
    fullUri := fullUri
    version10 := version10
    headers := headers
    host := (getHeader headers (ascii "host")).getD []
    contentLen := Request.contentLen headers
    keepAlive :=
      !version10 &&
        ((getHeader headers (ascii "connection")).map
          fun v => !eqIgnoreCase v (ascii "close")).getD true
    body := r.body }

/-- The log line of an answer, under the protocol name it is logged with. -/
def logEntry (req : ParsedRequest) (env : Env) (protocol : Bytes) (status bodyBytes : Nat) :
    Effect :=
  .log
    { remoteAddr := env.peer
      requestLine := req.method ++ ascii " " ++ req.path ++ ascii " " ++ protocol
      status := status
      bodyBytes := bodyBytes
      referer := (getHeader req.headers (ascii "referer")).getD (ascii "-")
      userAgent := (getHeader req.headers (ascii "user-agent")).getD (ascii "-") }

/-- The protocol version the request was sent with. -/
def protocol (req : ParsedRequest) : Bytes :=
  if req.version10 then ascii "HTTP/1.0" else ascii "HTTP/1.1"

def logRequest (req : ParsedRequest) (env : Env) (result : HandlerResult) : Effect :=
  req.logEntry env req.protocol result.status result.bytes.length

end ParsedRequest

/-- Status of a serialized response. -/
def extractStatusFromResponse (bytes : Bytes) : Nat :=
  statusOf (if Utf8.isUtf8 bytes then bytes else []) 200

section Stages

variable (ctx : Context) (env : Env) (st : ServerState)

/-- Clients that the scan detector has blocked. -/
def scanStage : Stage Unit :=
  if env.scanBlocked then
    let body := ascii "Too Many Requests"
    answer .blocked st
      { bytes := Response.formatResponse 429
          [(ascii "Content-Length", Decimal.render body.length),
            (ascii "Retry-After", ascii "3600"),
            (ascii "Content-Type", ascii "text/plain")] false body
        keepAlive := false
        status := 429
        tunnel := none } []
  else .ok ()

/-- Request line, URI check and headers. -/
def parseStage (raw : Bytes) : Stage ParsedRequest :=
  match parseRequestLine raw with
  | .error e => answer .badRequest st (HandlerResult.badRequest e false) []
  | .ok (rl, rlLen) =>
      if !isUriSafe rl.uri then
        answer .badRequest st
          (HandlerResult.badRequest (ascii "forbidden URI sequence") false) []
      else match readBehindLine raw rl rlLen with
      | .error e => answer .badRequest st (HandlerResult.badRequest e false) []
      | .ok received => .ok (ParsedRequest.ofReceived received)

/-- Answers from the cache; the lookup may drop an expired entry. -/
def cacheStage (req : ParsedRequest) (rawLen : Nat) : Stage ServerState :=
  if Cache.isCachedMethod req.method && !Cache.requestBypassesCache req.headers then
    match st.cache.get (Cache.ResponseCache.cacheKey req.host req.method req.fullUri)
        env.cacheNow with
    | (some bytes, cache) =>
        answer .cacheHit { st with cache := cache }
          { bytes := bytes, keepAlive := true, status := 200, tunnel := none }
          [.stats 200 bytes.length rawLen]
    | (none, cache) => .ok { st with cache := cache }
  else .ok st

/-- ACME HTTP-01 challenge tokens. -/
def challengeStage (req : ParsedRequest) : Stage Unit :=
  match (stripPrefix (ascii "/.well-known/acme-challenge/") req.path).bind env.challenge with
  | some body =>
      answer .challenge st
        { bytes := Response.formatResponse 200
            [(ascii "Content-Type", ascii "application/octet-stream"),
              (ascii "Content-Length", Decimal.render body.length)] false body
          keepAlive := false
          status := 200
          tunnel := none } []
  | none => .ok ()

/-- The bearer token of the request, or nothing. -/
def bearerToken (req : ParsedRequest) : Bytes :=
  (((getHeader req.headers (ascii "authorization")).bind
    (stripPrefix (ascii "Bearer "))).map Utf8.trim).getD []

def userApiStage (req : ParsedRequest) : Stage Unit :=
  let isAdmin := !ctx.http.apiKey.isEmpty && bearerToken req == ctx.http.apiKey
  match MultiUser.handleUserApi env.users st.users req.path req.method req.body
      (bearerToken req) isAdmin with
  | some (bytes, users) =>
      let status := extractStatusFromResponse bytes
      answer .userApi { st with users := users } ⟨bytes, false, status, none⟩
        [req.logEntry env (ascii "HTTP/1.1") status bytes.length]
  | none => .ok ()

/-- The settings the management API reads. -/
def apiSettings : Api.ApiSettings :=
  ⟨ctx.http.apiKey, ctx.http.webuiAdminUser, ctx.http.webuiAdminPassword⟩

def apiStage (req : ParsedRequest) : Stage Unit :=
  match Api.handleApi env.api (apiSettings ctx) st.sessions req.path req.query req.method
      req.headers req.body with
  | some (bytes, sessions) =>
      let status := extractStatusFromResponse bytes
      answer .api { st with sessions := sessions } ⟨bytes, false, status, none⟩
        [req.logEntry env req.protocol status bytes.length]
  | none => .ok ()

/-- The server block for the request. -/
def serverFor (req : ParsedRequest) : ServerBlock :=
  (Router.selectServer ctx.http.servers req.host).getD
    (ctx.http.servers.head ctx.servers_ne_nil)

/-- An empty answer that sends the client elsewhere. -/
def redirectResult (status : Nat) (location : Bytes) (keepAlive : Bool) : HandlerResult :=
  { bytes := Response.formatResponse status
      [(ascii "Location", location), (ascii "Content-Length", ascii "0")] keepAlive []
    keepAlive := keepAlive
    status := status
    tunnel := none }

/-- Redirect from plain HTTP. -/
def sslStage (server : ServerBlock) (req : ParsedRequest) : Stage Unit :=
  if server.sslRedirect && !env.isTls then
    let host := if req.host = [] then ascii "localhost" else req.host
    let r := redirectResult 301 (ascii "https://" ++ host ++ req.path) req.keepAlive
    answer .sslRedirect st r [req.logRequest env r]
  else .ok ()

/-- One list of rewrite rules: a redirect, or the request under its new path. -/
def rewriteStage (rules : List RewriteRule) (req : ParsedRequest) : Stage ParsedRequest :=
  match Rewrite.applyRewrites ctx.lib rules req.path with
  | .redirect uri status =>
      let r := redirectResult status uri req.keepAlive
      answer .rewriteRedirect st r [req.logRequest env r]
  | .rewritten uri _ => .ok { req with path := uri }
  | .noMatch => .ok req

variable (server : ServerBlock) (location : Option LocationBlock)

/-- The settings that ask for credentials: those of the location, or of its server. -/
def authConfig : Option AuthBasicConfig :=
  (location.bind LocationBlock.authBasic).or server.authBasic

/-- Does the request carry credentials of the user file? -/
def isAuthorized (cfg : AuthBasicConfig) (req : ParsedRequest) : Bool :=
  (getHeader req.headers (ascii "authorization")).any
    (Auth.checkBasicAuth env.fs env.bcryptVerify cfg.userFile)

def authStage (req : ParsedRequest) : Stage Unit :=
  match authConfig server location with
  | some cfg =>
      if isAuthorized env cfg req then .ok ()
      else
        let bytes := Auth.unauthorizedResponse cfg.realm
        answer .unauthorized st ⟨bytes, req.keepAlive, 401, none⟩
          [req.logEntry env (ascii "HTTP/1.1") 401 bytes.length]
  | none => .ok ()

/-- Rate limit of the location, or of its server. -/
def limitStage (req : ParsedRequest) : Stage Unit :=
  match (location.bind LocationBlock.limitReq).or server.limitReq with
  | some limit =>
      match env.limitAllows limit.zone limit.burst with
      | some false =>
          let r : HandlerResult :=
            { bytes := Response.formatResponse 429
                [(ascii "Content-Type", ascii "text/plain"),
                  (ascii "Content-Length", ascii "19"),
                  (ascii "Retry-After", ascii "1")] false (ascii "429 Too Many Requests")
              keepAlive := false
              status := 429
              tunnel := none }
          answer .limited st r [req.logRequest env r]
      | _ => .ok ()
  | none => .ok ()

/-- The body size that is accepted. -/
def maxBody : Nat :=
  ((location.bind LocationBlock.clientMaxBodySize).or server.clientMaxBodySize).getD
    ctx.http.clientMaxBodySize

def bodyStage (req : ParsedRequest) : Stage Unit :=
  if maxBody ctx server location < req.contentLen then
    let r : HandlerResult :=
      { bytes := Response.formatResponse 413
          [(ascii "Content-Type", ascii "text/plain"), (ascii "Content-Length", ascii "22")]
          req.keepAlive (ascii "413 Content Too Large")
        keepAlive := false
        status := 413
        tunnel := none }
    answer .tooLarge st r [req.logRequest env r]
  else .ok ()

/-- The answer of a `return` directive. -/
def handleReturn (rd : ReturnDirective) (keepAlive : Bool) : HandlerResult :=
  let (body, location) : Bytes × Option Bytes :=
    match rd.body with
    | .empty => ([], none)
    | .text t => (t, none)
    | .url u => ([], some u)
  let hdrs :=
    (ascii "Content-Length", Decimal.render body.length) ::
      (location.toList.map fun l => (ascii "Location", l)) ++
      (if body = [] then [] else [(ascii "Content-Type", ascii "text/plain")])
  { bytes := Response.formatResponse rd.status hdrs keepAlive body
    keepAlive := keepAlive
    status := rd.status
    tunnel := none }

/-- Answer with a `return` directive. -/
def answerReturn {α : Type} (rd : ReturnDirective) (req : ParsedRequest) : Stage α :=
  let r := handleReturn rd req.keepAlive
  answer .returned st r [req.logRequest env r]

def returnStage (req : ParsedRequest) : Stage Unit :=
  match (location.bind LocationBlock.returnDirective).or server.returnDirective with
  | some rd => answerReturn env st rd req
  | none => .ok ()

/-- The prefix of the location, where it has one. -/
def locationPrefix : Bytes :=
  match location.map LocationBlock.pattern with
  | some (.longestPrefix p) => p
  | some (.prefixNoRegex p) => p
  | _ => []

/-- Does the request ask for a WebSocket connection? -/
def isWsUpgrade (headers : Headers) : Bool :=
  headers.any fun h =>
    eqIgnoreCase h.1 (ascii "upgrade") && eqIgnoreCase h.2 (ascii "websocket")

/-- A WebSocket upgrade ends the dispatch either way. -/
def upgradeHandler {α : Type} (pc : ProxyConfig) (req : ParsedRequest) : Stage α :=
  match WebSocket.upgradeToWebsocket (upstreamAddr pc) req.method req.path req.headers
      env.exchange with
  | (.ok bytes, events) =>
      answer .upgraded st ⟨bytes, false, 101, some (upstreamAddr pc)⟩
        (events.map .net ++ [req.logEntry env (ascii "HTTP/1.1") 101 0])
  | (.error _, events) =>
      answer .upgradeFailed st
        { bytes := Response.formatResponse 502 [(ascii "Content-Length", ascii "0")] false []
          keepAlive := false
          status := 502
          tunnel := none } (events.map .net)

def proxyHandler (pc : ProxyConfig) (req : ParsedRequest) :
    Stage (StaticResponse × List Effect) :=
  if isWsUpgrade req.headers then upgradeHandler env st pc req
  else
    let (resp, events) := proxyRequest pc req.method req.path (locationPrefix location)
      req.headers [] env.exchange
    .ok (resp, events.map .net)

/-- The URL of a peer of an upstream group. -/
def peerUrl (peer : SocketAddr) : Url where
  scheme := ascii "http"
  host := some (match peer.ip with | .v4 a => .ipv4 a | .v6 a => .ipv6 a)
  port := if peer.port = 80 then none else some peer.port
  path := ascii "/"

/-- The settings of a request to a peer of an upstream group. -/
def peerConfig (peer : SocketAddr) : ProxyConfig where
  upstream := peerUrl peer
  setHeaders := []
  readTimeout := 60
  connectTimeout := 10
  buffering := true
  http2 := false
  allowInternal := true

def groupHandler (group : Bytes) (req : ParsedRequest) : StaticResponse × List Effect :=
  match env.connectGroup group with
  | some (some peer) =>
      let (resp, events) := proxyRequestStream (peerConfig peer) req.method req.path
        (locationPrefix location) req.headers req.body env.exchange
      (resp, .connectGroup group :: events.map .net ++ [.releaseGroup group peer])
  | some none =>
      (notImplemented (ascii "502 upstream unavailable"), [.connectGroup group])
  | none => (notImplemented (ascii "upstream group not found"), [])

/-- The script a FastCGI request names. -/
def scriptPath (fc : FastCgiConfig) (path : Bytes) : Bytes :=
  let root := (effectiveRoot server location).getD (ascii "/var/www/html")
  let script := trimEndSlashes root ++ ascii "/" ++ path.dropWhile isSlash
  let index := fc.index.getD (ascii "index.php")
  if path.getLast? = some PathText.slash ∨ PathText.extension script = none then
    trimEndSlashes script ++ ascii "/" ++ index
  else script

/-- The URI with its query. -/
def uriWithQuery (path query : Bytes) : Bytes :=
  if query = [] then path else path ++ ascii "?" ++ query

def fastCgiHandler (fc : FastCgiConfig) (req : ParsedRequest) :
    StaticResponse × List Effect :=
  let params := FastCgi.buildParams fc req.method (uriWithQuery req.path req.query)
    (scriptPath server location fc req.path) req.headers req.body.length
  (FastCgi.fastcgiRequest (env.fastcgi fc params req.body), [.fastcgi params req.body])

/-- The handler of the location. -/
def handlerStage (req : ParsedRequest) : Stage (StaticResponse × List Effect) :=
  match location.map LocationBlock.handler with
  | some (.return rd) => answerReturn env st rd req
  | some .static | none =>
      .ok (staticHandler env.fs server location req.path req.method req.headers, [])
  | some (.proxy pc) => proxyHandler env st location pc req
  | some (.upstreamGroup group) => .ok (groupHandler env location group req)
  | some (.fastCgi fc) => .ok (fastCgiHandler env server location fc req)

/-- Replace the value of the first Content-Length, where there is one. -/
def replaceContentLength (len : Nat) : Headers → Headers
  | [] => []
  | h :: hs =>
      if eqIgnoreCase h.1 (ascii "content-length") then
        (ascii "Content-Length", Decimal.render len) :: hs
      else h :: replaceContentLength len hs

/-- The body to send, and the content coding it was given. -/
def encodeBody (req : ParsedRequest) (resp : StaticResponse) : Bytes × Option Bytes :=
  let acceptEnc := getHeader req.headers (ascii "accept-encoding")
  let contentType := (getHeader resp.headers (ascii "content-type")).getD
    (ascii "application/octet-stream")
  let gzipOn := (location.bind LocationBlock.gzip).getD ctx.http.gzip
  match Compress.maybeCompress env.gzip resp.body contentType acceptEnc
      ⟨gzipOn, ctx.http.gzipMinLength, ctx.http.gzipTypes⟩ with
  | (body, true) => (body, some (ascii "gzip"))
  | (body, false) =>
      match Compress.maybeBrotli env.brotli body contentType acceptEnc
          ⟨ctx.http.brotli, ctx.http.brotliMinLength, ctx.http.brotliTypes⟩ with
      | (body, true) => (body, some (ascii "br"))
      | (body, false) => (body, none)

/-- The headers of a body that was given a content coding. -/
def encodedHeaders (headers : Headers) (coding : Option Bytes) (len : Nat) : Headers :=
  match coding with
  | some coding => replaceContentLength len (headers ++ [(ascii "Content-Encoding", coding)])
  | none => headers

/-- Headers the configuration adds to the answer of a handler. -/
def addedHeaders : Headers :=
  server.addHeaders ++ ((location.map LocationBlock.addHeaders).getD []) ++
    match server.hstsMaxAge with
    | some maxAge =>
        if env.isTls then
          [(ascii "Strict-Transport-Security",
            ascii "max-age=" ++ Decimal.render maxAge ++
              if server.hstsIncludeSubdomains then ascii "; includeSubDomains" else [])]
        else []
    | none => []

/-- All headers of the answer of a handler. -/
def finalHeaders (req : ParsedRequest) (resp : StaticResponse) : Headers :=
  let encoded := encodeBody ctx env location req resp
  encodedHeaders resp.headers encoded.2 encoded.1.length ++ addedHeaders env server location

/-- Serialize the answer of a handler and store it where it may be stored. -/
def finish (req : ParsedRequest) (resp : StaticResponse) (effects : List Effect) : Outcome :=
  let body := (encodeBody ctx env location req resp).1
  let hdrs := finalHeaders ctx env server location req resp
  let bytes := Response.formatResponse resp.status hdrs req.keepAlive body
  let stored :=
    Cache.isCacheable req.method resp.status hdrs && !Cache.requestBypassesCache req.headers
  let cache :=
    if stored then
      st.cache.put (Cache.ResponseCache.cacheKey req.host req.method req.path) bytes
        resp.status env.storeNow
    else st.cache
  { exit := .finished
    result := ⟨bytes, req.keepAlive, resp.status, none⟩
    state := { st with cache := cache }
    effects := effects ++
      [req.logEntry env req.protocol resp.status body.length, .scan req.path resp.status] }

end Stages

section Dispatch

variable (ctx : Context) (env : Env)

/-- The gates in front of the handler of a location. -/
def gates (st : ServerState) (server : ServerBlock) (location : Option LocationBlock)
    (req : ParsedRequest) : Stage Unit := do
  authStage env st server location req
  limitStage env st server location req
  bodyStage ctx env st server location req
  returnStage env st server location req

/-- The stages before routing: blocked clients, parsing, cache, challenges, APIs. -/
def preRoute (st : ServerState) (raw : Bytes) : Stage (ServerState × ParsedRequest) := do
  scanStage env st
  let req ← parseStage st raw
  let st ← cacheStage env st req raw.length
  challengeStage env st req
  userApiStage ctx env st req
  apiStage ctx env st req
  return (st, req)

/-- The location, and the request under the path it is handled with. -/
def route (st : ServerState) (req : ParsedRequest) :
    Stage (ServerBlock × Option LocationBlock × ParsedRequest) := do
  let server := serverFor ctx req
  sslStage env st server req
  let req ← rewriteStage ctx env st server.rewrites req
  let location := Router.selectLocation server req.path
  let req ← rewriteStage ctx env st ((location.map LocationBlock.rewrites).getD []) req
  return (server, location, req)

/-- All stages; the last one always answers. -/
def stages (st : ServerState) (raw : Bytes) : Stage Outcome := do
  let (st, req) ← preRoute ctx env st raw
  let (server, location, req) ← route ctx env st req
  gates ctx env st server location req
  let (resp, effects) ← handlerStage env st server location req
  return finish ctx env st server location req resp effects

/-- Dispatch one request. -/
def dispatch (st : ServerState) (raw : Bytes) : Outcome :=
  match stages ctx env st raw with
  | .error outcome => outcome
  | .ok outcome => outcome

/-- Dispatch a request and count it. -/
def handle (st : ServerState) (raw : Bytes) : Outcome :=
  let outcome := dispatch ctx env st raw
  { outcome with
    effects := .enter :: outcome.effects ++
      [.leave, .stats outcome.result.status outcome.result.bytes.length raw.length] }

end Dispatch

end Handler
end RunNginx
