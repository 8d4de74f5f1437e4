import RunNginx.Lib.Table
import RunNginx.Server.Request

/-!
# Management API

Routing, authorization, sessions and response framing of the management API.  What an
endpoint reports or does behind its authorization is an `ApiCall`; its status and the
JSON text of its answer come from outside.
-/

namespace RunNginx
namespace Api

open ByteString Request

/-- Lifetime of a session, in nanoseconds. -/
def sessionTtl : Nat := 8 * 3600 * 1000000000

/-- A request to an endpoint behind the authorization. -/
inductive ApiCall
  | stats
  | system
  | reload
  | backup (body : Bytes)
  | listBackups
  | restore (body : Bytes)
  | deleteBackup (id : Bytes)
  | createSite (body : Bytes)
  | listSites
  | deleteSite (domain : Bytes) (deleteFiles : Bool)
  | phpVersions
deriving DecidableEq, Repr

/-- What the API takes from outside while it handles one request. -/
structure ApiEnv where
  /-- Verdict of the rate limiter on the client. -/
  rateAllows : Bool
  now : Nat
  /-- The clock reading a new session counts from. -/
  issuedAt : Nat
  /-- A fresh session token. -/
  token : Bytes
  /-- Username and password of a login body; `none` if it is not JSON. -/
  parseLogin : Bytes → Option (Bytes × Bytes)
  webuiHtml : Bytes
  loginHtml : Bytes
  metrics : Bytes
  /-- JSON text of the last log lines. -/
  logs : Nat → Bytes
  call : ApiCall → Nat × Bytes

/-- Sessions and their expiry. -/
abbrev SessionStore := Table Bytes Nat

/-- The settings the API reads. -/
structure ApiSettings where
  apiKey : Bytes
  adminUser : Bytes
  adminPassword : Bytes
deriving DecidableEq, Repr

/-- Reason phrase of an API answer. -/
def jsonReason : Nat → Bytes
  | 200 => ascii "OK"
  | 202 => ascii "Accepted"
  | 400 => ascii "Bad Request"
  | 401 => ascii "Unauthorized"
  | 404 => ascii "Not Found"
  | 429 => ascii "Too Many Requests"
  | 500 => ascii "Internal Server Error"
  | _ => ascii "Error"

def jsonResponse (status : Nat) (body : Bytes) : Bytes :=
  joinLines
      [ascii "HTTP/1.1 " ++ Decimal.render status ++ ascii " " ++ jsonReason status,
        ascii "Content-Type: application/json",
        ascii "Content-Length: " ++ Decimal.render body.length,
        ascii "Server: RunNginx/" ++ pkgVersion,
        ascii "Connection: close"] ++ crlf ++ body

/-- Lines ended by a bare line feed, as two of the pages write them. -/
def joinLinesLf (lines : List Bytes) : Bytes :=
  lines.flatMap fun l => l ++ [10]

def serveWebui (env : ApiEnv) : Bytes :=
  joinLinesLf
      [ascii "HTTP/1.1 200 OK",
        ascii "Content-Type: text/html; charset=utf-8",
        ascii "Content-Length: " ++ Decimal.render env.webuiHtml.length,
        ascii "Cache-Control: no-cache",
        ascii "Connection: keep-alive",
        []] ++ env.webuiHtml

def serveLogin (env : ApiEnv) : Bytes :=
  joinLines
      [ascii "HTTP/1.1 200 OK",
        ascii "Content-Type: text/html; charset=utf-8",
        ascii "Content-Length: " ++ Decimal.render env.loginHtml.length,
        ascii "Cache-Control: no-cache",
        ascii "Connection: keep-alive"] ++ crlf ++ env.loginHtml

def redirectToLogin : Bytes :=
  joinLines
      [ascii "HTTP/1.1 302 Found",
        ascii "Location: /login",
        ascii "Content-Length: 0",
        ascii "Connection: close"] ++ crlf

def healthResponse : Bytes :=
  let body := ascii "\x7b\"status\":\"ok\"\x7d"
  joinLines
      [ascii "HTTP/1.1 200 OK",
        ascii "Content-Type: application/json",
        ascii "Content-Length: " ++ Decimal.render body.length,
        ascii "Connection: close"] ++ crlf ++ body

def prometheusMetrics (env : ApiEnv) : Bytes :=
  joinLines
      [ascii "HTTP/1.1 200 OK",
        ascii "Content-Type: text/plain; version=0.0.4; charset=utf-8",
        ascii "Content-Length: " ++ Decimal.render env.metrics.length,
        ascii "Connection: keep-alive"] ++ crlf ++ env.metrics

/-- Number of log lines a query asks for. -/
def logCount (query : Bytes) : Nat :=
  let asked := (splitByte 38 query).findSome? fun kv =>
    match find [61] kv with
    | none => none
    | some i =>
        if kv.take i = ascii "n" then
          Decimal.parseUnsigned Decimal.usizeBound (kv.drop (i + 1))
        else none
  min (asked.getD 100) 500

def apiLogs (env : ApiEnv) (query : Bytes) : Bytes :=
  let body := env.logs (logCount query)
  joinLinesLf
      [ascii "HTTP/1.1 200 OK",
        ascii "Content-Type: application/json",
        ascii "Content-Length: " ++ Decimal.render body.length,
        ascii "Connection: close",
        []] ++ body

/-- The token of the first session cookie in the first Cookie header. -/
def getSessionToken (headers : Headers) : Option Bytes :=
  (getHeader headers (ascii "cookie")).bind fun v =>
    (((splitByte 59 v).map Utf8.trim).find? fun s => (ascii "session=").isPrefixOf s).bind
      (stripPrefix (ascii "session="))

def hasValidSession (env : ApiEnv) (sessions : SessionStore) (headers : Headers) : Bool :=
  match getSessionToken headers with
  | none => false
  | some token => (sessions.lookup token).any fun expires => env.now < expires

/-- Does the request carry the API key as a bearer token? -/
def isAuthorized (headers : Headers) (apiKey : Bytes) : Bool :=
  !apiKey.isEmpty &&
    Utf8.trim ((stripPrefix (ascii "Bearer ")
      ((getHeader headers (ascii "authorization")).getD [])).getD []) == apiKey

/-- The sessions that are still valid, and a new one. -/
def addSession (env : ApiEnv) (sessions : SessionStore) : SessionStore :=
  let expired := (sessions.entries.filter fun e => e.2 ≤ env.now).map Sigma.fst
  (Table.eraseAll expired sessions).insert env.token (env.issuedAt + sessionTtl)

def loginResponse (headers : Headers) (token : Bytes) : Bytes :=
  let isHttps := headers.any fun h =>
    eqIgnoreCase h.1 (ascii "x-forwarded-proto") && eqIgnoreCase h.2 (ascii "https")
  let secureFlag := if isHttps then ascii "; Secure" else []
  joinLines
      [ascii "HTTP/1.1 200 OK",
        ascii "Content-Type: application/json",
        ascii "Set-Cookie: session=" ++ token ++
          ascii "; Path=/; HttpOnly; SameSite=Strict; Max-Age=28800" ++ secureFlag,
        ascii "Content-Length: 10",
        ascii "Connection: close"] ++ crlf ++ ascii "\x7b\"ok\":true\x7d"

def handleLoginPost (env : ApiEnv) (settings : ApiSettings) (sessions : SessionStore)
    (headers : Headers) (body : Bytes) : Bytes × SessionStore :=
  match env.parseLogin body with
  | none => (jsonResponse 400 (ascii "\x7b\"error\":\"Bad request\"\x7d"), sessions)
  | some (username, password) =>
      if username = settings.adminUser ∧ password = settings.adminPassword then
        (loginResponse headers env.token, addSession env sessions)
      else
        (jsonResponse 401 (ascii "\x7b\"error\":\"Invalid username or password\"\x7d"), sessions)

def logoutResponse : Bytes :=
  joinLines
      [ascii "HTTP/1.1 200 OK",
        ascii "Content-Type: application/json",
        ascii "Set-Cookie: session=; Path=/; HttpOnly; Max-Age=0",
        ascii "Content-Length: 10",
        ascii "Connection: close"] ++ crlf ++ ascii "\x7b\"ok\":true\x7d"

def handleLogout (sessions : SessionStore) (headers : Headers) : Bytes × SessionStore :=
  match getSessionToken headers with
  | some token => (logoutResponse, sessions.erase token)
  | none => (logoutResponse, sessions)

def jsonUnauthorized : Bytes :=
  jsonResponse 401 (ascii "\x7b\"error\":\"unauthorized\"\x7d")

def jsonRateLimited : Bytes :=
  jsonResponse 429 (ascii "\x7b\"error\":\"rate limit exceeded\"\x7d")

def jsonNotFound : Bytes :=
  jsonResponse 404 (ascii "\x7b\"error\":\"not found\"\x7d")

/-- Answer of an endpoint behind its authorization. -/
def runCall (env : ApiEnv) (call : ApiCall) : Bytes :=
  jsonResponse (env.call call).1 (env.call call).2

def handleSitesRoute (env : ApiEnv) (path query method : Bytes) : Bytes :=
  let root := ascii "/api/sites/"
  if method = ascii "DELETE" ∧ root.length < path.length then
    let deleteFiles := (splitByte 38 query).any fun p =>
      p == ascii "delete_files=true" || p == ascii "delete_files=1"
    runCall env (.deleteSite (path.drop root.length) deleteFiles)
  else jsonNotFound

def handleApiInner (env : ApiEnv) (path query method body : Bytes) : Bytes :=
  let backups := ascii "/api/backups/"
  let text := Utf8.fromUtf8Lossy body
  if !env.rateAllows then jsonRateLimited
  else if method = ascii "GET" ∧ path = ascii "/api/stats" then runCall env .stats
  else if method = ascii "GET" ∧ path = ascii "/api/system" then runCall env .system
  else if method = ascii "POST" ∧ path = ascii "/api/reload" then runCall env .reload
  else if method = ascii "GET" ∧ path = ascii "/api/logs" then apiLogs env query
  else if method = ascii "POST" ∧ path = ascii "/api/backup" then runCall env (.backup text)
  else if method = ascii "GET" ∧ path = ascii "/api/backups" then runCall env .listBackups
  else if method = ascii "POST" ∧ path = ascii "/api/restore" then runCall env (.restore text)
  else if method = ascii "DELETE" ∧ backups.isPrefixOf path then
    runCall env (.deleteBackup (path.drop backups.length))
  else jsonNotFound

/--
The API routes.  `none` is a path that is no API route; the answer comes with the
sessions after it.
-/
def handleApi (env : ApiEnv) (settings : ApiSettings) (sessions : SessionStore)
    (path query method : Bytes) (headers : Headers) (body : Bytes) :
    Option (Bytes × SessionStore) :=
  let authorized := hasValidSession env sessions headers || isAuthorized headers settings.apiKey
  let guarded := fun (response : Bytes) =>
    some (if authorized then response else jsonUnauthorized, sessions)
  if path = ascii "/health" then some (healthResponse, sessions)
  else if path = ascii "/metrics" then some (prometheusMetrics env, sessions)
  else if path = ascii "/login" ∧ method = ascii "GET" then some (serveLogin env, sessions)
  else if path = ascii "/login" ∧ method = ascii "POST" then
    if !env.rateAllows then some (jsonRateLimited, sessions)
    else some (handleLoginPost env settings sessions headers body)
  else if path = ascii "/logout" ∧ method = ascii "POST" then
    some (handleLogout sessions headers)
  else if path = ascii "/ui" ∨ path = ascii "/ui/" then
    if !hasValidSession env sessions headers then some (redirectToLogin, sessions)
    else some (serveWebui env, sessions)
  else if path = ascii "/api/sites" ∧ method = ascii "POST" then
    guarded (runCall env (.createSite body))
  else if path = ascii "/api/sites" ∧ method = ascii "GET" then
    guarded (runCall env .listSites)
  else if (ascii "/api/sites/").isPrefixOf path then
    guarded (handleSitesRoute env path query method)
  else if path = ascii "/api/php/versions" ∧ method = ascii "GET" then
    guarded (runCall env .phpVersions)
  else if (ascii "/api/").isPrefixOf path then
    guarded (handleApiInner env path query method body)
  else none

end Api
end RunNginx
