import RunNginx.Api.Sessions
import RunNginx.MultiUser.Persistence
import RunNginx.Stats

/-!
# The management interface

The user API and the management API with the state they act on: accounts and files, the
hosted sites, sessions, the rate limiter, the log lines and the reload messages.  What the
creation and the removal of a site do to the machine is a parameter.

`unauthenticated_inert`: a request that carries neither a valid session nor the API key
changes none of it but sessions and limiter, and its answer does not depend on it beyond
the account whose own key it carries.
-/

namespace RunNginx
namespace Management

open ByteString EarlyReturn Request Api

/-- What the interface acts on. -/
structure State (σ : Type) where
  /-- The registry, and the directory with configuration, users file and backups. -/
  site : MultiUser.Site
  /-- The hosted sites, with their files and databases. -/
  hosted : σ
  sessions : SessionStore
  rate : RateLimiter
  logRing : List Bytes
  /-- Reload messages sent so far. -/
  reloads : Nat

/-- The answer of an operation on the hosted sites. -/
structure SiteResult where
  ok : Bool
  error : Bool
  json : Bytes

/-- What is wrong with the body of a request for a new site. -/
inductive SiteError
  | notJson
  | noDomain
  | noType

def SiteError.json : SiteError → Bytes
  | .notJson => Backup.errorJson (ascii "Invalid JSON") []
  | .noDomain => Backup.errorJson (ascii "domain required") []
  | .noType => Backup.errorJson (ascii "type must be static|php|wordpress|proxy") []

/-- What one request takes from outside; `ρ` is a request for a site. -/
structure Env (σ ρ : Type) where
  base : ApiEnv
  nowSec : Nat
  peerIp : IpAddr
  toml : MultiUser.Toml
  user : MultiUser.UserApiEnv
  usersWrite : Storage.Write Bytes
  stats : Bytes
  system : Bytes
  logs : List Bytes → Bytes
  backup : Backup.BackupEnv
  backupList : Table Bytes Backup.Snapshot → Bytes
  restore : Backup.RestoreEnv
  removal : Backup.Removal
  parseSite : Bytes → Except SiteError ρ
  createSite : ρ → σ → σ × SiteResult
  deleteSite : Bytes → Bool → σ → σ × SiteResult
  siteList : σ → Bytes
  phpVersions : Bytes

/-- A request, as both APIs see it. -/
structure Call where
  path : Bytes
  query : Bytes
  method : Bytes
  headers : Headers
  body : Bytes

section Endpoints

variable {σ ρ : Type} (env : Env σ ρ) (m : State σ)

/-- Send a reload message if the operation went well. -/
def reloadIf (ok : Bool) : State σ :=
  { m with reloads := if ok then m.reloads + 1 else m.reloads }

def handleCreateSite (body : Bytes) : State σ × Backup.Answer :=
  match env.parseSite body with
  | .error e => (m, ⟨400, e.json⟩)
  | .ok req =>
      let (hosted, result) := env.createSite req m.hosted
      (reloadIf { m with hosted := hosted } result.ok,
        ⟨if result.ok then 200 else 400, result.json⟩)

/-- What an endpoint does, and its answer. -/
def perform : ApiCall → State σ × Backup.Answer
  | .stats => (m, ⟨200, env.stats⟩)
  | .system => (m, ⟨200, env.system⟩)
  | .reload => (reloadIf m true, ⟨202, ascii "\x7b\"status\":\"reloading\"\x7d"⟩)
  | .backup body =>
      let (answer, disk) := Backup.apiBackup env.backup body m.site.disk
      ({ m with site := { m.site with disk := disk } }, answer)
  | .listBackups => (m, ⟨200, env.backupList m.site.disk.backups⟩)
  | .restore body =>
      let (site, answer) := m.site.restore env.restore body
      (reloadIf { m with site := site } (answer.status == 200), answer)
  | .deleteBackup id =>
      let (answer, disk) := Backup.apiDeleteBackup env.removal id m.site.disk
      ({ m with site := { m.site with disk := disk } }, answer)
  | .createSite body => handleCreateSite env m body
  | .listSites => (m, ⟨200, env.siteList m.hosted⟩)
  | .deleteSite domain deleteFiles =>
      let (hosted, result) := env.deleteSite domain deleteFiles m.hosted
      (reloadIf { m with hosted := hosted } result.ok,
        ⟨if result.error then 400 else 200, result.json⟩)
  | .phpVersions => (m, ⟨200, env.phpVersions⟩)

/-- The state an endpoint leaves, and its answer as it is sent. -/
def runCall (call : ApiCall) : State σ × Bytes :=
  let (after, answer) := perform env m call
  (after, answer.bytes)

/-- The environment of the API, with what the state says of limiter, log and endpoints. -/
def apiEnv : ApiEnv :=
  { env.base with
    rateAllows := (m.rate.allow env.nowSec env.peerIp).1
    logs := fun n => env.logs (m.logRing.drop (m.logRing.length - n))
    call := fun call => ((perform env m call).2.status, (perform env m call).2.json) }

/-- The state after the limiter was asked about a request. -/
def asked : State σ :=
  { m with rate := (m.rate.allow env.nowSec env.peerIp).2 }

def handleSitesRoute (path query method : Bytes) : State σ × Bytes :=
  let root := ascii "/api/sites/"
  if method = ascii "DELETE" ∧ root.length < path.length then
    let deleteFiles := (splitByte 38 query).any fun p =>
      p == ascii "delete_files=true" || p == ascii "delete_files=1"
    runCall env m (.deleteSite (path.drop root.length) deleteFiles)
  else (m, jsonNotFound)

def handleApiInner (path query method body : Bytes) : State σ × Bytes :=
  let backups := ascii "/api/backups/"
  let text := Utf8.fromUtf8Lossy body
  if !(m.rate.allow env.nowSec env.peerIp).1 then (asked env m, jsonRateLimited)
  else if method = ascii "GET" ∧ path = ascii "/api/stats" then runCall env (asked env m) .stats
  else if method = ascii "GET" ∧ path = ascii "/api/system" then
    runCall env (asked env m) .system
  else if method = ascii "POST" ∧ path = ascii "/api/reload" then
    runCall env (asked env m) .reload
  else if method = ascii "GET" ∧ path = ascii "/api/logs" then
    (asked env m, apiLogs (apiEnv env m) query)
  else if method = ascii "POST" ∧ path = ascii "/api/backup" then
    runCall env (asked env m) (.backup text)
  else if method = ascii "GET" ∧ path = ascii "/api/backups" then
    runCall env (asked env m) .listBackups
  else if method = ascii "POST" ∧ path = ascii "/api/restore" then
    runCall env (asked env m) (.restore text)
  else if method = ascii "DELETE" ∧ backups.isPrefixOf path then
    runCall env (asked env m) (.deleteBackup (path.drop backups.length))
  else (asked env m, jsonNotFound)

/-- Does the request carry a valid session or the API key? -/
def authorized (settings : ApiSettings) (headers : Headers) : Bool :=
  hasValidSession env.base m.sessions headers || isAuthorized headers settings.apiKey

/-- Let a request through only with authorization. -/
def guarded (settings : ApiSettings) (headers : Headers) (answer : State σ × Bytes) :
    Option (State σ × Bytes) :=
  some (if authorized env m settings headers then answer else (m, jsonUnauthorized))

/-- The management API; `none` is a path that is no API route. -/
def handleApi (settings : ApiSettings) (call : Call) : Option (State σ × Bytes) :=
  let ⟨path, query, method, headers, body⟩ := call
  if path = ascii "/health" then some (m, healthResponse)
  else if path = ascii "/metrics" then some (m, prometheusMetrics env.base)
  else if path = ascii "/login" ∧ method = ascii "GET" then some (m, serveLogin env.base)
  else if path = ascii "/login" ∧ method = ascii "POST" then
    if !(m.rate.allow env.nowSec env.peerIp).1 then some (asked env m, jsonRateLimited)
    else
      let (bytes, sessions) := handleLoginPost env.base settings m.sessions headers body
      some ({ asked env m with sessions := sessions }, bytes)
  else if path = ascii "/logout" ∧ method = ascii "POST" then
    let (bytes, sessions) := handleLogout m.sessions headers
    some ({ m with sessions := sessions }, bytes)
  else if path = ascii "/ui" ∨ path = ascii "/ui/" then
    if !hasValidSession env.base m.sessions headers then some (m, redirectToLogin)
    else some (m, serveWebui env.base)
  else if path = ascii "/api/sites" ∧ method = ascii "POST" then
    guarded env m settings headers (runCall env m (.createSite body))
  else if path = ascii "/api/sites" ∧ method = ascii "GET" then
    guarded env m settings headers (runCall env m .listSites)
  else if (ascii "/api/sites/").isPrefixOf path then
    guarded env m settings headers (handleSitesRoute env m path query method)
  else if path = ascii "/api/php/versions" ∧ method = ascii "GET" then
    guarded env m settings headers (runCall env m .phpVersions)
  else if (ascii "/api/").isPrefixOf path then
    guarded env m settings headers (handleApiInner env m path query method body)
  else none

def postUser (body : Bytes) : State σ × Bytes :=
  let (username, domains) := env.user.parseUser body
  if username = [] then (m, MultiUser.jsonErr 400 (ascii "username required"))
  else if !username.all MultiUser.isUsernameByte || 32 < username.length then
    (m, MultiUser.jsonErr 400
      (ascii "username: only a-z A-Z 0-9 - _ allowed, max 32 chars"))
  else
    match m.site.createUser env.toml env.user.id env.user.key username domains
        (ascii "/home/" ++ username) env.usersWrite with
    | (site, .ok user) => ({ m with site := site }, MultiUser.jsonOk (env.user.createdJson user))
    | (site, .error e) => ({ m with site := site }, MultiUser.jsonErr 500 e)

/-- The user API; `none` is a path or method that is none of its routes. -/
def handleUserApi (path method body apiKey : Bytes) (isAdmin : Bool) :
    Option (State σ × Bytes) :=
  let users := ascii "/api/users/"
  if !(ascii "/api/users").isPrefixOf path then none
  else if method = ascii "GET" ∧ path = ascii "/api/users" ∧ isAdmin then
    some (m, MultiUser.jsonOk (env.user.usersJson m.site.registry.allUsers))
  else if method = ascii "POST" ∧ path = ascii "/api/users" ∧ isAdmin then
    some (postUser env m body)
  else if method = ascii "DELETE" ∧ users.isPrefixOf path ∧ isAdmin then
    match m.site.deleteUser env.toml (path.drop users.length) env.usersWrite with
    | (site, true) =>
        some ({ m with site := site },
          MultiUser.jsonOk (ascii "\x7b\"status\":\"deleted\"\x7d"))
    | (site, false) =>
        some ({ m with site := site }, MultiUser.jsonErr 404 (ascii "user not found"))
  else if method = ascii "GET" ∧ path = ascii "/api/users/me" then
    match m.site.registry.byApiKey apiKey with
    | some user => some (m, MultiUser.jsonOk (env.user.selfJson user))
    | none => some (m, MultiUser.jsonErr 401 (ascii "unauthorized"))
  else none

end Endpoints

/-- The bearer token of a request, or nothing. -/
def bearerToken (headers : Headers) : Bytes :=
  (((getHeader headers (ascii "authorization")).bind
    (stripPrefix (ascii "Bearer "))).map Utf8.trim).getD []

/-- Does the request carry the API key, as the user API takes it? -/
def isAdmin (settings : ApiSettings) (headers : Headers) : Bool :=
  !settings.apiKey.isEmpty && bearerToken headers == settings.apiKey

/-- The user API, and then the management API, as the dispatcher asks them. -/
def handle {σ ρ : Type} (env : Env σ ρ) (settings : ApiSettings) (call : Call) (m : State σ) :
    Option (State σ × Bytes) :=
  (handleUserApi env m call.path call.method call.body (bearerToken call.headers)
    (isAdmin settings call.headers)).or (handleApi env m settings call)

section Refinement

variable {σ ρ : Type} {env : Env σ ρ} {m : State σ}

@[simp] theorem perform_sessions
    (call : ApiCall) :
    (perform env m call).1.sessions = m.sessions := by
  cases call with
  | createSite body =>
      simp only [perform, handleCreateSite]
      split
      · rfl
      · rfl
  | _ => rfl

@[simp] theorem perform_rate
    (call : ApiCall) :
    (perform env m call).1.rate = m.rate := by
  cases call with
  | createSite body =>
      simp only [perform, handleCreateSite]
      split
      · rfl
      · rfl
  | _ => rfl

/-- Endpoints do not look at the limiter. -/
theorem perform_asked
    (call : ApiCall) :
    (perform env (asked env m) call).2 = (perform env m call).2 := by
  cases call with
  | createSite body =>
      simp only [perform, handleCreateSite, asked]
      cases env.parseSite body with
      | error e => rfl
      | ok req => rfl
  | _ => rfl

/-- What the API without its state says of an answer: the bytes, and the sessions after it. -/
def told (answer : State σ × Bytes) : Bytes × SessionStore :=
  (answer.2, answer.1.sessions)

theorem told_runCall
    (call : ApiCall) :
    told (runCall env m call) = (Api.runCall (apiEnv env m) call, m.sessions) :=
  Prod.ext rfl (perform_sessions call)

theorem told_runCall_asked
    (call : ApiCall) :
    told (runCall env (asked env m) call) = (Api.runCall (apiEnv env m) call, m.sessions) := by
  refine Prod.ext ?_ (perform_sessions call)
  simp only [told, runCall, Backup.Answer.bytes, Api.runCall, apiEnv, perform_asked]

theorem told_handleSitesRoute
    (path query method : Bytes) :
    told (handleSitesRoute env m path query method) =
      (Api.handleSitesRoute (apiEnv env m) path query method, m.sessions) := by
  unfold handleSitesRoute Api.handleSitesRoute
  dsimp only
  split
  · exact told_runCall _
  · rfl

theorem told_handleApiInner
    (path query method body : Bytes) :
    told (handleApiInner env m path query method body) =
      (Api.handleApiInner (apiEnv env m) path query method body, m.sessions) := by
  unfold handleApiInner Api.handleApiInner
  simp only [apply_ite told, apply_ite (fun bytes : Bytes => (bytes, m.sessions)),
    told_runCall_asked]
  rfl

theorem told_guarded
    {settings : ApiSettings} {headers : Headers} {answer : State σ × Bytes} {bytes : Bytes}
    (h : told answer = (bytes, m.sessions)) :
    (guarded env m settings headers answer).map told =
      some (if authorized env m settings headers then bytes else jsonUnauthorized,
        m.sessions) := by
  unfold guarded
  cases authorized env m settings headers with
  | true => exact congrArg some h
  | false => rfl

/-- The management API answers what it answers without its state. -/
theorem told_handleApi
    (settings : ApiSettings) (call : Call) :
    (handleApi env m settings call).map told =
      Api.handleApi (apiEnv env m) settings m.sessions call.path call.query call.method
        call.headers call.body := by
  obtain ⟨path, query, method, headers, body⟩ := call
  unfold handleApi Api.handleApi
  simp only [apply_ite (Option.map told), told_guarded (told_runCall _),
    told_guarded (told_handleSitesRoute path query method),
    told_guarded (told_handleApiInner path query method body)]
  rfl

/-- The environment of the user API: how the write of the users file ends. -/
def userEnv (env : Env σ ρ) (m : State σ) (body : Bytes) : MultiUser.UserApiEnv :=
  let (username, domains) := env.user.parseUser body
  let created := m.site.registry.createUser env.user.id env.user.key username domains
    (ascii "/home/" ++ username) (.ok ())
  { env.user with
    persisted := (MultiUser.persist env.toml created.1 env.usersWrite m.site.disk).2 }

/-- What the user API without its state says of an answer: the bytes, and the registry. -/
def toldUsers (answer : State σ × Bytes) : Bytes × MultiUser.UserRegistry :=
  (answer.2, answer.1.site.registry)

theorem toldUsers_postUser
    (body : Bytes) :
    toldUsers (postUser env m body) =
      MultiUser.postUser (userEnv env m body) m.site.registry body := by
  unfold postUser MultiUser.postUser
  simp only [apply_ite toldUsers]
  refine if_congr Iff.rfl rfl (if_congr Iff.rfl rfl ?_)
  simp only [userEnv, MultiUser.Site.createUser, MultiUser.UserRegistry.createUser]
  cases (MultiUser.persist env.toml _ env.usersWrite m.site.disk).2 with
  | error e => rfl
  | ok done => rfl

/-- The user API answers what it answers without its state. -/
theorem toldUsers_handleUserApi
    (path method body apiKey : Bytes) (isAdmin : Bool) :
    (handleUserApi env m path method body apiKey isAdmin).map toldUsers =
      MultiUser.handleUserApi (userEnv env m body) m.site.registry path method body apiKey
        isAdmin := by
  unfold handleUserApi MultiUser.handleUserApi
  simp only [apply_ite (Option.map toldUsers)]
  refine if_congr Iff.rfl rfl (if_congr Iff.rfl rfl ?_)
  refine if_congr Iff.rfl (congrArg some (toldUsers_postUser body)) (if_congr Iff.rfl ?_ ?_)
  · unfold MultiUser.Site.deleteUser
    rcases m.site.registry.deleteUser _ with ⟨registry, deleted⟩
    cases deleted with
    | true => rfl
    | false => rfl
  · refine if_congr Iff.rfl ?_ rfl
    cases m.site.registry.byApiKey apiKey with
    | some user => rfl
    | none => rfl

end Refinement

section Mediation

variable {σ ρ : Type} {env : Env σ ρ} {m : State σ} {settings : ApiSettings}
variable {headers : Headers} {call : Call}

/-- The request carries the token of a session that is valid now. -/
def CarriesSession (sessions : SessionStore) (now : Nat) (headers : Headers) : Prop :=
  ∃ token expires, SessionCookie headers token ∧ sessions.lookup token = some expires ∧
    now < expires

/-- The first Authorization header bears the API key, and there is one. -/
def CarriesKey (apiKey : Bytes) (headers : Headers) : Prop :=
  apiKey ≠ [] ∧ ∃ text, getHeader headers (ascii "authorization") =
    some (ascii "Bearer " ++ text) ∧ Utf8.trim text = apiKey

/-- Two states that look alike to a client without authorization. -/
structure Alike (key : Bytes) (m other : State σ) : Prop where
  sessions : other.sessions = m.sessions
  rate : other.rate = m.rate
  account : other.site.registry.byApiKey key = m.site.registry.byApiKey key

theorem hasValidSession_iff_carries
    {base : ApiEnv} {sessions : SessionStore} :
    hasValidSession base sessions headers = true ↔
      CarriesSession sessions base.now headers := by
  unfold hasValidSession CarriesSession
  constructor
  · intro h
    split at h
    · cases h
    · rename_i token hcookie
      obtain ⟨expires, hlookup, hlt⟩ := (Option.any_eq_true _ _).mp h
      exact ⟨token, expires, getSessionToken_eq_some_iff.mp hcookie, hlookup, by simpa using hlt⟩
  · rintro ⟨token, expires, hcookie, hlookup, hlt⟩
    rw [getSessionToken_eq_some_iff.mpr hcookie]
    simpa [hlookup] using hlt

theorem isAuthorized_iff_carries
    {apiKey : Bytes} :
    isAuthorized headers apiKey = true ↔ CarriesKey apiKey headers := by
  unfold isAuthorized CarriesKey
  have hkey : (!apiKey.isEmpty) = true ↔ apiKey ≠ [] := by simp
  rw [Bool.and_eq_true, hkey, beq_iff_eq]
  refine and_congr_right fun hne => ?_
  have hempty : Utf8.trim [] ≠ apiKey := Ne.symm hne
  cases hheader : getHeader headers (ascii "authorization") with
  | none => simpa [stripPrefix, ascii] using hempty
  | some value =>
      cases hstrip : stripPrefix (ascii "Bearer ") value with
      | none =>
          constructor
          · intro h
            rw [Option.getD_some, hstrip] at h
            exact absurd h hempty
          · rintro ⟨text, htext, -⟩
            rw [stripPrefix_eq_some_iff.mpr (Option.some.inj htext)] at hstrip
            cases hstrip
      | some text =>
          rw [Option.getD_some, hstrip, Option.getD_some]
          constructor
          · intro h
            exact ⟨text, congrArg some (stripPrefix_eq_some_iff.mp hstrip), h⟩
          · rintro ⟨other, hother, htrim⟩
            rw [stripPrefix_eq_some_iff.mpr (Option.some.inj hother)] at hstrip
            rw [← Option.some.inj hstrip]
            exact htrim

/-- Both APIs take the same requests for the administrator's. -/
theorem isAdmin_eq
    (settings : ApiSettings) (headers : Headers) :
    isAdmin settings headers = isAuthorized headers settings.apiKey := by
  unfold isAdmin isAuthorized bearerToken
  cases getHeader headers (ascii "authorization") with
  | none => rfl
  | some value =>
      rw [Option.bind_some, Option.getD_some]
      cases stripPrefix (ascii "Bearer ") value with
      | none => rfl
      | some text => rfl

/-- An operation that a client without authorization may see and use. -/
structure Inert (key : Bytes) (m : State σ) (f : State σ → Option (State σ × Bytes)) : Prop where
  kept : ∀ after bytes, f m = some (after, bytes) →
    after = { m with sessions := after.sessions, rate := after.rate }
  hidden : ∀ other, Alike key m other → (f other).map Prod.snd = (f m).map Prod.snd

/-- Two operations between which a condition decides that looks the same in both states. -/
theorem Inert.ite
    {key : Bytes} {p : State σ → Prop} [DecidablePred p]
    {f g : State σ → Option (State σ × Bytes)}
    (hp : ∀ other, Alike key m other → (p other ↔ p m))
    (hf : p m → Inert key m f) (hg : ¬ p m → Inert key m g) :
    Inert key m fun m => if p m then f m else g m := by
  by_cases hm : p m
  · refine ⟨?_, ?_⟩
    · intro after bytes h
      exact (hf hm).kept after bytes (by rwa [if_pos hm] at h)
    · intro other hother
      rw [if_pos hm, if_pos ((hp other hother).mpr hm)]
      exact (hf hm).hidden other hother
  · refine ⟨?_, ?_⟩
    · intro after bytes h
      exact (hg hm).kept after bytes (by rwa [if_neg hm] at h)
    · intro other hother
      rw [if_neg hm, if_neg fun h => hm ((hp other hother).mp h)]
      exact (hg hm).hidden other hother

/-- An answer that reads nothing but the environment, and changes nothing. -/
theorem Inert.const
    (key : Bytes) (m : State σ) (bytes : Bytes) :
    Inert key m fun m => some (m, bytes) := by
  refine ⟨?_, fun _ _ => rfl⟩
  intro after other h
  cases h
  rfl

theorem Inert.none
    (key : Bytes) (m : State σ) :
    Inert key m fun _ => Option.none := by
  refine ⟨?_, fun _ _ => rfl⟩
  intro after bytes h
  cases h

/-- The user API without the API key: a client sees the account whose key it has. -/
theorem handleUserApi_inert
    (env : Env σ ρ) (m : State σ) (path method body apiKey : Bytes) :
    Inert apiKey m fun m => handleUserApi env m path method body apiKey false := by
  unfold handleUserApi
  refine Inert.ite (fun _ _ => Iff.rfl) (fun _ => .none _ _) fun _ => ?_
  refine Inert.ite (fun _ _ => Iff.rfl) (fun h => absurd h.2.2 Bool.false_ne_true) fun _ => ?_
  refine Inert.ite (fun _ _ => Iff.rfl) (fun h => absurd h.2.2 Bool.false_ne_true) fun _ => ?_
  refine Inert.ite (fun _ _ => Iff.rfl) (fun h => absurd h.2.2 Bool.false_ne_true) fun _ => ?_
  refine Inert.ite (fun _ _ => Iff.rfl) (fun _ => ⟨?_, ?_⟩) fun _ => .none _ _
  · intro after bytes h
    split at h
    · cases h
      rfl
    · cases h
      rfl
  · intro other hother
    rw [hother.account]
    split
    · rfl
    · rfl

/-- What a request without authorization gets at a guarded route. -/
theorem guarded_inert
    {f : State σ → State σ × Bytes} {key : Bytes}
    (hsession : hasValidSession env.base m.sessions headers = false)
    (hkey : isAuthorized headers settings.apiKey = false) :
    Inert key m fun m => guarded env m settings headers (f m) := by
  have hguarded : ∀ other : State σ, other.sessions = m.sessions →
      guarded env other settings headers (f other) = some (other, jsonUnauthorized) := by
    intro other hother
    have hauth : authorized env other settings headers = false := by
      rw [authorized, hother, hsession, hkey]
      rfl
    unfold guarded
    rw [hauth]
    rfl
  refine ⟨?_, ?_⟩
  · intro after bytes h
    rw [hguarded m rfl] at h
    cases h
    rfl
  · intro other hother
    rw [hguarded m rfl, hguarded other hother.sessions]
    rfl

/-- The management API without a valid session and without the API key. -/
theorem handleApi_inert
    (key : Bytes)
    (hsession : hasValidSession env.base m.sessions call.headers = false)
    (hkey : isAuthorized call.headers settings.apiKey = false) :
    Inert key m fun m => handleApi env m settings call := by
  have hguarded : ∀ f : State σ → State σ × Bytes,
      Inert key m fun m => guarded env m settings call.headers (f m) :=
    fun f => guarded_inert hsession hkey
  obtain ⟨path, query, method, headers, body⟩ := call
  unfold handleApi
  refine Inert.ite (fun _ _ => Iff.rfl) (fun _ => .const _ _ _) fun _ => ?_
  refine Inert.ite (fun _ _ => Iff.rfl) (fun _ => .const _ _ _) fun _ => ?_
  refine Inert.ite (fun _ _ => Iff.rfl) (fun _ => .const _ _ _) fun _ => ?_
  refine Inert.ite (fun _ _ => Iff.rfl) (fun _ => ?_) fun _ => ?_
  · refine Inert.ite (fun other hother => by rw [hother.rate]) (fun _ => ?_) fun _ => ?_
    · refine ⟨?_, fun _ _ => rfl⟩
      intro after bytes h
      cases h
      rfl
    · refine ⟨?_, ?_⟩
      · intro after bytes h
        cases h
        rfl
      · intro other hother
        simp only [Option.map_some, hother.sessions]
  refine Inert.ite (fun _ _ => Iff.rfl) (fun _ => ⟨?_, ?_⟩) fun _ => ?_
  · intro after bytes h
    cases h
    rfl
  · intro other hother
    simp only [Option.map_some, hother.sessions]
  refine Inert.ite (fun _ _ => Iff.rfl) (fun _ => ?_) fun _ => ?_
  · refine Inert.ite (fun other hother => by rw [hother.sessions]) ?_ ?_
    · exact fun _ => .const _ _ _
    · exact fun _ => .const _ _ _
  refine Inert.ite (fun _ _ => Iff.rfl) (fun _ => hguarded _) fun _ => ?_
  refine Inert.ite (fun _ _ => Iff.rfl) (fun _ => hguarded _) fun _ => ?_
  refine Inert.ite (fun _ _ => Iff.rfl) (fun _ => hguarded _) fun _ => ?_
  refine Inert.ite (fun _ _ => Iff.rfl) (fun _ => hguarded _) fun _ => ?_
  refine Inert.ite (fun _ _ => Iff.rfl) (fun _ => hguarded _) fun _ => ?_
  exact .none _ _

/-- One operation, and another one where the first does not answer. -/
theorem Inert.or
    {key : Bytes} {f g : State σ → Option (State σ × Bytes)}
    (hf : Inert key m f) (hg : Inert key m g) :
    Inert key m fun m => (f m).or (g m) := by
  refine ⟨?_, ?_⟩
  · intro after bytes h
    rcases Option.or_eq_some_iff.mp h with h | ⟨_, h⟩
    · exact hf.kept after bytes h
    · exact hg.kept after bytes h
  · intro other hother
    rw [Option.map_or, Option.map_or, hf.hidden other hother, hg.hidden other hother]

/--
A request without authorization changes no account, file, site or backup and sends no
reload message, and its answer does not depend on them, but for its own account.
-/
theorem unauthenticated_inert
    (env : Env σ ρ) (settings : ApiSettings) (call : Call) (m : State σ)
    (hsession : ¬ CarriesSession m.sessions env.base.now call.headers)
    (hkey : ¬ CarriesKey settings.apiKey call.headers) :
    (∀ after bytes, handle env settings call m = some (after, bytes) →
      after = { m with sessions := after.sessions, rate := after.rate }) ∧
    ∀ other, Alike (bearerToken call.headers) m other →
      (handle env settings call other).map Prod.snd =
        (handle env settings call m).map Prod.snd := by
  have hvalid : hasValidSession env.base m.sessions call.headers = false :=
    Bool.eq_false_iff.mpr fun h => hsession (hasValidSession_iff_carries.mp h)
  have hauth : isAuthorized call.headers settings.apiKey = false :=
    Bool.eq_false_iff.mpr fun h => hkey (isAuthorized_iff_carries.mp h)
  have hadmin : isAdmin settings call.headers = false := (isAdmin_eq _ _).trans hauth
  have hinert : Inert (bearerToken call.headers) m fun m => handle env settings call m := by
    unfold handle
    rw [hadmin]
    exact (handleUserApi_inert env m _ _ _ _).or (handleApi_inert _ hvalid hauth)
  exact ⟨hinert.kept, hinert.hidden⟩

end Mediation

section Example

/-- A machine whose hosted sites are a list of domains; nothing can be restored or written. -/
def exampleEnv : Env (List Bytes) Bytes where
  base := Api.exampleEnv 0 []
  nowSec := 0
  peerIp := .v4 ⟨203, 0, 113, 9⟩
  toml := ⟨fun _ => .error [], fun _ => none⟩
  user := ⟨[], [], .error [], fun _ => ([], []), fun _ => [], fun _ => [], fun _ => []⟩
  usersWrite := .done
  stats := []
  system := []
  logs := List.flatten
  backup := ⟨0, fun _ => none, .ok (), [], .done, .done⟩
  backupList := fun backups => backups.keys.flatten
  restore := ⟨fun _ => .ok none, [], .done, .done⟩
  removal := .done
  parseSite := .ok
  createSite := fun domain sites => (domain :: sites, ⟨true, false, []⟩)
  deleteSite := fun domain _ sites => (sites.erase domain, ⟨true, false, []⟩)
  siteList := List.flatten
  phpVersions := []

/-- A state with these hosted sites, and nothing else. -/
def hosting (sites : List Bytes) : State (List Bytes) where
  site := ⟨.empty, ⟨none, none, ∅⟩⟩
  hosted := sites
  sessions := ∅
  rate := ⟨∅, 30⟩
  logRing := []
  reloads := 0

/-- A request for the list of sites, with these headers. -/
def listSites (headers : Headers) : Call :=
  ⟨ascii "/api/sites", [], ascii "GET", headers, []⟩

/-- Without authorization the list of sites is neither touched nor told. -/
theorem unauthenticated_inert_example :
    (handle exampleEnv ⟨ascii "key", [], []⟩ (listSites []) (hosting [ascii "a.org"])).map
        Prod.snd =
      (handle exampleEnv ⟨ascii "key", [], []⟩ (listSites []) (hosting [])).map Prod.snd := by
  refine (unauthenticated_inert exampleEnv ⟨ascii "key", [], []⟩ (listSites []) (hosting [])
    ?_ ?_).2 (hosting [ascii "a.org"]) ⟨rfl, rfl, rfl⟩
  · rintro ⟨token, expires, -, hlookup, -⟩
    cases hlookup
  · rintro ⟨-, text, htext, -⟩
    cases htext

end Example

end Management
end RunNginx
