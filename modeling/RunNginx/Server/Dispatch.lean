import RunNginx.Lib.EarlyReturn
import RunNginx.Server.Handler

/-!
# How a dispatch ends

One inversion lemma for each group of stages: `dispatch_leaves` says in which group
the dispatch was left, `preRoute_error`, `route_error` and `gates_error` in which
stage of the group.  Later modules argue from these cases and do not unfold the
dispatcher.
-/

namespace RunNginx
namespace Handler

open ByteString EarlyReturn

section

variable {ctx : Context} {env : Env}

/-- A request with the server and the location that handle it. -/
abbrev Routed := ServerBlock × Option LocationBlock × ParsedRequest

variable (ctx env) in
/-- The groups of stages in which a dispatch can end with `o`. -/
inductive Leaves (st : ServerState) (raw : Bytes) (o : Outcome) : Prop
  | preRoute
      (h : preRoute ctx env st raw = .error o)
  | route
      {st' : ServerState} {req : ParsedRequest}
      (hpre : Handler.preRoute ctx env st raw = .ok (st', req))
      (h : route ctx env st' req = .error o)
  | gates
      {st' : ServerState} {req : ParsedRequest}
      {server : ServerBlock} {location : Option LocationBlock} {routed : ParsedRequest}
      (hpre : Handler.preRoute ctx env st raw = .ok (st', req))
      (hroute : Handler.route ctx env st' req = .ok (server, location, routed))
      (h : gates ctx env st' server location routed = .error o)
  | handler
      {st' : ServerState} {req : ParsedRequest}
      {server : ServerBlock} {location : Option LocationBlock} {routed : ParsedRequest}
      (hpre : Handler.preRoute ctx env st raw = .ok (st', req))
      (hroute : Handler.route ctx env st' req = .ok (server, location, routed))
      (hgates : Handler.gates ctx env st' server location routed = .ok ())
      (h : handlerStage env st' server location routed = .error o)
  | finish
      {st' : ServerState} {req : ParsedRequest}
      {server : ServerBlock} {location : Option LocationBlock} {routed : ParsedRequest}
      {resp : StaticFiles.StaticResponse} {effects : List Effect}
      (hpre : Handler.preRoute ctx env st raw = .ok (st', req))
      (hroute : Handler.route ctx env st' req = .ok (server, location, routed))
      (hgates : Handler.gates ctx env st' server location routed = .ok ())
      (hhandler : handlerStage env st' server location routed = .ok (resp, effects))
      (h : o = Handler.finish ctx env st' server location routed resp effects)

theorem dispatch_leaves
    (ctx : Context) (env : Env) (st : ServerState) (raw : Bytes) :
    Leaves ctx env st raw (dispatch ctx env st raw) := by
  have hstages : ∀ o, stages ctx env st raw = .error o → Leaves ctx env st raw o := by
    intro o ho
    unfold stages at ho
    rcases bind_eq_error_iff.mp ho with h | ⟨⟨st', req⟩, hpre, ho⟩
    · exact .preRoute h
    rcases bind_eq_error_iff.mp ho with h | ⟨⟨server, location, routed⟩, hroute, ho⟩
    · exact .route hpre h
    rcases bind_eq_error_iff.mp ho with h | ⟨_, hgates, ho⟩
    · exact .gates hpre hroute h
    rcases bind_eq_error_iff.mp ho with h | ⟨⟨resp, effects⟩, _, ho⟩
    · exact .handler hpre hroute hgates h
    · cases ho
  unfold dispatch
  cases hst : stages ctx env st raw with
  | error o => exact hstages o hst
  | ok o =>
      unfold stages at hst
      obtain ⟨⟨st', req⟩, hpre, hst⟩ := bind_eq_ok_iff.mp hst
      obtain ⟨⟨server, location, routed⟩, hroute, hst⟩ := bind_eq_ok_iff.mp hst
      obtain ⟨_, hgates, hst⟩ := bind_eq_ok_iff.mp hst
      obtain ⟨⟨resp, effects⟩, hhandler, hst⟩ := bind_eq_ok_iff.mp hst
      exact .finish hpre hroute hgates hhandler (Except.ok.inj hst).symm

variable (ctx env) in
/-- The stages before routing in which a dispatch can end. -/
inductive LeavesEarly (st : ServerState) (raw : Bytes) (o : Outcome) : Prop
  | scan
      (h : scanStage env st = .error o)
  | parse
      (h : parseStage st raw = .error o)
  | cache
      {req : ParsedRequest}
      (hreq : parseStage st raw = .ok req)
      (h : cacheStage env st req raw.length = .error o)
  | challenge
      {req : ParsedRequest} {st' : ServerState}
      (hreq : parseStage st raw = .ok req)
      (hcache : cacheStage env st req raw.length = .ok st')
      (h : challengeStage env st' req = .error o)
  | userApi
      {req : ParsedRequest} {st' : ServerState}
      (hreq : parseStage st raw = .ok req)
      (hcache : cacheStage env st req raw.length = .ok st')
      (h : userApiStage ctx env st' req = .error o)
  | api
      {req : ParsedRequest} {st' : ServerState}
      (hreq : parseStage st raw = .ok req)
      (hcache : cacheStage env st req raw.length = .ok st')
      (h : apiStage ctx env st' req = .error o)

theorem preRoute_error
    {st : ServerState} {raw : Bytes} {o : Outcome}
    (h : preRoute ctx env st raw = .error o) :
    LeavesEarly ctx env st raw o := by
  unfold preRoute at h
  rcases bind_eq_error_iff.mp h with h | ⟨_, _, h⟩
  · exact .scan h
  rcases bind_eq_error_iff.mp h with h | ⟨req, hreq, h⟩
  · exact .parse h
  rcases bind_eq_error_iff.mp h with h | ⟨st', hcache, h⟩
  · exact .cache hreq h
  rcases bind_eq_error_iff.mp h with h | ⟨_, _, h⟩
  · exact .challenge hreq hcache h
  rcases bind_eq_error_iff.mp h with h | ⟨_, _, h⟩
  · exact .userApi hreq hcache h
  rcases bind_eq_error_iff.mp h with h | ⟨_, _, h⟩
  · exact .api hreq hcache h
  · cases h

/-- A request that goes on to routing has passed every stage before. -/
theorem preRoute_ok
    {st st' : ServerState} {raw : Bytes} {req : ParsedRequest}
    (h : preRoute ctx env st raw = .ok (st', req)) :
    scanStage env st = .ok () ∧ parseStage st raw = .ok req ∧
      cacheStage env st req raw.length = .ok st' ∧
      challengeStage env st' req = .ok () ∧
      userApiStage ctx env st' req = .ok () ∧
      apiStage ctx env st' req = .ok () := by
  unfold preRoute at h
  obtain ⟨_, hscan, h⟩ := bind_eq_ok_iff.mp h
  obtain ⟨r, hreq, h⟩ := bind_eq_ok_iff.mp h
  obtain ⟨s, hcache, h⟩ := bind_eq_ok_iff.mp h
  obtain ⟨_, hchallenge, h⟩ := bind_eq_ok_iff.mp h
  obtain ⟨_, huser, h⟩ := bind_eq_ok_iff.mp h
  obtain ⟨_, hapi, h⟩ := bind_eq_ok_iff.mp h
  obtain ⟨rfl, rfl⟩ := Prod.mk.inj (Except.ok.inj h)
  exact ⟨hscan, hreq, hcache, hchallenge, huser, hapi⟩

/-- The stages of the routing in which a dispatch can end. -/
theorem route_error
    {st : ServerState} {req : ParsedRequest} {o : Outcome}
    (h : route ctx env st req = .error o) :
    sslStage env st (serverFor ctx req) req = .error o ∨
      rewriteStage ctx env st (serverFor ctx req).rewrites req = .error o ∨
      ∃ rewritten,
        rewriteStage ctx env st (serverFor ctx req).rewrites req = .ok rewritten ∧
        rewriteStage ctx env st
          (((Router.selectLocation (serverFor ctx req) rewritten.path).map
            LocationBlock.rewrites).getD []) rewritten = .error o := by
  unfold route at h
  rcases bind_eq_error_iff.mp h with h | ⟨_, _, h⟩
  · exact Or.inl h
  rcases bind_eq_error_iff.mp h with h | ⟨rewritten, hrewritten, h⟩
  · exact Or.inr (Or.inl h)
  rcases bind_eq_error_iff.mp h with h | ⟨_, _, h⟩
  · exact Or.inr (Or.inr ⟨rewritten, hrewritten, h⟩)
  · cases h

/--
The location is selected for the path that the rules of the server leave; the request
is handled under the path that the rules of the location leave.
-/
theorem route_ok
    {st : ServerState} {req routed : ParsedRequest}
    {server : ServerBlock} {location : Option LocationBlock}
    (h : route ctx env st req = .ok (server, location, routed)) :
    server = serverFor ctx req ∧
      ∃ rewritten,
        rewriteStage ctx env st server.rewrites req = .ok rewritten ∧
        location = Router.selectLocation server rewritten.path ∧
        rewriteStage ctx env st ((location.map LocationBlock.rewrites).getD []) rewritten =
          .ok routed := by
  unfold route at h
  obtain ⟨_, _, h⟩ := bind_eq_ok_iff.mp h
  obtain ⟨rewritten, hrewritten, h⟩ := bind_eq_ok_iff.mp h
  obtain ⟨final, hfinal, h⟩ := bind_eq_ok_iff.mp h
  obtain ⟨rfl, hrest⟩ := Prod.mk.inj (Except.ok.inj h)
  obtain ⟨rfl, rfl⟩ := Prod.mk.inj hrest
  exact ⟨rfl, rewritten, hrewritten, rfl, hfinal⟩

/-- A rewrite changes nothing of a request but its path. -/
theorem rewriteStage_ok
    {st : ServerState} {rules : List RewriteRule} {req rewritten : ParsedRequest}
    (h : rewriteStage ctx env st rules req = .ok rewritten) :
    rewritten = { req with path := rewritten.path } ∧
      (Rewrite.applyRewrites ctx.lib rules req.path = .noMatch ∧ rewritten.path = req.path ∨
        ∃ stop, Rewrite.applyRewrites ctx.lib rules req.path =
          .rewritten rewritten.path stop) := by
  unfold rewriteStage at h
  split at h
  · cases h
  · rename_i uri stop happly
    rw [← Except.ok.inj h]
    exact ⟨rfl, Or.inr ⟨stop, happly⟩⟩
  · rename_i happly
    rw [← Except.ok.inj h]
    exact ⟨rfl, Or.inl ⟨happly, rfl⟩⟩

section Gates

variable {st : ServerState} {server : ServerBlock} {location : Option LocationBlock}
variable {req : ParsedRequest} {o : Outcome}

theorem gates_error
    (h : gates ctx env st server location req = .error o) :
    authStage env st server location req = .error o ∨
      limitStage env st server location req = .error o ∨
      bodyStage ctx env st server location req = .error o ∨
      (authStage env st server location req = .ok () ∧
        returnStage env st server location req = .error o) := by
  unfold gates at h
  rcases bind_eq_error_iff.mp h with h | ⟨_, hauth, h⟩
  · exact Or.inl h
  rcases bind_eq_error_iff.mp h with h | ⟨_, _, h⟩
  · exact Or.inr (Or.inl h)
  rcases bind_eq_error_iff.mp h with h | ⟨_, _, h⟩
  · exact Or.inr (Or.inr (Or.inl h))
  · exact Or.inr (Or.inr (Or.inr ⟨hauth, h⟩))

theorem gates_ok
    (h : gates ctx env st server location req = .ok ()) :
    authStage env st server location req = .ok () ∧
      limitStage env st server location req = .ok () ∧
      bodyStage ctx env st server location req = .ok () ∧
      returnStage env st server location req = .ok () := by
  unfold gates at h
  obtain ⟨_, hauth, h⟩ := bind_eq_ok_iff.mp h
  obtain ⟨_, hlimit, h⟩ := bind_eq_ok_iff.mp h
  obtain ⟨_, hbody, h⟩ := bind_eq_ok_iff.mp h
  exact ⟨hauth, hlimit, hbody, h⟩

end Gates

section Handled

/-- The effect involves a backend. -/
def Effect.isBackend : Effect → Bool
  | .net _ | .connectGroup _ | .fastcgi _ _ => true
  | _ => false

variable (ctx env) in
/-- The request gets to the handler of its location, which sees it as `routed`. -/
def Handled (st : ServerState) (raw : Bytes)
    (server : ServerBlock) (location : Option LocationBlock) (routed : ParsedRequest) : Prop :=
  ∃ st' req, preRoute ctx env st raw = .ok (st', req) ∧
    route ctx env st' req = .ok (server, location, routed) ∧
    gates ctx env st' server location routed = .ok ()

/-- What a handler has done, whether it ends the dispatch or not. -/
def handlerEffects : Stage (StaticFiles.StaticResponse × List Effect) → List Effect
  | .error o => o.effects
  | .ok (_, effects) => effects

/-- The handlers that answer through the last exit, with what they answer and do. -/
inductive Responds (env : Env) (server : ServerBlock) (location : Option LocationBlock)
    (req : ParsedRequest) : StaticFiles.StaticResponse → List Effect → Prop
  | static
      (h : location.map LocationBlock.handler = none ∨
        location.map LocationBlock.handler = some .static) :
      Responds env server location req
        (StaticFiles.staticHandler env.fs server location req.path req.method req.headers) []
  | proxy
      {pc : ProxyConfig}
      (h : location.map LocationBlock.handler = some (.proxy pc))
      (hws : isWsUpgrade req.headers = false) :
      Responds env server location req
        (Proxy.proxyRequest pc req.method req.path (locationPrefix location) req.headers []
          env.exchange).1
        ((Proxy.proxyRequest pc req.method req.path (locationPrefix location) req.headers []
          env.exchange).2.map .net)
  | upstreamGroup
      {group : Bytes}
      (h : location.map LocationBlock.handler = some (.upstreamGroup group)) :
      Responds env server location req (groupHandler env location group req).1
        (groupHandler env location group req).2
  | fastCgi
      {fc : FastCgiConfig}
      (h : location.map LocationBlock.handler = some (.fastCgi fc)) :
      Responds env server location req (fastCgiHandler env server location fc req).1
        (fastCgiHandler env server location fc req).2

/-- A `return` and an upgrade end the dispatch; every other handler answers. -/
theorem handlerStage_ok_iff
    {st : ServerState} {req : ParsedRequest} {resp : StaticFiles.StaticResponse}
    {effects : List Effect} {server : ServerBlock} {location : Option LocationBlock} :
    handlerStage env st server location req = .ok (resp, effects) ↔
      Responds env server location req resp effects := by
  constructor
  · intro h
    unfold handlerStage at h
    split at h
    · cases h
    · rename_i heq
      cases h
      exact .static (Or.inr heq)
    · rename_i heq
      cases h
      exact .static (Or.inl heq)
    · rename_i heq
      unfold proxyHandler at h
      split at h
      · unfold upgradeHandler at h
        split at h
        · cases h
        · cases h
      · rename_i hws
        cases h
        exact .proxy heq (Bool.eq_false_iff.mpr hws)
    · rename_i heq
      have hpair := Except.ok.inj h
      obtain rfl := congrArg Prod.fst hpair
      obtain rfl := congrArg Prod.snd hpair
      exact .upstreamGroup heq
    · rename_i heq
      have hpair := Except.ok.inj h
      obtain rfl := congrArg Prod.fst hpair
      obtain rfl := congrArg Prod.snd hpair
      exact .fastCgi heq
  · intro h
    unfold handlerStage
    cases h with
    | static h =>
        rcases h with h | h
        · rw [h]
        · rw [h]
    | proxy h hws =>
        rw [h]
        dsimp only
        rw [proxyHandler, hws]
        rfl
    | upstreamGroup h =>
        rw [h]
    | fastCgi h =>
        rw [h]

variable {st : ServerState} {raw : Bytes}
variable {server : ServerBlock} {location : Option LocationBlock} {routed : ParsedRequest}

/-- The dispatch goes on with the handler. -/
theorem dispatch_of_handled
    (h : Handled ctx env st raw server location routed) :
    ∃ st', dispatch ctx env st raw =
      match handlerStage env st' server location routed with
      | .error o => o
      | .ok (resp, effects) => finish ctx env st' server location routed resp effects := by
  obtain ⟨st', req, hpre, hroute, hgates⟩ := h
  refine ⟨st', ?_⟩
  have hstages : stages ctx env st raw =
      match handlerStage env st' server location routed with
      | .error o => .error o
      | .ok (resp, effects) =>
          .ok (finish ctx env st' server location routed resp effects) := by
    unfold stages
    simp only [hpre, hroute, hgates, bind, Except.bind]
    cases handlerStage env st' server location routed with
    | error o => rfl
    | ok r => rfl
  unfold dispatch
  rw [hstages]
  cases handlerStage env st' server location routed with
  | error o => rfl
  | ok r => rfl

/-- Backends hear of a request that is handled through its handler only. -/
theorem backend_effects_of_handled
    (h : Handled ctx env st raw server location routed) :
    ∃ st', ∀ e : Effect, e.isBackend = true →
      (e ∈ (dispatch ctx env st raw).effects ↔
        e ∈ handlerEffects (handlerStage env st' server location routed)) := by
  obtain ⟨st', hdispatch⟩ := dispatch_of_handled h
  refine ⟨st', ?_⟩
  intro e he
  rw [hdispatch]
  cases hstage : handlerStage env st' server location routed with
  | error o => rfl
  | ok r =>
      have hlog : ∀ protocol status len, e ≠ routed.logEntry env protocol status len := by
        rintro protocol status len rfl
        cases he
      have hscan : ∀ path status, e ≠ .scan path status := by
        rintro path status rfl
        cases he
      simp [handlerEffects, finish, hlog, hscan]

section Quiet

variable {req : ParsedRequest} {o : Outcome}

/-- Exits that only a handler takes. -/
def Exit.byHandler : Exit → Bool
  | .finished | .upgraded | .upgradeFailed => true
  | _ => false

/-- The dispatch was left in front of the handler, and no backend was involved. -/
def Quiet (o : Outcome) : Prop :=
  o.exit.byHandler = false ∧ ∀ e ∈ o.effects, e.isBackend = false

theorem answer_quiet
    {α : Type} {exit : Exit} {result : HandlerResult} {effects : List Effect}
    (hexit : exit.byHandler = false) (heffects : ∀ e ∈ effects, e.isBackend = false)
    (h : (answer exit st result effects : Stage α) = .error o) :
    Quiet o := by
  cases h
  exact ⟨hexit, heffects⟩

theorem log_quiet
    (req : ParsedRequest) (env : Env) (protocol : Bytes) (status len : Nat) :
    ∀ e ∈ [req.logEntry env protocol status len], e.isBackend = false := by
  simp [ParsedRequest.logEntry, Effect.isBackend]

/-- No stage before the routing has to do with a backend. -/
theorem early_quiet
    (h : LeavesEarly ctx env st raw o) :
    Quiet o := by
  cases h with
  | scan h =>
      unfold scanStage at h
      split at h
      · exact answer_quiet rfl (by simp) h
      · cases h
  | parse h =>
      unfold parseStage at h
      split at h
      · exact answer_quiet rfl (by simp) h
      split at h
      · exact answer_quiet rfl (by simp) h
      split at h
      · exact answer_quiet rfl (by simp) h
      · cases h
  | cache _ h =>
      unfold cacheStage at h
      split at h
      · split at h
        · exact answer_quiet rfl (by simp [Effect.isBackend]) h
        · cases h
      · cases h
  | challenge _ _ h =>
      unfold challengeStage at h
      split at h
      · exact answer_quiet rfl (by simp) h
      · cases h
  | userApi _ _ h =>
      unfold userApiStage at h
      dsimp only at h
      split at h
      · exact answer_quiet rfl (log_quiet _ _ _ _ _) h
      · cases h
  | api _ _ h =>
      unfold apiStage at h
      split at h
      · exact answer_quiet rfl (log_quiet _ _ _ _ _) h
      · cases h

theorem sslStage_quiet
    (h : sslStage env st server req = .error o) :
    Quiet o := by
  unfold sslStage at h
  split at h
  · exact answer_quiet rfl (log_quiet _ _ _ _ _) h
  · cases h

theorem rewriteStage_quiet
    {rules : List RewriteRule}
    (h : rewriteStage ctx env st rules req = .error o) :
    Quiet o := by
  unfold rewriteStage at h
  split at h
  · exact answer_quiet rfl (log_quiet _ _ _ _ _) h
  · cases h
  · cases h

/-- Nor has a gate. -/
theorem gates_quiet
    (h : gates ctx env st server location req = .error o) :
    Quiet o := by
  rcases gates_error h with h | h | h | ⟨_, h⟩
  · unfold authStage at h
    split at h
    · split at h
      · cases h
      · exact answer_quiet rfl (log_quiet _ _ _ _ _) h
    · cases h
  · unfold limitStage at h
    split at h
    · split at h
      · exact answer_quiet rfl (log_quiet _ _ _ _ _) h
      · cases h
    · cases h
  · unfold bodyStage at h
    split at h
    · exact answer_quiet rfl (log_quiet _ _ _ _ _) h
    · cases h
  · unfold returnStage at h
    split at h
    · exact answer_quiet rfl (log_quiet _ _ _ _ _) h
    · cases h

theorem serverFor_mem
    (ctx : Context) (req : ParsedRequest) :
    serverFor ctx req ∈ ctx.http.servers := by
  unfold serverFor
  cases h : Router.selectServer ctx.http.servers req.host with
  | none => exact List.head_mem _
  | some server => exact Router.selectServer_mem h

theorem Handled.configured
    (h : Handled ctx env st raw server location routed) :
    server ∈ ctx.http.servers ∧ ∀ loc ∈ location, loc ∈ server.locations := by
  obtain ⟨st', req, _, hroute, _⟩ := h
  obtain ⟨rfl, rewritten, _, hlocation, _⟩ := route_ok hroute
  refine ⟨serverFor_mem ctx req, ?_⟩
  intro loc hloc
  rw [hlocation] at hloc
  exact Router.selectLocation_mem hloc

theorem handled_or_quiet
    (ctx : Context) (env : Env) (st : ServerState) (raw : Bytes) :
    (∃ server location routed, Handled ctx env st raw server location routed) ∨
      Quiet (dispatch ctx env st raw) := by
  cases dispatch_leaves ctx env st raw with
  | preRoute h => exact Or.inr (early_quiet (preRoute_error h))
  | route _ h =>
      rcases route_error h with h | h | ⟨_, _, h⟩
      · exact Or.inr (sslStage_quiet h)
      · exact Or.inr (rewriteStage_quiet h)
      · exact Or.inr (rewriteStage_quiet h)
  | gates _ _ h => exact Or.inr (gates_quiet h)
  | handler hpre hroute hgates _ => exact Or.inl ⟨_, _, _, _, _, hpre, hroute, hgates⟩
  | finish hpre hroute hgates _ _ => exact Or.inl ⟨_, _, _, _, _, hpre, hroute, hgates⟩

/-- The handler sees the request as it was received, under the path that rewrites leave. -/
theorem Handled.received
    (h : Handled ctx env st raw server location routed) :
    ∃ req, parseStage st raw = .ok req ∧ routed = { req with path := routed.path } := by
  obtain ⟨st', req, hpre, hroute, _⟩ := h
  obtain ⟨_, hparse, _⟩ := preRoute_ok hpre
  obtain ⟨_, rewritten, hfirst, _, hsecond⟩ := route_ok hroute
  refine ⟨req, hparse, ?_⟩
  have h1 := (rewriteStage_ok hfirst).1
  have h2 := (rewriteStage_ok hsecond).1
  rw [h1] at h2
  exact h2

end Quiet

end Handled

end

section Example

/-- A configuration of one server, without libraries. -/
def contextOf (server : ServerBlock) : Context where
  lib := ⟨fun _ => none, fun _ => none, fun _ => none⟩
  http := { HttpBlock.default with servers := [server] }
  servers_ne_nil := by simp

/-- A state with no account and no session, and a cache of this lifetime and size. -/
def stateWithCache (ttlSecs maxSize : Nat) : ServerState where
  cache := .new ttlSecs maxSize
  users := .empty
  sessions := ∅

/-- A client on a plain connection to a server whose backends are all down. -/
def quietEnv (fs : StaticFiles.FileSystem) : Env where
  peer := ⟨.v4 ⟨203, 0, 113, 9⟩, 40000⟩
  isTls := false
  scanBlocked := false
  cacheNow := 0
  storeNow := 0
  challenge := fun _ => none
  users := ⟨[], [], .error [], fun _ => ([], []), fun _ => [], fun _ => [], fun _ => []⟩
  api := ⟨true, 0, 0, [], fun _ => none, [], [], [], fun _ => [], fun _ => (200, [])⟩
  fs := fs
  bcryptVerify := fun _ _ => false
  limitAllows := fun _ _ => none
  exchange := ⟨false, .failed [], .ok (), .failed [], []⟩
  connectGroup := fun _ => none
  fastcgi := fun _ _ _ => .error []
  gzip := fun _ => none
  brotli := fun _ => none

/-- A location that forwards to one upstream. -/
def proxyLocation (pc : ProxyConfig) : LocationBlock where
  pattern := .longestPrefix (ascii "/")
  handler := .proxy pc
  root := none
  index := none
  tryFiles := none
  addHeaders := []
  clientMaxBodySize := none
  returnDirective := none
  gzip := none
  limitReq := none
  rewrites := []
  authBasic := none

/-- An upstream of a private network that may be contacted. -/
def internalUpstream : ProxyConfig where
  upstream := ⟨ascii "http", some (.ipv4 ⟨10, 0, 0, 7⟩), none, ascii "/"⟩
  setHeaders := []
  readTimeout := 60
  connectTimeout := 10
  buffering := true
  http2 := false
  allowInternal := true

/-- Every step of an exchange succeeds; the upstream answers in these reads. -/
def workingExchange (reads : List ReadEvent) : Proxy.Exchange :=
  ⟨false, .done, .ok (), .done, reads⟩

/-- The client's view of a server whose upstream answers in these reads. -/
def workingEnv (reads : List ReadEvent) : Env :=
  { quietEnv StaticFiles.exampleFiles with exchange := workingExchange reads }

/-- A server with one location. -/
def serverWith (loc : LocationBlock) : ServerBlock :=
  { StaticFiles.serverAt (ascii "/srv") with locations := [loc] }

/-- A request that gets to a handler gets to the one of the only location. -/
theorem handled_serverWith
    {loc : LocationBlock} {env : Env} {st : ServerState} {raw : Bytes}
    (hrules : loc.rewrites = [])
    (hexit : (dispatch (contextOf (serverWith loc)) env st raw).exit.byHandler = true)
    (hlocation : (parseStage st raw).toOption.all
      (fun req => (Router.selectLocation (serverWith loc) req.path).isSome) = true) :
    ∃ req, Handled (contextOf (serverWith loc)) env st raw (serverWith loc) (some loc) req ∧
      parseStage st raw = .ok req := by
  rcases handled_or_quiet (contextOf (serverWith loc)) env st raw with
    ⟨server, location, routed, h⟩ | ⟨hquiet, _⟩
  · obtain ⟨st', req, hpre, hroute, hgates⟩ := h
    obtain ⟨_, hparse, _⟩ := preRoute_ok hpre
    obtain ⟨hserver, rewritten, hfirst, hselected, hsecond⟩ := route_ok hroute
    obtain rfl : server = serverWith loc := by
      rw [hserver]
      exact List.mem_singleton.mp (serverFor_mem (contextOf (serverWith loc)) req)
    obtain rfl : req = rewritten := Except.ok.inj hfirst
    rw [hparse] at hlocation
    obtain ⟨found, hfound⟩ := Option.isSome_iff_exists.mp hlocation
    obtain rfl : found = loc := List.mem_singleton.mp (Router.selectLocation_mem hfound)
    rw [hfound] at hselected
    subst hselected
    obtain rfl : req = routed := by
      rw [Option.map_some, hrules] at hsecond
      exact Except.ok.inj hsecond
    exact ⟨req, ⟨st', req, hpre, hroute, hgates⟩, hparse⟩
  · rw [hquiet] at hexit
    cases hexit

/-- A request head of these lines. -/
def requestOf (lines : List String) : Bytes :=
  joinLines (lines.map ascii) ++ crlf

end Example

end Handler
end RunNginx
