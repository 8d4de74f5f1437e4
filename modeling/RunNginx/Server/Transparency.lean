import RunNginx.Lib.HttpMessage
import RunNginx.Server.Dispatch

/-!
# What upstreams are sent

A request is forwarded transparently when the upstream gets the method, the forwarded
path with the query, and the body of the client.  `transparentRequest` is that
request for each of the three ways to a backend; the theorem says when it is the one
that is sent.
-/

namespace RunNginx
namespace Handler

open ByteString HttpMessage Proxy

section Builders

/-- A path differs from the path with a query. -/
theorem append_uriWithQuery
    (a path query rest rest' : Bytes) :
    a ++ (path ++ 32 :: rest) = a ++ (uriWithQuery path query ++ 32 :: rest') ↔
      query = [] ∧ rest = rest' := by
  unfold uriWithQuery
  by_cases hquery : query = []
  · simp [hquery]
  · rw [if_neg hquery, List.append_cancel_left_eq]
    have hmark : ascii "?" = [63] := by decide
    simp [hmark, hquery]

/-- The header lines of a forwarded request in front of its Content-Length. -/
def forwardedLines (cfg : ProxyConfig) (headers : Headers) : List Bytes :=
  (ascii "Host: " ++ cfg.upstream.hostStr.getD [] ++ ascii ":" ++
      Decimal.render (cfg.upstream.portOrKnownDefault.getD 80)) ::
    ((headers.filter fun h => !isNamed hopByHop h.1) ++ cfg.setHeaders ++
      forwardedFor cfg headers).map Response.headerLine

/-- The parts of a forwarded request: its first line, its header lines, its body. -/
theorem buildProxyRequest_eq
    (cfg : ProxyConfig) (method path : Bytes) (headers : Headers) (body : Bytes) :
    buildProxyRequest cfg method path headers body =
      (method ++ [32]) ++ (path ++ 32 :: (ascii "HTTP/1.1" ++ crlf ++
        joinLines (forwardedLines cfg headers) ++ ascii "Content-Length: " ++
          (Decimal.render body.length ++ crlf ++
            (ascii "Connection: keep-alive" ++ crlf ++ crlf ++ body)))) := by
  have hversion : ascii " HTTP/1.1" = 32 :: ascii "HTTP/1.1" := by decide
  unfold buildProxyRequest requestLines
  simp [forwardedLines, joinLines, hversion]

theorem crlfFree_render
    (n : Nat) :
    CrlfFree (Decimal.render n) := by
  apply crlfFree_of_not_mem
  intro h
  exact absurd (Decimal.isDigit_of_mem_render h) (by decide)

/-- Two forwarded requests agree exactly if there is no query and the bodies agree. -/
theorem buildProxyRequest_eq_iff
    (cfg : ProxyConfig) (method path query : Bytes) (headers : Headers) (sent body : Bytes) :
    buildProxyRequest cfg method path headers sent =
        buildProxyRequest cfg method (uriWithQuery path query) headers body ↔
      query = [] ∧ sent = body := by
  rw [buildProxyRequest_eq, buildProxyRequest_eq, append_uriWithQuery]
  refine and_congr_right fun _ => ?_
  rw [List.append_cancel_left_eq]
  constructor
  · intro h
    have hrest := (crlf_line_unique (crlfFree_render _) (crlfFree_render _) h).2
    exact List.append_cancel_left hrest
  · rintro rfl
    rfl

/-- An upgrade request carries neither the query nor the body. -/
theorem upgradeRequest_eq_iff
    (method path query : Bytes) (headers : Headers) (body : Bytes) :
    WebSocket.upgradeRequest method path headers =
        WebSocket.upgradeRequest method (uriWithQuery path query) headers ++ body ↔
      query = [] ∧ body = [] := by
  have heq : ∀ p, WebSocket.upgradeRequest method p headers =
      (method ++ [32]) ++ (p ++ 32 :: (ascii "HTTP/1.1" ++ crlf ++
        joinLines (WebSocket.upgradeLines headers) ++ crlf)) := by
    intro p
    have hversion : ascii " HTTP/1.1" = 32 :: ascii "HTTP/1.1" := by decide
    simp [WebSocket.upgradeRequest, joinLines, hversion]
  rw [heq, heq, List.append_assoc (method ++ [32]), List.append_assoc (uriWithQuery path query),
    List.cons_append, append_uriWithQuery]
  simp

end Builders

section Branches

variable (env : Env) (loc : LocationBlock) (req : ParsedRequest)

/-- The requests that forward everything: method, path with query, headers and body. -/
def transparentRequest (b : Bytes) : Prop :=
  match loc.handler with
  | .proxy pc =>
      if isWsUpgrade req.headers then
        b = WebSocket.upgradeRequest req.method (uriWithQuery req.path req.query) req.headers ++
          req.body
      else
        b = buildProxyRequest pc req.method
          (uriWithQuery (buildUpstreamPath pc req.path (locationPrefix (some loc))) req.query)
          req.headers req.body
  | .upstreamGroup group =>
      ∃ peer, env.connectGroup group = some (some peer) ∧
        b = buildProxyRequest (peerConfig peer) req.method
          (uriWithQuery
            (buildUpstreamPath (peerConfig peer) req.path (locationPrefix (some loc))) req.query)
          req.headers req.body
  | _ => False

/-- What a branch drops, the request does not have. -/
def NothingDropped : Prop :=
  match loc.handler with
  | .proxy _ => req.query = [] ∧ req.body = []
  | .upstreamGroup _ => req.query = []
  | _ => False

/-- A recipient of a forwarded request reads off what was put in. -/
theorem parseHead_buildProxyRequest
    {cfg : ProxyConfig} {method path : Bytes} {headers : Headers} {body : Bytes}
    (hlines : ∀ l ∈ requestLines cfg method path headers body.length, CrlfFree l ∧ l ≠ []) :
    ∃ fieldLines, parseHead (buildProxyRequest cfg method path headers body) =
        some ((method ++ 32 :: (path ++ ascii " HTTP/1.1")) :: fieldLines, body) ∧
      ascii "Content-Length: " ++ Decimal.render body.length ∈ fieldLines := by
  have hread := parseHead_joinLines (fun l hl => (hlines l hl).1) (fun l hl => (hlines l hl).2)
    body
  exact ⟨_, hread, by simp⟩

variable {ctx : Context} {env : Env} {st : ServerState} {raw b : Bytes}
variable {server : ServerBlock} {loc : LocationBlock} {req : ParsedRequest}

/-- What the exchange with an upstream sends. -/
theorem sent_proxyRequest
    {pc : ProxyConfig} {method path locPrefix : Bytes} {headers : Headers} {body : Bytes}
    (ex : Exchange)
    (h : .send b ∈ (proxyRequest pc method path locPrefix headers body ex).2) :
    b = buildProxyRequest pc method (buildUpstreamPath pc path locPrefix) headers body := by
  have hconnect : ∀ result events, getConnection pc ex = (result, events) →
      .send b ∉ events := by
    intro result events heq
    unfold getConnection at heq
    split at heq
    · obtain ⟨_, rfl⟩ := Prod.mk.inj heq
      simp
    · obtain ⟨_, rfl⟩ := Prod.mk.inj heq
      simp
  have hpool : ∀ resp, .send b ∉ returnToPool pc resp := by
    intro resp
    unfold returnToPool
    split <;> simp
  rw [proxyRequest, orBadGateway_snd] at h
  unfold doProxy at h
  split at h
  · simp at h
  split at h
  · rename_i hconn
    exact absurd h (hconnect _ _ hconn)
  · rename_i hconn
    simp only at h
    split at h
    · rename_i hsent
      have hone := congrArg Prod.snd hsent
      simp only [sendAndReceive] at hone
      rw [← hone] at h
      simpa [hconnect _ _ hconn] using h
    · rename_i hsent
      have hone := congrArg Prod.snd hsent
      simp only [sendAndReceive] at hone
      rw [← hone] at h
      simpa [hconnect _ _ hconn, hpool] using h

theorem sent_proxyRequestStream
    {pc : ProxyConfig} {method path locPrefix : Bytes} {headers : Headers} {body : Bytes}
    (ex : Exchange)
    (h : .send b ∈ (proxyRequestStream pc method path locPrefix headers body ex).2) :
    b = buildProxyRequest pc method (buildUpstreamPath pc path locPrefix) headers body := by
  rw [proxyRequestStream, orBadGateway_snd] at h
  simpa [doProxyStream, sendAndReceive] using h

/-- What an upgrade sends. -/
theorem sent_upgrade
    (addr : Bytes) {method path : Bytes} {headers : Headers} (ex : Exchange)
    (h : .send b ∈ (WebSocket.upgradeToWebsocket addr method path headers ex).2) :
    b = WebSocket.upgradeRequest method path headers := by
  rcases WebSocket.upgradeToWebsocket_events addr method path headers ex with heq | heq
  · simp [heq] at h
  · simpa [heq] using h

/-- A handler that sends `b` is a proxy or an upstream group, and `b` is its request. -/
theorem sent_handler
    (h : .net (.send b) ∈ handlerEffects (handlerStage env st server (some loc) req)) :
    (∃ pc, loc.handler = .proxy pc ∧
      if isWsUpgrade req.headers then
        b = WebSocket.upgradeRequest req.method req.path req.headers
      else
        b = buildProxyRequest pc req.method
          (buildUpstreamPath pc req.path (locationPrefix (some loc))) req.headers []) ∨
      ∃ group peer, loc.handler = .upstreamGroup group ∧
        env.connectGroup group = some (some peer) ∧
        b = buildProxyRequest (peerConfig peer) req.method
          (buildUpstreamPath (peerConfig peer) req.path (locationPrefix (some loc)))
          req.headers req.body := by
  have hlog : ∀ protocol status len,
      Effect.net (.send b) ≠ req.logEntry env protocol status len := by
    rintro protocol status len h
    cases h
  unfold handlerStage at h
  rw [Option.map_some] at h
  cases hhandler : loc.handler with
  | «return» rd =>
      simp [hhandler, handlerEffects, answerReturn, answer, ParsedRequest.logRequest, hlog] at h
  | static => simp [hhandler, handlerEffects] at h
  | fastCgi fc => simp [hhandler, handlerEffects, fastCgiHandler] at h
  | proxy pc =>
      refine Or.inl ⟨pc, rfl, ?_⟩
      simp only [hhandler, proxyHandler] at h
      by_cases hws : isWsUpgrade req.headers = true
      · rw [if_pos hws] at h ⊢
        apply sent_upgrade (upstreamAddr pc) env.exchange
        unfold upgradeHandler at h
        split at h
        · rename_i hup
          rw [hup]
          simpa [handlerEffects, answer, hlog] using h
        · rename_i hup
          rw [hup]
          simpa [handlerEffects, answer] using h
      · rw [if_neg hws] at h ⊢
        apply sent_proxyRequest env.exchange
        simpa [handlerEffects] using h
  | upstreamGroup group =>
      simp only [hhandler, handlerEffects, groupHandler] at h
      split at h
      · rename_i peer hpeer
        refine Or.inr ⟨group, peer, rfl, hpeer, ?_⟩
        apply sent_proxyRequestStream env.exchange
        simpa using h
      · simp at h
      · simp at h

theorem transparentRequest_iff
    (h : .net (.send b) ∈ handlerEffects (handlerStage env st server (some loc) req)) :
    transparentRequest env loc req b ↔ NothingDropped loc req := by
  rcases sent_handler h with ⟨pc, hhandler, hb⟩ | ⟨group, peer, hhandler, hpeer, hb⟩
  · simp only [transparentRequest, NothingDropped, hhandler]
    by_cases hws : isWsUpgrade req.headers = true
    · rw [if_pos hws] at hb ⊢
      rw [hb, upgradeRequest_eq_iff]
    · rw [if_neg hws] at hb ⊢
      rw [hb, buildProxyRequest_eq_iff, eq_comm (a := [])]
  · simp only [transparentRequest, NothingDropped, hhandler, hpeer]
    rw [hb]
    simp [buildProxyRequest_eq_iff]

end Branches

section Example

/-- The requests among some effects. -/
def sentRequests (effects : List Effect) : List Bytes :=
  effects.filterMap fun e =>
    match e with
    | .net (.send b) => some b
    | _ => none

theorem mem_sentRequests
    {effects : List Effect} {b : Bytes} :
    b ∈ sentRequests effects ↔ .net (.send b) ∈ effects := by
  unfold sentRequests
  rw [List.mem_filterMap]
  constructor
  · rintro ⟨e, he, hb⟩
    split at hb
    · cases hb
      exact he
    · cases hb
  · exact fun h => ⟨_, h, rfl⟩

/-- A forwarding server answers; its upstream hears of it. -/
def proxied (lines : List String) : Outcome :=
  dispatch (contextOf (serverWith (proxyLocation internalUpstream))) (workingEnv [])
    (stateWithCache 0 0) (requestOf lines)

/-- The request of `proxied`, as the handler sees it, comes with these parts. -/
def ReceivedWith (query body : Bytes) (lines : List String) : Prop :=
  ∃ req b,
    Handled (contextOf (serverWith (proxyLocation internalUpstream))) (workingEnv [])
      (stateWithCache 0 0) (requestOf lines) (serverWith (proxyLocation internalUpstream))
      (some (proxyLocation internalUpstream)) req ∧
    .net (.send b) ∈ (proxied lines).effects ∧ req.query = query ∧ req.body = body

theorem receivedWith
    (query body : Bytes) (lines : List String)
    (hexit : (proxied lines).exit.byHandler = true)
    (hone : (sentRequests (proxied lines).effects).length = 1)
    (hlocation : (parseStage (stateWithCache 0 0) (requestOf lines)).toOption.all
      (fun r => (Router.selectLocation (serverWith (proxyLocation internalUpstream))
        r.path).isSome) = true)
    (hparts : (parseStage (stateWithCache 0 0) (requestOf lines)).toOption.all
      (fun r => r.query == query && r.body == body) = true) :
    ReceivedWith query body lines := by
  obtain ⟨b, hb⟩ := List.exists_mem_of_length_pos (by rw [hone]; decide)
  obtain ⟨req, hhandled, hparse⟩ := handled_serverWith rfl hexit hlocation
  rw [hparse] at hparts
  exact ⟨req, b, hhandled, mem_sentRequests.mp hb, by
    simpa [Except.toOption] using hparts⟩

end Example

end Handler
end RunNginx
