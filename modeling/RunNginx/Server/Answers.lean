import RunNginx.Lib.HttpMessage
import RunNginx.Server.Exits

/-!
# What is written at each exit

`Takes` has one rule for every exit of the dispatcher, with the message that is written
there: its first line, its header fields one by one, its body.  Bytes that the dispatcher
hands on as they are, from the cache, an API or an upstream that switches protocols, stand
as they are.

`Takes.written`: these are the bytes of the answer, and every request takes an exit.
-/

namespace RunNginx
namespace Handler

open ByteString HttpMessage StaticFiles

/-- A message as it is written: its first line, its header fields, its body. -/
structure Message where
  startLine : Bytes
  fields : Headers
  body : Bytes

namespace Message

/-- The lines of the head. -/
def lines (m : Message) : List Bytes :=
  m.startLine :: m.fields.map Response.headerLine

def bytes (m : Message) : Bytes :=
  joinLines m.lines ++ crlf ++ m.body

end Message

/-- What is written: a message, or bytes that are handed on. -/
inductive Written
  | message (m : Message)
  | verbatim (bytes : Bytes)

namespace Written

def bytes : Written → Bytes
  | .message m => m.bytes
  | .verbatim bytes => bytes

/-- The field lines: those that are written, or those that a recipient reads. -/
def fieldLines : Written → List Bytes
  | .message m => m.fields.map Response.headerLine
  | .verbatim bytes =>
      match parseHead bytes with
      | some (_ :: lines, _) => lines
      | _ => []

end Written

section Messages

/-- A serialized response, field by field. -/
def replyMessage (status : Nat) (hdrs : Headers) (keepAlive : Bool) (body : Bytes) : Message where
  startLine := ascii "HTTP/1.1 " ++ Decimal.render status ++ ascii " " ++
    Response.statusReason status
  fields := (ascii "Server", ascii "RunNginx/" ++ pkgVersion) ::
    (hdrs ++ [(ascii "Connection", if keepAlive then ascii "keep-alive" else ascii "close")])
  body := body

theorem replyMessage_bytes
    (status : Nat) (hdrs : Headers) (keepAlive : Bool) (body : Bytes) :
    (replyMessage status hdrs keepAlive body).bytes =
      Response.formatResponse status hdrs keepAlive body := by
  have hlines : (replyMessage status hdrs keepAlive body).lines =
      Response.headLines status hdrs keepAlive := by
    unfold Message.lines Response.headLines replyMessage
    rw [List.map_cons, List.map_append, List.map_singleton]
    cases keepAlive <;> rfl
  unfold Message.bytes Response.formatResponse
  rw [hlines]
  rfl

/-- The challenge that is sent to a request without credentials. -/
def realmChallenge (realm : Bytes) : Bytes :=
  ascii "Basic realm=\"" ++ replace [34] (ascii "\\\"") realm ++ ascii "\""

def unauthorizedMessage (realm : Bytes) : Message where
  startLine := ascii "HTTP/1.1 401 Unauthorized"
  fields :=
    [(ascii "WWW-Authenticate", realmChallenge realm),
      (ascii "Content-Length", Decimal.render (ascii "401 Unauthorized").length),
      (ascii "Content-Type", ascii "text/plain"),
      (ascii "Connection", ascii "keep-alive")]
  body := ascii "401 Unauthorized"

theorem unauthorizedMessage_bytes
    (realm : Bytes) :
    (unauthorizedMessage realm).bytes = Auth.unauthorizedResponse realm := by
  rfl

/-- The body of a `return` directive. -/
def returnBody (rd : ReturnDirective) : Bytes :=
  match rd.body with
  | .text t => t
  | _ => []

/-- The headers of a `return` directive. -/
def returnHeaders (rd : ReturnDirective) : Headers :=
  (ascii "Content-Length", Decimal.render (returnBody rd).length) ::
    (match rd.body with
      | .url u => [(ascii "Location", u)]
      | _ => []) ++
    (if returnBody rd = [] then [] else [(ascii "Content-Type", ascii "text/plain")])

theorem handleReturn_bytes
    (rd : ReturnDirective) (keepAlive : Bool) :
    (handleReturn rd keepAlive).bytes =
      (replyMessage rd.status (returnHeaders rd) keepAlive (returnBody rd)).bytes := by
  rw [replyMessage_bytes]
  unfold handleReturn returnHeaders returnBody
  cases rd.body with
  | empty => rfl
  | text t => rfl
  | url u => rfl

def blockedMessage : Message :=
  replyMessage 429
    [(ascii "Content-Length", Decimal.render (ascii "Too Many Requests").length),
      (ascii "Retry-After", ascii "3600"),
      (ascii "Content-Type", ascii "text/plain")] false (ascii "Too Many Requests")

def badRequestMessage (reason : Bytes) : Message :=
  let body := ascii "Bad Request: " ++ reason ++ crlf
  replyMessage 400
    [(ascii "Content-Type", ascii "text/plain"),
      (ascii "Content-Length", Decimal.render body.length)] false body

def challengeMessage (body : Bytes) : Message :=
  replyMessage 200
    [(ascii "Content-Type", ascii "application/octet-stream"),
      (ascii "Content-Length", Decimal.render body.length)] false body

def redirectMessage (status : Nat) (location : Bytes) (keepAlive : Bool) : Message :=
  replyMessage status [(ascii "Location", location), (ascii "Content-Length", ascii "0")]
    keepAlive []

def limitedMessage : Message :=
  replyMessage 429
    [(ascii "Content-Type", ascii "text/plain"), (ascii "Content-Length", ascii "19"),
      (ascii "Retry-After", ascii "1")] false (ascii "429 Too Many Requests")

def tooLargeMessage (keepAlive : Bool) : Message :=
  replyMessage 413
    [(ascii "Content-Type", ascii "text/plain"), (ascii "Content-Length", ascii "22")] keepAlive
    (ascii "413 Content Too Large")

def upgradeFailedMessage : Message :=
  replyMessage 502 [(ascii "Content-Length", ascii "0")] false []

end Messages

/-- The exits behind the selection of the server, with what they answer with. -/
inductive RoutedAnswer
  | sslRedirect (req : ParsedRequest)
  | rewriteRedirect (uri : Bytes) (status : Nat) (keepAlive : Bool)
  | unauthorized (realm : Bytes)
  | limited
  | tooLarge (keepAlive : Bool)
  | returned (rd : ReturnDirective) (keepAlive : Bool)
  | upgraded (bytes : Bytes)
  | upgradeFailed
  | finished (location : Option LocationBlock) (req : ParsedRequest) (resp : StaticResponse)

/-- The exits of the dispatcher, with what they answer with. -/
inductive Answer
  | blocked
  | badRequest (reason : Bytes)
  | cached (bytes : Bytes)
  | challenge (body : Bytes)
  | userApi (bytes : Bytes)
  | api (bytes : Bytes)
  | routed (server : ServerBlock) (answer : RoutedAnswer)

section Rules

variable (ctx : Context) (env : Env) (st : ServerState) (raw : Bytes)

/-- The message of the answer of a handler. -/
def finishedMessage (server : ServerBlock) (location : Option LocationBlock)
    (req : ParsedRequest) (resp : StaticResponse) : Message :=
  replyMessage resp.status (finalHeaders ctx env server location req resp) req.keepAlive
    (encodeBody ctx env location req resp).1

def RoutedAnswer.written (server : ServerBlock) : RoutedAnswer → Written
  | .sslRedirect req => .message (redirectMessage 301 (tlsLocation req) req.keepAlive)
  | .rewriteRedirect uri status keepAlive => .message (redirectMessage status uri keepAlive)
  | .unauthorized realm => .message (unauthorizedMessage realm)
  | .limited => .message limitedMessage
  | .tooLarge keepAlive => .message (tooLargeMessage keepAlive)
  | .returned rd keepAlive =>
      .message (replyMessage rd.status (returnHeaders rd) keepAlive (returnBody rd))
  | .upgraded bytes => .verbatim bytes
  | .upgradeFailed => .message upgradeFailedMessage
  | .finished location req resp => .message (finishedMessage ctx env server location req resp)

def Answer.written : Answer → Written
  | .blocked => .message blockedMessage
  | .badRequest reason => .message (badRequestMessage reason)
  | .cached bytes => .verbatim bytes
  | .challenge body => .message (challengeMessage body)
  | .userApi bytes => .verbatim bytes
  | .api bytes => .verbatim bytes
  | .routed server answer => answer.written ctx env server

/-- The exit a request takes behind the selection of its server. -/
inductive TakesRouted (req : ParsedRequest) : ServerBlock → RoutedAnswer → Prop
  | sslRedirect
      (hreq : Proceeds ctx env st raw req)
      (h : redirectsToTls env (serverFor ctx req) = true) :
      TakesRouted req (serverFor ctx req) (.sslRedirect req)
  | serverRedirect {uri : Bytes} {status : Nat}
      (hreq : Proceeds ctx env st raw req)
      (hplain : redirectsToTls env (serverFor ctx req) = false)
      (h : Rewrite.applyRewrites ctx.lib (serverFor ctx req).rewrites req.path =
        .redirect uri status) :
      TakesRouted req (serverFor ctx req) (.rewriteRedirect uri status req.keepAlive)
  | locationRedirect {first uri : Bytes} {status : Nat}
      (hreq : Enters ctx env st raw req first)
      (h : Rewrite.applyRewrites ctx.lib
        (rulesOf (Router.selectLocation (serverFor ctx req) first)) first =
          .redirect uri status) :
      TakesRouted req (serverFor ctx req) (.rewriteRedirect uri status req.keepAlive)
  | unauthorized {routed : ParsedRequest} {server : ServerBlock}
      {location : Option LocationBlock} {cfg : AuthBasicConfig}
      (hreq : Routes ctx env st raw req server location routed)
      (hcfg : authConfig server location = some cfg)
      (h : isAuthorized env cfg routed = false) :
      TakesRouted req server (.unauthorized cfg.realm)
  | limited {routed : ParsedRequest} {server : ServerBlock} {location : Option LocationBlock}
      (hreq : Authorized ctx env st raw req server location routed)
      (h : overLimit env server location = true) :
      TakesRouted req server .limited
  | tooLarge {routed : ParsedRequest} {server : ServerBlock} {location : Option LocationBlock}
      (hreq : WithinRate ctx env st raw req server location routed)
      (h : maxBody ctx server location < routed.contentLen) :
      TakesRouted req server (.tooLarge routed.keepAlive)
  | returned {routed : ParsedRequest} {server : ServerBlock} {location : Option LocationBlock}
      {rd : ReturnDirective}
      (hreq : Fits ctx env st raw req server location routed)
      (h : returnFor server location = some rd) :
      TakesRouted req server (.returned rd routed.keepAlive)
  | handlerReturned {routed : ParsedRequest} {server : ServerBlock}
      {location : Option LocationBlock} {rd : ReturnDirective}
      (hreq : Admitted ctx env st raw req server location routed)
      (h : location.map LocationBlock.handler = some (.return rd)) :
      TakesRouted req server (.returned rd routed.keepAlive)
  | upgraded {routed : ParsedRequest} {server : ServerBlock} {location : Option LocationBlock}
      {pc : ProxyConfig} {bytes : Bytes} {events : List Proxy.NetEvent}
      (hreq : Admitted ctx env st raw req server location routed)
      (hproxy : location.map LocationBlock.handler = some (.proxy pc))
      (hws : isWsUpgrade routed.headers = true)
      (h : WebSocket.upgradeToWebsocket (Proxy.upstreamAddr pc) routed.method routed.path
        routed.headers env.exchange = (.ok bytes, events)) :
      TakesRouted req server (.upgraded bytes)
  | upgradeFailed {routed : ParsedRequest} {server : ServerBlock}
      {location : Option LocationBlock} {pc : ProxyConfig} {reason : Bytes}
      {events : List Proxy.NetEvent}
      (hreq : Admitted ctx env st raw req server location routed)
      (hproxy : location.map LocationBlock.handler = some (.proxy pc))
      (hws : isWsUpgrade routed.headers = true)
      (h : WebSocket.upgradeToWebsocket (Proxy.upstreamAddr pc) routed.method routed.path
        routed.headers env.exchange = (.error reason, events)) :
      TakesRouted req server .upgradeFailed
  | finished {routed : ParsedRequest} {server : ServerBlock} {location : Option LocationBlock}
      {resp : StaticResponse} {effects : List Effect}
      (hreq : Admitted ctx env st raw req server location routed)
      (h : handlerStage env (afterLookup env st req) server location routed =
        .ok (resp, effects)) :
      TakesRouted req server (.finished location routed resp)

/-- The exit a request takes. -/
inductive Takes : Answer → Prop
  | blocked
      (h : env.scanBlocked = true) :
      Takes .blocked
  | badRequest {reason : Bytes}
      (hfree : env.scanBlocked = false) (h : parseRequest raw = .error reason) :
      Takes (.badRequest reason)
  | cached {req : ParsedRequest} {bytes : Bytes}
      (hreq : Received env raw req) (h : cachedAnswer env st req = some bytes) :
      Takes (.cached bytes)
  | challenge {req : ParsedRequest} {body : Bytes}
      (hreq : Missed env st raw req) (h : challengeAnswer env req = some body) :
      Takes (.challenge body)
  | userApi {req : ParsedRequest} {bytes : Bytes} {users : MultiUser.UserRegistry}
      (hreq : Missed env st raw req) (hchallenge : challengeAnswer env req = none)
      (h : userApiAnswer ctx env st req = some (bytes, users)) :
      Takes (.userApi bytes)
  | api {req : ParsedRequest} {bytes : Bytes} {sessions : Api.SessionStore}
      (hreq : Missed env st raw req) (hchallenge : challengeAnswer env req = none)
      (huser : userApiAnswer ctx env st req = none)
      (h : apiAnswer ctx env st req = some (bytes, sessions)) :
      Takes (.api bytes)
  | routed {req : ParsedRequest} {server : ServerBlock} {answer : RoutedAnswer}
      (h : TakesRouted ctx env st raw req server answer) :
      Takes (.routed server answer)

end Rules

section Dispatch

variable {ctx : Context} {env : Env} {st : ServerState} {raw : Bytes}

theorem TakesRouted.proceeds
    {req : ParsedRequest} {server : ServerBlock} {answer : RoutedAnswer}
    (h : TakesRouted ctx env st raw req server answer) :
    Proceeds ctx env st raw req := by
  cases h with
  | sslRedirect hreq h => exact hreq
  | serverRedirect hreq hplain h => exact hreq
  | locationRedirect hreq h => exact hreq.toProceeds
  | unauthorized hreq hcfg h => exact hreq.proceeds
  | limited hreq h => exact hreq.toRoutes.proceeds
  | tooLarge hreq h => exact hreq.toRoutes.proceeds
  | returned hreq h => exact hreq.toRoutes.proceeds
  | handlerReturned hreq h => exact hreq.toRoutes.proceeds
  | upgraded hreq hproxy hws h => exact hreq.toRoutes.proceeds
  | upgradeFailed hreq hproxy hws h => exact hreq.toRoutes.proceeds
  | finished hreq h => exact hreq.toRoutes.proceeds

/-- What is written at an exit is the answer. -/
theorem Takes.written
    {a : Answer} (h : Takes ctx env st raw a) :
    (dispatch ctx env st raw).result.bytes = (a.written ctx env).bytes := by
  cases h with
  | blocked h =>
      rw [(Ends.blocked h).dispatch_eq]
      exact (replyMessage_bytes _ _ _ _).symm
  | badRequest hfree h =>
      rw [(Ends.badRequest hfree h).dispatch_eq]
      exact (replyMessage_bytes _ _ _ _).symm
  | cached hreq h =>
      rw [(Ends.cacheHit hreq h).dispatch_eq]
      rfl
  | challenge hreq h =>
      rw [(Ends.challenge hreq h).dispatch_eq]
      exact (replyMessage_bytes _ _ _ _).symm
  | userApi hreq hchallenge h =>
      rw [(Ends.userApi hreq hchallenge h).dispatch_eq]
      rfl
  | api hreq hchallenge huser h =>
      rw [(Ends.api hreq hchallenge huser h).dispatch_eq]
      rfl
  | routed h =>
      cases h with
      | sslRedirect hreq h =>
          rw [(Ends.sslRedirect hreq h).dispatch_eq]
          exact (replyMessage_bytes _ _ _ _).symm
      | serverRedirect hreq hplain h =>
          rw [(Ends.serverRedirect hreq hplain h).dispatch_eq]
          exact (replyMessage_bytes _ _ _ _).symm
      | locationRedirect hreq h =>
          rw [(Ends.locationRedirect hreq h).dispatch_eq]
          exact (replyMessage_bytes _ _ _ _).symm
      | unauthorized hreq hcfg h =>
          rw [(Ends.unauthorized hreq hcfg h).dispatch_eq]
          exact (unauthorizedMessage_bytes _).symm
      | limited hreq h =>
          rw [(Ends.limited hreq h).dispatch_eq]
          exact (replyMessage_bytes _ _ _ _).symm
      | tooLarge hreq h =>
          rw [(Ends.tooLarge hreq h).dispatch_eq]
          exact (replyMessage_bytes _ _ _ _).symm
      | returned hreq h =>
          rw [(Ends.returned hreq h).dispatch_eq]
          exact handleReturn_bytes _ _
      | handlerReturned hreq h =>
          rw [(Ends.handlerReturned hreq h).dispatch_eq]
          exact handleReturn_bytes _ _
      | upgraded hreq hproxy hws h =>
          rw [(Ends.upgraded hreq hproxy hws h).dispatch_eq]
          rfl
      | upgradeFailed hreq hproxy hws h =>
          rw [(Ends.upgradeFailed hreq hproxy hws h).dispatch_eq]
          exact (replyMessage_bytes _ _ _ _).symm
      | finished hreq h =>
          rw [(Ends.finished hreq h).dispatch_eq]
          exact (replyMessage_bytes _ _ _ _).symm

/-- Every request takes an exit. -/
theorem exists_takes
    (ctx : Context) (env : Env) (st : ServerState) (raw : Bytes) :
    ∃ a, Takes ctx env st raw a := by
  have hends := ends_dispatch ctx env st raw
  generalize dispatch ctx env st raw = o at hends
  cases hends with
  | blocked h => exact ⟨_, .blocked h⟩
  | badRequest hfree h => exact ⟨_, .badRequest hfree h⟩
  | cacheHit hreq h => exact ⟨_, .cached hreq h⟩
  | challenge hreq h => exact ⟨_, .challenge hreq h⟩
  | userApi hreq hchallenge h => exact ⟨_, .userApi hreq hchallenge h⟩
  | api hreq hchallenge huser h => exact ⟨_, .api hreq hchallenge huser h⟩
  | sslRedirect hreq h => exact ⟨_, .routed (.sslRedirect hreq h)⟩
  | serverRedirect hreq hplain h => exact ⟨_, .routed (.serverRedirect hreq hplain h)⟩
  | locationRedirect hreq h => exact ⟨_, .routed (.locationRedirect hreq h)⟩
  | unauthorized hreq hcfg h => exact ⟨_, .routed (.unauthorized hreq hcfg h)⟩
  | limited hreq h => exact ⟨_, .routed (.limited hreq h)⟩
  | tooLarge hreq h => exact ⟨_, .routed (.tooLarge hreq h)⟩
  | returned hreq h => exact ⟨_, .routed (.returned hreq h)⟩
  | handlerReturned hreq h => exact ⟨_, .routed (.handlerReturned hreq h)⟩
  | upgraded hreq hproxy hws h => exact ⟨_, .routed (.upgraded hreq hproxy hws h)⟩
  | upgradeFailed hreq hproxy hws h => exact ⟨_, .routed (.upgradeFailed hreq hproxy hws h)⟩
  | finished hreq h => exact ⟨_, .routed (.finished hreq h)⟩

end Dispatch

section Example

/-- A request for a file, as it is read. -/
def fileAsked (method : Bytes) (hdrs : Headers) : ParsedRequest where
  method := method
  path := ascii "/a.txt"
  query := []
  fullUri := ascii "/a.txt"
  version10 := false
  headers := hdrs
  host := []
  contentLen := 0
  keepAlive := true
  body := []

/-- The only server takes every request, without locations itself. -/
theorem Proceeds.routes_alone
    {ctx : Context} {server : ServerBlock} {env : Env} {st : ServerState} {raw : Bytes}
    {req : ParsedRequest} (h : Proceeds ctx env st raw req)
    (hservers : ctx.http.servers = [server]) (hplain : redirectsToTls env server = false)
    (hrules : server.rewrites = []) (hlocations : server.locations = []) :
    Routes ctx env st raw req server none req := by
  have hserver : serverFor ctx req = server :=
    List.mem_singleton.mp (hservers ▸ serverFor_mem ctx req)
  have hlocation : Router.selectLocation server req.path = none := by
    rw [Option.eq_none_iff_forall_not_mem]
    intro loc hloc
    have hmem := Router.selectLocation_mem hloc
    rw [hlocations] at hmem
    cases hmem
  refine ⟨hserver.symm, req.path, req.path, ⟨h, ?_, ?_⟩, hlocation.symm, rfl, rfl⟩
  · rw [hserver]
    exact hplain
  · rw [hserver, hrules]
    rfl

end Example

end Handler
end RunNginx
