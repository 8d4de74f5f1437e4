import RunNginx.Lib.LfLines
import RunNginx.Server.Answers
import RunNginx.Server.KeepAlive
import RunNginx.Server.LocalAnswers

/-!
# Response splitting

A redirect repeats the host or the path of its request.  The parser ends lines at CRLF only,
so both may hold a bare LF, and what stands behind it is a header line of its own for a
client that ends lines there.

`oneLineEach_iff`: with a configuration that holds no line end, every header of an answer is
one line exactly when the answer is no redirect that repeats a LF.
-/

namespace RunNginx
namespace Handler

open ByteString HttpMessage LfLines StaticFiles

section Configuration

/-- The target of a `return` directive holds no line end. -/
def OneLineReturn (rd : ReturnDirective) : Prop :=
  ∀ url, rd.body = .url url → OneLine url

/-- The texts of a location that are written into headers hold no CR and no LF. -/
structure OneLineLocation (loc : LocationBlock) : Prop where
  addHeaders : ∀ h ∈ loc.addHeaders, OneLine h.1 ∧ OneLine h.2
  realm : ∀ auth ∈ loc.authBasic, OneLine auth.realm
  rewrites : ∀ rule ∈ loc.rewrites, OneLine rule.replacement
  returnDirective : ∀ rd ∈ loc.returnDirective, OneLineReturn rd
  handler : ∀ rd, loc.handler = .return rd → OneLineReturn rd

structure OneLineServer (server : ServerBlock) : Prop where
  addHeaders : ∀ h ∈ server.addHeaders, OneLine h.1 ∧ OneLine h.2
  realm : ∀ auth ∈ server.authBasic, OneLine auth.realm
  rewrites : ∀ rule ∈ server.rewrites, OneLine rule.replacement
  returnDirective : ∀ rd ∈ server.returnDirective, OneLineReturn rd
  locations : ∀ loc ∈ server.locations, OneLineLocation loc

def OneLineConfig (http : HttpBlock) : Prop :=
  ∀ server ∈ http.servers, OneLineServer server

end Configuration

section Properties

/-- Split at LF, the head is its lines. -/
def Message.OneLineEach (m : Message) : Prop :=
  splitByte 10 (joinLines m.lines) = m.lines.map (· ++ [13]) ++ [[]]

/-- The dispatcher pushes no header into bytes that it hands on. -/
def Written.OneLineEach : Written → Prop
  | .message m => m.OneLineEach
  | .verbatim _ => True

/-- A redirect repeats no LF of its request. -/
def RoutedAnswer.RepeatsNoLf : RoutedAnswer → Prop
  | .sslRedirect req => 10 ∉ req.host ∧ 10 ∉ req.path
  | .rewriteRedirect uri _ _ => 10 ∉ uri
  | _ => True

def Answer.RepeatsNoLf : Answer → Prop
  | .routed _ answer => answer.RepeatsNoLf
  | _ => True

end Properties

section Messages

/-- Neither name nor value of a header holds a LF. -/
def LfFree (h : Bytes × Bytes) : Prop :=
  10 ∉ h.1 ∧ 10 ∉ h.2

instance (h : Bytes × Bytes) : Decidable (LfFree h) :=
  inferInstanceAs (Decidable (10 ∉ h.1 ∧ 10 ∉ h.2))

theorem CleanHeader.lfFree
    {h : Bytes × Bytes} (hclean : CleanHeader h) :
    LfFree h :=
  ⟨hclean.1, hclean.2.2⟩

theorem not_lf_headerLine_iff
    (h : Bytes × Bytes) :
    (10 : UInt8) ∉ Response.headerLine h ↔ LfFree h := by
  rw [Response.headerLine_eq]
  simp [LfFree]

theorem Message.oneLineEach_fields
    (m : Message) :
    m.OneLineEach ↔ 10 ∉ m.startLine ∧ ∀ h ∈ m.fields, LfFree h := by
  unfold Message.OneLineEach
  rw [splitByte_joinLines_iff, Message.lines, List.forall_mem_cons, List.forall_mem_map]
  simp only [not_lf_headerLine_iff]

/-- The dispatcher's own headers are one line each. -/
theorem replyMessage_oneLineEach_iff
    (status : Nat) (hdrs : Headers) (keepAlive : Bool) (body : Bytes) :
    (replyMessage status hdrs keepAlive body).OneLineEach ↔ ∀ h ∈ hdrs, LfFree h := by
  have hstart : (10 : UInt8) ∉ (replyMessage status hdrs keepAlive body).startLine :=
    (statusLine_ok status (not_lf_statusReason status)).2
  have hserver : LfFree (ascii "Server", ascii "RunNginx/" ++ pkgVersion) := by decide
  have hconnection : LfFree
      (ascii "Connection", if keepAlive then ascii "keep-alive" else ascii "close") := by
    cases keepAlive <;> decide
  rw [Message.oneLineEach_fields, and_iff_right hstart]
  unfold replyMessage
  rw [List.forall_mem_cons, List.forall_mem_append, List.forall_mem_singleton,
    and_iff_right hserver, and_iff_left hconnection]

theorem lfFree_length
    (len : Nat) :
    LfFree (ascii "Content-Length", Decimal.render len) :=
  (plain_length len).1.lfFree

theorem redirectMessage_oneLineEach_iff
    (status : Nat) (location : Bytes) (keepAlive : Bool) :
    (redirectMessage status location keepAlive).OneLineEach ↔ 10 ∉ location := by
  have hname : (10 : UInt8) ∉ ascii "Location" := by decide
  have hlength : LfFree (ascii "Content-Length", ascii "0") := by decide
  rw [redirectMessage, replyMessage_oneLineEach_iff, List.forall_mem_cons,
    List.forall_mem_singleton, and_iff_left hlength]
  exact and_iff_right hname

theorem not_lf_tlsLocation_iff
    (req : ParsedRequest) :
    (10 : UInt8) ∉ tlsLocation req ↔ 10 ∉ req.host ∧ 10 ∉ req.path := by
  have hscheme : (10 : UInt8) ∉ ascii "https://" := by decide
  have hhost : (10 : UInt8) ∉ (if req.host = [] then ascii "localhost" else req.host) ↔
      10 ∉ req.host := by
    split
    · rename_i hempty
      rw [hempty]
      decide
    · exact Iff.rfl
  rw [tlsLocation, List.mem_append, List.mem_append, not_or, not_or, and_iff_right hscheme, hhost]

theorem not_lf_realmChallenge
    {realm : Bytes} (h : (10 : UInt8) ∉ realm) :
    (10 : UInt8) ∉ realmChallenge realm := by
  have hfront : (10 : UInt8) ∉ ascii "Basic realm=\"" := by decide
  have hback : (10 : UInt8) ∉ ascii "\"" := by decide
  have hescape : (10 : UInt8) ∉ ascii "\\\"" := by decide
  rw [realmChallenge, List.mem_append, List.mem_append]
  rintro ((hmem | hmem) | hmem)
  · exact hfront hmem
  · rcases mem_replace hmem with hmem | hmem
    · exact hescape hmem
    · exact h hmem
  · exact hback hmem

theorem unauthorizedMessage_oneLineEach
    {realm : Bytes} (h : OneLine realm) :
    (unauthorizedMessage realm).OneLineEach := by
  have hstart : (10 : UInt8) ∉ ascii "HTTP/1.1 401 Unauthorized" := by decide
  have hname : (10 : UInt8) ∉ ascii "WWW-Authenticate" := by decide
  rw [Message.oneLineEach_fields]
  refine ⟨hstart, List.forall_mem_cons.mpr ⟨⟨hname, not_lf_realmChallenge h.2⟩, ?_⟩⟩
  exact List.forall_mem_cons.mpr ⟨lfFree_length _, by decide⟩

theorem returned_oneLineEach
    {rd : ReturnDirective} (h : OneLineReturn rd) (keepAlive : Bool) :
    (replyMessage rd.status (returnHeaders rd) keepAlive (returnBody rd)).OneLineEach := by
  have hname : (10 : UInt8) ∉ ascii "Location" := by decide
  have htype : LfFree (ascii "Content-Type", ascii "text/plain") := by decide
  rw [replyMessage_oneLineEach_iff]
  unfold returnHeaders
  rw [List.forall_mem_append, List.forall_mem_cons]
  refine ⟨⟨lfFree_length _, ?_⟩, ?_⟩
  · split
    · rename_i url hurl
      exact List.forall_mem_singleton.mpr ⟨hname, (h url hurl).2⟩
    · nofun
  · split
    · nofun
    · exact List.forall_mem_singleton.mpr htype

end Messages

section Exits

variable {ctx : Context} {env : Env} {st : ServerState} {raw : Bytes}
variable {req routed : ParsedRequest} {server : ServerBlock} {location : Option LocationBlock}

theorem Routes.oneLine
    (hconfig : OneLineConfig ctx.http)
    (h : Routes ctx env st raw req server location routed) :
    OneLineServer server ∧ ∀ loc ∈ location, OneLineLocation loc := by
  obtain ⟨first, _, _, hlocation, _⟩ := h.enters
  have hserver : OneLineServer server := by
    rw [h.server_eq]
    exact hconfig _ (serverFor_mem ctx req)
  refine ⟨hserver, fun loc hloc => ?_⟩
  rw [hlocation] at hloc
  exact hserver.locations loc (Router.selectLocation_mem hloc)

theorem rewrittenPath_clean
    {rules : List RewriteRule} {path new : Bytes} (hlib : CleanRegex ctx.lib)
    (hrules : ∀ rule ∈ rules, (10 : UInt8) ∉ rule.replacement) (hpath : (10 : UInt8) ∉ path)
    (h : rewrittenPath ctx.lib rules path = some new) :
    (10 : UInt8) ∉ new := by
  unfold rewrittenPath at h
  split at h
  · cases h
  · rename_i uri stop happly
    cases h
    exact applyRewrites_clean hlib hrules hpath (Or.inl ⟨stop, happly⟩)
  · cases h
    exact hpath

theorem rulesOf_oneLine
    (hlocation : ∀ loc ∈ location, OneLineLocation loc) :
    ∀ rule ∈ rulesOf location, (10 : UInt8) ∉ rule.replacement := by
  cases location with
  | none => nofun
  | some loc => exact fun rule hrule => ((hlocation loc rfl).rewrites rule hrule).2

theorem authConfig_oneLine
    {cfg : AuthBasicConfig} (hserver : OneLineServer server)
    (hlocation : ∀ loc ∈ location, OneLineLocation loc)
    (h : authConfig server location = some cfg) :
    OneLine cfg.realm := by
  unfold authConfig at h
  rcases Option.or_eq_some_iff.mp h with hloc | ⟨-, hsrv⟩
  · obtain ⟨loc, hmem, hauth⟩ := Option.bind_eq_some_iff.mp hloc
    exact (hlocation loc hmem).realm cfg hauth
  · exact hserver.realm cfg hsrv

theorem returnFor_oneLine
    {rd : ReturnDirective} (hserver : OneLineServer server)
    (hlocation : ∀ loc ∈ location, OneLineLocation loc)
    (h : returnFor server location = some rd) :
    OneLineReturn rd := by
  unfold returnFor at h
  rcases Option.or_eq_some_iff.mp h with hloc | ⟨-, hsrv⟩
  · obtain ⟨loc, hmem, hreturn⟩ := Option.bind_eq_some_iff.mp hloc
    exact (hlocation loc hmem).returnDirective rd hreturn
  · exact hserver.returnDirective rd hsrv

theorem configuredHeaders_lfFree
    (hserver : OneLineServer server) (hlocation : ∀ loc ∈ location, OneLineLocation loc) :
    ∀ h ∈ configuredHeaders server location, LfFree h := by
  refine List.forall_mem_append.mpr ⟨fun h hmem => ?_, ?_⟩
  · obtain ⟨hname, hvalue⟩ := hserver.addHeaders h hmem
    exact ⟨hname.2, hvalue.2⟩
  · cases location with
    | none => nofun
    | some loc =>
        intro h hmem
        obtain ⟨hname, hvalue⟩ := (hlocation loc rfl).addHeaders h hmem
        exact ⟨hname.2, hvalue.2⟩

/-- The headers of a handler are one line each, also those of a backend. -/
theorem finishedMessage_oneLineEach
    {st : ServerState} {resp : StaticResponse} {effects : List Effect}
    (hserver : OneLineServer server) (hlocation : ∀ loc ∈ location, OneLineLocation loc)
    (h : handlerStage env st server location routed = .ok (resp, effects)) :
    (finishedMessage ctx env server location routed resp).OneLineEach := by
  obtain ⟨hclean, -⟩ := handler_headers h
  obtain ⟨hencoded, -⟩ := encodedHeaders_clean hclean
    (encodeBody_coding ctx env location routed resp)
    (encodeBody ctx env location routed resp).1.length
  rw [finishedMessage, replyMessage_oneLineEach_iff]
  unfold finalHeaders
  rw [addedHeaders_eq, List.forall_mem_append, List.forall_mem_append]
  refine ⟨fun k hk => (hencoded k hk).lfFree, configuredHeaders_lfFree hserver hlocation, ?_⟩
  exact fun k hk => (hstsHeaders_plain env server k hk).1.lfFree

theorem TakesRouted.routed_oneLineEach_iff
    {answer : RoutedAnswer} (hconfig : OneLineConfig ctx.http)
    (h : TakesRouted ctx env st raw req server answer) :
    (answer.written ctx env server).OneLineEach ↔ answer.RepeatsNoLf := by
  cases h with
  | sslRedirect hreq h =>
      exact (redirectMessage_oneLineEach_iff _ _ _).trans (not_lf_tlsLocation_iff req)
  | serverRedirect hreq hplain h => exact redirectMessage_oneLineEach_iff _ _ _
  | locationRedirect hreq h => exact redirectMessage_oneLineEach_iff _ _ _
  | unauthorized hreq hcfg h =>
      obtain ⟨hserver, hlocation⟩ := hreq.oneLine hconfig
      exact iff_of_true (unauthorizedMessage_oneLineEach
        (authConfig_oneLine hserver hlocation hcfg)) trivial
  | limited hreq h =>
      exact iff_of_true ((replyMessage_oneLineEach_iff _ _ _ _).mpr (by decide)) trivial
  | tooLarge hreq h =>
      exact iff_of_true ((replyMessage_oneLineEach_iff _ _ _ _).mpr (by decide)) trivial
  | returned hreq h =>
      obtain ⟨hserver, hlocation⟩ := hreq.oneLine hconfig
      exact iff_of_true (returned_oneLineEach
        (returnFor_oneLine hserver hlocation h) _) trivial
  | handlerReturned hreq h =>
      obtain ⟨-, hlocation⟩ := hreq.oneLine hconfig
      obtain ⟨loc, hmem, hhandler⟩ := Option.map_eq_some_iff.mp h
      exact iff_of_true (returned_oneLineEach
        ((hlocation loc hmem).handler _ hhandler) _) trivial
  | upgraded hreq hproxy hws h => exact iff_of_true trivial trivial
  | upgradeFailed hreq hproxy hws h =>
      exact iff_of_true ((replyMessage_oneLineEach_iff _ _ _ _).mpr (by decide)) trivial
  | finished hreq h =>
      obtain ⟨hserver, hlocation⟩ := hreq.oneLine hconfig
      exact iff_of_true (finishedMessage_oneLineEach hserver hlocation h) trivial

/--
With a configuration that holds no line end, every header that the dispatcher writes is one
line at LF, if and only if the answer is no redirect that repeats a LF of its request.
-/
theorem oneLineEach_iff
    {a : Answer} (hconfig : OneLineConfig ctx.http) (h : Takes ctx env st raw a) :
    (dispatch ctx env st raw).result.bytes = (a.written ctx env).bytes ∧
      ((a.written ctx env).OneLineEach ↔ a.RepeatsNoLf) := by
  refine ⟨h.written, ?_⟩
  cases h with
  | blocked h =>
      exact iff_of_true ((replyMessage_oneLineEach_iff _ _ _ _).mpr (by decide)) trivial
  | badRequest hfree h =>
      refine iff_of_true ((replyMessage_oneLineEach_iff _ _ _ _).mpr ?_) trivial
      exact List.forall_mem_cons.mpr
        ⟨by decide, List.forall_mem_singleton.mpr (lfFree_length _)⟩
  | cached hreq h => exact iff_of_true trivial trivial
  | challenge hreq h =>
      refine iff_of_true ((replyMessage_oneLineEach_iff _ _ _ _).mpr ?_) trivial
      exact List.forall_mem_cons.mpr
        ⟨by decide, List.forall_mem_singleton.mpr (lfFree_length _)⟩
  | userApi hreq hchallenge h => exact iff_of_true trivial trivial
  | api hreq hchallenge huser h => exact iff_of_true trivial trivial
  | routed h => exact h.routed_oneLineEach_iff hconfig

/-- Without a LF in host and path there is none to repeat. -/
theorem Takes.repeatsNoLf
    {a : Answer} (hconfig : OneLineConfig ctx.http) (hlib : CleanRegex ctx.lib)
    (hreq : ∀ req, parseRequest raw = .ok req → 10 ∉ req.host ∧ 10 ∉ req.path)
    (h : Takes ctx env st raw a) :
    a.RepeatsNoLf := by
  cases h with
  | @routed req _ _ h =>
      cases h with
      | sslRedirect hproceeds h => exact hreq _ hproceeds.parses
      | @serverRedirect uri status hproceeds hplain h =>
          have hserver := hconfig _ (serverFor_mem ctx req)
          exact applyRewrites_clean hlib (fun rule hrule => (hserver.rewrites rule hrule).2)
            (hreq _ hproceeds.parses).2 (Or.inr ⟨status, h⟩)
      | @locationRedirect first uri status henters h =>
          have hserver := hconfig _ (serverFor_mem ctx req)
          have hpath := (hreq _ henters.parses).2
          have hfirst := rewrittenPath_clean hlib
            (fun rule hrule => (hserver.rewrites rule hrule).2) hpath henters.rewritten
          refine applyRewrites_clean hlib (rulesOf_oneLine fun loc hloc => ?_) hfirst
            (Or.inr ⟨status, h⟩)
          exact hserver.locations loc (Router.selectLocation_mem hloc)
      | _ => trivial
  | _ => trivial

end Exits

section Example

/-- A request whose Host header goes on behind a LF. -/
def splittingRequest : Bytes :=
  requestOf ["GET /a HTTP/1.1", "Host: a\nSet-Cookie: x=1"]

/-- A request of a client, as it is read. -/
def plainRequest (host : Bytes) : ParsedRequest where
  method := ascii "GET"
  path := ascii "/a"
  query := []
  fullUri := ascii "/a"
  version10 := false
  headers := [(ascii "Host", host)]
  host := host
  contentLen := 0
  keepAlive := true
  body := []

/-- A server that sends its clients to the encrypted port. -/
def redirectingServer : ServerBlock :=
  { serverAt (ascii "/srv") with sslRedirect := true }

theorem redirectingServer_oneLine :
    OneLineConfig (contextOf redirectingServer).http := by
  intro server hmem
  rw [List.mem_singleton.mp hmem]
  constructor <;> simp [redirectingServer, serverAt]

theorem redirects_of_parses
    {raw : Bytes} {host : Bytes} (hparses : parseRequest raw = .ok (plainRequest host)) :
    Takes (contextOf redirectingServer) (quietEnv exampleFiles) (stateWithCache 0 0) raw
      (.routed redirectingServer (.sslRedirect (plainRequest host))) := by
  have hmissed : Missed (quietEnv exampleFiles) (stateWithCache 0 0) raw (plainRequest host) :=
    ⟨⟨rfl, hparses⟩, rfl⟩
  exact .routed (.sslRedirect ⟨hmissed, rfl, rfl, rfl⟩ rfl)

/-- A host that holds no LF is sent back on one line. -/
theorem oneLineEach_iff_example :
    (redirectMessage 301 (ascii "https://b/a") true).OneLineEach := by
  have hparses : parseRequest (requestOf ["GET /a HTTP/1.1", "Host: b"]) =
      .ok (plainRequest (ascii "b")) := by
    decide +kernel
  have hclean : 10 ∉ ascii "b" ∧ 10 ∉ ascii "/a" := by decide
  exact (oneLineEach_iff redirectingServer_oneLine (redirects_of_parses hparses)).2.mpr hclean

/-- The Host header starts a header line of the client's own. -/
theorem splits_response :
    ¬ ∀ (ctx : Context) (env : Env) (st : ServerState) (raw : Bytes) (a : Answer),
      OneLineConfig ctx.http → Takes ctx env st raw a → (a.written ctx env).OneLineEach := by
  intro h
  have hparses : parseRequest splittingRequest =
      .ok (plainRequest (ascii "a\nSet-Cookie: x=1")) := by
    decide +kernel
  have hlines := h _ _ _ _ _ redirectingServer_oneLine (redirects_of_parses hparses)
  have hsplit := (redirectMessage_oneLineEach_iff _ _ _).mp hlines
  exact absurd hsplit (by decide)

end Example

end Handler
end RunNginx
