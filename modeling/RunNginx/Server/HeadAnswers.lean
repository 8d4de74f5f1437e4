import RunNginx.Lib.HeadOnly
import RunNginx.Server.FieldValues
import RunNginx.Server.ResponseSplitting
import RunNginx.Server.SilentStatic

/-!
# Answers to HEAD

The method is looked at in one branch of the static handler and nowhere else, so a HEAD
request gets the body that a GET request would get at every other exit.

`endsAtHead_iff`: the bytes that are written for HEAD end at the header terminator exactly
where nothing was to be written behind it.
-/

namespace RunNginx
namespace Handler

open ByteString EarlyReturn HttpMessage Proxy StaticFiles

/-- The methods that are answered like HEAD by the static handler. -/
def IsHead (method : Bytes) : Prop :=
  eqIgnoreCase method (ascii "HEAD") = true

/-- What the compressors make of a body is not empty. -/
structure CompressesToText (env : Env) : Prop where
  gzip : ∀ body, env.gzip body ≠ some []
  brotli : ∀ body, env.brotli body ≠ some []

section Conditions

/-- Pages of the management API without a body. -/
inductive SilentPage (env : Api.ApiEnv) (sessions : Api.SessionStore) (path : Bytes)
    (hdrs : Headers) : Prop
  | metrics
      (hpath : path = ascii "/metrics") (h : env.metrics = [])
  | login
      (hpath : path = ascii "/ui" ∨ path = ascii "/ui/")
      (hsession : Api.hasValidSession env sessions hdrs = false)
  | webui
      (hpath : path = ascii "/ui" ∨ path = ascii "/ui/")
      (hsession : Api.hasValidSession env sessions hdrs = true) (h : env.webuiHtml = [])

/-- The header makes no empty line. -/
def NoEmptyHeader (h : Bytes × Bytes) : Prop :=
  NoEmptyLine (Response.headerLine h)

/-- The backend answers without a body, or the static handler does. -/
def SilentHandler (env : Env) (server : ServerBlock) (location : Option LocationBlock)
    (req : ParsedRequest) : Prop :=
  match location.map LocationBlock.handler with
  | some (.proxy pc) =>
      (proxyRequest pc req.method req.path (locationPrefix location) req.headers []
        env.exchange).1.body = []
  | some (.upstreamGroup group) => (groupHandler env location group req).1.body = []
  | some (.fastCgi fc) => (fastCgiHandler env server location fc req).1.body = []
  | _ => SilentStatic env.fs server location req.path req.headers

/-- Nothing is to be written behind the head, and no header makes an empty line. -/
def RoutedAnswer.Silent (env : Env) (server : ServerBlock) : RoutedAnswer → Prop
  | .sslRedirect req => NoEmptyHeader (ascii "Location", tlsLocation req)
  | .rewriteRedirect uri _ _ => NoEmptyHeader (ascii "Location", uri)
  | .returned rd _ =>
      returnBody rd = [] ∧ ∀ url, rd.body = .url url → NoEmptyHeader (ascii "Location", url)
  | .upgraded bytes => EndsAtHead bytes
  | .upgradeFailed => True
  | .finished location req _ =>
      SilentHandler env server location req ∧
        ∀ h ∈ configuredHeaders server location, NoEmptyHeader h
  | _ => False

def Answer.Silent (env : Env) (st : ServerState) (req : ParsedRequest) : Answer → Prop
  | .cached bytes => EndsAtHead bytes
  | .challenge body => body = []
  | .api _ => SilentPage env.api st.sessions req.path req.headers
  | .routed server answer => answer.Silent env server
  | _ => False

end Conditions

section Messages

theorem noEmptyHeader_of_lfFree
    {h : Bytes × Bytes} (hfree : LfFree h) :
    NoEmptyHeader h :=
  noEmptyLine_of_not_mem (headerLine_ne_nil h) ((not_lf_headerLine_iff h).mpr hfree)

/-- The serializer's own lines make no empty line. -/
theorem endsAtHead_replyMessage_iff
    (status : Nat) (hdrs : Headers) (keepAlive : Bool) (body : Bytes) :
    EndsAtHead (replyMessage status hdrs keepAlive body).bytes ↔
      (∀ h ∈ hdrs, NoEmptyHeader h) ∧ body = [] := by
  obtain ⟨hne, hfree⟩ := statusLine_ok status (not_lf_statusReason status)
  have hstart : NoEmptyLine (replyMessage status hdrs keepAlive body).startLine :=
    noEmptyLine_of_not_mem hne hfree
  have hserver : LfFree (ascii "Server", ascii "RunNginx/" ++ pkgVersion) := by decide
  have hconnection : LfFree
      (ascii "Connection", if keepAlive then ascii "keep-alive" else ascii "close") := by
    cases keepAlive <;> decide
  rw [Message.bytes, endsAtHead_message_iff, Message.lines, List.forall_mem_cons,
    List.forall_mem_map, and_iff_right hstart]
  unfold replyMessage
  rw [List.forall_mem_cons, List.forall_mem_append, List.forall_mem_singleton]
  constructor
  · exact fun h => ⟨h.1.2.1, h.2⟩
  · exact fun h => ⟨⟨noEmptyHeader_of_lfFree hserver, h.1,
      noEmptyHeader_of_lfFree hconnection⟩, h.2⟩

theorem not_endsAtHead_of_body
    {status : Nat} {hdrs : Headers} {keepAlive : Bool} {body : Bytes} (hbody : body ≠ []) :
    ¬ EndsAtHead (replyMessage status hdrs keepAlive body).bytes := fun h =>
  hbody ((endsAtHead_replyMessage_iff status hdrs keepAlive body).mp h).2

theorem endsAtHead_redirectMessage_iff
    (status : Nat) (location : Bytes) (keepAlive : Bool) :
    EndsAtHead (redirectMessage status location keepAlive).bytes ↔
      NoEmptyHeader (ascii "Location", location) := by
  have hlength : LfFree (ascii "Content-Length", ascii "0") := by decide
  rw [redirectMessage, endsAtHead_replyMessage_iff, List.forall_mem_cons,
    List.forall_mem_singleton]
  exact ⟨fun h => h.1.1, fun h => ⟨⟨h, noEmptyHeader_of_lfFree hlength⟩, rfl⟩⟩

theorem not_endsAtHead_unauthorizedMessage
    (realm : Bytes) :
    ¬ EndsAtHead (unauthorizedMessage realm).bytes := by
  have hbody : (unauthorizedMessage realm).body ≠ [] := by
    change ascii "401 Unauthorized" ≠ []
    decide
  rw [Message.bytes, endsAtHead_message_iff]
  exact fun h => hbody h.2

theorem endsAtHead_returned_iff
    (rd : ReturnDirective) (keepAlive : Bool) :
    EndsAtHead (replyMessage rd.status (returnHeaders rd) keepAlive (returnBody rd)).bytes ↔
      returnBody rd = [] ∧
        ∀ url, rd.body = .url url → NoEmptyHeader (ascii "Location", url) := by
  have hlength : NoEmptyHeader (ascii "Content-Length", Decimal.render (returnBody rd).length) :=
    noEmptyHeader_of_lfFree (lfFree_length _)
  rw [endsAtHead_replyMessage_iff, and_comm]
  refine and_congr_right fun hbody => ?_
  unfold returnHeaders
  rw [if_pos hbody, List.append_nil, List.forall_mem_cons, and_iff_right hlength]
  cases rd.body with
  | empty => exact iff_of_true nofun nofun
  | text t => exact iff_of_true nofun nofun
  | url u =>
      rw [List.forall_mem_singleton]
      exact ⟨fun h url hurl => by cases hurl; exact h, fun h => h u rfl⟩

end Messages

section Management

variable {env : Api.ApiEnv} {settings : Api.ApiSettings} {sessions : Api.SessionStore}
variable {path query method body : Bytes} {hdrs : Headers} {answer : Bytes × Api.SessionStore}

theorem IsHead.ne
    {known : Bytes} (h : IsHead method)
    (hknown : eqIgnoreCase known (ascii "HEAD") = false) :
    method ≠ known := by
  rintro rfl
  rw [IsHead, hknown] at h
  cases h

/-- The user API does not know the method. -/
theorem handleUserApi_head
    {userEnv : MultiUser.UserApiEnv} {registry : MultiUser.UserRegistry}
    {apiKey : Bytes} {isAdmin : Bool} (hhead : IsHead method) :
    MultiUser.handleUserApi userEnv registry path method body apiKey isAdmin = none := by
  have hget : method ≠ ascii "GET" := hhead.ne (by decide)
  have hpost : method ≠ ascii "POST" := hhead.ne (by decide)
  have hdelete : method ≠ ascii "DELETE" := hhead.ne (by decide)
  unfold MultiUser.handleUserApi
  simp only [hget, hpost, hdelete, false_and, if_false, ite_self]

theorem endsAtHead_jsonResponse_iff
    (status : Nat) (body : Bytes) :
    EndsAtHead (Api.jsonResponse status body) ↔ body = [] := by
  have hreason : (10 : UInt8) ∉ Api.jsonReason status := by
    unfold Api.jsonReason
    split <;> decide
  have hlength : ascii "Content-Length: " ++ Decimal.render body.length ≠ [] ∧
      (10 : UInt8) ∉ ascii "Content-Length: " ++ Decimal.render body.length :=
    ⟨(otherField_length body.length).1, (otherField_length body.length).2.1⟩
  refine endsAtHead_lines_iff ?_ body
  refine List.forall_mem_cons.mpr ⟨statusLine_ok status hreason, ?_⟩
  refine List.forall_mem_cons.mpr ⟨by decide, ?_⟩
  exact List.forall_mem_cons.mpr ⟨hlength, by decide⟩

theorem endsAtHead_prometheusMetrics_iff
    (env : Api.ApiEnv) :
    EndsAtHead (Api.prometheusMetrics env) ↔ env.metrics = [] := by
  have hlength : ascii "Content-Length: " ++ Decimal.render env.metrics.length ≠ [] ∧
      (10 : UInt8) ∉ ascii "Content-Length: " ++ Decimal.render env.metrics.length :=
    ⟨(otherField_length _).1, (otherField_length _).2.1⟩
  refine endsAtHead_lines_iff ?_ env.metrics
  refine List.forall_mem_cons.mpr ⟨by decide, ?_⟩
  refine List.forall_mem_cons.mpr ⟨by decide, ?_⟩
  exact List.forall_mem_cons.mpr ⟨hlength, by decide⟩

theorem endsAtHead_serveWebui_iff
    (env : Api.ApiEnv) :
    EndsAtHead (Api.serveWebui env) ↔ env.webuiHtml = [] := by
  have hlength : ascii "Content-Length: " ++ Decimal.render env.webuiHtml.length ≠ [] ∧
      (10 : UInt8) ∉ ascii "Content-Length: " ++ Decimal.render env.webuiHtml.length ∧
      (13 : UInt8) ∉ ascii "Content-Length: " ++ Decimal.render env.webuiHtml.length :=
    ⟨(otherField_length _).1, (otherField_length _).2.1, not_cr_length _⟩
  refine @endsAtHead_lfMessage_iff [_, _,
    ascii "Content-Length: " ++ Decimal.render env.webuiHtml.length, _, _] ?_ env.webuiHtml
  refine List.forall_mem_cons.mpr ⟨by decide, ?_⟩
  refine List.forall_mem_cons.mpr ⟨by decide, ?_⟩
  exact List.forall_mem_cons.mpr ⟨hlength, by decide⟩

theorem endsAtHead_redirectToLogin : EndsAtHead Api.redirectToLogin := by
  decide +kernel

theorem not_endsAtHead_healthResponse : ¬ EndsAtHead Api.healthResponse := by
  decide +kernel

/-- The other pages have a body. -/
theorem not_silentPage
    (hmetrics : path ≠ ascii "/metrics") (hui : ¬ (path = ascii "/ui" ∨ path = ascii "/ui/")) :
    ¬ SilentPage env sessions path hdrs := by
  intro h
  cases h with
  | metrics hpath => exact hmetrics hpath
  | login hpath => exact hui hpath
  | webui hpath => exact hui hpath

theorem not_endsAtHead_guarded
    {authorized : Bool} {response : Bytes} (h : ¬ EndsAtHead response) :
    ¬ EndsAtHead (if authorized then response else Api.jsonUnauthorized) := by
  cases authorized with
  | true => exact h
  | false =>
      intro hunauthorized
      exact absurd ((endsAtHead_jsonResponse_iff _ _).mp hunauthorized) (by decide)

theorem not_endsAtHead_jsonNotFound : ¬ EndsAtHead Api.jsonNotFound := fun h =>
  absurd ((endsAtHead_jsonResponse_iff _ _).mp h) (by decide)

theorem handleSitesRoute_head
    (hhead : IsHead method) :
    Api.handleSitesRoute env path query method = Api.jsonNotFound := by
  have hdelete : method ≠ ascii "DELETE" := hhead.ne (by decide)
  unfold Api.handleSitesRoute
  dsimp only
  exact if_neg fun h => hdelete h.1

theorem not_endsAtHead_handleApiInner
    (hhead : IsHead method) :
    ¬ EndsAtHead (Api.handleApiInner env path query method body) := by
  have hget : method ≠ ascii "GET" := hhead.ne (by decide)
  have hpost : method ≠ ascii "POST" := hhead.ne (by decide)
  have hdelete : method ≠ ascii "DELETE" := hhead.ne (by decide)
  unfold Api.handleApiInner
  dsimp only
  split
  · exact fun h => absurd ((endsAtHead_jsonResponse_iff _ _).mp h) (by decide)
  · simp only [hget, hpost, hdelete, false_and, if_false]
    exact not_endsAtHead_jsonNotFound

/-- A page of the management API for HEAD. -/
theorem handleApi_head_iff
    (hhead : IsHead method)
    (h : Api.handleApi env settings sessions path query method hdrs body = some answer) :
    EndsAtHead answer.1 ↔ SilentPage env sessions path hdrs := by
  have hget : method ≠ ascii "GET" := hhead.ne (by decide)
  have hpost : method ≠ ascii "POST" := hhead.ne (by decide)
  have hno : ∀ {bytes : Bytes} {after : Api.SessionStore}, ¬ EndsAtHead bytes →
      ¬ SilentPage env sessions path hdrs → some (bytes, after) = some answer →
        (EndsAtHead answer.1 ↔ SilentPage env sessions path hdrs) := by
    intro bytes after hbytes hpage heq
    rw [← Option.some.inj heq]
    exact iff_of_false hbytes hpage
  unfold Api.handleApi at h
  dsimp only at h
  refine of_ite h (fun hhealth => ?_) fun _ h => ?_
  · refine hno not_endsAtHead_healthResponse (not_silentPage ?_ ?_)
    · rw [hhealth]
      decide
    · rw [hhealth]
      decide
  refine of_ite h (fun hmetrics h => ?_) fun hmetrics h => ?_
  · have hui : ¬ (path = ascii "/ui" ∨ path = ascii "/ui/") := by
      rw [hmetrics]
      decide
    rw [← Option.some.inj h, endsAtHead_prometheusMetrics_iff]
    constructor
    · exact fun hempty => .metrics hmetrics hempty
    · intro hpage
      cases hpage with
      | metrics _ hempty => exact hempty
      | login hpath => exact absurd hpath hui
      | webui hpath => exact absurd hpath hui
  refine of_ite h (fun hlogin => absurd hlogin.2 hget) fun _ h => ?_
  refine of_ite h (fun hlogin => absurd hlogin.2 hpost) fun _ h => ?_
  refine of_ite h (fun hlogout => absurd hlogout.2 hpost) fun _ h => ?_
  refine of_ite h (fun hui h => ?_) fun hui h => ?_
  · refine of_ite h (fun hsession h => ?_) fun hsession h => ?_
    · rw [Bool.not_eq_true'] at hsession
      rw [← Option.some.inj h]
      exact iff_of_true endsAtHead_redirectToLogin (.login hui hsession)
    · rw [Bool.not_eq_true', Bool.not_eq_false] at hsession
      rw [← Option.some.inj h, endsAtHead_serveWebui_iff]
      constructor
      · exact fun hempty => .webui hui hsession hempty
      · intro hpage
        cases hpage with
        | metrics hpath => exact absurd hpath hmetrics
        | login _ hno =>
            rw [hsession] at hno
            cases hno
        | webui _ _ hempty => exact hempty
  have hpage := @not_silentPage env sessions path hdrs hmetrics hui
  refine of_ite h (fun hsites => absurd hsites.2 hpost) fun _ h => ?_
  refine of_ite h (fun hsites => absurd hsites.2 hget) fun _ h => ?_
  refine of_ite h (fun _ => hno (not_endsAtHead_guarded ?_) hpage) fun _ h => ?_
  · rw [handleSitesRoute_head hhead]
    exact not_endsAtHead_jsonNotFound
  refine of_ite h (fun hversions => absurd hversions.2 hget) fun _ h => ?_
  refine of_ite h (fun _ => hno (not_endsAtHead_guarded
    (not_endsAtHead_handleApiInner hhead)) hpage) fun _ h => nomatch h

end Management

section Exits

variable {ctx : Context} {env : Env} {st : ServerState} {raw : Bytes}
variable {req routed : ParsedRequest} {server : ServerBlock} {location : Option LocationBlock}

theorem encodeBody_eq_nil_iff
    {resp : StaticResponse} (hcompress : CompressesToText env) :
    (encodeBody ctx env location req resp).1 = [] ↔ resp.body = [] := by
  by_cases hplain : SentPlain ctx env location req (contentTypeOf resp.headers) resp.body
  · rw [encodeBody_of_plain hplain]
  · obtain ⟨coding, compressed, heq, hout⟩ := encodeBody_of_not_plain hplain
    refine iff_of_false (fun hnil => ?_) fun hnil => hplain ?_
    · rw [heq] at hnil
      have hempty : compressed = [] := hnil
      rw [hempty] at hout
      rcases hout with ⟨-, hout⟩ | ⟨-, hout⟩
      · exact hcompress.gzip _ hout
      · exact hcompress.brotli _ hout
    · rw [hnil]
      exact ⟨Compress.not_applies_nil, Compress.not_applies_nil⟩

theorem handler_silent_iff
    {resp : StaticResponse} {effects : List Effect} (hhead : IsHead req.method)
    (h : handlerStage env st server location req = .ok (resp, effects)) :
    resp.body = [] ↔ SilentHandler env server location req := by
  unfold SilentHandler
  cases handlerStage_ok_iff.mp h with
  | static hhandler =>
      rcases hhandler with hhandler | hhandler
      · rw [hhandler]
        exact staticHandler_head_iff hhead
      · rw [hhandler]
        exact staticHandler_head_iff hhead
  | proxy hhandler =>
      rw [hhandler]
  | upstreamGroup hhandler =>
      rw [hhandler]
  | fastCgi hhandler =>
      rw [hhandler]

theorem finishedMessage_head_iff
    {resp : StaticResponse} {effects : List Effect} (hcompress : CompressesToText env)
    (hhead : IsHead req.method)
    (h : handlerStage env st server location req = .ok (resp, effects)) :
    EndsAtHead (finishedMessage ctx env server location req resp).bytes ↔
      SilentHandler env server location req ∧
        ∀ h ∈ configuredHeaders server location, NoEmptyHeader h := by
  obtain ⟨hclean, -⟩ := handler_headers h
  obtain ⟨hencoded, -⟩ := encodedHeaders_clean hclean
    (encodeBody_coding ctx env location req resp) (encodeBody ctx env location req resp).1.length
  have hown : ∀ k ∈ encodedHeaders resp.headers (encodeBody ctx env location req resp).2
      (encodeBody ctx env location req resp).1.length, NoEmptyHeader k := fun k hk =>
    noEmptyHeader_of_lfFree (hencoded k hk).lfFree
  have hsts : ∀ k ∈ hstsHeaders env server, NoEmptyHeader k := fun k hk =>
    noEmptyHeader_of_lfFree (hstsHeaders_plain env server k hk).1.lfFree
  rw [finishedMessage, endsAtHead_replyMessage_iff, encodeBody_eq_nil_iff hcompress,
    handler_silent_iff hhead h]
  unfold finalHeaders
  rw [addedHeaders_eq, List.forall_mem_append, List.forall_mem_append, and_iff_right hown,
    and_iff_left hsts, and_comm]

/-- Routing changes the path of a request only. -/
theorem Routes.method_eq
    (h : Routes ctx env st raw req server location routed) :
    routed.method = req.method := by
  obtain ⟨_, _, _, _, _, rfl⟩ := h.enters
  rfl

theorem TakesRouted.routed_endsAtHead_iff
    {answer : RoutedAnswer} (hcompress : CompressesToText env) (hhead : IsHead req.method)
    (h : TakesRouted ctx env st raw req server answer) :
    EndsAtHead (answer.written ctx env server).bytes ↔ answer.Silent env server := by
  cases h with
  | sslRedirect hreq h => exact endsAtHead_redirectMessage_iff _ _ _
  | serverRedirect hreq hplain h => exact endsAtHead_redirectMessage_iff _ _ _
  | locationRedirect hreq h => exact endsAtHead_redirectMessage_iff _ _ _
  | unauthorized hreq hcfg h =>
      exact iff_of_false (not_endsAtHead_unauthorizedMessage _) not_false
  | limited hreq h => exact iff_of_false (not_endsAtHead_of_body (by decide)) not_false
  | tooLarge hreq h => exact iff_of_false (not_endsAtHead_of_body (by decide)) not_false
  | returned hreq h => exact endsAtHead_returned_iff _ _
  | handlerReturned hreq h => exact endsAtHead_returned_iff _ _
  | upgraded hreq hproxy hws h => exact Iff.rfl
  | upgradeFailed hreq hproxy hws h =>
      have hlength : ∀ k ∈ [(ascii "Content-Length", ascii "0")], LfFree k := by decide
      refine iff_of_true ((endsAtHead_replyMessage_iff _ _ _ _).mpr ⟨?_, rfl⟩) trivial
      exact fun k hk => noEmptyHeader_of_lfFree (hlength k hk)
  | finished hreq h =>
      have hmethod := hreq.toRoutes.method_eq
      exact finishedMessage_head_iff hcompress (hmethod ▸ hhead) h

/--
The bytes that are written for a HEAD request end at the header terminator if and only if
nothing was to be written behind it: not at the exits with a body of their own, and at the
others where file, backend, page and configuration leave the body empty and no header makes
an empty line.
-/
theorem endsAtHead_iff
    {a : Answer} (hcompress : CompressesToText env) (hparses : parseRequest raw = .ok req)
    (hhead : IsHead req.method) (h : Takes ctx env st raw a) :
    EndsAtHead (dispatch ctx env st raw).result.bytes ↔ a.Silent env st req := by
  rw [h.written]
  have hsame : ∀ {req' : ParsedRequest}, parseRequest raw = .ok req' → req' = req := by
    intro req' hparses'
    rw [hparses] at hparses'
    exact (Except.ok.inj hparses').symm
  cases h with
  | blocked h => exact iff_of_false (not_endsAtHead_of_body (by decide)) not_false
  | badRequest hfree h =>
      rw [hparses] at h
      cases h
  | cached hreq h => exact Iff.rfl
  | challenge hreq h =>
      have htype : LfFree (ascii "Content-Type", ascii "application/octet-stream") := by decide
      refine (endsAtHead_replyMessage_iff _ _ _ _).trans (and_iff_right ?_)
      refine List.forall_mem_cons.mpr ⟨noEmptyHeader_of_lfFree htype, ?_⟩
      exact List.forall_mem_singleton.mpr (noEmptyHeader_of_lfFree (lfFree_length _))
  | userApi hreq hchallenge h =>
      obtain rfl := hsame hreq.parses
      rw [userApiAnswer, handleUserApi_head hhead] at h
      cases h
  | api hreq hchallenge huser h =>
      obtain rfl := hsame hreq.parses
      exact handleApi_head_iff hhead h
  | routed h =>
      obtain rfl := hsame h.proceeds.parses
      exact h.routed_endsAtHead_iff hcompress hhead

end Exits

section Example

def headRequest : Bytes :=
  requestOf ["HEAD /a.txt HTTP/1.1"]

theorem headRequest_parses : parseRequest headRequest = .ok (fileAsked (ascii "HEAD") []) := by
  decide +kernel

theorem quietEnv_compresses
    (fs : FileSystem) :
    CompressesToText (quietEnv fs) :=
  ⟨nofun, nofun⟩

/-- The request gets to the static handler. -/
theorem headRequest_taken
    (root : Bytes) :
    Takes (contextOf (serverAt root)) (quietEnv exampleFiles) (stateWithCache 0 0) headRequest
      (.routed (serverAt root) (.finished none (fileAsked (ascii "HEAD") [])
        (staticHandler exampleFiles (serverAt root) none (ascii "/a.txt") (ascii "HEAD") []))) := by
  have hmissed : Missed (quietEnv exampleFiles) (stateWithCache 0 0) headRequest
      (fileAsked (ascii "HEAD") []) :=
    ⟨⟨rfl, headRequest_parses⟩, rfl⟩
  have hproceeds : Proceeds (contextOf (serverAt root)) (quietEnv exampleFiles)
      (stateWithCache 0 0) headRequest (fileAsked (ascii "HEAD") []) :=
    ⟨hmissed, rfl, rfl, rfl⟩
  have hroutes : Routes (contextOf (serverAt root)) (quietEnv exampleFiles) (stateWithCache 0 0)
      headRequest (fileAsked (ascii "HEAD") []) (serverAt root) none
        (fileAsked (ascii "HEAD") []) :=
    hproceeds.routes_alone rfl rfl rfl rfl
  exact .routed (.finished ⟨⟨⟨⟨hroutes, nofun⟩, rfl⟩, Nat.zero_le _⟩, rfl⟩ rfl)

/-- The headers of a file are sent alone. -/
theorem endsAtHead_iff_example :
    EndsAtHead (dispatch (contextOf (serverAt (ascii "/srv"))) (quietEnv exampleFiles)
      (stateWithCache 0 0) headRequest).result.bytes := by
  have hhead : IsHead (fileAsked (ascii "HEAD") []).method := by
    unfold IsHead
    decide
  have htarget : staticTarget exampleFiles (serverAt (ascii "/srv")) none (ascii "/a.txt") =
      .ok (ascii "/srv/a.txt", ⟨ascii "hello", some 7, true, by decide⟩) := by
    rfl
  exact (endsAtHead_iff (quietEnv_compresses exampleFiles) headRequest_parses hhead
    (headRequest_taken (ascii "/srv"))).mpr ⟨.whole htarget (Or.inr rfl), nofun⟩

/-- The error page of a missing file is sent for HEAD as well. -/
theorem missing_file_has_body :
    ¬ ∀ (ctx : Context) (env : Env) (st : ServerState) (raw : Bytes) (req : ParsedRequest),
      CompressesToText env → parseRequest raw = .ok req → IsHead req.method →
        EndsAtHead (dispatch ctx env st raw).result.bytes := by
  intro h
  have hends := h (contextOf (serverAt (ascii "/none"))) (quietEnv exampleFiles)
    (stateWithCache 0 0) headRequest (fileAsked (ascii "HEAD") [])
    (quietEnv_compresses exampleFiles) headRequest_parses (by unfold IsHead; decide)
  exact absurd hends (by decide +kernel)

end Example

end Handler
end RunNginx
