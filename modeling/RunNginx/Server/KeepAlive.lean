import RunNginx.Lib.Persistence
import RunNginx.Server.Exits
import RunNginx.Server.Framing

/-!
# The persistence that is signalled and the one that is practised

Each exit of the dispatcher writes a Connection header and sets a flag for the connection
loop, one independently of the other.  `Misleading` lists the requests for which the two
differ.
-/

namespace RunNginx
namespace Handler

open ByteString HttpMessage StaticFiles Proxy EarlyReturn

/-- The bytes ask to keep the connection exactly if the connection loop keeps it. -/
def Agrees (r : HandlerResult) : Prop :=
  saysKeepAlive r.bytes = r.keepAlive

section Headers

/-- A clean header of another field. -/
def PlainHeader (h : Bytes × Bytes) : Prop :=
  CleanHeader h ∧ eqIgnoreCase h.1 (ascii "connection") = false

instance (h : Bytes × Bytes) : Decidable (PlainHeader h) := by
  unfold PlainHeader
  infer_instance

theorem plain_of_name
    {name value : Bytes} (hname : PlainHeader (name, [])) (hvalue : (10 : UInt8) ∉ value) :
    PlainHeader (name, value) :=
  ⟨⟨hname.1.1, hname.1.2.1, hvalue⟩, hname.2⟩

theorem otherField_headerLine
    {h : Bytes × Bytes} (hplain : PlainHeader h) :
    OtherField (Response.headerLine h) := by
  refine ⟨headerLine_ne_nil h, not_lf_headerLine hplain.1.1 hplain.1.2.2, ?_⟩
  rw [Response.headerLine_eq, valueOf_field _ hplain.1.2.1, hplain.2]
  rfl

theorem otherField_map
    {hdrs : Headers} (h : ∀ k ∈ hdrs, PlainHeader k) :
    ∀ l ∈ hdrs.map Response.headerLine, OtherField l := by
  intro l hl
  obtain ⟨k, hk, rfl⟩ := List.mem_map.mp hl
  exact otherField_headerLine (h k hk)

def isConnection (h : Bytes × Bytes) : Bool :=
  eqIgnoreCase h.1 (ascii "connection")

/-- Of clean headers only the Connection headers matter. -/
theorem headSays_connection
    {hdrs : Headers} (h : ∀ k ∈ hdrs, CleanHeader k) (before after : List Bytes)
    (keepAlive : Bool) :
    headSays (before ++ (hdrs.map Response.headerLine ++ after)) keepAlive =
      headSays (before ++ ((hdrs.filter isConnection).map Response.headerLine ++ after))
        keepAlive := by
  induction hdrs generalizing before with
  | nil => rfl
  | cons k hdrs ih =>
      have hrest := ih (fun k hk => h k (List.mem_cons_of_mem _ hk))
      rw [List.filter_cons]
      split
      · have hone := hrest (before ++ [Response.headerLine k])
        simpa using hone
      · rename_i hother
        have hplain : PlainHeader k :=
          ⟨h k List.mem_cons_self, Bool.eq_false_iff.mpr hother⟩
        have hdrop := headSays_other (otherField_map (List.forall_mem_singleton.mpr hplain))
          before (hdrs.map Response.headerLine ++ after) keepAlive
        exact hdrop.trans (hrest before)

/-- What a serialized response says. -/
theorem formatResponse_told
    (status : Nat) (hdrs : Headers) (keepAlive : Bool) (body : Bytes) :
    saysKeepAlive (Response.formatResponse status hdrs keepAlive body) =
      headSays (hdrs.map Response.headerLine) keepAlive := by
  have hserver : ∀ l ∈ [ascii "Server: RunNginx/" ++ pkgVersion], OtherField l := by
    decide
  have hmessage := saysKeepAlive_message
    (statusLine_ok status (not_lf_statusReason status))
    ([] ++ ([ascii "Server: RunNginx/" ++ pkgVersion] ++ hdrs.map Response.headerLine))
    keepAlive body
  rw [headSays_other hserver] at hmessage
  exact hmessage

/-- Headers of other fields leave a response as it was asked for. -/
theorem plainResponse_told
    {hdrs : Headers} (h : ∀ k ∈ hdrs, PlainHeader k) (status : Nat) (keepAlive : Bool)
    (body : Bytes) :
    saysKeepAlive (Response.formatResponse status hdrs keepAlive body) = keepAlive := by
  rw [formatResponse_told, headSays_of_other (otherField_map h)]

theorem plain_length
    (len : Nat) :
    PlainHeader (ascii "Content-Length", Decimal.render len) :=
  plain_of_name (by decide) (not_lf_render len)

end Headers

section HandlerHeaders

theorem errorResponse_plain
    (status : Nat) (message : Bytes) :
    ∀ k ∈ (errorResponse status message).headers, PlainHeader k := by
  refine List.forall_mem_cons.mpr ⟨by decide, List.forall_mem_singleton.mpr ?_⟩
  exact plain_length _

theorem baseHeaders_plain
    (path : Bytes) (data : FileData) (size : Nat) :
    ∀ k ∈ baseHeaders (mimeForPath path) size (etagOf data), PlainHeader k := by
  refine List.forall_mem_cons.mpr ⟨plain_of_name (by decide) (not_lf_mime path), ?_⟩
  refine List.forall_mem_cons.mpr ⟨plain_length _, ?_⟩
  refine List.forall_mem_cons.mpr ⟨plain_of_name (by decide) (not_lf_etag data), ?_⟩
  decide

theorem serveFile_plain
    (fs : FileSystem) (path : Bytes) (data : FileData) (method : Bytes) (hdrs : Headers) :
    ∀ k ∈ (serveFile fs path data method hdrs).headers, PlainHeader k := by
  unfold serveFile
  dsimp only
  split
  · refine List.forall_mem_cons.mpr ⟨plain_of_name (by decide) (not_lf_etag data), ?_⟩
    decide
  split
  · rename_i first last _
    unfold serveRange
    split
    · exact errorResponse_plain _ _
    dsimp only
    split
    · exact errorResponse_plain _ _
    · have hrange : (10 : UInt8) ∉ ascii "bytes " ++ Decimal.render first ++ ascii "-" ++
          Decimal.render last ++ ascii "/" ++ Decimal.render data.content.length := by
        have hbytes : (10 : UInt8) ∉ ascii "bytes " := by decide
        have hdash : (10 : UInt8) ∉ ascii "-" := by decide
        have hslash : (10 : UInt8) ∉ ascii "/" := by decide
        simp [not_lf_render, hbytes, hdash, hslash]
      refine List.forall_mem_cons.mpr ⟨plain_of_name (by decide) (not_lf_mime path), ?_⟩
      refine List.forall_mem_cons.mpr ⟨plain_length _, ?_⟩
      refine List.forall_mem_cons.mpr ⟨plain_of_name (by decide) hrange, ?_⟩
      refine List.forall_mem_cons.mpr ⟨plain_of_name (by decide) (not_lf_etag data), ?_⟩
      decide
  · unfold serveFull
    dsimp only
    split
    · exact baseHeaders_plain _ _ _
    split
    · exact baseHeaders_plain _ _ _
    · exact errorResponse_plain _ _

theorem staticHandler_plain
    (fs : FileSystem) (server : ServerBlock) (location : Option LocationBlock)
    (uriPath method : Bytes) (hdrs : Headers) :
    ∀ k ∈ (staticHandler fs server location uriPath method hdrs).headers, PlainHeader k := by
  have hstatic : ∀ location uriPath method hdrs,
      ∀ k ∈ (serveStatic fs server location uriPath method hdrs).headers, PlainHeader k :=
    fun location uriPath method hdrs =>
      serveStatic_rule (P := fun resp => ∀ k ∈ resp.headers, PlainHeader k)
        (fun status message _ => errorResponse_plain status message)
        (fun _ code _ _ => errorResponse_plain code _)
        (fun _ path data _ _ _ => serveFile_plain fs path data method hdrs) uriPath
  unfold staticHandler
  dsimp only
  split
  · split
    · split
      · exact hstatic _ _ _ _
      · exact hstatic _ _ _ _
    · exact hstatic _ _ _ _
  · exact hstatic _ _ _ _

/-- A header of a response head holds no line end, and its name no colon. -/
theorem splitHeader_clean
    {line : Bytes} {h : Bytes × Bytes} (hline : (10 : UInt8) ∉ line)
    (hsplit : splitHeader line = some h) :
    CleanHeader h := by
  obtain ⟨colon, hfind, rfl⟩ := Option.map_eq_some_iff.mp hsplit
  obtain ⟨-, -, hname⟩ := find_byte_split hfind
  refine ⟨fun hmem => ?_, fun hmem => ?_, fun hmem => ?_⟩
  · exact hline (List.mem_of_mem_take (Utf8.mem_of_mem_trim hmem))
  · exact hname (Utf8.mem_of_mem_trim hmem)
  · exact hline (List.mem_of_mem_drop (Utf8.mem_of_mem_trim hmem))

theorem parseProxyResponse_plain
    {buf : Bytes} {resp : StaticResponse} (h : parseProxyResponse buf = .ok resp) :
    ∀ k ∈ resp.headers, PlainHeader k := by
  unfold parseProxyResponse at h
  split at h
  · cases h
  split at h
  · cases h
  split at h
  · cases h
  · rename_i statusLine rest hlines
    cases h
    intro k hk
    obtain ⟨hk, hhop⟩ := List.mem_filter.mp hk
    obtain ⟨line, hline, hsplit⟩ := List.mem_filterMap.mp hk
    refine ⟨splitHeader_clean (not_lf_of_mem_lines (hlines ▸ List.mem_cons_of_mem _ hline))
      hsplit, ?_⟩
    have hnamed : isNamed responseHop k.1 = false := by simpa using hhop
    exact Bool.eq_false_iff.mpr fun hconnection =>
      Bool.eq_false_iff.mp hnamed (List.any_eq_true.mpr ⟨_, List.mem_cons_self, hconnection⟩)

theorem proxyPage_plain
    {r : Except Bytes StaticResponse × List NetEvent}
    (h : ∀ resp, r.1 = .ok resp → ∀ k ∈ resp.headers, PlainHeader k) :
    ∀ k ∈ (orBadGateway r).1.headers, PlainHeader k := by
  obtain ⟨answer | resp, events⟩ := r
  · exact List.forall_mem_cons.mpr ⟨by decide, List.forall_mem_singleton.mpr (plain_length _)⟩
  · exact h resp rfl

theorem sendAndReceive_plain
    {request : Bytes} {ex : Exchange} {resp : StaticResponse}
    (h : (sendAndReceive request ex).1 = .ok resp) :
    ∀ k ∈ resp.headers, PlainHeader k := by
  unfold sendAndReceive at h
  dsimp only at h
  split at h
  · cases h
  · cases h
  split at h
  · cases h
  · cases h
  · exact parseProxyResponse_plain h

theorem proxyRequest_plain
    (cfg : ProxyConfig) (method path locationPrefix : Bytes) (hdrs : Headers) (body : Bytes)
    (ex : Exchange) :
    ∀ k ∈ (proxyRequest cfg method path locationPrefix hdrs body ex).1.headers,
      PlainHeader k := by
  refine proxyPage_plain ?_
  intro resp h
  unfold doProxy at h
  split at h
  · cases h
  split at h
  · cases h
  · dsimp only at h
    split at h
    · cases h
    · rename_i sent hsent
      cases h
      exact sendAndReceive_plain (congrArg Prod.fst hsent)

theorem groupHandler_plain
    (env : Env) (location : Option LocationBlock) (group : Bytes) (req : ParsedRequest) :
    ∀ k ∈ (groupHandler env location group req).1.headers, PlainHeader k := by
  unfold groupHandler
  split
  · exact proxyPage_plain fun resp h => sendAndReceive_plain h
  · exact List.forall_mem_cons.mpr ⟨by decide, List.forall_mem_singleton.mpr (plain_length _)⟩
  · exact List.forall_mem_cons.mpr ⟨by decide, List.forall_mem_singleton.mpr (plain_length _)⟩

theorem cgiHeaders_clean
    {ls : List Bytes} (hls : ∀ l ∈ ls, (10 : UInt8) ∉ l) {status : Nat} {hdrs : Headers}
    (hhdrs : ∀ k ∈ hdrs, CleanHeader k) :
    ∀ k ∈ (FastCgi.cgiHeaders status hdrs ls).2, CleanHeader k := by
  induction ls generalizing status hdrs with
  | nil => exact hhdrs
  | cons l ls ih =>
      have hrest := fun l hl => hls l (List.mem_cons_of_mem _ hl)
      unfold FastCgi.cgiHeaders
      split
      · exact ih hrest hhdrs
      split
      · exact ih hrest hhdrs
      split
      · rename_i header hsplit
        refine ih hrest ?_
        intro k hk
        rcases List.mem_append.mp hk with hk | hk
        · exact hhdrs k hk
        · rw [List.mem_singleton.mp hk]
          exact splitHeader_clean (hls l List.mem_cons_self) hsplit
      · exact ih hrest hhdrs

theorem fastcgiRequest_clean
    (stdout : Except Bytes Bytes) :
    ∀ k ∈ (FastCgi.fastcgiRequest stdout).headers, CleanHeader k := by
  have hlength : ∀ len, CleanHeader (ascii "Content-Length", Decimal.render len) :=
    fun len => (plain_length len).1
  have hparse : ∀ data resp, FastCgi.parseCgiResponse data = .ok resp →
      ∀ k ∈ resp.headers, CleanHeader k := by
    intro data resp h
    unfold FastCgi.parseCgiResponse at h
    split at h
    · cases h
    split at h
    · cases h
    · rename_i hdrEnd bodyStart _ _
      have hclean := @cgiHeaders_clean (lines (data.take hdrEnd))
        (fun l hl => not_lf_of_mem_lines hl) 200 [] (fun k hk => nomatch hk)
      cases h
      dsimp only
      split
      · exact hclean
      · intro k hk
        rcases List.mem_append.mp hk with hk | hk
        · exact hclean k hk
        · rw [List.mem_singleton.mp hk]
          exact hlength _
  unfold FastCgi.fastcgiRequest
  split
  · rename_i resp hresp
    cases stdout with
    | error e => cases hresp
    | ok data => exact hparse data resp hresp
  · exact List.forall_mem_cons.mpr ⟨by decide, List.forall_mem_singleton.mpr (hlength _)⟩

end HandlerHeaders

section Finished

variable {ctx : Context} {env : Env} {st : ServerState} {server : ServerBlock}
variable {location : Option LocationBlock} {req : ParsedRequest}

variable (env server location req) in
/-- The headers of an application server, which are handed on as they are. -/
def applicationHeaders : Headers :=
  match location.map LocationBlock.handler with
  | some (.fastCgi fc) => (fastCgiHandler env server location fc req).1.headers
  | _ => []

theorem hstsHeaders_plain
    (env : Env) (server : ServerBlock) :
    ∀ k ∈ hstsHeaders env server, PlainHeader k := by
  unfold hstsHeaders
  split
  · split
    · exact List.forall_mem_singleton.mpr (plain_of_name (by decide) (not_lf_hstsValue _ _))
    · nofun
  · nofun

theorem no_connection_of_plain
    {hdrs : Headers} (h : ∀ k ∈ hdrs, PlainHeader k) :
    hdrs.filter isConnection = [] :=
  List.filter_eq_nil_iff.mpr fun k hk => Bool.eq_false_iff.mp (h k hk).2

/-- Only an application server says anything about the connection. -/
theorem handler_headers
    {resp : StaticResponse} {effects : List Effect}
    (h : handlerStage env st server location req = .ok (resp, effects)) :
    (∀ k ∈ resp.headers, CleanHeader k) ∧
      resp.headers.filter isConnection =
        (applicationHeaders env server location req).filter isConnection := by
  have hplain : ∀ hdrs : Headers, (∀ k ∈ hdrs, PlainHeader k) →
      (∀ k ∈ hdrs, CleanHeader k) ∧ hdrs.filter isConnection = ([] : Headers).filter isConnection :=
    fun hdrs hp => ⟨fun k hk => (hp k hk).1, no_connection_of_plain hp⟩
  unfold applicationHeaders
  cases handlerStage_ok_iff.mp h with
  | static hhandler =>
      rcases hhandler with hhandler | hhandler
      · rw [hhandler]
        exact hplain _ (staticHandler_plain _ _ _ _ _ _)
      · rw [hhandler]
        exact hplain _ (staticHandler_plain _ _ _ _ _ _)
  | proxy hhandler =>
      rw [hhandler]
      exact hplain _ (proxyRequest_plain _ _ _ _ _ _ _)
  | @upstreamGroup group hhandler =>
      rw [hhandler]
      exact hplain _ (groupHandler_plain env location group req)
  | fastCgi hhandler =>
      rw [hhandler]
      exact ⟨fastcgiRequest_clean _, rfl⟩

theorem replaceContentLength_clean
    {hdrs : Headers} (h : ∀ k ∈ hdrs, CleanHeader k) (len : Nat) :
    (∀ k ∈ replaceContentLength len hdrs, CleanHeader k) ∧
      (replaceContentLength len hdrs).filter isConnection = hdrs.filter isConnection := by
  induction hdrs with
  | nil => exact ⟨h, rfl⟩
  | cons k hdrs ih =>
      obtain ⟨hk, hrest⟩ := List.forall_mem_cons.mp h
      unfold replaceContentLength
      split
      · rename_i hname
        refine ⟨List.forall_mem_cons.mpr ⟨(plain_length len).1, hrest⟩, ?_⟩
        have hother : isConnection k = false := by
          have hlower : toAsciiLower k.1 = toAsciiLower (ascii "content-length") :=
            eq_of_beq hname
          unfold isConnection eqIgnoreCase
          rw [hlower]
          decide
        have hlength : isConnection (ascii "Content-Length", Decimal.render len) = false :=
          (plain_length len).2
        rw [List.filter_cons, List.filter_cons, hlength, hother]
        rfl
      · obtain ⟨hclean, hfilter⟩ := ih hrest
        refine ⟨List.forall_mem_cons.mpr ⟨hk, hclean⟩, ?_⟩
        rw [List.filter_cons, List.filter_cons, hfilter]

theorem encodedHeaders_clean
    {hdrs : Headers} (h : ∀ k ∈ hdrs, CleanHeader k) {coding : Option Bytes}
    (hcoding : ∀ c ∈ coding, (10 : UInt8) ∉ c) (len : Nat) :
    (∀ k ∈ encodedHeaders hdrs coding len, CleanHeader k) ∧
      (encodedHeaders hdrs coding len).filter isConnection = hdrs.filter isConnection := by
  cases coding with
  | none => exact ⟨h, rfl⟩
  | some c =>
      have hc : PlainHeader (ascii "Content-Encoding", c) :=
        plain_of_name (by decide) (hcoding c rfl)
      have hall : ∀ k ∈ hdrs ++ [(ascii "Content-Encoding", c)], CleanHeader k :=
        List.forall_mem_append.mpr ⟨h, List.forall_mem_singleton.mpr hc.1⟩
      obtain ⟨hclean, hfilter⟩ := replaceContentLength_clean hall len
      refine ⟨hclean, hfilter.trans ?_⟩
      rw [List.filter_append, no_connection_of_plain (List.forall_mem_singleton.mpr hc),
        List.append_nil]

theorem encodeBody_coding
    (ctx : Context) (env : Env) (location : Option LocationBlock) (req : ParsedRequest)
    (resp : StaticResponse) :
    ∀ c ∈ (encodeBody ctx env location req resp).2, (10 : UInt8) ∉ c := by
  unfold encodeBody
  dsimp only
  split
  · rintro c ⟨⟩
    decide
  split
  · rintro c ⟨⟩
    decide
  · nofun

/-- What an answer of a handler says. -/
theorem finish_told
    {resp : StaticResponse} {effects : List Effect}
    (h : handlerStage env st server location req = .ok (resp, effects)) :
    saysKeepAlive (finish ctx env st server location req resp effects).result.bytes =
      headSays ((applicationHeaders env server location req ++
        configuredHeaders server location).map Response.headerLine) req.keepAlive := by
  obtain ⟨hclean, hfilter⟩ := handler_headers h
  obtain ⟨hencoded, hsame⟩ := encodedHeaders_clean hclean
    (encodeBody_coding ctx env location req resp)
    (encodeBody ctx env location req resp).1.length
  have happ : ∀ k ∈ applicationHeaders env server location req, CleanHeader k := by
    unfold applicationHeaders
    split
    · exact fastcgiRequest_clean _
    · nofun
  unfold finish finalHeaders
  dsimp only
  rw [formatResponse_told, addedHeaders_eq, List.map_append, List.map_append, List.map_append]
  have hfront := fun after : List Bytes =>
    ((headSays_connection hencoded [] after req.keepAlive).trans
      (by rw [hsame, hfilter])).trans
        (headSays_connection happ [] after req.keepAlive).symm
  have hback := headSays_other (otherField_map (hstsHeaders_plain env server))
    ((applicationHeaders env server location req).map Response.headerLine ++
      (configuredHeaders server location).map Response.headerLine) [] req.keepAlive
  rw [List.append_nil, List.append_nil, List.append_assoc] at hback
  exact (hfront _).trans hback

end Finished

section ApiAnswers

/-- A message that is written line by line and whose other lines are of other fields. -/
theorem lines_told
    {startLine : Bytes} (hstart : startLine ≠ [] ∧ (10 : UInt8) ∉ startLine)
    {ls : List Bytes} (h : ∀ l ∈ ls, OtherField l) (keepAlive : Bool) (body : Bytes) :
    saysKeepAlive (joinLines (startLine :: (ls ++ [connectionLine keepAlive])) ++ crlf ++ body) =
      keepAlive := by
  rw [saysKeepAlive_message hstart, headSays_of_other h]

theorem otherField_length
    (len : Nat) :
    OtherField (ascii "Content-Length: " ++ Decimal.render len) := by
  have h := otherField_headerLine (plain_length len)
  exact h

theorem otherField_lines
    (before after : List Bytes) (h : ∀ l ∈ before ++ after, OtherField l) (len : Nat) :
    ∀ l ∈ before ++ (ascii "Content-Length: " ++ Decimal.render len) :: after, OtherField l := by
  obtain ⟨hbefore, hafter⟩ := List.forall_mem_append.mp h
  exact List.forall_mem_append.mpr
    ⟨hbefore, List.forall_mem_cons.mpr ⟨otherField_length len, hafter⟩⟩

theorem jsonOk_told
    (body : Bytes) :
    saysKeepAlive (MultiUser.jsonOk body) = true :=
  lines_told (by decide) (otherField_lines
    [ascii "Content-Type: application/json"] [] (by decide) body.length) true body

theorem jsonErr_told
    (status : Nat) (msg : Bytes) :
    saysKeepAlive (MultiUser.jsonErr status msg) = true := by
  have hreason : (10 : UInt8) ∉ (if status = 400 then ascii "Bad Request"
      else if status = 404 then ascii "Not Found" else ascii "Internal Server Error") := by
    split
    · decide
    split
    · decide
    · decide
  exact lines_told (statusLine_ok status hreason) (otherField_lines
    [ascii "Content-Type: application/json"] [] (by decide) _) true _

/-- Every answer of the user API asks to keep the connection. -/
theorem userApi_told
    {env : MultiUser.UserApiEnv} {registry : MultiUser.UserRegistry}
    {path method body apiKey : Bytes} {isAdmin : Bool}
    {answer : Bytes × MultiUser.UserRegistry}
    (h : MultiUser.handleUserApi env registry path method body apiKey isAdmin = some answer) :
    saysKeepAlive answer.1 = true := by
  unfold MultiUser.handleUserApi at h
  dsimp only at h
  refine of_ite h (fun _ h => nomatch h) fun _ h => ?_
  refine of_ite h (fun _ h => ?_) fun _ h => ?_
  · rw [← Option.some.inj h]
    exact jsonOk_told _
  refine of_ite h (fun _ h => ?_) fun _ h => ?_
  · rw [← Option.some.inj h]
    unfold MultiUser.postUser
    dsimp only
    split
    · exact jsonErr_told _ _
    split
    · exact jsonErr_told _ _
    split
    · exact jsonOk_told _
    · exact jsonErr_told _ _
  refine of_ite h (fun _ h => ?_) fun _ h => ?_
  · split at h
    · rw [← Option.some.inj h]
      exact jsonOk_told _
    · rw [← Option.some.inj h]
      exact jsonErr_told _ _
  refine of_ite h (fun _ h => ?_) fun _ h => nomatch h
  split at h
  · rw [← Option.some.inj h]
    exact jsonOk_told _
  · rw [← Option.some.inj h]
    exact jsonErr_told _ _

theorem jsonResponse_told
    (status : Nat) (body : Bytes) :
    saysKeepAlive (Api.jsonResponse status body) = false := by
  have hreason : (10 : UInt8) ∉ Api.jsonReason status := by
    unfold Api.jsonReason
    split <;> decide
  exact lines_told (statusLine_ok status hreason) (otherField_lines
    [ascii "Content-Type: application/json"] [ascii "Server: RunNginx/" ++ pkgVersion]
    (by decide) body.length) false body

variable {env : Api.ApiEnv} {settings : Api.ApiSettings} {sessions : Api.SessionStore}
variable {path query method body : Bytes} {hdrs : Headers} {answer : Bytes × Api.SessionStore}

theorem runCall_told
    (env : Api.ApiEnv) (call : Api.ApiCall) :
    saysKeepAlive (Api.runCall env call) = false :=
  jsonResponse_told _ _

theorem healthResponse_told : saysKeepAlive Api.healthResponse = false :=
  lines_told (by decide) (otherField_lines [ascii "Content-Type: application/json"] []
    (by decide) _) false _

theorem prometheusMetrics_told
    (env : Api.ApiEnv) :
    saysKeepAlive (Api.prometheusMetrics env) = true :=
  lines_told (by decide) (otherField_lines
    [ascii "Content-Type: text/plain; version=0.0.4; charset=utf-8"] [] (by decide) _) true _

theorem serveLogin_told
    (env : Api.ApiEnv) :
    saysKeepAlive (Api.serveLogin env) = true :=
  lines_told (by decide) (otherField_lines [ascii "Content-Type: text/html; charset=utf-8"]
    [ascii "Cache-Control: no-cache"] (by decide) _) true _

theorem redirectToLogin_told : saysKeepAlive Api.redirectToLogin = false := by
  decide

theorem logoutResponse_told : saysKeepAlive Api.logoutResponse = false := by
  decide

theorem not_cr_length
    (len : Nat) :
    (13 : UInt8) ∉ ascii "Content-Length: " ++ Decimal.render len := by
  have hname : (13 : UInt8) ∉ ascii "Content-Length: " := by decide
  rw [List.mem_append]
  rintro (h | h)
  · exact hname h
  · exact absurd (Decimal.isDigit_of_mem_render h) (by decide)

theorem serveWebui_told
    (env : Api.ApiEnv) :
    saysKeepAlive (Api.serveWebui env) = true := by
  refine saysKeepAlive_lfMessage (by decide)
    [_, ascii "Content-Length: " ++ Decimal.render env.webuiHtml.length, _] ?_ true
    env.webuiHtml
  refine List.forall_mem_cons.mpr ⟨by decide, ?_⟩
  refine List.forall_mem_cons.mpr ⟨⟨otherField_length _, not_cr_length _⟩, ?_⟩
  decide

theorem apiLogs_told
    (env : Api.ApiEnv) (query : Bytes) :
    saysKeepAlive (Api.apiLogs env query) = false := by
  refine saysKeepAlive_lfMessage (by decide)
    [_, ascii "Content-Length: " ++ Decimal.render _] ?_ false _
  refine List.forall_mem_cons.mpr ⟨by decide, List.forall_mem_singleton.mpr ?_⟩
  exact ⟨otherField_length _, not_cr_length _⟩

/-- The cookie line of a login. -/
def cookieLine (hdrs : Headers) (token : Bytes) : Bytes :=
  ascii "Set-Cookie: session=" ++ token ++
    ascii "; Path=/; HttpOnly; SameSite=Strict; Max-Age=28800" ++
    if hdrs.any fun h =>
      eqIgnoreCase h.1 (ascii "x-forwarded-proto") && eqIgnoreCase h.2 (ascii "https")
    then ascii "; Secure" else []

theorem loginResponse_told
    (hdrs : Headers) (token : Bytes) :
    saysKeepAlive (Api.loginResponse hdrs token) = headSays [cookieLine hdrs token] false := by
  have hbefore : ∀ l ∈ [ascii "Content-Type: application/json"], OtherField l := by decide
  have hafter : ∀ l ∈ [ascii "Content-Length: 10"], OtherField l := by decide
  have hmessage := @saysKeepAlive_message (ascii "HTTP/1.1 200 OK") (by decide)
    [ascii "Content-Type: application/json", cookieLine hdrs token,
      ascii "Content-Length: 10"] false (ascii "\x7b\"ok\":true\x7d")
  have hfirst := headSays_other hbefore []
    [cookieLine hdrs token, ascii "Content-Length: 10"] false
  have hlast := headSays_other hafter [cookieLine hdrs token] [] false
  exact hmessage.trans (hfirst.trans hlast)

theorem handleSitesRoute_told
    (env : Api.ApiEnv) (path query method : Bytes) :
    saysKeepAlive (Api.handleSitesRoute env path query method) = false := by
  unfold Api.handleSitesRoute
  dsimp only
  split
  · exact runCall_told _ _
  · exact jsonResponse_told _ _

theorem handleApiInner_told
    (env : Api.ApiEnv) (path query method body : Bytes) :
    saysKeepAlive (Api.handleApiInner env path query method body) = false := by
  unfold Api.handleApiInner
  dsimp only
  split
  · exact jsonResponse_told _ _
  split
  · exact runCall_told _ _
  split
  · exact runCall_told _ _
  split
  · exact runCall_told _ _
  split
  · exact apiLogs_told _ _
  split
  · exact runCall_told _ _
  split
  · exact runCall_told _ _
  split
  · exact runCall_told _ _
  split
  · exact runCall_told _ _
  · exact jsonResponse_told _ _

variable (env settings sessions path method hdrs body) in
/-- Requests that the management API answers with a page that asks to keep the connection. -/
inductive OpenPage : Prop
  | metrics
      (hpath : path = ascii "/metrics")
  | login
      (hpath : path = ascii "/login") (hmethod : method = ascii "GET")
  | webui
      (hpath : path = ascii "/ui" ∨ path = ascii "/ui/")
      (hsession : Api.hasValidSession env sessions hdrs = true)
  /-- The token would have to hold line ends. -/
  | cookie
      (hpath : path = ascii "/login") (hmethod : method = ascii "POST")
      (hrate : env.rateAllows = true)
      (hlogin : env.parseLogin body = some (settings.adminUser, settings.adminPassword))
      (htoken : headSays [cookieLine hdrs env.token] false = true)

/-- The rest of the paths are answered with pages that ask to close. -/
theorem not_openPage
    (hmetrics : path ≠ ascii "/metrics") (hlogin : path ≠ ascii "/login")
    (hui : ¬ (path = ascii "/ui" ∨ path = ascii "/ui/")) :
    ¬ OpenPage env settings sessions path method body hdrs := by
  intro h
  cases h with
  | metrics hpath => exact hmetrics hpath
  | login hpath => exact hlogin hpath
  | webui hpath => exact hui hpath
  | cookie hpath => exact hlogin hpath

/-- A login asks to keep the connection where its cookie says so. -/
theorem openPage_login_iff
    (hpath : path = ascii "/login") (hmethod : method = ascii "POST")
    (hrate : env.rateAllows = true) :
    OpenPage env settings sessions path method body hdrs ↔
      env.parseLogin body = some (settings.adminUser, settings.adminPassword) ∧
        headSays [cookieLine hdrs env.token] false = true := by
  constructor
  · intro h
    cases h with
    | metrics hpath' =>
        rw [hpath] at hpath'
        exact absurd hpath' (by decide)
    | login _ hmethod' =>
        rw [hmethod] at hmethod'
        exact absurd hmethod' (by decide)
    | webui hpath' =>
        rw [hpath] at hpath'
        exact absurd hpath' (by decide)
    | cookie _ _ _ hlogin htoken => exact ⟨hlogin, htoken⟩
  · rintro ⟨hlogin, htoken⟩
    exact .cookie hpath hmethod hrate hlogin htoken

theorem handleLoginPost_told
    (hpath : path = ascii "/login") (hmethod : method = ascii "POST")
    (hrate : env.rateAllows = true) :
    saysKeepAlive (Api.handleLoginPost env settings sessions hdrs body).1 = true ↔
      OpenPage env settings sessions path method body hdrs := by
  rw [openPage_login_iff hpath hmethod hrate]
  unfold Api.handleLoginPost
  split
  · rename_i hbody
    rw [jsonResponse_told, hbody]
    exact iff_of_false Bool.false_ne_true nofun
  rename_i user pass hbody
  rw [hbody]
  split
  · rename_i hmatch
    obtain ⟨rfl, rfl⟩ := hmatch
    rw [loginResponse_told]
    exact (and_iff_right rfl).symm
  · rename_i hmatch
    rw [jsonResponse_told]
    refine iff_of_false Bool.false_ne_true ?_
    rintro ⟨hsame, -⟩
    cases hsame
    exact hmatch ⟨rfl, rfl⟩

/-- The rest of the paths of the interface are not answered with such a page. -/
theorem not_openPage_of_others
    (hmetrics : ¬ path = ascii "/metrics")
    (hlogin : ¬ (path = ascii "/login" ∧ method = ascii "GET"))
    (hpost : ¬ (path = ascii "/login" ∧ method = ascii "POST"))
    (hui : ¬ (path = ascii "/ui" ∨ path = ascii "/ui/")) :
    ¬ OpenPage env settings sessions path method body hdrs := by
  intro hpage
  cases hpage with
  | metrics hpath => exact hmetrics hpath
  | login hpath hmethod => exact hlogin ⟨hpath, hmethod⟩
  | webui hpath _ => exact hui hpath
  | cookie hpath hmethod _ _ _ => exact hpost ⟨hpath, hmethod⟩

/-- Which answers of the management API ask to keep the connection. -/
theorem handleApi_told
    (h : Api.handleApi env settings sessions path query method hdrs body = some answer) :
    saysKeepAlive answer.1 = true ↔ OpenPage env settings sessions path method body hdrs := by
  have hclose : ∀ {bytes : Bytes}, saysKeepAlive bytes = false →
      ¬ OpenPage env settings sessions path method body hdrs →
        ∀ {s : Api.SessionStore}, some (bytes, s) = some answer →
          (saysKeepAlive answer.1 = true ↔
            OpenPage env settings sessions path method body hdrs) := by
    intro bytes hbytes hpage s heq
    rw [← Option.some.inj heq]
    refine iff_of_false ?_ hpage
    rw [hbytes]
    exact Bool.false_ne_true
  have hopen : ∀ {bytes : Bytes}, saysKeepAlive bytes = true →
      OpenPage env settings sessions path method body hdrs →
        ∀ {s : Api.SessionStore}, some (bytes, s) = some answer →
          (saysKeepAlive answer.1 = true ↔
            OpenPage env settings sessions path method body hdrs) := by
    intro bytes hbytes hpage s heq
    rw [← Option.some.inj heq]
    exact iff_of_true hbytes hpage
  have hguarded : ∀ {bytes : Bytes}, saysKeepAlive bytes = false → ∀ authorized : Bool,
      saysKeepAlive (if authorized then bytes else Api.jsonUnauthorized) = false := by
    intro bytes hbytes authorized
    cases authorized with
    | true => exact hbytes
    | false => exact jsonResponse_told _ _
  unfold Api.handleApi at h
  dsimp only at h
  refine of_ite h (fun hpath => ?_) fun hhealth h => ?_
  · exact hclose healthResponse_told (not_openPage (by rw [hpath]; decide) (by rw [hpath]; decide)
      (by rw [hpath]; decide))
  refine of_ite h (fun hpath => hopen (prometheusMetrics_told env) (.metrics hpath))
    fun hmetrics h => ?_
  refine of_ite h (fun hpath => hopen (serveLogin_told env) (.login hpath.1 hpath.2))
    fun hlogin h => ?_
  refine of_ite h (fun hpost h => ?_) fun hpost h => ?_
  · refine of_ite h (fun hrate => ?_) fun hrate h => ?_
    · refine hclose (jsonResponse_told _ _) fun hpage => ?_
      cases hpage with
      | metrics hpath => exact hmetrics hpath
      | login hpath hmethod => exact hlogin ⟨hpath, hmethod⟩
      | webui hpath _ =>
          rw [hpost.1] at hpath
          exact absurd hpath (by decide)
      | cookie _ _ hallows _ _ =>
          rw [hallows] at hrate
          cases hrate
    · rw [← Option.some.inj h]
      exact handleLoginPost_told hpost.1 hpost.2 (by simpa using hrate)
  refine of_ite h (fun hlogout h => ?_) fun hlogout h => ?_
  · have hno := @not_openPage env settings sessions path method body hdrs
      (by rw [hlogout.1]; decide) (by rw [hlogout.1]; decide) (by rw [hlogout.1]; decide)
    unfold Api.handleLogout at h
    split at h
    · exact hclose logoutResponse_told hno h
    · exact hclose logoutResponse_told hno h
  refine of_ite h (fun hui h => ?_) fun hui h => ?_
  · refine of_ite h (fun hsession => ?_) fun hsession => ?_
    · refine hclose redirectToLogin_told fun hpage => ?_
      cases hpage with
      | metrics hpath => exact hmetrics hpath
      | login hpath hmethod => exact hlogin ⟨hpath, hmethod⟩
      | webui _ hvalid =>
          rw [hvalid] at hsession
          cases hsession
      | cookie hpath hmethod _ _ _ => exact hpost ⟨hpath, hmethod⟩
    · exact hopen (serveWebui_told env) (.webui hui (by simpa using hsession))
  have hno : ¬ OpenPage env settings sessions path method body hdrs :=
    not_openPage_of_others hmetrics hlogin hpost hui
  refine of_ite h (fun _ => hclose (hguarded (runCall_told _ _) _) hno) fun _ h => ?_
  refine of_ite h (fun _ => hclose (hguarded (runCall_told _ _) _) hno) fun _ h => ?_
  refine of_ite h (fun _ => hclose (hguarded (handleSitesRoute_told _ _ _ _) _) hno)
    fun _ h => ?_
  refine of_ite h (fun _ => hclose (hguarded (runCall_told _ _) _) hno) fun _ h => ?_
  refine of_ite h (fun _ => hclose (hguarded (handleApiInner_told _ _ _ _ _) _) hno) fun _ h => ?_
  cases h

/-- Such a request is answered. -/
theorem handleApi_none
    (h : Api.handleApi env settings sessions path query method hdrs body = none) :
    ¬ OpenPage env settings sessions path method body hdrs := by
  unfold Api.handleApi at h
  dsimp only at h
  refine of_ite h (fun _ h => nomatch h) fun _ h => ?_
  refine of_ite h (fun _ h => nomatch h) fun hmetrics h => ?_
  refine of_ite h (fun _ h => nomatch h) fun hlogin h => ?_
  refine of_ite h (fun _ h => ?_) fun hpost h => ?_
  · refine of_ite h (fun _ h => nomatch h) fun _ h => nomatch h
  refine of_ite h (fun _ h => nomatch h) fun _ h => ?_
  refine of_ite h (fun _ h => ?_) fun hui h => ?_
  · refine of_ite h (fun _ h => nomatch h) fun _ h => nomatch h
  exact not_openPage_of_others hmetrics hlogin hpost hui

end ApiAnswers

section Results

/-- The line that names where a client is sent. -/
def locationLine (location : Bytes) : Bytes :=
  Response.headerLine (ascii "Location", location)

/-- The lines of a `return` directive that are not the server's own. -/
def returnLines (rd : ReturnDirective) : List Bytes :=
  match rd.body with
  | .url url => [locationLine url]
  | _ => []

/-- The challenge for a realm. -/
def challengeLine (realm : Bytes) : Bytes :=
  ascii "WWW-Authenticate: " ++
    (ascii "Basic realm=\"" ++ replace [34] (ascii "\\\"") realm ++ ascii "\"")

theorem redirectResult_told
    (status : Nat) (location : Bytes) (keepAlive : Bool) :
    saysKeepAlive (redirectResult status location keepAlive).bytes =
      headSays [locationLine location] keepAlive := by
  have hother : ∀ l ∈ [Response.headerLine (ascii "Content-Length", ascii "0")], OtherField l :=
    List.forall_mem_singleton.mpr (otherField_headerLine (by decide))
  exact (formatResponse_told _ _ _ _).trans
    (headSays_other hother [locationLine location] [] keepAlive)

theorem handleReturn_told
    (rd : ReturnDirective) (keepAlive : Bool) :
    saysKeepAlive (handleReturn rd keepAlive).bytes = headSays (returnLines rd) keepAlive := by
  have hlength : ∀ len, ∀ l ∈ [Response.headerLine (ascii "Content-Length",
      Decimal.render len)], OtherField l :=
    fun len => List.forall_mem_singleton.mpr (otherField_headerLine (plain_length len))
  have htype : PlainHeader (ascii "Content-Type", ascii "text/plain") := by decide
  have hplain : ∀ (body : Bytes), ∀ k ∈ (ascii "Content-Length", Decimal.render body.length) ::
      (if body = [] then [] else [(ascii "Content-Type", ascii "text/plain")]),
        PlainHeader k := by
    intro body
    refine List.forall_mem_cons.mpr ⟨plain_length _, ?_⟩
    split
    · nofun
    · exact List.forall_mem_singleton.mpr htype
  unfold handleReturn returnLines
  cases hbody : rd.body with
  | empty =>
      rw [headSays_of_other fun _ hl => absurd hl List.not_mem_nil]
      exact plainResponse_told (hplain []) _ _ _
  | text t =>
      rw [headSays_of_other fun _ hl => absurd hl List.not_mem_nil]
      exact plainResponse_told (hplain t) _ _ _
  | url u =>
      exact (formatResponse_told _ _ _ _).trans
        (headSays_other (hlength 0) [] [locationLine u] keepAlive)

theorem unauthorizedResponse_told
    (realm : Bytes) :
    saysKeepAlive (Auth.unauthorizedResponse realm) = headSays [challengeLine realm] true := by
  have hother : ∀ l ∈ [ascii "Content-Length: " ++ Decimal.render (ascii "401 Unauthorized").length,
      ascii "Content-Type: text/plain"], OtherField l := by
    decide
  have hmessage := @saysKeepAlive_message (ascii "HTTP/1.1 401 Unauthorized") (by decide)
    ([challengeLine realm] ++
      ([ascii "Content-Length: " ++ Decimal.render (ascii "401 Unauthorized").length,
        ascii "Content-Type: text/plain"] ++ [])) true (ascii "401 Unauthorized")
  rw [headSays_other hother [challengeLine realm]] at hmessage
  exact hmessage

theorem blockedResult_agrees : Agrees blockedResult :=
  plainResponse_told (by decide) _ _ _

theorem badRequest_agrees
    (reason : Bytes) :
    Agrees (.badRequest reason false) :=
  plainResponse_told (List.forall_mem_cons.mpr
    ⟨by decide, List.forall_mem_singleton.mpr (plain_length _)⟩) _ _ _

theorem challengeResult_agrees
    (body : Bytes) :
    Agrees (challengeResult body) :=
  plainResponse_told (List.forall_mem_cons.mpr
    ⟨by decide, List.forall_mem_singleton.mpr (plain_length _)⟩) _ _ _

theorem limitedResult_agrees : Agrees limitedResult :=
  plainResponse_told (by decide) _ _ _

theorem upgradeFailedResult_agrees : Agrees upgradeFailedResult :=
  plainResponse_told (by decide) _ _ _

theorem tooLargeResult_told
    (keepAlive : Bool) :
    saysKeepAlive (tooLargeResult keepAlive).bytes = keepAlive :=
  plainResponse_told (by decide) _ _ _

end Results

section Dispatch

variable (ctx : Context) (env : Env) (st : ServerState) (raw : Bytes)

/--
Requests whose answer says something else about the connection than the flag.  Where a text
of the configuration, of the request or of an application server stands in the head, what
matters is what a recipient reads with that line in front of the Connection line.
-/
inductive Misleading : Prop
  | cacheHit {req : ParsedRequest} {bytes : Bytes}
      (hreq : Received env raw req) (h : cachedAnswer env st req = some bytes)
      (htold : saysKeepAlive bytes = false)
  | userApi {req : ParsedRequest}
      (hreq : Missed env st raw req) (hchallenge : challengeAnswer env req = none)
      (h : userApiAnswer ctx env st req ≠ none)
  | api {req : ParsedRequest}
      (hreq : Missed env st raw req) (hchallenge : challengeAnswer env req = none)
      (huser : userApiAnswer ctx env st req = none)
      (hpage : OpenPage env.api (apiSettings ctx) st.sessions req.path req.method req.body
        req.headers)
  | sslRedirect {req : ParsedRequest}
      (hreq : Proceeds ctx env st raw req)
      (h : redirectsToTls env (serverFor ctx req) = true)
      (htold : headSays [locationLine (tlsLocation req)] req.keepAlive ≠ req.keepAlive)
  | serverRedirect {req : ParsedRequest} {uri : Bytes} {status : Nat}
      (hreq : Proceeds ctx env st raw req)
      (hplain : redirectsToTls env (serverFor ctx req) = false)
      (h : Rewrite.applyRewrites ctx.lib (serverFor ctx req).rewrites req.path =
        .redirect uri status)
      (htold : headSays [locationLine uri] req.keepAlive ≠ req.keepAlive)
  | locationRedirect {req : ParsedRequest} {first uri : Bytes} {status : Nat}
      (hreq : Enters ctx env st raw req first)
      (h : Rewrite.applyRewrites ctx.lib
        (rulesOf (Router.selectLocation (serverFor ctx req) first)) first =
          .redirect uri status)
      (htold : headSays [locationLine uri] req.keepAlive ≠ req.keepAlive)
  | unauthorized {req routed : ParsedRequest} {server : ServerBlock}
      {location : Option LocationBlock} {cfg : AuthBasicConfig}
      (hreq : Routes ctx env st raw req server location routed)
      (hcfg : authConfig server location = some cfg)
      (h : isAuthorized env cfg routed = false)
      (htold : headSays [challengeLine cfg.realm] true ≠ routed.keepAlive)
  | tooLarge {req routed : ParsedRequest} {server : ServerBlock}
      {location : Option LocationBlock}
      (hreq : WithinRate ctx env st raw req server location routed)
      (h : maxBody ctx server location < routed.contentLen)
      (hkeep : routed.keepAlive = true)
  | returned {req routed : ParsedRequest} {server : ServerBlock}
      {location : Option LocationBlock} {rd : ReturnDirective}
      (hreq : Fits ctx env st raw req server location routed)
      (h : returnFor server location = some rd)
      (htold : headSays (returnLines rd) routed.keepAlive ≠ routed.keepAlive)
  | handlerReturned {req routed : ParsedRequest} {server : ServerBlock}
      {location : Option LocationBlock} {rd : ReturnDirective}
      (hreq : Admitted ctx env st raw req server location routed)
      (h : location.map LocationBlock.handler = some (.return rd))
      (htold : headSays (returnLines rd) routed.keepAlive ≠ routed.keepAlive)
  | upgraded {req routed : ParsedRequest} {server : ServerBlock}
      {location : Option LocationBlock} {pc : ProxyConfig} {bytes : Bytes}
      (hreq : Admitted ctx env st raw req server location routed)
      (hproxy : location.map LocationBlock.handler = some (.proxy pc))
      (hws : isWsUpgrade routed.headers = true)
      (h : (WebSocket.upgradeToWebsocket (Proxy.upstreamAddr pc) routed.method routed.path
        routed.headers env.exchange).1 = .ok bytes)
      (htold : saysKeepAlive bytes = true)
  | finished {req routed : ParsedRequest} {server : ServerBlock}
      {location : Option LocationBlock}
      (hreq : Admitted ctx env st raw req server location routed)
      (hreturn : ∀ rd, location.map LocationBlock.handler ≠ some (.return rd))
      (hws : ∀ pc, location.map LocationBlock.handler = some (.proxy pc) →
        isWsUpgrade routed.headers = false)
      (htold : headSays ((applicationHeaders env server location routed ++
        configuredHeaders server location).map Response.headerLine) routed.keepAlive ≠
          routed.keepAlive)

variable {ctx env st raw}

theorem not_agrees_of_misleading
    (h : Misleading ctx env st raw) :
    ¬ Agrees (dispatch ctx env st raw).result := by
  intro hagrees
  cases h with
  | cacheHit hreq h htold =>
      rw [(Ends.cacheHit hreq h).dispatch_eq] at hagrees
      exact Bool.false_ne_true (htold.symm.trans hagrees)
  | userApi hreq hchallenge h =>
      obtain ⟨⟨bytes, users⟩, hanswer⟩ := Option.ne_none_iff_exists'.mp h
      rw [(Ends.userApi hreq hchallenge hanswer).dispatch_eq] at hagrees
      exact Bool.false_ne_true (hagrees.symm.trans (userApi_told hanswer))
  | @api req hreq hchallenge huser hpage =>
      cases hanswer : apiAnswer ctx env st req with
      | none =>
          exact handleApi_none hanswer hpage
      | some answer =>
          rw [(Ends.api hreq hchallenge huser hanswer).dispatch_eq] at hagrees
          exact Bool.false_ne_true (hagrees.symm.trans ((handleApi_told hanswer).mpr hpage))
  | sslRedirect hreq h htold =>
      rw [(Ends.sslRedirect hreq h).dispatch_eq] at hagrees
      exact htold ((redirectResult_told _ _ _).symm.trans hagrees)
  | serverRedirect hreq hplain h htold =>
      rw [(Ends.serverRedirect hreq hplain h).dispatch_eq] at hagrees
      exact htold ((redirectResult_told _ _ _).symm.trans hagrees)
  | locationRedirect hreq h htold =>
      rw [(Ends.locationRedirect hreq h).dispatch_eq] at hagrees
      exact htold ((redirectResult_told _ _ _).symm.trans hagrees)
  | unauthorized hreq hcfg h htold =>
      rw [(Ends.unauthorized hreq hcfg h).dispatch_eq] at hagrees
      exact htold ((unauthorizedResponse_told _).symm.trans hagrees)
  | tooLarge hreq h hkeep =>
      rw [(Ends.tooLarge hreq h).dispatch_eq] at hagrees
      exact Bool.false_ne_true (hagrees.symm.trans ((tooLargeResult_told _).trans hkeep))
  | returned hreq h htold =>
      rw [(Ends.returned hreq h).dispatch_eq] at hagrees
      exact htold ((handleReturn_told _ _).symm.trans hagrees)
  | handlerReturned hreq h htold =>
      rw [(Ends.handlerReturned hreq h).dispatch_eq] at hagrees
      exact htold ((handleReturn_told _ _).symm.trans hagrees)
  | upgraded hreq hproxy hws h htold =>
      have hends : Ends ctx env st raw _ := .upgraded hreq hproxy hws (Prod.ext h rfl)
      rw [hends.dispatch_eq] at hagrees
      exact Bool.false_ne_true (hagrees.symm.trans htold)
  | finished hreq hreturn hws htold =>
      obtain ⟨resp, effects, hhandler⟩ := handlerStage_ok env (afterLookup env st _) hreturn hws
      rw [(Ends.finished hreq hhandler).dispatch_eq] at hagrees
      exact htold ((finish_told hhandler).symm.trans hagrees)

/--
What the client is told about the connection is what the connection loop does, except for the
requests that are listed.
-/
theorem agrees_iff
    (ctx : Context) (env : Env) (st : ServerState) (raw : Bytes) :
    Agrees (dispatch ctx env st raw).result ↔ ¬ Misleading ctx env st raw := by
  constructor
  · exact fun h hmisleading => not_agrees_of_misleading hmisleading h
  intro hno
  have hends := ends_dispatch ctx env st raw
  generalize dispatch ctx env st raw = o at hends ⊢
  cases hends with
  | blocked => exact blockedResult_agrees
  | badRequest => exact badRequest_agrees _
  | challenge => exact challengeResult_agrees _
  | limited => exact limitedResult_agrees
  | upgradeFailed => exact upgradeFailedResult_agrees
  | cacheHit hreq h =>
      exact (Bool.not_eq_false _).mp fun htold => hno (.cacheHit hreq h htold)
  | userApi hreq hchallenge h =>
      exact absurd (.userApi hreq hchallenge (Option.ne_none_iff_exists'.mpr ⟨_, h⟩)) hno
  | api hreq hchallenge huser h =>
      refine Bool.eq_false_iff.mpr fun htold => hno (.api hreq hchallenge huser ?_)
      exact (handleApi_told h).mp htold
  | sslRedirect hreq h =>
      refine (redirectResult_told _ _ _).trans ?_
      exact not_not.mp fun htold => hno (.sslRedirect hreq h htold)
  | serverRedirect hreq hplain h =>
      refine (redirectResult_told _ _ _).trans ?_
      exact not_not.mp fun htold => hno (.serverRedirect hreq hplain h htold)
  | locationRedirect hreq h =>
      refine (redirectResult_told _ _ _).trans ?_
      exact not_not.mp fun htold => hno (.locationRedirect hreq h htold)
  | unauthorized hreq hcfg h =>
      refine (unauthorizedResponse_told _).trans ?_
      exact not_not.mp fun htold => hno (.unauthorized hreq hcfg h htold)
  | tooLarge hreq h =>
      refine (tooLargeResult_told _).trans ?_
      exact Bool.eq_false_iff.mpr fun hkeep => hno (.tooLarge hreq h hkeep)
  | returned hreq h =>
      refine (handleReturn_told _ _).trans ?_
      exact not_not.mp fun htold => hno (.returned hreq h htold)
  | handlerReturned hreq h =>
      refine (handleReturn_told _ _).trans ?_
      exact not_not.mp fun htold => hno (.handlerReturned hreq h htold)
  | upgraded hreq hproxy hws h =>
      refine Bool.eq_false_iff.mpr fun htold => ?_
      exact hno (.upgraded hreq hproxy hws (congrArg Prod.fst h) htold)
  | finished hreq h =>
      refine (finish_told h).trans ?_
      obtain ⟨hreturn, hws⟩ := of_handlerStage_ok h
      exact not_not.mp fun htold => hno (.finished hreq hreturn hws htold)

/-- A body that is too large: the answer says keep-alive, and the connection is closed. -/
theorem tooLarge_misleads :
    let o := dispatch (contextOf (serverAt (ascii "/srv"))) (workingEnv []) (stateWithCache 0 0)
      (requestOf ["POST / HTTP/1.1", "Host: a", "Content-Length: 99999999"])
    o.result.status = 413 ∧ saysKeepAlive o.result.bytes = true ∧ ¬ Agrees o.result := by
  intro o
  have hkeep : o.result.keepAlive = false := by decide +kernel
  have htold : saysKeepAlive o.result.bytes = true := by decide +kernel
  refine ⟨by decide +kernel, htold, ?_⟩
  intro h
  exact Bool.false_ne_true (hkeep.symm.trans (h.symm.trans htold))

end Dispatch

end Handler
end RunNginx
