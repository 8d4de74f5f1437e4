import RunNginx.Server.FieldValues

/-!
# Strict-Transport-Security

The header is pushed behind the handler of a location.  The exits in front of it write
answers of their own, and a WebSocket upgrade hands on what the upstream sends.

`hsts_iff`: over TLS the configured header is announced once exactly in the answers of
handlers whose other headers do not name it.
-/

namespace RunNginx
namespace Handler

open ByteString HttpMessage StaticFiles Proxy

def stsName : Bytes :=
  ascii "strict-transport-security"

/-- One Strict-Transport-Security header, with the configured age. -/
def Announces (server : ServerBlock) (maxAge : Nat) (w : Written) : Prop :=
  valuesOf stsName w.fieldLines = [hstsValue server maxAge]

/-- The headers that a backend answers with. -/
def backendHeaders (env : Env) (server : ServerBlock) (location : Option LocationBlock)
    (req : ParsedRequest) : Headers :=
  match location.map LocationBlock.handler with
  | some (.proxy pc) =>
      (proxyRequest pc req.method req.path (locationPrefix location) req.headers []
        env.exchange).1.headers
  | some (.upstreamGroup group) => (groupHandler env location group req).1.headers
  | some (.fastCgi fc) => (fastCgiHandler env server location fc req).1.headers
  | _ => []

/-- The answer of a handler that nobody else gives the header, or an upgrade that brings it. -/
def RoutedAnswer.AnnouncesOnce (env : Env) (server : ServerBlock) (maxAge : Nat) :
    RoutedAnswer → Prop
  | .finished location req _ =>
      ∀ h ∈ backendHeaders env server location req ++ configuredHeaders server location,
        valueOf stsName (Response.headerLine h) = none
  | .upgraded bytes => Announces server maxAge (.verbatim bytes)
  | _ => False

section Exits

variable {ctx : Context} {env : Env} {st : ServerState} {raw : Bytes}
variable {req : ParsedRequest} {server : ServerBlock} {location : Option LocationBlock}
variable {maxAge : Nat}

theorem trimBy_hstsValue
    (server : ServerBlock) (maxAge : Nat) :
    trimBy isOws (32 :: hstsValue server maxAge) = hstsValue server maxAge := by
  have hage : ascii "max-age=" = 109 :: ascii "ax-age=" := by decide
  apply trimBy_blank
  · intro b hb
    rw [hstsValue, hage, List.cons_append, List.cons_append, List.head?_cons] at hb
    obtain rfl := Option.some.inj hb
    decide
  · unfold hstsValue
    split
    · have hsub : ascii "; includeSubDomains" ≠ [] := by decide
      have hlast : (ascii "; includeSubDomains").getLast? = some 115 := by decide
      intro b hb
      rw [List.getLast?_append_of_ne_nil _ hsub, hlast] at hb
      obtain rfl := Option.some.inj hb
      decide
    · rw [List.append_nil]
      exact isOws_last_render _ _

theorem fieldValues_hstsHeaders
    (htls : env.isTls = true) (hmax : server.hstsMaxAge = some maxAge) :
    fieldValues stsName (hstsHeaders env server) = [hstsValue server maxAge] := by
  have hname : (58 : UInt8) ∉ ascii "Strict-Transport-Security" ∧
      eqIgnoreCase (ascii "Strict-Transport-Security") stsName = true := by
    decide
  unfold hstsHeaders
  rw [hmax]
  dsimp only
  rw [if_pos htls, fieldValues_singleton hname.1, hname.2, trimBy_hstsValue]
  rfl

/-- Of the handlers only the backends can bring the header. -/
theorem handler_sts
    {resp : StaticResponse} {effects : List Effect}
    (h : handlerStage env st server location req = .ok (resp, effects)) :
    fieldValues stsName resp.headers =
      fieldValues stsName (backendHeaders env server location req) := by
  have hnames : ∀ n ∈ headerNames, (58 : UInt8) ∉ n ∧ eqIgnoreCase n stsName = false := by
    decide
  have hstatic : fieldValues stsName
      (staticHandler env.fs server location req.path req.method req.headers).headers = [] :=
    fieldValues_of_names (staticHandler_namesKnown _ _ _ _ _ _) hnames
  unfold backendHeaders
  cases handlerStage_ok_iff.mp h with
  | static hhandler =>
      rcases hhandler with hhandler | hhandler
      · rw [hhandler]
        exact hstatic
      · rw [hhandler]
        exact hstatic
  | proxy hhandler =>
      rw [hhandler]
  | upstreamGroup hhandler =>
      rw [hhandler]
  | fastCgi hhandler =>
      rw [hhandler]

theorem finished_announces_iff
    {resp : StaticResponse} {effects : List Effect} (htls : env.isTls = true)
    (hmax : server.hstsMaxAge = some maxAge)
    (h : handlerStage env st server location req = .ok (resp, effects)) :
    Announces server maxAge (.message (finishedMessage ctx env server location req resp)) ↔
      ∀ h ∈ backendHeaders env server location req ++ configuredHeaders server location,
        valueOf stsName (Response.headerLine h) = none := by
  have hfields : fieldValues stsName (finishedMessage ctx env server location req resp).fields =
      (fieldValues stsName (backendHeaders env server location req) ++
        fieldValues stsName (configuredHeaders server location)) ++
          [hstsValue server maxAge] := by
    have hcoding : ∀ coding : Option Bytes, fieldValues stsName
        (coding.toList.map fun c => (ascii "Content-Encoding", c)) = [] := by
      intro coding
      refine fieldValues_of_other fun k hk => ?_
      obtain ⟨c, -, rfl⟩ := List.mem_map.mp hk
      exact (by decide : (58 : UInt8) ∉ ascii "Content-Encoding" ∧
        eqIgnoreCase (ascii "Content-Encoding") stsName = false)
    rw [finishedMessage, fieldValues_replyMessage (by decide) (by decide),
      fieldValues_finalHeaders, fieldValues_encodedHeaders (by decide), hcoding,
      handler_sts h, fieldValues_hstsHeaders htls hmax, List.append_nil, List.append_assoc]
  rw [← fieldValues_eq_nil_iff, fieldValues_append]
  unfold Announces
  change fieldValues stsName (finishedMessage ctx env server location req resp).fields = _ ↔ _
  rw [hfields, List.append_left_eq_self]

/-- A message under known names does not announce anything. -/
theorem not_announces_of_names
    {m : Message} {names : List Bytes} (hsub : m.fields.map Prod.fst ⊆ names)
    (h : ∀ n ∈ names, (58 : UInt8) ∉ n ∧ eqIgnoreCase n stsName = false) :
    ¬ Announces server maxAge (.message m) := by
  intro hannounces
  have hnone : valuesOf stsName (Written.message m).fieldLines = [] :=
    fieldValues_of_names hsub h
  rw [Announces, hnone] at hannounces
  cases hannounces

/-- The names of the headers that the dispatcher writes in front of the handlers. -/
def exitNames : List Bytes :=
  [ascii "Server", ascii "Connection", ascii "Content-Length", ascii "Content-Type",
    ascii "Location", ascii "Retry-After", ascii "WWW-Authenticate"]

theorem exitNames_other :
    ∀ n ∈ exitNames, (58 : UInt8) ∉ n ∧ eqIgnoreCase n stsName = false := by
  decide

/-- The serializer adds two of the names. -/
theorem replyMessage_names
    {hdrs : Headers} (hsub : hdrs.map Prod.fst ⊆ exitNames) (status : Nat) (keepAlive : Bool)
    (body : Bytes) :
    (replyMessage status hdrs keepAlive body).fields.map Prod.fst ⊆ exitNames := by
  have hserver : ascii "Server" ∈ exitNames := by decide
  have hconnection : ascii "Connection" ∈ exitNames := by decide
  unfold replyMessage
  rw [List.map_cons, List.map_append, List.cons_subset, List.append_subset]
  exact ⟨hserver, hsub, List.cons_subset.mpr ⟨hconnection, List.nil_subset _⟩⟩

theorem redirectMessage_names
    (status : Nat) (location : Bytes) (keepAlive : Bool) :
    (redirectMessage status location keepAlive).fields.map Prod.fst ⊆ exitNames := by
  have hnames : [ascii "Location", ascii "Content-Length"] ⊆ exitNames := by decide
  have hsub : ([(ascii "Location", location), (ascii "Content-Length", ascii "0")] :
      Headers).map Prod.fst ⊆ exitNames := hnames
  exact replyMessage_names hsub _ _ _

theorem returnHeaders_names
    (rd : ReturnDirective) :
    (returnHeaders rd).map Prod.fst ⊆ exitNames := by
  have hlength : ascii "Content-Length" ∈ exitNames := by decide
  have hlocation : [ascii "Location"] ⊆ exitNames := by decide
  have htype : [ascii "Content-Type"] ⊆ exitNames := by decide
  unfold returnHeaders
  rw [List.map_append, List.map_cons, List.append_subset, List.cons_subset]
  refine ⟨⟨hlength, ?_⟩, ?_⟩
  · split
    · exact hlocation
    · exact List.nil_subset _
  · split
    · exact List.nil_subset _
    · exact htype

/--
Over TLS, a server that announces Strict-Transport-Security announces it once, with the
configured age, if and only if the answer is one of a handler and neither its backend nor an
`add_header` names the header, or an upgrade whose upstream announces it.
-/
theorem hsts_iff
    {answer : RoutedAnswer} (htls : env.isTls = true) (hmax : server.hstsMaxAge = some maxAge)
    (h : TakesRouted ctx env st raw req server answer) :
    (dispatch ctx env st raw).result.bytes = (answer.written ctx env server).bytes ∧
      (Announces server maxAge (answer.written ctx env server) ↔
        answer.AnnouncesOnce env server maxAge) := by
  refine ⟨(Takes.routed h).written, ?_⟩
  have hno : ∀ {m : Message}, m.fields.map Prod.fst ⊆ exitNames →
      (Announces server maxAge (.message m) ↔ False) := fun hsub =>
    iff_of_false (not_announces_of_names hsub exitNames_other) not_false
  cases h with
  | sslRedirect hreq h => exact hno (redirectMessage_names _ _ _)
  | serverRedirect hreq hplain h => exact hno (redirectMessage_names _ _ _)
  | locationRedirect hreq h => exact hno (redirectMessage_names _ _ _)
  | unauthorized hreq hcfg h =>
      have hnames : [ascii "WWW-Authenticate", ascii "Content-Length", ascii "Content-Type",
          ascii "Connection"] ⊆ exitNames := by
        decide
      exact hno hnames
  | limited hreq h => exact hno (replyMessage_names (by decide) _ _ _)
  | tooLarge hreq h => exact hno (replyMessage_names (by decide) _ _ _)
  | returned hreq h => exact hno (replyMessage_names (returnHeaders_names _) _ _ _)
  | handlerReturned hreq h => exact hno (replyMessage_names (returnHeaders_names _) _ _ _)
  | upgraded hreq hproxy hws h => exact Iff.rfl
  | upgradeFailed hreq hproxy hws h => exact hno (replyMessage_names (by decide) _ _ _)
  | finished hreq h => exact finished_announces_iff htls hmax h

end Exits

section Example

/-- A server that announces encryption. -/
def announcingServer : ServerBlock :=
  { serverAt (ascii "/srv") with hstsMaxAge := some 300 }

/-- One that answers every request by itself. -/
def returningServer : ServerBlock :=
  { announcingServer with returnDirective := some ⟨200, .text (ascii "ok")⟩ }

/-- An encrypted connection. -/
def tlsEnv : Env :=
  { quietEnv exampleFiles with isTls := true }

theorem fits_tlsEnv
    {server : ServerBlock} (hrules : server.rewrites = []) (hlocations : server.locations = [])
    (hauth : server.authBasic = none) (hlimit : server.limitReq = none) :
    Fits (contextOf server) tlsEnv (stateWithCache 0 0) (requestOf ["GET /a.txt HTTP/1.1"])
      (fileAsked (ascii "GET") []) server none (fileAsked (ascii "GET") []) := by
  have hparses : parseRequest (requestOf ["GET /a.txt HTTP/1.1"]) =
      .ok (fileAsked (ascii "GET") []) := by
    decide +kernel
  have hmissed : Missed tlsEnv (stateWithCache 0 0) (requestOf ["GET /a.txt HTTP/1.1"])
      (fileAsked (ascii "GET") []) :=
    ⟨⟨rfl, hparses⟩, rfl⟩
  have hplain : redirectsToTls tlsEnv server = false := Bool.and_false _
  have hproceeds : Proceeds (contextOf server) tlsEnv (stateWithCache 0 0)
      (requestOf ["GET /a.txt HTTP/1.1"]) (fileAsked (ascii "GET") []) :=
    ⟨hmissed, rfl, rfl, rfl⟩
  refine ⟨⟨⟨hproceeds.routes_alone rfl hplain hrules hlocations, ?_⟩, ?_⟩, Nat.zero_le _⟩
  · intro cfg hcfg
    rw [authConfig, hauth] at hcfg
    cases hcfg
  · rw [overLimit, hlimit]
    rfl

/-- The file is announced with the header. -/
theorem hsts_iff_example :
    Announces announcingServer 300 (.message (finishedMessage (contextOf announcingServer) tlsEnv
      announcingServer none (fileAsked (ascii "GET") [])
        (staticHandler exampleFiles announcingServer none (ascii "/a.txt") (ascii "GET") []))) := by
  have hadmitted : Admitted (contextOf announcingServer) tlsEnv (stateWithCache 0 0)
      (requestOf ["GET /a.txt HTTP/1.1"]) (fileAsked (ascii "GET") []) announcingServer none
        (fileAsked (ascii "GET") []) :=
    ⟨fits_tlsEnv rfl rfl rfl rfl, rfl⟩
  exact (hsts_iff rfl rfl (.finished hadmitted rfl)).2.mpr nofun

/-- A `return` directive answers without the header. -/
theorem returned_without_hsts :
    ¬ ∀ (ctx : Context) (env : Env) (st : ServerState) (raw : Bytes) (req : ParsedRequest)
      (server : ServerBlock) (answer : RoutedAnswer) (maxAge : Nat),
      env.isTls = true → server.hstsMaxAge = some maxAge →
        TakesRouted ctx env st raw req server answer →
          Announces server maxAge (answer.written ctx env server) := by
  intro h
  have hfits := @fits_tlsEnv returningServer rfl rfl rfl rfl
  have hannounces := h _ _ _ _ _ _ _ 300 rfl rfl (.returned hfits rfl)
  exact not_announces_of_names (replyMessage_names (returnHeaders_names _) _ _ _)
    exitNames_other hannounces

end Example

end Handler
end RunNginx
