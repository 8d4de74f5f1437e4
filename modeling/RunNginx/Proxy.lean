import RunNginx.Lib.Stream
import RunNginx.Server.StaticFiles

/-!
# Reverse proxy

One exchange with an upstream: the address check, the request that is sent, the
loop that reads the response, and the response that is handed on.  The upstream is
an `Exchange`, the outcome of each step the proxy takes with it; what the proxy does
to the network is recorded as a list of events.
-/

namespace RunNginx
namespace Proxy

open ByteString StaticFiles

/-- Outcome of a timed step on a socket. -/
inductive IoStep
  | done
  | timedOut
  | failed (reason : Bytes)
deriving DecidableEq, Repr

/-- What an upstream does during one exchange. -/
structure Exchange where
  /-- An idle connection waits in the pool. -/
  idle : Bool
  connect : IoStep
  /-- Setting a socket option on a fresh connection. -/
  nodelay : Except Bytes Unit
  send : IoStep
  reads : List ReadEvent

/-- What the server does to the network. -/
inductive NetEvent
  /-- A connection attempt. -/
  | connect (addr : Bytes)
  /-- An idle connection is taken from the pool. -/
  | reuse (addr : Bytes)
  | send (request : Bytes)
  /-- A connection goes back to the pool. -/
  | keep (addr : Bytes)
deriving DecidableEq, Repr

/-- An upstream is contacted, by a new connection or by an idle one. -/
def NetEvent.isContact : NetEvent → Bool
  | .connect _ | .reuse _ => true
  | .send _ | .keep _ => false

/-- Bytes buffered of a response. -/
def maxResponseBuffer : Nat := 64 * 1024 * 1024

/-- Size of one read. -/
def readLen : Nat := 8192

/-- Key of the connection pool. -/
def poolKey (cfg : ProxyConfig) : Bytes :=
  cfg.upstream.scheme ++ ascii "://" ++ cfg.upstream.hostStr.getD [] ++ ascii ":" ++
    Decimal.render (cfg.upstream.portOrKnownDefault.getD 80)

/-- Address a connection is opened to. -/
def upstreamAddr (cfg : ProxyConfig) : Bytes :=
  cfg.upstream.hostStr.getD (ascii "127.0.0.1") ++ ascii ":" ++
    Decimal.render (cfg.upstream.portOrKnownDefault.getD 80)

/-- An idle connection of the pool, or a new one. -/
def getConnection (cfg : ProxyConfig) (ex : Exchange) :
    Except Bytes Unit × List NetEvent :=
  if ex.idle then (.ok (), [.reuse (poolKey cfg)])
  else
    let addr := upstreamAddr cfg
    let result :=
      match ex.connect with
      | .timedOut => .error (ascii "proxy connect timeout to " ++ addr)
      | .failed e => .error (ascii "proxy connect failed to " ++ addr ++ ascii ": " ++ e)
      | .done => ex.nodelay
    (result, [.connect addr])

/-- Why an address is refused, if it is. -/
def ssrfBlock (cfg : ProxyConfig) : Option Bytes :=
  let host := cfg.upstream.hostStr.getD []
  let byAddress :=
    match IpAddr.parseIpAddr host with
    | some (.v4 ip) =>
        if ip.isLoopback || ip.isUnspecified then
          some (ascii ("proxy_pass to loopback/unspecified blocked (SSRF). " ++
            "Use proxy_allow_internal on;"))
        else if ip.isPrivate || ip.isLinkLocal then
          some (ascii ("proxy_pass to private address blocked (SSRF). " ++
            "Use proxy_allow_internal on;"))
        else none
    | some (.v6 ip) =>
        if ip.isLoopback || ip.isUnspecified then
          some (ascii ("proxy_pass to loopback/unspecified blocked (SSRF). " ++
            "Use proxy_allow_internal on;"))
        else none
    | none => none
  if cfg.allowInternal then none
  else match byAddress with
  | some reason => some reason
  | none =>
      if eqIgnoreCase host (ascii "localhost") then
        some (ascii ("proxy_pass to localhost blocked (SSRF). " ++
          "Use proxy_allow_internal on;"))
      else none

def isSlash (b : UInt8) : Bool :=
  b == PathText.slash

/-- Remove slashes at the end. -/
def trimEndSlashes (s : Bytes) : Bytes :=
  (s.reverse.dropWhile isSlash).reverse

/-- The path behind the location, put behind the path of the upstream URL. -/
def buildUpstreamPath (cfg : ProxyConfig) (originalPath locationPrefix : Bytes) : Bytes :=
  let upstreamPath := cfg.upstream.path
  if upstreamPath = ascii "/" ∨ upstreamPath ≠ [] then
    let suffix := (stripPrefix locationPrefix originalPath).getD originalPath
    trimEndSlashes upstreamPath ++ ascii "/" ++ suffix.dropWhile isSlash
  else originalPath

/-- Request headers that stay on their hop. -/
def hopByHop : List Bytes :=
  [ascii "connection", ascii "keep-alive", ascii "proxy-authenticate",
    ascii "proxy-authorization", ascii "te", ascii "trailers", ascii "transfer-encoding",
    ascii "upgrade"]

def isNamed (names : List Bytes) (name : Bytes) : Bool :=
  names.any fun n => eqIgnoreCase name n

/-- The client's X-Forwarded-For, once more, unless the configuration sets one. -/
def forwardedFor (cfg : ProxyConfig) (headers : Headers) : Headers :=
  let name := ascii "x-forwarded-for"
  let existing := (Request.getHeader headers name).getD []
  if cfg.setHeaders.any (fun h => eqIgnoreCase h.1 name) || existing.isEmpty then []
  else [(ascii "X-Forwarded-For", existing)]

/-- The lines of the forwarded request head. -/
def requestLines (cfg : ProxyConfig) (method path : Bytes) (headers : Headers)
    (bodyLen : Nat) : List Bytes :=
  (method ++ 32 :: (path ++ ascii " HTTP/1.1")) ::
    (ascii "Host: " ++ cfg.upstream.hostStr.getD [] ++ ascii ":" ++
      Decimal.render (cfg.upstream.portOrKnownDefault.getD 80)) ::
    ((headers.filter fun h => !isNamed hopByHop h.1) ++ cfg.setHeaders ++
      forwardedFor cfg headers).map Response.headerLine ++
    [ascii "Content-Length: " ++ Decimal.render bodyLen, ascii "Connection: keep-alive"]

def buildProxyRequest (cfg : ProxyConfig) (method path : Bytes) (headers : Headers)
    (body : Bytes) : Bytes :=
  joinLines (requestLines cfg method path headers body.length) ++ crlf ++ body

/-- Position of the blank line. -/
def findDoubleCrlf (buf : Bytes) : Option Nat :=
  find (crlf ++ crlf) buf

/-- Value of the first header line with this name. -/
def extractHeaderValue (headers name : Bytes) : Option Bytes :=
  (lines headers).findSome? fun line =>
    if (toAsciiLower name ++ ascii ":").isPrefixOf (toAsciiLower line) then
      some (Utf8.trim (line.drop (name.length + 1)))
    else none

/-- Does the buffer hold the whole response? -/
def isResponseComplete (buf : Bytes) : Bool :=
  match findDoubleCrlf buf with
  | none => false
  | some hdrEnd =>
      let head := if Utf8.isUtf8 (buf.take hdrEnd) then buf.take hdrEnd else []
      match (extractHeaderValue head (ascii "content-length")).bind
          (Decimal.parseUnsigned Decimal.usizeBound) with
      | some n => (hdrEnd + 4 + n) % Decimal.usizeBound ≤ buf.length
      | none =>
          match extractHeaderValue head (ascii "transfer-encoding") with
          | some te => contains (ascii "chunked") te && contains (ascii "0" ++ crlf ++ crlf) buf
          | none => false

/-- Response headers that are not handed on. -/
def responseHop : List Bytes :=
  [ascii "connection", ascii "keep-alive", ascii "transfer-encoding", ascii "te",
    ascii "upgrade"]

/-- A header line of a response, cut at its first colon. -/
def splitHeader (line : Bytes) : Option (Bytes × Bytes) :=
  (find [58] line).map fun colon =>
    (Utf8.trim (line.take colon), Utf8.trim (line.drop (colon + 1)))

/-- Status in a status line. -/
def statusOf (statusLine : Bytes) (default : Nat) : Nat :=
  ((Utf8.splitWhitespace statusLine)[1]?.bind
    (Decimal.parseUnsigned Decimal.u16Bound)).getD default

def parseProxyResponse (buf : Bytes) : Except Bytes StaticResponse :=
  match findDoubleCrlf buf with
  | none => .error (ascii "incomplete proxy response")
  | some hdrEnd =>
      if !Utf8.isUtf8 (buf.take hdrEnd) then
        .error (ascii "non-UTF8 proxy response headers")
      else match lines (buf.take hdrEnd) with
      | [] => .error (ascii "empty proxy response")
      | statusLine :: rest =>
          .ok
            { status := statusOf statusLine 502
              headers := (rest.filterMap splitHeader).filter fun h => !isNamed responseHop h.1
              body := buf.drop (hdrEnd + 4) }

/-- Send the request and read the response, up to the cap. -/
def sendAndReceive (request : Bytes) (ex : Exchange) :
    Except Bytes StaticResponse × List NetEvent :=
  let result :=
    match ex.send with
    | .timedOut => .error (ascii "proxy send timeout")
    | .failed e => .error e
    | .done =>
        match Stream.collect isResponseComplete maxResponseBuffer [] ex.reads with
        | .error .timedOut => .error (ascii "proxy read timeout")
        | .error (.failed e) => .error e
        | .ok buf => parseProxyResponse buf
  (result, [.send request])

/-- The connection goes back to the pool when the response headers ask for it. -/
def returnToPool (cfg : ProxyConfig) (resp : StaticResponse) : List NetEvent :=
  if resp.headers.any fun h =>
      eqIgnoreCase h.1 (ascii "connection") && eqIgnoreCase h.2 (ascii "keep-alive") then
    [.keep (poolKey cfg)]
  else []

def doProxy (cfg : ProxyConfig) (method path locationPrefix : Bytes) (headers : Headers)
    (body : Bytes) (ex : Exchange) : Except Bytes StaticResponse × List NetEvent :=
  match ssrfBlock cfg with
  | some reason => (.error reason, [])
  | none =>
      match getConnection cfg ex with
      | (.error e, events) => (.error e, events)
      | (.ok (), events) =>
          let request := buildProxyRequest cfg method
            (buildUpstreamPath cfg path locationPrefix) headers body
          match sendAndReceive request ex with
          | (.error e, sent) => (.error e, events ++ sent)
          | (.ok resp, sent) => (.ok resp, events ++ sent ++ returnToPool cfg resp)

theorem getConnection_contacts
    (cfg : ProxyConfig) (ex : Exchange) :
    ∃ e ∈ (getConnection cfg ex).2, e.isContact = true := by
  unfold getConnection
  split
  · exact ⟨_, List.mem_singleton.mpr rfl, rfl⟩
  · exact ⟨_, List.mem_singleton.mpr rfl, rfl⟩

/-- An upstream is contacted unless its address is refused. -/
theorem doProxy_contacts_iff
    (cfg : ProxyConfig) (method path locationPrefix : Bytes) (headers : Headers) (body : Bytes)
    (ex : Exchange) :
    (∃ e ∈ (doProxy cfg method path locationPrefix headers body ex).2, e.isContact = true) ↔
      ssrfBlock cfg = none := by
  obtain ⟨e, hmem, he⟩ := getConnection_contacts cfg ex
  unfold doProxy
  cases hblock : ssrfBlock cfg with
  | some reason => simp
  | none =>
      refine iff_of_true ⟨e, ?_, he⟩ rfl
      dsimp only
      repeat' split
      all_goals simp_all

/-- The same exchange over a connection that an upstream group has opened. -/
def doProxyStream (cfg : ProxyConfig) (method path locationPrefix : Bytes)
    (headers : Headers) (body : Bytes) (ex : Exchange) :
    Except Bytes StaticResponse × List NetEvent :=
  sendAndReceive
    (buildProxyRequest cfg method (buildUpstreamPath cfg path locationPrefix) headers body) ex

/-- The page for an upstream that failed. -/
def badGateway (reason : Bytes) : StaticResponse :=
  let body := ascii "<html><body>502 Bad Gateway: " ++ reason ++ ascii "</body></html>\n"
  { status := 502
    headers :=
      [(ascii "Content-Type", ascii "text/html; charset=utf-8"),
        (ascii "Content-Length", Decimal.render body.length)]
    body := body }

/-- A failed exchange is answered with a page of the proxy. -/
def orBadGateway : Except Bytes StaticResponse × List NetEvent → StaticResponse × List NetEvent
  | (.ok resp, events) => (resp, events)
  | (.error e, events) => (badGateway e, events)

@[simp] theorem orBadGateway_snd
    (r : Except Bytes StaticResponse × List NetEvent) :
    (orBadGateway r).2 = r.2 := by
  rcases r with ⟨r | r, events⟩ <;> rfl

def proxyRequest (cfg : ProxyConfig) (method path locationPrefix : Bytes)
    (headers : Headers) (body : Bytes) (ex : Exchange) : StaticResponse × List NetEvent :=
  orBadGateway (doProxy cfg method path locationPrefix headers body ex)

def proxyRequestStream (cfg : ProxyConfig) (method path locationPrefix : Bytes)
    (headers : Headers) (body : Bytes) (ex : Exchange) : StaticResponse × List NetEvent :=
  orBadGateway (doProxyStream cfg method path locationPrefix headers body ex)

end Proxy
end RunNginx
