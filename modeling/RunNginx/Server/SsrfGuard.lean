import RunNginx.Config.ProxyText
import RunNginx.Server.Dispatch

/-!
# Connections to internal addresses

A location without `proxy_allow_internal on` should not contact an upstream whose host
is an internal address.  The guard works on the text of the host, and an IPv6 host
stands in square brackets; an upgrade to a WebSocket does not ask the guard at all.
-/

namespace RunNginx
namespace Handler

open ByteString ConfigParser

section Addresses

/-- Loopback, unspecified, private and link-local addresses. -/
def isInternalV4 (ip : IpAddr.V4) : Bool :=
  ip.isLoopback || ip.isUnspecified || ip.isPrivate || ip.isLinkLocal

/-- The metadata service of a cloud, `fd00:ec2::254`. -/
def metadataV6 : IpAddr.V6 := ⟨[0xfd00, 0xec2, 0, 0, 0, 0, 0, 0x254], rfl⟩

/-- Loopback, unspecified, unique local, link-local, and mapped internal addresses. -/
def isInternalV6 (ip : IpAddr.V6) : Bool :=
  ip.isLoopback || ip.isUnspecified || ip.isUniqueLocal || ip.isUnicastLinkLocal ||
    ip.mappedV4.any isInternalV4 || ip == metadataV6

/-- Is the host an internal address? -/
def isInternal : Host → Bool
  | .domain _ => false
  | .ipv4 ip => isInternalV4 ip
  | .ipv6 ip => isInternalV6 ip

def isV4 : Host → Bool
  | .ipv4 _ => true
  | _ => false

end Addresses

section Guard

variable {pc : ProxyConfig} {host : Host}

/-- An IPv4 host is read back from its text, and refused. -/
theorem ssrfBlock_v4
    {ip : IpAddr.V4}
    (hhost : pc.upstream.host = some (.ipv4 ip)) (hinternal : isInternalV4 ip = true)
    (hallow : pc.allowInternal = false) :
    Proxy.ssrfBlock pc ≠ none := by
  have htext : pc.upstream.hostStr.getD [] = ip.render := by simp [Url.hostStr, hhost, Host.text]
  unfold Proxy.ssrfBlock
  rw [htext, hallow]
  simp only [Bool.false_eq_true, if_false, IpAddr.parseIpAddr_render]
  by_cases hfirst : (ip.isLoopback || ip.isUnspecified) = true
  · simp [hfirst]
  · have hsecond : (ip.isPrivate || ip.isLinkLocal) = true := by
      simp only [isInternalV4, Bool.or_assoc] at hinternal
      rw [← Bool.or_assoc, Bool.or_eq_true] at hinternal
      exact hinternal.resolve_left hfirst
    simp [hfirst, hsecond]

/-- The brackets around an IPv6 host hide the address from the guard. -/
theorem ssrfBlock_v6
    {ip : IpAddr.V6}
    (hhost : pc.upstream.host = some (.ipv6 ip)) :
    Proxy.ssrfBlock pc = none := by
  have htext : pc.upstream.hostStr.getD [] = 91 :: (ip.render ++ [93]) := by
    simp [Url.hostStr, hhost, Host.text]
  have hname : eqIgnoreCase (91 :: (ip.render ++ [93])) (ascii "localhost") = false := by
    have hfirst : toLowerByte 91 ≠ toLowerByte 108 := by decide
    simp [eqIgnoreCase, toAsciiLower, ascii, hfirst]
  unfold Proxy.ssrfBlock
  rw [htext]
  simp only [IpAddr.parseIpAddr_bracket, hname]
  simp

/-- Where internal addresses are not allowed, exactly the IPv4 ones are refused. -/
theorem ssrfBlock_iff
    (hhost : pc.upstream.host = some host) (hinternal : isInternal host = true)
    (hallow : pc.allowInternal = false) :
    Proxy.ssrfBlock pc ≠ none ↔ isV4 host = true := by
  cases host with
  | domain name => cases hinternal
  | ipv4 ip => exact iff_of_true (ssrfBlock_v4 hhost hinternal hallow) rfl
  | ipv6 ip => simp [ssrfBlock_v6 hhost, isV4]

end Guard

section Requests

variable {ctx : Context} {env : Env} {st : ServerState} {raw : Bytes}
variable {server : ServerBlock} {loc : LocationBlock} {routed : ParsedRequest}
variable {pc : ProxyConfig}

/-- No connection is opened, and none is taken from the pool. -/
def NoContact (o : Outcome) : Prop :=
  ∀ e, Effect.net e ∈ o.effects → e.isContact = false

/-- A proxy contacts its upstream unless the guard refuses it; an upgrade always does. -/
theorem noContact_iff
    (hproxy : loc.handler = .proxy pc)
    (hhandled : Handled ctx env st raw server (some loc) routed) :
    NoContact (dispatch ctx env st raw) ↔
      isWsUpgrade routed.headers = false ∧ Proxy.ssrfBlock pc ≠ none := by
  obtain ⟨st', heffects⟩ := backend_effects_of_handled hhandled
  have hstage : handlerStage env st' server (some loc) routed =
      proxyHandler env st' (some loc) pc routed := by
    simp only [handlerStage, Option.map_some, hproxy]
  unfold NoContact
  simp only [heffects (.net _) rfl, hstage]
  unfold proxyHandler
  by_cases hws : isWsUpgrade routed.headers = true
  · refine iff_of_false ?_ (by simp [hws])
    intro h
    have hconnect := WebSocket.upgradeToWebsocket_connects (Proxy.upstreamAddr pc) routed.method
      routed.path routed.headers env.exchange
    have := h (.connect (Proxy.upstreamAddr pc)) (by
      rw [if_pos hws]
      unfold upgradeHandler
      generalize WebSocket.upgradeToWebsocket (Proxy.upstreamAddr pc) routed.method routed.path
        routed.headers env.exchange = result at hconnect
      rcases result with ⟨⟨⟩, events⟩
      · simpa [answer, handlerEffects] using hconnect
      · exact List.mem_append_left _ (List.mem_map_of_mem hconnect))
    cases this
  · have hcontact := Proxy.doProxy_contacts_iff pc routed.method routed.path
      (locationPrefix (some loc)) routed.headers [] env.exchange
    rw [if_neg hws, ne_eq, ← hcontact]
    simp [hws, handlerEffects, Proxy.proxyRequest]

/--
A location without `proxy_allow_internal on` whose URL has an internal address for its
host opens no connection exactly if the address is an IPv4 one and the request asks for
no upgrade.
-/
theorem ssrf_guard_iff
    {lib : Libraries} {ts : List Token} (url : Bytes) (parsed : Url) (host : Host)
    (htext : LocationText lib loc ts)
    (hurl : (itemArgs (ascii "proxy_pass") (locationItems lib ts)).getLast? = some url)
    (hinternal : ascii "on" ∉
      itemArgs (ascii "proxy_allow_internal") (locationItems lib ts))
    (hparsed : lib.parseUrl url = some parsed)
    (hhost : parsed.host = some host) (hclass : isInternal host = true)
    (hproxy : loc.handler = .proxy pc)
    (hhandled : Handled ctx env st raw server (some loc) routed) :
    NoContact (dispatch ctx env st raw) ↔
      isV4 host = true ∧ isWsUpgrade routed.headers = false := by
  obtain ⟨⟨url', hurl', haccepted⟩, hallowed⟩ := location_proxy lib htext hproxy
  obtain rfl : url = url' := Option.some.inj (hurl.symm.trans hurl')
  obtain rfl : parsed = pc.upstream := Option.some.inj (hparsed.symm.trans haccepted)
  have hallow : pc.allowInternal = false := by
    rw [← Bool.not_eq_true]
    exact fun h => hinternal (hallowed h)
  rw [noContact_iff hproxy hhandled, ssrfBlock_iff hhost hclass hallow, and_comm]

end Requests

section Example

/-- A location that forwards to an address. -/
def tokensOfProxy (host : Host) : List Token :=
  tokenize (ascii "/ \x7b proxy_pass http://" ++ host.text ++ ascii "/; \x7d \x7d")

/-- A URL library that knows the URLs of one host. -/
def urlLibrary (host : Host) : Libraries where
  parseUrl := fun raw =>
    if raw = ascii "http://" ++ host.text ++ ascii "/" then
      some ⟨ascii "http", some host, none, ascii "/"⟩
    else none
  compileRegex := fun _ => none
  parseFloat := fun _ => none

/-- The location that is read from those tokens. -/
def locationTo (host : Host) : LocationBlock :=
  ((parseLocation (urlLibrary host) (tokensOfProxy host)).toOption.map Prod.fst).getD
    (proxyLocation internalUpstream)

/-- What a server with that location makes of a request. -/
def guardedProxy (host : Host) (lines : List String) : Outcome :=
  dispatch (contextOf (serverWith (locationTo host))) (workingEnv []) (stateWithCache 0 0)
    (requestOf lines)

/-- The request gets to the proxy of the location, which was read from its text. -/
structure Forwards (host : Host) (lines : List String) (pc : ProxyConfig)
    (routed : ParsedRequest) : Prop where
  text : LocationText (urlLibrary host) (locationTo host) (tokensOfProxy host)
  proxy : (locationTo host).handler = .proxy pc
  handled : Handled (contextOf (serverWith (locationTo host))) (workingEnv [])
    (stateWithCache 0 0) (requestOf lines) (serverWith (locationTo host))
    (some (locationTo host)) routed

/-- The proxy of a location, if it has one. -/
def proxyConfigOf (loc : LocationBlock) : Option ProxyConfig :=
  match loc.handler with
  | .proxy pc => some pc
  | _ => none

theorem exists_forwards
    (host : Host) (lines : List String)
    (hread : (parseLocation (urlLibrary host) (tokensOfProxy host)).toOption.isSome = true)
    (hproxy : (proxyConfigOf (locationTo host)).isSome = true)
    (hrules : (locationTo host).rewrites = [])
    (hexit : (guardedProxy host lines).exit.byHandler = true)
    (hlocation : (parseStage (stateWithCache 0 0) (requestOf lines)).toOption.all
      (fun req => (Router.selectLocation (serverWith (locationTo host)) req.path).isSome) = true) :
    ∃ pc routed, Forwards host lines pc routed := by
  obtain ⟨routed, hhandled, _⟩ := handled_serverWith hrules hexit hlocation
  obtain ⟨⟨loc, rest⟩, hloc⟩ := Option.isSome_iff_exists.mp hread
  obtain ⟨pc, hpc⟩ := Option.isSome_iff_exists.mp hproxy
  refine ⟨pc, routed, ⟨rest, ?_⟩, ?_, hhandled⟩
  · rw [EarlyReturn.toOption_eq_some_iff.mp hloc]
    simp [locationTo, hloc]
  · unfold proxyConfigOf at hpc
    split at hpc
    · rename_i pc' h
      rw [h, Option.some.inj hpc]
    · cases hpc

/-- A plain request to the IPv4 loopback address is refused. -/
theorem ssrf_guard_example :
    NoContact (guardedProxy (.ipv4 ⟨127, 0, 0, 1⟩) ["GET / HTTP/1.1"]) := by
  obtain ⟨pc, routed, h⟩ := exists_forwards
    (.ipv4 ⟨127, 0, 0, 1⟩) ["GET / HTTP/1.1"]
    (by decide +kernel) (by decide +kernel) (by rfl) (by decide +kernel) (by decide +kernel)
  obtain ⟨req, hreq, hrouted⟩ := h.handled.received
  have hplain : (parseStage (stateWithCache 0 0) (requestOf ["GET / HTTP/1.1"])).toOption.all
      (fun req => !isWsUpgrade req.headers) = true := by
    decide +kernel
  have hheaders : isWsUpgrade routed.headers = false := by
    rw [EarlyReturn.toOption_eq_some_iff.mpr hreq] at hplain
    rw [hrouted]
    simpa using hplain
  exact (ssrf_guard_iff (ascii "http://127.0.0.1/")
    ⟨ascii "http", some (.ipv4 ⟨127, 0, 0, 1⟩), none, ascii "/"⟩
    (.ipv4 ⟨127, 0, 0, 1⟩) h.text (by decide +kernel) (by decide +kernel)
    (by decide +kernel) rfl (by decide) h.proxy h.handled).mpr ⟨rfl, hheaders⟩

/-- The IPv6 loopback address is contacted, although the location does not allow it. -/
theorem loopback_contacted :
    ∃ pc routed, Forwards (.ipv6 ⟨[0, 0, 0, 0, 0, 0, 0, 1], rfl⟩) ["GET / HTTP/1.1"] pc routed ∧
      pc.upstream.host = some (.ipv6 ⟨[0, 0, 0, 0, 0, 0, 0, 1], rfl⟩) ∧
      isInternal (.ipv6 ⟨[0, 0, 0, 0, 0, 0, 0, 1], rfl⟩) = true ∧ pc.allowInternal = false ∧
      ¬ NoContact
        (guardedProxy (.ipv6 ⟨[0, 0, 0, 0, 0, 0, 0, 1], rfl⟩) ["GET / HTTP/1.1"]) := by
  obtain ⟨pc, routed, h⟩ := exists_forwards
    (.ipv6 ⟨[0, 0, 0, 0, 0, 0, 0, 1], rfl⟩) ["GET / HTTP/1.1"]
    (by decide +kernel) (by decide +kernel) (by rfl) (by decide +kernel) (by decide +kernel)
  have hparts : (proxyConfigOf
      (locationTo (.ipv6 ⟨[0, 0, 0, 0, 0, 0, 0, 1], rfl⟩))).all (fun pc =>
        pc.upstream.host == some (.ipv6 ⟨[0, 0, 0, 0, 0, 0, 0, 1], rfl⟩) &&
          !pc.allowInternal) = true := by
    decide +kernel
  obtain ⟨hhost, hallow⟩ : pc.upstream.host = some (.ipv6 ⟨[0, 0, 0, 0, 0, 0, 0, 1], rfl⟩) ∧
      pc.allowInternal = false := by
    simpa [proxyConfigOf, h.proxy] using hparts
  refine ⟨pc, routed, h, hhost, by decide, hallow, ?_⟩
  intro hno
  exact ((noContact_iff h.proxy h.handled).mp hno).2 (ssrfBlock_v6 hhost)

end Example

end Handler
end RunNginx
