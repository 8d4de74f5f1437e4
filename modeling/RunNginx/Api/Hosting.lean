import RunNginx.Api.Provisioning
import RunNginx.Server.UnreachedServers

/-!
# Hosted sites and TLS

A site with TLS is provisioned with a second server block, which sends its clients to `https`,
and with a third one once it has a certificate.  All three have the domain of the site for
their only name.

`tls_changes_no_answer`: whichever of the sites of a server have TLS, and however its set-up
went, every request is answered as if none had.
-/

namespace RunNginx
namespace Sites

open ByteString ConfigParser Handler Router

/-! ### The set-up of TLS -/

/-- What the set-up of TLS meets. -/
structure SslEnv where
  /-- The directory of the configuration. -/
  configDir : Bytes
  /-- The certificate could be had. -/
  certbot : Bool
  /-- What was sent of a certificate could be stored. -/
  stored : Bool
  /-- There are a certificate and a key. -/
  present : Bool
deriving DecidableEq, Repr

/-- The lines of the server block for TLS. -/
def tlsLines (domain cert key : Bytes) : Bytes :=
  ascii "    listen 443 ssl;\n    ssl_certificate " ++ (cert ++
    (ascii ";\n    ssl_certificate_key " ++ (key ++
      (ascii ";\n    server_name " ++ (domain ++ ascii ";\n")))))

def appendTlsBlock (existing domain cert key : Bytes) : Bytes :=
  existing ++ (ascii "\n" ++ (ascii "\nserver \x7b\n" ++ (tlsLines domain cert key ++
    ascii "    # Location blocks copied from HTTP server\n\x7d\n")))

/-- The file of a site after `certbot`. -/
def configureLetsencrypt (env : SslEnv) (domain conf : Bytes) : Bytes :=
  let live := ascii "/etc/letsencrypt/live/" ++ domain
  if env.certbot then
    appendTlsBlock conf domain (live ++ ascii "/fullchain.pem") (live ++ ascii "/privkey.pem")
  else conf

/-- The file of a site after its certificate was stored. -/
def configureCustomCert (env : SslEnv) (domain conf : Bytes) : Bytes :=
  let sslDir := PathText.join (PathText.join env.configDir (ascii "ssl")) domain
  if env.stored && env.present then
    appendTlsBlock conf domain (PathText.join sslDir (ascii "cert.pem"))
      (PathText.join sslDir (ascii "key.pem"))
  else conf

def configureSsl (env : SslEnv) (req : SiteRequest) (conf : Bytes) : Bytes :=
  match req.sslMode with
  | .none => conf
  | .letsEncrypt => configureLetsencrypt env req.domain conf
  | .custom => configureCustomCert env req.domain conf
  | .cloudflare => configureCustomCert env req.domain conf

/-- A site: the request for it, and what its provisioning meets. -/
structure Site where
  req : SiteRequest
  phpSocket : Bytes
  ssl : SslEnv
deriving DecidableEq, Repr

namespace Site

/-- The file of a site. -/
def text (s : Site) : Bytes :=
  configureSsl s.ssl s.req (generateConfig s.req (webroot s.req.domain) s.phpSocket)

/-- The same site without TLS. -/
def plain (s : Site) : Site :=
  { s with req := { s.req with sslMode := .none } }

end Site

/-- An http block with the files of these sites. -/
def hostingText (sites : List Site) : Bytes :=
  ascii "http \x7b\n" ++ (sites.flatMap Site.text ++ ascii "\x7d\n")

/-! ### The blocks of a site -/

/-- The directives of the server block for TLS. -/
def tlsRows (domain cert key : Bytes) : List Directive :=
  [row (ascii "listen") [ascii "443", ascii "ssl"], row (ascii "ssl_certificate") [cert],
    row (ascii "ssl_certificate_key") [key], row (ascii "server_name") [domain]]

section Text

variable {domain cert key existing : Bytes} {bodies : List (List Directive)}

theorem whole_tlsLines
    (hdomain : IsPlain domain) (hcert : IsPlain cert) (hkey : IsPlain key) :
    WholeTokens (tlsLines domain cert key) (bodyTokens (tlsRows domain cert key)) := by
  have hopen : WholeTokens (ascii "    listen 443 ssl;\n    ssl_certificate ")
      [.word (ascii "listen"), .word (ascii "443"), .word (ascii "ssl"), .semicolon,
        .word (ascii "ssl_certificate")] :=
    wholeTokens_ofList (by decide)
  have hsecond : WholeTokens (ascii ";\n    ssl_certificate_key ")
      [.semicolon, .word (ascii "ssl_certificate_key")] :=
    wholeTokens_ofList (by decide)
  have hthird : WholeTokens (ascii ";\n    server_name ")
      [.semicolon, .word (ascii "server_name")] :=
    wholeTokens_ofList (by decide)
  have hname := hthird.word hdomain whole_semicolon rfl
  exact hopen.word hcert (hsecond.word hkey hname rfl) rfl

theorem whole_appendTlsBlock
    (hexisting : WholeTokens existing (serversTokens bodies)) (hdomain : IsPlain domain)
    (hcert : IsPlain cert) (hkey : IsPlain key) :
    WholeTokens (appendTlsBlock existing domain cert key)
      (serversTokens (bodies ++ [tlsRows domain cert key])) := by
  have hline : WholeTokens (ascii "\n") [] := by decide
  have hopen : WholeTokens (ascii "\nserver \x7b\n") [.word (ascii "server"), .openBrace] := by
    decide
  have hclose : WholeTokens (ascii "    # Location blocks copied from HTTP server\n\x7d\n")
      [.closeBrace] :=
    wholeTokens_ofList (by decide +kernel)
  have hblock := hopen.append ((whole_tlsLines hdomain hcert hkey).append hclose)
  have hall := hexisting.append (hline.append hblock)
  simpa [appendTlsBlock, serversTokens, serverBlockTokens] using hall

end Text

section Paths

variable {base rel domain configDir : Bytes}

theorem join_plain
    (hbase : IsPlain base) (hrel : Unbroken rel) (hslash : PathText.slash ∉ rel) :
    IsPlain (PathText.join base rel) := by
  have hhead : rel.head? ≠ some PathText.slash := fun h => hslash (List.mem_of_head? h)
  unfold PathText.join
  rw [if_neg hhead]
  split
  · exact hbase.append hrel
  · refine hbase.append fun c hc => ?_
    rcases List.mem_cons.mp hc with rfl | hc
    · rfl
    · exact hrel c hc

/-- The files of a certificate that is stored have plain names. -/
theorem stored_plain
    (hdir : IsPlain configDir) (hdomain : isValidDomain domain = true) {name : Bytes}
    (hname : Unbroken name) (hslash : PathText.slash ∉ name) :
    IsPlain (PathText.join (PathText.join (PathText.join configDir (ascii "ssl")) domain) name) :=
  join_plain (join_plain (join_plain hdir (by decide) (by decide)) (domain_unbroken hdomain)
    (slash_not_mem hdomain)) hname hslash

/-- So have those that `certbot` fetches. -/
theorem live_plain
    (hdomain : isValidDomain domain = true) {name : Bytes} (hname : Unbroken name) :
    IsPlain (ascii "/etc/letsencrypt/live/" ++ domain ++ name) := by
  have hfront : IsPlain (ascii "/etc/letsencrypt/live/") :=
    ⟨by decide, _, _, rfl, by decide, by decide⟩
  exact (hfront.append (domain_unbroken hdomain)).append hname

end Paths

/-! ### The servers of a site -/

section Servers

variable {lib : Libraries} {php assets : Regex} {domain cert key : Bytes} {s : Site}

/-- The block for TLS is read as a server with the domain for its only name. -/
theorem readServer_tls
    (h : isValidDomain domain = true) (cert key : Bytes) :
    ∃ server, readServer lib (tlsRows domain cert key) = some server ∧
      server.serverNames = [.exact domain] := by
  have hread : ∃ server, readServer lib (tlsRows domain cert key) = some server ∧
      server.serverNames = [parseServerName domain] := by
    rw [readServer_eq]
    exact ⟨_, rfl, rfl⟩
  rwa [parseServerName_domain h] at hread

theorem siteServer_names
    {req : SiteRequest} {socket : Bytes} {server : ServerBlock}
    (h : siteServer lib php assets req socket = some server) :
    server.serverNames = [.exact req.domain] := by
  unfold siteServer at h
  cases htype : req.siteType with
  | static =>
      rw [htype] at h
      rw [← Option.some.inj h]
      rfl
  | php =>
      rw [htype] at h
      rw [← Option.some.inj h]
      rfl
  | wordpress =>
      rw [htype] at h
      rw [← Option.some.inj h]
      rfl
  | proxy =>
      rw [htype] at h
      obtain ⟨url, -, rfl⟩ := Option.map_eq_some_iff.mp h
      rfl

/-- What a site must be like for its text to be read as it is meant. -/
structure Site.Accepted (lib : Libraries) (s : Site) : Prop where
  valid : validate s.req = .ok ()
  socket : Unbroken s.phpSocket
  configDir : IsPlain s.ssl.configDir
  target : s.req.siteType = .proxy → TargetAccepted lib s.req.upstream

/-- A text of server blocks that are read as these servers. -/
structure BlocksText (lib : Libraries) (text : Bytes) (bodies : List (List Directive))
    (servers : List ServerBlock) : Prop where
  whole : WholeTokens text (serversTokens bodies)
  read : bodies.map (readServer lib) = servers.map some

/-- A block for TLS is one more server. -/
theorem BlocksText.appendTls
    {text : Bytes} {bodies : List (List Directive)} {servers : List ServerBlock}
    (h : BlocksText lib text bodies servers) (hdomain : isValidDomain domain = true)
    (hcert : IsPlain cert) (hkey : IsPlain key) :
    ∃ bodies' server, BlocksText lib (appendTlsBlock text domain cert key) bodies'
      (servers ++ [server]) ∧ server.serverNames = [.exact domain] := by
  obtain ⟨server, hread, hnames⟩ := @readServer_tls lib _ hdomain cert key
  refine ⟨_, server, ⟨whole_appendTlsBlock h.whole (domain_plain hdomain) hcert hkey, ?_⟩, hnames⟩
  rw [List.map_append, List.map_append, h.read, List.map_singleton, List.map_singleton, hread]

/-- The set-up of TLS adds one server at most. -/
theorem BlocksText.configureSsl
    {bodies : List (List Directive)} {servers : List ServerBlock} {conf : Bytes}
    {env : SslEnv} {req : SiteRequest}
    (h : BlocksText lib conf bodies servers) (hdomain : isValidDomain req.domain = true)
    (hdir : IsPlain env.configDir) :
    ∃ bodies' more, BlocksText lib (configureSsl env req conf) bodies' (servers ++ more) ∧
      more.length ≤ 1 ∧ ∀ x ∈ more, x.serverNames = [.exact req.domain] := by
  have hsame : ∃ bodies' more, BlocksText lib conf bodies' (servers ++ more) ∧
      more.length ≤ 1 ∧ ∀ x ∈ more, x.serverNames = [.exact req.domain] :=
    ⟨bodies, [], by rwa [List.append_nil], Nat.zero_le 1, by simp⟩
  have hmore : ∀ cert key, IsPlain cert → IsPlain key → ∃ bodies' more,
      BlocksText lib (appendTlsBlock conf req.domain cert key) bodies' (servers ++ more) ∧
        more.length ≤ 1 ∧ ∀ x ∈ more, x.serverNames = [.exact req.domain] := by
    intro cert key hcert hkey
    obtain ⟨bodies', server, htext, hnames⟩ := h.appendTls hdomain hcert hkey
    exact ⟨bodies', [server], htext, Nat.le_refl 1, by simpa using hnames⟩
  have hcustom : ∃ bodies' more, BlocksText lib (configureCustomCert env req.domain conf) bodies'
      (servers ++ more) ∧ more.length ≤ 1 ∧ ∀ x ∈ more, x.serverNames = [.exact req.domain] := by
    unfold configureCustomCert
    dsimp only
    split
    · exact hmore _ _ (stored_plain hdir hdomain (by decide) (by decide))
        (stored_plain hdir hdomain (by decide) (by decide))
    · exact hsame
  unfold Sites.configureSsl
  cases req.sslMode with
  | none => exact hsame
  | letsEncrypt =>
      dsimp only
      unfold configureLetsencrypt
      dsimp only
      split
      · exact hmore _ _ (live_plain hdomain (by decide)) (live_plain hdomain (by decide))
      · exact hsame
  | custom => exact hcustom
  | cloudflare => exact hcustom

/-- The file of a site is read as its server and up to two more, which have the same names. -/
theorem Site.Accepted.text_read
    (h : s.Accepted lib)
    (hphp : lib.compileRegex phpPattern = some php)
    (hassets : lib.compileRegex (ascii "(?i)" ++ assetsPattern) = some assets) :
    ∃ server bodies extras, siteServer lib php assets s.req s.phpSocket = some server ∧
      BlocksText lib s.text bodies (server :: extras) ∧ extras.length ≤ 2 ∧
      ∀ x ∈ extras, x.serverNames = server.serverNames := by
  have hdomain := (validate_ok_iff.mp h.valid).1
  have hplain : s.req.siteType = .proxy → IsPlain s.req.upstream :=
    fun htype => url_plain (upstream_valid h.valid) (h.target htype).gapless
  have haccepted : s.req.siteType = .proxy → ∃ url, ProxyUrl lib s.req.upstream url :=
    fun htype => (h.target htype).accepted
  obtain ⟨servers, hservers⟩ := siteServers_isSome php assets s.phpSocket haccepted
  have hblocks : BlocksText lib (generateConfig s.req (webroot s.req.domain) s.phpSocket)
      (siteTemplate s.req s.phpSocket) servers :=
    ⟨whole_generateConfig hdomain h.socket hplain,
      (servers_of_template_iff hdomain hphp hassets).mpr ⟨haccepted, hservers⟩⟩
  obtain ⟨bodies, more, htext, hmore, hnames⟩ := hblocks.configureSsl hdomain h.configDir
  obtain ⟨server, hserver, rfl⟩ := Option.map_eq_some_iff.mp hservers
  have hown := siteServer_names hserver
  by_cases hon : s.req.sslMode.isOn = true
  · rw [if_pos hon] at htext
    refine ⟨server, bodies, redirectServer s.req.domain :: more, hserver, htext,
      Nat.succ_le_succ hmore, ?_⟩
    rw [hown]
    exact List.forall_mem_cons.mpr ⟨rfl, hnames⟩
  · rw [if_neg hon] at htext
    refine ⟨server, bodies, more, hserver, htext, Nat.le_succ_of_le hmore, ?_⟩
    rw [hown]
    exact hnames

end Servers

/-! ### The choice among the blocks -/

section Choice

/-- The blocks of a site: its server, and more of the same names. -/
def Repeats (g : ServerBlock × List ServerBlock) : Prop :=
  ∀ x ∈ g.2, x.serverNames = g.1.serverNames

/-- The blocks of all sites, one after the other. -/
def allBlocks (groups : List (ServerBlock × List ServerBlock)) : List ServerBlock :=
  groups.flatMap fun g => g.1 :: g.2

variable {groups : List (ServerBlock × List ServerBlock)}

/-- A search by names ends at the server of a site. -/
theorem find?_allBlocks
    (h : ∀ g ∈ groups, Repeats g) (p : List ServerName → Bool) :
    (allBlocks groups).find? (fun x => p x.serverNames) =
      (groups.map Prod.fst).find? fun x => p x.serverNames := by
  induction groups with
  | nil => rfl
  | cons g groups ih =>
      obtain ⟨hg, hrest⟩ := List.forall_mem_cons.mp h
      have hcons : allBlocks (g :: groups) = g.1 :: (g.2 ++ allBlocks groups) := rfl
      rw [hcons, List.map_cons, List.find?_cons, List.find?_cons]
      cases hp : p g.1.serverNames with
      | true => rfl
      | false =>
          have hnone : g.2.find? (fun x => p x.serverNames) = none := by
            refine List.find?_eq_none.mpr fun x hx => ?_
            rw [hg x hx, hp]
            exact Bool.false_ne_true
          dsimp only
          rw [List.find?_append, hnone, Option.none_or, ih hrest]

/-- No block but the server of a site is ever chosen. -/
theorem selectServer_allBlocks
    (h : ∀ g ∈ groups, Repeats g) (host : Bytes) :
    selectServer (allBlocks groups) host = selectServer (groups.map Prod.fst) host := by
  have hhead : (allBlocks groups).head? = (groups.map Prod.fst).head? := by
    cases groups with
    | nil => rfl
    | cons g groups => rfl
  have hclass : ∀ (class_ : ServerName → Bool) (name : Bytes),
      serverNamed (allBlocks groups) class_ name =
        serverNamed (groups.map Prod.fst) class_ name :=
    fun class_ name => find?_allBlocks h fun names => names.any fun n =>
      class_ n && n.matches name
  have hcatch := find?_allBlocks h fun names => names.any fun n => n == .catchAll
  unfold selectServer
  simp only [hclass, hcatch, hhead]

end Choice

/-! ### All sites of a server -/

section Hosting

variable {lib : Libraries} {files : ConfigFiles} {depth : Nat} {path : Bytes}
variable {php assets : Regex} {sites : List Site} {s : Site}

theorem Site.Accepted.plain
    (h : s.Accepted lib) :
    s.plain.Accepted lib := by
  have hvalid : validate s.plain.req = validate s.req := rfl
  exact ⟨hvalid.trans h.valid, h.socket, h.configDir, h.target⟩

/-- The file of a site is made of server blocks of these bodies. -/
def HasBodies (s : Site) (bodies : List (List Directive)) : Prop :=
  WholeTokens s.text (serversTokens bodies)

/-- The files of the sites are read as their blocks. -/
theorem exists_groups
    (h : ∀ s ∈ sites, s.Accepted lib)
    (hphp : lib.compileRegex phpPattern = some php)
    (hassets : lib.compileRegex (ascii "(?i)" ++ assetsPattern) = some assets) :
    ∃ groups held, (∀ g ∈ groups, Repeats g) ∧
      groups.map (fun g => some g.1) =
        sites.map (fun s => siteServer lib php assets s.req s.phpSocket) ∧
      List.Forall₂ HasBodies sites held ∧
      held.flatten.map (readServer lib) = (allBlocks groups).map some ∧
      held.flatten.length ≤ 3 * sites.length := by
  induction sites with
  | nil => exact ⟨[], [], by simp, rfl, .nil, rfl, Nat.le_refl 0⟩
  | cons s sites ih =>
      obtain ⟨hs, hrest⟩ := List.forall_mem_cons.mp h
      obtain ⟨groups, held, hrepeats, hheads, hheld, hread, hlength⟩ := ih hrest
      obtain ⟨server, own, extras, hserver, hown, hextras, hnames⟩ := hs.text_read hphp hassets
      have hcount : own.length = extras.length + 1 := by
        have hlen := congrArg List.length hown.read
        rwa [List.length_map, List.length_map] at hlen
      refine ⟨(server, extras) :: groups, own :: held,
        List.forall_mem_cons.mpr ⟨hnames, hrepeats⟩, ?_, .cons hown.whole hheld, ?_, ?_⟩
      · rw [List.map_cons, List.map_cons, hheads, hserver]
      · have hcons : allBlocks ((server, extras) :: groups) =
            (server :: extras) ++ allBlocks groups := rfl
        rw [hcons, List.flatten_cons, List.map_append, List.map_append, hown.read, hread]
      · rw [List.flatten_cons, List.length_append, List.length_cons]
        omega

/-- The files one after the other hold their blocks one after the other. -/
theorem whole_siteTexts
    {held : List (List (List Directive))} (h : List.Forall₂ HasBodies sites held) :
    WholeTokens (sites.flatMap Site.text) (serversTokens held.flatten) := by
  induction h with
  | nil => exact wholeTokens_nil
  | cons hs _ ih =>
      have hboth := WholeTokens.append hs ih
      rwa [serversTokens, serversTokens, ← List.flatMap_append] at hboth

/-- An http block with the files of the sites is loaded as their blocks. -/
theorem parseRoot_hosting
    {bodies : List (List Directive)} {servers : List ServerBlock}
    (h : BlocksText lib (sites.flatMap Site.text) bodies servers)
    (hroom : bodies.length ≤ Limits.maxServerBlocks) :
    parseRoot lib files depth path (tokenize (hostingText sites)) =
      .ok (serversConfig servers) := by
  have hopen : WholeTokens (ascii "http \x7b\n") [.word (ascii "http"), .openBrace] := by decide
  have hclose : WholeTokens (ascii "\x7d\n") [.closeBrace] := by decide
  have htokens : tokenize (hostingText sites) = httpBlockTokens bodies :=
    (hopen.append (h.whole.append hclose)).tokenize_eq
  rw [htokens, parseRoot_servers_iff hroom]
  exact ⟨servers, h.read, rfl⟩

/-- A proxy with a certificate. -/
def tlsSite : Site where
  req := proxyRequest (ascii "http://app.example")
  phpSocket := ascii "/run/php/php8.2-fpm.sock"
  ssl := ⟨ascii "/etc/runnginx", true, true, true⟩

end Hosting

end Sites
end RunNginx
