import RunNginx.Api.Sites
import RunNginx.Config.ServerBodies
import RunNginx.Config.TokenText

/-!
# Site provisioning

The text that a site is provisioned with is read as the directives of its template, each
field as one word, and an http block that holds it is loaded as the servers of the template.

`provisions_iff`: that is so for every valid request but those for a proxy whose URL holds
white space that the validation lets through, or is none that `proxy_pass` accepts.
-/

namespace RunNginx
namespace Sites

open ByteString ConfigParser

/-! ### Templates -/

/-- A directive without a block. -/
def row (name : Bytes) (args : List Bytes) : Directive where
  name := name
  args := args
  block := none

/-- A location with these directives. -/
def location (args : List Bytes) (ds : List Directive) : Directive where
  name := ascii "location"
  args := args
  block := some ⟨bodyTokens ds, balanced_bodyTokens ds⟩

def headRows (domain : Bytes) : List Directive :=
  [row (ascii "listen") [ascii "80"], row (ascii "server_name") [domain]]

def cfRows (cloudflare : Bool) : List Directive :=
  if cloudflare then [row (ascii "real_ip_header") [ascii "CF-Connecting-IP"]] else []

def tryFiles (last : Bytes) : Directive :=
  location [ascii "/"] [row (ascii "try_files") [ascii "$uri", ascii "$uri/", last]]

/-- What the location of PHP files matches. -/
def phpPattern : Bytes :=
  ascii "\\.php$"

def phpRows (socket : Bytes) : Directive :=
  location [ascii "~", phpPattern]
    [row (ascii "fastcgi_pass") [ascii "unix:" ++ socket],
      row (ascii "fastcgi_index") [ascii "index.php"]]

/-- What the location of assets matches. -/
def assetsPattern : Bytes :=
  ascii "\\.(js|css|png|jpg|jpeg|gif|ico|svg|woff2?)$"

def assetsRows : Directive :=
  location [ascii "~*", assetsPattern] [row (ascii "expires") [ascii "max"]]

/-- The headers that a proxy site sets. -/
def proxyHeaders : List (Bytes × Bytes) :=
  [(ascii "Host", ascii "$host"), (ascii "X-Real-IP", ascii "$remote_addr"),
    (ascii "X-Forwarded-For", ascii "$proxy_add_x_forwarded_for"),
    (ascii "X-Forwarded-Proto", ascii "$scheme")]

def proxyRows (upstream : Bytes) : Directive :=
  location [ascii "/"] (row (ascii "proxy_pass") [upstream] ::
    proxyHeaders.map fun h => row (ascii "proxy_set_header") [h.1, h.2])

/-- The directives of the server block of a site. -/
def siteBody (req : SiteRequest) (root phpSocket : Bytes) : List Directive :=
  match req.siteType with
  | .static =>
      headRows req.domain ++ [row (ascii "root") [root]] ++
        [row (ascii "index") [ascii "index.html", ascii "index.htm"]] ++
        cfRows req.cloudflare ++ [tryFiles (ascii "=404")]
  | .php =>
      headRows req.domain ++ [row (ascii "root") [root]] ++
        [row (ascii "index") [ascii "index.php", ascii "index.html"]] ++
        cfRows req.cloudflare ++ [tryFiles (ascii "=404")] ++ [phpRows phpSocket]
  | .wordpress =>
      headRows req.domain ++ [row (ascii "root") [root]] ++
        [row (ascii "index") [ascii "index.php"]] ++
        cfRows req.cloudflare ++ [tryFiles (ascii "/index.php?$args")] ++ [phpRows phpSocket] ++
        [assetsRows]
  | .proxy => headRows req.domain ++ cfRows req.cloudflare ++ [proxyRows req.upstream]

def redirectRow (domain : Bytes) : Directive :=
  row (ascii "return") [ascii "301", ascii "https://" ++ domain ++ ascii "$request_uri"]

/-- The bodies of the server blocks that a site is provisioned with. -/
def siteBodies (req : SiteRequest) (root phpSocket : Bytes) : List (List Directive) :=
  if req.sslMode.isOn then
    [siteBody req root phpSocket, headRows req.domain ++ [redirectRow req.domain]]
  else [siteBody req root phpSocket]

/-! ### The text of a template -/

section Words

/-- The characters of a domain. -/
theorem domain_chars
    {domain : Bytes} (h : isValidDomain domain = true) {c : UInt8} (hc : c ∈ domain) :
    (isAsciiAlphanumeric c || c == 45 || c == 46) = true := by
  simp only [isValidDomain, Bool.and_eq_true, List.all_eq_true] at h
  exact h.1.1.1.2 c hc

theorem domain_unbroken
    {domain : Bytes} (h : isValidDomain domain = true) :
    Unbroken domain := by
  have hbyte : ∀ c : UInt8, (isAsciiAlphanumeric c || c == 45 || c == 46) = true →
      endsWord c = false :=
    forall_byte (by decide +kernel)
  exact fun c hc => hbyte c (domain_chars h hc)

theorem domain_ne_nil
    {domain : Bytes} (h : isValidDomain domain = true) :
    domain ≠ [] := by
  rintro rfl
  cases h

theorem domain_plain
    {domain : Bytes} (h : isValidDomain domain = true) :
    IsPlain domain := by
  refine ⟨domain_unbroken h, ?_⟩
  obtain ⟨c, rest, rfl⟩ := List.exists_cons_of_ne_nil (domain_ne_nil h)
  have hc := domain_chars h List.mem_cons_self
  refine ⟨c, rest, rfl, ?_, ?_⟩
  · rintro rfl
    exact absurd hc (by decide)
  · rintro rfl
    exact absurd hc (by decide)

theorem slash_not_mem
    {domain : Bytes} (h : isValidDomain domain = true) :
    PathText.slash ∉ domain :=
  fun hmem => absurd (domain_chars h hmem) (by decide)

theorem webroot_eq
    {domain : Bytes} (h : isValidDomain domain = true) :
    webroot domain = ascii "/var/www/" ++ (domain ++ ascii "/public") := by
  have hslash := slash_not_mem h
  obtain ⟨c, rest, rfl⟩ := List.exists_cons_of_ne_nil (domain_ne_nil h)
  have hfirst : PathText.join (ascii "/var/www") (c :: rest) = ascii "/var/www/" ++ c :: rest := by
    have hc : c ≠ PathText.slash := fun hc => hslash (hc ▸ List.mem_cons_self)
    have hbase : ¬ (ascii "/var/www" = [] ∨ (ascii "/var/www").getLast? = some PathText.slash) := by
      decide
    rw [PathText.join, if_neg (by simpa using hc), if_neg hbase]
    rfl
  have hlast : ¬ (ascii "/var/www/" ++ c :: rest = [] ∨
      (ascii "/var/www/" ++ c :: rest).getLast? = some PathText.slash) := by
    rintro (hnil | hend)
    · simp at hnil
    · rw [List.getLast?_append_of_ne_nil _ (List.cons_ne_nil c rest)] at hend
      exact hslash (List.mem_of_getLast? hend)
  rw [webroot, hfirst, PathText.join, if_neg (by decide), if_neg hlast, List.append_assoc]
  rfl

theorem webroot_plain
    {domain : Bytes} (h : isValidDomain domain = true) :
    IsPlain (webroot domain) := by
  rw [webroot_eq h]
  have hfront : IsPlain (ascii "/var/www/") := ⟨by decide, _, _, rfl, by decide, by decide⟩
  exact hfront.append ((domain_unbroken h).append (by decide))

end Words

section Text

variable {lines more : Bytes} {ds es : List Directive}

theorem whole_append
    (h : WholeTokens lines (bodyTokens ds)) (hmore : WholeTokens more (bodyTokens es)) :
    WholeTokens (lines ++ more) (bodyTokens (ds ++ es)) := by
  rw [bodyTokens_append]
  exact h.append hmore

theorem whole_serverText
    (h : WholeTokens lines (bodyTokens ds)) :
    WholeTokens (serverText lines) (serverBlockTokens ds) := by
  have hopen : WholeTokens (ascii "server \x7b\n") [.word (ascii "server"), .openBrace] := by
    decide
  have hclose : WholeTokens (ascii "\x7d\n") [.closeBrace] := by decide
  exact hopen.append (h.append hclose)

theorem whole_semicolon : WholeTokens (ascii ";\n") [.semicolon] := by
  decide

theorem whole_headLines
    {domain : Bytes} (h : IsPlain domain) :
    WholeTokens (headLines domain) (bodyTokens (headRows domain)) := by
  have hopen : WholeTokens (ascii "    listen 80;\n    server_name ")
      [.word (ascii "listen"), .word (ascii "80"), .semicolon, .word (ascii "server_name")] :=
    wholeTokens_ofList (by decide)
  exact hopen.word h whole_semicolon (by decide)

theorem whole_rootLine
    {root : Bytes} (h : IsPlain root) :
    WholeTokens (rootLine root) (bodyTokens [row (ascii "root") [root]]) := by
  have hopen : WholeTokens (ascii "    root ") [.word (ascii "root")] := by decide
  exact hopen.word h whole_semicolon (by decide)

theorem whole_cfHeaders
    (cloudflare : Bool) :
    WholeTokens (cfHeaders cloudflare) (bodyTokens (cfRows cloudflare)) := by
  cases cloudflare with
  | false => exact wholeTokens_nil
  | true => exact wholeTokens_ofList (by decide)

theorem whole_tryFiles :
    WholeTokens (ascii "location / \x7b\n        try_files $uri $uri/ =404;\n    \x7d\n")
      (bodyTokens [tryFiles (ascii "=404")]) :=
  wholeTokens_ofList (by decide +kernel)

theorem whole_tryFrontController :
    WholeTokens
      (ascii "location / \x7b\n        try_files $uri $uri/ /index.php?$args;\n    \x7d\n")
      (bodyTokens [tryFiles (ascii "/index.php?$args")]) :=
  wholeTokens_ofList (by decide +kernel)

theorem whole_phpLocation
    {socket : Bytes} (h : Unbroken socket) :
    WholeTokens (phpLocation socket) (bodyTokens [phpRows socket]) := by
  have hopen : WholeTokens (ascii "location ~ \\.php$ \x7b\n        fastcgi_pass ")
      [.word (ascii "location"), .word (ascii "~"), .word phpPattern, .openBrace,
        .word (ascii "fastcgi_pass")] :=
    wholeTokens_ofList (by decide +kernel)
  have hclose : WholeTokens (ascii ";\n        fastcgi_index index.php;\n    \x7d\n")
      [.semicolon, .word (ascii "fastcgi_index"), .word (ascii "index.php"), .semicolon,
        .closeBrace] :=
    wholeTokens_ofList (by decide +kernel)
  have hword : IsPlain (ascii "unix:") := ⟨by decide, _, _, rfl, by decide, by decide⟩
  exact hopen.word (hword.append h) hclose (by decide)

theorem whole_assets :
    WholeTokens (ascii "location ~* \\.(js|css|png|jpg|jpeg|gif|ico|svg|woff2?)$ \x7b\n" ++
      ascii "        expires max;\n    \x7d\n") (bodyTokens [assetsRows]) := by
  have hopen : WholeTokens
      (ascii "location ~* \\.(js|css|png|jpg|jpeg|gif|ico|svg|woff2?)$ \x7b\n")
      [.word (ascii "location"), .word (ascii "~*"), .word assetsPattern, .openBrace] :=
    wholeTokens_ofList (by decide +kernel)
  have hclose : WholeTokens (ascii "        expires max;\n    \x7d\n")
      [.word (ascii "expires"), .word (ascii "max"), .semicolon, .closeBrace] :=
    wholeTokens_ofList (by decide)
  exact hopen.append hclose

/-- What stands in front of the URL of a proxy. -/
def proxyOpen : Bytes :=
  ascii "location / \x7b\n        proxy_pass "

theorem whole_proxyOpen :
    WholeTokens proxyOpen
      [.word (ascii "location"), .word (ascii "/"), .openBrace, .word (ascii "proxy_pass")] :=
  wholeTokens_ofList (by decide)

theorem whole_proxyHeaders :
    WholeTokens (ascii ";\n        proxy_set_header Host $host;\n" ++
        ascii "        proxy_set_header X-Real-IP $remote_addr;\n" ++
        ascii "        proxy_set_header X-Forwarded-For $proxy_add_x_forwarded_for;\n" ++
        ascii "        proxy_set_header X-Forwarded-Proto $scheme;\n    \x7d\n")
      (Token.semicolon :: (bodyTokens (proxyHeaders.map fun h =>
        row (ascii "proxy_set_header") [h.1, h.2]) ++ [Token.closeBrace])) := by
  have hhost : WholeTokens (ascii ";\n        proxy_set_header Host $host;\n")
      (.semicolon :: bodyTokens [row (ascii "proxy_set_header") [ascii "Host", ascii "$host"]]) :=
    wholeTokens_ofList (by decide +kernel)
  have hreal : WholeTokens (ascii "        proxy_set_header X-Real-IP $remote_addr;\n")
      (bodyTokens [row (ascii "proxy_set_header") [ascii "X-Real-IP", ascii "$remote_addr"]]) :=
    wholeTokens_ofList (by decide +kernel)
  have hfor : WholeTokens
      (ascii "        proxy_set_header X-Forwarded-For $proxy_add_x_forwarded_for;\n")
      (bodyTokens [row (ascii "proxy_set_header")
        [ascii "X-Forwarded-For", ascii "$proxy_add_x_forwarded_for"]]) :=
    wholeTokens_ofList (by decide +kernel)
  have hproto : WholeTokens
      (ascii "        proxy_set_header X-Forwarded-Proto $scheme;\n    \x7d\n")
      (bodyTokens [row (ascii "proxy_set_header")
        [ascii "X-Forwarded-Proto", ascii "$scheme"]] ++ [.closeBrace]) :=
    wholeTokens_ofList (by decide +kernel)
  exact ((hhost.append hreal).append hfor).append hproto

theorem whole_proxyLocation
    {upstream : Bytes} (h : IsPlain upstream) :
    WholeTokens (proxyLocation upstream) (bodyTokens [proxyRows upstream]) :=
  whole_proxyOpen.word h whole_proxyHeaders rfl

theorem whole_redirectLine
    {domain : Bytes} (h : Unbroken domain) :
    WholeTokens (redirectLine domain) (bodyTokens [redirectRow domain]) := by
  have hopen : WholeTokens (ascii "    return 301 ")
      [.word (ascii "return"), .word (ascii "301")] := by
    decide
  have hscheme : IsPlain (ascii "https://") := ⟨by decide, _, _, rfl, by decide, by decide⟩
  have huri : Unbroken (ascii "$request_uri") := by decide
  exact hopen.word ((hscheme.append h).append huri) whole_semicolon (by decide)

/-- The lines of a site are the directives of its template, if its fields are words. -/
theorem whole_siteLines
    {req : SiteRequest} {socket : Bytes} (hdomain : isValidDomain req.domain = true)
    (hsocket : Unbroken socket) (hurl : req.siteType = .proxy → IsPlain req.upstream) :
    WholeTokens (siteLines req (webroot req.domain) socket)
      (bodyTokens (siteBody req (webroot req.domain) socket)) := by
  have hhead := whole_headLines (domain_plain hdomain)
  have hcf := whole_cfHeaders req.cloudflare
  have hphp := whole_phpLocation hsocket
  have hrooted := whole_append hhead (whole_rootLine (webroot_plain hdomain))
  unfold siteLines siteBody
  cases htype : req.siteType with
  | static =>
      have hindex : WholeTokens (ascii "    index index.html index.htm;\n")
          (bodyTokens [row (ascii "index") [ascii "index.html", ascii "index.htm"]]) :=
        wholeTokens_ofList (by decide)
      exact whole_append (whole_append (whole_append hrooted hindex) hcf)
        whole_tryFiles
  | php =>
      have hindex : WholeTokens (ascii "    index index.php index.html;\n")
          (bodyTokens [row (ascii "index") [ascii "index.php", ascii "index.html"]]) :=
        wholeTokens_ofList (by decide)
      exact whole_append (whole_append (whole_append
        (whole_append hrooted hindex) hcf) whole_tryFiles) hphp
  | wordpress =>
      have hindex : WholeTokens (ascii "    index index.php;\n")
          (bodyTokens [row (ascii "index") [ascii "index.php"]]) :=
        wholeTokens_ofList (by decide)
      exact whole_append (whole_append (whole_append (whole_append
        (whole_append hrooted hindex) hcf) whole_tryFrontController) hphp) whole_assets
  | proxy =>
      exact whole_append (whole_append hhead hcf) (whole_proxyLocation (hurl htype))

/-- An http block that holds the text of a site. -/
def siteText (req : SiteRequest) (socket : Bytes) : Bytes :=
  ascii "http \x7b\n" ++ (generateConfig req (webroot req.domain) socket ++ ascii "\x7d\n")

/-- The server blocks of its template. -/
def siteTemplate (req : SiteRequest) (socket : Bytes) : List (List Directive) :=
  siteBodies req (webroot req.domain) socket

theorem whole_generateConfig
    {req : SiteRequest} {socket : Bytes} (hdomain : isValidDomain req.domain = true)
    (hsocket : Unbroken socket) (hurl : req.siteType = .proxy → IsPlain req.upstream) :
    WholeTokens (generateConfig req (webroot req.domain) socket)
      (serversTokens (siteTemplate req socket)) := by
  have hline : WholeTokens (ascii "\n") [] := by decide
  have hsite := whole_serverText (whole_siteLines hdomain hsocket hurl)
  unfold generateConfig siteTemplate siteBodies
  dsimp only
  split
  · have hredirect := whole_serverText (whole_append (whole_headLines (domain_plain hdomain))
      (whole_redirectLine (domain_unbroken hdomain)))
    have hboth := hsite.append (hline.append hredirect)
    simpa [serversTokens] using hboth
  · simpa [serversTokens] using hsite

theorem tokenize_siteText
    {req : SiteRequest} {socket : Bytes} (hdomain : isValidDomain req.domain = true)
    (hsocket : Unbroken socket) (hurl : req.siteType = .proxy → IsPlain req.upstream) :
    tokenize (siteText req socket) = httpBlockTokens (siteTemplate req socket) := by
  have hopen : WholeTokens (ascii "http \x7b\n") [.word (ascii "http"), .openBrace] := by decide
  have hclose : WholeTokens (ascii "\x7d\n") [.closeBrace] := by decide
  have hconfig := whole_generateConfig hdomain hsocket hurl
  exact (hopen.append (hconfig.append hclose)).tokenize_eq

end Text

/-! ### The servers of a template -/

/-- Port 80 of every address. -/
def listen80 : ListenDirective :=
  ⟨⟨.v4 ⟨0, 0, 0, 0⟩, 80⟩, false, false, false⟩

/-- A server that listens on port 80 for a domain. -/
def headServer (domain : Bytes) : ServerBlock :=
  { ServerReader.initial.block with listen := [listen80], serverNames := [.exact domain] }

def tryBlock (last : TryFilesEntry) : LocationBlock :=
  LocationReader.finish
    { LocationReader.initial with
      tryFiles := some [.path (ascii "$uri"), .path (ascii "$uri/"), last] }
    (.longestPrefix (ascii "/"))

def phpBlock (php : Regex) (socket : Bytes) : LocationBlock :=
  LocationReader.finish
    { LocationReader.initial with
      handler := .fastCgi
        { upstream := .unixSocket (PathText.slash :: socket.dropWhile (· == PathText.slash))
          params := []
          index := some (ascii "index.php")
          readTimeout := 60
          connectTimeout := 5 } }
    (.regex phpPattern php)

def assetsBlock (assets : Regex) : LocationBlock :=
  LocationReader.initial.finish (.regexInsensitive assetsPattern assets)

/-- What `proxy_pass` makes of a URL. -/
def proxyTo (url : Url) : ProxyConfig where
  upstream := url
  setHeaders := []
  readTimeout := 60
  connectTimeout := 5
  buffering := true
  http2 := false
  allowInternal := false

def proxyBlock (url : Url) : LocationBlock :=
  LocationReader.finish
    { LocationReader.initial with
      handler := .proxy { proxyTo url with setHeaders := proxyHeaders } }
    (.longestPrefix (ascii "/"))

section Servers

variable (lib : Libraries) (php assets : Regex) (req : SiteRequest) (socket : Bytes)

/-- The server of a site; a proxy has the URL it was given. -/
def siteServer : Option ServerBlock :=
  let rooted : ServerBlock :=
    { headServer req.domain with root := some (webroot req.domain) }
  match req.siteType with
  | .static =>
      some { rooted with
        index := [ascii "index.html", ascii "index.htm"]
        locations := [tryBlock (.statusCode 404)] }
  | .php =>
      some { rooted with
        index := [ascii "index.php", ascii "index.html"]
        locations := [tryBlock (.statusCode 404), phpBlock php socket] }
  | .wordpress =>
      some { rooted with
        index := [ascii "index.php"]
        locations :=
          [tryBlock (.path (ascii "/index.php?$args")), phpBlock php socket, assetsBlock assets] }
  | .proxy =>
      (lib.parseUrl req.upstream).map fun url =>
        { headServer req.domain with locations := [proxyBlock url] }

def redirectServer (domain : Bytes) : ServerBlock :=
  { headServer domain with
    returnDirective := some ⟨301, .url (ascii "https://" ++ domain ++ ascii "$request_uri")⟩ }

/-- The servers that a site is provisioned with. -/
def siteServers : Option (List ServerBlock) :=
  (siteServer lib php assets req socket).map fun server =>
    if req.sslMode.isOn then [server, redirectServer req.domain] else [server]

/-- `proxy_pass` accepts the text as this URL. -/
structure ProxyUrl (raw : Bytes) (url : Url) : Prop where
  parsed : lib.parseUrl raw = some url
  scheme : url.scheme = ascii "http" ∨ url.scheme = ascii "https"
  specified : isUnspecifiedText (url.hostStr.getD []) = false
  allowed : isBlockedHost (url.hostStr.getD []) = false

end Servers

section Read

variable {lib : Libraries} {php assets : Regex} {req : SiteRequest} {socket domain : Bytes}
  {st : ServerReader}

theorem parseProxyPass_ok_iff
    {raw : Bytes} {pc : ProxyConfig} :
    parseProxyPass lib raw = .ok pc ↔ ∃ url, ProxyUrl lib raw url ∧ pc = proxyTo url := by
  unfold parseProxyPass
  cases hurl : lib.parseUrl raw with
  | none =>
      refine ⟨fun h => (by cases h), ?_⟩
      rintro ⟨url, hparsed, -⟩
      cases hurl.symm.trans hparsed.parsed
  | some url =>
      constructor
      · intro h
        dsimp only at h
        split_ifs at h with hscheme hspecified hallowed
        refine ⟨url, ⟨hurl, ?_, by simpa using hspecified, by simpa using hallowed⟩,
          (Except.ok.inj h).symm⟩
        by_contra hboth
        exact hscheme (not_or.mp hboth)
      · rintro ⟨url', ⟨hparsed, hscheme, hspecified, hallowed⟩, rfl⟩
        obtain rfl := Option.some.inj (hurl.symm.trans hparsed)
        have hboth : ¬ (url.scheme ≠ ascii "http" ∧ url.scheme ≠ ascii "https") := by
          rintro ⟨hhttp, hhttps⟩
          exact hscheme.elim hhttp hhttps
        simp only [if_neg hboth, hspecified, hallowed]
        rfl

theorem domain_not_dotted
    (h : isValidDomain domain = true) :
    (ascii ".").isPrefixOf domain = false := by
  simp only [isValidDomain, Bool.and_eq_true, Bool.not_eq_true'] at h
  exact h.1.1.2

theorem parseServerName_domain
    (h : isValidDomain domain = true) :
    parseServerName domain = .exact domain := by
  obtain ⟨c, rest, rfl⟩ := List.exists_cons_of_ne_nil (domain_ne_nil h)
  have hc := domain_chars h List.mem_cons_self
  have hcatch : ¬ (c :: rest = ascii "_" ∨ c :: rest = []) := by
    rintro (heq | heq)
    · obtain rfl : c = 95 := (List.cons.inj heq).1
      exact absurd hc (by decide)
    · cases heq
  have hstar : ¬ (ascii "*.").isPrefixOf (c :: rest) = true := by
    intro hprefix
    obtain ⟨tail, htail⟩ := List.isPrefixOf_iff_prefix.mp hprefix
    obtain rfl : c = 42 := (List.cons.inj htail).1.symm
    exact absurd hc (by decide)
  rw [parseServerName, if_neg hcatch, if_neg hstar, if_neg (by simp [domain_not_dotted h])]

theorem pieces_webroot
    (h : isValidDomain domain = true) :
    PathText.pieces (webroot domain) =
      [[], ascii "var", ascii "www", domain, ascii "public"] := by
  have hfront : ascii "/var/www/" ++ (domain ++ ascii "/public") =
      [] ++ 47 :: (ascii "var" ++ 47 :: (ascii "www" ++ 47 :: (domain ++ 47 :: ascii "public"))) :=
    rfl
  have hdomain : (47 : UInt8) ∉ domain := slash_not_mem h
  rw [webroot_eq h, hfront, PathText.pieces, PathText.slash, splitByte_append List.not_mem_nil,
    splitByte_append (by decide), splitByte_append (by decide), splitByte_append hdomain,
    splitByte_of_not_mem (by decide)]

/-- The root of a site is accepted as a root. -/
theorem canonicalizeRoot_webroot
    (h : isValidDomain domain = true) :
    canonicalizeRoot (webroot domain) = .ok (webroot domain) := by
  have hnull : (0 : UInt8) ∉ webroot domain := by
    rw [webroot_eq h]
    simp only [List.mem_append, not_or]
    exact ⟨by decide, fun hmem => absurd (domain_chars h hmem) (by decide), by decide⟩
  have hparent : ascii ".." ∉ PathText.pieces (webroot domain) := by
    have hdots : ascii ".." ≠ domain := by
      rintro rfl
      exact absurd h (by decide)
    rw [pieces_webroot h]
    simp only [List.mem_cons, List.not_mem_nil, or_false, not_or]
    exact ⟨by decide, by decide, by decide, hdots, by decide⟩
  rw [canonicalizeRoot, if_neg (by simpa using hnull), if_neg (by simpa using hparent)]

/-- The first lines of a server block. -/
theorem run_headRows
    (h : isValidDomain domain = true) :
    Updates.run (serverChange lib) (headRows domain) .initial = some ⟨headServer domain, 0⟩ := by
  have hrun : Updates.run (serverChange lib) (headRows domain) .initial =
      some ⟨{ ServerReader.initial.block with
        listen := [listen80], serverNames := [parseServerName domain] }, 0⟩ := rfl
  rw [hrun, parseServerName_domain h]
  rfl

theorem run_rootRow
    (h : isValidDomain domain = true) (st : ServerReader) :
    Updates.run (serverChange lib) [row (ascii "root") [webroot domain]] st =
      some { st with block := { st.block with root := some (webroot domain) } } := by
  have hrun : Updates.run (serverChange lib) [row (ascii "root") [webroot domain]] st =
      ((do
        let root ← canonicalizeRoot (webroot domain)
        return { st with block := { st.block with root := some root } } :
          Except ConfigError ServerReader).toOption).bind some := rfl
  rw [hrun, canonicalizeRoot_webroot h]
  rfl

theorem run_indexRow
    (names : List Bytes) (st : ServerReader) :
    Updates.run (serverChange lib) [row (ascii "index") names] st =
      some { st with block := { st.block with index := names } } := rfl

theorem run_cfRows
    (cloudflare : Bool) (st : ServerReader) :
    Updates.run (serverChange lib) (cfRows cloudflare) st = some st := by
  cases cloudflare <;> rfl

theorem run_location
    {args : List Bytes} {ds : List Directive} (h : st.locationCount < Limits.maxLocationBlocks) :
    Updates.run (serverChange lib) [location args ds] st =
      (readLocation lib args ds).map st.add := by
  have hchange :
      serverChange lib (location args ds) st = (readLocation lib args ds).map st.add := by
    unfold serverChange
    rw [if_pos (show (location args ds).name = ascii "location" from rfl),
      if_neg (Nat.not_le.mpr h)]
    rfl
  rw [Updates.run_cons, hchange]
  cases readLocation lib args ds <;> rfl

/-! Locations -/

theorem readLocation_try
    (last : Bytes) :
    readLocation lib [ascii "/"]
        [row (ascii "try_files") [ascii "$uri", ascii "$uri/", last]] =
      some (tryBlock (parseTryFilesEntry last)) := by
  rw [readLocation_eq]
  rfl

theorem readLocation_php
    (hphp : lib.compileRegex phpPattern = some php) :
    readLocation lib [ascii "~", phpPattern]
        [row (ascii "fastcgi_pass") [ascii "unix:" ++ socket],
          row (ascii "fastcgi_index") [ascii "index.php"]] =
      some (phpBlock php socket) := by
  have hpattern : parseLocationPattern lib [ascii "~", phpPattern] =
      .ok (.regex phpPattern php) := by
    have hcompile : ConfigParser.compileRegex lib phpPattern = .ok php := by
      rw [ConfigParser.compileRegex, hphp]
    have hparse : parseLocationPattern lib [ascii "~", phpPattern] =
        (ConfigParser.compileRegex lib phpPattern).map fun re => .regex phpPattern re := rfl
    rw [hparse, hcompile]
    rfl
  rw [readLocation_eq, hpattern]
  rfl

theorem readLocation_assets
    (hassets : lib.compileRegex (ascii "(?i)" ++ assetsPattern) = some assets) :
    readLocation lib [ascii "~*", assetsPattern] [row (ascii "expires") [ascii "max"]] =
      some (assetsBlock assets) := by
  have hpattern : parseLocationPattern lib [ascii "~*", assetsPattern] =
      .ok (.regexInsensitive assetsPattern assets) := by
    have hcompile :
        ConfigParser.compileRegex lib (ascii "(?i)" ++ assetsPattern) = .ok assets := by
      rw [ConfigParser.compileRegex, hassets]
    have hparse : parseLocationPattern lib [ascii "~*", assetsPattern] =
        (ConfigParser.compileRegex lib (ascii "(?i)" ++ assetsPattern)).map fun re =>
          .regexInsensitive assetsPattern re := rfl
    rw [hparse, hcompile]
    rfl
  rw [readLocation_eq, hpattern]
  rfl

/-- The location of a proxy is read where its URL is accepted. -/
theorem readLocation_proxy_iff
    {upstream : Bytes} {loc : LocationBlock} :
    readLocation lib [ascii "/"] (row (ascii "proxy_pass") [upstream] ::
        proxyHeaders.map fun h => row (ascii "proxy_set_header") [h.1, h.2]) = some loc ↔
      ∃ url, ProxyUrl lib upstream url ∧ loc = proxyBlock url := by
  have hpass : change (locationShapes lib) (row (ascii "proxy_pass") [upstream]) .initial =
      ((do
        return { LocationReader.initial with handler := .proxy (← parseProxyPass lib upstream) } :
          Except ConfigError LocationReader).toOption) := rfl
  rw [readLocation_eq, Updates.run_cons, hpass]
  constructor
  · intro h
    cases haccepted : parseProxyPass lib upstream with
    | error e =>
        rw [haccepted] at h
        cases h
    | ok pc =>
        obtain ⟨url, hurl, rfl⟩ := parseProxyPass_ok_iff.mp haccepted
        rw [haccepted] at h
        exact ⟨url, hurl, (Option.some.inj h).symm⟩
  · rintro ⟨url, hurl, rfl⟩
    rw [parseProxyPass_ok_iff.mpr ⟨url, hurl, rfl⟩]
    rfl

/-! Server blocks -/

/-- What is read of a site that has a root, with these locations so far. -/
def rootedReader (domain : Bytes) (names : List Bytes) (locations : List LocationBlock) :
    ServerReader where
  block :=
    { headServer domain with
      root := some (webroot domain)
      index := names
      locations := locations }
  locationCount := locations.length

theorem rootedReader_add
    (domain : Bytes) (names : List Bytes) (locations : List LocationBlock) (loc : LocationBlock) :
    (rootedReader domain names locations).add loc =
      rootedReader domain names (locations ++ [loc]) := by
  simp [rootedReader, ServerReader.add]

/-- The first lines of a site that has a root. -/
theorem run_rootedRows
    (h : isValidDomain domain = true) (names : List Bytes) (cloudflare : Bool) :
    Updates.run (serverChange lib) (headRows domain ++ [row (ascii "root") [webroot domain]] ++
        [row (ascii "index") names] ++ cfRows cloudflare) .initial =
      some (rootedReader domain names []) := by
  simp only [Updates.run_append, run_headRows h, Option.bind_some, run_rootRow h, run_indexRow,
    run_cfRows]
  rfl

variable {names : List Bytes} {locations : List LocationBlock}

/-- One more location, which is read by itself. -/
theorem run_rooted_location
    {args : List Bytes} {ds : List Directive} {loc : LocationBlock}
    (h : locations.length < 3) (hread : readLocation lib args ds = some loc) :
    Updates.run (serverChange lib) [location args ds] (rootedReader domain names locations) =
      some (rootedReader domain names (locations ++ [loc])) := by
  have hroom : (rootedReader domain names locations).locationCount < Limits.maxLocationBlocks :=
    Nat.lt_trans h (by decide)
  rw [run_location hroom, hread, Option.map_some, rootedReader_add]

/-- The server block of a site is read as the server of its template. -/
theorem readServer_site_iff
    (hdomain : isValidDomain req.domain = true)
    (hphp : lib.compileRegex phpPattern = some php)
    (hassets : lib.compileRegex (ascii "(?i)" ++ assetsPattern) = some assets)
    {server : ServerBlock} :
    readServer lib (siteBody req (webroot req.domain) socket) = some server ↔
      (req.siteType = .proxy → ∃ url, ProxyUrl lib req.upstream url) ∧
        siteServer lib php assets req socket = some server := by
  have hrooted : ∀ names, Updates.run (serverChange lib) (headRows req.domain ++
      [row (ascii "root") [webroot req.domain]] ++ [row (ascii "index") names] ++
        cfRows req.cloudflare) .initial = some (rootedReader req.domain names []) :=
    fun names => run_rootedRows hdomain names req.cloudflare
  rw [readServer_eq]
  cases htype : req.siteType with
  | static =>
      simp only [siteBody, siteServer, htype]
      rw [Updates.run_append, hrooted, Option.bind_some, tryFiles,
        run_rooted_location (by decide) (readLocation_try _), Option.map_some]
      simp only [reduceCtorEq, false_imp_iff, true_and]
      rfl
  | php =>
      simp only [siteBody, siteServer, htype]
      rw [Updates.run_append, Updates.run_append, hrooted, Option.bind_some, tryFiles,
        run_rooted_location (by decide) (readLocation_try _), Option.bind_some, phpRows,
        run_rooted_location (by decide) (readLocation_php hphp), Option.map_some]
      simp only [reduceCtorEq, false_imp_iff, true_and]
      rfl
  | wordpress =>
      simp only [siteBody, siteServer, htype]
      rw [Updates.run_append, Updates.run_append, Updates.run_append, hrooted, Option.bind_some,
        tryFiles, run_rooted_location (by decide) (readLocation_try _), Option.bind_some, phpRows,
        run_rooted_location (by decide) (readLocation_php hphp), Option.bind_some, assetsRows,
        run_rooted_location (by simp) (readLocation_assets hassets), Option.map_some]
      simp only [reduceCtorEq, false_imp_iff, true_and]
      rfl
  | proxy =>
      have hroom : (⟨headServer req.domain, 0⟩ : ServerReader).locationCount <
          Limits.maxLocationBlocks := by
        show 0 < Limits.maxLocationBlocks
        decide
      simp only [siteBody, siteServer, htype]
      rw [Updates.run_append, Updates.run_append, run_headRows hdomain, Option.bind_some,
        run_cfRows, Option.bind_some, proxyRows, run_location hroom, Option.map_map,
        Option.map_eq_some_iff]
      simp only [readLocation_proxy_iff, forall_true_left, Option.map_eq_some_iff]
      constructor
      · rintro ⟨_, ⟨url, hurl, rfl⟩, rfl⟩
        exact ⟨⟨url, hurl⟩, url, hurl.parsed, rfl⟩
      · rintro ⟨⟨url, hurl⟩, url', hparsed, rfl⟩
        obtain rfl := Option.some.inj (hurl.parsed.symm.trans hparsed)
        exact ⟨_, ⟨url, hurl, rfl⟩, rfl⟩

/-- The redirect is read as the server of its template. -/
theorem readServer_redirect
    (h : isValidDomain domain = true) :
    readServer lib (headRows domain ++ [redirectRow domain]) = some (redirectServer domain) := by
  rw [readServer_eq, Updates.run_append, run_headRows h, Option.bind_some]
  rfl

end Read

/-! ### What a site is provisioned with -/

section Provisions

variable (lib : Libraries) (files : ConfigFiles) (depth : Nat) (path : Bytes)
  (php assets : Regex) (req : SiteRequest) (socket : Bytes)

/--
An http block with the text of a site is read as the directives of the template, each field
as one word, and it is loaded as the servers of the template.
-/
structure Provisions : Prop where
  tokens : tokenize (siteText req socket) = httpBlockTokens (siteTemplate req socket)
  loads : ∃ servers, siteServers lib php assets req socket = some servers ∧
    parseRoot lib files depth path (tokenize (siteText req socket)) = .ok (serversConfig servers)

/-- The URL has neither tab nor form feed, and `proxy_pass` accepts it. -/
structure TargetAccepted (url : Bytes) : Prop where
  gapless : ∀ c ∈ url, c ≠ 9 ∧ c ≠ 12
  accepted : ∃ parsed, ProxyUrl lib url parsed

end Provisions

section Upstream

variable {req : SiteRequest} {url : Bytes}

theorem upstream_valid
    (h : validate req = .ok ()) :
    isValidUpstreamUrl req.upstream = true := by
  obtain ⟨-, -, hurl⟩ := validate_ok_iff.mp h
  unfold SiteRequest.upstream
  cases hreq : req.upstreamUrl with
  | none =>
      rw [Option.getD_none]
      decide
  | some url =>
      rw [hreq] at hurl
      exact hurl

/-- A valid URL starts with a letter. -/
theorem url_start
    (h : isValidUpstreamUrl url = true) :
    ∃ rest, url = 104 :: rest := by
  simp only [isValidUpstreamUrl, Bool.and_eq_true, Bool.or_eq_true] at h
  rcases h.1.1 with h | h
  · obtain ⟨rest, rfl⟩ := List.isPrefixOf_iff_prefix.mp h
    exact ⟨_, rfl⟩
  · obtain ⟨rest, rfl⟩ := List.isPrefixOf_iff_prefix.mp h
    exact ⟨_, rfl⟩

/-- Of what ends a word, the validation lets through two bytes. -/
theorem url_unbroken
    (h : isValidUpstreamUrl url = true) {c : UInt8} (hc : c ∈ url) (htab : c ≠ 9) (hfeed : c ≠ 12) :
    endsWord c = false := by
  have hbyte : ∀ c : UInt8, (ascii "\n\r ;\x7b\x7d#").contains c = false ∧ c ≠ 9 ∧ c ≠ 12 →
      endsWord c = false :=
    forall_byte (by decide +kernel)
  simp only [isValidUpstreamUrl, Bool.and_eq_true, Bool.not_eq_true', List.any_eq_false] at h
  exact hbyte c ⟨by simpa using h.2 c hc, htab, hfeed⟩

theorem url_plain
    (h : isValidUpstreamUrl url = true) (hgapless : ∀ c ∈ url, c ≠ 9 ∧ c ≠ 12) :
    IsPlain url := by
  refine ⟨fun c hc => url_unbroken h hc (hgapless c hc).1 (hgapless c hc).2, ?_⟩
  obtain ⟨rest, rfl⟩ := url_start h
  exact ⟨104, rest, rfl, by decide, by decide⟩

/-- Up to its first gap a URL is a plain word. -/
theorem url_gap
    (h : isValidUpstreamUrl url = true) {c : UInt8} (hc : c ∈ url) (hend : endsWord c = true) :
    ∃ w d rest, url = w ++ d :: rest ∧ IsPlain w ∧ endsWord d = true := by
  have hfound : (url.find? endsWord).isSome = true :=
    List.find?_isSome.mpr ⟨c, hc, hend⟩
  obtain ⟨d, hd⟩ := Option.isSome_iff_exists.mp hfound
  obtain ⟨hdend, w, rest, hurl, hw⟩ := List.find?_eq_some_iff_append.mp hd
  have hunbroken : Unbroken w := fun e he => by simpa using hw e he
  obtain ⟨tail, hstart⟩ := url_start h
  cases w with
  | nil =>
      obtain rfl : (104 : UInt8) = d := (List.cons.inj (hstart.symm.trans hurl)).1
      exact absurd hdend (by decide)
  | cons e w =>
      obtain rfl : (104 : UInt8) = e := (List.cons.inj (hstart.symm.trans hurl)).1
      exact ⟨104 :: w, d, rest, hurl, ⟨hunbroken, 104, w, rfl, by decide, by decide⟩, hdend⟩

end Upstream

section Proxy

variable {req : SiteRequest} {socket : Bytes}

/-- The text of a proxy site in front of its URL, and the tokens of the template there. -/
theorem proxy_split
    (socket : Bytes) (hdomain : isValidDomain req.domain = true) (htype : req.siteType = .proxy) :
    ∃ front ts, WholeTokens front ts ∧
      (∃ rest, siteText req socket = front ++ (req.upstream ++ rest)) ∧
      ∃ us, httpBlockTokens (siteTemplate req socket) =
        ts ++ Token.word req.upstream :: us := by
  have hhttp : WholeTokens (ascii "http \x7b\n") [.word (ascii "http"), .openBrace] := by decide
  have hserver : WholeTokens (ascii "server \x7b\n") [.word (ascii "server"), .openBrace] := by
    decide
  have hlines := whole_append (whole_headLines (domain_plain hdomain))
    (whole_cfHeaders req.cloudflare)
  refine ⟨_, _, hhttp.append (hserver.append (hlines.append whole_proxyOpen)), ?_, ?_⟩
  · simp only [siteText, generateConfig, serverText, siteLines, htype, proxyLocation, proxyOpen]
    split <;> simp only [List.append_assoc, List.append_cancel_left_eq] <;> exact ⟨_, rfl⟩
  · have hproxy : ∃ us, bodyTokens [proxyRows req.upstream] =
        [.word (ascii "location"), .word (ascii "/"), .openBrace, .word (ascii "proxy_pass")] ++
          .word req.upstream :: us := ⟨_, rfl⟩
    obtain ⟨us, hproxy⟩ := hproxy
    simp only [httpBlockTokens, siteTemplate, siteBodies, serversTokens, siteBody, htype]
    split <;> simp only [List.flatMap_cons, serverBlockTokens, bodyTokens_append, hproxy,
      List.append_assoc, List.cons_append, List.nil_append, List.cons.injEq, true_and,
      List.append_cancel_left_eq] <;> exact ⟨_, rfl⟩

/-- A URL that is read as one word has no gap. -/
theorem gapless_of_tokens
    (hvalid : validate req = .ok ()) (htype : req.siteType = .proxy)
    (htokens : tokenize (siteText req socket) = httpBlockTokens (siteTemplate req socket)) :
    ∀ c ∈ req.upstream, c ≠ 9 ∧ c ≠ 12 := by
  have hurl := upstream_valid hvalid
  obtain ⟨front, ts, hfront, ⟨rest, htext⟩, us, htemplate⟩ :=
    proxy_split socket (validate_ok_iff.mp hvalid).1 htype
  -- the URL is read up to its first gap, and that is less than the URL
  have hnone : ∀ c ∈ req.upstream, endsWord c ≠ true := by
    intro c hc hend
    obtain ⟨w, d, tail, hsplit, hw, hd⟩ := url_gap hurl hc hend
    have hread : tokenize (siteText req socket) =
        ts ++ .word w :: tokenizeFrom .between (d :: (tail ++ rest)) := by
      rw [htext, tokenize, tokenizeFrom_append hfront, hsplit, List.append_assoc, List.cons_append,
        tokenizeFrom_plain hw hd]
    rw [htokens, htemplate] at hread
    have hword : req.upstream = w :=
      Token.word.inj (List.cons.inj (List.append_cancel_left hread)).1
    have hlen := congrArg List.length (hsplit.symm.trans hword)
    simp at hlen
  intro c hc
  have hne := hnone c hc
  constructor <;> rintro rfl <;> exact hne (by decide)

end Proxy

/-! ### Exactly when a site is provisioned -/

section Exact

variable {lib : Libraries} {files : ConfigFiles} {depth : Nat} {path : Bytes}
  {php assets : Regex} {req : SiteRequest} {socket : Bytes}

/-- The server blocks of the template are read as its servers. -/
theorem servers_of_template_iff
    (hdomain : isValidDomain req.domain = true)
    (hphp : lib.compileRegex phpPattern = some php)
    (hassets : lib.compileRegex (ascii "(?i)" ++ assetsPattern) = some assets)
    {servers : List ServerBlock} :
    (siteTemplate req socket).map (readServer lib) = servers.map some ↔
      (req.siteType = .proxy → ∃ url, ProxyUrl lib req.upstream url) ∧
        siteServers lib php assets req socket = some servers := by
  have hsite : ∀ server, readServer lib (siteBody req (webroot req.domain) socket) = some server ↔
      (req.siteType = .proxy → ∃ url, ProxyUrl lib req.upstream url) ∧
        siteServer lib php assets req socket = some server :=
    fun server => readServer_site_iff hdomain hphp hassets
  unfold siteTemplate siteBodies siteServers
  constructor
  · intro h
    by_cases hon : req.sslMode.isOn = true
    · rw [if_pos hon, List.map_cons, List.map_singleton, readServer_redirect hdomain] at h
      obtain ⟨server, rest, rfl, hread, hlast⟩ := List.map_eq_cons_iff.mp h.symm
      obtain ⟨redirect, rfl, hredirect⟩ := List.map_eq_singleton_iff.mp hlast
      obtain rfl := Option.some.inj hredirect
      obtain ⟨hurl, hserver⟩ := (hsite server).mp hread.symm
      exact ⟨hurl, by rw [hserver, Option.map_some, if_pos hon]⟩
    · rw [if_neg hon, List.map_singleton] at h
      obtain ⟨server, rfl, hread⟩ := List.map_eq_singleton_iff.mp h.symm
      obtain ⟨hurl, hserver⟩ := (hsite server).mp hread.symm
      exact ⟨hurl, by rw [hserver, Option.map_some, if_neg hon]⟩
  · rintro ⟨hurl, hservers⟩
    obtain ⟨server, hserver, rfl⟩ := Option.map_eq_some_iff.mp hservers
    have hread := (hsite server).mpr ⟨hurl, hserver⟩
    split
    · rw [List.map_cons, List.map_singleton, hread, readServer_redirect hdomain]
      rfl
    · rw [List.map_singleton, hread]
      rfl

/-- A template has its servers, those of a proxy where the URL parses. -/
theorem siteServers_isSome
    (php assets : Regex) (socket : Bytes)
    (h : req.siteType = .proxy → ∃ url, ProxyUrl lib req.upstream url) :
    ∃ servers, siteServers lib php assets req socket = some servers := by
  have hserver : ∃ server, siteServer lib php assets req socket = some server := by
    unfold siteServer
    cases htype : req.siteType with
    | static => exact ⟨_, rfl⟩
    | php => exact ⟨_, rfl⟩
    | wordpress => exact ⟨_, rfl⟩
    | proxy =>
        obtain ⟨url, hurl⟩ := h htype
        dsimp only
        rw [hurl.parsed]
        exact ⟨_, rfl⟩
  obtain ⟨server, hserver⟩ := hserver
  exact ⟨_, by rw [siteServers, hserver, Option.map_some]⟩

theorem siteTemplate_length
    (req : SiteRequest) (socket : Bytes) :
    (siteTemplate req socket).length ≤ Limits.maxServerBlocks := by
  have hlen : (siteTemplate req socket).length ≤ 2 := by
    unfold siteTemplate siteBodies
    split <;> simp
  exact hlen.trans (by decide)

/-- What a proxy site is provisioned with reaches the URL that it was given. -/
theorem target_of_provisions
    (hvalid : validate req = .ok ())
    (hphp : lib.compileRegex phpPattern = some php)
    (hassets : lib.compileRegex (ascii "(?i)" ++ assetsPattern) = some assets)
    (h : Provisions lib files depth path php assets req socket) (htype : req.siteType = .proxy) :
    TargetAccepted lib req.upstream := by
  obtain ⟨htokens, servers, hservers, hload⟩ := h
  rw [htokens, parseRoot_servers_iff (siteTemplate_length req socket)] at hload
  obtain ⟨servers', hread, -⟩ := hload
  have hdomain := (validate_ok_iff.mp hvalid).1
  have haccepted := ((servers_of_template_iff hdomain hphp hassets).mp hread).1 htype
  exact ⟨gapless_of_tokens hvalid htype htokens, haccepted⟩

/--
A valid request is provisioned for unless it is one for a proxy whose URL has a gap that the
validation overlooks, or is none that `proxy_pass` accepts.
-/
theorem provisions_iff
    (hvalid : validate req = .ok ()) (hsocket : Unbroken socket)
    (hphp : lib.compileRegex phpPattern = some php)
    (hassets : lib.compileRegex (ascii "(?i)" ++ assetsPattern) = some assets) :
    Provisions lib files depth path php assets req socket ↔
      (req.siteType = .proxy → TargetAccepted lib req.upstream) := by
  refine ⟨target_of_provisions hvalid hphp hassets, fun htarget => ?_⟩
  have hdomain := (validate_ok_iff.mp hvalid).1
  have hplain : req.siteType = .proxy → IsPlain req.upstream :=
    fun htype => url_plain (upstream_valid hvalid) (htarget htype).gapless
  have htokens := tokenize_siteText hdomain hsocket hplain
  have haccepted : req.siteType = .proxy → ∃ url, ProxyUrl lib req.upstream url :=
    fun htype => (htarget htype).accepted
  obtain ⟨servers, hservers⟩ := siteServers_isSome php assets socket haccepted
  refine ⟨htokens, servers, hservers, ?_⟩
  rw [htokens, parseRoot_servers_iff (siteTemplate_length req socket)]
  exact ⟨servers, (servers_of_template_iff hdomain hphp hassets).mpr ⟨haccepted, hservers⟩, rfl⟩

end Exact

/-! ### Requests -/

/-- A regular expression that matches the texts with one of these ends. -/
def endsRegex (lower : Bytes → Bytes) (ends : List Bytes) : Regex where
  isMatch s := ends.any fun e => e.isSuffixOf (lower s)
  replace s template :=
    match ends.find? fun e => e.isSuffixOf (lower s) with
    | none => s
    | some e => s.take (s.length - e.length) ++ template

def phpRegex : Regex :=
  endsRegex id [ascii ".php"]

def assetsRegex : Regex :=
  endsRegex toAsciiLower
    [ascii ".js", ascii ".css", ascii ".png", ascii ".jpg", ascii ".jpeg", ascii ".gif",
      ascii ".ico", ascii ".svg", ascii ".woff", ascii ".woff2"]

/-- A library that reads the URLs of two hosts and the patterns of the templates. -/
def siteLibrary : Libraries where
  parseUrl := fun raw =>
    if raw = ascii "http://app.example" then
      some ⟨ascii "http", some (.domain (ascii "app.example")), none, ascii "/"⟩
    else if raw = ascii "http://localhost:3000" then
      some ⟨ascii "http", some (.domain (ascii "localhost")), some 3000, ascii "/"⟩
    else none
  compileRegex := fun source =>
    if source = phpPattern then some phpRegex
    else if source = ascii "(?i)" ++ assetsPattern then some assetsRegex
    else none
  parseFloat := fun _ => none

def proxyRequest (url : Bytes) : SiteRequest where
  domain := ascii "example.com"
  siteType := .proxy
  phpVersion := none
  upstreamUrl := some url
  sslMode := .letsEncrypt
  cloudflare := true

/-- A site of this request, in a file of its own. -/
def ProvisionsRequest (req : SiteRequest) : Prop :=
  Provisions siteLibrary noFiles Limits.maxIncludeDepth (ascii "<string>") phpRegex assetsRegex req
    (ascii "/run/php/php8.2-fpm.sock")

theorem provisions_example :
    ProvisionsRequest (proxyRequest (ascii "http://app.example")) :=
  (provisions_iff (by decide) (by decide) rfl rfl).mpr fun _ =>
    ⟨by decide +kernel, _, rfl, .inl rfl, by decide, by decide⟩

/-- A host that `proxy_pass` refuses, and a tab in a URL: the validation lets both through. -/
theorem provisioning_breaks :
    (validate (proxyRequest (ascii "http://localhost:3000")) = .ok () ∧
      ¬ ProvisionsRequest (proxyRequest (ascii "http://localhost:3000"))) ∧
    validate (proxyRequest (ascii "http://app.example\tx")) = .ok () ∧
      ¬ ProvisionsRequest (proxyRequest (ascii "http://app.example\tx")) := by
  have hlocalhost : validate (proxyRequest (ascii "http://localhost:3000")) = .ok () := by decide
  have htab : validate (proxyRequest (ascii "http://app.example\tx")) = .ok () := by decide
  refine ⟨⟨hlocalhost, fun h => ?_⟩, htab, fun h => ?_⟩
  · obtain ⟨-, url, hurl⟩ := target_of_provisions hlocalhost rfl rfl h rfl
    obtain rfl := Option.some.inj hurl.parsed
    exact absurd hurl.allowed (by decide)
  · have hgap := (target_of_provisions htab rfl rfl h rfl).gapless 9 (by decide)
    exact hgap.1 rfl

end Sites
end RunNginx
