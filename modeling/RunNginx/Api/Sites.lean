import RunNginx.Lib.PathText

/-!
# Hosted sites

A request for a site, what is checked about it, and the text of the server blocks that the
site is provisioned with.  The texts are those of the templates, line by line; a word that
is put together of a field and other text stands in brackets of its own.
-/

namespace RunNginx
namespace Sites

open ByteString

inductive SiteType
  | static
  | php
  | wordpress
  | proxy
deriving DecidableEq, Repr

inductive SslMode
  | none
  | letsEncrypt
  | custom
  | cloudflare
deriving DecidableEq, Repr

/-- A request for a site: what is checked, and what its text depends on. -/
structure SiteRequest where
  domain : Bytes
  siteType : SiteType
  phpVersion : Option Bytes
  upstreamUrl : Option Bytes
  sslMode : SslMode
  cloudflare : Bool
deriving DecidableEq, Repr

/-! ### Validation -/

inductive RequestError
  | invalidDomain
  | invalidPhpVersion
  | invalidUpstreamUrl
deriving DecidableEq, Repr

def RequestError.text : RequestError → Bytes
  | .invalidDomain => ascii "Invalid domain name"
  | .invalidPhpVersion => ascii "Invalid php_version format"
  | .invalidUpstreamUrl => ascii "Invalid upstream_url"

def isAsciiDigit (c : UInt8) : Bool :=
  48 ≤ c && c ≤ 57

def isAsciiAlphanumeric (c : UInt8) : Bool :=
  isAsciiDigit c || 65 ≤ c && c ≤ 90 || 97 ≤ c && c ≤ 122

/-- Letters, digits, hyphens and single dots that are neither first nor last. -/
def isValidDomain (domain : Bytes) : Bool :=
  !(domain.isEmpty || 253 < domain.length) &&
    domain.all (fun c => isAsciiAlphanumeric c || c == 45 || c == 46) &&
    !(ascii ".").isPrefixOf domain && !(ascii ".").isSuffixOf domain &&
    !contains (ascii "..") domain

def isValidPhpVersion (ver : Bytes) : Bool :=
  ver.length ≤ 8 && ver.all fun c => isAsciiDigit c || c == 46

def isValidUpstreamUrl (url : Bytes) : Bool :=
  ((ascii "http://").isPrefixOf url || (ascii "https://").isPrefixOf url) &&
    url.length ≤ 512 && !url.any fun b => (ascii "\n\r ;\x7b\x7d#").contains b

/-- What is checked before anything is created. -/
def validate (req : SiteRequest) : Except RequestError Unit :=
  if !isValidDomain req.domain then .error .invalidDomain
  else if !req.phpVersion.all isValidPhpVersion then .error .invalidPhpVersion
  else if !req.upstreamUrl.all isValidUpstreamUrl then .error .invalidUpstreamUrl
  else .ok ()

/-! ### Texts -/

def webroot (domain : Bytes) : Bytes :=
  PathText.join (PathText.join (ascii "/var/www") domain) (ascii "public")

def SslMode.isOn : SslMode → Bool
  | .none => false
  | _ => true

/-- A server block with these lines. -/
def serverText (lines : Bytes) : Bytes :=
  ascii "server \x7b\n" ++ (lines ++ ascii "\x7d\n")

def headLines (domain : Bytes) : Bytes :=
  ascii "    listen 80;\n    server_name " ++ (domain ++ ascii ";\n")

def rootLine (root : Bytes) : Bytes :=
  ascii "    root " ++ (root ++ ascii ";\n")

def cfHeaders (cloudflare : Bool) : Bytes :=
  if cloudflare then ascii "    real_ip_header CF-Connecting-IP;\n" else []

def phpLocation (socket : Bytes) : Bytes :=
  ascii "location ~ \\.php$ \x7b\n        fastcgi_pass " ++ ((ascii "unix:" ++ socket) ++
    ascii ";\n        fastcgi_index index.php;\n    \x7d\n")

def proxyLocation (upstream : Bytes) : Bytes :=
  ascii "location / \x7b\n        proxy_pass " ++ (upstream ++
    (ascii ";\n        proxy_set_header Host $host;\n" ++
      ascii "        proxy_set_header X-Real-IP $remote_addr;\n" ++
      ascii "        proxy_set_header X-Forwarded-For $proxy_add_x_forwarded_for;\n" ++
      ascii "        proxy_set_header X-Forwarded-Proto $scheme;\n    \x7d\n"))

/-- The lines of the redirect to TLS. -/
def redirectLine (domain : Bytes) : Bytes :=
  ascii "    return 301 " ++ ((ascii "https://" ++ domain ++ ascii "$request_uri") ++ ascii ";\n")

/-- Where a proxy site sends its requests. -/
def SiteRequest.upstream (req : SiteRequest) : Bytes :=
  req.upstreamUrl.getD (ascii "http://127.0.0.1:8080")

/-- The lines of the server block of a site. -/
def siteLines (req : SiteRequest) (root phpSocket : Bytes) : Bytes :=
  match req.siteType with
  | .static =>
      headLines req.domain ++ rootLine root ++ ascii "    index index.html index.htm;\n" ++
        cfHeaders req.cloudflare ++
        ascii "location / \x7b\n        try_files $uri $uri/ =404;\n    \x7d\n"
  | .php =>
      headLines req.domain ++ rootLine root ++ ascii "    index index.php index.html;\n" ++
        cfHeaders req.cloudflare ++
        ascii "location / \x7b\n        try_files $uri $uri/ =404;\n    \x7d\n" ++
        phpLocation phpSocket
  | .wordpress =>
      headLines req.domain ++ rootLine root ++ ascii "    index index.php;\n" ++
        cfHeaders req.cloudflare ++
        ascii "location / \x7b\n        try_files $uri $uri/ /index.php?$args;\n    \x7d\n" ++
        phpLocation phpSocket ++
        (ascii "location ~* \\.(js|css|png|jpg|jpeg|gif|ico|svg|woff2?)$ \x7b\n" ++
          ascii "        expires max;\n    \x7d\n")
  | .proxy =>
      headLines req.domain ++ cfHeaders req.cloudflare ++ proxyLocation req.upstream

/-- The text that a site is provisioned with. -/
def generateConfig (req : SiteRequest) (root phpSocket : Bytes) : Bytes :=
  let httpBlock := serverText (siteLines req root phpSocket)
  if req.sslMode.isOn then
    httpBlock ++ (ascii "\n" ++ serverText (headLines req.domain ++ redirectLine req.domain))
  else httpBlock

/-! ### What a valid request is like -/

section Valid

variable {req : SiteRequest}

theorem validate_ok_iff :
    validate req = .ok () ↔
      isValidDomain req.domain = true ∧ req.phpVersion.all isValidPhpVersion = true ∧
        req.upstreamUrl.all isValidUpstreamUrl = true := by
  unfold validate
  split_ifs with hdomain hphp hurl <;> simp_all

/-- A refused request names the field that is refused. -/
theorem validate_error
    {e : RequestError} (h : validate req = .error e) :
    match e with
    | .invalidDomain => isValidDomain req.domain = false
    | .invalidPhpVersion => req.phpVersion.all isValidPhpVersion = false
    | .invalidUpstreamUrl => req.upstreamUrl.all isValidUpstreamUrl = false := by
  unfold validate at h
  split_ifs at h with hdomain hphp hurl
  · cases h
    simpa using hdomain
  · cases h
    simpa using hphp
  · cases h
    simpa using hurl

end Valid

end Sites
end RunNginx
