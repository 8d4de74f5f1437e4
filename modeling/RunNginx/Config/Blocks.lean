import RunNginx.Config.Directives

/-!
# Blocks of the configuration

The directives of the location, server, upstream and http blocks and of the root, and
the parsers of whole files.  Each block is a table of directives over the state that
the source keeps in its local variables.

Included files come from `ConfigFiles`; an include at the root is cut at a depth.
-/

namespace RunNginx
namespace ConfigParser

open ByteString Limits

section Location

variable (lib : Libraries)

/-- What the parser of a location has read so far. -/
structure LocationReader where
  handler : LocationHandler
  root : Option Bytes
  index : Option (List Bytes)
  tryFiles : Option (List TryFilesEntry)
  addHeaders : List (Bytes × Bytes)
  clientMaxBodySize : Option Nat
  returnDirective : Option ReturnDirective
  gzip : Option Bool
  limitReq : Option LimitReqRef
  rewrites : List RewriteRule
  authBasicRealm : Option Bytes
  authBasicFile : Option Bytes

def LocationReader.initial : LocationReader where
  handler := .static
  root := none
  index := none
  tryFiles := none
  addHeaders := []
  clientMaxBodySize := none
  returnDirective := none
  gzip := none
  limitReq := none
  rewrites := []
  authBasicRealm := none
  authBasicFile := none

/-- Change the FastCGI settings, where FastCGI is the handler. -/
def onFastCgi (f : FastCgiConfig → FastCgiConfig) (st : LocationReader) : LocationReader :=
  match st.handler with
  | .fastCgi fc => { st with handler := .fastCgi (f fc) }
  | _ => st

/-- Change the proxy settings, where a proxy is the handler. -/
def onProxy (f : ProxyConfig → ProxyConfig) (st : LocationReader) : LocationReader :=
  match st.handler with
  | .proxy pc => { st with handler := .proxy (f pc) }
  | _ => st

/-- A directive of one word. -/
def oneWord {σ : Type} (f : Bytes → σ → Except ConfigError σ) (st : σ) : Parser σ := do
  let v ← expectWord
  expectSemi
  Parse.ofExcept (f v st)

/-- A directive of two words. -/
def twoWords {σ : Type} (f : Bytes → Bytes → σ → σ) (st : σ) : Parser σ := do
  let key ← expectWord
  let value ← expectWord
  expectSemi
  return f key value st

/-- A directive of any number of words. -/
def anyWords {σ : Type} (f : List Bytes → σ → σ) (st : σ) : Parser σ := do
  let args ← collectArgs
  expectSemi
  return f args st

/-- A directive with a parser of its own. -/
def parsed {σ α : Type} (p : Parser α) (f : α → σ → σ) (st : σ) : Parser σ := do
  let v ← p
  return f v st

/-- A directive of one word that is looked at before its semicolon. -/
def checkedWord {σ α : Type} (check : Bytes → Except ConfigError α) (f : α → σ → σ)
    (st : σ) : Parser σ := do
  let v ← expectWord
  let a ← Parse.ofExcept (check v)
  expectSemi
  return f a st

def locationDirectives : Directives LocationReader :=
  [(ascii "root", oneWord fun p st => do
      return { st with root := some (← canonicalizeRoot p) }),
    (ascii "index", anyWords fun args st => { st with index := some args }),
    (ascii "try_files", anyWords fun args st => { st with tryFiles := some (parseTryFiles args) }),
    (ascii "proxy_pass", oneWord fun url st => do
      return { st with handler := .proxy (← parseProxyPass lib url) }),
    (ascii "fastcgi_pass", oneWord fun s st => do
      let upstream ← parseFastcgiUpstream s
      return { st with handler := .fastCgi ⟨upstream, [], none, 60, 5⟩ }),
    (ascii "fastcgi_param", twoWords fun key val =>
      onFastCgi fun fc => { fc with params := fc.params ++ [(key, val)] }),
    (ascii "fastcgi_index", oneWord fun idx st =>
      .ok (onFastCgi (fun fc => { fc with index := some idx }) st)),
    (ascii "fastcgi_read_timeout", oneWord fun v st =>
      .ok (onFastCgi (fun fc => { fc with
        readTimeout := (Decimal.parseUnsigned Decimal.u64Bound (trimSeconds v)).getD 60 }) st)),
    (ascii "proxy_set_header", twoWords fun key val =>
      onProxy fun pc => { pc with setHeaders := pc.setHeaders ++ [(key, val)] }),
    (ascii "proxy_read_timeout", oneWord fun v st =>
      .ok (onProxy (fun pc => { pc with
        readTimeout := (Decimal.parseUnsigned Decimal.u64Bound (trimSeconds v)).getD 60 }) st)),
    (ascii "proxy_buffering", oneWord fun v st =>
      .ok (onProxy (fun pc => { pc with buffering := v == ascii "on" }) st)),
    (ascii "proxy_allow_internal", oneWord fun v st =>
      .ok (onProxy (fun pc => { pc with allowInternal := v == ascii "on" }) st)),
    (ascii "add_header", parsed parseAddHeader fun h st =>
      { st with addHeaders := st.addHeaders ++ [h] }),
    (ascii "client_max_body_size", checkedWord parseBodySize fun n st =>
      { st with clientMaxBodySize := some n }),
    (ascii "return", parsed parseReturn fun rd st =>
      { st with returnDirective := some rd, handler := .return rd }),
    (ascii "gzip", oneWord fun v st => .ok { st with gzip := some (v == ascii "on") }),
    (ascii "limit_req", anyWords fun args st => { st with limitReq := parseLimitReq args }),
    (ascii "rewrite", parsed parseRewrite fun rule st =>
      { st with rewrites := st.rewrites ++ [rule] }),
    (ascii "auth_basic", oneWord fun realm st =>
      .ok (if realm = ascii "off" then st else { st with authBasicRealm := some realm })),
    (ascii "auth_basic_user_file", oneWord fun file st =>
      .ok { st with authBasicFile := some file })]

/-- Basic authentication needs both directives. -/
def LocationReader.authBasic (st : LocationReader) : Option AuthBasicConfig :=
  match st.authBasicRealm, st.authBasicFile with
  | some realm, some file => some ⟨realm, file⟩
  | _, _ => none

def LocationReader.finish (st : LocationReader) (pattern : LocationPattern) : LocationBlock where
  pattern := pattern
  handler := st.handler
  root := st.root
  index := st.index
  tryFiles := st.tryFiles
  addHeaders := st.addHeaders
  clientMaxBodySize := st.clientMaxBodySize
  returnDirective := st.returnDirective
  gzip := st.gzip
  limitReq := st.limitReq
  rewrites := st.rewrites
  authBasic := st.authBasic

/-- The head of a location, up to its opening brace. -/
def parseLocationHead : Parser LocationPattern := do
  let args ← collectArgs
  expectOpen
  Parse.ofExcept (parseLocationPattern lib args)

def parseLocation : Parser LocationBlock := do
  let pattern ← parseLocationHead lib
  let st ← parseBlock .location (locationDirectives lib) .initial
  return st.finish pattern

end Location

section Server

variable (lib : Libraries)

/-- What the parser of a server block has read so far. -/
structure ServerReader where
  block : ServerBlock
  locationCount : Nat

def ServerReader.initial : ServerReader where
  block :=
    { listen := []
      serverNames := []
      root := none
      index := [ascii "index.html", ascii "index.htm"]
      locations := []
      tls := none
      accessLog := none
      clientMaxBodySize := none
      errorPages := []
      addHeaders := []
      returnDirective := none
      limitReq := none
      rewrites := []
      authBasic := none
      sslRedirect := false
      hstsMaxAge := none
      hstsIncludeSubdomains := true }
  locationCount := 0

/-- Change the block that is being read. -/
def onBlock {α : Type} (f : α → ServerBlock → ServerBlock) (a : α) (st : ServerReader) :
    ServerReader :=
  { st with block := f a st.block }

/-- Change the TLS settings, which the first directive about them creates. -/
def withTls (f : TlsConfig → TlsConfig) (block : ServerBlock) : ServerBlock :=
  { block with tls := some (f (block.tls.getD ⟨[], [], .tls12⟩)) }

/-- Does a word switch something on? -/
def isNotOff (v : Bytes) : Bool :=
  trimQuotes v != ascii "off"

/-- Credentials that a server block asks for, after its `auth_basic`. -/
def withRealm (realm : Bytes) (block : ServerBlock) : ServerBlock :=
  if realm = ascii "off" then block else { block with authBasic := some ⟨realm, []⟩ }

/-- Credentials that a server block asks for, after its `auth_basic_user_file`. -/
def withUserFile (file : Bytes) (block : ServerBlock) : ServerBlock :=
  { block with
    authBasic :=
      match block.authBasic with
      | some auth => some { auth with userFile := file }
      | none => some ⟨ascii "Restricted", file⟩ }

/-- A directive of one word that changes the block. -/
def blockWord (f : Bytes → ServerBlock → ServerBlock) : ServerReader → Parser ServerReader :=
  oneWord fun v st => .ok (onBlock f v st)

def locationDirective (st : ServerReader) : Parser ServerReader :=
  if maxLocationBlocks ≤ st.locationCount then Parse.fail .tooManyLocations
  else do
    let loc ← parseLocation lib
    return {
      block := { st.block with locations := st.block.locations ++ [loc] }
      locationCount := st.locationCount + 1 }

def serverDirectives : Directives ServerReader :=
  [(ascii "listen", parsed parseListen (onBlock fun d b => { b with listen := b.listen ++ [d] })),
    (ascii "server_name", anyWords (onBlock fun names b =>
      { b with serverNames := b.serverNames ++ names.map parseServerName })),
    (ascii "root", oneWord fun p st => do
      let root ← canonicalizeRoot p
      return { st with block := { st.block with root := some root } }),
    (ascii "index", anyWords (onBlock fun args b => { b with index := args })),
    (ascii "access_log", parsed parseAccessLog
      (onBlock fun log b => { b with accessLog := some log })),
    (ascii "client_max_body_size", checkedWord parseBodySize
      (onBlock fun n b => { b with clientMaxBodySize := some n })),
    (ascii "add_header", parsed parseAddHeader
      (onBlock fun h b => { b with addHeaders := b.addHeaders ++ [h] })),
    (ascii "limit_req", anyWords (onBlock fun args b => { b with limitReq := parseLimitReq args })),
    (ascii "rewrite", parsed parseRewrite
      (onBlock fun rule b => { b with rewrites := b.rewrites ++ [rule] })),
    (ascii "auth_basic", blockWord withRealm),
    (ascii "auth_basic_user_file", blockWord withUserFile),
    (ascii "error_page", anyWords (onBlock fun args b =>
      { b with errorPages := b.errorPages ++ (parseErrorPage args).toList })),
    (ascii "return", parsed parseReturn
      (onBlock fun rd b => { b with returnDirective := some rd })),
    (ascii "ssl_certificate", blockWord fun p => withTls fun t => { t with certPath := p }),
    (ascii "ssl_certificate_key", blockWord fun p => withTls fun t => { t with keyPath := p }),
    (ascii "ssl_protocols", anyWords (onBlock fun args => withTls fun t =>
      { t with minVersion := if args.contains (ascii "TLSv1.2") then .tls12 else .tls13 })),
    (ascii "location", locationDirective lib),
    (ascii "ssl_redirect", blockWord fun v b => { b with sslRedirect := isNotOff v }),
    (ascii "ssl-redirect", blockWord fun v b => { b with sslRedirect := isNotOff v }),
    (ascii "hsts", blockWord fun v b =>
      if isNotOff v then { b with hstsMaxAge := some 31536000 } else b),
    (ascii "hsts_max_age", blockWord fun v b =>
      { b with hstsMaxAge := Decimal.parseUnsigned Decimal.u64Bound v }),
    (ascii "hsts-max-age", blockWord fun v b =>
      { b with hstsMaxAge := Decimal.parseUnsigned Decimal.u64Bound v }),
    (ascii "hsts_include_subdomains", blockWord fun v b =>
      { b with hstsIncludeSubdomains := isNotOff v }),
    (ascii "hsts-include-subdomains", blockWord fun v b =>
      { b with hstsIncludeSubdomains := isNotOff v })]

/-- A server block behind its opening brace. -/
def parseServerBlock : Parser ServerBlock := do
  let st ← parseBlock .server (serverDirectives lib) .initial
  return st.block

end Server

end ConfigParser
end RunNginx
