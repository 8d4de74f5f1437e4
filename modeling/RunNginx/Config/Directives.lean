import RunNginx.Lib.PathText
import RunNginx.Lib.Utf8
import RunNginx.Config.Tokens

/-!
# Values of directives

The parsers of single directive values: sizes, addresses, patterns, URLs.  Where the
source bails out, so does the model, with the data the message names.
-/

namespace RunNginx
namespace ConfigParser

open ByteString Limits

section Text

/-- Remove a prefix as often as it stands there, with fuel. -/
def trimStartMatches (pat : Bytes) : Nat → Bytes → Bytes
  | 0, s => s
  | fuel + 1, s =>
      match stripPrefix pat s with
      | some rest => trimStartMatches pat fuel rest
      | none => s

/-- Remove `s` at the end of a number of seconds. -/
def trimSeconds (s : Bytes) : Bytes :=
  (s.reverse.dropWhile (· == 115)).reverse

/-- Remove double quotes at both ends. -/
def trimQuotes (s : Bytes) : Bytes :=
  trimBy (· == 34) s

/-- The value of the first argument `name=value`. -/
def namedArg (name : Bytes) (args : List Bytes) : Option Bytes :=
  (args.find? fun a => name.isPrefixOf a).map fun a => trimStartMatches name a.length a

end Text

/-- A number of the directive, or an error. -/
def parseNumber (bound : Nat) (directive text : Bytes) : Except ConfigError Nat :=
  match Decimal.parseUnsigned bound text with
  | some n => .ok n
  | none => .error (.invalidNumber directive)

def parseWorkerCount (s : Bytes) : Except ConfigError WorkerCount :=
  if s = ascii "auto" then .ok .auto
  else (parseNumber Decimal.usizeBound (ascii "worker_processes") s).map .fixed

/-- Factor of a size suffix. -/
def sizeFactor (last : Option UInt8) : Option Nat :=
  if last = some 107 ∨ last = some 75 then some 1024
  else if last = some 109 ∨ last = some 77 then some (1024 * 1024)
  else if last = some 103 ∨ last = some 71 then some (1024 * 1024 * 1024)
  else none

/-- Parse a size; the product wraps around. -/
def parseSize (directive text : Bytes) : Except ConfigError Nat :=
  let s := Utf8.trim text
  let (num, factor) : Bytes × Nat :=
    match sizeFactor s.getLast? with
    | some factor => (s.take (s.length - 1), factor)
    | none => (s, 1)
  match Decimal.parseUnsigned Decimal.usizeBound num with
  | some n => .ok (n * factor % Decimal.usizeBound)
  | none => .error (.invalidSize directive s)

/-- A body size, cut at the ceiling. -/
def parseBodySize (text : Bytes) : Except ConfigError Nat :=
  (parseSize (ascii "client_max_body_size") text).map fun n => min n absoluteMaxBodyBytes

/-- Digits without a sign, below a bound. -/
def parseDigits (bound : Nat) (s : Bytes) : Option Nat :=
  if s ≠ [] ∧ s.all Decimal.isDigit ∧ Decimal.value s < bound then some (Decimal.value s)
  else none

/-- An IPv6 address in square brackets, perhaps with a scope. -/
def parseBracketed (s : Bytes) : Option IpAddr :=
  (stripPrefix [91] s).bind fun s =>
    (stripSuffix [93] s).bind fun s =>
      match find [37] s with
      | none => (IpAddr.parseIpv6 s).map .v6
      | some i =>
          (parseDigits Decimal.u32Bound (s.drop (i + 1))).bind fun _ =>
            (IpAddr.parseIpv6 (s.take i)).map .v6

/-- An address with its port. -/
def parseSocketAddr (s : Bytes) : Option SocketAddr :=
  (rfindByte 58 s).bind fun colon =>
    (parseDigits Decimal.u16Bound (s.drop (colon + 1))).bind fun port =>
      let host := s.take colon
      ((IpAddr.parseIpv4 host).map IpAddr.v4 |>.or (parseBracketed host)).map fun ip =>
        ⟨ip, port⟩

/-- An address to listen on; a port alone is one of all interfaces. -/
def parseListenAddr (s : Bytes) : Except ConfigError SocketAddr :=
  match parseSocketAddr s, Decimal.parseUnsigned Decimal.u16Bound s with
  | some addr, _ => .ok addr
  | none, some port => .ok ⟨.v4 ⟨0, 0, 0, 0⟩, port⟩
  | none, none => .error (.invalidListen s)

/-- Arguments of `listen` that are accepted and not used. -/
def ignoredListenArgs : List Bytes :=
  [ascii "reuseport", ascii "backlog", ascii "rcvbuf", ascii "sndbuf", ascii "ipv6only=on",
    ascii "ipv6only=off"]

/-- The address of `listen`: its last argument that is no keyword. -/
def listenAddrArg (args : List Bytes) : Bytes :=
  ((args.filter fun a =>
    !([ascii "ssl", ascii "http2", ascii "default_server"] ++ ignoredListenArgs).contains
      a).getLast?).getD []

def parseListen : Parser ListenDirective := do
  let args ← collectArgs
  expectSemi
  let addr ← Parse.ofExcept (parseListenAddr (listenAddrArg args))
  return {
    addr := addr
    tls := args.contains (ascii "ssl")
    http2 := args.contains (ascii "http2")
    defaultServer := args.contains (ascii "default_server") }

def parseServerName (s : Bytes) : ServerName :=
  if s = ascii "_" ∨ s = [] then .catchAll
  else if (ascii "*.").isPrefixOf s then .wildcard s
  else if (ascii ".").isPrefixOf s then .suffix s
  else .exact s

/-- A root is taken as it is, unless it holds a null byte or a `..`. -/
def canonicalizeRoot (p : Bytes) : Except ConfigError Bytes :=
  if p.contains 0 then .error .rootNullByte
  else if (PathText.pieces p).contains (ascii "..") then .error .rootParentDir
  else .ok p

def parseAccessLog : Parser AccessLog := do
  let val ← expectWord
  skipWord
  expectSemi
  return if val = ascii "off" then .off
    else if val = ascii "stderr" then .stderr
    else .file val

def parseReturn : Parser ReturnDirective := do
  let first ← expectWord
  let status ← Parse.ofExcept
    (parseNumber Decimal.u16Bound (ascii "return status code") first)
  let t ← Parse.peek
  match wordOf t with
  | some text => do
      Parse.advance
      expectSemi
      return ⟨status, if 300 ≤ status ∧ status < 400 then .url text else .text text⟩
  | none => do
      expectSemi
      return ⟨status, .empty⟩

def parseRewriteFlag (s : Bytes) : RewriteFlag :=
  if s = ascii "break" then .break
  else if s = ascii "redirect" then .redirect
  else if s = ascii "permanent" then .permanent
  else .last

def parseRewrite : Parser RewriteRule := do
  let pattern ← expectWord
  let replacement ← expectWord
  let t ← Parse.peek
  match wordOf t with
  | some flag => do
      Parse.advance
      expectSemi
      return ⟨pattern, replacement, parseRewriteFlag flag⟩
  | none => do
      expectSemi
      return ⟨pattern, replacement, .last⟩

/-- A header to add; the word `always` may follow it. -/
def parseAddHeader : Parser (Bytes × Bytes) := do
  let name ← expectWord
  let value ← expectWord
  let t ← Parse.peek
  if t = some (.word (ascii "always")) then Parse.advance
  expectSemi
  return (name, value)

def parseLimitReq (args : List Bytes) : Option LimitReqRef :=
  (namedArg (ascii "zone=") args).map fun zone =>
    { zone := zone
      burst := ((namedArg (ascii "burst=") args).bind
        (Decimal.parseUnsigned Decimal.u32Bound)).getD 0
      nodelay := args.contains (ascii "nodelay") }

/-- The rate of a zone, in requests per second. -/
def parseRate (lib : Libraries) (s : Bytes) : Option Rat :=
  match stripSuffix (ascii "r/s") s, stripSuffix (ascii "r/m") s with
  | some n, _ => lib.parseFloat (Utf8.trim n)
  | none, some n => (lib.parseFloat (Utf8.trim n)).map (· / 60)
  | none, none => none

/-- The zone of a `limit_req_zone`, where its name and its rate can be read. -/
def parseLimitReqZone (lib : Libraries) (args : List Bytes) : Option LimitReqZoneDef :=
  (namedArg (ascii "zone=") args).bind fun zone =>
    (namedArg (ascii "rate=") args).bind fun rate =>
      (parseRate lib rate).map fun rps => ⟨(splitByte 58 zone).headD [], rps⟩

def parseTryFilesEntry (s : Bytes) : TryFilesEntry :=
  match (stripPrefix [61] s).bind (Decimal.parseUnsigned Decimal.u16Bound) with
  | some code => .statusCode code
  | none => if s.head? = some 64 then .named s else .path s

def parseTryFiles (args : List Bytes) : List TryFilesEntry :=
  args.map parseTryFilesEntry

/-- The codes and the URI of an `error_page`, where it names a code. -/
def parseErrorPage (args : List Bytes) : Option ErrorPage :=
  match args.getLast? with
  | none => none
  | some uri =>
      let codes := args.dropLast.filterMap (Decimal.parseUnsigned Decimal.u16Bound)
      if codes = [] then none else some ⟨codes, uri⟩

def compileRegex (lib : Libraries) (source : Bytes) : Except ConfigError Regex :=
  match lib.compileRegex source with
  | some re => .ok re
  | none => .error (.invalidRegex source)

def parseLocationPattern (lib : Libraries) :
    List Bytes → Except ConfigError LocationPattern
  | [] => .error .emptyPattern
  | [p] => .ok (if p.head? = some 64 then .named p else .longestPrefix p)
  | [modifier, path] =>
      if modifier = ascii "=" then .ok (.exact path)
      else if modifier = ascii "^~" then .ok (.prefixNoRegex path)
      else if modifier = ascii "~" then
        (compileRegex lib path).map fun re => .regex path re
      else if modifier = ascii "~*" then
        (compileRegex lib (ascii "(?i)" ++ path)).map fun re => .regexInsensitive path re
      else .error (.unknownModifier modifier)
  | args => .error (.tooManyPatternTokens args)

section ProxyPass

/-- Hosts that are refused by name. -/
def isBlockedHost (host : Bytes) : Bool :=
  let lower := toAsciiLower host
  lower == ascii "localhost" || (ascii ".local").isSuffixOf lower ||
    lower == ascii "metadata.google.internal" || lower == ascii "169.254.169.254" ||
    lower == ascii "fd00:ec2::254" || lower == ascii "metadata.internal"

/-- Is the text an address that stands for no host? -/
def isUnspecifiedText (host : Bytes) : Bool :=
  match IpAddr.parseIpAddr host with
  | some (.v4 ip) => ip.isUnspecified
  | some (.v6 ip) => ip.isUnspecified
  | none => false

/-- The URL of a `proxy_pass`, checked against server-side request forgery. -/
def parseProxyPass (lib : Libraries) (raw : Bytes) : Except ConfigError ProxyConfig :=
  match lib.parseUrl raw with
  | none => .error (.invalidProxyUrl raw)
  | some url =>
      let host := url.hostStr.getD []
      if url.scheme ≠ ascii "http" ∧ url.scheme ≠ ascii "https" then .error (.proxyScheme raw)
      else if isUnspecifiedText host then .error (.proxyUnspecified raw)
      else if isBlockedHost host then .error (.proxyBlockedHost raw)
      else
        .ok
          { upstream := url
            setHeaders := []
            readTimeout := 60
            connectTimeout := 5
            buffering := true
            http2 := false
            allowInternal := false }

/-- An accepted URL is the upstream, and internal addresses are not allowed yet. -/
theorem parseProxyPass_ok
    {lib : Libraries} {raw : Bytes} {accepted : ProxyConfig}
    (h : parseProxyPass lib raw = .ok accepted) :
    lib.parseUrl raw = some accepted.upstream ∧ accepted.allowInternal = false := by
  unfold parseProxyPass at h
  dsimp only at h
  repeat' split at h
  all_goals cases h
  rename_i hurl _ _ _
  exact ⟨hurl, rfl⟩

end ProxyPass

def parseFastcgiUpstream (s : Bytes) : Except ConfigError FastCgiUpstream :=
  match stripPrefix (ascii "unix:") s with
  | some path => .ok (.unixSocket (PathText.slash :: path.dropWhile (· == PathText.slash)))
  | none =>
      match parseSocketAddr s with
      | some addr => .ok (.tcp addr)
      | none => .error (.invalidFastcgiPass s)

end ConfigParser
end RunNginx
