import RunNginx.Config.External
import RunNginx.Http.Limits

/-!
# Configuration types

The configuration as the parser builds it and the request handler reads it.
-/

namespace RunNginx

open ByteString Limits

/-- Address of a listening or a backend socket. -/
structure SocketAddr where
  ip : IpAddr
  port : Nat
deriving DecidableEq, Repr

structure ListenDirective where
  addr : SocketAddr
  tls : Bool
  http2 : Bool
  defaultServer : Bool
deriving DecidableEq, Repr

inductive ServerName
  | exact (name : Bytes)
  | wildcard (pattern : Bytes)
  | suffix (suffix : Bytes)
  | catchAll
deriving DecidableEq, Repr

namespace ServerName

/-- Does a host belong to the name? -/
def «matches» : ServerName → Bytes → Bool
  | .exact n, host => eqIgnoreCase n host
  | .catchAll, _ => true
  | .suffix s, host =>
      let s := s.dropWhile (· == 46)
      eqIgnoreCase host s || (46 :: toAsciiLower s).isSuffixOf (toAsciiLower host)
  | .wildcard w, host =>
      let suffix := w.dropWhile (· == 42)
      (toAsciiLower suffix).isSuffixOf (toAsciiLower host)

end ServerName

inductive TlsVersion
  | tls12
  | tls13
deriving DecidableEq, Repr

structure TlsConfig where
  certPath : Bytes
  keyPath : Bytes
  minVersion : TlsVersion
deriving DecidableEq, Repr

inductive AccessLog
  | off
  | file (path : Bytes)
  | stderr
deriving DecidableEq, Repr

inductive TryFilesEntry
  | path (path : Bytes)
  | statusCode (code : Nat)
  | named (name : Bytes)
deriving DecidableEq, Repr

inductive ReturnBody
  | empty
  | text (text : Bytes)
  | url (url : Bytes)
deriving DecidableEq, Repr

structure ReturnDirective where
  status : Nat
  body : ReturnBody
deriving DecidableEq, Repr

structure ErrorPage where
  codes : List Nat
  uri : Bytes
deriving DecidableEq, Repr

inductive RewriteFlag
  | last
  | «break»
  | redirect
  | permanent
deriving DecidableEq, Repr

structure RewriteRule where
  pattern : Bytes
  replacement : Bytes
  flag : RewriteFlag
deriving DecidableEq, Repr

structure AuthBasicConfig where
  realm : Bytes
  userFile : Bytes
deriving DecidableEq, Repr

structure LimitReqZoneDef where
  name : Bytes
  /-- Requests per second. -/
  rateRps : Rat
deriving DecidableEq, Repr

structure LimitReqRef where
  zone : Bytes
  burst : Nat
  nodelay : Bool
deriving DecidableEq, Repr

structure UpstreamGroupDef where
  name : Bytes
  peers : List (Bytes × Nat)
  policy : Bytes
  healthInterval : Nat
  healthTimeout : Nat
  failTimeout : Nat
  maxFails : Nat
  keepalive : Nat
deriving DecidableEq, Repr

inductive FastCgiUpstream
  | unixSocket (path : Bytes)
  | tcp (addr : SocketAddr)
deriving DecidableEq, Repr

structure FastCgiConfig where
  upstream : FastCgiUpstream
  params : List (Bytes × Bytes)
  index : Option Bytes
  readTimeout : Nat
  connectTimeout : Nat
deriving DecidableEq, Repr

structure ProxyConfig where
  upstream : Url
  setHeaders : List (Bytes × Bytes)
  readTimeout : Nat
  connectTimeout : Nat
  buffering : Bool
  http2 : Bool
  allowInternal : Bool
deriving DecidableEq, Repr

inductive LocationHandler
  | static
  | fastCgi (config : FastCgiConfig)
  | proxy (config : ProxyConfig)
  | «return» (directive : ReturnDirective)
  | upstreamGroup (name : Bytes)
deriving DecidableEq, Repr

inductive LocationPattern
  | exact (path : Bytes)
  | prefixNoRegex (path : Bytes)
  | longestPrefix (path : Bytes)
  | regex (source : Bytes) (re : Regex)
  | regexInsensitive (source : Bytes) (re : Regex)
  | named (name : Bytes)

structure LocationBlock where
  pattern : LocationPattern
  handler : LocationHandler
  root : Option Bytes
  index : Option (List Bytes)
  tryFiles : Option (List TryFilesEntry)
  addHeaders : List (Bytes × Bytes)
  clientMaxBodySize : Option Nat
  returnDirective : Option ReturnDirective
  gzip : Option Bool
  limitReq : Option LimitReqRef
  rewrites : List RewriteRule
  authBasic : Option AuthBasicConfig

structure ServerBlock where
  listen : List ListenDirective
  serverNames : List ServerName
  root : Option Bytes
  index : List Bytes
  locations : List LocationBlock
  tls : Option TlsConfig
  accessLog : Option AccessLog
  clientMaxBodySize : Option Nat
  errorPages : List ErrorPage
  addHeaders : List (Bytes × Bytes)
  returnDirective : Option ReturnDirective
  limitReq : Option LimitReqRef
  rewrites : List RewriteRule
  authBasic : Option AuthBasicConfig
  sslRedirect : Bool
  hstsMaxAge : Option Nat
  hstsIncludeSubdomains : Bool

structure HttpBlock where
  servers : List ServerBlock
  gzip : Bool
  gzipTypes : List Bytes
  gzipMinLength : Nat
  brotli : Bool
  brotliTypes : List Bytes
  brotliMinLength : Nat
  accessLog : AccessLog
  clientMaxBodySize : Nat
  keepaliveTimeout : Nat
  sendTimeout : Nat
  apiKey : Bytes
  webuiAdminUser : Bytes
  webuiAdminPassword : Bytes
  limitReqZones : List LimitReqZoneDef
  upstreamGroups : List UpstreamGroupDef

/-- MIME types that are compressed unless the configuration names others. -/
def defaultCompressedTypes : List Bytes :=
  [ascii "text/html", ascii "text/css", ascii "application/javascript",
    ascii "application/json"]

/-- The http block before its first directive. -/
def HttpBlock.default : HttpBlock where
  servers := []
  gzip := false
  gzipTypes := defaultCompressedTypes
  gzipMinLength := 1024
  brotli := false
  brotliTypes := defaultCompressedTypes
  brotliMinLength := 1024
  accessLog := .file (ascii "/var/log/runnginx/access.log")
  clientMaxBodySize := defaultMaxBodyBytes
  keepaliveTimeout := defaultKeepaliveTimeoutS
  sendTimeout := 60
  apiKey := []
  webuiAdminUser := ascii "admin"
  webuiAdminPassword := ascii "admin"
  limitReqZones := []
  upstreamGroups := []

inductive WorkerCount
  | auto
  | fixed (count : Nat)
deriving DecidableEq, Repr

/-- A whole configuration file. -/
structure Config where
  workerProcesses : WorkerCount
  workerConnections : Nat
  http : HttpBlock
  firewallManage : Bool
  firewallBackend : Option Bytes
  firewallTag : Bytes
  icmpProtection : Bool
  numaPin : Bool
  scanDetection : Bool
  scanWindowSecs : Nat
  scanReqThreshold : Nat
  scanErrorRate : Rat
  scanBlockSecs : Nat
  scanAbuseipdbKey : Option Bytes
  scanAbuseipdbReport : Bool
  scanWhitelist : List IpAddr

end RunNginx
