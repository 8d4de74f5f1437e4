import RunNginx.Config.Blocks

/-!
# Configuration files

The upstream and http blocks, the root of a configuration, and the two kinds of
include: at the root, where a file is a configuration of its own that gives its
servers, and in the http block, where only the server blocks of a file are looked for.
-/

namespace RunNginx
namespace ConfigParser

open ByteString Limits

/-- The files that includes can name. -/
structure ConfigFiles where
  /-- The paths that match a pattern. -/
  glob : Bytes → List Bytes
  /-- The text of a file. -/
  read : Bytes → Option Bytes

namespace ConfigFiles

/-- The pattern of an include, seen from the file it stands in. -/
def fullPattern (configPath pattern : Bytes) : Bytes :=
  if PathText.isAbsolute pattern then pattern
  else PathText.join ((PathText.parent configPath).getD [PathText.slash]) pattern

/-- Go through the files an include names. -/
def forEach {σ : Type} (files : ConfigFiles) (configPath pattern : Bytes)
    (f : σ → Bytes → List Token → Except ConfigError σ) (s : σ) : Except ConfigError σ :=
  (files.glob (fullPattern configPath pattern)).foldlM
    (fun s entry =>
      match files.read entry with
      | none => .error (.unreadable entry)
      | some src => f s entry (tokenize src)) s

end ConfigFiles

section Upstream

/-- The number behind an argument `name=number`, or a default. -/
def argNumber (bound default : Nat) (name : Bytes) (args : List Bytes) (n : Nat) : Nat :=
  args.foldl (fun n a =>
    match stripPrefix name a with
    | some v => (Decimal.parseUnsigned bound (trimSeconds v)).getD default
    | none => n) n

/-- The weight of a peer. -/
def peerWeight (args : List Bytes) : Nat :=
  args.foldl (fun n a =>
    match stripPrefix (ascii "weight=") a with
    | some v => (Decimal.parseUnsigned Decimal.u32Bound v).getD 1
    | none => n) 1

def parsePeer : Parser (Bytes × Nat) := do
  let addr ← expectWord
  let args ← collectArgs
  expectSemi
  return (addr, peerWeight args)

/-- A directive of one word that stands for a policy. -/
def policyDirective (policy : Bytes) (g : UpstreamGroupDef) : Parser UpstreamGroupDef := do
  expectSemi
  return { g with policy := policy }

def upstreamDirectives : Directives UpstreamGroupDef :=
  [(ascii "server", parsed parsePeer fun peer g => { g with peers := g.peers ++ [peer] }),
    (ascii "least_conn", policyDirective (ascii "least_conn")),
    (ascii "ip_hash", policyDirective (ascii "ip_hash")),
    (ascii "random", policyDirective (ascii "random")),
    (ascii "keepalive", oneWord fun v g =>
      .ok { g with keepalive := (Decimal.parseUnsigned Decimal.usizeBound v).getD 0 }),
    (ascii "fail_timeout", oneWord fun v g =>
      .ok { g with
        failTimeout := (Decimal.parseUnsigned Decimal.u64Bound (trimSeconds v)).getD 30 }),
    (ascii "max_fails", oneWord fun v g =>
      .ok { g with maxFails := (Decimal.parseUnsigned Decimal.u32Bound v).getD 3 }),
    (ascii "health_check", anyWords fun args g =>
      { g with
        healthInterval := argNumber Decimal.u64Bound 0 (ascii "interval=") args g.healthInterval
        healthTimeout := argNumber Decimal.u64Bound 5 (ascii "timeout=") args g.healthTimeout })]

/-- An upstream block knows no nested block. -/
def unknownUpstreamDirective (g : UpstreamGroupDef) : Parser UpstreamGroupDef := do
  let _ ← collectArgs
  let t ← Parse.peek
  if t = some .semicolon then Parse.advance
  return g

/-- The head of a directive in an upstream block; other tokens are passed over. -/
def upstreamHead (_ : UpstreamGroupDef) : Token → Parse.Head Bytes ConfigError
  | .word w => .item w
  | .closeBrace => .close
  | _ => .skip

def parseUpstream : Parser UpstreamGroupDef := do
  let name ← expectWord
  expectOpen
  Parse.block upstreamHead (runDirective upstreamDirectives unknownUpstreamDirective)
    { name := name
      peers := []
      policy := ascii "round_robin"
      healthInterval := 0
      healthTimeout := 5
      failTimeout := 30
      maxFails := 3
      keepalive := 0 }

end Upstream

section Http

variable (lib : Libraries) (files : ConfigFiles) (configPath : Bytes)

/-- What the parser of an http block has read so far. -/
structure HttpReader where
  http : HttpBlock
  serverCount : Nat

/-- Change the http block that is being read. -/
def onHttp {α : Type} (f : α → HttpBlock → HttpBlock) (a : α) (st : HttpReader) :
    HttpReader :=
  { st with http := f a st.http }

/-- A directive of one word that changes the http block. -/
def httpWord (f : Bytes → HttpBlock → HttpBlock) : HttpReader → Parser HttpReader :=
  oneWord fun v st => .ok (onHttp f v st)

/-- One more server. -/
def HttpReader.add (st : HttpReader) (server : ServerBlock) : HttpReader where
  http := { st.http with servers := st.http.servers ++ [server] }
  serverCount := st.serverCount + 1

def serverDirective (st : HttpReader) : Parser HttpReader := do
  expectOpen
  if maxServerBlocks ≤ st.serverCount then Parse.fail .tooManyServers
  else do
    let server ← parseServerBlock lib
    return st.add server

/-- In an included file everything but a server block is passed over. -/
def includedHead (_ : HttpReader) : Token → Parse.Head Bytes ConfigError
  | .word w => if w = ascii "server" then .item w else .skip
  | _ => .skip

/-- A server block of an included file, as long as there may be one more. -/
def includedServer (_ : Bytes) (st : HttpReader) : Parser HttpReader := do
  let t ← Parse.peek
  if t = some .openBrace then do
    Parse.advance
    if st.serverCount < maxServerBlocks then do
      let server ← parseServerBlock lib
      return st.add server
    else return st
  else return st

/-- The server blocks of an included file. -/
def includeServers (st : HttpReader) (tokens : List Token) : Except ConfigError HttpReader :=
  (Parse.block includedHead (includedServer lib) st tokens).map Prod.fst

/-- The timeout of a connection; a second word is passed over. -/
def parseKeepalive : Parser Nat := do
  let v ← expectWord
  let n ← Parse.ofExcept
    (parseNumber Decimal.u64Bound (ascii "keepalive_timeout") (trimSeconds v))
  skipWord
  expectSemi
  return n

/-- Collect words, then look at the semicolon. -/
def zoneDirective (st : HttpReader) : Parser HttpReader :=
  anyWords (onHttp fun args h =>
    { h with limitReqZones := h.limitReqZones ++ (parseLimitReqZone lib args).toList }) st

def httpDirectives : Directives HttpReader :=
  [(ascii "gzip", httpWord fun v h => { h with gzip := v == ascii "on" }),
    (ascii "gzip_types", anyWords (onHttp fun args h => { h with gzipTypes := args })),
    (ascii "gzip_min_length", checkedWord (parseSize (ascii "gzip_min_length"))
      (onHttp fun n h => { h with gzipMinLength := n })),
    (ascii "access_log", parsed parseAccessLog (onHttp fun log h => { h with accessLog := log })),
    (ascii "client_max_body_size", checkedWord parseBodySize
      (onHttp fun n h => { h with clientMaxBodySize := n })),
    (ascii "keepalive_timeout", parsed parseKeepalive
      (onHttp fun n h => { h with keepaliveTimeout := n })),
    (ascii "send_timeout", checkedWord
      (fun v => parseNumber Decimal.u64Bound (ascii "send_timeout") (trimSeconds v))
      (onHttp fun n h => { h with sendTimeout := n })),
    (ascii "api_key", httpWord fun v h => { h with apiKey := v }),
    (ascii "webui_admin_user", httpWord fun v h => { h with webuiAdminUser := v }),
    (ascii "webui_admin_password", httpWord fun v h => { h with webuiAdminPassword := v }),
    (ascii "brotli", httpWord fun v h => { h with brotli := v == ascii "on" }),
    (ascii "brotli_types", anyWords (onHttp fun args h => { h with brotliTypes := args })),
    (ascii "brotli_min_length", checkedWord (parseSize (ascii "brotli_min_length"))
      (onHttp fun n h => { h with brotliMinLength := n })),
    (ascii "limit_req_zone", zoneDirective lib),
    (ascii "upstream", parsed parseUpstream (onHttp fun g h =>
      { h with upstreamGroups := h.upstreamGroups ++ [g] })),
    (ascii "server", serverDirective lib),
    (ascii "include", oneWord fun pattern st =>
      files.forEach configPath pattern (fun st _ tokens => includeServers lib st tokens) st)]

/-- An http block behind its opening brace. -/
def parseHttpBlock : Parser HttpBlock := do
  let st ← parseBlock .http (httpDirectives lib files configPath) ⟨.default, 0⟩
  return st.http

end Http

section Root

variable (lib : Libraries) (files : ConfigFiles) (configPath : Bytes)

def initialConfig : Config where
  workerProcesses := .auto
  workerConnections := 1024
  http := .default
  firewallManage := true
  firewallBackend := none
  firewallTag := ascii "runnginx"
  icmpProtection := true
  numaPin := false
  scanDetection := true
  scanWindowSecs := 60
  scanReqThreshold := 100
  scanErrorRate := 3 / 5
  scanBlockSecs := 3600
  scanAbuseipdbKey := none
  scanAbuseipdbReport := false
  scanWhitelist := []

/-- A directive of one word that changes the configuration. -/
def rootWord (f : Bytes → Config → Config) : Config → Parser Config :=
  oneWord fun v cfg => .ok (f v cfg)

def workerConnectionsDirective : Config → Parser Config :=
  checkedWord (parseNumber Decimal.usizeBound (ascii "worker_connections"))
    fun n cfg => { cfg with workerConnections := n }

/-- Where the events block is; only behind a directive does a brace end it. -/
structure EventsReader where
  cfg : Config
  first : Bool

def eventsHead (st : EventsReader) : Token → Parse.Head Bytes ConfigError
  | .word w => .item w
  | .closeBrace => if st.first then .halt else .close
  | _ => .halt

def eventsDirective (name : Bytes) (st : EventsReader) : Parser EventsReader :=
  if name = ascii "worker_connections" then do
    let cfg ← workerConnectionsDirective st.cfg
    return ⟨cfg, false⟩
  else do
    let _ ← collectArgs
    let t ← Parse.peek
    if t = some .semicolon then Parse.advance
    return ⟨st.cfg, false⟩

def eventsBlock (cfg : Config) : Parser Config := do
  expectOpen
  let st ← Parse.block eventsHead eventsDirective ⟨cfg, true⟩
  return st.cfg

def httpDirective (cfg : Config) : Parser Config := do
  expectOpen
  let http ← parseHttpBlock lib files configPath
  return { cfg with http := http }

/-- The servers of the files that an include at the root names. -/
def handleInclude (sub : Option (Bytes → List Token → Except ConfigError Config))
    (pattern : Bytes) (cfg : Config) : Except ConfigError Config :=
  match sub with
  | none => .error .includeDepth
  | some parseSub =>
      files.forEach configPath pattern (fun cfg entry tokens => do
        let subCfg ← parseSub entry tokens
        return { cfg with
          http := { cfg.http with servers := cfg.http.servers ++ subCfg.http.servers } }) cfg

/-- Is a switch of the root on? -/
def isOnUnless (offs : List Bytes) (v : Bytes) : Bool :=
  !offs.contains v

/-- The same directive under several names. -/
def named {σ : Type} (names : List Bytes) (d : σ → Parser σ) : Directives σ :=
  names.map fun name => (name, d)

def rootDirectives (sub : Option (Bytes → List Token → Except ConfigError Config)) :
    Directives Config :=
  named [ascii "firewall_manage", ascii "firewall"] (rootWord fun v cfg =>
    { cfg with firewallManage :=
      isOnUnless [ascii "off", ascii "false", ascii "no", ascii "0"] v }) ++
  [(ascii "firewall_backend", rootWord fun v cfg =>
      { cfg with firewallBackend := if v = ascii "auto" then none else some v }),
    (ascii "firewall_tag", rootWord fun v cfg => { cfg with firewallTag := v }),
    (ascii "worker_processes", checkedWord parseWorkerCount fun n cfg =>
      { cfg with workerProcesses := n }),
    (ascii "worker_connections", workerConnectionsDirective),
    (ascii "events", eventsBlock),
    (ascii "http", httpDirective lib files configPath),
    (ascii "include", oneWord (handleInclude files configPath sub))] ++
  named [ascii "numa_pin", ascii "numa-pin"] (rootWord fun v cfg =>
    { cfg with numaPin := isOnUnless [ascii "no", ascii "off"] (trimQuotes v) }) ++
  named [ascii "icmp_protection", ascii "icmp-protection"] (rootWord fun v cfg =>
    { cfg with icmpProtection := isNotOff v }) ++
  named [ascii "scan_detection", ascii "scan-detection"] (rootWord fun v cfg =>
    { cfg with scanDetection := isNotOff v }) ++
  named [ascii "scan_window", ascii "scan_detection_window"] (rootWord fun v cfg =>
    { cfg with scanWindowSecs := (Decimal.parseUnsigned Decimal.u64Bound v).getD 60 }) ++
  named [ascii "scan_threshold", ascii "scan_detection_threshold"] (rootWord fun v cfg =>
    { cfg with scanReqThreshold := (Decimal.parseUnsigned Decimal.u64Bound v).getD 100 }) ++
  named [ascii "scan_error_rate", ascii "scan_detection_error_rate"] (rootWord fun v cfg =>
    { cfg with scanErrorRate := (lib.parseFloat v).getD (3 / 5) }) ++
  named [ascii "scan_block", ascii "scan_detection_block"] (rootWord fun v cfg =>
    { cfg with scanBlockSecs := (Decimal.parseUnsigned Decimal.u64Bound v).getD 3600 }) ++
  named [ascii "abuseipdb_key", ascii "scan_detection_abuseipdb_key"] (rootWord fun v cfg =>
    { cfg with scanAbuseipdbKey := some (trimQuotes v) }) ++
  named [ascii "abuseipdb_report", ascii "scan_detection_abuseipdb_report"] (rootWord fun v cfg =>
    { cfg with scanAbuseipdbReport := isNotOff v })

/-- At the root any token that is no word ends the configuration. -/
def rootHead (_ : Config) : Token → Parse.Head Bytes ConfigError
  | .word w => .item w
  | _ => .halt

/-- Read a configuration; what follows its end is not looked at. -/
def parseTokens (sub : Option (Bytes → List Token → Except ConfigError Config))
    (tokens : List Token) : Except ConfigError Config :=
  (Parse.block rootHead
    (runDirective (rootDirectives lib files configPath sub) unknownDirective) initialConfig
    tokens).map Prod.fst

end Root

section Load

variable (lib : Libraries) (files : ConfigFiles)

/-- Parse a file that may include files to this depth. -/
def parseRoot : Nat → Bytes → List Token → Except ConfigError Config
  | 0, path, tokens => parseTokens lib files path none tokens
  | depth + 1, path, tokens => parseTokens lib files path (some (parseRoot depth)) tokens

/-- Load a configuration file. -/
def load (path : Bytes) : Except ConfigError Config :=
  match files.read path with
  | none => .error (.unreadable path)
  | some src => parseRoot lib files maxIncludeDepth path (tokenize src)

def loadFromStr (src : Bytes) : Except ConfigError Config :=
  parseRoot lib files maxIncludeDepth (ascii "<string>") (tokenize src)

end Load

end ConfigParser
end RunNginx
