import RunNginx.Lib.Table
import RunNginx.Proxy

/-!
# FastCGI client

The parameters of a FastCGI request and the CGI response it brings back.  The
record exchange in between is the application server's: `Except Bytes Bytes` is its
outcome, the bytes on its standard output or the reason of a failure.
-/

namespace RunNginx
namespace FastCgi

open ByteString StaticFiles

/-- ASCII upper case. -/
def toAsciiUpper (s : Bytes) : Bytes :=
  s.map fun b => if 97 ≤ b ∧ b ≤ 122 then b - 32 else b

/-- Name of the variable for a request header. -/
def envKey (name : Bytes) : Bytes :=
  ascii "HTTP_" ++ toAsciiUpper (name.map fun b => if b = 45 then 95 else b)

/-- Headers that are not passed as `HTTP_` variables. -/
def notPassed : List Bytes :=
  [ascii "content-type", ascii "content-length", ascii "proxy"]

/-- The variables the server sets itself, in the order they are written. -/
def serverParams (cfg : FastCgiConfig) (method uri scriptPath : Bytes) (headers : Headers)
    (bodyLen : Nat) : List (Bytes × Bytes) :=
  let (path, query) :=
    match find [63] uri with
    | some q => (uri.take q, uri.drop (q + 1))
    | none => (uri, [])
  [(ascii "SCRIPT_FILENAME", scriptPath),
    (ascii "SCRIPT_NAME", path),
    (ascii "REQUEST_URI", uri),
    (ascii "QUERY_STRING", query),
    (ascii "REQUEST_METHOD", toAsciiUpper method),
    (ascii "CONTENT_LENGTH", Decimal.render bodyLen),
    (ascii "SERVER_SOFTWARE", ascii "RunNginx/" ++ pkgVersion),
    (ascii "GATEWAY_INTERFACE", ascii "CGI/1.1"),
    (ascii "SERVER_PROTOCOL", ascii "HTTP/1.1"),
    (ascii "REDIRECT_STATUS", ascii "200"),
    (ascii "FCGI_SCRIPT_NAME", cfg.index.getD (ascii "index.php")),
    (ascii "CONTENT_TYPE", (Request.getHeader headers (ascii "content-type")).getD [])]

/-- All variables; a later one replaces an earlier one of its name. -/
def buildParams (cfg : FastCgiConfig) (method uri scriptPath : Bytes) (headers : Headers)
    (bodyLen : Nat) : Table Bytes Bytes :=
  let passed := (headers.filter fun h => !Proxy.isNamed notPassed h.1).map
    fun h => (envKey h.1, h.2)
  (serverParams cfg method uri scriptPath headers bodyLen ++ passed ++ cfg.params).foldl
    (fun params kv => params.insert kv.1 kv.2) ∅

/-- Where the header section ends and the body starts. -/
def headerEnd (data : Bytes) : Option (Nat × Nat) :=
  match find (crlf ++ crlf) data, find [10, 10] data with
  | some a, _ => some (a, a + 4)
  | none, some b => some (b, b + 2)
  | none, none => none

/-- Status and headers of the CGI header section. -/
def cgiHeaders : Nat → Headers → List Bytes → Nat × Headers
  | status, headers, [] => (status, headers)
  | status, headers, line :: rest =>
      if line = [] then cgiHeaders status headers rest
      else match stripPrefix (ascii "Status:") line with
      | some value =>
          let status := ((Utf8.splitWhitespace (Utf8.trim value)).head?.bind
            (Decimal.parseUnsigned Decimal.u16Bound)).getD 200
          cgiHeaders status headers rest
      | none =>
          match Proxy.splitHeader line with
          | some header => cgiHeaders status (headers ++ [header]) rest
          | none => cgiHeaders status headers rest

def parseCgiResponse (data : Bytes) : Except Bytes StaticResponse :=
  match headerEnd data with
  | none => .error (ascii "no header terminator in FastCGI response")
  | some (hdrEnd, bodyStart) =>
      if !Utf8.isUtf8 (data.take hdrEnd) then .error (Utf8.errorText (data.take hdrEnd))
      else
        let body := data.drop bodyStart
        let (status, headers) := cgiHeaders 200 [] (lines (data.take hdrEnd))
        let headers :=
          if headers.any fun h => eqIgnoreCase h.1 (ascii "content-length") then headers
          else headers ++ [(ascii "Content-Length", Decimal.render body.length)]
        .ok ⟨status, headers, body⟩

def fcgiError (status : Nat) (msg : Bytes) : StaticResponse :=
  let body := ascii "<html><body>" ++ Decimal.render status ++ ascii " FastCGI Error: " ++ msg ++
    ascii "</body></html>\n"
  { status := status
    headers :=
      [(ascii "Content-Type", ascii "text/html; charset=utf-8"),
        (ascii "Content-Length", Decimal.render body.length)]
    body := body }

/-- One request to the application server. -/
def fastcgiRequest (stdout : Except Bytes Bytes) : StaticResponse :=
  match stdout.bind parseCgiResponse with
  | .ok resp => resp
  | .error e => fcgiError 502 e

end FastCgi
end RunNginx
