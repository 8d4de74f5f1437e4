import RunNginx.Lib.Decimal

/-!
# Response serialization

The bytes of an HTTP/1.1 response and the result a handler returns to the
connection loop.
-/

namespace RunNginx

open ByteString

/-- A list of header fields, name and value. -/
abbrev Headers := List (Bytes × Bytes)

/-- Version of the package. -/
def pkgVersion : Bytes := ascii "0.5.3"

namespace Response

/-- Reason phrase of a status code. -/
def statusReason : Nat → Bytes
  | 200 => ascii "OK"
  | 206 => ascii "Partial Content"
  | 301 => ascii "Moved Permanently"
  | 302 => ascii "Found"
  | 304 => ascii "Not Modified"
  | 307 => ascii "Temporary Redirect"
  | 308 => ascii "Permanent Redirect"
  | 400 => ascii "Bad Request"
  | 401 => ascii "Unauthorized"
  | 403 => ascii "Forbidden"
  | 404 => ascii "Not Found"
  | 405 => ascii "Method Not Allowed"
  | 408 => ascii "Request Timeout"
  | 413 => ascii "Content Too Large"
  | 429 => ascii "Too Many Requests"
  | 500 => ascii "Internal Server Error"
  | 501 => ascii "Not Implemented"
  | 502 => ascii "Bad Gateway"
  | 503 => ascii "Service Unavailable"
  | _ => ascii "Unknown"

/-- One header field on the wire, without its CRLF. -/
def headerLine (h : Bytes × Bytes) : Bytes :=
  h.1 ++ ascii ": " ++ h.2

theorem headerLine_eq
    (h : Bytes × Bytes) :
    headerLine h = h.1 ++ 58 :: (32 :: h.2) := by
  simp [headerLine, ascii]

/-- The lines of a response head. -/
def headLines (status : Nat) (headers : Headers) (keepAlive : Bool) : List Bytes :=
  (ascii "HTTP/1.1 " ++ Decimal.render status ++ ascii " " ++ statusReason status) ::
    (ascii "Server: RunNginx/" ++ pkgVersion) ::
    headers.map headerLine ++
    [if keepAlive then ascii "Connection: keep-alive" else ascii "Connection: close"]

/-- Serialize a response. -/
def formatResponse
    (status : Nat) (headers : Headers) (keepAlive : Bool) (body : Bytes) : Bytes :=
  joinLines (headLines status headers keepAlive) ++ crlf ++ body

end Response

/-- What a handled request gives back to the connection loop. -/
structure HandlerResult where
  bytes : Bytes
  keepAlive : Bool
  status : Nat
  /-- Address of the upstream the two streams are spliced with after `bytes`. -/
  tunnel : Option Bytes
deriving DecidableEq, Repr

namespace HandlerResult

/-- Answer to a request that cannot be parsed. -/
def badRequest (reason : Bytes) (keepAlive : Bool) : HandlerResult :=
  let body := ascii "Bad Request: " ++ reason ++ crlf
  { bytes := Response.formatResponse 400
      [(ascii "Content-Type", ascii "text/plain"),
        (ascii "Content-Length", Decimal.render body.length)]
      keepAlive body
    keepAlive := keepAlive
    status := 400
    tunnel := none }

end HandlerResult

end RunNginx
