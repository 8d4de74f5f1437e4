import RunNginx.Proxy

/-!
# WebSocket upgrades

The handshake of a WebSocket connection is forwarded to the upstream; once the
upstream has switched protocols, the two connections are spliced.
-/

namespace RunNginx
namespace WebSocket

open ByteString Proxy

/-- Headers that are not forwarded with an upgrade request. -/
def hopByHop : List Bytes :=
  [ascii "transfer-encoding", ascii "te", ascii "trailers", ascii "proxy-authenticate",
    ascii "proxy-authorization", ascii "proxy-connection"]

/-- Remove CR and LF. -/
def stripLineEnds (s : Bytes) : Bytes :=
  s.filter fun b => b != 13 && b != 10

/-- The header lines of the upgrade request. -/
def upgradeLines (headers : Headers) : List Bytes :=
  headers.filterMap fun h =>
    if isNamed hopByHop h.1 || (stripLineEnds h.1).isEmpty then none
    else some (Response.headerLine (stripLineEnds h.1, stripLineEnds h.2))

/-- The upgrade request that is sent upstream. -/
def upgradeRequest (method path : Bytes) (headers : Headers) : Bytes :=
  joinLines ((method ++ 32 :: (path ++ ascii " HTTP/1.1")) :: upgradeLines headers) ++ crlf

/-- Size above which the upstream's answer is refused. -/
def maxHandshake : Nat := 16384

/--
Read the upstream's answer up to its blank line.  An answer that grows too large, a
closed connection, a failed read and a timeout all end the upgrade.
-/
def readHandshake : Bytes → List ReadEvent → Except Bytes Bytes
  | _, [] => .error (ascii "websocket upstream closed during handshake")
  | _, .timedOut :: _ => .error (ascii "websocket upstream read timeout")
  | _, .failed _ :: _ => .error (ascii "websocket upstream read")
  | _, .bytes [] :: _ => .error (ascii "websocket upstream closed during handshake")
  | buf, .bytes (b :: data) :: events =>
      let buf := buf ++ b :: data
      if contains (crlf ++ crlf) buf then .ok buf
      else if maxHandshake < buf.length then
        .error (ascii "websocket upstream response too large")
      else readHandshake buf events

/-- Status of the upstream's answer. -/
def handshakeStatus (buf : Bytes) : Nat :=
  let head := if Utf8.isUtf8 buf then buf else []
  statusOf ((lines head).headD []) 0

/-- Forward an upgrade request; on success also the bytes already received. -/
def upgradeToWebsocket (upstreamAddr method path : Bytes) (headers : Headers)
    (ex : Exchange) : Except Bytes Bytes × List NetEvent :=
  match ex.connect with
  | .timedOut =>
      (.error (ascii "websocket upstream connect timeout"), [.connect upstreamAddr])
  | .failed e => (.error e, [.connect upstreamAddr])
  | .done =>
      match ex.nodelay with
      | .error e => (.error e, [.connect upstreamAddr])
      | .ok () =>
          let events := [.connect upstreamAddr, .send (upgradeRequest method path headers)]
          match ex.send with
          | .timedOut => (.error (ascii "websocket upstream send timeout"), events)
          | .failed e => (.error e, events)
          | .done =>
              match readHandshake [] ex.reads with
              | .error e => (.error e, events)
              | .ok buf =>
                  if handshakeStatus buf = 101 then (.ok buf, events)
                  else
                    (.error (ascii "websocket upstream returned " ++
                      Decimal.render (handshakeStatus buf) ++ ascii " instead of 101"), events)

/-- An upgrade opens a connection, and sends nothing but the upgrade request. -/
theorem upgradeToWebsocket_events
    (upstreamAddr method path : Bytes) (headers : Headers) (ex : Exchange) :
    (upgradeToWebsocket upstreamAddr method path headers ex).2 = [.connect upstreamAddr] ∨
      (upgradeToWebsocket upstreamAddr method path headers ex).2 =
        [.connect upstreamAddr, .send (upgradeRequest method path headers)] := by
  unfold upgradeToWebsocket
  repeat' split
  all_goals simp

/-- An upgrade always starts with a connection. -/
theorem upgradeToWebsocket_connects
    (upstreamAddr method path : Bytes) (headers : Headers) (ex : Exchange) :
    .connect upstreamAddr ∈ (upgradeToWebsocket upstreamAddr method path headers ex).2 := by
  rcases upgradeToWebsocket_events upstreamAddr method path headers ex with h | h
  · simp [h]
  · simp [h]

end WebSocket
end RunNginx
