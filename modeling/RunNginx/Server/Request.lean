import RunNginx.Simd
import RunNginx.Server.Response

/-!
# Reading a request off a buffer

The first part of the dispatcher: request line, headers and body are taken from
the raw bytes of one read.  The body is what follows the head, cut at the
declared Content-Length.
-/

namespace RunNginx
namespace Request

open ByteString Simd

/-- First header with the given name, up to ASCII case. -/
def getHeader (headers : Headers) (name : Bytes) : Option Bytes :=
  (headers.find? fun h => eqIgnoreCase h.1 name).map Prod.snd

/-- The parsed headers as strings. -/
def headerStrings (raw : List Header) : Headers :=
  raw.map fun h => (Utf8.fromUtf8Lossy h.name, Utf8.fromUtf8Lossy h.value)

/-- Declared body length; an absent or unreadable value counts as zero. -/
def contentLen (headers : Headers) : Nat :=
  ((getHeader headers (ascii "content-length")).bind
    (Decimal.parseUnsigned Decimal.usizeBound)).getD 0

/-- The body bytes of a buffer whose head ends at `bodyOffset`. -/
def bodyRaw (raw : Bytes) (bodyOffset contentLen : Nat) : Bytes :=
  if bodyOffset < raw.length then
    (raw.drop bodyOffset).take (min (raw.length - bodyOffset) contentLen)
  else []

/-- A request as the dispatcher sees it. -/
structure Received where
  line : RequestLine
  headers : List Header
  body : Bytes
deriving DecidableEq, Repr

/-- Headers and body of a buffer whose request line took `rlLen` bytes. -/
def readBehindLine (raw : Bytes) (rl : RequestLine) (rlLen : Nat) : Except Bytes Received :=
  match parseHeaders (raw.drop rlLen) with
  | .error e => .error e
  | .ok (headers, headersLen) =>
      .ok ⟨rl, headers,
        bodyRaw raw (rlLen + headersLen) (contentLen (headerStrings headers))⟩

/-- Request line, headers and body of one buffer. -/
def readRequest (raw : Bytes) : Except Bytes Received :=
  match parseRequestLine raw with
  | .error e => .error e
  | .ok (rl, rlLen) => readBehindLine raw rl rlLen

theorem bodyRaw_eq
    (raw : Bytes) (offset len : Nat) :
    bodyRaw raw offset len = (raw.drop offset).take len := by
  unfold bodyRaw
  split
  · rw [← List.length_drop, List.take_eq_take_iff]
    omega
  · rename_i h
    rw [List.drop_eq_nil_of_le (by omega)]
    simp

end Request
end RunNginx
