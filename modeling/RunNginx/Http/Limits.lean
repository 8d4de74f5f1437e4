import RunNginx.Lib.ByteString

/-!
# Limits on HTTP input

The validation constants of the server, in bytes unless the name says otherwise,
and the URI sequences that are refused before any path is resolved.
-/

namespace RunNginx
namespace Limits

open ByteString

def maxMethodLen : Nat := 16
def maxUriLen : Nat := 8192
def maxVersionLen : Nat := 16

/-- Method, space, URI, space, version and CRLF. -/
def maxRequestLine : Nat :=
  maxMethodLen + 1 + maxUriLen + 1 + maxVersionLen + 2

def maxHeaderCount : Nat := 100
def maxHeaderNameLen : Nat := 256
def maxHeaderValueLen : Nat := 8192
def maxHeadersTotalBytes : Nat := 65536

/-- Bytes buffered before the request head must be complete. -/
def maxHeaderBuffer : Nat :=
  maxHeadersTotalBytes + maxRequestLine

def defaultMaxBodyBytes : Nat := 1048576
def absoluteMaxBodyBytes : Nat := 2147483648

def defaultKeepaliveTimeoutS : Nat := 75

/-- Requests served on one connection. -/
def maxKeepaliveRequests : Nat := 1000

def maxIncludeDepth : Nat := 10
def maxServerBlocks : Nat := 256
def maxLocationBlocks : Nat := 1024

/-- Sequences a request URI must not contain. -/
def forbiddenUriSequences : List Bytes :=
  [[0], ascii "%00", ascii "%2F", ascii "%5C", ascii "//", ascii "../", ascii "..\\"]

end Limits
end RunNginx
