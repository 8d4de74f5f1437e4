import RunNginx.Lib.IpAddr

/-!
# What the configuration takes from libraries

URLs and regular expressions come from libraries.  A parsed URL is a record of its
parts, with the host as the library classifies it; the text of an IPv6 host keeps
its square brackets.  A compiled regular expression is what it does to a text.
-/

namespace RunNginx

open ByteString

/-- Host of a URL. -/
inductive Host
  | domain (name : Bytes)
  | ipv4 (addr : IpAddr.V4)
  | ipv6 (addr : IpAddr.V6)
deriving DecidableEq, Repr

/-- The host as it is written in a URL. -/
def Host.text : Host → Bytes
  | .domain name => name
  | .ipv4 addr => addr.render
  | .ipv6 addr => 91 :: (addr.render ++ [93])

/-- A parsed URL. -/
structure Url where
  scheme : Bytes
  host : Option Host
  /-- The port, unless it is the default port of the scheme. -/
  port : Option Nat
  path : Bytes
deriving DecidableEq, Repr

namespace Url

def hostStr (url : Url) : Option Bytes :=
  url.host.map Host.text

def portOrKnownDefault (url : Url) : Option Nat :=
  match url.port with
  | some port => some port
  | none =>
      if url.scheme = ascii "http" ∨ url.scheme = ascii "ws" then some 80
      else if url.scheme = ascii "https" ∨ url.scheme = ascii "wss" then some 443
      else if url.scheme = ascii "ftp" then some 21
      else none

end Url

/-- A compiled regular expression. -/
structure Regex where
  isMatch : Bytes → Bool
  /-- Replace the first match in a text, with the groups of the template filled in. -/
  replace : (text template : Bytes) → Bytes

/-- The libraries: both parsers may refuse their text. -/
structure Libraries where
  parseUrl : Bytes → Option Url
  compileRegex : Bytes → Option Regex
  /-- Finite decimal fractions, for rates and thresholds. -/
  parseFloat : Bytes → Option Rat

end RunNginx
