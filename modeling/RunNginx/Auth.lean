import RunNginx.Server.StaticFiles

/-!
# HTTP basic authentication

Credentials are checked against the lines of a password file.  The bcrypt
verification is a library function and stays a parameter.
-/

namespace RunNginx
namespace Auth

open ByteString StaticFiles

/-- The base64 alphabet. -/
def base64Table : Bytes :=
  ascii "ABCDEFGHIJKLMNOPQRSTUVWXYZabcdefghijklmnopqrstuvwxyz0123456789+/"

/-- Digits of a base64 text; other bytes are skipped. -/
def base64Indices (s : Bytes) : List Nat :=
  (s.filter fun b => b != 61).filterMap fun b => base64Table.idxOf? b

/-- Bytes of one group of up to four digits. -/
def base64Group : List Nat → Bytes
  | a :: b :: c :: d :: _ =>
      let n := a * 2 ^ 18 + b * 2 ^ 12 + c * 2 ^ 6 + d
      [UInt8.ofNat (n / 2 ^ 16), UInt8.ofNat (n / 2 ^ 8), UInt8.ofNat n]
  | [a, b, c] =>
      let n := a * 2 ^ 18 + b * 2 ^ 12 + c * 2 ^ 6
      [UInt8.ofNat (n / 2 ^ 16), UInt8.ofNat (n / 2 ^ 8)]
  | [a, b] => [UInt8.ofNat ((a * 2 ^ 18 + b * 2 ^ 12) / 2 ^ 16)]
  | [a] => [UInt8.ofNat (a * 2 ^ 18 / 2 ^ 16)]
  | [] => []

/-- Decode groups of four digits. -/
def base64Bytes : List Nat → Bytes
  | a :: b :: c :: d :: rest => base64Group [a, b, c, d] ++ base64Bytes rest
  | group => base64Group group

/-- Decode a base64 text that holds UTF-8. -/
def base64Decode (s : Bytes) : Option Bytes :=
  let out := base64Bytes (base64Indices s)
  if Utf8.isUtf8 out then some out else none

def startsWithAny (heads : List Bytes) (s : Bytes) : Bool :=
  heads.any fun p => p.isPrefixOf s

/-- Check a password against the hash of its line. -/
def verifyPassword (bcryptVerify : Bytes → Bytes → Bool) (password hash : Bytes) : Bool :=
  if startsWithAny [ascii "$2y$", ascii "$2b$", ascii "$2a$"] hash then
    let normalized :=
      if (ascii "$2y$").isPrefixOf hash then ascii "$2b$" ++ hash.drop 4 else hash
    bcryptVerify password normalized
  else if startsWithAny [ascii "\x7bSHA\x7d", ascii "$apr1$", ascii "$1$"] hash then false
  else hash == password

/-- The line of a user: the hash behind the first colon. -/
def lineOf (username line : Bytes) : Option Bytes :=
  let line := Utf8.trim line
  if line = [] ∨ line.head? = some 35 then none
  else match find [58] line with
  | none => none
  | some col => if line.take col = username then some (line.drop (col + 1)) else none

/-- Does the password file accept the Authorization header? -/
def checkBasicAuth
    (fs : FileSystem) (bcryptVerify : Bytes → Bytes → Bool) (userFile authorization : Bytes) :
    Bool :=
  match (stripPrefix (ascii "Basic ") authorization).bind fun s => base64Decode (Utf8.trim s) with
  | none => false
  | some decoded =>
      match find [58] decoded with
      | none => false
      | some colon =>
          match (fs.readFile userFile).filter Utf8.isUtf8 with
          | none => false
          | some contents =>
              match (lines contents).findSome? (lineOf (decoded.take colon)) with
              | none => false
              | some hash => verifyPassword bcryptVerify (decoded.drop (colon + 1)) hash

/-- The challenge for a protected resource. -/
def unauthorizedResponse (realm : Bytes) : Bytes :=
  let challenge := ascii "Basic realm=\"" ++ replace [34] (ascii "\\\"") realm ++ ascii "\""
  let body := ascii "401 Unauthorized"
  joinLines
      [ascii "HTTP/1.1 401 Unauthorized",
        ascii "WWW-Authenticate: " ++ challenge,
        ascii "Content-Length: " ++ Decimal.render body.length,
        ascii "Content-Type: text/plain",
        ascii "Connection: keep-alive"] ++ crlf ++ body

end Auth
end RunNginx
