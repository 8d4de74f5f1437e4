import RunNginx.MultiUser.Registry
import RunNginx.Server.Response

/-!
# User-scoped API

The routes under `/api/users`: administration with the global key, and an account's
own data with its key.
-/

namespace RunNginx
namespace MultiUser

open ByteString

/-- What the user API takes from outside while it handles one request. -/
structure UserApiEnv where
  id : Bytes
  key : Bytes
  persisted : Except Bytes Unit
  /-- Username and domains of a request body; what is missing is empty. -/
  parseUser : Bytes → Bytes × List Bytes
  /-- JSON text of the list of accounts. -/
  usersJson : List UserAccount → Bytes
  /-- JSON text of the id and the key of an account. -/
  createdJson : UserAccount → Bytes
  /-- JSON text of an account as its owner sees it. -/
  selfJson : UserAccount → Bytes

def jsonOk (body : Bytes) : Bytes :=
  joinLines
      [ascii "HTTP/1.1 200 OK",
        ascii "Content-Type: application/json",
        ascii "Content-Length: " ++ Decimal.render body.length,
        ascii "Connection: keep-alive"] ++ crlf ++ body

def jsonErr (status : Nat) (msg : Bytes) : Bytes :=
  let body := ascii "\x7b\"error\":\"" ++ msg ++ ascii "\"\x7d"
  let reason :=
    if status = 400 then ascii "Bad Request"
    else if status = 404 then ascii "Not Found"
    else ascii "Internal Server Error"
  joinLines
      [ascii "HTTP/1.1 " ++ Decimal.render status ++ ascii " " ++ reason,
        ascii "Content-Type: application/json",
        ascii "Content-Length: " ++ Decimal.render body.length,
        ascii "Connection: keep-alive"] ++ crlf ++ body

/-- Letter, digit, hyphen or underscore. -/
def isUsernameByte (b : UInt8) : Bool :=
  (48 ≤ b && b ≤ 57) || (65 ≤ b && b ≤ 90) || (97 ≤ b && b ≤ 122) || b == 45 || b == 95

def postUser (env : UserApiEnv) (registry : UserRegistry) (body : Bytes) :
    Bytes × UserRegistry :=
  let (username, domains) := env.parseUser body
  if username = [] then (jsonErr 400 (ascii "username required"), registry)
  else if !username.all isUsernameByte || 32 < username.length then
    (jsonErr 400 (ascii "username: only a-z A-Z 0-9 - _ allowed, max 32 chars"), registry)
  else
    match registry.createUser env.id env.key username domains (ascii "/home/" ++ username)
        env.persisted with
    | (registry, .ok user) => (jsonOk (env.createdJson user), registry)
    | (registry, .error e) => (jsonErr 500 e, registry)

/-- The user routes; `none` is a path or method that is none of them. -/
def handleUserApi (env : UserApiEnv) (registry : UserRegistry)
    (path method body apiKey : Bytes) (isAdmin : Bool) : Option (Bytes × UserRegistry) :=
  let users := ascii "/api/users/"
  if !(ascii "/api/users").isPrefixOf path then none
  else if method = ascii "GET" ∧ path = ascii "/api/users" ∧ isAdmin then
    some (jsonOk (env.usersJson registry.allUsers), registry)
  else if method = ascii "POST" ∧ path = ascii "/api/users" ∧ isAdmin then
    some (postUser env registry body)
  else if method = ascii "DELETE" ∧ users.isPrefixOf path ∧ isAdmin then
    match registry.deleteUser (path.drop users.length) with
    | (registry, true) => some (jsonOk (ascii "\x7b\"status\":\"deleted\"\x7d"), registry)
    | (registry, false) => some (jsonErr 404 (ascii "user not found"), registry)
  else if method = ascii "GET" ∧ path = ascii "/api/users/me" then
    match registry.byApiKey apiKey with
    | some user => some (jsonOk (env.selfJson user), registry)
    | none => some (jsonErr 401 (ascii "unauthorized"), registry)
  else none

end MultiUser
end RunNginx
