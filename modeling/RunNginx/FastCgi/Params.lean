import RunNginx.FastCgi

/-!
# The variables of a FastCGI request

The client's headers are written behind the variables of the server and under names that
begin with `HTTP_`, and what the configuration sets is written behind both.

`params_not_forged`: outside those names the headers have no say but in the content type,
none of them becomes `HTTP_PROXY`, and the configuration has the last word.
-/

namespace RunNginx
namespace FastCgi

open ByteString

/-- The variables that are made of client headers. -/
def passedParams (headers : Headers) : List (Bytes × Bytes) :=
  (headers.filter fun h => !Proxy.isNamed notPassed h.1).map fun h => (envKey h.1, h.2)

variable {cfg : FastCgiConfig} {method uri scriptPath : Bytes} {headers headers' : Headers}
  {bodyLen : Nat} {name : Bytes}

/-- The names of the variables that the server sets. -/
def serverNames : List Bytes :=
  [ascii "SCRIPT_FILENAME", ascii "SCRIPT_NAME", ascii "REQUEST_URI", ascii "QUERY_STRING",
    ascii "REQUEST_METHOD", ascii "CONTENT_LENGTH", ascii "SERVER_SOFTWARE",
    ascii "GATEWAY_INTERFACE", ascii "SERVER_PROTOCOL", ascii "REDIRECT_STATUS",
    ascii "FCGI_SCRIPT_NAME", ascii "CONTENT_TYPE"]

theorem serverParams_names :
    (serverParams cfg method uri scriptPath headers bodyLen).map Prod.fst = serverNames := by
  unfold serverParams
  split
  rfl

/-- The configuration comes first, then the client, then the server. -/
theorem lookup_buildParams
    (name : Bytes) :
    (buildParams cfg method uri scriptPath headers bodyLen).lookup name =
      (Table.lastValue cfg.params name).or
        ((Table.lastValue (passedParams headers) name).or
          (Table.lastValue (serverParams cfg method uri scriptPath headers bodyLen) name)) := by
  have hpairs : buildParams cfg method uri scriptPath headers bodyLen =
      Table.insertPairs (serverParams cfg method uri scriptPath headers bodyLen ++
        passedParams headers ++ cfg.params) ∅ := rfl
  rw [hpairs, Table.lookup_insertPairs, AList.lookup_empty, Option.or_none,
    Table.lastValue_append, Table.lastValue_append]

/-- The client writes names that begin with `HTTP_` only. -/
theorem lastValue_passedParams_of_not_http
    (hname : ¬ ascii "HTTP_" <+: name) :
    Table.lastValue (passedParams headers) name = none := by
  refine Table.lastValue_eq_none fun p hp heq => hname ?_
  obtain ⟨h, -, rfl⟩ := List.mem_map.mp hp
  rw [← heq]
  exact List.prefix_append _ _

/-- A byte of a header name in the name of its variable. -/
def envByte (b : UInt8) : UInt8 :=
  let b := if b = 45 then 95 else b
  if 97 ≤ b ∧ b ≤ 122 then b - 32 else b

/-- Only the header that is held back would be `HTTP_PROXY`. -/
theorem named_proxy_of_envKey
    (h : envKey name = ascii "HTTP_PROXY") :
    eqIgnoreCase name (ascii "proxy") = true := by
  have hlower : ∀ b, envByte b ∈ ascii "PROXY" → toLowerByte b = toLowerByte (envByte b) :=
    forall_byte (by decide +kernel)
  have hsplit : ascii "HTTP_PROXY" = ascii "HTTP_" ++ ascii "PROXY" := by
    decide
  rw [envKey, hsplit, List.append_cancel_left_eq, toAsciiUpper, List.map_map] at h
  have hbytes : name.map envByte = ascii "PROXY" := h
  have hsame : toAsciiLower name = toAsciiLower (ascii "PROXY") := by
    rw [← hbytes]
    unfold toAsciiLower
    rw [List.map_map]
    refine List.map_congr_left fun b hb => hlower b ?_
    rw [← hbytes]
    exact List.mem_map_of_mem hb
  unfold eqIgnoreCase
  rw [beq_iff_eq, hsame]
  decide

theorem lastValue_passedParams_proxy :
    Table.lastValue (passedParams headers) (ascii "HTTP_PROXY") = none := by
  refine Table.lastValue_eq_none fun p hp heq => ?_
  obtain ⟨h, hmem, rfl⟩ := List.mem_map.mp hp
  have hnamed : Proxy.isNamed notPassed h.1 = true := by
    refine List.any_eq_true.mpr ⟨ascii "proxy", ?_, named_proxy_of_envKey heq⟩
    exact List.mem_cons_of_mem _ (List.mem_cons_of_mem _ List.mem_cons_self)
  rw [List.mem_filter, hnamed] at hmem
  cases hmem.2

/--
Headers with the same content type give the same variables outside `HTTP_`; the variable
`HTTP_PROXY` is there only if the configuration sets it; and what the configuration sets
stays as it is set.
-/
theorem params_not_forged
    (cfg : FastCgiConfig) (method uri scriptPath : Bytes) (bodyLen : Nat) :
    (∀ headers headers', Request.getHeader headers (ascii "content-type") =
        Request.getHeader headers' (ascii "content-type") →
      ∀ name, ¬ ascii "HTTP_" <+: name →
        (buildParams cfg method uri scriptPath headers bodyLen).lookup name =
          (buildParams cfg method uri scriptPath headers' bodyLen).lookup name) ∧
      (∀ headers, (buildParams cfg method uri scriptPath headers bodyLen).lookup
        (ascii "HTTP_PROXY") = Table.lastValue cfg.params (ascii "HTTP_PROXY")) ∧
      ∀ headers name value, Table.lastValue cfg.params name = some value →
        (buildParams cfg method uri scriptPath headers bodyLen).lookup name = some value := by
  refine ⟨?_, ?_, ?_⟩
  · intro headers headers' htype name hname
    have hserver : serverParams cfg method uri scriptPath headers bodyLen =
        serverParams cfg method uri scriptPath headers' bodyLen := by
      unfold serverParams
      rw [htype]
    rw [lookup_buildParams, lookup_buildParams, lastValue_passedParams_of_not_http hname,
      lastValue_passedParams_of_not_http hname, hserver]
  · intro headers
    have hserver : Table.lastValue (serverParams cfg method uri scriptPath headers bodyLen)
        (ascii "HTTP_PROXY") = none := by
      refine Table.lastValue_eq_none fun p hp heq => ?_
      have hmem := List.mem_map_of_mem (f := Prod.fst) hp
      rw [serverParams_names, heq] at hmem
      exact absurd hmem (by decide)
    rw [lookup_buildParams, lastValue_passedParams_proxy, hserver, Option.or_none, Option.or_none]
  · intro headers name value hvalue
    rw [lookup_buildParams, hvalue, Option.some_or]

/-- A configuration that sets one variable twice. -/
def twiceSet : FastCgiConfig where
  upstream := .unixSocket (ascii "/run/php.sock")
  params := [(ascii "APP", ascii "old"), (ascii "APP", ascii "new")]
  index := none
  readTimeout := 60
  connectTimeout := 10

/-- Headers that look like variables leave the variables alone. -/
theorem params_not_forged_example :
    let headers :=
      [(ascii "Proxy", ascii "http://a"), (ascii "Script-Filename", ascii "/etc/passwd")]
    let params := buildParams twiceSet (ascii "get") (ascii "/a?b") (ascii "/srv/a.php") headers 0
    params.lookup (ascii "SCRIPT_FILENAME") =
        (buildParams twiceSet (ascii "get") (ascii "/a?b") (ascii "/srv/a.php") [] 0).lookup
          (ascii "SCRIPT_FILENAME") ∧
      params.lookup (ascii "HTTP_PROXY") = none ∧
      params.lookup (ascii "APP") = some (ascii "new") := by
  intro headers params
  obtain ⟨hsame, hproxy, hset⟩ :=
    params_not_forged twiceSet (ascii "get") (ascii "/a?b") (ascii "/srv/a.php") 0
  refine ⟨?_, ?_, ?_⟩
  · exact hsame headers [] (by decide) _ (by decide)
  · exact (hproxy headers).trans (by decide)
  · exact hset headers _ _ (by decide)

end FastCgi
end RunNginx
