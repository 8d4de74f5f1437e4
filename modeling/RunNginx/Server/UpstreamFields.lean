import RunNginx.Server.HopByHop

/-!
# Fields of a forwarded request

The builder writes its own Host, then the headers of the client, those of the
configuration and the client's X-Forwarded-For once more, then its own Content-Length and
Connection.

`unambiguous_iff`: no field that decides where the request goes and where it ends is
repeated exactly when client and configuration name none of the builder's, and at most one
of them an X-Forwarded-For.
-/

namespace RunNginx
namespace Handler

open ByteString HttpMessage Proxy Request

/-- Header fields that have a name, up to case. -/
def named (name : Bytes) (h : Bytes × Bytes) : Bool :=
  eqIgnoreCase h.1 name

/-- The fields of a forwarded request, in the order in which they are written. -/
def requestFields (cfg : ProxyConfig) (headers : Headers) (bodyLen : Nat) : Headers :=
  (ascii "Host", cfg.upstream.hostStr.getD [] ++ ascii ":" ++
      Decimal.render (cfg.upstream.portOrKnownDefault.getD 80)) ::
    ((headers.filter fun h => !isNamed hopByHop h.1) ++ cfg.setHeaders ++
      forwardedFor cfg headers) ++
    [(ascii "Content-Length", Decimal.render bodyLen),
      (ascii "Connection", ascii "keep-alive")]

/-- One Host, at most one X-Forwarded-For, one Content-Length, which is that of the body. -/
structure Unambiguous (fields : Headers) (bodyLen : Nat) : Prop where
  host : fields.countP (named (ascii "host")) = 1
  forwardedFor : fields.countP (named (ascii "x-forwarded-for")) ≤ 1
  contentLength : (fields.filter (named (ascii "content-length"))).map Prod.snd =
    [Decimal.render bodyLen]

/-- Nothing is named that the builder writes itself, and X-Forwarded-For once at most. -/
structure NothingRepeated (cfg : ProxyConfig) (headers : Headers) : Prop where
  host : ∀ h ∈ headers ++ cfg.setHeaders, named (ascii "host") h = false
  contentLength : ∀ h ∈ headers ++ cfg.setHeaders, named (ascii "content-length") h = false
  forwardedFor : (headers ++ cfg.setHeaders).countP (named (ascii "x-forwarded-for")) ≤ 1
  /-- What the client has is repeated unless it is empty. -/
  client : ∀ h ∈ headers, named (ascii "x-forwarded-for") h = true → h.2 = []

section Bytes

theorem requestLines_fields
    (cfg : ProxyConfig) (method path : Bytes) (headers : Headers) (bodyLen : Nat) :
    requestLines cfg method path headers bodyLen =
      (method ++ 32 :: (path ++ ascii " HTTP/1.1")) ::
        (requestFields cfg headers bodyLen).map Response.headerLine := by
  have hhost : ascii "Host: " = ascii "Host" ++ ascii ": " := by decide
  have hlength : ascii "Content-Length: " = ascii "Content-Length" ++ ascii ": " := by decide
  have hconnection : ascii "Connection: keep-alive" =
      ascii "Connection" ++ ascii ": " ++ ascii "keep-alive" := by decide
  unfold requestLines requestFields
  simp [Response.headerLine, hhost, hlength, hconnection]

/-- A recipient reads these fields off a request that was read and is forwarded. -/
theorem parseHead_forwarded
    {raw : Bytes} {r : Request.Received} (hread : readRequest raw = .ok r) {cfg : ProxyConfig}
    (hclean : CleanProxy cfg) (locPrefix body : Bytes) :
    ∃ requestLine, parseHead (forwarded cfg (ParsedRequest.ofReceived r) locPrefix body) =
      some (requestLine :: (requestFields cfg (ParsedRequest.ofReceived r).headers
        body.length).map Response.headerLine, body) := by
  have hlines := requestLines_lines hclean (readRequest_texts hread) locPrefix body.length
  have hhead := parseHead_joinLines (fun l hl => (hlines l hl).1) (fun l hl => (hlines l hl).2)
    body
  rw [requestLines_fields] at hhead
  refine ⟨(ParsedRequest.ofReceived r).method ++ 32 ::
    (buildUpstreamPath cfg (ParsedRequest.ofReceived r).path locPrefix ++ ascii " HTTP/1.1"), ?_⟩
  unfold forwarded buildProxyRequest
  rw [requestLines_fields]
  exact hhead

end Bytes

section Counts

theorem named_mk
    (name own value : Bytes) :
    named name (own, value) = eqIgnoreCase own name :=
  rfl

variable (cfg : ProxyConfig) (headers : Headers)

/-- A name that is no hop-by-hop name is left in everywhere. -/
theorem filter_forwarded
    {name : Bytes} (hname : isNamed hopByHop name = false) :
    (headers.filter fun h => !isNamed hopByHop h.1).filter (named name) =
      headers.filter (named name) := by
  rw [List.filter_filter]
  refine List.filter_congr fun h _ => ?_
  cases hnamed : named name h with
  | false => rfl
  | true =>
      have hlower : toAsciiLower h.1 = toAsciiLower name := beq_iff_eq.mp hnamed
      unfold isNamed eqIgnoreCase at hname ⊢
      rw [hlower, hname]
      rfl

/-- The fields with a name: the builder's first, the given ones, the repeated, the last. -/
theorem filter_requestFields
    {name : Bytes} (hname : isNamed hopByHop name = false) (bodyLen : Nat) :
    (requestFields cfg headers bodyLen).filter (named name) =
      [(ascii "Host", cfg.upstream.hostStr.getD [] ++ ascii ":" ++
          Decimal.render (cfg.upstream.portOrKnownDefault.getD 80))].filter (named name) ++
        (headers ++ cfg.setHeaders).filter (named name) ++
        (forwardedFor cfg headers).filter (named name) ++
        [(ascii "Content-Length", Decimal.render bodyLen)].filter (named name) := by
  have hconnection : named name (ascii "Connection", ascii "keep-alive") = false := by
    cases hnamed : named name (ascii "Connection", ascii "keep-alive") with
    | false => rfl
    | true =>
        have hlower : toAsciiLower (ascii "Connection") = toAsciiLower name :=
          beq_iff_eq.mp hnamed
        unfold isNamed eqIgnoreCase at hname
        rw [← hlower] at hname
        exact absurd hname (by decide)
  have hend : [(ascii "Content-Length", Decimal.render bodyLen),
      (ascii "Connection", ascii "keep-alive")].filter (named name) =
        [(ascii "Content-Length", Decimal.render bodyLen)].filter (named name) := by
    rw [List.filter_cons, List.filter_singleton, List.filter_singleton, hconnection]
    cases named name (ascii "Content-Length", Decimal.render bodyLen) <;> rfl
  unfold requestFields
  rw [List.cons_append, ← List.singleton_append, List.filter_append, List.filter_append,
    List.filter_append, List.filter_append, filter_forwarded headers hname, hend,
    List.filter_append]
  simp only [List.append_assoc]

theorem filter_forwardedFor
    {name : Bytes} (hname : eqIgnoreCase (ascii "X-Forwarded-For") name = false) :
    (forwardedFor cfg headers).filter (named name) = [] := by
  rw [List.filter_eq_nil_iff]
  intro h hmem
  unfold forwardedFor at hmem
  dsimp only at hmem
  split at hmem
  · cases hmem
  · obtain rfl := List.mem_singleton.mp hmem
    rw [Bool.not_eq_true]
    exact hname

theorem filter_host
    (bodyLen : Nat) :
    (requestFields cfg headers bodyLen).filter (named (ascii "host")) =
      (ascii "Host", cfg.upstream.hostStr.getD [] ++ ascii ":" ++
          Decimal.render (cfg.upstream.portOrKnownDefault.getD 80)) ::
        (headers ++ cfg.setHeaders).filter (named (ascii "host")) := by
  have hknown : eqIgnoreCase (ascii "Host") (ascii "host") = true ∧
      eqIgnoreCase (ascii "Content-Length") (ascii "host") = false := by
    decide
  rw [filter_requestFields cfg headers (by decide), filter_forwardedFor cfg headers (by decide),
    List.filter_singleton, List.filter_singleton, named_mk, named_mk, hknown.1, hknown.2]
  simp

theorem filter_contentLength
    (bodyLen : Nat) :
    (requestFields cfg headers bodyLen).filter (named (ascii "content-length")) =
      (headers ++ cfg.setHeaders).filter (named (ascii "content-length")) ++
        [(ascii "Content-Length", Decimal.render bodyLen)] := by
  have hknown : eqIgnoreCase (ascii "Host") (ascii "content-length") = false ∧
      eqIgnoreCase (ascii "Content-Length") (ascii "content-length") = true := by
    decide
  rw [filter_requestFields cfg headers (by decide), filter_forwardedFor cfg headers (by decide),
    List.filter_singleton, List.filter_singleton, named_mk, named_mk, hknown.1, hknown.2]
  simp

theorem filter_xff
    (bodyLen : Nat) :
    (requestFields cfg headers bodyLen).filter (named (ascii "x-forwarded-for")) =
      (headers ++ cfg.setHeaders).filter (named (ascii "x-forwarded-for")) ++
        forwardedFor cfg headers := by
  have hknown : eqIgnoreCase (ascii "Host") (ascii "x-forwarded-for") = false ∧
      eqIgnoreCase (ascii "Content-Length") (ascii "x-forwarded-for") = false := by
    decide
  have hself : (forwardedFor cfg headers).filter (named (ascii "x-forwarded-for")) =
      forwardedFor cfg headers := by
    rw [List.filter_eq_self]
    intro h hmem
    unfold forwardedFor at hmem
    dsimp only at hmem
    split at hmem
    · cases hmem
    · obtain rfl := List.mem_singleton.mp hmem
      rw [named_mk]
      decide
  rw [filter_requestFields cfg headers (by decide), hself, List.filter_singleton,
    List.filter_singleton, named_mk, named_mk, hknown.1, hknown.2]
  simp

variable {cfg headers}

/-- What the client sent first under the name is repeated, unless the configuration sets one. -/
theorem forwardedFor_eq_nil
    (hclient : ∀ h ∈ headers, named (ascii "x-forwarded-for") h = true → h.2 = []) :
    forwardedFor cfg headers = [] := by
  unfold forwardedFor getHeader
  dsimp only
  cases hfind : headers.find? fun h => eqIgnoreCase h.1 (ascii "x-forwarded-for") with
  | none => exact if_pos (by rw [Option.map_none, Option.getD_none]; exact Bool.or_true _)
  | some k =>
      have hname := List.find?_some hfind
      have hempty := hclient k (List.mem_of_find?_eq_some hfind) hname
      exact if_pos (by rw [Option.map_some, Option.getD_some, hempty]; exact Bool.or_true _)

/-- Where one header has the name at most, nothing is repeated unless it is empty. -/
theorem client_of_forwardedFor_eq_nil
    (honce : (headers ++ cfg.setHeaders).countP (named (ascii "x-forwarded-for")) ≤ 1)
    (hnil : forwardedFor cfg headers = []) :
    ∀ h ∈ headers, named (ascii "x-forwarded-for") h = true → h.2 = [] := by
  intro h hh hnamed
  rw [List.countP_append] at honce
  have hpos : 0 < headers.countP (named (ascii "x-forwarded-for")) :=
    List.countP_pos_iff.mpr ⟨h, hh, hnamed⟩
  have hset : cfg.setHeaders.any (fun h => eqIgnoreCase h.1 (ascii "x-forwarded-for")) = false := by
    rw [← Bool.not_eq_true, List.any_eq_true]
    rintro ⟨k, hk, hkname⟩
    have hkpos : 0 < cfg.setHeaders.countP (named (ascii "x-forwarded-for")) :=
      List.countP_pos_iff.mpr ⟨k, hk, hkname⟩
    omega
  obtain ⟨k, hfind⟩ : ∃ k, headers.find? (fun h => eqIgnoreCase h.1 (ascii "x-forwarded-for")) =
      some k := by
    rw [← Option.isSome_iff_exists, List.find?_isSome]
    exact ⟨h, hh, hnamed⟩
  have hsame : h = k := by
    have hone : (headers.filter (named (ascii "x-forwarded-for"))).length = 1 := by
      rw [← List.countP_eq_length_filter]
      omega
    obtain ⟨x, hx⟩ := List.length_eq_one_iff.mp hone
    have hin : ∀ y ∈ headers, named (ascii "x-forwarded-for") y = true → y = x := fun y hy hname =>
      List.mem_singleton.mp (hx ▸ List.mem_filter.mpr ⟨hy, hname⟩)
    have hkname := List.find?_some hfind
    rw [hin h hh hnamed, hin k (List.mem_of_find?_eq_some hfind) hkname]
  unfold forwardedFor getHeader at hnil
  dsimp only at hnil
  rw [hfind, hset, Bool.false_or, Option.map_some, Option.getD_some] at hnil
  split at hnil
  · rename_i hempty
    rw [hsame]
    exact List.isEmpty_iff.mp hempty
  · cases hnil

/--
A forwarded request has one Host, at most one X-Forwarded-For and one Content-Length, that
of its body, if and only if client and configuration name none of the builder's and one
X-Forwarded-For at most, which is empty if it is the client's.
-/
theorem unambiguous_iff
    (cfg : ProxyConfig) (method path : Bytes) (headers : Headers) (body : Bytes) :
    buildProxyRequest cfg method path headers body =
        joinLines ((method ++ 32 :: (path ++ ascii " HTTP/1.1")) ::
          (requestFields cfg headers body.length).map Response.headerLine) ++ crlf ++ body ∧
      (Unambiguous (requestFields cfg headers body.length) body.length ↔
        NothingRepeated cfg headers) := by
  refine ⟨by rw [← requestLines_fields, buildProxyRequest], ?_⟩
  constructor
  · rintro ⟨hhost, hfor, hlength⟩
    rw [List.countP_eq_length_filter, filter_host, List.length_cons, Nat.add_eq_right,
      List.length_eq_zero_iff, List.filter_eq_nil_iff] at hhost
    rw [List.countP_eq_length_filter, filter_xff, List.length_append,
      ← List.countP_eq_length_filter] at hfor
    rw [filter_contentLength, List.map_append, List.map_singleton, List.append_left_eq_self,
      List.map_eq_nil_iff, List.filter_eq_nil_iff] at hlength
    have honce : (headers ++ cfg.setHeaders).countP (named (ascii "x-forwarded-for")) ≤ 1 := by
      omega
    refine ⟨fun h hh => Bool.not_eq_true _ ▸ hhost h hh,
      fun h hh => Bool.not_eq_true _ ▸ hlength h hh, honce, fun h hh hnamed => ?_⟩
    have hpos : 0 < (headers ++ cfg.setHeaders).countP (named (ascii "x-forwarded-for")) :=
      List.countP_pos_iff.mpr ⟨h, List.mem_append_left _ hh, hnamed⟩
    have hnil : forwardedFor cfg headers = [] := List.eq_nil_of_length_eq_zero (by omega)
    exact client_of_forwardedFor_eq_nil honce hnil h hh hnamed
  · intro h
    have hnil : forwardedFor cfg headers = [] := forwardedFor_eq_nil h.client
    have hnone : ∀ {p : Bytes × Bytes → Bool} {l : Headers}, (∀ k ∈ l, p k = false) →
        l.filter p = [] := fun hp =>
      List.filter_eq_nil_iff.mpr fun k hk => by rw [hp k hk]; exact Bool.false_ne_true
    refine ⟨?_, ?_, ?_⟩
    · rw [List.countP_eq_length_filter, filter_host, hnone h.host]
      rfl
    · rw [List.countP_eq_length_filter, filter_xff, hnil, List.append_nil,
        ← List.countP_eq_length_filter]
      exact h.forwardedFor
    · rw [filter_contentLength, hnone h.contentLength]
      rfl

/-- The Host of the client is forwarded next to the builder's. -/
theorem host_repeated :
    ¬ ∀ (cfg : ProxyConfig) (headers : Headers) (body : Bytes),
      Unambiguous (requestFields cfg headers body.length) body.length := by
  intro h
  have hhost := (h internalUpstream [(ascii "Host", ascii "a")] []).host
  exact absurd hhost (by decide)

end Counts

end Handler
end RunNginx
