import RunNginx.Lib.LossyText
import RunNginx.Server.Exits

/-!
# Cache keys

A key is host, method and URI with `|` between them.  All three come from the client, and
none of them is free of `|`.

`cacheKey_injective_iff`: the requests of two hosts and methods have different keys exactly
when neither key goes on behind host and method as the other, with bytes that a URI may
begin with.
-/

namespace RunNginx
namespace Handler

open ByteString Limits Request Simd

/-- A client can send a request that is read with this host, method and URI. -/
def Sends (host method uri : Bytes) : Prop :=
  ∃ raw req, parseRequest raw = .ok req ∧
    req.host = host ∧ req.method = method ∧ req.fullUri = uri

/-- The URIs that can be sent, whatever the host and the method are. -/
structure SendableUri (uri : Bytes) : Prop where
  safe : isUriSafe uri = true
  length : uri.length ≤ maxUriLen
  crlfFree : CrlfFree uri

/-- The part of a key in front of the URI. -/
def keyHead (host method : Bytes) : Bytes :=
  host ++ 124 :: (method ++ [124])

/-- The head of the second key is the head of the first and bytes that may be of a URI. -/
def Continues (host method host' method' : Bytes) : Prop :=
  ∃ bytes, keyHead host' method' = keyHead host method ++ bytes ∧ SendableUri bytes

section Uri

theorem crlfFree_text_iff
    (line : RequestLine) :
    CrlfFree line.text ↔
      CrlfFree line.method ∧ CrlfFree line.uri ∧ CrlfFree line.version := by
  rw [RequestLine.text, LossyText.crlfFree_append_cons_iff (by decide) (by decide),
    LossyText.crlfFree_append_cons_iff (by decide) (by decide)]

theorem contains_append
    {pat s : Bytes} (hpat : pat ≠ []) (t : Bytes) (h : contains pat s = true) :
    contains pat (s ++ t) = true := by
  unfold contains at *
  obtain ⟨i, hi⟩ := Option.isSome_iff_exists.mp h
  obtain ⟨hhit, -⟩ := (find_eq_some_iff hpat s i).mp hi
  have hle := (find_split hpat hi).2
  by_contra hnone
  rw [Bool.not_eq_true, Option.isSome_eq_false_iff, Option.isNone_iff_eq_none] at hnone
  refine (find_eq_none_iff hpat _).mp hnone i ?_
  rw [List.drop_append_of_le_length hle]
  exact hhit.trans (List.prefix_append _ _)

/-- What a URI begins with is one, when it consists of whole characters. -/
theorem SendableUri.of_append
    {s t : Bytes} (hutf : Utf8.isUtf8 s = true) (h : SendableUri (s ++ t)) :
    SendableUri s := by
  have hsafe := h.safe
  unfold isUriSafe at hsafe
  rw [Bool.and_eq_true, List.all_eq_true] at hsafe
  refine ⟨?_, ?_, ?_⟩
  · unfold isUriSafe
    rw [Bool.and_eq_true, List.all_eq_true]
    refine ⟨hutf, fun seq hseq => ?_⟩
    have hfree := hsafe.2 seq hseq
    rw [Bool.not_eq_true'] at hfree ⊢
    rw [← Bool.not_eq_true] at hfree ⊢
    exact fun hc => hfree (contains_append (forbidden_ne_nil seq hseq) _ hc)
  · have hlen := h.length
    rw [List.length_append] at hlen
    omega
  · exact LossyText.crlfFree_of_infix (List.infix_append [] s t) h.crlfFree

theorem sendableUri_nil : SendableUri [] :=
  ⟨by decide, by decide, by decide⟩

end Uri

section Requests

variable {host method uri : Bytes}

/-- The parts of a request that is read. -/
theorem parseRequest_ok
    {raw : Bytes} {req : ParsedRequest} (h : parseRequest raw = .ok req) :
    ∃ line headers body rest n,
      raw = line.text ++ crlf ++ rest ∧ CrlfFree line.text ∧ 32 ∉ line.method ∧
        32 ∉ line.version ∧ line.Within ∧ isUriSafe line.uri = true ∧
        parseHeaders rest = .ok (headers, n) ∧
        req = ParsedRequest.ofReceived ⟨line, headers, body⟩ := by
  unfold parseRequest at h
  split at h
  · cases h
  rename_i line len hline
  split at h
  · cases h
  rename_i hsafe
  rw [Bool.not_eq_true', Bool.not_eq_false] at hsafe
  split at h
  · cases h
  rename_i received hreceived
  obtain ⟨⟨rest, hraw⟩, hfree, hmethod, hversion, hwithin, hlen⟩ :=
    (parseRequestLine_eq_ok_iff raw line len).mp hline
  have hdrop : raw.drop len = rest := by
    rw [hraw, hlen, ← List.drop_drop]
    simp [crlf]
  unfold readBehindLine at hreceived
  rw [hdrop] at hreceived
  split at hreceived
  · cases hreceived
  rename_i headers n hheaders
  exact ⟨line, headers, _, rest, n, hraw, hfree, hmethod, hversion, hwithin, hsafe, hheaders,
    by rw [← Except.ok.inj h, ← Except.ok.inj hreceived]⟩

theorem Sends.sendableUri
    (h : Sends host method uri) :
    SendableUri uri := by
  obtain ⟨raw, req, hok, -, -, rfl⟩ := h
  obtain ⟨line, headers, body, rest, n, -, hfree, -, -, hwithin, hsafe, -, rfl⟩ :=
    parseRequest_ok hok
  have hutf : Utf8.isUtf8 line.uri = true := by
    unfold isUriSafe at hsafe
    exact (Bool.and_eq_true_iff.mp hsafe).1
  have huri : (ParsedRequest.ofReceived ⟨line, headers, body⟩).fullUri = line.uri :=
    Utf8.fromUtf8Lossy_of_isUtf8 hutf
  rw [huri]
  exact ⟨hsafe, hwithin.2.2.1, ((crlfFree_text_iff line).mp hfree).2.1⟩

/-- Host and method do not restrict the URI. -/
theorem Sends.with_uri
    (h : Sends host method uri) {uri' : Bytes} (huri : SendableUri uri') :
    Sends host method uri' := by
  obtain ⟨raw, req, hok, hhost, hmethod, -⟩ := h
  obtain ⟨line, headers, body, rest, n, -, hfree, hm, hv, hwithin, -, hheaders, rfl⟩ :=
    parseRequest_ok hok
  obtain ⟨hfm, -, hfv⟩ := (crlfFree_text_iff line).mp hfree
  let line' : RequestLine := { line with uri := uri' }
  have hwithin' : line'.Within := by
    obtain ⟨-, hlm, -, hlv⟩ := hwithin
    refine ⟨?_, hlm, huri.length, hlv⟩
    have hlu := huri.length
    simp only [RequestLine.text, line', List.length_append, List.length_cons, maxRequestLine,
      maxMethodLen, maxUriLen, maxVersionLen] at *
    omega
  have hline : parseRequestLine (line'.text ++ crlf ++ rest) =
      .ok (line', line'.text.length + 2) :=
    (parseRequestLine_eq_ok_iff _ _ _).mpr ⟨⟨rest, rfl⟩,
      (crlfFree_text_iff line').mpr ⟨hfm, huri.crlfFree, hfv⟩, hm, hv, hwithin', rfl⟩
  have hdrop : (line'.text ++ crlf ++ rest).drop (line'.text.length + 2) = rest := by
    rw [← List.drop_drop]
    simp [crlf]
  have hutf : Utf8.isUtf8 uri' = true := by
    have hsafe := huri.safe
    unfold isUriSafe at hsafe
    exact (Bool.and_eq_true_iff.mp hsafe).1
  refine ⟨line'.text ++ crlf ++ rest, ParsedRequest.ofReceived ⟨line', headers,
    bodyRaw (line'.text ++ crlf ++ rest) (line'.text.length + 2 + n)
      (contentLen (headerStrings headers))⟩, ?_, hhost, hmethod,
    Utf8.fromUtf8Lossy_of_isUtf8 hutf⟩
  unfold parseRequest readBehindLine
  rw [hline]
  dsimp only
  rw [hdrop, hheaders]
  have hsafe : isUriSafe line'.uri = true := huri.safe
  rw [hsafe]
  rfl

end Requests

section Keys

open Cache.ResponseCache

variable {host method uri host' method' uri' : Bytes}

theorem cacheKey_eq
    (host method uri : Bytes) :
    cacheKey host method uri = keyHead host method ++ uri := by
  simp [cacheKey, keyHead]

theorem keyHead_concat
    (host method : Bytes) :
    keyHead host method = (host ++ 124 :: method) ++ [124] := by
  simp [keyHead]

/-- The bytes a key head goes on with end with the separator. -/
theorem continues_of_sendable
    {bytes : Bytes} (hhead : keyHead host' method' = keyHead host method ++ bytes)
    (huri : SendableUri (bytes ++ uri')) :
    Continues host method host' method' := by
  refine ⟨bytes, hhead, ?_⟩
  rcases List.eq_nil_or_concat' bytes with rfl | ⟨init, last, rfl⟩
  · exact sendableUri_nil
  · have hlast : last = 124 := by
      have h := congrArg List.getLast? hhead
      rw [keyHead_concat, ← List.append_assoc, List.getLast?_concat, List.getLast?_concat] at h
      exact (Option.some.inj h).symm
    subst hlast
    have hutf : Utf8.isUtf8 (init ++ 124 :: uri') = true := by
      have hsafe := huri.safe
      unfold isUriSafe at hsafe
      simpa using (Bool.and_eq_true_iff.mp hsafe).1
    have hinit : Utf8.isUtf8 init = true := Utf8.isUtf8_append_ascii (by decide) hutf
    have hbar : Utf8.isUtf8 [124] = true := by decide
    exact huri.of_append (Utf8.isUtf8_append hinit hbar)

/--
For two hosts and methods, no two requests share a key unless they are the same: exactly
when host and method are the same or neither key head continues the other.
-/
theorem cacheKey_injective_iff
    {sent sent' : Bytes} (hsends : Sends host method sent) (hsends' : Sends host' method' sent') :
    (∀ uri uri', Sends host method uri → Sends host' method' uri' →
        cacheKey host method uri = cacheKey host' method' uri' →
        (host, method, uri) = (host', method', uri')) ↔
      (host, method) = (host', method') ∨
        ¬ Continues host method host' method' ∧ ¬ Continues host' method' host method := by
  simp only [cacheKey_eq]
  constructor
  · intro h
    refine or_iff_not_imp_left.mpr fun hne => ⟨?_, ?_⟩
    · -- the second request has the empty URI, the first one the bytes in between
      rintro ⟨bytes, hhead, hbytes⟩
      have heq := h bytes [] (hsends.with_uri hbytes) (hsends'.with_uri sendableUri_nil)
        (by rw [hhead, List.append_nil])
      simp only [Prod.mk.injEq] at heq hne
      exact hne ⟨heq.1, heq.2.1⟩
    · rintro ⟨bytes, hhead, hbytes⟩
      have heq := h [] bytes (hsends.with_uri sendableUri_nil) (hsends'.with_uri hbytes)
        (by rw [hhead, List.append_nil])
      simp only [Prod.mk.injEq] at heq hne
      exact hne ⟨heq.1, heq.2.1⟩
  · rintro (heq | ⟨hfirst, hsecond⟩) uri uri' huri huri' hkey
    · obtain ⟨rfl, rfl⟩ := Prod.mk.inj heq
      rw [List.append_cancel_left hkey]
    · rcases List.append_eq_append_iff.mp hkey with ⟨bytes, hhead, rfl⟩ | ⟨bytes, hhead, rfl⟩
      · exact absurd (continues_of_sendable hhead huri.sendableUri) hfirst
      · exact absurd (continues_of_sendable hhead huri'.sendableUri) hsecond

/-- `GET /x|GET|/y` of the host `a`. -/
def firstRequest : Bytes :=
  requestOf ["GET /x|GET|/y HTTP/1.1", "Host: a"]

/-- `GET /y` of the host `a|GET|/x`. -/
def secondRequest : Bytes :=
  requestOf ["GET /y HTTP/1.1", "Host: a|GET|/x"]

theorem sends_of_read
    {raw : Bytes}
    (h : (parseRequest raw).toOption.map (fun req => (req.host, req.method, req.fullUri)) =
      some (host, method, uri)) :
    Sends host method uri := by
  cases hparsed : parseRequest raw with
  | error e =>
      rw [hparsed] at h
      cases h
  | ok req =>
      rw [hparsed] at h
      simp only [Except.toOption, Option.map_some, Option.some.injEq, Prod.mk.injEq] at h
      exact ⟨raw, req, hparsed, h⟩

theorem sends_first : Sends (ascii "a") (ascii "GET") (ascii "/x|GET|/y") := by
  have hread : (parseRequest firstRequest).toOption.map (fun req =>
      (req.host, req.method, req.fullUri)) =
        some (ascii "a", ascii "GET", ascii "/x|GET|/y") := by decide +kernel
  exact sends_of_read hread

theorem sends_second : Sends (ascii "a|GET|/x") (ascii "GET") (ascii "/y") := by
  have hread : (parseRequest secondRequest).toOption.map (fun req =>
      (req.host, req.method, req.fullUri)) =
        some (ascii "a|GET|/x", ascii "GET", ascii "/y") := by decide +kernel
  exact sends_of_read hread

theorem cacheKey_injective_iff_example :
    (∀ uri uri', Sends (ascii "a") (ascii "GET") uri →
        Sends (ascii "a|GET|/x") (ascii "GET") uri' →
        cacheKey (ascii "a") (ascii "GET") uri = cacheKey (ascii "a|GET|/x") (ascii "GET") uri' →
        (ascii "a", ascii "GET", uri) = (ascii "a|GET|/x", ascii "GET", uri')) ↔
      (ascii "a", ascii "GET") = (ascii "a|GET|/x", ascii "GET") ∨
        ¬ Continues (ascii "a") (ascii "GET") (ascii "a|GET|/x") (ascii "GET") ∧
          ¬ Continues (ascii "a|GET|/x") (ascii "GET") (ascii "a") (ascii "GET") :=
  cacheKey_injective_iff sends_first sends_second

/-- Two requests of different hosts for different URIs that share a key. -/
theorem cacheKey_not_injective :
    ¬ ∀ host method uri host' method' uri', Sends host method uri → Sends host' method' uri' →
      cacheKey host method uri = cacheKey host' method' uri' →
      (host, method, uri) = (host', method', uri') := by
  intro h
  exact absurd (h _ _ _ _ _ _ sends_first sends_second (by decide)) (by decide)

end Keys

end Handler
end RunNginx
