import Mathlib.Data.List.TakeWhile
import RunNginx.Lib.LfLines
import RunNginx.Lib.LossyText
import RunNginx.Server.Framing
import RunNginx.Server.Transparency
import RunNginx.Simd.Grammar

/-!
# Hop-by-hop fields of a forwarded request

The request builder leaves out headers by their names.  The parser ends lines at CRLF only,
so names and values may hold a bare LF, and what stands behind it is a line for an upstream
that ends lines there.

`hopFree_iff`: the upstream is sent no hop-by-hop line but the builder's own exactly when no
such line is hidden behind a LF of the request, and none is configured.
-/

namespace RunNginx
namespace Handler

open ByteString HttpMessage LfLines Proxy Request

/-- The strings of a proxy configuration hold no CR and no LF. -/
structure CleanProxy (cfg : ProxyConfig) : Prop where
  scheme : OneLine cfg.upstream.scheme
  host : OneLine (cfg.upstream.hostStr.getD [])
  path : OneLine cfg.upstream.path
  setHeaders : ∀ h ∈ cfg.setHeaders, OneLine h.1 ∧ OneLine h.2

/-- The lines at LF of the head of a message, up to its blank line. -/
def headLines (message : Bytes) : List Bytes :=
  match parseHead message with
  | some (lines, _) => splitByte 10 (joinLines lines)
  | none => splitByte 10 message

def connectionName : List Bytes :=
  [ascii "connection"]

/-- The names that must not occur at all. -/
def perHopNames : List Bytes :=
  [ascii "transfer-encoding", ascii "te", ascii "trailers", ascii "upgrade",
    ascii "keep-alive", ascii "proxy-authenticate", ascii "proxy-authorization"]

/-- The connection line that the builder writes. -/
def ownConnection : Bytes :=
  ascii "Connection: keep-alive" ++ [13]

/-- No hop-by-hop line but the builder's own connection line. -/
structure HopFree (message : Bytes) : Prop where
  perHop : ∀ line ∈ headLines message, isFieldOf (isNamed perHopNames) line = false
  connection : (headLines message).filter (isFieldOf (isNamed connectionName)) = [ownConnection]

/-- The request that is built for the upstream. -/
def forwarded (cfg : ProxyConfig) (req : ParsedRequest) (locPrefix body : Bytes) : Bytes :=
  buildProxyRequest cfg req.method (buildUpstreamPath cfg req.path locPrefix) req.headers body

/-- No line at LF of these texts is a hop-by-hop line. -/
structure NothingHidden (cfg : ProxyConfig) (req : ParsedRequest) (locPrefix : Bytes) : Prop where
  requestLine : fieldsOf (isNamed hopByHop)
    (req.method ++ 32 :: (buildUpstreamPath cfg req.path locPrefix ++ ascii " HTTP/1.1")) = []
  /-- Behind a LF of a header that is forwarded. -/
  headers : ∀ h ∈ req.headers, isNamed hopByHop h.1 = false →
    ∀ line ∈ (splitByte 10 (Response.headerLine h)).tail,
      isFieldOf (isNamed hopByHop) line = false
  setHeaders : ∀ h ∈ cfg.setHeaders, isFieldOf (isNamed hopByHop) (Response.headerLine h) = false

section Names

theorem isNamed_hopByHop
    (name : Bytes) :
    isNamed hopByHop name = (isNamed connectionName name || isNamed perHopNames name) := by
  have hperm : hopByHop.Perm (connectionName ++ perHopNames) := by decide
  unfold isNamed
  rw [hperm.any_eq, List.any_append]

theorem isFieldOf_hopByHop
    (line : Bytes) :
    isFieldOf (isNamed hopByHop) line =
      (isFieldOf (isNamed connectionName) line || isFieldOf (isNamed perHopNames) line) := by
  unfold isFieldOf
  cases lineName line with
  | none => rfl
  | some name => exact isNamed_hopByHop name

/-- Both parts at once: of the hop-by-hop lines, there is the builder's own. -/
theorem hopFree_iff_filter
    (message : Bytes) :
    HopFree message ↔
      (headLines message).filter (isFieldOf (isNamed hopByHop)) = [ownConnection] := by
  constructor
  · rintro ⟨hperHop, hconnection⟩
    rw [← hconnection]
    refine List.filter_congr fun line hline => ?_
    rw [isFieldOf_hopByHop, hperHop line hline, Bool.or_false]
  · intro h
    have hown : ∀ line ∈ headLines message, isFieldOf (isNamed hopByHop) line = true →
        line = ownConnection := fun line hline hfield =>
      List.mem_singleton.mp (h ▸ List.mem_filter.mpr ⟨hline, hfield⟩)
    refine ⟨fun line hline => ?_, ?_⟩
    · by_contra hfield
      rw [Bool.not_eq_false] at hfield
      have heq := hown line hline (by rw [isFieldOf_hopByHop, hfield, Bool.or_true])
      rw [heq] at hfield
      exact absurd hfield (by decide)
    · have hsub : (headLines message).filter (isFieldOf (isNamed connectionName)) =
          ((headLines message).filter (isFieldOf (isNamed hopByHop))).filter
            (isFieldOf (isNamed connectionName)) := by
        rw [List.filter_filter]
        refine List.filter_congr fun line _ => ?_
        rw [isFieldOf_hopByHop]
        cases isFieldOf (isNamed connectionName) line <;> simp
      rw [hsub, h]
      decide

end Names

section Read

variable {raw : Bytes} {r : Request.Received}

/-- What a header that was read looks like, as text. -/
structure ReadHeader (h : Bytes × Bytes) : Prop where
  colonFree : (58 : UInt8) ∉ h.1
  trimmed : trimBy isOws h.1 = h.1
  name : CrlfFree h.1
  value : CrlfFree h.2

theorem isOws_lt
    {b : UInt8} (h : isOws b = true) :
    b < 0x80 := by
  simp only [isOws, Bool.or_eq_true, beq_iff_eq] at h
  rcases h with rfl | rfl <;> decide

theorem readHeader_of_splitLine
    {line : Bytes} (h : Simd.IsHeaderLine line) :
    ReadHeader (Utf8.fromUtf8Lossy (Simd.splitLine line).name,
      Utf8.fromUtf8Lossy (Simd.splitLine line).value) where
  colonFree := by
    intro hmem
    have hname := LossyText.mem_of_mem_lossy (by decide) hmem
    have hfront := (LossyText.trimBy_infix Simd.isBlank _).subset hname
    have hne := List.mem_takeWhile_imp hfront
    simp at hne
  trimmed := LossyText.trimBy_lossy (fun b hb => isOws_lt hb) _
  name := by
    refine LossyText.crlfFree_lossy (LossyText.crlfFree_of_infix ?_ h.crlfFree)
    exact (LossyText.trimBy_infix _ _).trans (List.takeWhile_prefix _).isInfix
  value := by
    refine LossyText.crlfFree_lossy (LossyText.crlfFree_of_infix ?_ h.crlfFree)
    exact (LossyText.trimBy_infix _ _).trans
      ((List.drop_suffix 1 _).trans (List.dropWhile_suffix _)).isInfix

/-- The texts of a request that was read. -/
structure ReadRequest (req : ParsedRequest) : Prop where
  method : CrlfFree req.method
  path : CrlfFree req.path
  headers : ∀ h ∈ req.headers, ReadHeader h

theorem readRequest_texts
    (h : readRequest raw = .ok r) :
    ReadRequest (ParsedRequest.ofReceived r) := by
  unfold readRequest at h
  split at h
  · cases h
  rename_i line len hline
  obtain ⟨-, hfree, -, -, -, -⟩ := (Simd.parseRequestLine_eq_ok_iff raw line len).mp hline
  rw [Simd.RequestLine.text, LossyText.crlfFree_append_cons_iff (by decide) (by decide),
    LossyText.crlfFree_append_cons_iff (by decide) (by decide)] at hfree
  unfold readBehindLine at h
  split at h
  · cases h
  rename_i headers n hheaders
  obtain ⟨-, lines, rest, -, -, rfl, hlines⟩ := (Simd.parseHeaders_eq_ok_iff _ _ _).mp hheaders
  obtain rfl := Except.ok.inj h
  refine ⟨LossyText.crlfFree_lossy hfree.1,
    LossyText.crlfFree_of_infix (ParsedRequest.splitUri_prefix _).isInfix (LossyText.crlfFree_lossy hfree.2.1), ?_⟩
  intro h hh
  obtain ⟨k, hk, rfl⟩ := List.mem_map.mp hh
  obtain ⟨line, hline, rfl⟩ := List.mem_map.mp hk
  exact readHeader_of_splitLine (hlines.line line hline)

end Read

section Fields

variable {cfg : ProxyConfig} {req : ParsedRequest} {h : Bytes × Bytes}

/-- Of a header that is forwarded, the first line at LF is the header itself, or no field. -/
theorem isFieldOf_firstLine
    (hread : ReadHeader h) (hforwarded : isNamed hopByHop h.1 = false) :
    isFieldOf (isNamed hopByHop) ((Response.headerLine h).takeWhile (· != 10)) = false := by
  have hall : ∀ {s : Bytes}, (10 : UInt8) ∉ s → ∀ b ∈ s, (b != 10) = true := fun hs b hb =>
    bne_iff_ne.mpr fun heq => hs (heq ▸ hb)
  unfold isFieldOf
  rw [Response.headerLine_eq]
  by_cases hlf : (10 : UInt8) ∈ h.1
  · -- the name goes on behind the LF, so there is no colon in front of it
    obtain ⟨u, v, huv, hu⟩ := List.eq_append_cons_of_mem hlf
    have hfree : (58 : UInt8) ∉ u := by
      intro hmem
      exact hread.colonFree (by rw [huv]; simp [hmem])
    rw [huv, List.append_assoc, List.takeWhile_append_of_pos (hall hu), List.cons_append,
      List.takeWhile_cons, bne_self_eq_false, if_neg Bool.false_ne_true, List.append_nil,
      lineName_of_not_mem hfree]
    rfl
  · rw [List.takeWhile_append_of_pos (hall hlf), List.takeWhile_cons, if_pos (by decide),
      lineName_append_cons hread.colonFree, hread.trimmed]
    exact hforwarded

theorem fieldsOf_clientHeader_iff
    (hread : ReadHeader h) (hforwarded : isNamed hopByHop h.1 = false) :
    fieldsOf (isNamed hopByHop) (Response.headerLine h) = [] ↔
      ∀ line ∈ (splitByte 10 (Response.headerLine h)).tail,
        isFieldOf (isNamed hopByHop) line = false := by
  obtain ⟨pieces, hpieces⟩ := splitByte_eq_cons 10 (Response.headerLine h)
  rw [fieldsOf, hpieces, List.tail_cons, List.filter_cons,
    isFieldOf_firstLine hread hforwarded, if_neg Bool.false_ne_true, List.filter_eq_nil_iff]
  simp only [Bool.not_eq_true]

theorem fieldsOf_setHeader_iff
    (hclean : OneLine h.1 ∧ OneLine h.2) :
    fieldsOf (isNamed hopByHop) (Response.headerLine h) = [] ↔
      isFieldOf (isNamed hopByHop) (Response.headerLine h) = false := by
  rw [fieldsOf_of_not_mem _ (not_lf_headerLine hclean.1.2 hclean.2.2), List.filter_singleton]
  cases isFieldOf (isNamed hopByHop) (Response.headerLine h) <;> simp

/-- A field that the builder names itself. -/
theorem fieldsOf_ownField
    {name value : Bytes} (hcolon : (58 : UInt8) ∉ name)
    (hname : isNamed hopByHop (trimBy isOws name) = false)
    (hlf : (10 : UInt8) ∉ name ++ 58 :: value) :
    fieldsOf (isNamed hopByHop) (name ++ 58 :: value) = [] := by
  have hfield : isFieldOf (isNamed hopByHop) (name ++ 58 :: value) = false := by
    unfold isFieldOf
    rw [lineName_append_cons hcolon]
    exact hname
  rw [fieldsOf_of_not_mem _ hlf, List.filter_singleton, hfield]
  rfl

/-- The header that is repeated is one of the client's, and that one is forwarded. -/
theorem mem_of_forwardedFor
    (hmem : h ∈ forwardedFor cfg req.headers) :
    h.1 = ascii "X-Forwarded-For" ∧
      ∃ k ∈ req.headers, eqIgnoreCase k.1 (ascii "x-forwarded-for") = true ∧ k.2 = h.2 := by
  unfold forwardedFor at hmem
  dsimp only at hmem
  split at hmem
  · cases hmem
  · rename_i hset
    obtain rfl := List.mem_singleton.mp hmem
    rw [Bool.or_eq_true, not_or] at hset
    refine ⟨rfl, ?_⟩
    unfold getHeader at hset ⊢
    cases hfind : req.headers.find? fun h => eqIgnoreCase h.1 (ascii "x-forwarded-for") with
    | none =>
        rw [hfind] at hset
        exact absurd rfl hset.2
    | some k =>
        have hname := List.find?_some hfind
        exact ⟨k, List.mem_of_find?_eq_some hfind, hname, rfl⟩

/-- A name that differs in its case only is no hop-by-hop name and holds no LF. -/
theorem forwardedFor_name
    {name : Bytes} (hname : eqIgnoreCase name (ascii "x-forwarded-for") = true) :
    isNamed hopByHop name = false ∧ (10 : UInt8) ∉ name := by
  have hlower : toAsciiLower name = toAsciiLower (ascii "x-forwarded-for") := beq_iff_eq.mp hname
  constructor
  · unfold isNamed eqIgnoreCase
    rw [hlower]
    decide
  · exact not_mem_of_eqIgnoreCase rfl (by decide) hname

/-- Nothing is hidden in the repeated header that is not hidden in the client's. -/
theorem fieldsOf_forwardedFor
    (hread : ReadRequest req)
    (hheaders : ∀ k ∈ req.headers, isNamed hopByHop k.1 = false →
      ∀ line ∈ (splitByte 10 (Response.headerLine k)).tail,
        isFieldOf (isNamed hopByHop) line = false)
    (hmem : h ∈ forwardedFor cfg req.headers) :
    fieldsOf (isNamed hopByHop) (Response.headerLine h) = [] := by
  obtain ⟨hname, k, hk, hkname, hkvalue⟩ := mem_of_forwardedFor hmem
  obtain ⟨hforwarded, hlf⟩ := forwardedFor_name hkname
  have hself : ReadHeader h :=
    ⟨by rw [hname]; decide, by rw [hname]; decide, by rw [hname]; decide,
      hkvalue ▸ (hread.headers k hk).value⟩
  have hname' : isNamed hopByHop h.1 = false := by
    rw [hname]
    decide +kernel
  rw [fieldsOf_clientHeader_iff hself hname']
  have htail : ∀ {n : Bytes}, (10 : UInt8) ∉ n → ∀ v : Bytes,
      (splitByte 10 (n ++ 58 :: 32 :: v)).tail = (splitByte 10 v).tail := by
    intro n hn v
    rw [show n ++ 58 :: 32 :: v = (n ++ [58, 32]) ++ v by simp]
    exact tail_splitByte_append (by simpa using hn) v
  have hclient := hheaders k hk hforwarded
  rw [Response.headerLine_eq, htail hlf, hkvalue] at hclient
  rw [Response.headerLine_eq, htail (by rw [hname]; decide)]
  exact hclient

end Fields

section Forwarded

variable {cfg : ProxyConfig} {req : ParsedRequest}

theorem crlfFree_upstreamPath
    (hclean : CleanProxy cfg) (hread : ReadRequest req) (locPrefix : Bytes) :
    CrlfFree (buildUpstreamPath cfg req.path locPrefix) := by
  have hsuffix : CrlfFree (((stripPrefix locPrefix req.path).getD req.path).dropWhile isSlash) := by
    refine LossyText.crlfFree_of_infix ((List.dropWhile_suffix _).isInfix.trans ?_) hread.path
    cases hstrip : stripPrefix locPrefix req.path with
    | none => exact List.infix_refl _
    | some suffix =>
        rw [stripPrefix_eq_some_iff.mp hstrip]
        exact (List.suffix_append _ _).isInfix
  unfold buildUpstreamPath
  dsimp only
  split
  · have hslash : ascii "/" = [47] := by decide
    rw [hslash, List.append_assoc, List.singleton_append,
      LossyText.crlfFree_append_cons_iff (by decide) (by decide)]
    refine ⟨crlfFree_of_not_mem fun hmem => hclean.path.2 ?_, hsuffix⟩
    unfold trimEndSlashes at hmem
    exact List.mem_reverse.mp
      ((List.dropWhile_suffix _).subset (List.mem_reverse.mp hmem))
  · exact hread.path

theorem crlfFree_headerLine
    {h : Bytes × Bytes} (hname : CrlfFree h.1) (hvalue : CrlfFree h.2) :
    CrlfFree (Response.headerLine h) := by
  rw [Response.headerLine_eq, LossyText.crlfFree_append_cons_iff (by decide) (by decide)]
  exact ⟨hname, (LossyText.crlfFree_append_cons_iff (by decide) (by decide) [] h.2).mpr
    ⟨crlfFree_of_not_mem nofun, hvalue⟩⟩

theorem hostLine_eq
    (cfg : ProxyConfig) :
    ascii "Host: " ++ cfg.upstream.hostStr.getD [] ++ ascii ":" ++
        Decimal.render (cfg.upstream.portOrKnownDefault.getD 80) =
      ascii "Host" ++ 58 :: (32 :: (cfg.upstream.hostStr.getD [] ++ 58 ::
        Decimal.render (cfg.upstream.portOrKnownDefault.getD 80))) := by
  have hhost : ascii "Host: " = ascii "Host" ++ [58, 32] := by decide
  have hcolon : ascii ":" = [58] := by decide
  rw [hhost, hcolon]
  simp

theorem lengthLine_eq
    (n : Nat) :
    ascii "Content-Length: " ++ Decimal.render n =
      ascii "Content-Length" ++ 58 :: (32 :: Decimal.render n) := by
  have hname : ascii "Content-Length: " = ascii "Content-Length" ++ [58, 32] := by decide
  rw [hname]
  simp

theorem not_lf_hostLine
    (hclean : CleanProxy cfg) :
    (10 : UInt8) ∉ ascii "Host" ++ 58 :: (32 :: (cfg.upstream.hostStr.getD [] ++ 58 ::
      Decimal.render (cfg.upstream.portOrKnownDefault.getD 80))) := by
  have hname : (10 : UInt8) ∉ ascii "Host" := by decide
  simp [hname, hclean.host.2, not_lf_render]

theorem not_lf_lengthLine
    (n : Nat) :
    (10 : UInt8) ∉ ascii "Content-Length" ++ 58 :: (32 :: Decimal.render n) := by
  have hname : (10 : UInt8) ∉ ascii "Content-Length" := by decide
  simp [hname, not_lf_render]

/-- The lines of a forwarded request hold no line end, and none of them is empty. -/
theorem requestLines_lines
    (hclean : CleanProxy cfg) (hread : ReadRequest req) (locPrefix : Bytes) (len : Nat) :
    ∀ l ∈ requestLines cfg req.method (buildUpstreamPath cfg req.path locPrefix) req.headers len,
      CrlfFree l ∧ l ≠ [] := by
  intro l hl
  unfold requestLines at hl
  rw [hostLine_eq, lengthLine_eq] at hl
  rw [List.cons_append, List.cons_append, List.mem_cons, List.mem_cons, List.mem_append] at hl
  rcases hl with rfl | rfl | hl | hl
  · have hversion : ascii " HTTP/1.1" = 32 :: ascii "HTTP/1.1" := by decide
    rw [hversion]
    refine ⟨?_, by simp⟩
    rw [LossyText.crlfFree_append_cons_iff (by decide) (by decide),
      LossyText.crlfFree_append_cons_iff (by decide) (by decide)]
    exact ⟨hread.method, crlfFree_upstreamPath hclean hread locPrefix, by decide⟩
  · exact ⟨crlfFree_of_not_mem (not_lf_hostLine hclean), by simp⟩
  · obtain ⟨h, hh, rfl⟩ := List.mem_map.mp hl
    refine ⟨?_, headerLine_ne_nil h⟩
    rcases List.mem_append.mp hh with hh | hh
    · rcases List.mem_append.mp hh with hh | hh
      · have hk := hread.headers h (List.mem_of_mem_filter hh)
        exact crlfFree_headerLine hk.name hk.value
      · have hk := hclean.setHeaders h hh
        exact crlfFree_of_not_mem (not_lf_headerLine hk.1.2 hk.2.2)
    · obtain ⟨hname, k, hk, -, hvalue⟩ := mem_of_forwardedFor hh
      refine crlfFree_headerLine ?_ (hvalue ▸ (hread.headers k hk).value)
      rw [hname]
      decide
  · rw [List.mem_cons, List.mem_singleton] at hl
    rcases hl with rfl | rfl
    · exact ⟨crlfFree_of_not_mem (not_lf_lengthLine len), by simp⟩
    · exact ⟨by decide, by decide⟩

theorem headLines_forwarded
    (hclean : CleanProxy cfg) (hread : ReadRequest req) (locPrefix body : Bytes) :
    headLines (forwarded cfg req locPrefix body) =
      splitByte 10 (joinLines (requestLines cfg req.method
        (buildUpstreamPath cfg req.path locPrefix) req.headers body.length)) := by
  have hlines := requestLines_lines hclean hread locPrefix body.length
  unfold headLines forwarded buildProxyRequest
  rw [parseHead_joinLines (fun l hl => (hlines l hl).1) (fun l hl => (hlines l hl).2)]

/-- Line by line: what the builder writes in front of its connection line has no such field. -/
theorem fieldsOf_requestLines_iff
    (hclean : CleanProxy cfg) (hread : ReadRequest req) (locPrefix : Bytes) (len : Nat) :
    fieldsOf (isNamed hopByHop) (joinLines (requestLines cfg req.method
        (buildUpstreamPath cfg req.path locPrefix) req.headers len)) = [ownConnection] ↔
      NothingHidden cfg req locPrefix := by
  let before : List Bytes :=
    (req.method ++ 32 :: (buildUpstreamPath cfg req.path locPrefix ++ ascii " HTTP/1.1")) ::
      (ascii "Host: " ++ cfg.upstream.hostStr.getD [] ++ ascii ":" ++
        Decimal.render (cfg.upstream.portOrKnownDefault.getD 80)) ::
      ((req.headers.filter fun h => !isNamed hopByHop h.1) ++ cfg.setHeaders ++
        forwardedFor cfg req.headers).map Response.headerLine ++
      [ascii "Content-Length: " ++ Decimal.render len]
  have hlines : requestLines cfg req.method (buildUpstreamPath cfg req.path locPrefix)
      req.headers len = before ++ [ascii "Connection: keep-alive"] := by
    simp [requestLines, before]
  have hown : fieldsOf (isNamed hopByHop) (ascii "Connection: keep-alive" ++ [13]) =
      [ownConnection] := by decide
  have hend : fieldsOf (isNamed hopByHop) [] = [] := by decide
  have hsum : fieldsOf (isNamed hopByHop) (joinLines (before ++ [ascii "Connection: keep-alive"])) =
      before.flatMap (fun line => fieldsOf (isNamed hopByHop) (line ++ [13])) ++
        [ownConnection] := by
    rw [← List.append_nil (joinLines _), fieldsOf_joinLines, hend, List.append_nil,
      List.flatMap_append, List.flatMap_singleton, hown]
  rw [hlines, hsum, List.append_left_eq_self, fieldsOf_flatMap_eq_nil_iff]
  have hmem : ∀ line, line ∈ before ↔
      ((line = req.method ++ 32 ::
            (buildUpstreamPath cfg req.path locPrefix ++ ascii " HTTP/1.1") ∨
          line = ascii "Host: " ++ cfg.upstream.hostStr.getD [] ++ ascii ":" ++
            Decimal.render (cfg.upstream.portOrKnownDefault.getD 80)) ∨
        ∃ h, ((h ∈ req.headers ∧ isNamed hopByHop h.1 = false) ∨ h ∈ cfg.setHeaders ∨
          h ∈ forwardedFor cfg req.headers) ∧ Response.headerLine h = line) ∨
        line = ascii "Content-Length: " ++ Decimal.render len := by
    intro line
    simp only [before, List.mem_append, List.mem_cons, List.mem_map, List.mem_filter,
      List.not_mem_nil, or_false, or_assoc, Bool.not_eq_true']
  constructor
  · intro h
    refine ⟨h _ ((hmem _).mpr (.inl (.inl (.inl rfl)))), fun k hk hforwarded => ?_,
      fun k hk => ?_⟩
    · rw [← fieldsOf_clientHeader_iff (hread.headers k hk) hforwarded]
      exact h _ ((hmem _).mpr (.inl (.inr ⟨k, .inl ⟨hk, hforwarded⟩, rfl⟩)))
    · rw [← fieldsOf_setHeader_iff (hclean.setHeaders k hk)]
      exact h _ ((hmem _).mpr (.inl (.inr ⟨k, .inr (.inl hk), rfl⟩)))
  · intro h line hline
    rcases (hmem line).mp hline with ((rfl | rfl) | ⟨k, hk | hk | hk, rfl⟩) | rfl
    · exact h.requestLine
    · rw [hostLine_eq]
      exact fieldsOf_ownField (by decide) (by decide) (not_lf_hostLine hclean)
    · rw [fieldsOf_clientHeader_iff (hread.headers k hk.1) hk.2]
      exact h.headers k hk.1 hk.2
    · rw [fieldsOf_setHeader_iff (hclean.setHeaders k hk)]
      exact h.setHeaders k hk
    · exact fieldsOf_forwardedFor hread h.headers hk
    · rw [lengthLine_eq]
      exact fieldsOf_ownField (by decide) (by decide) (not_lf_lengthLine len)

/--
A forwarded request has no hop-by-hop line but the builder's own if and only if no such line
stands behind a LF of the request, and none is configured.
-/
theorem hopFree_iff
    {raw : Bytes} {r : Request.Received} (hread : readRequest raw = .ok r)
    (hclean : CleanProxy cfg) (locPrefix body : Bytes) :
    HopFree (forwarded cfg (ParsedRequest.ofReceived r) locPrefix body) ↔
      NothingHidden cfg (ParsedRequest.ofReceived r) locPrefix := by
  have htexts := readRequest_texts hread
  rw [hopFree_iff_filter, headLines_forwarded hclean htexts]
  exact fieldsOf_requestLines_iff hclean htexts locPrefix body.length

theorem cleanProxy_internalUpstream : CleanProxy internalUpstream where
  scheme := by decide
  host := by decide
  path := by decide
  setHeaders := by decide

/-- `GET /a` of the host `a`. -/
def plainReceived : Request.Received :=
  ⟨⟨ascii "GET", ascii "/a", ascii "HTTP/1.1"⟩, [⟨ascii "Host", ascii "a"⟩], []⟩

theorem hopFree_iff_example :
    HopFree (forwarded internalUpstream (ParsedRequest.ofReceived plainReceived) [] []) ↔
      NothingHidden internalUpstream (ParsedRequest.ofReceived plainReceived) [] := by
  have hread : readRequest (requestOf ["GET /a HTTP/1.1", "Host: a"]) = .ok plainReceived := by
    decide
  exact hopFree_iff hread cleanProxy_internalUpstream [] []

/-- A header with a LF in its value. -/
def smuggled : Bytes :=
  requestOf ["GET /a HTTP/1.1", "Host: a", "X-A: b\nTransfer-Encoding: chunked"]

/-- The upstream is sent a Transfer-Encoding of the client's. -/
theorem smuggled_not_hopFree :
    ¬ ∀ raw r cfg locPrefix body, readRequest raw = .ok r → CleanProxy cfg →
      HopFree (forwarded cfg (ParsedRequest.ofReceived r) locPrefix body) := by
  intro h
  have hbad : (readRequest smuggled).toOption.map (fun r =>
      (headLines (forwarded internalUpstream (ParsedRequest.ofReceived r) [] [])).any
        (isFieldOf (isNamed perHopNames))) = some true := by decide +kernel
  cases hread : readRequest smuggled with
  | error e =>
      rw [hread] at hbad
      cases hbad
  | ok r =>
      rw [hread] at hbad
      obtain ⟨line, hline, hfield⟩ := List.any_eq_true.mp (Option.some.inj hbad)
      have hfree := h smuggled r internalUpstream [] [] hread cleanProxy_internalUpstream
      rw [hfree.perHop line hline] at hfield
      cases hfield

end Forwarded

end Handler
end RunNginx
