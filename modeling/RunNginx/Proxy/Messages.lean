import RunNginx.Lib.LfLines
import RunNginx.Proxy.Completeness
import RunNginx.Server.Framing
import RunNginx.Server.WireRequest

/-!
# Responses that are handed on

A response with a body, as a conforming upstream sends it, and what the proxy makes of the
part that it has read: the status, the fields that stay on no hop, and all bytes behind the
head.  Of a chunked body these bytes are the chunks, not what they carry.
-/

namespace RunNginx
namespace Proxy

open ByteString HttpMessage StaticFiles

namespace Framing

/-- The body that a recipient takes off what follows the head. -/
def take : Framing → Bytes → Option Bytes
  | length n, s => if n ≤ s.length then some (s.take n) else none
  | chunked, s => ChunkedBody.data s
  | close, s => some s

theorem DeclaredBy.unique
    {a b : Framing} {fieldLines : List Bytes} (ha : a.DeclaredBy fieldLines)
    (hb : b.DeclaredBy fieldLines) :
    a = b := by
  cases a with
  | length n =>
      obtain ⟨-, v, hv, -, -, rfl⟩ := ha
      cases b with
      | length n' =>
          obtain ⟨-, v', hv', -, -, rfl⟩ := hb
          rw [hv] at hv'
          rw [List.singleton_inj.mp hv']
      | chunked => exact absurd (hv.symm.trans hb.1) (List.cons_ne_nil _ _)
      | close => exact absurd (hv.symm.trans hb.1) (List.cons_ne_nil _ _)
  | chunked =>
      cases b with
      | length n' =>
          obtain ⟨-, v', hv', -⟩ := hb
          exact absurd (hv'.symm.trans ha.1) (List.cons_ne_nil _ _)
      | chunked => rfl
      | close => exact absurd ha.2 hb.2
  | close =>
      cases b with
      | length n' =>
          obtain ⟨-, v', hv', -⟩ := hb
          exact absurd (hv'.symm.trans ha.1) (List.cons_ne_nil _ _)
      | chunked => exact absurd hb.2 ha.2
      | close => rfl

end Framing

/-- A field as it is sent: its name, and all that stands behind the colon. -/
def rawLine (f : Bytes × Bytes) : Bytes :=
  f.1 ++ 58 :: f.2

/--
A well-formed response that has a body, to a request that accepts no transfer coding but
chunks.
-/
structure UpstreamMessage extends ResponseStream where
  code : Nat
  reason : Bytes
  fields : Headers
  start_eq : startLine = ascii "HTTP/1.1" ++ 32 :: (Decimal.render code ++ 32 :: reason)
  code_digits : 200 ≤ code ∧ code < 1000
  has_body : code ≠ 204 ∧ code ≠ 304
  fields_eq : fieldLines = fields.map rawLine
  tokens : ∀ f ∈ fields, f.1 ≠ [] ∧ ∀ b ∈ f.1, Wire.isTokenByte b = true
  coding : transferCodings fieldLines = [] ∨
    ∃ c, transferCodings fieldLines = [c] ∧ eqIgnoreCase c (ascii "chunked") = true

namespace UpstreamMessage

variable {m : UpstreamMessage} {got buf name : Bytes}

variable (m) in
/-- The headers that are handed on. -/
def kept : Headers :=
  (m.fields.map fun f => (f.1, Utf8.trim f.2)).filter fun h => !isNamed responseHop h.1

/-! ### The status -/

theorem statusOf_startLine
    (m : UpstreamMessage) (default : Nat) :
    statusOf m.startLine default = m.code := by
  have hvisible : (ascii "HTTP/1.1").all Utf8.isVisible = true := by decide
  have hversion : ascii "HTTP/1.1" ≠ [] ∧
      ∀ b ∈ ascii "HTTP/1.1", Utf8.isVisible b = true :=
    ⟨by decide, List.all_eq_true.mp hvisible⟩
  have hbound : m.code < Decimal.u16Bound := Nat.lt_trans m.code_digits.2 (by decide)
  rw [statusOf, m.start_eq, Utf8.splitWhitespace_append_space hversion.1 hversion.2,
    List.getElem?_cons_succ, ← List.head?_eq_getElem?,
    Utf8.head?_splitWhitespace (Decimal.render_ne_nil _)
      (fun b hb => Utf8.visible_of_mem_render hb) (.inr ⟨m.reason, rfl⟩),
    Option.bind_some, Decimal.parseUnsigned_render hbound, Option.getD_some]

/-! ### The fields -/

theorem token_bytes
    {f : Bytes × Bytes} (hf : f ∈ m.fields) :
    ∀ b ∈ f.1, Utf8.isVisible b = true ∧ b ≠ 58 ∧ b ≠ 10 := by
  have hbyte : ∀ b : UInt8, Wire.isTokenByte b = true →
      Utf8.isVisible b = true ∧ b ≠ 58 ∧ b ≠ 10 :=
    forall_byte (by decide +kernel)
  exact fun b hb => hbyte b ((m.tokens f hf).2 b hb)

theorem not_colon
    {f : Bytes × Bytes} (hf : f ∈ m.fields) :
    (58 : UInt8) ∉ f.1 :=
  fun h => (token_bytes hf 58 h).2.1 rfl

/-- A value that stands in a line holds no line end. -/
theorem not_lf_value
    {f : Bytes × Bytes} (hf : f ∈ m.fields) :
    (10 : UInt8) ∉ f.2 := by
  have hline : rawLine f ∈ m.startLine :: m.fieldLines := by
    rw [m.fields_eq]
    exact List.mem_cons_of_mem _ (List.mem_map_of_mem hf)
  intro h
  exact (m.plain _ hline).lf (List.mem_append_right _ (List.mem_cons_of_mem _ h))

/-- What a recipient reads under a name. -/
theorem valuesOf_fields
    (m : UpstreamMessage) (name : Bytes) :
    valuesOf name m.fieldLines =
      (m.fields.filter fun f => eqIgnoreCase f.1 name).map fun f => trimBy isOws f.2 := by
  have hcolon := fun f hf => @not_colon m f hf
  rw [m.fields_eq]
  generalize m.fields = fields at hcolon
  induction fields with
  | nil => rfl
  | cons f fields ih =>
      obtain ⟨hf, hrest⟩ := List.forall_mem_cons.mp hcolon
      have hmore := ih hrest
      rw [valuesOf] at hmore ⊢
      rw [List.map_cons, List.filterMap_cons, rawLine, valueOf_field f.2 hf, hmore,
        List.filter_cons]
      cases eqIgnoreCase f.1 name <;> rfl

/-- What the proxy makes of the field lines. -/
theorem filterMap_splitHeader
    (m : UpstreamMessage) :
    m.fieldLines.filterMap splitHeader = m.fields.map fun f => (f.1, Utf8.trim f.2) := by
  have htoken := fun f hf => @token_bytes m f hf
  rw [m.fields_eq, List.filterMap_map]
  generalize m.fields = fields at htoken
  induction fields with
  | nil => rfl
  | cons f fields ih =>
      obtain ⟨hf, hrest⟩ := List.forall_mem_cons.mp htoken
      have hcolon : (58 : UInt8) ∉ f.1 := fun h => (hf 58 h).2.1 rfl
      have hdrop : (rawLine f).drop (f.1.length + 1) = f.2 := by
        simp [rawLine, List.drop_append]
      have hsplit : splitHeader (rawLine f) = some (f.1, Utf8.trim f.2) := by
        rw [splitHeader, rawLine, find_byte_append hcolon, Option.map_some, List.take_left,
          Utf8.trim_visible fun b hb => (hf b hb).1]
        rw [rawLine] at hdrop
        rw [hdrop]
      rw [List.filterMap_cons, Function.comp_apply, hsplit, List.map_cons, ih hrest]

theorem kept_clean
    (m : UpstreamMessage) :
    ∀ h ∈ m.kept, Handler.CleanHeader h := by
  intro h hh
  obtain ⟨f, hf, rfl⟩ := List.mem_map.mp (List.mem_filter.mp hh).1
  exact ⟨fun hlf => (token_bytes hf 10 hlf).2.2 rfl, @not_colon m f hf,
    fun hlf => not_lf_value hf (Utf8.mem_of_mem_trim hlf)⟩

/-- A name that stays on no hop is handed on. -/
theorem kept_values
    (m : UpstreamMessage) (hname : isNamed responseHop name = false) :
    valuesOf name (m.kept.map Response.headerLine) =
      (m.fields.filter fun f => eqIgnoreCase f.1 name).map fun f =>
        trimBy isOws (32 :: Utf8.trim f.2) := by
  have hkeep : ∀ f : Bytes × Bytes, eqIgnoreCase f.1 name = true →
      isNamed responseHop f.1 = false := by
    intro f hf
    have hlower : toAsciiLower f.1 = toAsciiLower name := beq_iff_eq.mp hf
    unfold isNamed eqIgnoreCase at hname ⊢
    rw [hlower]
    exact hname
  rw [Handler.valuesOf_headerLines name fun h hh => (kept_clean m h hh).2.1, kept,
    List.filter_filter, List.filter_map, List.map_map]
  congr 1
  refine List.filter_congr fun f _ => ?_
  cases hnamed : eqIgnoreCase f.1 name with
  | false => simp [hnamed]
  | true => simp [hnamed, hkeep f hnamed]

/-- A name of the hop is not. -/
theorem kept_hop
    (m : UpstreamMessage) (hname : name ∈ responseHop) :
    valuesOf name (m.kept.map Response.headerLine) = [] := by
  rw [Handler.valuesOf_headerLines name fun h hh => (kept_clean m h hh).2.1, List.map_eq_nil_iff,
    List.filter_eq_nil_iff]
  intro h hh hnamed
  have hkept := (List.mem_filter.mp hh).2
  rw [Bool.not_eq_true', isNamed, List.any_eq_false] at hkept
  exact hkept name hname hnamed

theorem kept_codings
    (m : UpstreamMessage) :
    (valuesOf (ascii "content-encoding") (m.kept.map Response.headerLine)).length =
      (valuesOf (ascii "content-encoding") m.fieldLines).length := by
  rw [kept_values m (by decide), valuesOf_fields, List.length_map, List.length_map]

/-- An announced length is handed on. -/
theorem kept_length
    {n : Nat} (h : m.framing = .length n) :
    ∃ v, valuesOf (ascii "content-length") (m.kept.map Response.headerLine) = [v] ∧
      IsNumeral v n := by
  have hdeclared := m.declared
  rw [h] at hdeclared
  obtain ⟨-, v, hvalues, hv⟩ := hdeclared
  rw [valuesOf_fields, List.map_eq_singleton_iff] at hvalues
  obtain ⟨f, hfilter, rfl⟩ := hvalues
  have hvisible : ∀ b ∈ trimBy isOws f.2, Utf8.isVisible b = true :=
    fun b hb => visible_of_isDigit (List.all_eq_true.mp hv.2.1 b hb)
  have hdigit : ∀ b ∈ trimBy isOws f.2, isOws b = false :=
    fun b hb => isOws_of_isDigit (List.all_eq_true.mp hv.2.1 b hb)
  refine ⟨trimBy isOws f.2, ?_, hv⟩
  rw [kept_values m (by decide), hfilter, List.map_singleton, trim_eq_trimBy hv.1 hvisible,
    trimBy_blank (fun b hb => hdigit b (List.mem_of_mem_head? hb))
      fun b hb => hdigit b (List.mem_of_mem_getLast? hb)]

/-- Without one, none is. -/
theorem kept_no_length
    (h : ∀ n, m.framing ≠ .length n) :
    valuesOf (ascii "content-length") (m.kept.map Response.headerLine) = [] := by
  have hvalues : valuesOf (ascii "content-length") m.fieldLines = [] := by
    have hdeclared := m.declared
    cases hframing : m.framing with
    | length n => exact absurd hframing (h n)
    | chunked =>
        rw [hframing] at hdeclared
        exact hdeclared.1
    | close =>
        rw [hframing] at hdeclared
        exact hdeclared.1
  rw [valuesOf_fields, List.map_eq_nil_iff] at hvalues
  rw [kept_values m (by decide), hvalues, List.map_nil]

/-- A body that ends with the connection has no transfer coding. -/
theorem no_coding_of_close
    (h : m.framing = .close) :
    valuesOf (ascii "transfer-encoding") m.fieldLines = [] := by
  have hdeclared := m.declared
  rw [h] at hdeclared
  rcases m.coding with hnone | ⟨c, hone, hchunked⟩
  · cases hvalues : valuesOf (ascii "transfer-encoding") m.fieldLines with
    | nil => rfl
    | cons v vs =>
        rw [transferCodings, hvalues, List.flatMap_cons, List.append_eq_nil_iff,
          List.map_eq_nil_iff] at hnone
        obtain ⟨pieces, hpieces⟩ := LfLines.splitByte_eq_cons 44 v
        rw [hpieces] at hnone
        exact absurd hnone.1 (List.cons_ne_nil _ _)
  · exact absurd ⟨c, by rw [hone]; rfl, hchunked⟩ hdeclared.2

/-! ### What has been read -/

theorem length_pos
    (m : UpstreamMessage) :
    0 < m.head.length := by
  rw [m.length_head]
  omega

/-- A part without the whole head is no response. -/
theorem parse_short
    (hbuf : buf <+: m.stream) (hshort : buf.length < m.head.length) :
    ∃ e, parseProxyResponse buf = .error e := by
  rcases ResponseStream.buffer_cases hbuf with ⟨got, -, rfl⟩ | ⟨hnone, -⟩
  · rw [List.length_append] at hshort
    omega
  · exact ⟨_, by rw [parseProxyResponse, hnone]⟩

/-- A part with the head is the response with the bytes that are there. -/
theorem parse_head
    (m : UpstreamMessage) (got : Bytes) :
    parseProxyResponse (m.head ++ got) =
      if Utf8.isUtf8 m.headText then .ok ⟨m.code, m.kept, got⟩
      else .error (ascii "non-UTF8 proxy response headers") := by
  have hfind : findDoubleCrlf (m.head ++ got) = some m.headText.length := by
    have h := FastCgi.find_blank (.inl rfl) m.plain got
    rw [findDoubleCrlf, ResponseStream.head, List.append_assoc, List.append_assoc]
    exact h
  have htake : (m.head ++ got).take m.headText.length = m.headText := by
    rw [ResponseStream.head, List.append_assoc, List.take_left]
  have hdrop : (m.head ++ got).drop (m.headText.length + 4) = got := by
    rw [← m.length_head, List.drop_left]
  rw [parseProxyResponse, hfind]
  dsimp only
  rw [htake, hdrop, m.lines_headText]
  cases Utf8.isUtf8 m.headText with
  | false => rfl
  | true =>
      dsimp only
      rw [statusOf_startLine, filterMap_splitHeader]
      rfl

/-- No part without the whole head is complete. -/
theorem incomplete_of_lt
    {n : Nat} (h : n < m.head.length) :
    isResponseComplete (m.stream.take n) = false := by
  rcases ResponseStream.buffer_cases (m := m.toResponseStream) (List.take_prefix n m.stream) with
    ⟨got, -, heq⟩ | ⟨hnone, -⟩
  · have hlength := congrArg List.length heq
    rw [List.length_take, List.length_append] at hlength
    omega
  · rw [isResponseComplete, hnone]

/-- No part of a response that is not chunked is complete, if its length fits. -/
theorem incomplete_of_part
    (hchunked : m.framing ≠ .chunked) (hfits : m.stream.length < Decimal.usizeBound)
    (hbuf : buf <+: m.stream) (hpart : buf ≠ m.stream) :
    isResponseComplete buf = false := by
  rcases ResponseStream.buffer_cases hbuf with ⟨got, hgot, rfl⟩ | ⟨hnone, -⟩
  · rw [← Bool.not_eq_true]
    intro hcomplete
    have hstream : m.stream.length = m.head.length + m.body.length := List.length_append
    have hgotlt : got.length < m.body.length := by
      by_contra hle
      exact hpart (congrArg (m.head ++ ·) (hgot.eq_of_length_le (Nat.not_lt.mp hle)))
    cases hframing : m.framing with
    | length n =>
        have hbody : m.body.length = n := by
          have hframed := m.framed
          rw [hframing] at hframed
          exact hframed
        obtain ⟨-, -, hreached⟩ :=
          (ResponseStream.isResponseComplete_length hframing hgot).mp hcomplete
        rw [Nat.mod_eq_of_lt (by omega)] at hreached
        omega
    | chunked => exact hchunked hframing
    | close =>
        have hlength : valuesOf (ascii "content-length") m.fieldLines = [] := by
          have hdeclared := m.declared
          rw [hframing] at hdeclared
          exact hdeclared.1
        obtain ⟨-, hnames, -⟩ :=
          (ResponseStream.isResponseComplete_chunks hlength hgot).mp hcomplete
        rw [ResponseStream.NamesChunked,
          ResponseStream.transferEncoding_none (no_coding_of_close hframing)] at hnames
        cases hnames
  · rw [isResponseComplete, hnone]

/-- A response with a length is complete as a whole, if its text is read. -/
theorem complete_of_length
    {n : Nat} (hframing : m.framing = .length n) (hutf8 : Utf8.isUtf8 m.headText = true)
    (hfits : m.stream.length < Decimal.usizeBound) :
    isResponseComplete m.stream = true := by
  have hbody : m.body.length = n := by
    have hframed := m.framed
    rw [hframing] at hframed
    exact hframed
  have hstream : m.stream.length = m.head.length + m.body.length := List.length_append
  refine (ResponseStream.isResponseComplete_length hframing List.prefix_rfl).mpr
    ⟨hutf8, by omega, ?_⟩
  rw [Nat.mod_eq_of_lt (by omega), hbody]

/-- A chunked response that is taken for complete stays so. -/
theorem complete_of_prefix
    {more : Bytes} (hframing : m.framing = .chunked) (hmore : more <+: m.body)
    (hgot : got <+: more) (hcomplete : isResponseComplete (m.head ++ got) = true) :
    isResponseComplete (m.head ++ more) = true := by
  have hlength : valuesOf (ascii "content-length") m.fieldLines = [] := by
    have hdeclared := m.declared
    rw [hframing] at hdeclared
    exact hdeclared.1
  obtain ⟨hutf8, hnames, hlast⟩ :=
    (ResponseStream.isResponseComplete_chunks hlength (hgot.trans hmore)).mp hcomplete
  refine (ResponseStream.isResponseComplete_chunks hlength hmore).mpr ⟨hutf8, hnames, ?_⟩
  have hfound := ( contains_iff_infix (by decide) _).mp hlast
  exact ( contains_iff_infix (by decide) _).mpr
    (hfound.trans ((List.prefix_append_right_inj _).mpr hgot).isInfix)

end UpstreamMessage

end Proxy
end RunNginx
