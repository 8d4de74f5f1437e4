import RunNginx.Server.Request

/-!
# Requests as a client sends them

A `WireRequest` is a well-formed HTTP/1.1 request: a request line, header fields
with any admissible padding, and a body framed by Content-Length, by chunked
coding or not at all.  Well-formedness is carried by the structures, so that no
malformed request can be built.

`readRequest_encode_iff` says when the dispatcher reads such a request back off
a buffer that holds exactly its bytes.
-/

namespace RunNginx
namespace Wire

open ByteString Simd Limits Request

/-- Byte of an HTTP token. -/
def isTokenByte (b : UInt8) : Bool :=
  33 ≤ b && b ≤ 126 &&
    !([34, 40, 41, 44, 47, 58, 59, 60, 61, 62, 63, 64, 91, 92, 93, 123, 125].contains b)

/-- Visible byte, as in a request target. -/
def isVisible (b : UInt8) : Bool :=
  33 ≤ b && b != 127

/-- A header field with the padding around its value. -/
structure Field where
  name : Bytes
  lead : Bytes
  value : Bytes
  trail : Bytes
  name_ne_nil : name ≠ []
  name_token : name.all isTokenByte = true
  name_length : name.length ≤ maxHeaderNameLen
  lead_blank : lead.all isBlank = true
  trail_blank : trail.all isBlank = true
  value_bytes : value.all (fun b => b != 13 && b != 10) = true
  value_head : value.head?.all (fun b => !isBlank b) = true
  value_last : value.getLast?.all (fun b => !isBlank b) = true
  value_length : value.length ≤ maxHeaderValueLen

namespace Field

/-- The field as a line, without its CRLF. -/
def line (f : Field) : Bytes :=
  f.name ++ 58 :: (f.lead ++ f.value ++ f.trail)

/-- The field as the parser reports it. -/
def header (f : Field) : Header :=
  ⟨f.name, f.value⟩

/-- Does the field carry this name? -/
def named (name : Bytes) (f : Field) : Bool :=
  eqIgnoreCase f.name name

theorem tokenByte_facts
    {b : UInt8}
    (h : isTokenByte b = true) :
    b ≠ 58 ∧ b ≠ 10 ∧ b ≠ 32 ∧ isBlank b = false ∧ b < 0x80 := by
  have hb : 33 ≤ b ∧ b ≤ 126 ∧ b ≠ 58 := by
    simp only [isTokenByte, Bool.and_eq_true, decide_eq_true_eq, Bool.not_eq_true',
      List.contains_eq_mem, decide_eq_false_iff_not] at h
    refine ⟨h.1.1, h.1.2, ?_⟩
    rintro rfl
    exact h.2 (by simp)
  obtain ⟨hlo, hhi, hcolon⟩ := hb
  rw [UInt8.le_iff_toNat_le] at hlo hhi
  have hne : ∀ c : UInt8, c.toNat < 33 → b ≠ c := by
    rintro c hc rfl
    simp at hlo
    omega
  refine ⟨hcolon, hne 10 (by decide), hne 32 (by decide), ?_, ?_⟩
  · simp [isBlank, hne 32 (by decide), hne 9 (by decide)]
  · rw [UInt8.lt_iff_toNat_lt]
    simp at hhi ⊢
    omega

theorem line_ne_nil (f : Field) : f.line ≠ [] := by
  simp [line]

theorem name_mem
    (f : Field) {b : UInt8}
    (hb : b ∈ f.name) :
    isTokenByte b = true :=
  List.all_eq_true.mp f.name_token b hb

theorem line_crlfFree (f : Field) : CrlfFree f.line := by
  apply crlfFree_of_not_mem
  have hblank : ∀ s : Bytes, s.all isBlank = true → (10 : UInt8) ∉ s := by
    intro s hs hmem
    exact absurd (List.all_eq_true.mp hs 10 hmem) (by decide)
  have hname : (10 : UInt8) ∉ f.name := by
    intro hmem
    exact (tokenByte_facts (f.name_mem hmem)).2.1 rfl
  have hvalue : (10 : UInt8) ∉ f.value := by
    intro hmem
    have := List.all_eq_true.mp f.value_bytes 10 hmem
    simp at this
  simp [line, hname, hvalue, hblank _ f.lead_blank, hblank _ f.trail_blank]

/-- The parser undoes the padding. -/
theorem parse_line (f : Field) : parseHeaderLine f.line = .ok f.header := by
  have hname : trimBytes f.name = f.name := by
    have := trimBy_pad isBlank [] f.name []
      (by simp) (by simp)
      (by
        intro b hb
        exact (tokenByte_facts (f.name_mem (List.mem_of_mem_head? hb))).2.2.2.1)
      (by
        intro b hb
        exact (tokenByte_facts (f.name_mem (List.mem_of_mem_getLast? hb))).2.2.2.1)
    simpa [trimBytes] using this
  have hvalue : trimBytes (f.lead ++ f.value ++ f.trail) = f.value := by
    apply trimBy_pad
    · exact fun b hb => List.all_eq_true.mp f.lead_blank b hb
    · exact fun b hb => List.all_eq_true.mp f.trail_blank b hb
    · intro b hb
      have := f.value_head
      rw [hb] at this
      simpa using this
    · intro b hb
      have := f.value_last
      rw [hb] at this
      simpa using this
  have hcolon : (58 : UInt8) ∉ f.name := by
    intro hmem
    exact (tokenByte_facts (f.name_mem hmem)).1 rfl
  have := parseHeaderLine_append (u := f.name) (v := f.lead ++ f.value ++ f.trail)
    hcolon (by rw [hname]; exact f.name_length) (by rw [hvalue]; exact f.value_length)
  rw [hname, hvalue] at this
  exact this

end Field

/-- How the end of a body is marked. -/
inductive Framing
  | none
  | contentLength
  | chunked (chunks : List Bytes)
deriving DecidableEq

def contentLengthName : Bytes := ascii "content-length"
def transferEncodingName : Bytes := ascii "transfer-encoding"

/-- The header fields announce the framing, and the body follows it. -/
def FramedBy (fields : List Field) (body : Bytes) : Framing → Prop
  | .none =>
      fields.all (fun f => !f.named contentLengthName) = true ∧
        fields.all (fun f => !f.named transferEncodingName) = true ∧ body = []
  | .contentLength =>
      (∃ f, fields.filter (Field.named contentLengthName) = [f] ∧ f.value ≠ [] ∧
          f.value.all Decimal.isDigit = true ∧ Decimal.value f.value = body.length) ∧
        fields.all (fun f => !f.named transferEncodingName) = true ∧
        body.length < Decimal.usizeBound
  | .chunked chunks =>
      fields.all (fun f => !f.named contentLengthName) = true ∧
        (∃ f ∈ fields, f.named transferEncodingName = true ∧
          eqIgnoreCase f.value (ascii "chunked") = true) ∧
        body = chunks.flatten ∧ ∀ c ∈ chunks, c ≠ []

/-- The body as it stands on the wire. -/
def wireBody (body : Bytes) : Framing → Bytes
  | .none => []
  | .contentLength => body
  | .chunked chunks =>
      chunks.flatMap (fun c => Decimal.renderHex c.length ++ crlf ++ c ++ crlf) ++
        (Decimal.renderHex 0 ++ crlf ++ crlf)

end Wire

open ByteString Simd Limits Request Wire

/-- A well-formed request. -/
structure WireRequest where
  line : RequestLine
  fields : List Field
  framing : Framing
  body : Bytes
  method_ne_nil : line.method ≠ []
  method_token : line.method.all isTokenByte = true
  uri_ne_nil : line.uri ≠ []
  uri_visible : line.uri.all isVisible = true
  version_http : line.version = ascii "HTTP/1.1" ∨ line.version = ascii "HTTP/1.0"
  method_length : line.method.length ≤ maxMethodLen
  uri_length : line.uri.length ≤ maxUriLen
  fields_count : fields.length ≤ maxHeaderCount
  fields_total : (fields.map fun f => f.header.cost).sum ≤ maxHeadersTotalBytes
  framed : FramedBy fields body framing

namespace WireRequest

/-- Everything behind the request line. -/
def afterLine (r : WireRequest) : Bytes :=
  joinLines (r.fields.map Field.line) ++ crlf ++ wireBody r.body r.framing

/-- The bytes of the request. -/
def encode (r : WireRequest) : Bytes :=
  r.line.text ++ crlf ++ r.afterLine

/-- The request as the dispatcher should see it. -/
def view (r : WireRequest) : Received :=
  ⟨r.line, r.fields.map Field.header, r.body⟩

theorem version_facts (r : WireRequest) :
    (32 : UInt8) ∉ r.line.version ∧ (10 : UInt8) ∉ r.line.version ∧
      r.line.version.length = 8 := by
  rcases r.version_http with h | h <;> rw [h] <;> decide

/-- The request line of a well-formed request is read back. -/
theorem parse_line (r : WireRequest) (rest : Bytes) :
    parseRequestLine (r.line.text ++ crlf ++ rest) =
      .ok (r.line, r.line.text.length + 2) := by
  obtain ⟨hvsp, hvlf, hvlen⟩ := r.version_facts
  have hmethod : ∀ b ∈ r.line.method, isTokenByte b = true :=
    fun b hb => List.all_eq_true.mp r.method_token b hb
  have huri : (10 : UInt8) ∉ r.line.uri := by
    intro hmem
    exact absurd (List.all_eq_true.mp r.uri_visible 10 hmem) (by decide)
  rw [parseRequestLine_eq_ok_iff]
  refine ⟨⟨rest, rfl⟩, ?_, ?_, hvsp, ⟨?_, r.method_length, r.uri_length, ?_⟩, rfl⟩
  · apply crlfFree_of_not_mem
    have hm : (10 : UInt8) ∉ r.line.method :=
      fun hmem => (Field.tokenByte_facts (hmethod 10 hmem)).2.1 rfl
    simp [RequestLine.text, hm, huri, hvlf]
  · exact fun hmem => (Field.tokenByte_facts (hmethod 32 hmem)).2.2.1 rfl
  · have := r.method_length
    have := r.uri_length
    simp only [RequestLine.text, List.length_append, List.length_cons, hvlen]
    simp only [maxRequestLine, maxMethodLen, maxUriLen, maxVersionLen] at *
    omega
  · rw [hvlen]
    decide

end WireRequest

namespace Wire

/-- The header loop reads a list of fields in one line each. -/
theorem parseHeaderLoop_fields
    (tail : Bytes) :
    ∀ (fields : List Field) (fuel : Nat) (hs : List Header) (total pos : Nat),
      fields.length < fuel →
      hs.length + fields.length ≤ maxHeaderCount →
      total + (fields.map fun f => f.header.cost).sum ≤ maxHeadersTotalBytes →
      parseHeaderLoop fuel (joinLines (fields.map Field.line) ++ crlf ++ tail)
          hs total pos =
        .ok (hs ++ fields.map Field.header,
          pos + (joinLines (fields.map Field.line)).length + 2) := by
  intro fields
  induction fields with
  | nil =>
      intro fuel hs total pos hfuel _ _
      obtain ⟨fuel, rfl⟩ : ∃ k, fuel = k + 1 := ⟨fuel - 1, by simp at hfuel; omega⟩
      simpa using parseHeaderLoop_blank fuel tail hs total pos
  | cons f fields ih =>
      intro fuel hs total pos hfuel hcount htotal
      simp only [List.length_cons] at hfuel hcount
      simp only [List.map_cons, List.sum_cons] at htotal
      obtain ⟨fuel, rfl⟩ : ∃ k, fuel = k + 1 := ⟨fuel - 1, by omega⟩
      have hstep := parseHeaderLoop_line hs total f.line_ne_nil f.line_crlfFree f.parse_line
        (by omega) (by omega) fuel
        (joinLines (fields.map Field.line) ++ crlf ++ tail) pos
      rw [List.map_cons, joinLines_cons]
      simp only [List.append_assoc] at hstep ⊢
      rw [hstep]
      have := ih fuel (hs ++ [f.header]) (total + f.header.cost)
        (pos + f.line.length + 2) (by omega) (by simp; omega) (by omega)
      simp only [List.append_assoc] at this
      rw [this]
      simp [crlf]
      omega

end Wire

namespace WireRequest

/-- The header section fits the buffer together with the body on the wire. -/
def FitsBuffer (r : WireRequest) : Prop :=
  r.afterLine.length ≤ maxHeaderBuffer

/-- No chunk of data has to be decoded. -/
def NoChunkData (r : WireRequest) : Prop :=
  ∀ chunks, r.framing = .chunked chunks → r.body = []

theorem fields_le_joinLines (fields : List Field) :
    fields.length ≤ (joinLines (fields.map Field.line)).length := by
  induction fields with
  | nil => simp
  | cons f fields ih =>
      simp only [List.map_cons, joinLines_cons, List.length_append, List.length_cons, crlf]
      omega

theorem parse_headers
    (r : WireRequest)
    (hfits : r.FitsBuffer) :
    parseHeaders r.afterLine =
      .ok (r.fields.map Field.header,
        (joinLines (r.fields.map Field.line)).length + 2) := by
  have hloop := parseHeaderLoop_fields (wireBody r.body r.framing) r.fields
    (r.afterLine.length + 1) [] 0 0
    (by
      have := fields_le_joinLines r.fields
      simp only [afterLine, List.length_append]
      omega)
    (by simpa using r.fields_count) (by simpa using r.fields_total)
  unfold parseHeaders
  rw [if_neg (Nat.not_lt.mpr hfits)]
  simpa [afterLine] using hloop

/-- Names on the wire are ASCII, so decoding keeps them. -/
theorem find_named
    (fields : List Field) (name : Bytes) :
    getHeader (headerStrings (fields.map Field.header)) name =
      (fields.find? (Field.named name)).map fun f => Utf8.fromUtf8Lossy f.value := by
  induction fields with
  | nil => rfl
  | cons f fields ih =>
      have hname : Utf8.fromUtf8Lossy f.name = f.name :=
        Utf8.fromUtf8Lossy_ascii fun b hb =>
          (Field.tokenByte_facts (f.name_mem hb)).2.2.2.2
      simp only [getHeader, headerStrings, List.map_cons, List.find?_cons, Field.header,
        hname, Field.named] at ih ⊢
      cases eqIgnoreCase f.name name with
      | true => simp
      | false => simpa using ih

theorem contentLen_of_unnamed
    {fields : List Field}
    (h : fields.all (fun f => !f.named contentLengthName) = true) :
    contentLen (headerStrings (fields.map Field.header)) = 0 := by
  have hnone : fields.find? (Field.named contentLengthName) = none := by
    rw [List.find?_eq_none]
    intro f hf
    simpa using List.all_eq_true.mp h f hf
  unfold contentLen
  rw [find_named, show ascii "content-length" = contentLengthName from rfl, hnone]
  rfl

/-- The declared length of a body framed by Content-Length. -/
theorem contentLen_of_named
    {fields : List Field} {f : Field}
    (hfilter : fields.filter (Field.named contentLengthName) = [f])
    (hne : f.value ≠ [])
    (hdigits : f.value.all Decimal.isDigit = true)
    (hbound : Decimal.value f.value < Decimal.usizeBound) :
    contentLen (headerStrings (fields.map Field.header)) = Decimal.value f.value := by
  have hfind : fields.find? (Field.named contentLengthName) = some f := by
    rw [← List.head?_filter, hfilter]
    rfl
  have hascii : Utf8.fromUtf8Lossy f.value = f.value := by
    apply Utf8.fromUtf8Lossy_ascii
    intro b hb
    have := List.all_eq_true.mp hdigits b hb
    simp only [Decimal.isDigit, Bool.and_eq_true, decide_eq_true_eq,
      UInt8.le_iff_toNat_le] at this
    rw [UInt8.lt_iff_toNat_lt]
    simp at this ⊢
    omega
  unfold contentLen
  rw [find_named, show ascii "content-length" = contentLengthName from rfl, hfind]
  simp only [Option.map_some, Option.bind_some, hascii,
    Decimal.parseUnsigned_digits hne hdigits hbound, Option.getD_some]

/-- The body the dispatcher cuts off is the body, or nothing when it is chunked. -/
theorem received_body (r : WireRequest) :
    (wireBody r.body r.framing).take
        (contentLen (headerStrings (r.fields.map Field.header))) =
      match r.framing with
      | .chunked _ => []
      | _ => r.body := by
  have hframed := r.framed
  cases hf : r.framing with
  | none =>
      rw [hf] at hframed
      simp [wireBody, hframed.2.2]
  | contentLength =>
      rw [hf] at hframed
      obtain ⟨⟨f, hfilter, hne, hdigits, hvalue⟩, _, hbound⟩ := hframed
      rw [contentLen_of_named hfilter hne hdigits (by omega), hvalue]
      simp [wireBody]
  | chunked chunks =>
      rw [hf] at hframed
      rw [contentLen_of_unnamed hframed.1]
      simp

/--
The dispatcher reads a request back off its own bytes exactly when head and body
fit the header buffer and no chunk has to be decoded.
-/
theorem readRequest_encode_iff (r : WireRequest) :
    readRequest r.encode = .ok r.view ↔ r.FitsBuffer ∧ r.NoChunkData := by
  have hdrop : r.encode.drop (r.line.text.length + 2) = r.afterLine := by
    rw [encode, List.append_assoc, ← List.drop_drop]
    simp [crlf]
  unfold readRequest readBehindLine
  rw [show r.encode = r.line.text ++ crlf ++ r.afterLine from rfl, r.parse_line]
  simp only
  rw [← show r.encode = r.line.text ++ crlf ++ r.afterLine from rfl, hdrop]
  by_cases hfits : r.FitsBuffer
  · rw [r.parse_headers hfits]
    simp only [bodyRaw_eq, Except.ok.injEq, view, Received.mk.injEq, true_and]
    have hbody : r.encode.drop (r.line.text.length + 2 +
        ((joinLines (r.fields.map Field.line)).length + 2)) =
          wireBody r.body r.framing := by
      rw [← List.drop_drop, hdrop, afterLine, List.append_assoc, ← List.drop_drop]
      simp [crlf]
    rw [hbody, r.received_body]
    constructor
    · intro h
      refine ⟨hfits, ?_⟩
      intro chunks hc
      rw [hc] at h
      exact h.symm
    · rintro ⟨_, hchunk⟩
      cases hf : r.framing with
      | none => rfl
      | contentLength => rfl
      | chunked chunks => exact (hchunk chunks hf).symm
  · have : parseHeaders r.afterLine = .error (ascii "header buffer overflow") := by
      unfold parseHeaders
      rw [if_pos (Nat.lt_of_not_le hfits)]
    rw [this]
    simp [hfits]

end WireRequest
end RunNginx
