import RunNginx.Server.RangeAnswers

/-!
# Content negotiation

A client lists the codings it accepts, each with a weight; the weight zero refuses one.  The
server reads this list twice: gzip is found anywhere in the text of the first field, and
brotli as a whole member.  No weight is read, and gzip is tried first.

`negotiated_iff`: the coding that is added to an answer is accepted and the only one, and it
is brotli where both would do, exactly if the two tests agree with the list of the client
where they decide, the answer has no coding yet, and the client does not accept brotli where
gzip is used.
-/

namespace RunNginx
namespace Handler

open ByteString HttpMessage Request StaticFiles

section Weights

/-- The parameters that refuse a member of a weighted list. -/
def zeroWeights : List Bytes :=
  [ascii "q=0", ascii "q=0.", ascii "q=0.0", ascii "q=0.00", ascii "q=0.000"]

/-- A member of a weighted list. -/
structure Weighted where
  name : Bytes
  refused : Bool

namespace Weighted

def ofText (text : Bytes) : Weighted where
  name := trimBy isOws ((splitByte 59 text).headD [])
  refused := (splitByte 59 text).tail.any fun parameter =>
    zeroWeights.contains (toAsciiLower (trimBy isOws parameter))

def hasName (names : List Bytes) (m : Weighted) : Bool :=
  names.any (eqIgnoreCase m.name)

end Weighted

/-- The members under one of the names decide; `*` stands for names that are not listed. -/
def acceptsOneOf (names : List Bytes) (members : List Weighted) : Bool :=
  if members.any (Weighted.hasName names) then
    members.any fun m => m.hasName names && !m.refused
  else members.any fun m => m.hasName [ascii "*"] && !m.refused

end Weights

section Acceptance

/-- gzip has a second name. -/
def codingNames (coding : Bytes) : List Bytes :=
  if coding = ascii "gzip" then [coding, ascii "x-gzip"] else [coding]

/-- The members of all Accept-Encoding fields. -/
def acceptedCodings (hdrs : Headers) : List Weighted :=
  (hdrs.filter fun h => eqIgnoreCase h.1 (ascii "accept-encoding")).flatMap fun h =>
    (splitByte 44 h.2).map Weighted.ofText

/-- The client accepts the coding with a weight that is not zero. -/
def AcceptsCoding (hdrs : Headers) (coding : Bytes) : Prop :=
  acceptsOneOf (codingNames coding) (acceptedCodings hdrs) = true

end Acceptance

section Negotiation

variable (ctx : Context) (env : Env) (location : Option LocationBlock)
variable (req : ParsedRequest) (resp : StaticResponse)

/-- gzip is enabled, and it shortens a body of this length and type. -/
def GzipApplicable : Prop :=
  Compress.Applies env.gzip true ⟨(location.bind LocationBlock.gzip).getD ctx.http.gzip,
    ctx.http.gzipMinLength, ctx.http.gzipTypes⟩ (contentTypeOf resp.headers) resp.body

def BrotliApplicable : Prop :=
  Compress.Applies env.brotli true ⟨ctx.http.brotli, ctx.http.brotliMinLength,
    ctx.http.brotliTypes⟩ (contentTypeOf resp.headers) resp.body

/-- The content codings of an answer. -/
def codingsOf (hdrs : Headers) : List Bytes :=
  fieldValues (ascii "content-encoding") hdrs

/-- The content codings of the answer of a handler when it is sent. -/
def sentCodings : List Bytes :=
  codingsOf (encodedHeaders resp.headers (encodeBody ctx env location req resp).2
    (encodeBody ctx env location req resp).1.length)

/--
A coding is added only if the client accepts it and the answer has none, and brotli is chosen
where both are enabled, applicable and accepted.
-/
structure Negotiated : Prop where
  accepted : ∀ coding, sentCodings ctx env location req resp = codingsOf resp.headers ++ [coding] →
    AcceptsCoding req.headers coding ∧ codingsOf resp.headers = []
  preferred : GzipApplicable ctx env location resp → BrotliApplicable ctx env resp →
    codingsOf resp.headers = [] → AcceptsCoding req.headers (ascii "gzip") →
      AcceptsCoding req.headers (ascii "br") →
        sentCodings ctx env location req resp = [ascii "br"]

/-- The first Accept-Encoding field mentions gzip. -/
def mentionsGzip : Bool :=
  Compress.acceptsGzip (getHeader req.headers (ascii "accept-encoding"))

/-- The first Accept-Encoding field lists brotli. -/
def listsBrotli : Bool :=
  Compress.acceptsBrotli (getHeader req.headers (ascii "accept-encoding"))

/-- The tests of the server agree with the list of the client where they decide. -/
structure TestsAgree : Prop where
  gzip : GzipApplicable ctx env location resp → mentionsGzip req = true →
    AcceptsCoding req.headers (ascii "gzip") ∧ codingsOf resp.headers = []
  gzip_only : GzipApplicable ctx env location resp → mentionsGzip req = true →
    BrotliApplicable ctx env resp → ¬ AcceptsCoding req.headers (ascii "br")
  brotli : ¬ (GzipApplicable ctx env location resp ∧ mentionsGzip req = true) →
    BrotliApplicable ctx env resp → listsBrotli req = true →
      AcceptsCoding req.headers (ascii "br") ∧ codingsOf resp.headers = []
  found : GzipApplicable ctx env location resp → BrotliApplicable ctx env resp →
    codingsOf resp.headers = [] → AcceptsCoding req.headers (ascii "gzip") →
      AcceptsCoding req.headers (ascii "br") → mentionsGzip req = false → listsBrotli req = true

end Negotiation

section Sent

variable {ctx : Context} {env : Env} {location : Option LocationBlock}
variable {req : ParsedRequest} {resp : StaticResponse}

theorem applies_iff
    {compressor : Bytes → Option Bytes} {accepted : Bool} {cfg : Compress.CompressConfig}
    {contentType body : Bytes} :
    Compress.Applies compressor accepted cfg contentType body ↔
      Compress.Applies compressor true cfg contentType body ∧ accepted = true := by
  constructor
  · intro h
    exact ⟨{ h with accepts := rfl }, h.accepts⟩
  · rintro ⟨h, haccepted⟩
    exact { h with accepts := haccepted }

/-- gzip is used wherever it is applicable and mentioned. -/
theorem coding_of_gzip
    (happlicable : GzipApplicable ctx env location resp) (hmentions : mentionsGzip req = true) :
    (encodeBody ctx env location req resp).2 = some (ascii "gzip") := by
  obtain ⟨compressed, -, heq⟩ :=
    Compress.compressIf_of_applies (applies_iff.mpr ⟨happlicable, hmentions⟩)
  unfold contentTypeOf mentionsGzip at heq
  unfold encodeBody Compress.maybeCompress
  dsimp only
  rw [heq]

/-- brotli is used where gzip is not, and it is applicable and listed. -/
theorem coding_of_brotli
    (hgzip : ¬ (GzipApplicable ctx env location resp ∧ mentionsGzip req = true))
    (happlicable : BrotliApplicable ctx env resp) (hlists : listsBrotli req = true) :
    (encodeBody ctx env location req resp).2 = some (ascii "br") := by
  have hplain := Compress.compressIf_of_not_applies (mt applies_iff.mp hgzip)
  obtain ⟨compressed, -, heq⟩ :=
    Compress.compressIf_of_applies (applies_iff.mpr ⟨happlicable, hlists⟩)
  unfold contentTypeOf mentionsGzip at hplain
  unfold contentTypeOf listsBrotli at heq
  unfold encodeBody Compress.maybeCompress Compress.maybeBrotli
  dsimp only
  rw [hplain]
  dsimp only
  rw [heq]

theorem coding_of_neither
    (hgzip : ¬ (GzipApplicable ctx env location resp ∧ mentionsGzip req = true))
    (hbrotli : ¬ (BrotliApplicable ctx env resp ∧ listsBrotli req = true)) :
    (encodeBody ctx env location req resp).2 = none :=
  encodeBody_coding_eq_none_iff.mpr ⟨mt applies_iff.mp hgzip, mt applies_iff.mp hbrotli⟩

/-- The coding is named behind those of the handler. -/
theorem sentCodings_eq
    {coding : Bytes} (h : (encodeBody ctx env location req resp).2 = some coding) :
    sentCodings ctx env location req resp =
      codingsOf resp.headers ++ [trimBy isOws (32 :: coding)] := by
  have hname : (58 : UInt8) ∉ ascii "Content-Encoding" ∧
      eqIgnoreCase (ascii "Content-Encoding") (ascii "content-encoding") = true := by
    decide
  unfold sentCodings codingsOf
  rw [h, fieldValues_encodedHeaders (by decide), Option.toList_some, List.map_singleton,
    fieldValues_cons_named hname, fieldValues_nil]

theorem sentCodings_of_none
    (h : (encodeBody ctx env location req resp).2 = none) :
    sentCodings ctx env location req resp = codingsOf resp.headers := by
  unfold sentCodings
  rw [h]
  rfl

/-- Where gzip is used, it has to be the right choice. -/
theorem negotiated_of_gzip_iff
    (happlicable : GzipApplicable ctx env location resp) (hmentions : mentionsGzip req = true) :
    Negotiated ctx env location req resp ↔
      (AcceptsCoding req.headers (ascii "gzip") ∧ codingsOf resp.headers = []) ∧
        (BrotliApplicable ctx env resp → ¬ AcceptsCoding req.headers (ascii "br")) := by
  have hsent : sentCodings ctx env location req resp =
      codingsOf resp.headers ++ [ascii "gzip"] :=
    sentCodings_eq (coding_of_gzip happlicable hmentions)
  constructor
  · intro h
    have hgzip := h.accepted _ hsent
    refine ⟨hgzip, fun hbrotli haccepts => ?_⟩
    have hbr := h.preferred happlicable hbrotli hgzip.2 hgzip.1 haccepts
    rw [hsent, hgzip.2, List.nil_append] at hbr
    exact absurd hbr (by decide)
  · rintro ⟨hgzip, honly⟩
    refine ⟨fun coding hcoding => ?_, fun _ hbrotli _ _ haccepts =>
      absurd haccepts (honly hbrotli)⟩
    rw [hsent, List.append_cancel_left_eq] at hcoding
    cases hcoding
    exact hgzip

/-- So has brotli; it is what is preferred. -/
theorem negotiated_of_brotli_iff
    (hgzip : ¬ (GzipApplicable ctx env location resp ∧ mentionsGzip req = true))
    (happlicable : BrotliApplicable ctx env resp) (hlists : listsBrotli req = true) :
    Negotiated ctx env location req resp ↔
      AcceptsCoding req.headers (ascii "br") ∧ codingsOf resp.headers = [] := by
  have hsent : sentCodings ctx env location req resp = codingsOf resp.headers ++ [ascii "br"] :=
    sentCodings_eq (coding_of_brotli hgzip happlicable hlists)
  constructor
  · intro h
    exact h.accepted _ hsent
  · intro hbrotli
    refine ⟨fun coding hcoding => ?_, fun _ _ huncoded _ _ => ?_⟩
    · rw [hsent, List.append_cancel_left_eq] at hcoding
      cases hcoding
      exact hbrotli
    · rw [hsent, huncoded, List.nil_append]

/-- An answer that gets no coding must not be one that both could have. -/
theorem negotiated_of_neither_iff
    (hgzip : ¬ (GzipApplicable ctx env location resp ∧ mentionsGzip req = true))
    (hbrotli : ¬ (BrotliApplicable ctx env resp ∧ listsBrotli req = true)) :
    Negotiated ctx env location req resp ↔
      ¬ (GzipApplicable ctx env location resp ∧ BrotliApplicable ctx env resp ∧
        codingsOf resp.headers = [] ∧ AcceptsCoding req.headers (ascii "gzip") ∧
          AcceptsCoding req.headers (ascii "br")) := by
  have hsent := sentCodings_of_none (coding_of_neither hgzip hbrotli)
  constructor
  · rintro h ⟨hgz, hbr, huncoded, hagz, habr⟩
    have hpreferred := h.preferred hgz hbr huncoded hagz habr
    rw [hsent, huncoded] at hpreferred
    cases hpreferred
  · intro hmissed
    refine ⟨fun coding hcoding => ?_, fun hgz hbr huncoded hagz habr =>
      absurd ⟨hgz, hbr, huncoded, hagz, habr⟩ hmissed⟩
    rw [hsent] at hcoding
    exact absurd hcoding.symm (by simp)

/--
The coding of an answer is the one that the client and the configuration ask for if and only
if the tests of the server agree with the list of the client.
-/
theorem negotiated_iff
    (ctx : Context) (env : Env) (location : Option LocationBlock) (req : ParsedRequest)
    (resp : StaticResponse) :
    Negotiated ctx env location req resp ↔ TestsAgree ctx env location req resp := by
  by_cases hgzip : GzipApplicable ctx env location resp ∧ mentionsGzip req = true
  · obtain ⟨happlicable, hmentions⟩ := hgzip
    rw [negotiated_of_gzip_iff happlicable hmentions]
    constructor
    · rintro ⟨haccepts, honly⟩
      exact ⟨fun _ _ => haccepts, fun _ _ => honly, fun h => absurd ⟨happlicable, hmentions⟩ h,
        fun _ hbrotli _ _ haccepted => absurd haccepted (honly hbrotli)⟩
    · intro h
      exact ⟨h.gzip happlicable hmentions, h.gzip_only happlicable hmentions⟩
  by_cases hbrotli : BrotliApplicable ctx env resp ∧ listsBrotli req = true
  · obtain ⟨happlicable, hlists⟩ := hbrotli
    rw [negotiated_of_brotli_iff hgzip happlicable hlists]
    constructor
    · intro haccepts
      exact ⟨fun hgz hm => absurd ⟨hgz, hm⟩ hgzip, fun hgz hm => absurd ⟨hgz, hm⟩ hgzip,
        fun _ _ _ => haccepts, fun _ _ _ _ _ _ => hlists⟩
    · intro h
      exact h.brotli hgzip happlicable hlists
  · rw [negotiated_of_neither_iff hgzip hbrotli]
    constructor
    · intro hmissed
      exact ⟨fun hgz hm => absurd ⟨hgz, hm⟩ hgzip, fun hgz hm => absurd ⟨hgz, hm⟩ hgzip,
        fun _ hbr hlists => absurd ⟨hbr, hlists⟩ hbrotli,
        fun hgz hbr huncoded hagz habr _ => absurd ⟨hgz, hbr, huncoded, hagz, habr⟩ hmissed⟩
    · rintro h ⟨hgz, hbr, huncoded, hagz, habr⟩
      have hmentions : mentionsGzip req = false :=
        Bool.eq_false_iff.mpr fun hm => hgzip ⟨hgz, hm⟩
      exact hbrotli ⟨hbr, h.found hgz hbr huncoded hagz habr hmentions⟩

end Sent

section Example

/-- A client that asks for a file with this Accept-Encoding. -/
def askedWith (acceptEncoding : Bytes) : ParsedRequest :=
  fileAsked (ascii "GET") [(ascii "Accept-Encoding", acceptEncoding)]

def sixtyBytes : StaticResponse :=
  ⟨200, [(ascii "Content-Type", ascii "text/plain")], List.replicate 60 97⟩

/-- A client refuses gzip and gets it. -/
theorem refused_gzip_added :
    ¬ ∀ (ctx : Context) (env : Env) (location : Option LocationBlock) (req : ParsedRequest)
      (resp : StaticResponse), Negotiated ctx env location req resp := by
  intro h
  have hadded : sentCodings (fileContext true) compressingEnv none
      (askedWith (ascii "gzip;q=0, identity")) sixtyBytes =
      codingsOf sixtyBytes.headers ++ [ascii "gzip"] := by
    decide +kernel
  have haccepts := ((h _ _ _ _ _).accepted _ hadded).1
  unfold AcceptsCoding at haccepts
  revert haccepts
  decide +kernel

end Example

end Handler
end RunNginx
