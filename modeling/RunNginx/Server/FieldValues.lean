import RunNginx.Server.Answers
import RunNginx.Server.KeepAlive

/-!
# Fields of an answer

The values a recipient reads under one name, for the header lists that the answer of a
handler is put together from: what the handler wrote, what a content coding changes, and
what the configuration adds.
-/

namespace RunNginx
namespace Handler

open ByteString HttpMessage Request StaticFiles

/-- The values that are read under a name. -/
def fieldValues (name : Bytes) (hdrs : Headers) : List Bytes :=
  valuesOf name (hdrs.map Response.headerLine)

section Values

variable {name : Bytes}

@[simp] theorem fieldValues_nil : fieldValues name [] = [] :=
  rfl

@[simp] theorem fieldValues_append
    (a b : Headers) :
    fieldValues name (a ++ b) = fieldValues name a ++ fieldValues name b := by
  unfold fieldValues valuesOf
  rw [List.map_append, List.filterMap_append]

theorem fieldValues_cons
    (h : Bytes × Bytes) (hdrs : Headers) :
    fieldValues name (h :: hdrs) = fieldValues name [h] ++ fieldValues name hdrs :=
  fieldValues_append [h] hdrs

/-- A header whose name holds no colon is read under its name. -/
theorem fieldValues_singleton
    {h : Bytes × Bytes} (hcolon : (58 : UInt8) ∉ h.1) :
    fieldValues name [h] =
      if eqIgnoreCase h.1 name then [trimBy isOws (32 :: h.2)] else [] := by
  unfold fieldValues
  rw [valuesOf_headerLines name (by simpa using hcolon), List.filter_singleton]
  cases eqIgnoreCase h.1 name with
  | true => rfl
  | false => rfl

theorem fieldValues_cons_named
    {n : Bytes} (h : (58 : UInt8) ∉ n ∧ eqIgnoreCase n name = true) (v : Bytes)
    (hdrs : Headers) :
    fieldValues name ((n, v) :: hdrs) = trimBy isOws (32 :: v) :: fieldValues name hdrs := by
  rw [fieldValues_cons, fieldValues_singleton h.1, if_pos h.2, List.singleton_append]

theorem fieldValues_cons_other
    {n : Bytes} (h : (58 : UInt8) ∉ n ∧ eqIgnoreCase n name = false) (v : Bytes)
    (hdrs : Headers) :
    fieldValues name ((n, v) :: hdrs) = fieldValues name hdrs := by
  rw [fieldValues_cons, fieldValues_singleton h.1, if_neg (by rw [h.2]; exact Bool.false_ne_true),
    List.nil_append]

theorem fieldValues_eq_nil_iff
    (hdrs : Headers) :
    fieldValues name hdrs = [] ↔
      ∀ h ∈ hdrs, valueOf name (Response.headerLine h) = none := by
  unfold fieldValues valuesOf
  rw [List.filterMap_eq_nil_iff, List.forall_mem_map]

/-- Headers under other names are not read. -/
theorem fieldValues_of_other
    {hdrs : Headers}
    (h : ∀ k ∈ hdrs, (58 : UInt8) ∉ k.1 ∧ eqIgnoreCase k.1 name = false) :
    fieldValues name hdrs = [] := by
  have hnone : hdrs.filter (fun k => eqIgnoreCase k.1 name) = [] := by
    rw [List.filter_eq_nil_iff]
    intro k hk
    rw [(h k hk).2]
    exact Bool.false_ne_true
  unfold fieldValues
  rw [valuesOf_headerLines name fun k hk => (h k hk).1, hnone, List.map_nil]

theorem fieldValues_of_names
    {hdrs : Headers} {names : List Bytes} (hsub : hdrs.map Prod.fst ⊆ names)
    (h : ∀ n ∈ names, (58 : UInt8) ∉ n ∧ eqIgnoreCase n name = false) :
    fieldValues name hdrs = [] :=
  fieldValues_of_other fun k hk => h k.1 (hsub (List.mem_map_of_mem hk))

theorem eqIgnoreCase_of_sameName
    {n known : Bytes} (h : eqIgnoreCase n known = true) :
    eqIgnoreCase n name = eqIgnoreCase known name := by
  have hlower : toAsciiLower n = toAsciiLower known := beq_iff_eq.mp h
  unfold eqIgnoreCase
  rw [hlower]

end Values

section Coding

variable (ctx : Context) (env : Env) (location : Option LocationBlock) (req : ParsedRequest)

/-- Neither compressor is used on a body of this type. -/
structure SentPlain (contentType body : Bytes) : Prop where
  gzip : ¬ Compress.Applies env.gzip
    (Compress.acceptsGzip (getHeader req.headers (ascii "accept-encoding")))
    ⟨(location.bind LocationBlock.gzip).getD ctx.http.gzip, ctx.http.gzipMinLength,
      ctx.http.gzipTypes⟩ contentType body
  brotli : ¬ Compress.Applies env.brotli
    (Compress.acceptsBrotli (getHeader req.headers (ascii "accept-encoding")))
    ⟨ctx.http.brotli, ctx.http.brotliMinLength, ctx.http.brotliTypes⟩ contentType body

/-- The type that is looked up in the lists of compressed types. -/
def contentTypeOf (hdrs : Headers) : Bytes :=
  (getHeader hdrs (ascii "content-type")).getD (ascii "application/octet-stream")

variable {ctx env location req} {resp : StaticResponse}

theorem encodeBody_of_plain
    (h : SentPlain ctx env location req (contentTypeOf resp.headers) resp.body) :
    encodeBody ctx env location req resp = (resp.body, none) := by
  have hgzip := Compress.compressIf_of_not_applies h.gzip
  have hbrotli := Compress.compressIf_of_not_applies h.brotli
  unfold contentTypeOf at hgzip hbrotli
  unfold encodeBody Compress.maybeCompress Compress.maybeBrotli
  dsimp only
  rw [hgzip]
  dsimp only
  rw [hbrotli]

/-- A body that is not sent plain is what a compressor made of it. -/
theorem encodeBody_of_not_plain
    (h : ¬ SentPlain ctx env location req (contentTypeOf resp.headers) resp.body) :
    ∃ coding compressed, encodeBody ctx env location req resp = (compressed, some coding) ∧
      (coding = ascii "gzip" ∧ env.gzip resp.body = some compressed ∨
        coding = ascii "br" ∧ env.brotli resp.body = some compressed) := by
  by_cases hgzip : Compress.Applies env.gzip
      (Compress.acceptsGzip (getHeader req.headers (ascii "accept-encoding")))
      ⟨(location.bind LocationBlock.gzip).getD ctx.http.gzip, ctx.http.gzipMinLength,
        ctx.http.gzipTypes⟩ (contentTypeOf resp.headers) resp.body
  · obtain ⟨compressed, hout, heq⟩ := Compress.compressIf_of_applies hgzip
    refine ⟨ascii "gzip", compressed, ?_, Or.inl ⟨rfl, hout⟩⟩
    unfold contentTypeOf at heq
    unfold encodeBody Compress.maybeCompress
    dsimp only
    rw [heq]
  · have hbrotli : Compress.Applies env.brotli
        (Compress.acceptsBrotli (getHeader req.headers (ascii "accept-encoding")))
        ⟨ctx.http.brotli, ctx.http.brotliMinLength, ctx.http.brotliTypes⟩
        (contentTypeOf resp.headers) resp.body := by
      by_contra hbrotli
      exact h ⟨hgzip, hbrotli⟩
    obtain ⟨compressed, hout, heq⟩ := Compress.compressIf_of_applies hbrotli
    have hplain := Compress.compressIf_of_not_applies hgzip
    refine ⟨ascii "br", compressed, ?_, Or.inr ⟨rfl, hout⟩⟩
    unfold contentTypeOf at heq hplain
    unfold encodeBody Compress.maybeCompress Compress.maybeBrotli
    dsimp only
    rw [hplain]
    dsimp only
    rw [heq]

/-- A body has no coding exactly if it is sent plain. -/
theorem encodeBody_coding_eq_none_iff :
    (encodeBody ctx env location req resp).2 = none ↔
      SentPlain ctx env location req (contentTypeOf resp.headers) resp.body := by
  constructor
  · intro hnone
    by_contra hplain
    obtain ⟨coding, compressed, heq, -⟩ := encodeBody_of_not_plain hplain
    rw [heq] at hnone
    cases hnone
  · intro hplain
    rw [encodeBody_of_plain hplain]

end Coding

section Encoded

variable {name : Bytes} {hdrs : Headers}

/-- The new length is read under its own name only. -/
theorem fieldValues_replaceContentLength
    (hname : eqIgnoreCase (ascii "content-length") name = false) (len : Nat) (hdrs : Headers) :
    fieldValues name (replaceContentLength len hdrs) = fieldValues name hdrs := by
  induction hdrs with
  | nil => rfl
  | cons h hdrs ih =>
      unfold replaceContentLength
      split
      · rename_i hlength
        have hold : fieldValues name [h] = [] := by
          rw [fieldValues_singleton (not_mem_of_eqIgnoreCase rfl (by decide) hlength),
            eqIgnoreCase_of_sameName hlength, hname]
          rfl
        have hcolon : (58 : UInt8) ∉ ascii "Content-Length" := by decide
        have hsame : eqIgnoreCase (ascii "Content-Length") (ascii "content-length") = true := by
          decide
        have hnew : fieldValues name [(ascii "Content-Length", Decimal.render len)] = [] := by
          rw [fieldValues_singleton hcolon, eqIgnoreCase_of_sameName hsame, hname]
          rfl
        rw [fieldValues_cons, fieldValues_cons h, hold, hnew]
      · rw [fieldValues_cons, fieldValues_cons h hdrs, ih]

theorem fieldValues_encodedHeaders
    (hlength : eqIgnoreCase (ascii "content-length") name = false) (hdrs : Headers)
    (coding : Option Bytes) (len : Nat) :
    fieldValues name (encodedHeaders hdrs coding len) =
      fieldValues name hdrs ++
        fieldValues name (coding.toList.map fun c => (ascii "Content-Encoding", c)) := by
  cases coding with
  | none => exact (List.append_nil _).symm
  | some c =>
      unfold encodedHeaders
      rw [fieldValues_replaceContentLength hlength, fieldValues_append]
      rfl

/-- The fields of the answer of a handler, by where they come from. -/
theorem fieldValues_finalHeaders
    (ctx : Context) (env : Env) (server : ServerBlock) (location : Option LocationBlock)
    (req : ParsedRequest) (resp : StaticResponse) :
    fieldValues name (finalHeaders ctx env server location req resp) =
      fieldValues name (encodedHeaders resp.headers (encodeBody ctx env location req resp).2
          (encodeBody ctx env location req resp).1.length) ++
        (fieldValues name (configuredHeaders server location) ++
          fieldValues name (hstsHeaders env server)) := by
  unfold finalHeaders
  rw [addedHeaders_eq, fieldValues_append, fieldValues_append]

/-- The lines that the serializer adds are read under their own names. -/
theorem fieldValues_replyMessage
    (hserver : eqIgnoreCase (ascii "Server") name = false)
    (hconnection : eqIgnoreCase (ascii "Connection") name = false) (status : Nat)
    (hdrs : Headers) (keepAlive : Bool) (body : Bytes) :
    fieldValues name (replyMessage status hdrs keepAlive body).fields =
      fieldValues name hdrs := by
  have hfirst : (58 : UInt8) ∉ ascii "Server" := by decide
  have hlast : (58 : UInt8) ∉ ascii "Connection" := by decide
  unfold replyMessage
  dsimp only
  rw [fieldValues_cons, fieldValues_append, fieldValues_singleton hfirst, hserver,
    fieldValues_singleton hlast, hconnection]
  exact List.append_nil _

end Encoded

end Handler
end RunNginx
