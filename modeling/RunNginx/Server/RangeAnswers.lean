import RunNginx.Server.FieldValues

/-!
# Answers to range requests

The static handler announces in Content-Range which bytes of a file its body holds.  The
stages behind it do not look at the status: they compress a part of a file like any other
body, and they append the configured headers.

`range_intact_iff`: a part of a file is delivered as announced exactly if no compressor is
used on it and no `add_header` repeats one of the fields that describe it.
-/

namespace RunNginx
namespace Handler

open ByteString HttpMessage Request StaticFiles

/-- The bytes of a file from `first` to `last`. -/
def filePart (data : FileData) (first last : Nat) : Bytes :=
  (data.content.drop first).take (last - first + 1)

def contentRange (data : FileData) (first last : Nat) : Bytes :=
  ascii "bytes " ++ Decimal.render first ++ ascii "-" ++ Decimal.render last ++ ascii "/" ++
    Decimal.render data.content.length

/-- The static handler answers with the part of a file that the Range header asks for. -/
structure ServesRange (env : Env) (location : Option LocationBlock) (req : ParsedRequest)
    (resp : StaticResponse) (path : Bytes) (data : FileData) (first last : Nat) : Prop where
  handler : ∀ handler ∈ location.map LocationBlock.handler, handler = .static
  file : env.fs.metadata path = some data
  asked : (getHeader req.headers (ascii "range")).bind
    (fun hdr => parseRange hdr data.content.length) = some (first, last)
  status : resp.status = 206
  served : resp =
    serveRange env.fs path first last data.content.length (mimeForPath path) (etagOf data)

/-- The message holds the part of the file that it announces, without a content coding. -/
structure Intact (m : Message) (data : FileData) (first last : Nat) : Prop where
  range : first ≤ last ∧ last < data.content.length
  body : m.body = filePart data first last
  contentRange : fieldValues (ascii "content-range") m.fields =
    [Handler.contentRange data first last]
  contentLength : fieldValues (ascii "content-length") m.fields =
    [Decimal.render (last - first + 1)]
  uncoded : fieldValues (ascii "content-encoding") m.fields = []

/-- The fields that describe a part of a file. -/
def partFields : List Bytes :=
  [ascii "content-range", ascii "content-length", ascii "content-encoding"]

/-- No stage behind the static handler changes the part of the file or what describes it. -/
structure Untouched (ctx : Context) (env : Env) (server : ServerBlock)
    (location : Option LocationBlock) (req : ParsedRequest) (path : Bytes) (data : FileData)
    (first last : Nat) : Prop where
  plain : SentPlain ctx env location req (mimeForPath path) (filePart data first last)
  configured : ∀ h ∈ configuredHeaders server location, ∀ name ∈ partFields,
    valueOf name (Response.headerLine h) = none

section Static

variable {env : Env} {location : Option LocationBlock} {req : ParsedRequest}
variable {resp : StaticResponse} {path : Bytes} {data : FileData} {first last : Nat}

theorem ServesRange.bounds
    (h : ServesRange env location req resp path data first last) :
    first ≤ last ∧ last < data.content.length := by
  obtain ⟨hdr, -, hparse⟩ := Option.bind_eq_some_iff.mp h.asked
  exact parseRange_bounds data.size_lt hparse

/-- The headers of a part of a file. -/
def partHeaders (path : Bytes) (data : FileData) (first last : Nat) : Headers :=
  [(ascii "Content-Type", mimeForPath path),
    (ascii "Content-Length", Decimal.render (last - first + 1)),
    (ascii "Content-Range", contentRange data first last),
    (ascii "ETag", quoted (etagOf data)),
    (ascii "Accept-Ranges", ascii "bytes")]

theorem ServesRange.resp_eq
    (h : ServesRange env location req resp path data first last) :
    resp = ⟨206, partHeaders path data first last, filePart data first last⟩ := by
  have hstatus := h.status
  have hserved := h.served
  unfold serveRange at hserved
  split at hserved
  · rw [hserved] at hstatus
    cases hstatus
  · rename_i content hread
    obtain rfl := readFile_of_metadata h.file hread
    dsimp only at hserved
    split at hserved
    · rw [hserved] at hstatus
      cases hstatus
    · exact hserved

/-- A file that is reported under 206 is reported for its range. -/
theorem servesRange_of_serveStatic
    {server : ServerBlock} (hhandler : ∀ handler ∈ location.map LocationBlock.handler,
      handler = .static)
    (h : (serveStatic env.fs server location req.path req.method req.headers).status = 206) :
    (∃ path data first last, ServesRange env location req
        (serveStatic env.fs server location req.path req.method req.headers) path data
          first last) ∨
      ∃ entries, location.bind LocationBlock.tryFiles = some entries ∧
        .statusCode 206 ∈ entries := by
  revert h
  refine serveStatic_rule (P := fun resp => resp.status = 206 →
    (∃ path data first last, ServesRange env location req resp path data first last) ∨
      ∃ entries, location.bind LocationBlock.tryFiles = some entries ∧
        .statusCode 206 ∈ entries) ?_ ?_ ?_ req.path
  · intro status message herror h
    have hstatus : status = 206 := h
    omega
  · intro entries code hentries hmem h
    obtain rfl : code = 206 := h
    exact Or.inr ⟨entries, hentries, hmem⟩
  · intro root path data hroot hfile hunder h
    refine Or.inl ?_
    unfold serveFile at h ⊢
    dsimp only at h ⊢
    split at h
    · cases h
    rename_i hmodified
    rw [if_neg hmodified]
    split at h
    · rename_i first last hasked
      exact ⟨path, data, first, last, hhandler, hfile, hasked, h, rfl⟩
    · unfold serveFull at h
      dsimp only at h
      split at h
      · cases h
      split at h
      · cases h
      · cases h

end Static

section Values

theorem trimBy_contentRange
    (data : FileData) (first last : Nat) :
    trimBy isOws (32 :: contentRange data first last) = contentRange data first last := by
  have hbytes : ascii "bytes " = 98 :: ascii "ytes " := by decide
  apply trimBy_blank
  · intro b hb
    rw [contentRange, hbytes, List.cons_append, List.cons_append, List.cons_append,
      List.cons_append, List.cons_append, List.head?_cons] at hb
    obtain rfl := Option.some.inj hb
    decide
  · exact isOws_last_render _ _

theorem partHeaders_contentRange
    (path : Bytes) (data : FileData) (first last : Nat) :
    fieldValues (ascii "content-range") (partHeaders path data first last) =
      [contentRange data first last] := by
  unfold partHeaders
  rw [fieldValues_cons_other (by decide), fieldValues_cons_other (by decide),
    fieldValues_cons_named (by decide), fieldValues_cons_other (by decide),
    fieldValues_cons_other (by decide), trimBy_contentRange, fieldValues_nil]

theorem partHeaders_contentLength
    (path : Bytes) (data : FileData) (first last : Nat) :
    fieldValues (ascii "content-length") (partHeaders path data first last) =
      [Decimal.render (last - first + 1)] := by
  unfold partHeaders
  rw [fieldValues_cons_other (by decide), fieldValues_cons_named (by decide),
    fieldValues_cons_other (by decide), fieldValues_cons_other (by decide),
    fieldValues_cons_other (by decide), trimBy_blank_render, fieldValues_nil]

theorem partHeaders_contentEncoding
    (path : Bytes) (data : FileData) (first last : Nat) :
    fieldValues (ascii "content-encoding") (partHeaders path data first last) = [] := by
  unfold partHeaders
  rw [fieldValues_cons_other (by decide), fieldValues_cons_other (by decide),
    fieldValues_cons_other (by decide), fieldValues_cons_other (by decide),
    fieldValues_cons_other (by decide), fieldValues_nil]

theorem contentTypeOf_partHeaders
    (path : Bytes) (data : FileData) (first last : Nat) :
    contentTypeOf (partHeaders path data first last) = mimeForPath path := by
  have hname : eqIgnoreCase (ascii "Content-Type") (ascii "content-type") = true := by decide
  unfold contentTypeOf getHeader partHeaders
  rw [List.find?_cons]
  dsimp only
  rw [hname]
  rfl

end Values

section Delivered

variable {ctx : Context} {env : Env} {st : ServerState} {raw : Bytes}
variable {req routed : ParsedRequest} {server : ServerBlock} {location : Option LocationBlock}
variable {resp : StaticResponse} {path : Bytes} {data : FileData} {first last : Nat}

/-- The fields of the answer that describe the part are those of the static handler. -/
theorem finished_partFields
    (hcoding : (encodeBody ctx env location req resp).2 = none) :
    ∀ name ∈ partFields,
      fieldValues name (finishedMessage ctx env server location req resp).fields =
        fieldValues name resp.headers ++
          fieldValues name (configuredHeaders server location) := by
  have hown : ∀ name ∈ partFields, eqIgnoreCase (ascii "Server") name = false ∧
      eqIgnoreCase (ascii "Connection") name = false ∧
      eqIgnoreCase (ascii "Strict-Transport-Security") name = false := by
    decide
  have hcolon : (58 : UInt8) ∉ ascii "Strict-Transport-Security" := by decide
  intro name hname
  obtain ⟨hserver, hconnection, hsts⟩ := hown name hname
  have hnone : fieldValues name (hstsHeaders env server) = [] := by
    unfold hstsHeaders
    split
    · split
      · rw [fieldValues_cons_other ⟨hcolon, hsts⟩, fieldValues_nil]
      · rfl
    · rfl
  rw [finishedMessage, fieldValues_replyMessage hserver hconnection, fieldValues_finalHeaders,
    hnone, List.append_nil, hcoding]
  rfl

/-- A coding is named in the answer. -/
theorem finished_coded
    (hcoding : (encodeBody ctx env location req resp).2 ≠ none) :
    fieldValues (ascii "content-encoding")
      (finishedMessage ctx env server location req resp).fields ≠ [] := by
  obtain ⟨coding, hsome⟩ := Option.ne_none_iff_exists'.mp hcoding
  have hname : (58 : UInt8) ∉ ascii "Content-Encoding" ∧
      eqIgnoreCase (ascii "Content-Encoding") (ascii "content-encoding") = true := by
    decide
  rw [finishedMessage, fieldValues_replyMessage (by decide) (by decide),
    fieldValues_finalHeaders, hsome, fieldValues_encodedHeaders (by decide)]
  rw [Option.toList_some, List.map_singleton, fieldValues_cons_named hname]
  simp

/--
An answer for a range carries the bytes it announces, with their number as Content-Length and
without a content coding, if and only if no compressor is used on these bytes and no
configured header repeats one of the fields.
-/
theorem range_intact_iff
    (h : TakesRouted ctx env st raw req server (.finished location routed resp))
    (hrange : ServesRange env location routed resp path data first last) :
    (dispatch ctx env st raw).result.bytes =
        (finishedMessage ctx env server location routed resp).bytes ∧
      (Intact (finishedMessage ctx env server location routed resp) data first last ↔
        Untouched ctx env server location routed path data first last) := by
  refine ⟨(Takes.routed h).written, ?_⟩
  have hplain_iff := @encodeBody_coding_eq_none_iff ctx env location routed resp
  have hresp := hrange.resp_eq
  have htype : contentTypeOf resp.headers = mimeForPath path := by
    rw [hresp]
    exact contentTypeOf_partHeaders path data first last
  have hbody : resp.body = filePart data first last := by rw [hresp]
  rw [htype, hbody] at hplain_iff
  have hranges : fieldValues (ascii "content-range") resp.headers =
      [contentRange data first last] := by
    rw [hresp]
    exact partHeaders_contentRange path data first last
  have hlengths : fieldValues (ascii "content-length") resp.headers =
      [Decimal.render (last - first + 1)] := by
    rw [hresp]
    exact partHeaders_contentLength path data first last
  have hcodings : fieldValues (ascii "content-encoding") resp.headers = [] := by
    rw [hresp]
    exact partHeaders_contentEncoding path data first last
  constructor
  · intro hintact
    have hcoding : (encodeBody ctx env location routed resp).2 = none := by
      by_contra hcoded
      exact finished_coded hcoded hintact.uncoded
    have hfields := @finished_partFields ctx env routed server location resp hcoding
    have hone := hintact.contentRange
    have htwo := hintact.contentLength
    have hthree := hintact.uncoded
    rw [hfields _ (by decide), hranges, List.append_right_eq_self,
      fieldValues_eq_nil_iff] at hone
    rw [hfields _ (by decide), hlengths, List.append_right_eq_self,
      fieldValues_eq_nil_iff] at htwo
    rw [hfields _ (by decide), hcodings, List.nil_append, fieldValues_eq_nil_iff] at hthree
    refine ⟨hplain_iff.mp hcoding, fun k hk name hname => ?_⟩
    simp only [partFields, List.mem_cons, List.not_mem_nil, or_false] at hname
    rcases hname with rfl | rfl | rfl
    · exact hone k hk
    · exact htwo k hk
    · exact hthree k hk
  · intro huntouched
    have hcoding := hplain_iff.mpr huntouched.plain
    have hplain : SentPlain ctx env location routed (contentTypeOf resp.headers) resp.body := by
      rw [htype, hbody]
      exact huntouched.plain
    have hconfigured : ∀ name ∈ partFields,
        fieldValues name (configuredHeaders server location) = [] := fun name hname =>
      (fieldValues_eq_nil_iff _).mpr fun k hk => huntouched.configured k hk name hname
    have hfields : ∀ name ∈ partFields,
        fieldValues name (finishedMessage ctx env server location routed resp).fields =
          fieldValues name resp.headers := by
      intro name hname
      rw [finished_partFields hcoding name hname, hconfigured name hname, List.append_nil]
    refine ⟨hrange.bounds, ?_, ?_, ?_, ?_⟩
    · have hsent := encodeBody_of_plain hplain
      exact (congrArg Prod.fst hsent).trans hbody
    · rw [hfields _ (by decide), hranges]
    · rw [hfields _ (by decide), hlengths]
    · rw [hfields _ (by decide), hcodings]

end Delivered

section Example

/-- A file of equal bytes. -/
def repeatedFile : FileData :=
  ⟨List.replicate 64 97, some 7, true, by decide⟩

def repeatedFiles : FileSystem where
  tree := ⟨fun names =>
    if names = [ascii "srv"] then some .dir
    else if names = [ascii "srv", ascii "a.txt"] then some (.file repeatedFile)
    else none⟩
  cwd := []
  cwd_dir := .root

/-- What gzip makes of sixty of the bytes. -/
def compressedPart : Bytes :=
  [31, 139, 8, 0, 0, 0, 0, 0, 0, 255, 75, 76, 36, 31, 0, 0, 41, 189, 152, 31, 60, 0, 0, 0]

def compressingEnv : Env :=
  { quietEnv repeatedFiles with
    gzip := fun body => if body = List.replicate 60 97 then some compressedPart else none }

/-- A file server, with or without compression. -/
def fileContext (gzip : Bool) : Context where
  lib := ⟨fun _ => none, fun _ => none, fun _ => none⟩
  http := { HttpBlock.default with
    servers := [serverAt (ascii "/srv")], gzip := gzip, gzipMinLength := 20,
    gzipTypes := [ascii "text/plain"] }
  servers_ne_nil := by simp

def partRequest : Bytes :=
  requestOf ["GET /a.txt HTTP/1.1", "Range: bytes=0-59", "Accept-Encoding: gzip"]

def partAsked : ParsedRequest :=
  fileAsked (ascii "GET")
    [(ascii "Range", ascii "bytes=0-59"), (ascii "Accept-Encoding", ascii "gzip")]

def partResponse : StaticResponse :=
  staticHandler repeatedFiles (serverAt (ascii "/srv")) none partAsked.path partAsked.method
    partAsked.headers

theorem part_taken
    (gzip : Bool) :
    TakesRouted (fileContext gzip) compressingEnv (stateWithCache 0 0) partRequest partAsked
      (serverAt (ascii "/srv")) (.finished none partAsked partResponse) := by
  have hparses : parseRequest partRequest = .ok partAsked := by decide +kernel
  have hmissed : Missed compressingEnv (stateWithCache 0 0) partRequest partAsked :=
    ⟨⟨rfl, hparses⟩, rfl⟩
  have hproceeds : Proceeds (fileContext gzip) compressingEnv (stateWithCache 0 0) partRequest
      partAsked :=
    ⟨hmissed, rfl, rfl, rfl⟩
  have hroutes : Routes (fileContext gzip) compressingEnv (stateWithCache 0 0) partRequest
      partAsked (serverAt (ascii "/srv")) none partAsked :=
    hproceeds.routes_alone rfl rfl rfl rfl
  exact .finished ⟨⟨⟨⟨hroutes, nofun⟩, rfl⟩, Nat.zero_le _⟩, rfl⟩ rfl

theorem part_served :
    ServesRange compressingEnv none partAsked partResponse (ascii "/srv/a.txt") repeatedFile
      0 59 := by
  have hserved : partResponse = serveRange repeatedFiles (ascii "/srv/a.txt") 0 59 64
      (mimeForPath (ascii "/srv/a.txt")) (etagOf repeatedFile) ∧
      repeatedFiles.metadata (ascii "/srv/a.txt") = some repeatedFile ∧
      (getHeader partAsked.headers (ascii "range")).bind
        (fun hdr => parseRange hdr repeatedFile.content.length) = some (0, 59) ∧
      partResponse.status = 206 := by
    decide +kernel
  exact ⟨nofun, hserved.2.1, hserved.2.2.1, hserved.2.2.2, hserved.1⟩

/-- Without compression the part is delivered as announced. -/
theorem range_intact_iff_example :
    Intact (finishedMessage (fileContext false) compressingEnv (serverAt (ascii "/srv")) none
      partAsked partResponse) repeatedFile 0 59 := by
  have hplain : ∀ contentType body,
      SentPlain (fileContext false) compressingEnv none partAsked contentType body :=
    fun contentType body => ⟨fun h => Bool.false_ne_true h.enabled,
      fun h => Bool.false_ne_true h.enabled⟩
  exact (range_intact_iff (part_taken false) part_served).2.mpr ⟨hplain _ _, nofun⟩

/-- The part is compressed, and Content-Range still announces its plain bytes. -/
theorem part_compressed :
    ¬ ∀ (ctx : Context) (env : Env) (st : ServerState) (raw : Bytes)
      (req routed : ParsedRequest) (server : ServerBlock) (location : Option LocationBlock)
      (resp : StaticResponse) (path : Bytes) (data : FileData) (first last : Nat),
      TakesRouted ctx env st raw req server (.finished location routed resp) →
        ServesRange env location routed resp path data first last →
          Intact (finishedMessage ctx env server location routed resp) data first last := by
  intro h
  have hintact := h _ _ _ _ _ _ _ _ _ _ _ _ _ (part_taken true) part_served
  have hbody : (finishedMessage (fileContext true) compressingEnv (serverAt (ascii "/srv")) none
      partAsked partResponse).body ≠ filePart repeatedFile 0 59 := by
    decide +kernel
  exact hbody hintact.body

end Example

end Handler
end RunNginx
