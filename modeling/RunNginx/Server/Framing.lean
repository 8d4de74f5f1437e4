import RunNginx.Lib.HttpMessage
import RunNginx.Server.Dispatch

/-!
# Framing of locally generated answers

A header list `Declares` a length when it holds exactly one Content-Length, of that
length, and no name or value that could end a line.  The builders of the stages
declare the length of the body they write; `local_answer_framed` puts them together
for the dispatcher.
-/

namespace RunNginx
namespace Handler

open ByteString HttpMessage StaticFiles Proxy

/-- Text of the configuration that holds no line end. -/
def OneLine (s : Bytes) : Prop :=
  13 ∉ s ∧ 10 ∉ s

instance (s : Bytes) : Decidable (OneLine s) :=
  inferInstanceAs (Decidable (13 ∉ s ∧ 10 ∉ s))

/-- Neither name nor value can end a line, and the name ends at its colon. -/
def CleanHeader (h : Bytes × Bytes) : Prop :=
  10 ∉ h.1 ∧ 58 ∉ h.1 ∧ 10 ∉ h.2

instance (h : Bytes × Bytes) : Decidable (CleanHeader h) := by
  unfold CleanHeader
  infer_instance

def isLength (h : Bytes × Bytes) : Bool :=
  eqIgnoreCase h.1 (ascii "content-length")

/-- The headers are clean and declare a body of this length. -/
def Declares (hdrs : Headers) (len : Nat) : Prop :=
  (∀ h ∈ hdrs, CleanHeader h) ∧
    (hdrs.filter isLength).map Prod.snd = [Decimal.render len]

section Responses

theorem not_lf_render (n : Nat) : (10 : UInt8) ∉ Decimal.render n := by
  intro h
  exact absurd (Decimal.isDigit_of_mem_render h) (by decide)

theorem not_lf_statusReason (status : Nat) : (10 : UInt8) ∉ Response.statusReason status := by
  unfold Response.statusReason
  split <;> decide

theorem headerLine_ne_nil
    (h : Bytes × Bytes) :
    Response.headerLine h ≠ [] := by
  rw [Response.headerLine_eq]
  simp

theorem not_lf_headerLine
    {h : Bytes × Bytes} (hname : (10 : UInt8) ∉ h.1) (hvalue : (10 : UInt8) ∉ h.2) :
    (10 : UInt8) ∉ Response.headerLine h := by
  rw [Response.headerLine_eq]
  simp [hname, hvalue]

theorem headerLine_crlfFree
    {h : Bytes × Bytes}
    (hclean : CleanHeader h) :
    CrlfFree (Response.headerLine h) :=
  crlfFree_of_not_mem (not_lf_headerLine hclean.1 hclean.2.2)

/-- Headers whose names hold no colon are read under their names. -/
theorem valuesOf_headerLines
    {hdrs : Headers} (name : Bytes)
    (hcolon : ∀ h ∈ hdrs, (58 : UInt8) ∉ h.1) :
    valuesOf name (hdrs.map Response.headerLine) =
      (hdrs.filter fun h => eqIgnoreCase h.1 name).map fun h => trimBy isOws (32 :: h.2) := by
  induction hdrs with
  | nil => rfl
  | cons h hdrs ih =>
      have hrest := ih fun k hk => hcolon k (List.mem_cons_of_mem h hk)
      have hvalue := valueOf_field (32 :: h.2) (hcolon h List.mem_cons_self) name
      rw [← Response.headerLine_eq] at hvalue
      simp only [valuesOf] at hrest ⊢
      rw [List.map_cons, List.filterMap_cons, hvalue, List.filter_cons]
      cases hname : eqIgnoreCase h.1 name with
      | true => simp [hrest]
      | false => simp [hrest]

end Responses

section HeaderLists

/-- A clean header of another name. -/
def Other (h : Bytes × Bytes) : Prop :=
  CleanHeader h ∧ isLength h = false

instance (h : Bytes × Bytes) : Decidable (Other h) := by
  unfold Other
  infer_instance

theorem other_of_name
    {name value : Bytes}
    (hname : Other (name, [])) (hvalue : (10 : UInt8) ∉ value) :
    Other (name, value) :=
  ⟨⟨hname.1.1, hname.1.2.1, hvalue⟩, hname.2⟩

theorem declares_length
    (len : Nat) :
    Declares [(ascii "Content-Length", Decimal.render len)] len := by
  have hname : (10 : UInt8) ∉ ascii "Content-Length" ∧ (58 : UInt8) ∉ ascii "Content-Length" ∧
      eqIgnoreCase (ascii "Content-Length") (ascii "content-length") = true := by
    decide
  refine ⟨?_, by simp [isLength, hname.2.2]⟩
  intro h hh
  rw [List.mem_singleton.mp hh]
  exact ⟨hname.1, hname.2.1, not_lf_render len⟩

/-- A header of another name in front changes nothing. -/
theorem Declares.cons
    {h : Bytes × Bytes} {hdrs : Headers} {len : Nat}
    (hdeclares : Declares hdrs len) (hother : Other h) :
    Declares (h :: hdrs) len := by
  refine ⟨?_, by simpa [hother.2] using hdeclares.2⟩
  intro k hk
  rcases List.mem_cons.mp hk with rfl | hk
  · exact hother.1
  · exact hdeclares.1 k hk

/-- Headers of other names behind change nothing. -/
theorem Declares.append
    {hdrs extra : Headers} {len : Nat}
    (hdeclares : Declares hdrs len)
    (hextra : ∀ h ∈ extra, Other h) :
    Declares (hdrs ++ extra) len := by
  have hnone : extra.filter isLength = [] := by
    rw [List.filter_eq_nil_iff]
    intro h hh
    simp [(hextra h hh).2]
  refine ⟨?_, by simpa [List.filter_append, hnone] using hdeclares.2⟩
  intro k hk
  rcases List.mem_append.mp hk with hk | hk
  · exact hdeclares.1 k hk
  · exact (hextra k hk).1

/-- A replaced Content-Length is the one that counts. -/
theorem Declares.replaceContentLength
    {hdrs : Headers} {len : Nat}
    (hdeclares : Declares hdrs len) (newLen : Nat) :
    Declares (replaceContentLength newLen hdrs) newLen := by
  induction hdrs with
  | nil =>
      cases hdeclares.2
  | cons h hdrs ih =>
      obtain ⟨hclean, hlength⟩ := hdeclares
      cases hname : isLength h with
      | true =>
          rw [List.filter_cons, hname] at hlength
          have hrest : ∀ k ∈ hdrs, Other k := by
            intro k hk
            refine ⟨hclean k (by simp [hk]), ?_⟩
            have hnil : hdrs.filter isLength = [] := by
              simpa using (List.cons.inj hlength).2
            have := List.filter_eq_nil_iff.mp hnil k hk
            simpa using this
          rw [Handler.replaceContentLength, if_pos (by simpa [isLength] using hname)]
          exact (declares_length newLen).append hrest
      | false =>
          rw [Handler.replaceContentLength,
            if_neg (by rw [isLength] at hname; simp [hname])]
          refine (ih ⟨fun k hk => hclean k (by simp [hk]), ?_⟩).cons ⟨hclean h (by simp), hname⟩
          simpa [hname] using hlength

end HeaderLists

section Added

variable {env : Env} {server : ServerBlock} {location : Option LocationBlock}

variable (server location) in
/-- The headers that `add_header` directives ask for. -/
def configuredHeaders : Headers :=
  server.addHeaders ++ (location.map LocationBlock.addHeaders).getD []

/-- The value that a configured Strict-Transport-Security header has. -/
def hstsValue (server : ServerBlock) (maxAge : Nat) : Bytes :=
  ascii "max-age=" ++ Decimal.render maxAge ++
    if server.hstsIncludeSubdomains then ascii "; includeSubDomains" else []

variable (env server) in
/-- The header that an encrypted connection is given. -/
def hstsHeaders : Headers :=
  match server.hstsMaxAge with
  | some maxAge =>
      if env.isTls then [(ascii "Strict-Transport-Security", hstsValue server maxAge)] else []
  | none => []

theorem addedHeaders_eq
    (env : Env) (server : ServerBlock) (location : Option LocationBlock) :
    addedHeaders env server location =
      configuredHeaders server location ++ hstsHeaders env server :=
  rfl

theorem not_lf_hstsValue
    (server : ServerBlock) (maxAge : Nat) :
    (10 : UInt8) ∉ hstsValue server maxAge := by
  have hage : (10 : UInt8) ∉ ascii "max-age=" := by decide
  have hsub : (10 : UInt8) ∉ ascii "; includeSubDomains" := by decide
  rw [hstsValue, List.mem_append, List.mem_append]
  rintro ((hmem | hmem) | hmem)
  · exact hage hmem
  · exact not_lf_render _ hmem
  · split at hmem
    · exact hsub hmem
    · cases hmem

end Added

section Serialized

/-- A message whose header list declares the length of its body is framed. -/
theorem framed_of_headers
    {startLine : Bytes} {hdrs : Headers} {body : Bytes}
    (hstart : startLine ≠ [] ∧ CrlfFree startLine) (h : Declares hdrs body.length) :
    Framed (joinLines (startLine :: hdrs.map Response.headerLine) ++ crlf ++ body) := by
  obtain ⟨hclean, hlength⟩ := h
  apply framed_of_lines
  · intro l hl
    rcases List.mem_cons.mp hl with rfl | hl
    · exact hstart.2
    · obtain ⟨k, hk, rfl⟩ := List.mem_map.mp hl
      exact headerLine_crlfFree (hclean k hk)
  · intro l hl
    rcases List.mem_cons.mp hl with rfl | hl
    · exact hstart.1
    · obtain ⟨k, hk, rfl⟩ := List.mem_map.mp hl
      exact headerLine_ne_nil k
  · have hvalues := valuesOf_headerLines (ascii "content-length") fun k hk => (hclean k hk).2.1
    have hmap : (hdrs.filter isLength).map (fun h => trimBy isOws (32 :: h.2)) =
        ((hdrs.filter isLength).map Prod.snd).map fun v => trimBy isOws (32 :: v) := by
      simp
    rw [hlength, List.map_singleton, trimBy_blank_render] at hmap
    exact hvalues.trans hmap

/-- A response whose headers declare the length of its body is framed. -/
theorem framed_formatResponse
    {hdrs : Headers} {body : Bytes}
    (h : Declares hdrs body.length) (status : Nat) (keepAlive : Bool) :
    Framed (Response.formatResponse status hdrs keepAlive body) := by
  let connection : Bytes × Bytes :=
    (ascii "Connection", if keepAlive then ascii "keep-alive" else ascii "close")
  have hconnection : Other connection := by
    cases keepAlive <;> decide
  have hall : Declares ((ascii "Server", ascii "RunNginx/" ++ pkgVersion) :: (hdrs ++ [connection]))
      body.length :=
    (h.append (by simpa using hconnection)).cons (by decide)
  have hlines : Response.headLines status hdrs keepAlive =
      (ascii "HTTP/1.1 " ++ Decimal.render status ++ ascii " " ++ Response.statusReason status) ::
        ((ascii "Server", ascii "RunNginx/" ++ pkgVersion) :: (hdrs ++ [connection])).map
          Response.headerLine := by
    simp only [Response.headLines, List.map_append, List.map_cons, List.map_nil,
      List.cons_append]
    cases keepAlive <;> rfl
  have hstatus : CrlfFree (ascii "HTTP/1.1 " ++ Decimal.render status ++ ascii " " ++
      Response.statusReason status) := by
    apply crlfFree_of_not_mem
    have h1 : (10 : UInt8) ∉ ascii "HTTP/1.1 " := by decide
    have h2 : (10 : UInt8) ∉ ascii " " := by decide
    simp [h1, h2, not_lf_render, not_lf_statusReason]
  unfold Response.formatResponse
  rw [hlines]
  exact framed_of_headers ⟨by simp [ascii], hstatus⟩ hall

end Serialized

section StaticAnswers

theorem errorResponse_declares
    (status : Nat) (message : Bytes) :
    Declares (errorResponse status message).headers
      (errorResponse status message).body.length :=
  (declares_length _).cons (by decide)

theorem notImplemented_declares
    (msg : Bytes) :
    Declares (notImplemented msg).headers (notImplemented msg).body.length :=
  (declares_length _).cons (by decide)

theorem badGateway_declares
    (reason : Bytes) :
    Declares (badGateway reason).headers (badGateway reason).body.length :=
  (declares_length _).cons (by decide)

theorem not_lf_mime (path : Bytes) : (10 : UInt8) ∉ mimeForPath path := by
  have htable : ∀ row ∈ mimeTable, (10 : UInt8) ∉ row.2 := by
    decide
  unfold mimeForPath
  cases hext : (PathText.extension path).bind
      (fun ext => (mimeTable.find? fun row => row.1.contains ext).map Prod.snd) with
  | none => decide
  | some mime =>
      obtain ⟨ext, _, hfind⟩ := Option.bind_eq_some_iff.mp hext
      obtain ⟨row, hrow, rfl⟩ := Option.map_eq_some_iff.mp hfind
      exact htable row (List.mem_of_find?_eq_some hrow)

theorem not_lf_etag (data : FileData) : (10 : UInt8) ∉ quoted (etagOf data) := by
  have hhex : ∀ n, (10 : UInt8) ∉ Decimal.renderHex n := by
    intro n h
    exact absurd (Decimal.not_control_of_mem_renderHex h) (by decide)
  have hdash : (10 : UInt8) ∉ ascii "-" := by decide
  simp [quoted, etagOf, hhex, hdash]

theorem baseHeaders_declares
    (path : Bytes) (data : FileData) (size : Nat) :
    Declares (baseHeaders (mimeForPath path) size (etagOf data)) size := by
  have htail : ∀ h ∈ [(ascii "ETag", quoted (etagOf data)),
      (ascii "Accept-Ranges", ascii "bytes"),
      (ascii "Cache-Control", ascii "public, max-age=3600")],
      Other h := by
    intro h hh
    simp only [List.mem_cons, List.not_mem_nil, or_false] at hh
    rcases hh with rfl | rfl | rfl
    · exact other_of_name (by decide) (not_lf_etag data)
    · decide
    · decide
  exact ((declares_length size).append htail).cons
    (other_of_name (by decide) (not_lf_mime path))

/-- An answer that reports a file declares its body, except for 304 and HEAD. -/
theorem serveFile_declares
    {fs : FileSystem} {path method : Bytes} {data : FileData} {hdrs : Headers}
    (hmeta : fs.metadata path = some data)
    (hmethod : eqIgnoreCase method (ascii "HEAD") = false) :
    Declares (serveFile fs path data method hdrs).headers
        (serveFile fs path data method hdrs).body.length ∨
      ((serveFile fs path data method hdrs).status = 304 ∧
        (Request.getHeader hdrs (ascii "if-none-match")).isSome = true) := by
  unfold serveFile
  simp only
  split
  · rename_i hinm
    refine Or.inr ⟨rfl, ?_⟩
    obtain ⟨inm, hget, _⟩ := (Option.any_eq_true _ _).mp hinm
    rw [hget]
    rfl
  · left
    cases hrange : (Request.getHeader hdrs (ascii "range")).bind
        fun hdr => parseRange hdr data.content.length with
    | none =>
        simp only
        unfold serveFull
        simp only [hmethod, Bool.false_eq_true, if_false]
        cases hread : fs.readFile path with
        | none => exact errorResponse_declares _ _
        | some content =>
            simp only
            rw [readFile_of_metadata hmeta hread]
            exact baseHeaders_declares path data _
    | some range =>
        obtain ⟨hdr, _, hparse⟩ := Option.bind_eq_some_iff.mp hrange
        have hbounds := parseRange_bounds data.size_lt hparse
        simp only
        unfold serveRange
        cases hread : fs.readFile path with
        | none => exact errorResponse_declares _ _
        | some content =>
            simp only
            split
            · exact errorResponse_declares _ _
            · rw [readFile_of_metadata hmeta hread]
              have hcount : ((data.content.drop range.1).take
                  (range.2 - range.1 + 1)).length = range.2 - range.1 + 1 := by
                rw [List.length_take, List.length_drop]
                omega
              simp only [hcount]
              have hnot : ∀ n, (10 : UInt8) ∉ Decimal.render n := not_lf_render
              have htail : ∀ h ∈ [(ascii "Content-Range", ascii "bytes " ++
                    Decimal.render range.1 ++ ascii "-" ++ Decimal.render range.2 ++ ascii "/" ++
                    Decimal.render data.content.length),
                  (ascii "ETag", quoted (etagOf data)),
                  (ascii "Accept-Ranges", ascii "bytes")],
                  Other h := by
                intro h hh
                simp only [List.mem_cons, List.not_mem_nil, or_false] at hh
                have hbytes : (10 : UInt8) ∉ ascii "bytes " := by decide
                have hdash : (10 : UInt8) ∉ ascii "-" := by decide
                have hslash : (10 : UInt8) ∉ ascii "/" := by decide
                rcases hh with rfl | rfl | rfl
                · refine other_of_name (by decide) ?_
                  simp [hnot, hbytes, hdash, hslash]
                · exact other_of_name (by decide) (not_lf_etag data)
                · decide
              exact ((declares_length _).append htail).cons
                (other_of_name (by decide) (not_lf_mime path))

/-- Every static answer declares its body, except for 304 and HEAD. -/
theorem serveStatic_declares
    (fs : FileSystem) (server : ServerBlock) (location : Option LocationBlock)
    (uriPath method : Bytes) (hdrs : Headers)
    (hmethod : eqIgnoreCase method (ascii "HEAD") = false) :
    Declares (serveStatic fs server location uriPath method hdrs).headers
        (serveStatic fs server location uriPath method hdrs).body.length ∨
      ((serveStatic fs server location uriPath method hdrs).status = 304 ∧
        (Request.getHeader hdrs (ascii "if-none-match")).isSome = true) :=
  serveStatic_rule (P := fun resp => Declares resp.headers resp.body.length ∨
      (resp.status = 304 ∧ (Request.getHeader hdrs (ascii "if-none-match")).isSome = true))
    (fun status message _ => Or.inl (errorResponse_declares status message))
    (fun _ code _ _ => Or.inl (errorResponse_declares code _))
    (fun _ _ _ _ hmeta _ => serveFile_declares hmeta hmethod) uriPath

/-- The same holds with an error page put in. -/
theorem staticHandler_declares
    (fs : FileSystem) (server : ServerBlock) (location : Option LocationBlock)
    (uriPath : Bytes) {method : Bytes} (hdrs : Headers)
    (hmethod : eqIgnoreCase method (ascii "HEAD") = false) :
    Declares (staticHandler fs server location uriPath method hdrs).headers
        (staticHandler fs server location uriPath method hdrs).body.length ∨
      ((staticHandler fs server location uriPath method hdrs).status = 304 ∧
        (Request.getHeader hdrs (ascii "if-none-match")).isSome = true) := by
  have hanswer := serveStatic_declares fs server location uriPath method hdrs hmethod
  unfold staticHandler
  simp only
  split
  · cases findErrorPageUri server
        (serveStatic fs server location uriPath method hdrs).status with
    | none => exact hanswer
    | some uri =>
        simp only
        split
        · rename_i hpage
          rcases serveStatic_declares fs server none uri (ascii "GET") []
            (by decide) with h | ⟨h304, _⟩
          · exact Or.inl h
          · rw [hpage] at h304
            cases h304
        · exact hanswer
  · exact hanswer

end StaticAnswers

section ApiAnswers

/-- A line of another field, or none at all. -/
def OtherLine (l : Bytes) : Prop :=
  l ≠ [] ∧ 10 ∉ l ∧ valueOf (ascii "content-length") l = none

instance (l : Bytes) : Decidable (OtherLine l) := by
  unfold OtherLine
  infer_instance

/-- A message that is written line by line around its Content-Length. -/
theorem framed_around
    {startLine : Bytes} (before after : List Bytes)
    (hstart : startLine ≠ [] ∧ (10 : UInt8) ∉ startLine)
    (hother : ∀ l ∈ before ++ after, OtherLine l)
    (body : Bytes) :
    Framed (joinLines (startLine :: (before ++
      (ascii "Content-Length: " ++ Decimal.render body.length) :: after)) ++ crlf ++ body) := by
  have hlen : ascii "Content-Length: " ++ Decimal.render body.length =
      ascii "Content-Length" ++ 58 :: (32 :: Decimal.render body.length) := by
    simp [ascii]
  have hnone : ∀ ls : List Bytes, (∀ l ∈ ls, OtherLine l) →
      valuesOf (ascii "content-length") ls = [] := by
    intro ls hls
    exact List.filterMap_eq_nil_iff.mpr fun l hl => (hls l hl).2.2
  have hvalue : valueOf (ascii "content-length")
      (ascii "Content-Length" ++ 58 :: (32 :: Decimal.render body.length)) =
        some (Decimal.render body.length) := by
    rw [valueOf_field _ (by decide), if_pos (by decide), trimBy_blank_render]
  rw [hlen]
  have hall : ∀ l ∈ startLine :: (before ++
      (ascii "Content-Length" ++ 58 :: (32 :: Decimal.render body.length)) :: after),
      l ≠ [] ∧ (10 : UInt8) ∉ l := by
    intro l hl
    rcases List.mem_cons.mp hl with rfl | hl
    · exact hstart
    rcases List.mem_append.mp hl with hl | hl
    · exact ⟨(hother l (by simp [hl])).1, (hother l (by simp [hl])).2.1⟩
    rcases List.mem_cons.mp hl with rfl | hl
    · have hname : (10 : UInt8) ∉ ascii "Content-Length" := by decide
      simp [hname, not_lf_render]
    · exact ⟨(hother l (by simp [hl])).1, (hother l (by simp [hl])).2.1⟩
  apply framed_of_lines
  · exact fun l hl => crlfFree_of_not_mem (hall l hl).2
  · exact fun l hl => (hall l hl).1
  · have hbefore := hnone before fun l hl => hother l (by simp [hl])
    have hafter := hnone after fun l hl => hother l (by simp [hl])
    simp only [valuesOf] at hbefore hafter ⊢
    rw [List.filterMap_append, List.filterMap_cons, hbefore, hafter, hvalue]
    rfl

theorem statusLine_ok
    (status : Nat) {reason : Bytes}
    (hreason : (10 : UInt8) ∉ reason) :
    ascii "HTTP/1.1 " ++ Decimal.render status ++ ascii " " ++ reason ≠ [] ∧
      (10 : UInt8) ∉ ascii "HTTP/1.1 " ++ Decimal.render status ++ ascii " " ++ reason := by
  have h1 : (10 : UInt8) ∉ ascii "HTTP/1.1 " := by decide
  have h2 : (10 : UInt8) ∉ ascii " " := by decide
  exact ⟨by simp [ascii], by simp [h1, h2, not_lf_render, hreason]⟩

theorem jsonResponse_framed
    (status : Nat) (body : Bytes) :
    Framed (Api.jsonResponse status body) := by
  have hreason : (10 : UInt8) ∉ Api.jsonReason status := by
    unfold Api.jsonReason
    split <;> decide
  exact framed_around [ascii "Content-Type: application/json"]
    [ascii "Server: RunNginx/" ++ pkgVersion, ascii "Connection: close"]
    (statusLine_ok status hreason) (by decide) body

theorem jsonOk_framed
    (body : Bytes) :
    Framed (MultiUser.jsonOk body) :=
  framed_around [ascii "Content-Type: application/json"]
    [ascii "Connection: keep-alive"] (by decide) (by decide) body

theorem jsonErr_framed
    (status : Nat) (msg : Bytes) :
    Framed (MultiUser.jsonErr status msg) := by
  have hreason : (10 : UInt8) ∉ (if status = 400 then ascii "Bad Request"
      else if status = 404 then ascii "Not Found" else ascii "Internal Server Error") := by
    split
    · decide
    split <;> decide
  exact framed_around [ascii "Content-Type: application/json"]
    [ascii "Connection: keep-alive"] (statusLine_ok status hreason)
    (by decide) _

end ApiAnswers

end Handler
end RunNginx
