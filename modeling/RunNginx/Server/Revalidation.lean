import RunNginx.Lib.IpText
import RunNginx.Lib.Revalidated
import RunNginx.Server.StaticFiles

/-!
# Revalidation of static files

The tag of a file is its size with its modification time in seconds.  A client that keeps the last
answer asks with the tag of it, and is told that the file has not been modified, or gets it again.

`revalidated_iff`: such a client is shown at every visit, whatever happens to the files between
them, what a client without a copy gets, exactly if no two visits in a row find files of one size
and one second and would be answered differently.
-/

namespace RunNginx
namespace StaticFiles

open ByteString Request

/-! ### Where a request leads -/

/-- The file that a path leads to, or the answer where there is none. -/
def locatePath (fs : FileSystem) (path root : Bytes) (indexFiles : List Bytes) :
    Except StaticResponse (Bytes × FileData) :=
  match effectivePath fs path indexFiles with
  | none => .error (errorResponse 403 (ascii "forbidden"))
  | some effective =>
      if !fs.exists effective then .error (errorResponse 404 (ascii "not found"))
      else if !fs.isFile effective then .error (errorResponse 404 (ascii "not found"))
      else if !assertWithinRoot fs effective root then
        .error (errorResponse 403 (ascii "forbidden"))
      else match fs.metadata effective with
      | none => .error (errorResponse 404 (ascii "not found"))
      | some data => .ok (effective, data)

/-- The file that `try_files` leads to. -/
def locateTryFiles (fs : FileSystem) (root decodedUri : Bytes) (indexFiles : List Bytes) :
    List TryFilesEntry → Except StaticResponse (Bytes × FileData)
  | [] => .error (errorResponse 404 (ascii "not found"))
  | .path p :: entries =>
      let candidate := jailPath root (expandUri p decodedUri)
      if fs.exists candidate then locatePath fs candidate root indexFiles
      else locateTryFiles fs root decodedUri indexFiles entries
  | .statusCode code :: _ => .error (errorResponse code (ascii "not found"))
  | .named _ :: _ => .error (errorResponse 404 (ascii "not found"))

/-- The file that a request leads to. -/
def locate (fs : FileSystem) (server : ServerBlock) (location : Option LocationBlock)
    (uriPath : Bytes) : Except StaticResponse (Bytes × FileData) :=
  match effectiveRoot server location with
  | none => .error (errorResponse 500 (ascii "no root configured"))
  | some root =>
      let indexFiles := (location.bind LocationBlock.index).getD server.index
      match percentDecode uriPath with
      | none => .error (errorResponse 400 (ascii "invalid URI encoding"))
      | some decoded =>
          match location.bind LocationBlock.tryFiles with
          | some tryFiles => locateTryFiles fs root decoded indexFiles tryFiles
          | none => locatePath fs (jailPath root decoded) root indexFiles

/-- The answer to a request, once it is known where it leads. -/
def answerFor (fs : FileSystem) (method : Bytes) (reqHdrs : Headers) :
    Except StaticResponse (Bytes × FileData) → StaticResponse
  | .error resp => resp
  | .ok (path, data) => serveFile fs path data method reqHdrs

section Located

variable (fs : FileSystem) (method : Bytes) (reqHdrs : Headers)

theorem servePath_eq_answerFor
    (path root : Bytes) (indexFiles : List Bytes) :
    servePath fs path root indexFiles method reqHdrs =
      answerFor fs method reqHdrs (locatePath fs path root indexFiles) := by
  unfold servePath locatePath
  cases effectivePath fs path indexFiles with
  | none => rfl
  | some effective =>
      dsimp only
      split
      · rfl
      · split
        · rfl
        · split
          · rfl
          · cases fs.metadata effective with
            | none => rfl
            | some data => rfl

theorem handleTryFiles_eq_answerFor
    (root decodedUri : Bytes) (indexFiles : List Bytes) (entries : List TryFilesEntry) :
    handleTryFiles fs root decodedUri indexFiles method reqHdrs entries =
      answerFor fs method reqHdrs (locateTryFiles fs root decodedUri indexFiles entries) := by
  induction entries with
  | nil => rfl
  | cons entry entries ih =>
      cases entry with
      | path p =>
          rw [handleTryFiles, locateTryFiles]
          split
          · exact servePath_eq_answerFor fs method reqHdrs _ root indexFiles
          · exact ih
      | statusCode code => rfl
      | named name => rfl

theorem serveStatic_eq
    (server : ServerBlock) (location : Option LocationBlock) (uriPath : Bytes) :
    serveStatic fs server location uriPath method reqHdrs =
      answerFor fs method reqHdrs (locate fs server location uriPath) := by
  unfold serveStatic locate
  cases effectiveRoot server location with
  | none => rfl
  | some root =>
      cases percentDecode uriPath with
      | none => rfl
      | some decoded =>
          cases location.bind LocationBlock.tryFiles with
          | some tryFiles =>
              exact handleTryFiles_eq_answerFor fs method reqHdrs root decoded _ tryFiles
          | none => exact servePath_eq_answerFor fs method reqHdrs _ root _

end Located

/-! ### Tags -/

section Tags

variable {data data' : FileData}

/-- Text without quotes is what is left of it between quotes. -/
theorem trimBy_quoted
    {s : Bytes} (h : ∀ b ∈ s, (b == 34) = false) :
    trimBy (· == 34) (quoted s) = s := by
  have hkept : ∀ t : Bytes, (∀ b ∈ t, (b == 34) = false) → ∀ rest : Bytes, t ≠ [] →
      (t ++ rest).dropWhile (· == 34) = t ++ rest := by
    intro t ht rest hne
    obtain ⟨b, t, rfl⟩ := List.exists_cons_of_ne_nil hne
    rw [List.cons_append, List.dropWhile_cons_of_neg]
    rw [ht b List.mem_cons_self]
    exact Bool.false_ne_true
  by_cases hs : s = []
  · rw [hs]
    rfl
  have hback := hkept s.reverse (fun b hb => h b (List.mem_reverse.mp hb)) []
    (mt List.reverse_eq_nil_iff.mp hs)
  rw [List.append_nil] at hback
  unfold trimBy quoted
  rw [List.dropWhile_cons_of_pos rfl, hkept s h [34] hs, List.reverse_append,
    List.reverse_singleton, List.singleton_append, List.dropWhile_cons_of_pos rfl, hback,
    List.reverse_reverse]

theorem trimBy_quoted_etag
    (data : FileData) :
    trimBy (· == 34) (quoted (etagOf data)) = etagOf data := by
  have hdigit : ∀ n, ∀ b ∈ Decimal.renderHex n, (b == 34) = false := by
    intro n b hb
    have hle := Decimal.not_control_of_mem_renderHex hb
    exact beq_eq_false_iff_ne.mpr fun h => absurd (h ▸ hle) (by decide)
  refine trimBy_quoted fun b hb => ?_
  rcases List.mem_append.mp hb with hb | hb
  · rcases List.mem_append.mp hb with hb | hb
    · exact hdigit _ b hb
    · rw [List.mem_singleton.mp hb]
      rfl
  · exact hdigit _ b hb

/-- The tag tells the size and the second of a file, and nothing else. -/
theorem etagOf_inj :
    etagOf data' = etagOf data ↔
      data'.content.length = data.content.length ∧ data'.mtime.getD 0 = data.mtime.getD 0 := by
  have hdash : ∀ n, (45 : UInt8) ∉ Decimal.renderHex n := fun n hmem =>
    absurd (Decimal.not_control_of_mem_renderHex hmem) (by decide)
  have htext : ∀ d : FileData, etagOf d =
      Decimal.renderHex d.content.length ++ 45 :: Decimal.renderHex (d.mtime.getD 0) := by
    intro d
    unfold etagOf
    rw [List.append_assoc]
    rfl
  constructor
  · intro h
    have hpieces := congrArg (splitByte 45) h
    rw [htext, htext, splitByte_append (hdash _), splitByte_append (hdash _),
      splitByte_of_not_mem (hdash _), splitByte_of_not_mem (hdash _)] at hpieces
    obtain ⟨hsize, htime⟩ := List.cons.inj hpieces
    exact ⟨IpAddr.renderHex_inj hsize, IpAddr.renderHex_inj (List.singleton_inj.mp htime)⟩
  · rintro ⟨hsize, htime⟩
    rw [htext, htext, hsize, htime]

end Tags

/-! ### The client -/

/-- The tag that a client keeps an answer under. -/
def keptTag (resp : StaticResponse) : Option Bytes :=
  if resp.status = 200 then getHeader resp.headers (ascii "etag") else none

/-- What a client with this copy sends. -/
def conditional (copy : Option StaticResponse) (hdrs : Headers) : Headers :=
  match copy.bind keptTag with
  | some tag => (ascii "If-None-Match", tag) :: hdrs
  | none => hdrs

section Client

variable (server : ServerBlock) (location : Option LocationBlock) (uriPath : Bytes)
variable (hdrs : Headers)

/-- What a client without a copy gets. -/
def plainAnswer (fs : FileSystem) : StaticResponse :=
  staticHandler fs server location uriPath (ascii "GET") hdrs

/-- A visit of a client: what it is shown, and the copy it has then. -/
def revisit (copy : Option StaticResponse) (fs : FileSystem) :
    StaticResponse × Option StaticResponse :=
  let resp := staticHandler fs server location uriPath (ascii "GET") (conditional copy hdrs)
  if resp.status = 304 then (copy.getD resp, copy)
  else (resp, Revalidated.keep keptTag resp)

/-- What a client is shown at visits one after the other. -/
def revisits : Option StaticResponse → List FileSystem → List StaticResponse
  | _, [] => []
  | copy, fs :: visits =>
      (revisit server location uriPath hdrs copy fs).1 ::
        revisits (revisit server location uriPath hdrs copy fs).2 visits

/-- Two visits find files of one size and one second, and the first answer is not the second. -/
def Confused (fs fs' : FileSystem) : Prop :=
  ∃ path data path' data', locate fs server location uriPath = .ok (path, data) ∧
    (plainAnswer server location uriPath hdrs fs).status = 200 ∧
    locate fs' server location uriPath = .ok (path', data') ∧
    data'.content.length = data.content.length ∧ data'.mtime.getD 0 = data.mtime.getD 0 ∧
    plainAnswer server location uriPath hdrs fs' ≠ plainAnswer server location uriPath hdrs fs

/-- What there is at a visit. -/
def nowAt (fs : FileSystem) : Revalidated.Now Bytes StaticResponse where
  current :=
    match locate fs server location uriPath with
    | .error _ => none
    | .ok (_, data) => some (quoted (etagOf data))
  plain := plainAnswer server location uriPath hdrs fs

end Client

/-! ### The client is one of the protocol -/

section Protocol

variable {server : ServerBlock} {location : Option LocationBlock} {uriPath : Bytes}
variable {hdrs : Headers} {fs : FileSystem} {copy : Option StaticResponse}
variable {path : Bytes} {data : FileData}

/-- Where no file is found, the headers of the request do not matter. -/
theorem staticHandler_of_error
    {resp : StaticResponse} (h : locate fs server location uriPath = .error resp)
    (reqHdrs : Headers) :
    staticHandler fs server location uriPath (ascii "GET") reqHdrs =
      plainAnswer server location uriPath hdrs fs := by
  unfold plainAnswer staticHandler
  simp only [serveStatic_eq, h, answerFor]

/-- A copy that is current is not sent again. -/
theorem staticHandler_notModified
    (h : locate fs server location uriPath = .ok (path, data)) :
    (staticHandler fs server location uriPath (ascii "GET")
      ((ascii "If-None-Match", quoted (etagOf data)) :: hdrs)).status = 304 := by
  have hheader : getHeader ((ascii "If-None-Match", quoted (etagOf data)) :: hdrs)
      (ascii "if-none-match") = some (quoted (etagOf data)) := rfl
  have hserve : serveStatic fs server location uriPath (ascii "GET")
      ((ascii "If-None-Match", quoted (etagOf data)) :: hdrs) =
        ⟨304, [(ascii "ETag", quoted (etagOf data)),
          (ascii "Cache-Control", ascii "public, max-age=3600")], []⟩ := by
    rw [serveStatic_eq, h]
    unfold answerFor serveFile
    rw [hheader]
    exact if_pos (beq_iff_eq.mpr (trimBy_quoted_etag data))
  unfold staticHandler
  rw [hserve]
  rfl

/-- A client asks with another tag, or with none, and gets the file. -/
theorem serveStatic_modified
    (hrange : getHeader hdrs (ascii "range") = none)
    (h : locate fs server location uriPath = .ok (path, data)) (reqHdrs : Headers)
    (hreq : reqHdrs = hdrs ∧ getHeader hdrs (ascii "if-none-match") = none ∨
      ∃ tag, reqHdrs = (ascii "If-None-Match", tag) :: hdrs ∧
        (trimBy (· == 34) tag == etagOf data) = false) :
    serveStatic fs server location uriPath (ascii "GET") reqHdrs =
      serveFull fs path data (ascii "GET") := by
  rw [serveStatic_eq, h]
  unfold answerFor serveFile
  rcases hreq with ⟨rfl, hnone⟩ | ⟨tag, rfl, hother⟩
  · rw [hnone, hrange]
    rfl
  · have hheader : getHeader ((ascii "If-None-Match", tag) :: hdrs) (ascii "if-none-match") =
        some tag := rfl
    have hrange' : getHeader ((ascii "If-None-Match", tag) :: hdrs) (ascii "range") =
        getHeader hdrs (ascii "range") := rfl
    rw [hheader, hrange', hrange]
    dsimp only
    rw [Option.any_some, hother]
    rfl

/-- A file that cannot be read is an error, and any other is sent. -/
theorem serveFull_get
    (fs : FileSystem) (path : Bytes) (data : FileData) :
    serveFull fs path data (ascii "GET") =
      match fs.readFile path with
      | some content =>
          ⟨200, baseHeaders (mimeForPath path) data.content.length (etagOf data), content⟩
      | none => errorResponse 500 (ascii "internal server error") := rfl

/-- A client that asks for the file gets what one without a copy gets. -/
theorem staticHandler_modified
    (hrange : getHeader hdrs (ascii "range") = none)
    (hinm : getHeader hdrs (ascii "if-none-match") = none)
    (h : locate fs server location uriPath = .ok (path, data)) {tag : Bytes}
    (htag : (trimBy (· == 34) tag == etagOf data) = false) :
    staticHandler fs server location uriPath (ascii "GET")
      ((ascii "If-None-Match", tag) :: hdrs) = plainAnswer server location uriPath hdrs fs := by
  unfold plainAnswer staticHandler
  rw [serveStatic_modified hrange h _ (.inr ⟨tag, rfl, htag⟩),
    serveStatic_modified hrange h hdrs (.inl ⟨rfl, hinm⟩)]

/-- Error pages are not kept. -/
theorem keptTag_staticHandler
    (reqHdrs : Headers) :
    keptTag (staticHandler fs server location uriPath (ascii "GET") reqHdrs) =
      keptTag (serveStatic fs server location uriPath (ascii "GET") reqHdrs) := by
  have hnone : ∀ resp : StaticResponse, 400 ≤ resp.status → keptTag resp = none := by
    intro resp h
    exact if_neg (by omega)
  unfold staticHandler
  generalize serveStatic fs server location uriPath (ascii "GET") reqHdrs = resp
  dsimp only
  split
  · rename_i hstatus
    rw [hnone resp hstatus]
    split
    · split
      · exact hnone _ hstatus
      · exact hnone _ hstatus
    · exact hnone _ hstatus
  · rfl

/-- Where no file is found, nothing is kept, and no status is 304 that `try_files` does not name. -/
theorem locate_error
    {resp : StaticResponse} (h : locate fs server location uriPath = .error resp) :
    keptTag resp = none ∧
      (resp.status = 304 → ∃ entries ∈ location.bind LocationBlock.tryFiles,
        .statusCode 304 ∈ entries) := by
  have hpage : ∀ status message, keptTag (errorResponse status message) = none := by
    intro status message
    unfold keptTag
    split
    · rfl
    · rfl
  have hpath : ∀ {path root indexFiles}, locatePath fs path root indexFiles = .error resp →
      keptTag resp = none ∧ resp.status ≠ 304 := by
    intro path root indexFiles h
    unfold locatePath at h
    repeat' split at h
    all_goals cases h
    all_goals exact ⟨hpage _ _, by decide⟩
  have htry : ∀ {root decoded indexFiles} entries,
      locateTryFiles fs root decoded indexFiles entries = .error resp →
        keptTag resp = none ∧ (resp.status = 304 → .statusCode 304 ∈ entries) := by
    intro root decoded indexFiles entries
    induction entries with
    | nil =>
        intro h
        cases h
        exact ⟨hpage _ _, fun h304 => absurd h304 (by decide)⟩
    | cons entry entries ih =>
        intro h
        cases entry with
        | path p =>
            rw [locateTryFiles] at h
            split at h
            · exact ⟨(hpath h).1, fun h304 => absurd h304 (hpath h).2⟩
            · exact ⟨(ih h).1, fun h304 => List.mem_cons_of_mem _ ((ih h).2 h304)⟩
        | statusCode code =>
            cases h
            refine ⟨hpage _ _, fun h304 => ?_⟩
            obtain rfl : code = 304 := h304
            exact List.mem_cons_self
        | named name =>
            cases h
            exact ⟨hpage _ _, fun h304 => absurd h304 (by decide)⟩
  unfold locate at h
  split at h
  · cases h
    exact ⟨hpage _ _, fun h304 => absurd h304 (by decide)⟩
  dsimp only at h
  split at h
  · cases h
    exact ⟨hpage _ _, fun h304 => absurd h304 (by decide)⟩
  split at h
  · rename_i entries hentries
    exact ⟨(htry entries h).1, fun h304 => ⟨entries, hentries, (htry entries h).2 h304⟩⟩
  · exact ⟨(hpath h).1, fun h304 => absurd h304 (hpath h).2⟩

/-- The status that tells a client to use its copy is not one of `try_files`. -/
def NoBare304 (location : Option LocationBlock) : Prop :=
  ∀ entries ∈ location.bind LocationBlock.tryFiles, .statusCode 304 ∉ entries

/-- Copies come with the tag of a file. -/
def HasFileTag (copy : Option StaticResponse) : Prop :=
  ∀ tag ∈ copy.bind keptTag, ∃ data, tag = quoted (etagOf data)

section Plain

variable (hrange : getHeader hdrs (ascii "range") = none)
variable (hinm : getHeader hdrs (ascii "if-none-match") = none)

include hrange hinm

/-- The answer with a file is kept under the tag of the file. -/
theorem keptTag_plainAnswer
    (h : locate fs server location uriPath = .ok (path, data)) (tag : Bytes) :
    keptTag (plainAnswer server location uriPath hdrs fs) = some tag ↔
      (plainAnswer server location uriPath hdrs fs).status = 200 ∧
        tag = quoted (etagOf data) := by
  have hserve := serveStatic_modified hrange h hdrs (.inl ⟨rfl, hinm⟩)
  have hkept : keptTag (plainAnswer server location uriPath hdrs fs) =
      keptTag (serveFull fs path data (ascii "GET")) := by
    rw [← hserve]
    exact keptTag_staticHandler hdrs
  have hstatus : (plainAnswer server location uriPath hdrs fs).status =
      (serveFull fs path data (ascii "GET")).status := by
    rw [← hserve]
    unfold plainAnswer staticHandler
    dsimp only
    split
    · split
      · split
        · rfl
        · rfl
      · rfl
    · rfl
  rw [hkept, hstatus, serveFull_get]
  cases fs.readFile path with
  | none =>
      refine ⟨fun h => ?_, fun h => ?_⟩
      · cases h
      · cases h.1
  | some content =>
      dsimp only
      have htag : keptTag ⟨200, baseHeaders (mimeForPath path) data.content.length (etagOf data),
          content⟩ = some (quoted (etagOf data)) := rfl
      constructor
      · exact fun h => ⟨rfl, (Option.some.inj (htag.symm.trans h)).symm⟩
      · rintro ⟨-, rfl⟩
        exact htag

/-- What is kept has the tag of a file that was found. -/
theorem exists_of_keptTag_plainAnswer
    {tag : Bytes} (h : keptTag (plainAnswer server location uriPath hdrs fs) = some tag) :
    ∃ path data, locate fs server location uriPath = .ok (path, data) ∧
      tag = quoted (etagOf data) := by
  cases hlocate : locate fs server location uriPath with
  | ok found =>
      obtain ⟨path, data⟩ := found
      exact ⟨path, data, rfl, ((keptTag_plainAnswer hrange hinm hlocate tag).mp h).2⟩
  | error resp =>
      have hnone : keptTag (plainAnswer server location uriPath hdrs fs) = none := by
        refine (keptTag_staticHandler hdrs).trans ?_
        rw [serveStatic_eq, hlocate]
        exact (locate_error hlocate).1
      rw [hnone] at h
      cases h

/-- Without a copy, no answer says that there is one. -/
theorem plainAnswer_status
    (hbare : NoBare304 location) (fs : FileSystem) :
    (plainAnswer server location uriPath hdrs fs).status ≠ 304 := by
  have hserve : (serveStatic fs server location uriPath (ascii "GET") hdrs).status ≠ 304 := by
    rw [serveStatic_eq]
    cases hlocate : locate fs server location uriPath with
    | error resp =>
        intro h
        obtain ⟨entries, hentries, hmem⟩ := (locate_error hlocate).2 h
        exact hbare entries hentries hmem
    | ok found =>
        obtain ⟨path, data⟩ := found
        rw [← hlocate, ← serveStatic_eq,
          serveStatic_modified hrange hlocate hdrs (.inl ⟨rfl, hinm⟩), serveFull_get]
        cases fs.readFile path with
        | none =>
            intro h
            cases h
        | some content =>
            intro h
            cases h
  unfold plainAnswer staticHandler
  dsimp only
  split
  · split
    · split
      · exact hserve
      · exact hserve
    · exact hserve
  · exact hserve

/-- The client does what a client of the protocol does. -/
theorem revisit_eq_visit
    (hbare : NoBare304 location) (hcopy : HasFileTag copy) (fs : FileSystem) :
    revisit server location uriPath hdrs copy fs =
      Revalidated.visit keptTag copy (nowAt server location uriPath hdrs fs) := by
  have hplain : (plainAnswer server location uriPath hdrs fs).status ≠ 304 :=
    plainAnswer_status hrange hinm hbare fs
  have hother : staticHandler fs server location uriPath (ascii "GET") (conditional copy hdrs) =
      plainAnswer server location uriPath hdrs fs →
      Revalidated.isCurrent keptTag copy (nowAt server location uriPath hdrs fs) = false →
      revisit server location uriPath hdrs copy fs =
        Revalidated.visit keptTag copy (nowAt server location uriPath hdrs fs) := by
    intro hresp hcurrent
    unfold revisit Revalidated.visit
    rw [hresp, hcurrent]
    exact if_neg hplain
  cases htag : copy.bind keptTag with
  | none =>
      have hhdrs : conditional copy hdrs = hdrs := by
        unfold conditional
        rw [htag]
      refine hother (by rw [hhdrs]; rfl) ?_
      unfold Revalidated.isCurrent
      rw [htag]
      cases (nowAt server location uriPath hdrs fs).current with
      | none => rfl
      | some tag => rfl
  | some tag =>
      obtain ⟨kept, rfl⟩ := hcopy tag htag
      have hhdrs : conditional copy hdrs =
          (ascii "If-None-Match", quoted (etagOf kept)) :: hdrs := by
        unfold conditional
        rw [htag]
      cases hlocate : locate fs server location uriPath with
      | error resp =>
          refine hother (staticHandler_of_error hlocate _) ?_
          unfold Revalidated.isCurrent nowAt
          rw [hlocate]
          rfl
      | ok found =>
          obtain ⟨path, data⟩ := found
          obtain ⟨c, rfl, hkept⟩ := Option.bind_eq_some_iff.mp htag
          have hnow : (nowAt server location uriPath hdrs fs).current =
              some (quoted (etagOf data)) := by
            unfold nowAt
            rw [hlocate]
          by_cases hsame : etagOf kept = etagOf data
          · have hcurrent := Revalidated.isCurrent_iff.mpr
              ⟨c, _, rfl, hkept, hnow.trans (congrArg (some ∘ quoted) hsame.symm)⟩
            unfold revisit Revalidated.visit
            rw [hcurrent, hhdrs, hsame]
            exact if_pos (staticHandler_notModified hlocate)
          · refine hother ?_ (Bool.eq_false_iff.mpr fun hcurrent => hsame ?_)
            · rw [hhdrs]
              refine staticHandler_modified hrange hinm hlocate ?_
              rw [trimBy_quoted_etag]
              exact beq_eq_false_iff_ne.mpr hsame
            · obtain ⟨c', tag, hc, htag', hnow'⟩ := Revalidated.isCurrent_iff.mp hcurrent
              obtain rfl := Option.some.inj hc
              have hquoted : quoted (etagOf kept) = quoted (etagOf data) :=
                Option.some.inj ((hkept.symm.trans htag').trans (hnow'.symm.trans hnow))
              rw [← trimBy_quoted_etag kept, hquoted, trimBy_quoted_etag]

/-- The next copy has the tag of a file as well. -/
theorem hasFileTag_visit
    (hcopy : HasFileTag copy) (fs : FileSystem) :
    HasFileTag (Revalidated.visit keptTag copy (nowAt server location uriPath hdrs fs)).2 := by
  unfold Revalidated.visit
  split
  · exact hcopy
  · intro tag htag
    obtain ⟨c, hc, htag⟩ := Option.bind_eq_some_iff.mp htag
    dsimp only at hc
    unfold Revalidated.keep at hc
    split at hc
    · obtain rfl := Option.some.inj hc
      obtain ⟨path, data, -, hdata⟩ := exists_of_keptTag_plainAnswer hrange hinm htag
      exact ⟨data, hdata⟩
    · cases hc

/-- The visits of the client are visits of the protocol. -/
theorem revisits_eq_shown
    (hbare : NoBare304 location) (visits : List FileSystem) (hcopy : HasFileTag copy) :
    revisits server location uriPath hdrs copy visits =
      Revalidated.shown keptTag copy (visits.map (nowAt server location uriPath hdrs)) := by
  induction visits generalizing copy with
  | nil => rfl
  | cons fs visits ih =>
      rw [revisits, revisit_eq_visit hrange hinm hbare hcopy, List.map_cons, Revalidated.shown,
        ih (hasFileTag_visit hrange hinm hcopy fs)]

/-- One tag stands for different answers exactly if the tag is taken for another file. -/
theorem faithful_nowAt_iff
    (fs fs' : FileSystem) :
    Revalidated.Faithful keptTag (nowAt server location uriPath hdrs fs)
        (nowAt server location uriPath hdrs fs') ↔
      ¬ Confused server location uriPath hdrs fs fs' := by
  unfold Revalidated.Faithful Confused
  constructor
  · rintro h ⟨path, data, path', data', hlocate, hstatus, hlocate', hsize, htime, hne⟩
    refine hne (h (quoted (etagOf data)) ?_ ?_)
    · exact (keptTag_plainAnswer hrange hinm hlocate _).mpr ⟨hstatus, rfl⟩
    · unfold nowAt
      rw [hlocate']
      exact congrArg (some ∘ quoted) (etagOf_inj.mpr ⟨hsize, htime⟩)
  · intro h tag htag hcurrent
    by_contra hne
    obtain ⟨path, data, hlocate, rfl⟩ := exists_of_keptTag_plainAnswer hrange hinm htag
    have hstatus := ((keptTag_plainAnswer hrange hinm hlocate _).mp htag).1
    cases hlocate' : locate fs' server location uriPath with
    | error resp =>
        unfold nowAt at hcurrent
        rw [hlocate'] at hcurrent
        cases hcurrent
    | ok found =>
        obtain ⟨path', data'⟩ := found
        unfold nowAt at hcurrent
        rw [hlocate'] at hcurrent
        have htags : etagOf data' = etagOf data := by
          rw [← trimBy_quoted_etag data', Option.some.inj hcurrent, trimBy_quoted_etag]
        obtain ⟨hsize, htime⟩ := etagOf_inj.mp htags
        exact h ⟨path, data, path', data', hlocate, hstatus, hlocate', hsize, htime, hne⟩

end Plain

end Protocol

/-- `/srv/a.txt`, rewritten within the second. -/
def rewrittenFiles : FileSystem where
  tree := ⟨fun names =>
    if names = [ascii "srv"] then some .dir
    else if names = [ascii "srv", ascii "a.txt"] then
      some (.file ⟨ascii "HELLO", some 7, true, by decide⟩)
    else none⟩
  cwd := []
  cwd_dir := .root

end StaticFiles
end RunNginx
