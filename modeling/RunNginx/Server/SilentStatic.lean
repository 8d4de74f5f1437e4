import RunNginx.Server.StaticFiles

/-!
# Static answers to HEAD

Only the branch that reads a whole file looks at the method.  An error answer, its error page
and a part of a file carry a body for HEAD as they do for GET.

`staticHandler_head_iff`: a HEAD request is answered without a body exactly if it names a file
and asks for no part of it, or the page of its error is an empty file.
-/

namespace RunNginx
namespace StaticFiles

open ByteString Request

section Target

/-- The file a path leads to, or the status of the error. -/
def servedFile (fs : FileSystem) (path root : Bytes) (indexFiles : List Bytes) :
    Except Nat (Bytes × FileData) :=
  match effectivePath fs path indexFiles with
  | none => .error 403
  | some effective =>
      if !fs.exists effective then .error 404
      else if !fs.isFile effective then .error 404
      else if !assertWithinRoot fs effective root then .error 403
      else match fs.metadata effective with
      | none => .error 404
      | some data => .ok (effective, data)

def triedFile (fs : FileSystem) (root decodedUri : Bytes) (indexFiles : List Bytes) :
    List TryFilesEntry → Except Nat (Bytes × FileData)
  | [] => .error 404
  | .path p :: entries =>
      let candidate := jailPath root (expandUri p decodedUri)
      if fs.exists candidate then servedFile fs candidate root indexFiles
      else triedFile fs root decodedUri indexFiles entries
  | .statusCode code :: _ => .error code
  | .named _ :: _ => .error 404

/-- The file a request names, or the status of the error. -/
def staticTarget (fs : FileSystem) (server : ServerBlock) (location : Option LocationBlock)
    (uriPath : Bytes) : Except Nat (Bytes × FileData) :=
  match effectiveRoot server location with
  | none => .error 500
  | some root =>
      let indexFiles := (location.bind LocationBlock.index).getD server.index
      match percentDecode uriPath with
      | none => .error 400
      | some decoded =>
          match location.bind LocationBlock.tryFiles with
          | some tryFiles => triedFile fs root decoded indexFiles tryFiles
          | none => servedFile fs (jailPath root decoded) root indexFiles

/-- The answer for a target is an error of its status, or the one for its file. -/
inductive Answers (fs : FileSystem) (method : Bytes) (hdrs : Headers) :
    Except Nat (Bytes × FileData) → StaticResponse → Prop
  | error (status : Nat) (message : Bytes) :
      Answers fs method hdrs (.error status) (errorResponse status message)
  | file {path : Bytes} {data : FileData} (hfile : fs.metadata path = some data) :
      Answers fs method hdrs (.ok (path, data)) (serveFile fs path data method hdrs)

variable (fs : FileSystem) (method : Bytes) (hdrs : Headers)

theorem servePath_answers
    (path root : Bytes) (indexFiles : List Bytes) :
    Answers fs method hdrs (servedFile fs path root indexFiles)
      (servePath fs path root indexFiles method hdrs) := by
  unfold servedFile servePath
  cases effectivePath fs path indexFiles with
  | none => exact .error _ _
  | some effective =>
      dsimp only
      split
      · exact .error _ _
      split
      · exact .error _ _
      split
      · exact .error _ _
      cases hfile : fs.metadata effective with
      | none => exact .error _ _
      | some data => exact .file hfile

theorem handleTryFiles_answers
    (root decodedUri : Bytes) (indexFiles : List Bytes) (entries : List TryFilesEntry) :
    Answers fs method hdrs (triedFile fs root decodedUri indexFiles entries)
      (handleTryFiles fs root decodedUri indexFiles method hdrs entries) := by
  induction entries with
  | nil => exact .error _ _
  | cons entry entries ih =>
      cases entry with
      | path p =>
          unfold triedFile handleTryFiles
          dsimp only
          split
          · exact servePath_answers fs method hdrs _ _ _
          · exact ih
      | statusCode code => exact .error _ _
      | named name => exact .error _ _

theorem serveStatic_answers
    (server : ServerBlock) (location : Option LocationBlock) (uriPath : Bytes) :
    Answers fs method hdrs (staticTarget fs server location uriPath)
      (serveStatic fs server location uriPath method hdrs) := by
  unfold staticTarget serveStatic
  cases effectiveRoot server location with
  | none => exact .error _ _
  | some root =>
      dsimp only
      cases percentDecode uriPath with
      | none => exact .error _ _
      | some decoded =>
          dsimp only
          cases location.bind LocationBlock.tryFiles with
          | none => exact servePath_answers fs method hdrs _ _ _
          | some entries => exact handleTryFiles_answers fs method hdrs _ _ _ _

end Target

section Silent

/-- The client has the file already. -/
def isNotModified (data : FileData) (hdrs : Headers) : Bool :=
  (getHeader hdrs (ascii "if-none-match")).any fun inm => trimBy (· == 34) inm == etagOf data

/-- The part of the file that is asked for. -/
def askedRange (data : FileData) (hdrs : Headers) : Option (Nat × Nat) :=
  (getHeader hdrs (ascii "range")).bind fun hdr => parseRange hdr data.content.length

variable (fs : FileSystem) (server : ServerBlock) (location : Option LocationBlock)
variable (uriPath : Bytes) (hdrs : Headers)

/-- The page that is configured for an error is an empty file. -/
def EmptyPage (status : Nat) : Prop :=
  400 ≤ status ∧ ∃ uri path data, findErrorPageUri server status = some uri ∧
    staticTarget fs server none uri = .ok (path, data) ∧ fs.readFile path = some []

/-- Requests that the static handler answers to HEAD without a body. -/
inductive SilentStatic : Prop
  | whole {path : Bytes} {data : FileData}
      (htarget : staticTarget fs server location uriPath = .ok (path, data))
      (h : isNotModified data hdrs = true ∨ askedRange data hdrs = none)
  | error {status : Nat}
      (htarget : staticTarget fs server location uriPath = .error status)
      (hpage : EmptyPage fs server status)
  | unreadable {path : Bytes} {data : FileData}
      (htarget : staticTarget fs server location uriPath = .ok (path, data))
      (hread : fs.readFile path = none) (hpage : EmptyPage fs server 500)

variable {fs server location uriPath hdrs} {method : Bytes}

theorem errorResponse_body_ne_nil
    (status : Nat) (message : Bytes) :
    (errorResponse status message).body ≠ [] := by
  have hopen : ascii "<html><body>" ≠ [] := by decide
  unfold errorResponse
  simp [hopen]

/-- The error page is sent without a body if it is an empty file. -/
theorem errorPage_empty_iff
    (uri : Bytes) :
    ((serveStatic fs server none uri (ascii "GET") []).status = 200 ∧
        (serveStatic fs server none uri (ascii "GET") []).body = []) ↔
      ∃ path data, staticTarget fs server none uri = .ok (path, data) ∧
        fs.readFile path = some [] := by
  have hanswers := serveStatic_answers fs (ascii "GET") [] server none uri
  generalize serveStatic fs server none uri (ascii "GET") [] = page at hanswers ⊢
  generalize staticTarget fs server none uri = target at hanswers ⊢
  cases hanswers with
  | error status message =>
      refine iff_of_false (fun h => errorResponse_body_ne_nil status message h.2) ?_
      rintro ⟨path, data, htarget, -⟩
      cases htarget
  | @file path data hfile =>
      have hget : eqIgnoreCase (ascii "GET") (ascii "HEAD") = false := by decide
      have hfull : serveFile fs path data (ascii "GET") [] =
          serveFull fs path data (ascii "GET") :=
        rfl
      rw [hfull, serveFull, hget, if_neg Bool.false_ne_true]
      cases hread : fs.readFile path with
      | none =>
          refine iff_of_false (fun h => errorResponse_body_ne_nil 500 _ h.2) ?_
          rintro ⟨path', data', htarget, hempty⟩
          cases htarget
          rw [hread] at hempty
          cases hempty
      | some content =>
          constructor
          · rintro ⟨-, hbody⟩
            have hcontent : content = [] := hbody
            exact ⟨path, data, rfl, by rw [hread, hcontent]⟩
          · rintro ⟨path', data', htarget, hempty⟩
            cases htarget
            rw [hread] at hempty
            exact ⟨rfl, Option.some.inj hempty⟩

section File

variable {path : Bytes} {data : FileData}

theorem serveFile_notModified
    (h : isNotModified data hdrs = true) :
    serveFile fs path data method hdrs =
      ⟨304, [(ascii "ETag", quoted (etagOf data)),
        (ascii "Cache-Control", ascii "public, max-age=3600")], []⟩ :=
  if_pos h

theorem serveFile_full
    (hmodified : ¬ isNotModified data hdrs = true) (h : askedRange data hdrs = none) :
    serveFile fs path data method hdrs = serveFull fs path data method := by
  unfold isNotModified at hmodified
  unfold askedRange at h
  unfold serveFile
  dsimp only
  rw [if_neg hmodified, h]

theorem serveFile_range
    {first last : Nat} (hmodified : ¬ isNotModified data hdrs = true)
    (h : askedRange data hdrs = some (first, last)) :
    serveFile fs path data method hdrs = serveRange fs path first last data.content.length
      (mimeForPath path) (etagOf data) := by
  unfold isNotModified at hmodified
  unfold askedRange at h
  unfold serveFile
  dsimp only
  rw [if_neg hmodified, h]

/-- The headers of a whole file are sent alone. -/
theorem serveFile_head_whole
    (hhead : eqIgnoreCase method (ascii "HEAD") = true)
    (h : isNotModified data hdrs = true ∨ askedRange data hdrs = none) :
    (serveFile fs path data method hdrs).body = [] ∧
      (serveFile fs path data method hdrs).status < 400 := by
  have hfound : 304 < 400 ∧ 200 < 400 := by decide
  by_cases hmodified : isNotModified data hdrs = true
  · rw [serveFile_notModified hmodified]
    exact ⟨rfl, hfound.1⟩
  · rw [serveFile_full hmodified (h.resolve_left hmodified), serveFull, if_pos hhead]
    exact ⟨rfl, hfound.2⟩

/-- A part of a file is sent with its bytes, or an error with its page. -/
theorem serveFile_range_body
    {first last : Nat} (hfile : fs.metadata path = some data)
    (hmodified : ¬ isNotModified data hdrs = true)
    (h : askedRange data hdrs = some (first, last)) :
    (serveFile fs path data method hdrs).body ≠ [] ∧
      ((fs.readFile path = none ∧ (serveFile fs path data method hdrs).status = 500) ∨
        (fs.readFile path ≠ none ∧ (serveFile fs path data method hdrs).status = 206)) := by
  obtain ⟨hdr, -, hparse⟩ := Option.bind_eq_some_iff.mp h
  have hbounds := parseRange_bounds data.size_lt hparse
  rw [serveFile_range hmodified h]
  unfold serveRange
  cases hread : fs.readFile path with
  | none => exact ⟨errorResponse_body_ne_nil 500 _, Or.inl ⟨rfl, rfl⟩⟩
  | some content =>
      obtain rfl := readFile_of_metadata hfile hread
      have hlong : ¬ data.content.length < first + (last - first + 1) := by omega
      dsimp only
      rw [if_neg hlong]
      refine ⟨fun hnil => ?_, Or.inr ⟨nofun, rfl⟩⟩
      have hlength := congrArg List.length hnil
      rw [List.length_take, List.length_drop, List.length_nil] at hlength
      omega

end File

/-- An answer with a body loses it only to an empty error page. -/
theorem staticHandler_body_iff
    (hbody : (serveStatic fs server location uriPath method hdrs).body ≠ []) :
    (staticHandler fs server location uriPath method hdrs).body = [] ↔
      EmptyPage fs server (serveStatic fs server location uriPath method hdrs).status := by
  unfold staticHandler EmptyPage
  dsimp only
  generalize serveStatic fs server location uriPath method hdrs = resp at hbody ⊢
  by_cases herror : 400 ≤ resp.status
  · rw [if_pos herror, and_iff_right herror]
    cases huri : findErrorPageUri server resp.status with
    | none =>
        refine iff_of_false hbody ?_
        rintro ⟨uri, path, data, hsome, -⟩
        cases hsome
    | some uri =>
        have hpage := @errorPage_empty_iff fs server uri
        have hexists : (∃ uri' path data, some uri = some uri' ∧
            staticTarget fs server none uri' = .ok (path, data) ∧ fs.readFile path = some []) ↔
            ∃ path data, staticTarget fs server none uri = .ok (path, data) ∧
              fs.readFile path = some [] := by
          constructor
          · rintro ⟨uri', path, data, hsome, htarget⟩
            cases hsome
            exact ⟨path, data, htarget⟩
          · rintro ⟨path, data, htarget⟩
            exact ⟨uri, path, data, rfl, htarget⟩
        rw [hexists, ← hpage]
        dsimp only
        split
        · rename_i hstatus
          exact (and_iff_right hstatus).symm
        · rename_i hstatus
          exact iff_of_false hbody fun h => hstatus h.1
  · rw [if_neg herror]
    exact iff_of_false hbody fun h => herror h.1

/-- A HEAD request is answered without a body only for a whole file or by an empty page. -/
theorem staticHandler_head_iff
    (hhead : eqIgnoreCase method (ascii "HEAD") = true) :
    (staticHandler fs server location uriPath method hdrs).body = [] ↔
      SilentStatic fs server location uriPath hdrs := by
  have hanswers := serveStatic_answers fs method hdrs server location uriPath
  have hdirect : (serveStatic fs server location uriPath method hdrs).status < 400 →
      (staticHandler fs server location uriPath method hdrs).body =
        (serveStatic fs server location uriPath method hdrs).body := by
    intro hstatus
    unfold staticHandler
    dsimp only
    rw [if_neg (Nat.not_le.mpr hstatus)]
  have hlost := @staticHandler_body_iff fs server location uriPath hdrs method
  generalize staticHandler fs server location uriPath method hdrs = final at hdirect hlost ⊢
  generalize serveStatic fs server location uriPath method hdrs = resp at hanswers hdirect hlost
  generalize htarget : staticTarget fs server location uriPath = target at hanswers
  cases hanswers with
  | error status message =>
      rw [hlost (errorResponse_body_ne_nil status message)]
      constructor
      · exact fun hpage => .error htarget hpage
      · intro h
        cases h with
        | whole hok =>
            rw [htarget] at hok
            cases hok
        | error herror hpage =>
            rw [htarget] at herror
            cases herror
            exact hpage
        | unreadable hok =>
            rw [htarget] at hok
            cases hok
  | @file path data hfile =>
      by_cases hwhole : isNotModified data hdrs = true ∨ askedRange data hdrs = none
      · obtain ⟨hbody, hstatus⟩ := @serveFile_head_whole fs hdrs method path data hhead hwhole
        exact iff_of_true ((hdirect hstatus).trans hbody) (.whole htarget hwhole)
      rw [not_or] at hwhole
      obtain ⟨range, hrange⟩ := Option.ne_none_iff_exists'.mp hwhole.2
      obtain ⟨hbody, hread⟩ := @serveFile_range_body fs hdrs method path data range.1 range.2
        hfile hwhole.1 hrange
      rw [hlost hbody]
      constructor
      · intro hpage
        rcases hread with ⟨hread, hstatus⟩ | ⟨-, hstatus⟩
        · rw [hstatus] at hpage
          exact .unreadable htarget hread hpage
        · rw [hstatus] at hpage
          exact absurd hpage.1 (by decide)
      · intro h
        cases h with
        | whole hok h =>
            rw [htarget] at hok
            cases hok
            exact absurd h (not_or.mpr hwhole)
        | error herror =>
            rw [htarget] at herror
            cases herror
        | unreadable hok hnone hpage =>
            rw [htarget] at hok
            cases hok
            rcases hread with ⟨-, hstatus⟩ | ⟨hsome, -⟩
            · rw [hstatus]
              exact hpage
            · exact absurd hnone hsome

end Silent

end StaticFiles
end RunNginx
