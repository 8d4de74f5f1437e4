import RunNginx.Config.Types
import RunNginx.Lib.FileTree
import RunNginx.Lib.PathText
import RunNginx.Lib.Utf8
import RunNginx.Server.Request

/-!
# Static files

The static file handler over a file tree with directories, files and symbolic
links: percent-decoding, `try_files`, index files, conditional and range requests.

Whatever the path looks like, a file is only reported behind
`assertWithinRoot`: `servePath_reports` names the file for each answer that
reports one, and `serveStatic_jailed` puts it under the root.
-/

namespace RunNginx
namespace StaticFiles

open ByteString Request

/-- A regular file. -/
structure FileData where
  content : Bytes
  /-- Modification time in seconds, if it is known and not before the epoch. -/
  mtime : Option Nat
  readable : Bool
  size_lt : content.length < Decimal.u64Bound
deriving DecidableEq, Repr

/-- The files the server sees, and the directory relative paths start from. -/
structure FileSystem where
  tree : FileTree Bytes FileData
  cwd : List Bytes
  cwd_dir : FileTree.DirPath tree cwd

structure StaticResponse where
  status : Nat
  headers : Headers
  body : Bytes
deriving DecidableEq, Repr

namespace FileSystem

variable (fs : FileSystem)

/-- A piece of a path text as a step of the walk. -/
def component (piece : Bytes) : FileTree.Component Bytes :=
  if piece = [] ∨ piece = ascii "." then .here
  else if piece = ascii ".." then .up
  else .name piece

/-- The directory a path starts from. -/
def origin (path : Bytes) : List Bytes :=
  if path.head? = some PathText.slash then [] else fs.cwd

def components (path : Bytes) : List (FileTree.Component Bytes) :=
  (PathText.pieces path).map component

/-- Paths no system call accepts. -/
def isInvalid (path : Bytes) : Bool :=
  path.isEmpty || path.contains 0

/-- The absolute, link-free name of a path. -/
def canonicalize (path : Bytes) : Option (List Bytes) :=
  if isInvalid path then none
  else fs.tree.resolve (fs.origin path) (components path)

/-- What stands at a path, behind all links. -/
def stat (path : Bytes) : Option (FileTree.Entry Bytes FileData) :=
  if isInvalid path then none
  else fs.tree.lookup (fs.origin path) (components path)

def «exists» (path : Bytes) : Bool :=
  (fs.stat path).isSome

def isDir (path : Bytes) : Bool :=
  match fs.stat path with
  | some .dir => true
  | _ => false

/-- The file at a path. -/
def metadata (path : Bytes) : Option FileData :=
  match fs.stat path with
  | some (.file data) => some data
  | _ => none

def isFile (path : Bytes) : Bool :=
  (fs.metadata path).isSome

def readFile (path : Bytes) : Option Bytes :=
  match fs.metadata path with
  | some data => if data.readable then some data.content else none
  | none => none

end FileSystem

/-- A page with a status and a message. -/
def errorResponse (status : Nat) (message : Bytes) : StaticResponse :=
  let body := ascii "<html><body>" ++ Decimal.render status ++ ascii " " ++ message ++
    ascii "</body></html>\n"
  { status := status
    headers :=
      [(ascii "Content-Type", ascii "text/html; charset=utf-8"),
        (ascii "Content-Length", Decimal.render body.length)]
    body := body }

/-- A page for a backend that cannot be reached. -/
def notImplemented (msg : Bytes) : StaticResponse :=
  let body := ascii "<html><body>501 Not Implemented: " ++ msg ++ ascii "</body></html>\n"
  { status := 501
    headers :=
      [(ascii "Content-Type", ascii "text/html; charset=utf-8"),
        (ascii "Content-Length", Decimal.render body.length)]
    body := body }

/-- Decode `%XX`; a `%` among the last two bytes stays as it is. -/
def percentDecode : Bytes → Option Bytes
  | 37 :: hi :: lo :: s =>
      match IpAddr.hexVal hi, IpAddr.hexVal lo with
      | some h, some l =>
          let c := (h <<< 4) ||| l
          if c = 0 then none
          else (percentDecode s).map fun out => Utf8.latin1 c ++ out
      | _, _ => none
  | b :: s => (percentDecode s).map fun out => Utf8.latin1 b ++ out
  | [] => some []

/-- Append a URI path to the root. -/
def jailPath (root uri : Bytes) : Bytes :=
  PathText.join root (uri.dropWhile (· == PathText.slash))

/-- Is the path, with all links resolved, within the root? -/
def assertWithinRoot (fs : FileSystem) (path root : Bytes) : Bool :=
  match fs.canonicalize path, fs.canonicalize root with
  | some canonicalPath, some canonicalRoot => canonicalRoot.isPrefixOf canonicalPath
  | _, _ => false

/-- MIME types by file extension. -/
def mimeTable : List (List Bytes × Bytes) :=
  [([ascii "html", ascii "htm"], ascii "text/html; charset=utf-8"),
    ([ascii "css"], ascii "text/css; charset=utf-8"),
    ([ascii "js", ascii "mjs"], ascii "application/javascript; charset=utf-8"),
    ([ascii "json"], ascii "application/json"),
    ([ascii "xml"], ascii "application/xml"),
    ([ascii "txt"], ascii "text/plain; charset=utf-8"),
    ([ascii "png"], ascii "image/png"),
    ([ascii "jpg", ascii "jpeg"], ascii "image/jpeg"),
    ([ascii "gif"], ascii "image/gif"),
    ([ascii "webp"], ascii "image/webp"),
    ([ascii "svg"], ascii "image/svg+xml"),
    ([ascii "ico"], ascii "image/x-icon"),
    ([ascii "woff"], ascii "font/woff"),
    ([ascii "woff2"], ascii "font/woff2"),
    ([ascii "ttf"], ascii "font/ttf"),
    ([ascii "otf"], ascii "font/otf"),
    ([ascii "pdf"], ascii "application/pdf"),
    ([ascii "zip"], ascii "application/zip"),
    ([ascii "gz"], ascii "application/gzip"),
    ([ascii "tar"], ascii "application/x-tar"),
    ([ascii "mp4"], ascii "video/mp4"),
    ([ascii "webm"], ascii "video/webm"),
    ([ascii "mp3"], ascii "audio/mpeg"),
    ([ascii "ogg"], ascii "audio/ogg"),
    ([ascii "wasm"], ascii "application/wasm")]

def mimeForPath (path : Bytes) : Bytes :=
  ((PathText.extension path).bind fun ext =>
    (mimeTable.find? fun row => row.1.contains ext).map Prod.snd).getD
      (ascii "application/octet-stream")

/-- Size and modification time of a file. -/
def etagOf (data : FileData) : Bytes :=
  Decimal.renderHex data.content.length ++ ascii "-" ++
    Decimal.renderHex (data.mtime.getD 0)

def quoted (s : Bytes) : Bytes :=
  34 :: (s ++ [34])

def baseHeaders (mime : Bytes) (size : Nat) (etag : Bytes) : Headers :=
  [(ascii "Content-Type", mime),
    (ascii "Content-Length", Decimal.render size),
    (ascii "ETag", quoted etag),
    (ascii "Accept-Ranges", ascii "bytes"),
    (ascii "Cache-Control", ascii "public, max-age=3600")]

/-- `bytes=start-end`, as a pair of inclusive positions within the file. -/
def parseRange (hdr : Bytes) (fileSize : Nat) : Option (Nat × Nat) :=
  match stripPrefix (ascii "bytes=") hdr with
  | none => none
  | some part =>
      match find [45] part with
      | none => none
      | some dash =>
          let startStr := Utf8.trim (part.take dash)
          let endStr := Utf8.trim (part.drop (dash + 1))
          let last := (fileSize + (Decimal.u64Bound - 1)) % Decimal.u64Bound
          if startStr = [] then
            match Decimal.parseUnsigned Decimal.u64Bound endStr with
            | none => none
            | some n => if n = 0 ∨ fileSize < n then none else some (fileSize - n, last)
          else
            match Decimal.parseUnsigned Decimal.u64Bound startStr,
              (if endStr = [] then some last
                else Decimal.parseUnsigned Decimal.u64Bound endStr) with
            | some start, some end_ =>
                if end_ < start ∨ fileSize ≤ end_ then none else some (start, end_)
            | _, _ => none

/-- Part of a file; reading past its end or without permission fails. -/
def serveRange
    (fs : FileSystem) (path : Bytes) (start end_ fileSize : Nat) (mime etag : Bytes) :
    StaticResponse :=
  let count := end_ - start + 1
  match fs.readFile path with
  | none => errorResponse 500 (ascii "internal server error")
  | some content =>
      if content.length < start + count then
        errorResponse 500 (ascii "internal server error")
      else
        { status := 206
          headers :=
            [(ascii "Content-Type", mime),
              (ascii "Content-Length", Decimal.render count),
              (ascii "Content-Range", ascii "bytes " ++ Decimal.render start ++ ascii "-" ++
                Decimal.render end_ ++ ascii "/" ++ Decimal.render fileSize),
              (ascii "ETag", quoted etag),
              (ascii "Accept-Ranges", ascii "bytes")]
          body := (content.drop start).take count }

/-- The whole file, or its headers alone. -/
def serveFull
    (fs : FileSystem) (effective : Bytes) (data : FileData) (method : Bytes) :
    StaticResponse :=
  let headers := baseHeaders (mimeForPath effective) data.content.length (etagOf data)
  if eqIgnoreCase method (ascii "HEAD") then ⟨200, headers, []⟩
  else match fs.readFile effective with
  | some content => ⟨200, headers, content⟩
  | none => errorResponse 500 (ascii "internal server error")

/-- Answer for a file that is there, with its metadata. -/
def serveFile
    (fs : FileSystem) (effective : Bytes) (data : FileData) (method : Bytes)
    (reqHdrs : Headers) : StaticResponse :=
  let fileSize := data.content.length
  let etag := etagOf data
  let range := (getHeader reqHdrs (ascii "range")).bind fun hdr => parseRange hdr fileSize
  if (getHeader reqHdrs (ascii "if-none-match")).any fun inm => trimBy (· == 34) inm == etag then
    { status := 304
      headers :=
        [(ascii "ETag", quoted etag),
          (ascii "Cache-Control", ascii "public, max-age=3600")]
      body := [] }
  else match range with
  | some (start, end_) =>
      serveRange fs effective start end_ fileSize (mimeForPath effective) etag
  | none => serveFull fs effective data method

/-- The path itself, or the first index file of a directory. -/
def effectivePath (fs : FileSystem) (path : Bytes) (indexFiles : List Bytes) :
    Option Bytes :=
  if fs.isDir path then
    (indexFiles.map (PathText.join path)).find? fs.isFile
  else some path

def servePath
    (fs : FileSystem) (path root : Bytes) (indexFiles : List Bytes) (method : Bytes)
    (reqHdrs : Headers) : StaticResponse :=
  match effectivePath fs path indexFiles with
  | none => errorResponse 403 (ascii "forbidden")
  | some effective =>
      if !fs.exists effective then errorResponse 404 (ascii "not found")
      else if !fs.isFile effective then errorResponse 404 (ascii "not found")
      else if !assertWithinRoot fs effective root then
        errorResponse 403 (ascii "forbidden")
      else match fs.metadata effective with
      | none => errorResponse 404 (ascii "not found")
      | some data => serveFile fs effective data method reqHdrs

/-- An entry of `try_files` with the URI filled in. -/
def expandUri (entry decodedUri : Bytes) : Bytes :=
  replace (ascii "$uri/") (decodedUri ++ ascii "/")
    (replace (ascii "$uri") decodedUri entry)

def handleTryFiles
    (fs : FileSystem) (root decodedUri : Bytes) (indexFiles : List Bytes) (method : Bytes)
    (reqHdrs : Headers) : List TryFilesEntry → StaticResponse
  | [] => errorResponse 404 (ascii "not found")
  | .path p :: entries =>
      let candidate := jailPath root (expandUri p decodedUri)
      if fs.exists candidate then servePath fs candidate root indexFiles method reqHdrs
      else handleTryFiles fs root decodedUri indexFiles method reqHdrs entries
  | .statusCode code :: _ => errorResponse code (ascii "not found")
  | .named _ :: _ => errorResponse 404 (ascii "not found")

/-- The root that applies to a location of a server. -/
def effectiveRoot (server : ServerBlock) (location : Option LocationBlock) :
    Option Bytes :=
  (location.bind LocationBlock.root).or server.root

def serveStatic
    (fs : FileSystem) (server : ServerBlock) (location : Option LocationBlock)
    (uriPath method : Bytes) (reqHdrs : Headers) : StaticResponse :=
  match effectiveRoot server location with
  | none => errorResponse 500 (ascii "no root configured")
  | some root =>
      let indexFiles := (location.bind LocationBlock.index).getD server.index
      match percentDecode uriPath with
      | none => errorResponse 400 (ascii "invalid URI encoding")
      | some decoded =>
          match location.bind LocationBlock.tryFiles with
          | some tryFiles =>
              handleTryFiles fs root decoded indexFiles method reqHdrs tryFiles
          | none => servePath fs (jailPath root decoded) root indexFiles method reqHdrs

/-- The error page a server configures for a status. -/
def findErrorPageUri (server : ServerBlock) (status : Nat) : Option Bytes :=
  (server.errorPages.find? fun ep => ep.codes.contains status).map ErrorPage.uri

/--
The static handler of the dispatcher: an error answer gets the configured error
page, if that page can be served, under its own status.
-/
def staticHandler
    (fs : FileSystem) (server : ServerBlock) (location : Option LocationBlock)
    (uriPath method : Bytes) (reqHdrs : Headers) : StaticResponse :=
  let resp := serveStatic fs server location uriPath method reqHdrs
  if 400 ≤ resp.status then
    match findErrorPageUri server resp.status with
    | some uri =>
        let page := serveStatic fs server none uri (ascii "GET") []
        if page.status = 200 then { resp with headers := page.headers, body := page.body }
        else resp
    | none => resp
  else resp

/-- The canonical path lies under the canonical root, component by component. -/
def UnderRoot (fs : FileSystem) (root path : Bytes) : Prop :=
  ∃ canonicalPath canonicalRoot,
    fs.canonicalize path = some canonicalPath ∧
      fs.canonicalize root = some canonicalRoot ∧
      canonicalRoot <+: canonicalPath

/-- The answers that report a file: its ETag, a part of it, its size, or all of it. -/
inductive Reports (data : FileData) (mime : Bytes) : StaticResponse → Prop
  | notModified :
      Reports data mime
        ⟨304, [(ascii "ETag", quoted (etagOf data)),
          (ascii "Cache-Control", ascii "public, max-age=3600")], []⟩
  | range
      (start end_ : Nat) (hstart : start ≤ end_) (hend : end_ < data.content.length) :
      Reports data mime
        ⟨206, [(ascii "Content-Type", mime),
          (ascii "Content-Length", Decimal.render (end_ - start + 1)),
          (ascii "Content-Range", ascii "bytes " ++ Decimal.render start ++ ascii "-" ++
            Decimal.render end_ ++ ascii "/" ++ Decimal.render data.content.length),
          (ascii "ETag", quoted (etagOf data)),
          (ascii "Accept-Ranges", ascii "bytes")],
          (data.content.drop start).take (end_ - start + 1)⟩
  | head :
      Reports data mime ⟨200, baseHeaders mime data.content.length (etagOf data), []⟩
  | full :
      Reports data mime
        ⟨200, baseHeaders mime data.content.length (etagOf data), data.content⟩

/-- The statuses under which a file is reported. -/
def isReport (status : Nat) : Bool :=
  status == 200 || status == 206 || status == 304

theorem assertWithinRoot_iff
    {fs : FileSystem} {path root : Bytes} :
    assertWithinRoot fs path root = true ↔ UnderRoot fs root path := by
  unfold assertWithinRoot UnderRoot
  cases fs.canonicalize path <;> cases fs.canonicalize root <;>
    simp [List.isPrefixOf_iff_prefix]

/-- A range that is accepted ends within the file. -/
theorem parseRange_bounds
    {hdr : Bytes} {size start end_ : Nat}
    (hsize : size < Decimal.u64Bound)
    (h : parseRange hdr size = some (start, end_)) :
    start ≤ end_ ∧ end_ < size := by
  unfold parseRange at h
  split at h
  · cases h
  split at h
  · cases h
  simp only at h
  split at h
  · split at h
    · cases h
    · split at h
      · cases h
      · rename_i n _ hn
        simp only [Option.some.injEq, Prod.mk.injEq] at h
        simp only [Decimal.u64Bound] at h hsize
        omega
  · split at h
    · split at h
      · cases h
      · simp only [Option.some.injEq, Prod.mk.injEq] at h
        omega
    · cases h

theorem readFile_of_metadata
    {fs : FileSystem} {path content : Bytes} {data : FileData}
    (hmeta : fs.metadata path = some data)
    (h : fs.readFile path = some content) :
    content = data.content := by
  simp only [FileSystem.readFile, hmeta] at h
  split at h
  · exact (Option.some.inj h).symm
  · cases h

theorem not_isReport_errorResponse
    {status : Nat} {message : Bytes}
    (h : 400 ≤ status) :
    isReport (errorResponse status message).status = false := by
  simp only [errorResponse, isReport, Bool.or_eq_false_iff, beq_eq_false_iff_ne]
  omega

theorem serveFull_reports
    {fs : FileSystem} {path method : Bytes} {data : FileData}
    (hmeta : fs.metadata path = some data)
    (h : isReport (serveFull fs path data method).status = true) :
    Reports data (mimeForPath path) (serveFull fs path data method) := by
  unfold serveFull at h ⊢
  split
  · exact .head
  · cases hread : fs.readFile path with
    | some content =>
        rw [readFile_of_metadata hmeta hread]
        exact .full
    | none =>
        rename_i hhead
        simp only [hread, if_neg hhead] at h
        rw [not_isReport_errorResponse (by omega)] at h
        cases h

theorem serveRange_reports
    {fs : FileSystem} {path : Bytes} {data : FileData} {start end_ : Nat}
    (hmeta : fs.metadata path = some data)
    (hrange : start ≤ end_ ∧ end_ < data.content.length)
    (h : isReport (serveRange fs path start end_ data.content.length (mimeForPath path)
      (etagOf data)).status = true) :
    Reports data (mimeForPath path)
      (serveRange fs path start end_ data.content.length (mimeForPath path) (etagOf data)) := by
  unfold serveRange at h ⊢
  cases hread : fs.readFile path with
  | none =>
      simp only [hread] at h
      rw [not_isReport_errorResponse (by omega)] at h
      cases h
  | some content =>
      simp only [hread] at h ⊢
      split
      · rename_i hshort
        rw [if_pos hshort, not_isReport_errorResponse (by omega)] at h
        cases h
      · rw [readFile_of_metadata hmeta hread]
        exact .range start end_ hrange.1 hrange.2

/-- What is answered for a file reports that file, or is an error. -/
theorem serveFile_reports
    {fs : FileSystem} {path method : Bytes} {data : FileData} {hdrs : Headers}
    (hmeta : fs.metadata path = some data)
    (h : isReport (serveFile fs path data method hdrs).status = true) :
    Reports data (mimeForPath path) (serveFile fs path data method hdrs) := by
  unfold serveFile at h ⊢
  simp only at h ⊢
  split
  · exact .notModified
  · rename_i hmodified
    rw [if_neg hmodified] at h
    cases hrange : (getHeader hdrs (ascii "range")).bind
        fun hdr => parseRange hdr data.content.length with
    | none =>
        simp only [hrange] at h ⊢
        exact serveFull_reports hmeta h
    | some range =>
        obtain ⟨hdr, _, hparse⟩ := Option.bind_eq_some_iff.mp hrange
        simp only [hrange] at h ⊢
        exact serveRange_reports hmeta (parseRange_bounds data.size_lt hparse) h

/-- A file under the root, and the answer that reports it. -/
def ReportsUnder (fs : FileSystem) (root : Bytes) (resp : StaticResponse) : Prop :=
  ∃ path data, fs.metadata path = some data ∧ UnderRoot fs root path ∧
    Reports data (mimeForPath path) resp

section Rules

variable {fs : FileSystem} {root method : Bytes} {indexFiles : List Bytes} {hdrs : Headers}
variable {P : StaticResponse → Prop}

/-- Every answer for a path is an error, or one for a file under the root. -/
theorem servePath_rule
    (herr : ∀ status message, 400 ≤ status → P (errorResponse status message))
    (hfile : ∀ path data, fs.metadata path = some data → UnderRoot fs root path →
      P (serveFile fs path data method hdrs))
    (path : Bytes) :
    P (servePath fs path root indexFiles method hdrs) := by
  unfold servePath
  cases effectivePath fs path indexFiles with
  | none => exact herr _ _ (by omega)
  | some effective =>
      simp only
      split
      · exact herr _ _ (by omega)
      split
      · exact herr _ _ (by omega)
      split
      · exact herr _ _ (by omega)
      rename_i hroot
      cases hmeta : fs.metadata effective with
      | none => exact herr _ _ (by omega)
      | some data =>
          exact hfile effective data hmeta (assertWithinRoot_iff.mp (by simpa using hroot))

/-- `try_files` answers for a path or with a code of its own. -/
theorem handleTryFiles_rule
    {entries : List TryFilesEntry}
    (herr : ∀ status message, 400 ≤ status → P (errorResponse status message))
    (hcode : ∀ code, .statusCode code ∈ entries → P (errorResponse code (ascii "not found")))
    (hfile : ∀ path data, fs.metadata path = some data → UnderRoot fs root path →
      P (serveFile fs path data method hdrs))
    (decodedUri : Bytes) :
    P (handleTryFiles fs root decodedUri indexFiles method hdrs entries) := by
  induction entries with
  | nil => exact herr _ _ (by omega)
  | cons entry entries ih =>
      cases entry with
      | path p =>
          rw [handleTryFiles]
          split
          · exact servePath_rule herr hfile _
          · exact ih fun code hmem => hcode code (List.mem_cons_of_mem _ hmem)
      | statusCode code => exact hcode code (by simp)
      | named name => exact herr _ _ (by omega)

end Rules

/--
What holds of errors, of the codes of `try_files` and of every answer for a file
under the effective root, holds of every static answer.
-/
theorem serveStatic_rule
    {fs : FileSystem} {server : ServerBlock} {location : Option LocationBlock}
    {method : Bytes} {hdrs : Headers} {P : StaticResponse → Prop}
    (herr : ∀ status message, 400 ≤ status → P (errorResponse status message))
    (hcode : ∀ entries code, location.bind LocationBlock.tryFiles = some entries →
      .statusCode code ∈ entries → P (errorResponse code (ascii "not found")))
    (hfile : ∀ root path data, effectiveRoot server location = some root →
      fs.metadata path = some data → UnderRoot fs root path →
        P (serveFile fs path data method hdrs))
    (uriPath : Bytes) :
    P (serveStatic fs server location uriPath method hdrs) := by
  unfold serveStatic
  cases hroot : effectiveRoot server location with
  | none => exact herr _ _ (by omega)
  | some root =>
      simp only
      cases percentDecode uriPath with
      | none => exact herr _ _ (by omega)
      | some decoded =>
          simp only
          cases htry : location.bind LocationBlock.tryFiles with
          | none => exact servePath_rule herr (fun path data => hfile root path data hroot) _
          | some entries =>
              exact handleTryFiles_rule herr (fun code => hcode entries code htry)
                (fun path data => hfile root path data hroot) decoded

/-- An answer that reports a file reports one under the effective root. -/
theorem serveStatic_reports
    (fs : FileSystem) (server : ServerBlock) (location : Option LocationBlock)
    (uriPath method : Bytes) (hdrs : Headers) :
    isReport (serveStatic fs server location uriPath method hdrs).status = true →
      (∃ root, effectiveRoot server location = some root ∧
          ReportsUnder fs root (serveStatic fs server location uriPath method hdrs)) ∨
        ∃ entries code, location.bind LocationBlock.tryFiles = some entries ∧
          .statusCode code ∈ entries ∧
          serveStatic fs server location uriPath method hdrs =
            errorResponse code (ascii "not found") := by
  refine serveStatic_rule (P := fun resp => isReport resp.status = true →
    (∃ root, effectiveRoot server location = some root ∧ ReportsUnder fs root resp) ∨
      ∃ entries code, location.bind LocationBlock.tryFiles = some entries ∧
        .statusCode code ∈ entries ∧ resp = errorResponse code (ascii "not found"))
    ?_ ?_ ?_ uriPath
  · intro status message hstatus h
    rw [not_isReport_errorResponse hstatus] at h
    cases h
  · intro entries code htry hcode _
    exact Or.inr ⟨entries, code, htry, hcode, rfl⟩
  · intro root path data hroot hmeta hunder h
    exact Or.inl ⟨root, hroot, path, data, hmeta, hunder, serveFile_reports hmeta h⟩

/-- The names of the headers that the static handler writes. -/
def headerNames : List Bytes :=
  [ascii "Content-Type", ascii "Content-Length", ascii "Content-Range", ascii "ETag",
    ascii "Accept-Ranges", ascii "Cache-Control"]

def NamesKnown (resp : StaticResponse) : Prop :=
  resp.headers.map Prod.fst ⊆ headerNames

theorem errorResponse_namesKnown
    (status : Nat) (message : Bytes) :
    NamesKnown (errorResponse status message) := by
  have hnames : [ascii "Content-Type", ascii "Content-Length"] ⊆ headerNames := by decide
  exact hnames

theorem serveFile_namesKnown
    (fs : FileSystem) (path : Bytes) (data : FileData) (method : Bytes) (hdrs : Headers) :
    NamesKnown (serveFile fs path data method hdrs) := by
  have hnotModified : [ascii "ETag", ascii "Cache-Control"] ⊆ headerNames := by decide
  have hpart : [ascii "Content-Type", ascii "Content-Length", ascii "Content-Range",
      ascii "ETag", ascii "Accept-Ranges"] ⊆ headerNames := by
    decide
  have hbase : [ascii "Content-Type", ascii "Content-Length", ascii "ETag",
      ascii "Accept-Ranges", ascii "Cache-Control"] ⊆ headerNames := by
    decide
  unfold serveFile
  dsimp only
  split
  · exact hnotModified
  split
  · unfold serveRange
    split
    · exact errorResponse_namesKnown _ _
    dsimp only
    split
    · exact errorResponse_namesKnown _ _
    · exact hpart
  · unfold serveFull
    dsimp only
    split
    · exact hbase
    split
    · exact hbase
    · exact errorResponse_namesKnown _ _

/-- The static handler writes headers of these names only. -/
theorem staticHandler_namesKnown
    (fs : FileSystem) (server : ServerBlock) (location : Option LocationBlock)
    (uriPath method : Bytes) (hdrs : Headers) :
    NamesKnown (staticHandler fs server location uriPath method hdrs) := by
  have hstatic : ∀ location uriPath method hdrs,
      NamesKnown (serveStatic fs server location uriPath method hdrs) :=
    fun location uriPath method hdrs =>
      serveStatic_rule (P := NamesKnown)
        (fun status message _ => errorResponse_namesKnown status message)
        (fun _ code _ _ => errorResponse_namesKnown code _)
        (fun _ path data _ _ _ => serveFile_namesKnown fs path data method hdrs) uriPath
  unfold staticHandler
  dsimp only
  split
  · split
    · split
      · exact hstatic _ _ _ _
      · exact hstatic _ _ _ _
    · exact hstatic _ _ _ _
  · exact hstatic _ _ _ _

/-- The error page put into an answer reports a file under the root of the server. -/
theorem staticHandler_page
    (fs : FileSystem) (server : ServerBlock) (location : Option LocationBlock)
    (uriPath method : Bytes) (hdrs : Headers) :
    staticHandler fs server location uriPath method hdrs =
        serveStatic fs server location uriPath method hdrs ∨
      ∃ root page, server.root = some root ∧ page.status = 200 ∧
        ReportsUnder fs root page ∧
        staticHandler fs server location uriPath method hdrs =
          ⟨(serveStatic fs server location uriPath method hdrs).status,
            page.headers, page.body⟩ := by
  unfold staticHandler
  simp only
  split
  · cases huri : findErrorPageUri server (serveStatic fs server location uriPath method hdrs).status with
    | none => exact Or.inl rfl
    | some uri =>
        simp only
        split
        · rename_i hpage
          refine Or.inr ?_
          rcases serveStatic_reports fs server none uri (ascii "GET") [] (by rw [hpage]; rfl) with
            ⟨root, hroot, hreports⟩ | ⟨entries, code, htry, _⟩
          · exact ⟨root, _, by simpa [effectiveRoot] using hroot, hpage, hreports, rfl⟩
          · cases htry
        · exact Or.inl rfl
  · exact Or.inl rfl

/--
The document-root jail.  Whatever is reported under 200, 206 or 304 is a file whose
canonical path lies under the canonical effective root, however the path was found;
the one other source of such a status is a code written into `try_files`, and then no
file is reported.  The same holds for the page shown in place of an error.
-/
theorem static_jail
    (fs : FileSystem) (server : ServerBlock) (location : Option LocationBlock)
    (uriPath method : Bytes) (hdrs : Headers) :
    (isReport (serveStatic fs server location uriPath method hdrs).status = true →
      (∃ root, effectiveRoot server location = some root ∧
          ReportsUnder fs root (serveStatic fs server location uriPath method hdrs)) ∨
        ∃ entries code, location.bind LocationBlock.tryFiles = some entries ∧
          .statusCode code ∈ entries ∧
          serveStatic fs server location uriPath method hdrs =
            errorResponse code (ascii "not found")) ∧
      (staticHandler fs server location uriPath method hdrs =
          serveStatic fs server location uriPath method hdrs ∨
        ∃ root page, server.root = some root ∧ page.status = 200 ∧
          ReportsUnder fs root page ∧
          staticHandler fs server location uriPath method hdrs =
            ⟨(serveStatic fs server location uriPath method hdrs).status,
              page.headers, page.body⟩) :=
  ⟨serveStatic_reports fs server location uriPath method hdrs,
    staticHandler_page fs server location uriPath method hdrs⟩

section Example

/-- `/srv/a.txt`, with a link `/srv/b.txt` to it and a link `/srv/out` to `/etc`. -/
def exampleFiles : FileSystem where
  tree := ⟨fun names =>
    if names = [ascii "srv"] ∨ names = [ascii "etc"] then some .dir
    else if names = [ascii "srv", ascii "a.txt"] then
      some (.file ⟨ascii "hello", some 7, true, by decide⟩)
    else if names = [ascii "etc", ascii "secret.txt"] then
      some (.file ⟨ascii "secret", some 7, true, by decide⟩)
    else if names = [ascii "srv", ascii "b.txt"] then some (.link false [.name (ascii "a.txt")])
    else if names = [ascii "srv", ascii "out"] then some (.link true [.name (ascii "etc")])
    else none⟩
  cwd := []
  cwd_dir := .root

/-- A server with nothing but a root directory. -/
def serverAt (root : Bytes) : ServerBlock where
  listen := []
  serverNames := []
  root := some root
  index := [ascii "index.html"]
  locations := []
  tls := none
  accessLog := none
  clientMaxBodySize := none
  errorPages := []
  addHeaders := []
  returnDirective := none
  limitReq := none
  rewrites := []
  authBasic := none
  sslRedirect := false
  hstsMaxAge := none
  hstsIncludeSubdomains := false

/-- The file is served through the link that stays inside the root. -/
theorem static_jail_example :
    (serveStatic exampleFiles (serverAt (ascii "/srv")) none (ascii "/b.txt") (ascii "GET")
        []).status = 200 ∧
      ∃ root, effectiveRoot (serverAt (ascii "/srv")) none = some root ∧
        ReportsUnder exampleFiles root
          (serveStatic exampleFiles (serverAt (ascii "/srv")) none (ascii "/b.txt")
            (ascii "GET") []) := by
  have hstatus : (serveStatic exampleFiles (serverAt (ascii "/srv")) none (ascii "/b.txt")
      (ascii "GET") []).status = 200 := by
    decide +kernel
  refine ⟨hstatus, ?_⟩
  rcases (static_jail exampleFiles (serverAt (ascii "/srv")) none (ascii "/b.txt")
    (ascii "GET") []).1 (by rw [hstatus]; rfl) with hfile | ⟨entries, code, htry, _⟩
  · exact hfile
  · cases htry

/-- The link that leaves the root is refused. -/
example :
    (serveStatic exampleFiles (serverAt (ascii "/srv")) none (ascii "/out/secret.txt")
      (ascii "GET") []).status = 403 := by
  decide +kernel

end Example

end StaticFiles
end RunNginx
