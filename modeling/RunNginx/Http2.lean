import RunNginx.Lib.HttpMessage
import RunNginx.Lib.Table
import RunNginx.Lib.Utf8
import RunNginx.Server.Response
import RunNginx.Server.WireRequest

/-!
# The HTTP/2 bridge

A stream's request is written out as an HTTP/1.1 request, handled, and the bytes of the
answer are parsed again with room for 64 header fields.  The fields are inserted into a
map one after the other, so that the last one of a name is kept.

The parser is a parameter; `ParsesResponses` is what is documented of it.
`handleStream_preserves_iff` is the condition on a response under which nothing of it is lost.
-/

namespace RunNginx
namespace Http2

open ByteString HttpMessage RunNginx.Response

/-! ### The types of an HTTP/2 response -/

/-- `http::StatusCode`. -/
structure StatusCode where
  code : Nat
  three_digits : 100 ≤ code ∧ code ≤ 999
deriving DecidableEq

def StatusCode.fromU16 (code : Nat) : Option StatusCode :=
  if h : 100 ≤ code ∧ code ≤ 999 then some ⟨code, h⟩ else none

def StatusCode.internalServerError : StatusCode :=
  ⟨500, by decide⟩

def maxHeaderNameLen : Nat := 65535

/-- A field name in lower case. -/
def IsFieldName (s : Bytes) : Prop :=
  s ≠ [] ∧ s.length ≤ maxHeaderNameLen ∧ ∀ b ∈ s, Wire.isTokenByte b = true ∧ toLowerByte b = b

instance (s : Bytes) : Decidable (IsFieldName s) :=
  inferInstanceAs (Decidable (_ ∧ _ ∧ _))

/-- `http::HeaderName`. -/
structure HeaderName where
  bytes : Bytes
  valid : IsFieldName bytes
deriving DecidableEq

def HeaderName.fromBytes (s : Bytes) : Option HeaderName :=
  if h : IsFieldName (toAsciiLower s) then some ⟨toAsciiLower s, h⟩ else none

/-- Visible ASCII, a blank or a tab. -/
def isVisibleAscii (b : UInt8) : Bool :=
  (32 ≤ b && b < 127) || b == 9

/-- `http::HeaderValue`. -/
structure HeaderValue where
  bytes : Bytes
  visible : bytes.all isVisibleAscii = true
deriving DecidableEq

def HeaderValue.fromStr (s : Bytes) : Option HeaderValue :=
  if h : s.all isVisibleAscii = true then some ⟨s, h⟩ else none

/-- `http::HeaderMap`, with one value for each name. -/
abbrev HeaderMap := Table HeaderName HeaderValue

/-- An HTTP/2 response. -/
structure Response where
  status : StatusCode
  headers : HeaderMap
  body : Bytes

/-- The fields of a map. -/
def fieldsOf (m : HeaderMap) : Headers :=
  m.entries.map fun e => (e.1.bytes, e.2.bytes)

/-! ### The response parser -/

/-- What `httparse` reports of a complete head. -/
structure ParsedHead where
  code : Option Nat
  headers : Headers
  /-- The length of the head. -/
  headerEnd : Nat
deriving DecidableEq, Repr

/-- The parser, for a number of header slots; without a result it failed or wants more. -/
abbrev ResponseParser := Nat → Bytes → Option ParsedHead

/-- Byte of a field value or a reason phrase. -/
def isFieldByte (b : UInt8) : Bool :=
  b == 9 || (32 ≤ b && b != 127)

/-- A response head; the fields come with the blanks around their values. -/
def wireHead (status : Nat) (reason : Bytes) (fields : Headers) : Bytes :=
  joinLines ((ascii "HTTP/1.1 " ++ Decimal.render status ++ ascii " " ++ reason) ::
    fields.map fun f => f.1 ++ 58 :: f.2) ++ crlf

/-- A head that every parser has to take. -/
structure WellFormed (status : Nat) (reason : Bytes) (fields : Headers) : Prop where
  status : 100 ≤ status ∧ status ≤ 999
  reason : ∀ b ∈ reason, isFieldByte b = true
  names : ∀ f ∈ fields, f.1 ≠ [] ∧ ∀ b ∈ f.1, Wire.isTokenByte b = true
  values : ∀ f ∈ fields, ∀ b ∈ f.2, isFieldByte b = true

/-- Well-formed heads are parsed, unless they have more fields than there are slots. -/
structure ParsesResponses (parse : ResponseParser) : Prop where
  complete :
    ∀ capacity status reason fields body,
      WellFormed status reason fields →
      fields.length ≤ capacity →
      parse capacity (wireHead status reason fields ++ body) =
        some ⟨some status, fields.map fun f => (f.1, trimBy isOws f.2),
          (wireHead status reason fields).length⟩
  tooMany :
    ∀ capacity status reason fields body,
      WellFormed status reason fields →
      capacity < fields.length →
      parse capacity (wireHead status reason fields ++ body) = none

/-! ### The bridge -/

/-- An HTTP/2 request with its body. -/
structure Request where
  method : Bytes
  pathQuery : Option Bytes
  authority : Option Bytes
  headers : Headers
  body : Bytes

/-- Header fields that are left out of the HTTP/1.1 request. -/
def isDropped (name : Bytes) : Bool :=
  [58].isPrefixOf name ||
    [ascii "connection", ascii "transfer-encoding", ascii "upgrade", ascii "keep-alive"].any
      (eqIgnoreCase name)

/-- The HTTP/1.1 request of a stream. -/
def h1Request (req : Request) : Bytes :=
  let requestLine :=
    req.method ++ ascii " " ++ req.pathQuery.getD (ascii "/") ++ ascii " HTTP/1.1"
  let host :=
    match req.authority with
    | some authority => [ascii "Host: " ++ authority]
    | none => []
  let fields :=
    (req.headers.filter fun h => !isDropped h.1 && h.2.all isVisibleAscii).map
      Response.headerLine
  let length :=
    if req.body.isEmpty then []
    else [ascii "Content-Length: " ++ Decimal.render req.body.length]
  joinLines (requestLine :: (host ++ fields ++ length)) ++ crlf ++ req.body

/-- The header slots. -/
def headerSlots : Nat := 64

/-- Header fields that are left out of the HTTP/2 response. -/
def isHopByHop (name : Bytes) : Bool :=
  [ascii "connection", ascii "transfer-encoding", ascii "keep-alive"].any (eqIgnoreCase name)

def parseH1Response (parse : ResponseParser) (bytes : Bytes) : Nat × Headers × Bytes :=
  match parse headerSlots bytes with
  | some head =>
      (head.code.getD 200,
        ((head.headers.filter fun h => !h.1.isEmpty).filter fun h => !isHopByHop h.1).map
          fun h => (h.1, Utf8.fromUtf8Lossy h.2),
        bytes.drop head.headerEnd)
  | none => (200, [], bytes)

/-- A field with a name or a value that HTTP/2 does not know is left out. -/
def insertHeader (m : HeaderMap) (h : Bytes × Bytes) : HeaderMap :=
  match HeaderName.fromBytes h.1, HeaderValue.fromStr h.2 with
  | some name, some value => m.insert name value
  | _, _ => m

/-- The response to a stream, from the bytes of a handled request. -/
def bridge (parse : ResponseParser) (bytes : Bytes) : Response :=
  let (status, headers, body) := parseH1Response parse bytes
  { status := (StatusCode.fromU16 status).getD .internalServerError
    headers := headers.foldl insertHeader ∅
    body := body }

def handleStream
    (parse : ResponseParser) (handle : Bytes → HandlerResult) (req : Request) : Response :=
  bridge parse (handle (h1Request req)).bytes

/-! ### Field maps -/

theorem isTokenByte_toLowerByte
    (b : UInt8) :
    Wire.isTokenByte (toLowerByte b) = Wire.isTokenByte b :=
  forall_byte (P := fun b => Wire.isTokenByte (toLowerByte b) = Wire.isTokenByte b)
    (by decide +kernel) b

/-- A name is one of HTTP/2 when it is a short enough token. -/
theorem isFieldName_toAsciiLower
    {s : Bytes} :
    IsFieldName (toAsciiLower s) ↔
      s ≠ [] ∧ s.length ≤ maxHeaderNameLen ∧ ∀ b ∈ s, Wire.isTokenByte b = true := by
  simp [IsFieldName, toAsciiLower, isTokenByte_toLowerByte, toLowerByte_idem]

/-- The bytes of the fields a map is given. -/
def lowerField (h : Bytes × Bytes) : Bytes × Bytes :=
  (toAsciiLower h.1, h.2)

theorem fieldsOf_valid
    {m : HeaderMap} {f : Bytes × Bytes}
    (hf : f ∈ fieldsOf m) :
    IsFieldName f.1 ∧ f.2.all isVisibleAscii = true := by
  obtain ⟨e, -, rfl⟩ := List.mem_map.mp hf
  exact ⟨e.1.valid, e.2.visible⟩

theorem fieldsOf_names_nodup
    (m : HeaderMap) :
    ((fieldsOf m).map Prod.fst).Nodup := by
  have hkeys : (m.keys.map HeaderName.bytes).Nodup := by
    refine m.keys_nodup.map ?_
    rintro ⟨a, _⟩ ⟨b, _⟩ h
    cases h
    rfl
  simpa [fieldsOf, AList.keys, List.keys, List.map_map, Function.comp_def] using hkeys

/-- An insertion keeps the fields, or puts one in their front. -/
theorem mem_fieldsOf_insertHeader
    {m : HeaderMap} {h f : Bytes × Bytes}
    (hf : f ∈ fieldsOf (insertHeader m h)) :
    f ∈ fieldsOf m ∨ f.2 = h.2 := by
  unfold insertHeader at hf
  split at hf
  · rename_i name value hname hvalue
    have hvalue : value.bytes = h.2 := by
      unfold HeaderValue.fromStr at hvalue
      split at hvalue
      · cases hvalue
        rfl
      · cases hvalue
    obtain ⟨e, he, rfl⟩ := List.mem_map.mp hf
    rw [AList.entries_insert] at he
    rcases List.mem_cons.mp he with rfl | he
    · exact .inr hvalue
    · exact .inl (List.mem_map.mpr ⟨e, (List.kerase_sublist name m.entries).mem he, rfl⟩)
  · exact .inl hf

/-- No value comes from elsewhere. -/
theorem value_mem_of_foldl
    {l : Headers} {m : HeaderMap} {f : Bytes × Bytes}
    (hf : f ∈ fieldsOf (l.foldl insertHeader m)) :
    f ∈ fieldsOf m ∨ ∃ h ∈ l, f.2 = h.2 := by
  induction l generalizing m with
  | nil => exact .inl hf
  | cons h l ih =>
      rcases ih hf with hf | ⟨h', hmem, heq⟩
      · rcases mem_fieldsOf_insertHeader hf with hf | heq
        · exact .inl hf
        · exact .inr ⟨h, List.mem_cons_self, heq⟩
      · exact .inr ⟨h', List.mem_cons_of_mem h hmem, heq⟩

/-- Valid fields of distinct names are all kept. -/
theorem fieldsOf_foldl
    {l : Headers} {m : HeaderMap}
    (hnames : ∀ h ∈ l, IsFieldName (toAsciiLower h.1))
    (hvalues : ∀ h ∈ l, h.2.all isVisibleAscii = true)
    (hdistinct : (l.map (toAsciiLower ·.1) ++ (fieldsOf m).map Prod.fst).Nodup) :
    (fieldsOf (l.foldl insertHeader m)).Perm (l.map lowerField ++ fieldsOf m) := by
  induction l generalizing m with
  | nil => exact List.Perm.refl _
  | cons h l ih =>
      have hinsert : insertHeader m h =
          m.insert ⟨toAsciiLower h.1, hnames h List.mem_cons_self⟩
            ⟨h.2, hvalues h List.mem_cons_self⟩ := by
        simp [insertHeader, HeaderName.fromBytes, HeaderValue.fromStr,
          hnames h List.mem_cons_self, hvalues h List.mem_cons_self]
      have hnew : fieldsOf (insertHeader m h) = lowerField h :: fieldsOf m := by
        rw [hinsert, fieldsOf, AList.entries_insert_of_notMem]
        · rfl
        · intro hmem
          have hkey : toAsciiLower h.1 ∈ (fieldsOf m).map Prod.fst := by
            obtain ⟨e, he, heq⟩ := List.mem_map.mp hmem
            refine List.mem_map.mpr ⟨_, List.mem_map.mpr ⟨e, he, rfl⟩, ?_⟩
            rw [heq]
          exact (List.nodup_cons.mp hdistinct).1 (List.mem_append_right _ hkey)
      have hrest : (l.map (toAsciiLower ·.1) ++
          (fieldsOf (insertHeader m h)).map Prod.fst).Nodup := by
        rw [hnew]
        exact (List.perm_middle.nodup_iff).mpr hdistinct
      refine (ih (fun h' hh => hnames h' (List.mem_cons_of_mem _ hh))
        (fun h' hh => hvalues h' (List.mem_cons_of_mem _ hh)) hrest).trans ?_
      rw [hnew]
      exact List.perm_middle

/-! ### What is kept of a response -/

/-- Header fields that are about one connection only. -/
def connectionFields : List Bytes :=
  [ascii "connection", ascii "keep-alive", ascii "proxy-connection", ascii "te",
    ascii "trailer", ascii "transfer-encoding", ascii "upgrade"]

/-- A header field for the client. -/
def EndToEnd (h : Bytes × Bytes) : Prop :=
  toAsciiLower h.1 ∉ connectionFields

instance (h : Bytes × Bytes) : Decidable (EndToEnd h) :=
  inferInstanceAs (Decidable (_ ∉ _))

/-- The field that every response starts with. -/
def serverField : Bytes × Bytes :=
  (ascii "Server", ascii "RunNginx/" ++ pkgVersion)

/-- Status, header fields and body are those of the HTTP/1.1 response. -/
structure Preserved (status : Nat) (headers : Headers) (body : Bytes) (r : Response) : Prop where
  status : r.status.code = status
  headers : (fieldsOf r.headers).Perm ((serverField :: headers).map lowerField)
  body : r.body = body

/-- A response that HTTP/2 can carry through the slots and the map. -/
structure Bridgeable (status : Nat) (headers : Headers) : Prop where
  status : 100 ≤ status ∧ status ≤ 999
  count : headers.length + 2 ≤ headerSlots
  names : ∀ h ∈ headers, IsFieldName (toAsciiLower h.1)
  values : ∀ h ∈ headers, h.2.all isVisibleAscii = true ∧ trimBy isOws h.2 = h.2
  distinct : ((serverField :: headers).map fun h => toAsciiLower h.1).Nodup

theorem isFieldName_server :
    IsFieldName (toAsciiLower serverField.1) :=
  isFieldName_toAsciiLower.mpr ⟨nofun, by decide, List.all_eq_true.mp rfl⟩

/-- The fields of a response, with the blank before each value. -/
def wireFields (headers : Headers) (keepAlive : Bool) : Headers :=
  ((serverField :: headers) ++
      [(ascii "Connection", if keepAlive then ascii "keep-alive" else ascii "close")]).map
    fun h => (h.1, 32 :: h.2)

theorem length_wireFields (headers : Headers) (keepAlive : Bool) :
    (wireFields headers keepAlive).length = headers.length + 2 := by
  simp only [wireFields, List.length_map, List.length_append, List.length_cons, List.length_nil]

theorem formatResponse_eq
    (status : Nat) (headers : Headers) (keepAlive : Bool) (body : Bytes) :
    formatResponse status headers keepAlive body =
      wireHead status (statusReason status) (wireFields headers keepAlive) ++ body := by
  have hline : headerLine = fun h => h.1 ++ 58 :: 32 :: h.2 := by
    funext h
    simp [headerLine, ascii]
  have hserver : ascii "Server: RunNginx/" ++ pkgVersion = headerLine serverField := by
    decide
  have hconnection :
      (if keepAlive then ascii "Connection: keep-alive" else ascii "Connection: close") =
        headerLine
          (ascii "Connection", if keepAlive then ascii "keep-alive" else ascii "close") := by
    cases keepAlive <;> decide
  simp only [formatResponse, headLines, wireHead, wireFields, hserver, hconnection]
  simp [hline, Function.comp_def]

theorem fieldByte_of_visible
    {b : UInt8}
    (h : isVisibleAscii b = true) :
    isFieldByte b = true ∧ b < 0x80 := by
  have := forall_byte (P := fun b => isVisibleAscii b = true → isFieldByte b = true ∧ b < 0x80)
    (by decide +kernel) b
  exact this h

theorem fieldByte_statusReason (status : Nat) : ∀ b ∈ statusReason status, isFieldByte b = true := by
  apply List.all_eq_true.mp
  unfold statusReason
  split <;> rfl

/-- A response of valid fields has a head that the parser takes. -/
theorem wellFormed_wireFields
    {status : Nat} {headers : Headers}
    (hstatus : 100 ≤ status ∧ status ≤ 999)
    (hnames : ∀ h ∈ headers, IsFieldName (toAsciiLower h.1))
    (hvalues : ∀ h ∈ headers, h.2.all isVisibleAscii = true)
    (keepAlive : Bool) :
    WellFormed status (statusReason status) (wireFields headers keepAlive) := by
  have hfield : ∀ f ∈ wireFields headers keepAlive,
      (f.1 ≠ [] ∧ ∀ b ∈ f.1, Wire.isTokenByte b = true) ∧ ∀ b ∈ f.2, isFieldByte b = true := by
    intro f hf
    obtain ⟨h, hmem, rfl⟩ := List.mem_map.mp hf
    have hblank : ∀ v : Bytes, (∀ b ∈ v, isFieldByte b = true) →
        ∀ b ∈ 32 :: v, isFieldByte b = true := by
      intro v hv b hb
      rcases List.mem_cons.mp hb with rfl | hb
      · rfl
      · exact hv b hb
    rcases List.mem_append.mp hmem with hmem | hmem
    · rcases List.mem_cons.mp hmem with rfl | hmem
      · exact ⟨⟨nofun, List.all_eq_true.mp rfl⟩, List.all_eq_true.mp rfl⟩
      · obtain ⟨hne, -, htoken⟩ := isFieldName_toAsciiLower.mp (hnames h hmem)
        refine ⟨⟨hne, htoken⟩, hblank _ ?_⟩
        intro b hb
        exact (fieldByte_of_visible (List.all_eq_true.mp (hvalues h hmem) b hb)).1
    · rw [List.mem_singleton.mp hmem]
      cases keepAlive <;>
        exact ⟨⟨nofun, List.all_eq_true.mp rfl⟩, List.all_eq_true.mp rfl⟩
  exact
    { status := hstatus
      reason := fieldByte_statusReason status
      names := fun f hf => (hfield f hf).1
      values := fun f hf => (hfield f hf).2 }

theorem trimBy_blank
    (v : Bytes) :
    trimBy isOws (32 :: v) = trimBy isOws v := by
  simp [trimBy, isOws]

theorem lossy_trim
    {v : Bytes}
    (hv : v.all isVisibleAscii = true) :
    Utf8.fromUtf8Lossy (trimBy isOws v) = trimBy isOws v := by
  apply Utf8.fromUtf8Lossy_ascii
  intro b hb
  have hmem : b ∈ v := by
    have := List.mem_reverse.mp hb
    have := (List.dropWhile_suffix _).subset this
    exact (List.dropWhile_suffix _).subset (List.mem_reverse.mp this)
  exact (fieldByte_of_visible (List.all_eq_true.mp hv b hmem)).2

theorem not_hopByHop
    {h : Bytes × Bytes}
    (hend : EndToEnd h) :
    isHopByHop h.1 = false := by
  simp only [isHopByHop, List.any_cons, List.any_nil, Bool.or_false, Bool.or_eq_false_iff]
  have hne : ∀ c ∈ connectionFields, eqIgnoreCase h.1 c = false := by
    intro c hc
    have hlower : toAsciiLower c = c := by
      revert c
      decide
    simp only [eqIgnoreCase, hlower, beq_eq_false_iff_ne]
    rintro rfl
    exact hend hc
  exact ⟨hne _ (by decide), hne _ (by decide), hne _ (by decide)⟩

/-- What the parsed head gives of a response of valid fields. -/
theorem parseH1Response_complete
    {parse : ResponseParser} {status : Nat} {headers : Headers}
    (hparse : ParsesResponses parse)
    (hend : ∀ h ∈ headers, EndToEnd h)
    (hstatus : 100 ≤ status ∧ status ≤ 999)
    (hcount : headers.length + 2 ≤ headerSlots)
    (hnames : ∀ h ∈ headers, IsFieldName (toAsciiLower h.1))
    (hvalues : ∀ h ∈ headers, h.2.all isVisibleAscii = true)
    (keepAlive : Bool) (body : Bytes) :
    parseH1Response parse (formatResponse status headers keepAlive body) =
      (status, (serverField :: headers).map (fun h => (h.1, trimBy isOws h.2)), body) := by
  have hcomplete := hparse.complete headerSlots status (statusReason status)
    (wireFields headers keepAlive) body
    (wellFormed_wireFields hstatus hnames hvalues keepAlive)
    (by rwa [length_wireFields])
  have hkeep : ∀ h ∈ serverField :: headers,
      h.1 ≠ [] ∧ isHopByHop h.1 = false ∧ h.2.all isVisibleAscii = true := by
    intro h hmem
    rcases List.mem_cons.mp hmem with rfl | hmem
    · decide
    · exact ⟨(isFieldName_toAsciiLower.mp (hnames h hmem)).1, not_hopByHop (hend h hmem),
        hvalues h hmem⟩
  have hconnection : isHopByHop (ascii "Connection") = true := by
    decide
  have hfilter : (((wireFields headers keepAlive).map fun f => (f.1, trimBy isOws f.2)).filter
      fun h => !h.1.isEmpty).filter (fun h => !isHopByHop h.1) =
        (serverField :: headers).map (fun h => (h.1, trimBy isOws h.2)) := by
    rw [List.filter_filter, wireFields, List.map_append, List.map_append, List.filter_append]
    have hnone : ∀ v : Bytes, ([(ascii "Connection", v)].filter fun h =>
        !isHopByHop h.1 && !h.1.isEmpty) = [] := by
      intro v
      simp [hconnection]
    simp only [List.map_map, Function.comp_def, trimBy_blank, List.map_cons, List.map_nil, hnone,
      List.append_nil]
    apply List.filter_eq_self.mpr
    intro f hf
    rw [← List.map_cons (f := fun h : Bytes × Bytes => (h.1, trimBy isOws h.2))] at hf
    obtain ⟨h, hmem, rfl⟩ := List.mem_map.mp hf
    obtain ⟨hne, hhop, -⟩ := hkeep h hmem
    simp [hne, hhop]
  have hlossy : ((serverField :: headers).map (fun h => (h.1, trimBy isOws h.2))).map
      (fun h => (h.1, Utf8.fromUtf8Lossy h.2)) =
        (serverField :: headers).map (fun h => (h.1, trimBy isOws h.2)) := by
    rw [List.map_map]
    apply List.map_congr_left
    intro h hmem
    simp [lossy_trim (hkeep h hmem).2.2]
  rw [formatResponse_eq, parseH1Response, hcomplete]
  simp only [Option.getD_some, List.drop_left, hfilter, hlossy]

/-- With too many fields there is no head, and all of the bytes are the body. -/
theorem parseH1Response_tooMany
    {parse : ResponseParser} {status : Nat} {headers : Headers}
    (hparse : ParsesResponses parse)
    (hstatus : 100 ≤ status ∧ status ≤ 999)
    (hcount : headerSlots < headers.length + 2)
    (hnames : ∀ h ∈ headers, IsFieldName (toAsciiLower h.1))
    (hvalues : ∀ h ∈ headers, h.2.all isVisibleAscii = true)
    (keepAlive : Bool) (body : Bytes) :
    parseH1Response parse (formatResponse status headers keepAlive body) =
      (200, [], formatResponse status headers keepAlive body) := by
  have hnone := hparse.tooMany headerSlots status (statusReason status)
    (wireFields headers keepAlive) body
    (wellFormed_wireFields hstatus hnames hvalues keepAlive)
    (by rwa [length_wireFields])
  rw [formatResponse_eq, parseH1Response, hnone]

/-- A response that can be carried is carried. -/
theorem bridge_preserves
    {parse : ResponseParser} {status : Nat} {headers : Headers}
    (hparse : ParsesResponses parse)
    (hend : ∀ h ∈ headers, EndToEnd h)
    (h : Bridgeable status headers)
    (keepAlive : Bool) (body : Bytes) :
    Preserved status headers body
      (bridge parse (formatResponse status headers keepAlive body)) := by
  have hparsed := parseH1Response_complete hparse hend h.status h.count h.names
    (fun x hx => (h.values x hx).1) keepAlive body
  have htrim : (serverField :: headers).map (fun h => (h.1, trimBy isOws h.2)) =
      serverField :: headers := by
    have hself : ∀ x ∈ serverField :: headers, (x.1, trimBy isOws x.2) = x := by
      intro x hx
      rcases List.mem_cons.mp hx with rfl | hx
      · rfl
      · rw [(h.values x hx).2]
    simpa using List.map_congr_left hself
  rw [htrim] at hparsed
  have hfields := fieldsOf_foldl (l := serverField :: headers) (m := ∅)
    (List.forall_mem_cons.mpr ⟨isFieldName_server, h.names⟩)
    (List.forall_mem_cons.mpr ⟨by decide, fun x hx => (h.values x hx).1⟩)
    (by simpa [fieldsOf] using h.distinct)
  refine ⟨?_, ?_, ?_⟩
  · simp [bridge, hparsed, StatusCode.fromU16, h.status]
  · simpa [bridge, hparsed, fieldsOf] using hfields
  · simp [bridge, hparsed]

/-- A response that is carried can be carried. -/
theorem bridgeable_of_preserved
    {parse : ResponseParser} {status : Nat} {headers : Headers} {keepAlive : Bool} {body : Bytes}
    (hparse : ParsesResponses parse)
    (hend : ∀ h ∈ headers, EndToEnd h)
    (h : Preserved status headers body
      (bridge parse (formatResponse status headers keepAlive body))) :
    Bridgeable status headers := by
  have hfield : ∀ x ∈ serverField :: headers,
      lowerField x ∈
        fieldsOf (bridge parse (formatResponse status headers keepAlive body)).headers :=
    fun x hx => h.headers.mem_iff.mpr (List.mem_map.mpr ⟨x, hx, rfl⟩)
  have hvalid := fun x hx => fieldsOf_valid (hfield x hx)
  have hstatus : 100 ≤ status ∧ status ≤ 999 := by
    rw [← h.status]
    exact StatusCode.three_digits _
  have hnames : ∀ x ∈ headers, IsFieldName (toAsciiLower x.1) :=
    fun x hx => (hvalid x (List.mem_cons_of_mem _ hx)).1
  have hvalues : ∀ x ∈ headers, x.2.all isVisibleAscii = true :=
    fun x hx => (hvalid x (List.mem_cons_of_mem _ hx)).2
  have hcount : headers.length + 2 ≤ headerSlots := by
    by_contra hcount
    -- the fallback has no field at all, and the response has one at least
    have hmany := parseH1Response_tooMany hparse hstatus (Nat.lt_of_not_le hcount) hnames hvalues
      keepAlive body
    have := hfield serverField List.mem_cons_self
    simp [bridge, hmany, fieldsOf] at this
  have hparsed := parseH1Response_complete hparse hend hstatus hcount hnames hvalues keepAlive body
  refine ⟨hstatus, hcount, hnames, fun x hx => ⟨hvalues x hx, ?_⟩, ?_⟩
  · have hmem := hfield x (List.mem_cons_of_mem _ hx)
    simp only [bridge, hparsed] at hmem
    rcases value_mem_of_foldl hmem with hmem | ⟨y, hy, heq⟩
    · simp [fieldsOf] at hmem
    · obtain ⟨z, -, rfl⟩ := List.mem_map.mp hy
      have heq : x.2 = trimBy isOws z.2 := heq
      rw [heq, trimBy_idem]
  · have := (h.headers.map Prod.fst).nodup_iff.mp (fieldsOf_names_nodup _)
    simpa [lowerField, Function.comp_def] using this

/-- A handled request's status, fields and body reach the client if and only if HTTP/2 can
carry the status and every field, there are slots enough, and no name occurs twice. -/
theorem handleStream_preserves_iff
    {parse : ResponseParser}
    (hparse : ParsesResponses parse)
    (handle : Bytes → HandlerResult) (req : Request)
    (status : Nat) (headers : Headers) (keepAlive : Bool) (body : Bytes)
    (hbytes : (handle (h1Request req)).bytes = formatResponse status headers keepAlive body)
    (hend : ∀ h ∈ headers, EndToEnd h) :
    Preserved status headers body (handleStream parse handle req) ↔
      Bridgeable status headers := by
  rw [handleStream, hbytes]
  exact ⟨bridgeable_of_preserved hparse hend, fun h => bridge_preserves hparse hend h keepAlive body⟩

/-! ### A parser of well-formed responses -/

/-- The code of a status line. -/
def statusOf (line : Bytes) : Option Nat :=
  (stripPrefix (ascii "HTTP/1.1 ") line).bind fun rest =>
    let code := Decimal.value (rest.takeWhile Decimal.isDigit)
    if 100 ≤ code ∧ code ≤ 999 then some code else none

/-- The name and the value of a field line. -/
def fieldOf (line : Bytes) : Option (Bytes × Bytes) :=
  (find [58] line).map fun i => (line.take i, trimBy isOws (line.drop (i + 1)))

def parseResponse (capacity : Nat) (s : Bytes) : Option ParsedHead :=
  match parseHead s with
  | some (startLine :: fieldLines, body) =>
      if capacity < fieldLines.length then none
      else
        (statusOf startLine).bind fun code =>
          (fieldLines.mapM fieldOf).map fun fields =>
            ⟨some code, fields, s.length - body.length⟩
  | _ => none

theorem statusOf_line
    {status : Nat}
    (hstatus : 100 ≤ status ∧ status ≤ 999)
    (reason : Bytes) :
    statusOf (ascii "HTTP/1.1 " ++ Decimal.render status ++ ascii " " ++ reason) =
      some status := by
  have hdigits : (Decimal.render status ++ (ascii " " ++ reason)).takeWhile Decimal.isDigit =
      Decimal.render status := by
    rw [List.takeWhile_append_of_pos fun b hb => Decimal.isDigit_of_mem_render hb]
    simp [ascii, Decimal.isDigit]
  have hprefix : stripPrefix (ascii "HTTP/1.1 ")
      (ascii "HTTP/1.1 " ++ (Decimal.render status ++ (ascii " " ++ reason))) =
        some (Decimal.render status ++ (ascii " " ++ reason)) := by
    simp [stripPrefix]
  rw [List.append_assoc, List.append_assoc, statusOf, hprefix]
  simp only [Option.bind_some, hdigits, Decimal.value_render, if_pos hstatus]

theorem fieldOf_line
    {f : Bytes × Bytes}
    (hname : ∀ b ∈ f.1, Wire.isTokenByte b = true) :
    fieldOf (f.1 ++ 58 :: f.2) = some (f.1, trimBy isOws f.2) := by
  have hcolon : (58 : UInt8) ∉ f.1 := fun hmem => (Wire.Field.tokenByte_facts (hname 58 hmem)).1 rfl
  have hdrop : (f.1 ++ 58 :: f.2).drop (f.1.length + 1) = f.2 := by
    rw [← List.drop_drop, List.drop_left]
    rfl
  simp [fieldOf, find_byte_append hcolon, hdrop]

theorem mapM_fieldOf
    {fields : Headers}
    (hnames : ∀ f ∈ fields, ∀ b ∈ f.1, Wire.isTokenByte b = true) :
    (fields.map fun f => f.1 ++ 58 :: f.2).mapM fieldOf =
      some (fields.map fun f => (f.1, trimBy isOws f.2)) := by
  induction fields with
  | nil => rfl
  | cons f fields ih =>
      have hrest := ih fun f' hf => hnames f' (List.mem_cons_of_mem f hf)
      simp [fieldOf_line (hnames f List.mem_cons_self), hrest]

/-- The lines of a well-formed head are read back. -/
theorem parseHead_wireHead
    {status : Nat} {reason : Bytes} {fields : Headers}
    (h : WellFormed status reason fields)
    (body : Bytes) :
    parseHead (wireHead status reason fields ++ body) =
      some ((ascii "HTTP/1.1 " ++ Decimal.render status ++ ascii " " ++ reason) ::
        fields.map (fun f => f.1 ++ 58 :: f.2), body) := by
  have hfield : ∀ s : Bytes, (∀ b ∈ s, isFieldByte b = true) → (10 : UInt8) ∉ s :=
    fun s hs hmem => absurd (hs 10 hmem) (by decide)
  have hdigits : (10 : UInt8) ∉ Decimal.render status :=
    fun hmem => absurd (Decimal.isDigit_of_mem_render hmem) (by decide)
  apply parseHead_joinLines
  · intro l hl
    apply crlfFree_of_not_mem
    rcases List.mem_cons.mp hl with rfl | hl
    · simp [hdigits, hfield reason h.reason, ascii]
    · obtain ⟨f, hf, rfl⟩ := List.mem_map.mp hl
      have hname : (10 : UInt8) ∉ f.1 := fun hmem =>
        (Wire.Field.tokenByte_facts ((h.names f hf).2 10 hmem)).2.1 rfl
      simp [hname, hfield f.2 (h.values f hf)]
  · intro l hl
    rcases List.mem_cons.mp hl with rfl | hl
    · simp [ascii]
    · obtain ⟨f, hf, rfl⟩ := List.mem_map.mp hl
      simp

theorem parsesResponses_parseResponse : ParsesResponses parseResponse where
  complete capacity status reason fields body h hcount := by
    have hlength : ¬ capacity < (fields.map fun f => f.1 ++ 58 :: f.2).length := by
      simpa using hcount
    simp only [parseResponse, parseHead_wireHead h, if_neg hlength, statusOf_line h.status,
      mapM_fieldOf fun f hf => (h.names f hf).2]
    simp
  tooMany capacity status reason fields body h hcount := by
    have hlength : capacity < (fields.map fun f => f.1 ++ 58 :: f.2).length := by
      simpa using hcount
    simp only [parseResponse, parseHead_wireHead h, if_pos hlength]

/-- A request for the root of a site. -/
def rootRequest : Request where
  method := ascii "GET"
  pathQuery := none
  authority := some (ascii "example.org")
  headers := []
  body := []

/-- A handled request with an answer of 200 and an empty body. -/
def answerWith (headers : Headers) : HandlerResult where
  bytes := formatResponse 200 headers true []
  keepAlive := true
  status := 200
  tunnel := none

theorem handleStream_preserves_example :
    Preserved 200 [(ascii "Set-Cookie", ascii "a=1")] []
        (handleStream parseResponse
          (fun _ => answerWith [(ascii "Set-Cookie", ascii "a=1")]) rootRequest) ↔
      Bridgeable 200 [(ascii "Set-Cookie", ascii "a=1")] :=
  handleStream_preserves_iff parsesResponses_parseResponse _ rootRequest 200 _ true [] rfl
    (List.forall_mem_singleton.mpr (by decide))

/-- Of two cookies the second one reaches the client. -/
theorem cookie_lost :
    ¬ Preserved 200
        [(ascii "Set-Cookie", ascii "a=1"), (ascii "Set-Cookie", ascii "b=2")] []
        (handleStream parseResponse
          (fun _ => answerWith
            [(ascii "Set-Cookie", ascii "a=1"), (ascii "Set-Cookie", ascii "b=2")])
          rootRequest) := by
  intro h
  have hend : ∀ x ∈ [(ascii "Set-Cookie", ascii "a=1"), (ascii "Set-Cookie", ascii "b=2")],
      EndToEnd x := by
    decide
  exact absurd (bridgeable_of_preserved parsesResponses_parseResponse hend h).distinct (by decide)

end Http2
end RunNginx
