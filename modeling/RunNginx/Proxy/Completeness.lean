import RunNginx.FastCgi.CgiText
import RunNginx.Lib.ChunkedBody
import RunNginx.Lib.FieldText

/-!
# Where an upstream response ends

The proxy asks behind each read whether the response is complete.  It takes the number of a
Content-Length, and for a chunked body it looks for the bytes of a last chunk, anywhere in
what it has read.

`completeness_exact_iff`: the answer is right behind every read exactly if these bytes stand
at the end of a chunked response and nowhere else, the text of the head can be read, and the
lengths add up within a machine word.
-/

namespace RunNginx
namespace Proxy

open ByteString HttpMessage
open FastCgi (joined PlainLine)

section Fields

variable {name line : Bytes} {ls : List Bytes}

/-- The proxy's test for a field is the recipient's. -/
theorem valueOf_eq
    (hcolon : 58 ∉ name) (hlower : toAsciiLower name = name) (line : Bytes) :
    valueOf name line =
      if (toAsciiLower name ++ ascii ":").isPrefixOf (toAsciiLower line) then
        some (trimBy isOws (line.drop (name.length + 1)))
      else none := by
  have hcolon' : ascii ":" = [58] := by decide
  rw [hcolon', hlower]
  split
  · rename_i hprefix
    obtain ⟨t, ht⟩ := List.isPrefixOf_iff_prefix.mp hprefix
    have hback : ∀ b : UInt8, toLowerByte b = 58 → b = 58 :=
      forall_byte (by decide +kernel)
    obtain ⟨front, rest, rfl, hfront, hrest⟩ := List.map_eq_append_iff.mp ht.symm
    obtain ⟨front, last, rfl, hname, hlast⟩ := List.map_eq_append_iff.mp hfront
    obtain ⟨c, rfl, hc⟩ := List.map_eq_singleton_iff.mp hlast
    obtain rfl := hback c hc
    have hsame : eqIgnoreCase front name = true := by
      unfold eqIgnoreCase
      rw [beq_iff_eq, hlower]
      exact hname
    have hfree : 58 ∉ front := by
      refine not_mem_of_eqIgnoreCase (by decide) ?_ hsame
      rw [hlower]
      exact hcolon
    have hlength : front.length = name.length := by
      rw [← hname, List.length_map]
    have hdrop : (front ++ 58 :: rest).drop (front.length + 1) = rest := by
      simp [List.drop_append]
    rw [List.append_assoc, List.singleton_append, valueOf_field rest hfree, if_pos hsame,
      ← hlength, hdrop]
  · rename_i hprefix
    unfold valueOf
    cases hfind : find [58] line with
    | none => rfl
    | some i =>
        obtain ⟨hsplit, -, -⟩ := find_byte_split hfind
        refine if_neg fun hsame => hprefix ?_
        unfold eqIgnoreCase at hsame
        rw [beq_iff_eq, hlower] at hsame
        rw [List.isPrefixOf_iff_prefix, hsplit, toAsciiLower, List.map_append, List.map_cons]
        refine ⟨(line.drop (i + 1)).map toLowerByte, ?_⟩
        rw [← hsame, toAsciiLower, List.append_assoc]
        rfl

/-- What the proxy looks up in the lines of a head is the first field of the name. -/
theorem findSome_values
    (hcolon : 58 ∉ name) (hlower : toAsciiLower name = name) (ls : List Bytes) :
    (valuesOf name ls = [] →
      (ls.findSome? fun line =>
        if (toAsciiLower name ++ ascii ":").isPrefixOf (toAsciiLower line) then
          some (Utf8.trim (line.drop (name.length + 1)))
        else none) = none) ∧
      ∀ v vs, valuesOf name ls = v :: vs →
        ∃ rest, v = trimBy isOws rest ∧
          (ls.findSome? fun line =>
            if (toAsciiLower name ++ ascii ":").isPrefixOf (toAsciiLower line) then
              some (Utf8.trim (line.drop (name.length + 1)))
            else none) = some (Utf8.trim rest) := by
  unfold valuesOf
  induction ls with
  | nil => exact ⟨fun _ => rfl, nofun⟩
  | cons line ls ih =>
      rw [List.filterMap_cons, List.findSome?_cons, valueOf_eq hcolon hlower]
      split
      · rename_i hnone
        split at hnone
        · cases hnone
        · rename_i hprefix
          rw [if_neg hprefix]
          exact ih
      · rename_i value hvalue
        split at hvalue
        · rename_i hprefix
          rw [if_pos hprefix]
          refine ⟨nofun, fun v vs hvs => ⟨_, ?_, rfl⟩⟩
          rw [← (List.cons.inj hvs).1]
          exact (Option.some.inj hvalue).symm
        · cases hvalue

end Fields

/-- How the end of a body is found. -/
inductive Framing
  | length (n : Nat)
  | chunked
  /-- The body ends with the connection. -/
  | close
deriving DecidableEq, Repr

/-- The transfer codings of a message. -/
def transferCodings (fieldLines : List Bytes) : List Bytes :=
  (valuesOf (ascii "transfer-encoding") fieldLines).flatMap fun v =>
    (splitByte 44 v).map (trimBy isOws)

/-- The last transfer coding is `chunked`. -/
def IsChunked (fieldLines : List Bytes) : Prop :=
  ∃ coding, (transferCodings fieldLines).getLast? = some coding ∧
    eqIgnoreCase coding (ascii "chunked") = true

namespace Framing

/-- The fields that announce the framing. -/
def DeclaredBy (fieldLines : List Bytes) : Framing → Prop
  | length n =>
      valuesOf (ascii "transfer-encoding") fieldLines = [] ∧
        ∃ v, valuesOf (ascii "content-length") fieldLines = [v] ∧ IsNumeral v n
  | chunked => valuesOf (ascii "content-length") fieldLines = [] ∧ IsChunked fieldLines
  | close => valuesOf (ascii "content-length") fieldLines = [] ∧ ¬ IsChunked fieldLines

/-- The end of the body is among these bytes. -/
def Reached : Framing → Bytes → Prop
  | length n, got => n ≤ got.length
  | chunked, got => (ChunkedBody.rest got).isSome = true
  | close, _ => False

/-- These bytes are a whole body. -/
def Frames : Framing → Bytes → Prop
  | length n, body => body.length = n
  | chunked, body => ChunkedBody.rest body = some []
  | close, _ => True

end Framing

/-- A well-formed response. -/
structure ResponseStream where
  startLine : Bytes
  fieldLines : List Bytes
  framing : Framing
  body : Bytes
  start_http : ascii "HTTP/" <+: startLine
  plain : ∀ l ∈ startLine :: fieldLines, PlainLine l
  declared : framing.DeclaredBy fieldLines
  framed : framing.Frames body

namespace ResponseStream

variable (m : ResponseStream)

/-- The lines of the head, without the end of the last one. -/
def headText : Bytes :=
  joined crlf m.startLine m.fieldLines

/-- The head and the empty line. -/
def head : Bytes :=
  m.headText ++ (crlf ++ crlf)

def stream : Bytes :=
  m.head ++ m.body

/-- All of the message is there. -/
def Complete (buf : Bytes) : Prop :=
  ∃ got, buf = m.head ++ got ∧ m.framing.Reached got

/-- The test is right behind every read. -/
def Exact : Prop :=
  ∀ buf, buf <+: m.stream → (isResponseComplete buf = true ↔ m.Complete buf)

/-- The end of the message is no larger than a machine word, for a length that is one. -/
def NoWrap : Prop :=
  ∀ n, m.framing = .length n → n < Decimal.usizeBound →
    m.head.length + n < Decimal.usizeBound

/-- The first field that names the transfer coding does so in lower case. -/
def NamesChunked : Prop :=
  (extractHeaderValue m.headText (ascii "transfer-encoding")).any (contains (ascii "chunked")) =
    true

/-- The bytes of the last chunk. -/
def lastChunk : Bytes :=
  ascii "0" ++ crlf ++ crlf

/-- The condition under which the test is right. -/
def Readable : Prop :=
  match m.framing with
  | .length n => Utf8.isUtf8 m.headText = true ∧ m.head.length + n < Decimal.usizeBound
  | .chunked =>
      Utf8.isUtf8 m.headText = true ∧ m.NamesChunked ∧
        find lastChunk m.stream = some (m.stream.length - lastChunk.length)
  | .close =>
      ¬ (Utf8.isUtf8 m.headText = true ∧ m.NamesChunked ∧ contains lastChunk m.stream = true)

variable {m}

theorem find_stream :
    find (crlf ++ crlf) m.stream = some m.headText.length := by
  have h := FastCgi.find_blank (.inl rfl) m.plain m.body
  rw [stream, head, List.append_assoc, List.append_assoc]
  exact h

theorem length_head :
    m.head.length = m.headText.length + 4 := by
  rw [head, List.length_append]
  rfl

/-- A buffer holds the head, or its blank line is not found. -/
theorem buffer_cases
    {buf : Bytes} (h : buf <+: m.stream) :
    (∃ got, got <+: m.body ∧ buf = m.head ++ got) ∨
      findDoubleCrlf buf = none ∧ buf.length < m.head.length := by
  have hfind := find_of_isPrefix (by decide) h find_stream
  by_cases hlength : m.head.length ≤ buf.length
  · left
    have hhead : m.head <+: buf :=
      List.prefix_of_prefix_length_le (List.prefix_append _ _) h hlength
    obtain ⟨got, rfl⟩ := hhead
    rw [stream, List.prefix_append_right_inj] at h
    exact ⟨got, h, rfl⟩
  · right
    refine ⟨?_, Nat.not_le.mp hlength⟩
    rw [findDoubleCrlf, hfind]
    refine if_neg fun hle => hlength ?_
    rw [length_head]
    exact hle

theorem complete_iff
    (got : Bytes) :
    m.Complete (m.head ++ got) ↔ m.framing.Reached got := by
  constructor
  · rintro ⟨got', heq, h⟩
    rwa [List.append_cancel_left heq]
  · exact fun h => ⟨got, rfl, h⟩

theorem lines_headText :
    lines m.headText = m.startLine :: m.fieldLines :=
  FastCgi.lines_joined (.inl rfl) m.plain

/-- The start line is not taken for a field. -/
theorem extractHeaderValue_eq
    {c : UInt8} {s : Bytes} (hc : toLowerByte c ≠ 104) :
    extractHeaderValue m.headText (c :: s) =
      m.fieldLines.findSome? fun line =>
        if (toAsciiLower (c :: s) ++ ascii ":").isPrefixOf (toAsciiLower line) then
          some (Utf8.trim (line.drop ((c :: s).length + 1)))
        else none := by
  obtain ⟨t, ht⟩ := m.start_http
  have hhttp : toAsciiLower (ascii "HTTP/" ++ t) = 104 :: toAsciiLower (ascii "TTP/" ++ t) := by
    have hfirst : ascii "HTTP/" = 72 :: ascii "TTP/" := by decide
    have hlower : toLowerByte 72 = 104 := by decide
    rw [hfirst, toAsciiLower, List.cons_append, List.map_cons, hlower]
    rfl
  have hstart : (toAsciiLower (c :: s) ++ ascii ":").isPrefixOf (toAsciiLower m.startLine) =
      false := by
    rw [← ht, hhttp, toAsciiLower, List.map_cons, List.cons_append, List.isPrefixOf_cons_cons,
      beq_eq_false_iff_ne.mpr hc, Bool.false_and]
  rw [extractHeaderValue, lines_headText, List.findSome?_cons, hstart]
  rfl

/-- A field that is not there is not found. -/
theorem extractHeaderValue_none
    {c : UInt8} {s : Bytes} (hc : toLowerByte c ≠ 104) (hcolon : 58 ∉ c :: s)
    (hlower : toAsciiLower (c :: s) = c :: s) (h : valuesOf (c :: s) m.fieldLines = []) :
    extractHeaderValue m.headText (c :: s) = none := by
  rw [extractHeaderValue_eq hc]
  exact (findSome_values hcolon hlower m.fieldLines).1 h

theorem contentLength_none
    (h : valuesOf (ascii "content-length") m.fieldLines = []) :
    extractHeaderValue m.headText (ascii "content-length") = none := by
  have hname : ascii "content-length" = 99 :: ascii "ontent-length" := by decide
  rw [hname] at h ⊢
  exact extractHeaderValue_none (by decide) (by decide) (by decide) h

theorem transferEncoding_none
    (h : valuesOf (ascii "transfer-encoding") m.fieldLines = []) :
    extractHeaderValue m.headText (ascii "transfer-encoding") = none := by
  have hname : ascii "transfer-encoding" = 116 :: ascii "ransfer-encoding" := by decide
  rw [hname] at h ⊢
  exact extractHeaderValue_none (by decide) (by decide) (by decide) h

/-- A length that fits is read. -/
theorem contentLength_some
    {v : Bytes} {n : Nat} (h : valuesOf (ascii "content-length") m.fieldLines = [v])
    (hv : IsNumeral v n) :
    (extractHeaderValue m.headText (ascii "content-length")).bind
        (Decimal.parseUnsigned Decimal.usizeBound) =
      if n < Decimal.usizeBound then some n else none := by
  have hname : ascii "content-length" = 99 :: ascii "ontent-length" := by decide
  rw [hname] at h ⊢
  obtain ⟨rest, rfl, hfound⟩ :=
    (findSome_values (by decide) (by decide) m.fieldLines).2 v [] h
  rw [extractHeaderValue_eq (by decide), hfound, Option.bind_some]
  exact parseUnsigned_trim hv _

variable (m) in
/-- What the test makes of a buffer that holds the head. -/
theorem isResponseComplete_head
    {got : Bytes} (hgot : got <+: m.body) :
    isResponseComplete (m.head ++ got) =
      let text := if Utf8.isUtf8 m.headText then m.headText else []
      match (extractHeaderValue text (ascii "content-length")).bind
          (Decimal.parseUnsigned Decimal.usizeBound) with
      | some n => decide ((m.head.length + n) % Decimal.usizeBound ≤ (m.head ++ got).length)
      | none =>
          match extractHeaderValue text (ascii "transfer-encoding") with
          | some te => contains (ascii "chunked") te && contains lastChunk (m.head ++ got)
          | none => false := by
  have hbuf : m.head ++ got <+: m.stream := (List.prefix_append_right_inj _).mpr hgot
  have hfind := find_of_isPrefix (by decide) hbuf find_stream
  have hfits : m.headText.length + (crlf ++ crlf).length ≤ (m.head ++ got).length := by
    have hle := (List.prefix_append m.head got).length_le
    rw [length_head] at hle
    exact hle
  rw [if_pos hfits] at hfind
  have htake : (m.head ++ got).take m.headText.length = m.headText := by
    rw [head, List.append_assoc, List.take_left]
  unfold isResponseComplete
  rw [findDoubleCrlf, hfind]
  dsimp only
  rw [htake, length_head]
  rfl

/-- Text that is not read has no fields. -/
theorem extractHeaderValue_nil
    (name : Bytes) :
    extractHeaderValue [] name = none :=
  rfl

/-- A length that is announced is waited for, if the text is read and the length fits. -/
theorem isResponseComplete_length
    {n : Nat} {got : Bytes} (hframing : m.framing = .length n) (hgot : got <+: m.body) :
    isResponseComplete (m.head ++ got) = true ↔
      Utf8.isUtf8 m.headText = true ∧ n < Decimal.usizeBound ∧
        (m.head.length + n) % Decimal.usizeBound ≤ m.head.length + got.length := by
  have hdeclared := m.declared
  rw [hframing] at hdeclared
  obtain ⟨hte, v, hvalues, hv⟩ := hdeclared
  rw [isResponseComplete_head m hgot]
  dsimp only
  by_cases hutf8 : Utf8.isUtf8 m.headText = true
  · rw [if_pos hutf8, contentLength_some hvalues hv, transferEncoding_none hte,
      and_iff_right hutf8]
    by_cases hn : n < Decimal.usizeBound
    · rw [if_pos hn, and_iff_right hn, decide_eq_true_eq, List.length_append]
    · rw [if_neg hn]
      exact iff_of_false Bool.false_ne_true fun h => hn h.1
  · rw [if_neg hutf8, extractHeaderValue_nil, extractHeaderValue_nil]
    exact iff_of_false Bool.false_ne_true fun h => hutf8 h.1

/-- Without a length, the bytes of a last chunk are looked for. -/
theorem isResponseComplete_chunks
    {got : Bytes} (hlength : valuesOf (ascii "content-length") m.fieldLines = [])
    (hgot : got <+: m.body) :
    isResponseComplete (m.head ++ got) = true ↔
      Utf8.isUtf8 m.headText = true ∧ m.NamesChunked ∧
        contains lastChunk (m.head ++ got) = true := by
  rw [isResponseComplete_head m hgot]
  dsimp only
  by_cases hutf8 : Utf8.isUtf8 m.headText = true
  · rw [if_pos hutf8, contentLength_none hlength, and_iff_right hutf8, NamesChunked]
    cases extractHeaderValue m.headText (ascii "transfer-encoding") with
    | none => exact iff_of_false Bool.false_ne_true fun h => Bool.false_ne_true h.1
    | some te =>
        rw [Option.any_some]
        exact Bool.and_eq_true_iff
  · rw [if_neg hutf8, extractHeaderValue_nil, extractHeaderValue_nil]
    exact iff_of_false Bool.false_ne_true fun h => hutf8 h.1

variable (m)

/-- A framing without a length leaves nothing to wrap. -/
theorem noWrap_of_ne
    (h : ∀ n, m.framing ≠ .length n) :
    m.NoWrap :=
  fun n hn => absurd hn (h n)

/-- Where the head is not there yet, nothing is complete. -/
theorem incomplete_of_short
    {buf : Bytes} (hnone : findDoubleCrlf buf = none) (hshort : buf.length < m.head.length) :
    isResponseComplete buf = true ↔ m.Complete buf := by
  refine iff_of_false ?_ ?_
  · rw [isResponseComplete, hnone]
    exact Bool.false_ne_true
  · rintro ⟨got, rfl, -⟩
    exact Nat.not_lt.mpr (List.prefix_append _ _).length_le hshort

/-- The test waits for a length exactly if the sum fits. -/
theorem exact_length_iff
    {n : Nat} (hframing : m.framing = .length n) :
    m.Exact ∧ m.NoWrap ↔
      Utf8.isUtf8 m.headText = true ∧ m.head.length + n < Decimal.usizeBound := by
  have hbody : m.body.length = n := by
    have hframed := m.framed
    rw [hframing] at hframed
    exact hframed
  have hreached : ∀ got, m.framing.Reached got ↔ n ≤ got.length := by
    intro got
    rw [hframing]
    exact Iff.rfl
  constructor
  · rintro ⟨hexact, hwrap⟩
    have hall := (hexact m.stream List.prefix_rfl).mpr
      ((complete_iff m.body).mpr ((hreached _).mpr (Nat.le_of_eq hbody.symm)))
    obtain ⟨hutf8, hn, -⟩ := (isResponseComplete_length hframing List.prefix_rfl).mp hall
    exact ⟨hutf8, hwrap n hframing hn⟩
  · rintro ⟨hutf8, hsum⟩
    refine ⟨fun buf hbuf => ?_, fun n' hn' _ => ?_⟩
    · rcases buffer_cases hbuf with ⟨got, hgot, rfl⟩ | ⟨hnone, hshort⟩
      · rw [isResponseComplete_length hframing hgot, complete_iff, hreached,
          Nat.mod_eq_of_lt hsum, and_iff_right hutf8, and_iff_right (by omega)]
        exact Nat.add_le_add_iff_left
      · exact incomplete_of_short m hnone hshort
    · rw [hframing, Framing.length.injEq] at hn'
      exact hn' ▸ hsum

/-- The bytes of a last chunk end with an empty line, so they end behind the head. -/
theorem head_length_le_of_find
    {i : Nat} (h : find lastChunk m.stream = some i) :
    m.head.length ≤ i + lastChunk.length := by
  obtain ⟨hocc, -⟩ := (find_eq_some_iff (by decide) _ _).mp h
  have hblank : crlf ++ crlf <+: m.stream.drop (i + 1) := by
    obtain ⟨t, ht⟩ := hocc
    rw [← List.drop_drop, ← ht]
    exact ⟨t, rfl⟩
  obtain ⟨-, hmin⟩ := (find_eq_some_iff (by decide) _ _).mp (find_stream (m := m))
  have hlast : lastChunk.length = 5 := rfl
  rw [length_head, hlast]
  by_contra hlt
  exact hmin (i + 1) (by omega) hblank

/-- Of a chunked message, all of it is complete and nothing less. -/
theorem complete_chunked_iff
    (hframing : m.framing = .chunked) {got : Bytes} (hgot : got <+: m.body) :
    m.Complete (m.head ++ got) ↔ got = m.body := by
  have hbody := m.framed
  rw [hframing] at hbody
  rw [complete_iff, hframing]
  exact ChunkedBody.rest_isSome_iff hbody hgot

/-- The end of a chunked body is seen exactly if its bytes stand there and nowhere else. -/
theorem exact_chunked_iff
    (hframing : m.framing = .chunked) :
    m.Exact ↔
      Utf8.isUtf8 m.headText = true ∧ m.NamesChunked ∧
        find lastChunk m.stream = some (m.stream.length - lastChunk.length) := by
  have hlength : valuesOf (ascii "content-length") m.fieldLines = [] := by
    have hdeclared := m.declared
    rw [hframing] at hdeclared
    exact hdeclared.1
  have htest := fun got hgot => @isResponseComplete_chunks m got hlength hgot
  constructor
  · intro hexact
    have hall := (hexact m.stream List.prefix_rfl).mpr
      ((complete_chunked_iff m hframing List.prefix_rfl).mpr rfl)
    obtain ⟨hutf8, hnames, hcontains⟩ := (htest m.body List.prefix_rfl).mp hall
    rw [← stream] at hcontains
    obtain ⟨i, hfind⟩ := Option.isSome_iff_exists.mp hcontains
    refine ⟨hutf8, hnames, ?_⟩
    -- the first bytes up to the first occurrence are accepted, so they are the message
    have hle := head_length_le_of_find m hfind
    have hpre := List.take_prefix (i + lastChunk.length) m.stream
    have hocc := ((find_eq_some_iff (by decide) _ _).mp hfind).1.length_le
    rw [List.length_drop] at hocc
    have hpos : 0 < lastChunk.length := by decide
    have htake : (m.stream.take (i + lastChunk.length)).length = i + lastChunk.length := by
      rw [List.length_take]
      omega
    rcases buffer_cases hpre with ⟨got, hgot, hbuf⟩ | ⟨-, hshort⟩
    · have hearly := find_of_isPrefix (by decide) hpre hfind
      rw [htake, if_pos (Nat.le_refl _), hbuf] at hearly
      have haccepted := (htest got hgot).mpr
        ⟨hutf8, hnames, by rw [contains, hearly]; rfl⟩
      have hcomplete := (hexact _ (hbuf ▸ hpre)).mp haccepted
      rw [(complete_chunked_iff m hframing hgot).mp hcomplete] at hbuf
      have hsame := congrArg List.length hbuf
      rw [htake] at hsame
      change i + lastChunk.length = m.stream.length at hsame
      rw [hfind, ← hsame, Nat.add_sub_cancel]
    · rw [htake] at hshort
      omega
  · rintro ⟨hutf8, hnames, hfind⟩ buf hbuf
    rcases buffer_cases hbuf with ⟨got, hgot, rfl⟩ | ⟨hnone, hshort⟩
    · have hfound := find_of_isPrefix (by decide) hbuf hfind
      have hle := head_length_le_of_find m hfind
      have hpos : 0 < lastChunk.length := by decide
      have hocc := ((find_eq_some_iff (by decide) _ _).mp hfind).1.length_le
      rw [List.length_drop] at hocc
      rw [htest got hgot, complete_chunked_iff m hframing hgot, and_iff_right hutf8,
        and_iff_right hnames, contains, hfound]
      have hstream : m.stream.length = m.head.length + m.body.length := List.length_append
      constructor
      · intro h
        refine hgot.eq_of_length_le ?_
        split at h
        · rename_i hfits
          rw [List.length_append] at hfits
          omega
        · cases h
      · rintro rfl
        rw [if_pos (by rw [← stream]; omega)]
        rfl
    · exact incomplete_of_short m hnone hshort

/-- A body that ends with the connection is never complete before. -/
theorem exact_close_iff
    (hframing : m.framing = .close) :
    m.Exact ↔
      ¬ (Utf8.isUtf8 m.headText = true ∧ m.NamesChunked ∧
        contains lastChunk m.stream = true) := by
  have hlength : valuesOf (ascii "content-length") m.fieldLines = [] := by
    have hdeclared := m.declared
    rw [hframing] at hdeclared
    exact hdeclared.1
  have hnever : ∀ got, ¬ m.Complete (m.head ++ got) := by
    intro got h
    rw [complete_iff, hframing] at h
    exact h
  constructor
  · intro hexact h
    exact hnever m.body ((hexact m.stream List.prefix_rfl).mp
      ((isResponseComplete_chunks hlength List.prefix_rfl).mpr h))
  · intro hnone buf hbuf
    rcases buffer_cases hbuf with ⟨got, hgot, rfl⟩ | ⟨hmissing, hshort⟩
    · refine iff_of_false (fun h => hnone ?_) (hnever got)
      obtain ⟨hutf8, hnames, hcontains⟩ := (isResponseComplete_chunks hlength hgot).mp h
      refine ⟨hutf8, hnames, ?_⟩
      have hpattern := contains_iff_infix (by decide) _ |>.mp hcontains
      exact contains_iff_infix (by decide) _ |>.mpr (hpattern.trans hbuf.isInfix)
    · exact incomplete_of_short m hmissing hshort

/-- The test for a complete response is right exactly under this condition. -/
theorem completeness_exact_iff :
    m.Exact ∧ m.NoWrap ↔ m.Readable := by
  unfold Readable
  cases hframing : m.framing with
  | length n => exact exact_length_iff m hframing
  | chunked =>
      rw [and_iff_left (noWrap_of_ne m fun n => by rw [hframing]; exact nofun)]
      exact exact_chunked_iff m hframing
  | close =>
      rw [and_iff_left (noWrap_of_ne m fun n => by rw [hframing]; exact nofun)]
      exact exact_close_iff m hframing

end ResponseStream

section Example

/-- A chunked response with a field whose value ends like a last chunk. -/
def expiresZero : ResponseStream where
  startLine := ascii "HTTP/1.1 200 OK"
  fieldLines := [ascii "Transfer-Encoding: chunked", ascii "Expires: 0"]
  framing := .chunked
  body := ascii "5" ++ crlf ++ ascii "hello" ++ crlf ++ ascii "0" ++ crlf ++ crlf
  start_http := by decide
  plain := by
    have hall : ∀ l ∈ [ascii "HTTP/1.1 200 OK", ascii "Transfer-Encoding: chunked",
        ascii "Expires: 0"], l ≠ [] ∧ 10 ∉ l ∧ 13 ∉ l := by
      decide
    exact fun l hl => ⟨(hall l hl).1, (hall l hl).2.1, (hall l hl).2.2⟩
  declared := ⟨by decide, ascii "chunked", by decide, by decide⟩
  framed := by
    unfold Framing.Frames
    decide

/-- Its head alone is taken for all of it. -/
theorem expiresZero_ends_early :
    isResponseComplete expiresZero.head = true ∧ ¬ expiresZero.Complete expiresZero.head ∧
      ¬ (expiresZero.Exact ∧ expiresZero.NoWrap) := by
  have htest : isResponseComplete expiresZero.head = true := by
    decide
  have hincomplete : ¬ expiresZero.Complete expiresZero.head := by
    have hiff := expiresZero.complete_chunked_iff rfl List.nil_prefix
    rw [List.append_nil] at hiff
    rw [hiff]
    decide
  refine ⟨htest, hincomplete, fun h => hincomplete ?_⟩
  exact (h.1 _ (List.prefix_append _ _)).mp htest

end Example

end Proxy
end RunNginx
