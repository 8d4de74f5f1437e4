import RunNginx.Lib.Utf8
import RunNginx.Http.Limits

/-!
# Request line and header parser

The HTTP/1.1 request line and header parser and the URI check.  `findCrlf` is
the scalar scanner.

The parser is described by one inversion lemma for each function
(`parseRequestLine_ok`, `parseHeaderLoop_ok`) and one step lemma for each way
forward, so that later modules never unfold it.
-/

namespace RunNginx
namespace Simd

open ByteString Limits

/-- Parsed HTTP/1.1 request line. -/
structure RequestLine where
  method : Bytes
  uri : Bytes
  version : Bytes
deriving DecidableEq, Repr

/-- A single parsed header. -/
structure Header where
  name : Bytes
  value : Bytes
deriving DecidableEq, Repr

/-- Index of the first CRLF. -/
def findCrlf (buf : Bytes) : Option Nat :=
  find crlf buf

/-- Parse the request line; on success also the bytes consumed. -/
def parseRequestLine (buf : Bytes) : Except Bytes (RequestLine × Nat) :=
  match findCrlf buf with
  | none => .error (ascii "request line incomplete")
  | some crlfPos =>
      let line := buf.take crlfPos
      if maxRequestLine < line.length then .error (ascii "request line too long")
      else match find [32] line with
      | none => .error (ascii "malformed request line")
      | some sp1 =>
          let method := line.take sp1
          if maxMethodLen < method.length then .error (ascii "method too long")
          else
            let rest := line.drop (sp1 + 1)
            match rfindByte 32 rest with
            | none => .error (ascii "malformed request line")
            | some sp2 =>
                let uri := rest.take sp2
                if maxUriLen < uri.length then .error (ascii "URI too long")
                else
                  let version := rest.drop (sp2 + 1)
                  if maxVersionLen < version.length then
                    .error (ascii "version string too long")
                  else .ok (⟨method, uri, version⟩, crlfPos + 2)

/-- Space and tab. -/
def isBlank (b : UInt8) : Bool :=
  b == 32 || b == 9

/-- Strip spaces and tabs at both ends. -/
def trimBytes (b : Bytes) : Bytes :=
  trimBy isBlank b

/-- One header line, cut at its first colon. -/
def parseHeaderLine (line : Bytes) : Except Bytes Header :=
  match find [58] line with
  | none => .error (ascii "malformed header line")
  | some colon =>
      let name := trimBytes (line.take colon)
      if maxHeaderNameLen < name.length then .error (ascii "header name too long")
      else
        let value := trimBytes (line.drop (colon + 1))
        if maxHeaderValueLen < value.length then .error (ascii "header value too long")
        else .ok ⟨name, value⟩

/--
The header loop.  `rest` is the buffer from the cursor `pos` on; every turn that
continues consumes a line and its CRLF, so the buffer length is fuel enough.
-/
def parseHeaderLoop :
    Nat → Bytes → List Header → Nat → Nat → Except Bytes (List Header × Nat)
  | 0, _, _, _, _ => .error (ascii "headers incomplete")
  | fuel + 1, rest, headers, totalBytes, pos =>
      if crlf.isPrefixOf rest then .ok (headers, pos + 2)
      else if rest.isEmpty then .error (ascii "headers incomplete")
      else match findCrlf rest with
      | none => .error (ascii "header line incomplete")
      | some n =>
          match parseHeaderLine (rest.take n) with
          | .error e => .error e
          | .ok h =>
              let totalBytes := totalBytes + (h.name.length + 2 + h.value.length + 2)
              if maxHeadersTotalBytes < totalBytes then .error (ascii "headers too large")
              else if maxHeaderCount ≤ headers.length then .error (ascii "too many headers")
              else
                parseHeaderLoop fuel (rest.drop (n + 2)) (headers ++ [h]) totalBytes
                  (pos + n + 2)

/-- Parse the header section; on success also the bytes consumed. -/
def parseHeaders (buf : Bytes) : Except Bytes (List Header × Nat) :=
  if maxHeaderBuffer < buf.length then .error (ascii "header buffer overflow")
  else parseHeaderLoop (buf.length + 1) buf [] 0 0

/-- Is the URI valid UTF-8 without a forbidden sequence? -/
def isUriSafe (uri : Bytes) : Bool :=
  Utf8.isUtf8 uri && forbiddenUriSequences.all fun seq => !contains seq uri

theorem forbidden_ne_nil :
    ∀ seq ∈ forbiddenUriSequences, seq ≠ [] := by
  decide

theorem isUriSafe_iff
    {uri : Bytes} :
    isUriSafe uri = true ↔
      Utf8.isUtf8 uri = true ∧ ∀ seq ∈ forbiddenUriSequences, ¬ seq <:+: uri := by
  unfold isUriSafe
  rw [Bool.and_eq_true, List.all_eq_true]
  refine and_congr_right fun _ => forall₂_congr fun seq hseq => ?_
  rw [← contains_iff_infix (forbidden_ne_nil seq hseq), Bool.not_eq_true', Bool.not_eq_true]

/-- The request line as it stands on the wire, without its CRLF. -/
def RequestLine.text (rl : RequestLine) : Bytes :=
  rl.method ++ 32 :: (rl.uri ++ 32 :: rl.version)

/-- The length limits of a request line. -/
def RequestLine.Within (rl : RequestLine) : Prop :=
  rl.text.length ≤ maxRequestLine ∧
    rl.method.length ≤ maxMethodLen ∧
    rl.uri.length ≤ maxUriLen ∧
    rl.version.length ≤ maxVersionLen

/--
The request-line parser accepts exactly `method SP uri SP version CRLF`, cut at
the first space and at the last one, within the limits.
-/
theorem parseRequestLine_eq_ok_iff
    (buf : Bytes) (rl : RequestLine) (n : Nat) :
    parseRequestLine buf = .ok (rl, n) ↔
      (∃ rest, buf = rl.text ++ crlf ++ rest) ∧
        CrlfFree rl.text ∧ 32 ∉ rl.method ∧ 32 ∉ rl.version ∧
        rl.Within ∧ n = rl.text.length + 2 := by
  constructor
  · intro h
    unfold parseRequestLine at h
    cases hc : findCrlf buf with
    | none => simp [hc] at h
    | some crlfPos =>
        simp only [hc] at h
        split at h
        · cases h
        rename_i hline
        cases h1 : find [32] (buf.take crlfPos) with
        | none => simp [h1] at h
        | some sp1 =>
            simp only [h1] at h
            split at h
            · cases h
            rename_i hmethod
            cases h2 : rfindByte 32 ((buf.take crlfPos).drop (sp1 + 1)) with
            | none => simp [h2] at h
            | some sp2 =>
                simp only [h2] at h
                split at h
                · cases h
                rename_i huri
                split at h
                · cases h
                rename_i hversion
                simp only [Except.ok.injEq, Prod.mk.injEq] at h
                obtain ⟨hrl, hn⟩ := h
                obtain ⟨hs1, _, hfree1⟩ := find_byte_split h1
                obtain ⟨hs2, _, hfree2⟩ := rfindByte_split h2
                have htext : rl.text = buf.take crlfPos := by
                  rw [← hrl]
                  simp only [RequestLine.text]
                  rw [← hs2, ← hs1]
                obtain ⟨hsplit, hle⟩ := find_split crlf_ne_nil hc
                have hlen : rl.text.length = crlfPos := by
                  rw [htext, List.length_take]
                  omega
                refine ⟨⟨buf.drop (crlfPos + 2), ?_⟩, ?_, ?_, ?_, ?_, ?_⟩
                · rw [htext]
                  exact hsplit
                · rw [htext]
                  exact crlfFree_take hc
                · rw [← hrl]
                  exact hfree1
                · rw [← hrl]
                  exact hfree2
                · rw [← htext] at hline
                  rw [← hrl] at hline ⊢
                  exact ⟨by omega, Nat.le_of_not_lt hmethod, Nat.le_of_not_lt huri,
                    by simpa using hversion⟩
                · omega
  · rintro ⟨⟨rest, rfl⟩, hfree, hm, hv, ⟨hlt, hlm, hlu, hlv⟩, rfl⟩
    have hc : findCrlf (rl.text ++ crlf ++ rest) = some rl.text.length :=
      find_crlf_append hfree rest
    have htake : (rl.text ++ crlf ++ rest).take rl.text.length = rl.text := by
      simp
    have h1 : find [32] rl.text = some rl.method.length :=
      find_byte_append hm _
    have hrest : rl.text.drop (rl.method.length + 1) = rl.uri ++ 32 :: rl.version := by
      simp [RequestLine.text, List.drop_append]
    have h2 : rfindByte 32 (rl.uri ++ 32 :: rl.version) = some rl.uri.length :=
      rfindByte_append hv _
    have htm : rl.text.take rl.method.length = rl.method := by
      simp [RequestLine.text]
    have htu : (rl.uri ++ 32 :: rl.version).take rl.uri.length = rl.uri := by
      simp
    have htv : (rl.uri ++ 32 :: rl.version).drop (rl.uri.length + 1) = rl.version := by
      simp [List.drop_append]
    unfold parseRequestLine
    simp only [hc, htake, h1, hrest, h2, htm, htu, htv]
    simp [Nat.not_lt.mpr hlt, Nat.not_lt.mpr hlm, Nat.not_lt.mpr hlu, Nat.not_lt.mpr hlv]

/-- What a header line has to satisfy to be read as `h`. -/
theorem parseHeaderLine_ok
    {line : Bytes} {h : Header}
    (hok : parseHeaderLine line = .ok h) :
    ∃ u v, line = u ++ 58 :: v ∧ (58 : UInt8) ∉ u ∧
      h.name = trimBytes u ∧ h.value = trimBytes v ∧
      h.name.length ≤ maxHeaderNameLen ∧ h.value.length ≤ maxHeaderValueLen := by
  unfold parseHeaderLine at hok
  cases hc : find [58] line with
  | none => simp [hc] at hok
  | some colon =>
      simp only [hc] at hok
      split at hok
      · cases hok
      split at hok
      · cases hok
      rename_i hname hvalue
      simp only [Except.ok.injEq] at hok
      obtain ⟨hsplit, _, hfree⟩ := find_byte_split hc
      rw [← hok]
      exact ⟨_, _, hsplit, hfree, rfl, rfl, by simpa using hname, by simpa using hvalue⟩

/-- A line is read at its first colon. -/
theorem parseHeaderLine_append
    {u v : Bytes}
    (hu : (58 : UInt8) ∉ u)
    (hname : (trimBytes u).length ≤ maxHeaderNameLen)
    (hvalue : (trimBytes v).length ≤ maxHeaderValueLen) :
    parseHeaderLine (u ++ 58 :: v) = .ok ⟨trimBytes u, trimBytes v⟩ := by
  have hc : find [58] (u ++ 58 :: v) = some u.length :=
    find_byte_append hu v
  have htake : (u ++ 58 :: v).take u.length = u := by
    simp
  have hdrop : (u ++ 58 :: v).drop (u.length + 1) = v := by
    simp [List.drop_append]
  unfold parseHeaderLine
  simp only [hc, htake, hdrop]
  simp [Nat.not_lt.mpr hname, Nat.not_lt.mpr hvalue]

/-- A line that is not empty does not start with the blank line. -/
theorem not_crlf_prefix
    {line : Bytes}
    (hne : line ≠ []) (hfree : CrlfFree line) (rest : Bytes) :
    ¬ crlf <+: line ++ crlf ++ rest := by
  rintro ⟨t, ht⟩
  have h0 := find_crlf_append hfree rest
  have h0' : find crlf (line ++ crlf ++ rest) = some 0 := by
    rw [find_eq_some_iff crlf_ne_nil]
    exact ⟨by rw [← ht]; simp, by simp⟩
  rw [h0'] at h0
  exact hne (List.eq_nil_of_length_eq_zero (Option.some.inj h0).symm)

/-- Bytes a header line adds to the running total. -/
def Header.cost (h : Header) : Nat :=
  h.name.length + 2 + h.value.length + 2

/-- The loop stops at a blank line. -/
theorem parseHeaderLoop_blank
    (fuel : Nat) (rest : Bytes)
    (headers : List Header) (total pos : Nat) :
    parseHeaderLoop (fuel + 1) (crlf ++ rest) headers total pos =
      .ok (headers, pos + 2) := by
  simp [parseHeaderLoop, List.isPrefixOf_iff_prefix]

/-- The loop reads one line and goes on behind it. -/
theorem parseHeaderLoop_line
    {line : Bytes} {h : Header}
    (headers : List Header) (total : Nat)
    (hne : line ≠ []) (hfree : CrlfFree line)
    (hline : parseHeaderLine line = .ok h)
    (htotal : total + h.cost ≤ maxHeadersTotalBytes)
    (hcount : headers.length < maxHeaderCount)
    (fuel : Nat) (rest : Bytes) (pos : Nat) :
    parseHeaderLoop (fuel + 1) (line ++ crlf ++ rest) headers total pos =
      parseHeaderLoop fuel rest (headers ++ [h]) (total + h.cost)
        (pos + line.length + 2) := by
  have hpre : crlf.isPrefixOf (line ++ crlf ++ rest) = false := by
    simpa only [← List.isPrefixOf_iff_prefix, Bool.not_eq_true] using
      not_crlf_prefix hne hfree rest
  have hemp : (line ++ crlf ++ rest).isEmpty = false := by
    simp [crlf]
  have hfind : findCrlf (line ++ crlf ++ rest) = some line.length :=
    find_crlf_append hfree rest
  have htake : (line ++ crlf ++ rest).take line.length = line := by
    simp
  have hdrop : (line ++ crlf ++ rest).drop (line.length + 2) = rest := by
    rw [List.append_assoc, ← List.drop_drop]
    simp [crlf]
  rw [parseHeaderLoop]
  simp only [hpre, hemp, hfind, htake, hline, hdrop, Bool.false_eq_true, if_false]
  rw [Header.cost] at htotal ⊢
  rw [if_neg (by omega), if_neg (by omega)]

/-- What a successful turn of the loop saw. -/
theorem parseHeaderLoop_ok
    {fuel : Nat} {buf : Bytes} {headers hs : List Header} {total pos n : Nat}
    (hok : parseHeaderLoop fuel buf headers total pos = .ok (hs, n)) :
    ∃ fuel', fuel = fuel' + 1 ∧
      ((∃ rest, buf = crlf ++ rest ∧ hs = headers ∧ n = pos + 2) ∨
        ∃ line h rest,
          buf = line ++ crlf ++ rest ∧ CrlfFree line ∧ ¬ crlf <+: buf ∧
          parseHeaderLine line = .ok h ∧
          total + h.cost ≤ maxHeadersTotalBytes ∧
          headers.length < maxHeaderCount ∧
          parseHeaderLoop fuel' rest (headers ++ [h]) (total + h.cost)
            (pos + line.length + 2) = .ok (hs, n)) := by
  cases fuel with
  | zero => simp [parseHeaderLoop] at hok
  | succ fuel =>
      refine ⟨fuel, rfl, ?_⟩
      rw [parseHeaderLoop] at hok
      split at hok
      · rename_i hpre
        obtain ⟨rest, hrest⟩ := List.isPrefixOf_iff_prefix.mp hpre
        simp only [Except.ok.injEq, Prod.mk.injEq] at hok
        exact Or.inl ⟨rest, hrest.symm, hok.1.symm, hok.2.symm⟩
      rename_i hpre
      split at hok
      · cases hok
      cases hc : findCrlf buf with
      | none => simp [hc] at hok
      | some i =>
          simp only [hc] at hok
          cases hl : parseHeaderLine (buf.take i) with
          | error e => simp [hl] at hok
          | ok h =>
              simp only [hl] at hok
              split at hok
              · cases hok
              split at hok
              · cases hok
              rename_i htotal hcount
              obtain ⟨hsplit, hle⟩ := find_split crlf_ne_nil hc
              have hlen : (buf.take i).length = i := by
                rw [List.length_take]
                omega
              refine Or.inr ⟨buf.take i, h, buf.drop (i + 2), hsplit, crlfFree_take hc,
                ?_, hl, ?_, ?_, ?_⟩
              · simpa [← List.isPrefixOf_iff_prefix] using hpre
              · rw [Header.cost]
                omega
              · omega
              · rw [hlen]
                exact hok

end Simd
end RunNginx
