import RunNginx.Lib.Slice
import RunNginx.Simd.Scan

/-!
# The parser by positions

The source walks the buffer by positions, and a slice outside of it faults.  Here every
slice and every scan of the parser stands as in the source, with `none` for a fault.

`parseHeadAt_eq`: no request faults, on no processor, and the result is that of the parser
that takes and drops.
-/

namespace RunNginx
namespace Simd

open ByteString Limits Slice

section Indexed

variable (level : SimdLevel)

def parseRequestLineAt (buf : Bytes) : Option (Except Bytes (RequestLine × Nat)) :=
  (findCrlfAt level buf).bind fun found =>
    match found with
    | none => some (.error (ascii "request line incomplete"))
    | some crlfPos =>
        (sliceTo buf crlfPos).bind fun line =>
          if maxRequestLine < line.length then some (.error (ascii "request line too long"))
          else match find [32] line with
          | none => some (.error (ascii "malformed request line"))
          | some sp1 =>
              (sliceTo line sp1).bind fun method =>
                if maxMethodLen < method.length then some (.error (ascii "method too long"))
                else (sliceFrom line (sp1 + 1)).bind fun rest =>
                  match rfindByte 32 rest with
                  | none => some (.error (ascii "malformed request line"))
                  | some sp2 =>
                      (sliceTo rest sp2).bind fun uri =>
                        if maxUriLen < uri.length then some (.error (ascii "URI too long"))
                        else (sliceFrom rest (sp2 + 1)).bind fun version =>
                          if maxVersionLen < version.length then
                            some (.error (ascii "version string too long"))
                          else some (.ok (⟨method, uri, version⟩, crlfPos + 2))

def trimBytesAt (b : Bytes) : Option Bytes :=
  let start := (b.findIdx? fun c => !isBlank c).getD b.length
  let stop := ((rposition (fun c => !isBlank c) b).map (· + 1)).getD 0
  if stop ≤ start then slice b 0 0 else slice b start stop

def parseHeaderLineAt (line : Bytes) : Option (Except Bytes Header) :=
  match find [58] line with
  | none => some (.error (ascii "malformed header line"))
  | some colon =>
      ((sliceTo line colon).bind trimBytesAt).bind fun name =>
        if maxHeaderNameLen < name.length then some (.error (ascii "header name too long"))
        else
          let rawValue :=
            if colon + 1 < line.length then sliceFrom line (colon + 1) else some []
          (rawValue.bind trimBytesAt).bind fun value =>
            if maxHeaderValueLen < value.length then
              some (.error (ascii "header value too long"))
            else some (.ok ⟨name, value⟩)

/-- The header loop at `pos`, with fuel. -/
def parseHeaderLoopAt (buf : Bytes) :
    Nat → List Header → Nat → Nat → Option (Except Bytes (List Header × Nat))
  | 0, _, _, _ => none
  | fuel + 1, headers, totalBytes, pos =>
      if slice buf pos (pos + 2) = some crlf then some (.ok (headers, pos + 2))
      else if buf.length ≤ pos then some (.error (ascii "headers incomplete"))
      else (sliceFrom buf pos).bind fun rest =>
        (findCrlfAt level rest).bind fun found =>
          match found with
          | none => some (.error (ascii "header line incomplete"))
          | some n =>
              (slice buf pos (pos + n)).bind fun line =>
                (parseHeaderLineAt line).bind fun read =>
                  match read with
                  | .error e => some (.error e)
                  | .ok h =>
                      let totalBytes := totalBytes + (h.name.length + 2 + h.value.length + 2)
                      if maxHeadersTotalBytes < totalBytes then
                        some (.error (ascii "headers too large"))
                      else if maxHeaderCount ≤ headers.length then
                        some (.error (ascii "too many headers"))
                      else
                        parseHeaderLoopAt buf fuel (headers ++ [h]) totalBytes (pos + n + 2)

def parseHeadersAt (buf : Bytes) : Option (Except Bytes (List Header × Nat)) :=
  if maxHeaderBuffer < buf.length then some (.error (ascii "header buffer overflow"))
  else parseHeaderLoopAt level buf (buf.length + 1) [] 0 0

/-- The request line, and the headers behind it; on success also the bytes consumed. -/
def parseHeadAt (buf : Bytes) : Option (Except Bytes (RequestLine × List Header × Nat)) :=
  (parseRequestLineAt level buf).bind fun read =>
    match read with
    | .error e => some (.error e)
    | .ok (rl, rlLen) =>
        (sliceFrom buf rlLen).bind fun rest =>
          (parseHeadersAt level rest).map (Except.map fun r => (rl, r.1, rlLen + r.2))

end Indexed

/-- The request line, and the headers behind it, with `take` and `drop`. -/
def parseHead (buf : Bytes) : Except Bytes (RequestLine × List Header × Nat) :=
  match parseRequestLine buf with
  | .error e => .error e
  | .ok (rl, rlLen) =>
      (parseHeaders (buf.drop rlLen)).map fun r => (rl, r.1, rlLen + r.2)

section InBounds

variable (level : SimdLevel) (buf : Bytes)

/-- A found CRLF lies in the buffer. -/
theorem findCrlf_le
    {buf : Bytes} {i : Nat} (h : findCrlf buf = some i) :
    i + 2 ≤ buf.length := by
  have hlen := congrArg List.length (find_split crlf_ne_nil h).1
  have hle := (find_split crlf_ne_nil h).2
  rw [List.length_append, List.length_append, List.length_take, Nat.min_eq_left hle] at hlen
  simp only [crlf, List.length_cons, List.length_nil] at hlen
  omega

/-- A found byte lies in the line. -/
theorem find_byte_lt
    {c : UInt8} {s : Bytes} {i : Nat} (h : find [c] s = some i) :
    i < s.length := by
  have hlen := congrArg List.length (find_byte_split h).1
  have hle := (find_byte_split h).2.1
  rw [List.length_append, List.length_take, Nat.min_eq_left hle, List.length_cons] at hlen
  omega

theorem rfindByte_lt
    {c : UInt8} {s : Bytes} {i : Nat} (h : rfindByte c s = some i) :
    i < s.length := by
  have hlen := congrArg List.length (rfindByte_split h).1
  have hle := (rfindByte_split h).2.1
  rw [List.length_append, List.length_take, Nat.min_eq_left hle, List.length_cons] at hlen
  omega

theorem parseRequestLineAt_eq :
    parseRequestLineAt level buf = some (parseRequestLine buf) := by
  unfold parseRequestLineAt parseRequestLine
  rw [findCrlfAt_eq, Option.bind_some]
  cases hc : findCrlf buf with
  | none => rfl
  | some crlfPos =>
      have hcrlf := findCrlf_le hc
      dsimp only
      rw [sliceTo_eq (by omega), Option.bind_some]
      split
      · rfl
      cases h1 : find [32] (buf.take crlfPos) with
      | none => rfl
      | some sp1 =>
          have hsp1 := find_byte_lt h1
          dsimp only
          rw [sliceTo_eq hsp1.le, Option.bind_some]
          split
          · rfl
          rw [sliceFrom_eq hsp1, Option.bind_some]
          cases h2 : rfindByte 32 ((buf.take crlfPos).drop (sp1 + 1)) with
          | none => rfl
          | some sp2 =>
              have hsp2 := rfindByte_lt h2
              dsimp only
              rw [sliceTo_eq hsp2.le, Option.bind_some]
              split
              · rfl
              rw [sliceFrom_eq hsp2, Option.bind_some]
              split <;> rfl

theorem trimBytesAt_eq
    (b : Bytes) :
    trimBytesAt b = some (trimBytes b) :=
  slice_trim isBlank b

theorem parseHeaderLineAt_eq
    (line : Bytes) :
    parseHeaderLineAt line = some (parseHeaderLine line) := by
  unfold parseHeaderLineAt parseHeaderLine
  cases hc : find [58] line with
  | none => rfl
  | some colon =>
      have hcolon := find_byte_lt hc
      -- behind the last byte the source has the empty value ready
      have hraw : (if colon + 1 < line.length then sliceFrom line (colon + 1) else some []) =
          some (line.drop (colon + 1)) := by
        split
        · rename_i hlt
          exact sliceFrom_eq hlt.le
        · rename_i hge
          rw [List.drop_eq_nil_of_le (Nat.le_of_not_lt hge)]
      dsimp only
      rw [sliceTo_eq hcolon.le, Option.bind_some, trimBytesAt_eq, Option.bind_some, hraw,
        Option.bind_some, trimBytesAt_eq, Option.bind_some]
      split
      · rfl
      · split <;> rfl

theorem slice_crlf_iff
    (pos : Nat) :
    slice buf pos (pos + 2) = some crlf ↔ crlf.isPrefixOf (buf.drop pos) = true := by
  rw [List.isPrefixOf_iff_prefix, List.prefix_iff_eq_take]
  by_cases hin : pos + 2 ≤ buf.length
  · rw [slice_add_eq hin, Option.some_inj, eq_comm]
    rfl
  · constructor
    · intro h
      rw [slice, if_neg fun hb => hin hb.2] at h
      cases h
    · intro h
      have hlen := congrArg List.length h
      rw [List.length_take, List.length_drop] at hlen
      simp only [crlf, List.length_cons, List.length_nil] at hlen
      omega

/-- From a position in the buffer on, the loop stays in it. -/
theorem parseHeaderLoopAt_eq
    {fuel : Nat} (headers : List Header) (total : Nat) {pos : Nat}
    (hpos : pos ≤ buf.length) (hfuel : buf.length < pos + fuel) :
    parseHeaderLoopAt level buf fuel headers total pos =
      some (parseHeaderLoop fuel (buf.drop pos) headers total pos) := by
  induction fuel generalizing headers total pos with
  | zero => exact absurd hpos (Nat.not_le.mpr hfuel)
  | succ fuel ih =>
      rw [parseHeaderLoopAt, parseHeaderLoop]
      by_cases hend : crlf.isPrefixOf (buf.drop pos) = true
      · rw [if_pos ((slice_crlf_iff buf pos).mpr hend), if_pos hend]
      rw [if_neg fun h => hend ((slice_crlf_iff buf pos).mp h), if_neg hend]
      by_cases hempty : buf.length ≤ pos
      · rw [if_pos hempty, if_pos (by rw [List.drop_eq_nil_of_le hempty]; rfl)]
      have hmore : ¬ (buf.drop pos).isEmpty = true := by
        rw [List.isEmpty_iff, List.drop_eq_nil_iff]
        exact hempty
      rw [if_neg hempty, if_neg hmore, sliceFrom_eq hpos, Option.bind_some, findCrlfAt_eq,
        Option.bind_some]
      cases hc : findCrlf (buf.drop pos) with
      | none => rfl
      | some n =>
          have hn := findCrlf_le hc
          rw [List.length_drop] at hn
          dsimp only
          rw [slice_add_eq (by omega), Option.bind_some, parseHeaderLineAt_eq, Option.bind_some]
          cases parseHeaderLine ((buf.drop pos).take n) with
          | error e => rfl
          | ok h =>
              dsimp only
              split
              · rfl
              split
              · rfl
              rw [ih (headers ++ [h]) _ (by omega) (by omega), List.drop_drop, Nat.add_assoc]

theorem parseHeadersAt_eq :
    parseHeadersAt level buf = some (parseHeaders buf) := by
  unfold parseHeadersAt parseHeaders
  split
  · rfl
  · exact parseHeaderLoopAt_eq level buf [] 0 (Nat.zero_le _) (by omega)

/-- No request faults. -/
theorem parseHeadAt_eq :
    parseHeadAt level buf = some (parseHead buf) := by
  unfold parseHeadAt parseHead
  rw [parseRequestLineAt_eq, Option.bind_some]
  cases hread : parseRequestLine buf with
  | error e => rfl
  | ok read =>
      have hlen : read.2 ≤ buf.length := by
        obtain ⟨⟨rest, hrest⟩, -, -, -, -, hn⟩ :=
          (parseRequestLine_eq_ok_iff buf read.1 read.2).mp hread
        rw [hrest, hn, List.length_append, List.length_append]
        exact Nat.le_add_right _ _
      dsimp only
      rw [sliceFrom_eq hlen, Option.bind_some, parseHeadersAt_eq]
      rfl

end InBounds

end Simd
end RunNginx
