import Mathlib.Algebra.Ring.Nat
import RunNginx.Simd.Indexed

/-!
# The grammar of a request head

The request line, the header lines and the blank line as a grammar, with the limits.

`parseHeadAt_ok_iff`: the parser does not fault and accepts exactly the grammar.
-/

namespace RunNginx
namespace Simd

open ByteString Limits

/-- A line of the header section. -/
structure IsHeaderLine (line : Bytes) : Prop where
  nonempty : line ≠ []
  crlfFree : CrlfFree line
  colon : (58 : UInt8) ∈ line

/-- A line split at its first colon, with the blanks at both sides trimmed. -/
def splitLine (line : Bytes) : Header where
  name := trimBytes (line.takeWhile (· != 58))
  value := trimBytes ((line.dropWhile (· != 58)).drop 1)

/-- The length limits of a header. -/
structure Header.Within (h : Header) : Prop where
  name : h.name.length ≤ maxHeaderNameLen
  value : h.value.length ≤ maxHeaderValueLen

/-- Header lines within the limits, with what counts against them before. -/
structure Lines (count total : Nat) (lines : List Bytes) : Prop where
  line : ∀ line ∈ lines, IsHeaderLine line
  within : ∀ line ∈ lines, (splitLine line).Within
  count : count + lines.length ≤ maxHeaderCount
  total : total + (lines.map fun line => (splitLine line).cost).sum ≤ maxHeadersTotalBytes

/-- The first `n` bytes are a request line, header lines and a blank line. -/
structure IsHead (buf : Bytes) (rl : RequestLine) (hs : List Header) (n : Nat)
    (lines : List Bytes) (rest : Bytes) : Prop where
  bytes : buf = rl.text ++ crlf ++ (joinLines lines ++ crlf ++ rest)
  consumed : n = rl.text.length + 2 + ((joinLines lines).length + 2)
  method : 32 ∉ rl.method
  version : 32 ∉ rl.version
  oneLine : CrlfFree rl.text
  requestLine : rl.Within
  headers : hs = lines.map splitLine
  headerLines : Lines 0 0 lines
  buffer : (joinLines lines ++ crlf ++ rest).length ≤ maxHeaderBuffer

section HeaderLine

theorem parseHeaderLine_eq_ok_iff
    (line : Bytes) (h : Header) :
    parseHeaderLine line = .ok h ↔ (58 : UInt8) ∈ line ∧ h = splitLine line ∧ h.Within := by
  have hsplit : ∀ {u v : Bytes}, (58 : UInt8) ∉ u →
      splitLine (u ++ 58 :: v) = ⟨trimBytes u, trimBytes v⟩ := by
    intro u v hu
    have hall : ∀ b ∈ u, (b != 58) = true := fun b hb =>
      bne_iff_ne.mpr fun heq => hu (heq ▸ hb)
    unfold splitLine
    rw [List.takeWhile_append_of_pos hall, List.dropWhile_append_of_pos hall]
    simp
  constructor
  · intro hok
    obtain ⟨u, v, rfl, hu, hname, hvalue, hnlen, hvlen⟩ := parseHeaderLine_ok hok
    refine ⟨by simp, ?_, hnlen, hvlen⟩
    rw [hsplit hu, ← hname, ← hvalue]
  · rintro ⟨hcolon, rfl, hwithin⟩
    obtain ⟨u, v, rfl, hu⟩ := List.eq_append_cons_of_mem hcolon
    rw [hsplit hu] at hwithin ⊢
    exact parseHeaderLine_append hu hwithin.name hwithin.value

end HeaderLine

section HeaderLoop

theorem Lines.nil
    {count total : Nat}
    (hcount : count ≤ maxHeaderCount) (htotal : total ≤ maxHeadersTotalBytes) :
    Lines count total [] where
  line := nofun
  within := nofun
  count := hcount
  total := htotal

theorem lines_cons_iff
    (count total : Nat) (line : Bytes) (lines : List Bytes) :
    Lines count total (line :: lines) ↔
      IsHeaderLine line ∧ (splitLine line).Within ∧
        Lines (count + 1) (total + (splitLine line).cost) lines := by
  constructor
  · rintro ⟨hline, hwithin, hcount, htotal⟩
    rw [List.forall_mem_cons] at hline hwithin
    rw [List.map_cons, List.sum_cons] at htotal
    rw [List.length_cons] at hcount
    exact ⟨hline.1, hwithin.1, hline.2, hwithin.2, by omega, by omega⟩
  · rintro ⟨hline, hwithin, hlines, hwithins, hcount, htotal⟩
    refine ⟨List.forall_mem_cons.mpr ⟨hline, hlines⟩, List.forall_mem_cons.mpr ⟨hwithin, hwithins⟩,
      ?_, ?_⟩
    · rw [List.length_cons]
      omega
    · rw [List.map_cons, List.sum_cons]
      omega

/-- What the loop accepts, with the limits counted on from where it stands. -/
theorem parseHeaderLoop_eq_ok_iff
    {fuel : Nat} {buf : Bytes} {headers : List Header} {total : Nat} (pos : Nat)
    (hs : List Header) (n : Nat)
    (hfuel : buf.length < fuel) (hcount : headers.length ≤ maxHeaderCount)
    (htotal : total ≤ maxHeadersTotalBytes) :
    parseHeaderLoop fuel buf headers total pos = .ok (hs, n) ↔
      ∃ lines rest, buf = joinLines lines ++ crlf ++ rest ∧
        n = pos + ((joinLines lines).length + 2) ∧
        hs = headers ++ lines.map splitLine ∧ Lines headers.length total lines := by
  induction fuel generalizing buf headers total pos with
  | zero => exact absurd hfuel (Nat.not_lt_zero _)
  | succ fuel ih =>
      constructor
      · intro hok
        obtain ⟨_, hf, hturn⟩ := parseHeaderLoop_ok hok
        obtain rfl := Nat.succ.inj hf
        rcases hturn with ⟨rest, hbuf, rfl, rfl⟩ |
          ⟨line, h, rest, hbuf, hfree, hpre, hline, hsum, hroom, hgo⟩
        · exact ⟨[], rest, hbuf, rfl, by simp, Lines.nil hcount htotal⟩
        · obtain ⟨hcolon, rfl, hwithin⟩ := (parseHeaderLine_eq_ok_iff line h).mp hline
          have hshort : rest.length < fuel := by
            rw [hbuf] at hfuel
            simp only [List.length_append, crlf, List.length_cons, List.length_nil] at hfuel
            omega
          rw [ih _ hshort (by rw [List.length_append]; exact hroom) hsum] at hgo
          obtain ⟨lines, rest', hrest, hn, hhs, hlines⟩ := hgo
          refine ⟨line :: lines, rest', ?_, ?_, ?_, ?_⟩
          · rw [hbuf, hrest, joinLines_cons]
            simp only [List.append_assoc]
          · rw [hn, joinLines_cons]
            simp only [List.length_append, crlf, List.length_cons, List.length_nil]
            omega
          · rw [hhs, List.map_cons, List.append_assoc]
            rfl
          · rw [lines_cons_iff]
            refine ⟨⟨List.ne_nil_of_mem hcolon, hfree, hcolon⟩, hwithin, ?_⟩
            simpa using hlines
      · rintro ⟨lines, rest, hbuf, hn, hhs, hlines⟩
        cases lines with
        | nil =>
            rw [hbuf, joinLines_nil, List.nil_append, parseHeaderLoop_blank, hn, hhs]
            simp
        | cons line lines =>
            rw [lines_cons_iff] at hlines
            obtain ⟨hline, hwithin, hlines⟩ := hlines
            have hread : parseHeaderLine line = .ok (splitLine line) :=
              (parseHeaderLine_eq_ok_iff line _).mpr ⟨hline.colon, rfl, hwithin⟩
            have hsum := hlines.total
            have hroom := hlines.count
            have htext : buf = line ++ crlf ++ (joinLines lines ++ crlf ++ rest) := by
              rw [hbuf, joinLines_cons]
              simp only [List.append_assoc]
            have hshort : (joinLines lines ++ crlf ++ rest).length < fuel := by
              have hcrlf : crlf.length = 2 := rfl
              rw [htext, List.length_append, List.length_append] at hfuel
              omega
            rw [htext, parseHeaderLoop_line headers total hline.nonempty hline.crlfFree hread
              (by omega) (by omega), ih _ hshort (by simp; omega) (by omega)]
            refine ⟨lines, rest, rfl, ?_, ?_, ?_⟩
            · rw [hn, joinLines_cons]
              simp only [List.length_append, crlf, List.length_cons, List.length_nil]
              omega
            · rw [hhs, List.map_cons, List.append_assoc]
              rfl
            · simpa using hlines

theorem parseHeaders_eq_ok_iff
    (buf : Bytes) (hs : List Header) (n : Nat) :
    parseHeaders buf = .ok (hs, n) ↔
      buf.length ≤ maxHeaderBuffer ∧
        ∃ lines rest, buf = joinLines lines ++ crlf ++ rest ∧
          n = (joinLines lines).length + 2 ∧ hs = lines.map splitLine ∧ Lines 0 0 lines := by
  unfold parseHeaders
  split
  · rename_i hlong
    exact ⟨nofun, fun h => absurd h.1 (Nat.not_le.mpr hlong)⟩
  · rename_i hshort
    rw [parseHeaderLoop_eq_ok_iff 0 hs n (Nat.lt_succ_self _) (Nat.zero_le _) (Nat.zero_le _)]
    simp only [Nat.zero_add, List.nil_append, List.length_nil, Nat.le_of_not_lt hshort,
      true_and]

end HeaderLoop

/--
The parser never faults.  It reads `rl` and `hs` off the first `n` bytes if and only if
these are a request line, header lines that split into `hs` and a blank line, within the
limits.
-/
theorem parseHeadAt_ok_iff
    (level : SimdLevel) (buf : Bytes) (rl : RequestLine) (hs : List Header) (n : Nat) :
    parseHeadAt level buf ≠ none ∧
      (parseHeadAt level buf = some (.ok (rl, hs, n)) ↔
        ∃ lines rest, IsHead buf rl hs n lines rest) := by
  rw [parseHeadAt_eq]
  refine ⟨nofun, ?_⟩
  rw [Option.some_inj]
  constructor
  · intro hok
    unfold parseHead at hok
    cases hline : parseRequestLine buf with
    | error e =>
        rw [hline] at hok
        cases hok
    | ok read =>
        obtain ⟨rl', rlLen⟩ := read
        rw [hline] at hok
        dsimp only at hok
        cases hheaders : parseHeaders (buf.drop rlLen) with
        | error e =>
            rw [hheaders] at hok
            cases hok
        | ok section_ =>
            obtain ⟨hs', hsLen⟩ := section_
            rw [hheaders] at hok
            simp only [Except.map, Except.ok.injEq, Prod.mk.injEq] at hok
            obtain ⟨rfl, rfl, rfl⟩ := hok
            obtain ⟨⟨tail, hbuf⟩, hfree, hmethod, hversion, hwithin, hlen⟩ :=
              (parseRequestLine_eq_ok_iff buf rl' rlLen).mp hline
            obtain ⟨hbuffer, lines, rest, hdrop, rfl, rfl, hlines⟩ :=
              (parseHeaders_eq_ok_iff _ hs' hsLen).mp hheaders
            have htail : buf.drop rlLen = tail := by
              rw [hbuf, hlen, ← List.drop_drop]
              simp [crlf]
            refine ⟨lines, rest, ?_, by rw [hlen], hmethod, hversion, hfree, hwithin, rfl, hlines,
              ?_⟩
            · rw [← hdrop, htail]
              exact hbuf
            · rw [← hdrop]
              exact hbuffer
  · rintro ⟨lines, rest, h⟩
    have hline : parseRequestLine buf = .ok (rl, rl.text.length + 2) :=
      (parseRequestLine_eq_ok_iff buf rl _).mpr
        ⟨⟨_, h.bytes⟩, h.oneLine, h.method, h.version, h.requestLine, rfl⟩
    have hdrop : buf.drop (rl.text.length + 2) = joinLines lines ++ crlf ++ rest := by
      rw [h.bytes, List.append_assoc rl.text, ← List.drop_drop]
      simp [crlf]
    have hheaders : parseHeaders (buf.drop (rl.text.length + 2)) =
        .ok (hs, (joinLines lines).length + 2) := by
      rw [hdrop, parseHeaders_eq_ok_iff]
      exact ⟨h.buffer, lines, rest, rfl, rfl, h.headers, h.headerLines⟩
    unfold parseHead
    rw [hline]
    dsimp only
    rw [hheaders, h.consumed]
    rfl

end Simd
end RunNginx
