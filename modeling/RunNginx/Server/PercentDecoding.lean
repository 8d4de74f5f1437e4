import RunNginx.Lib.PercentCode
import RunNginx.Server.StaticFiles

/-!
# The two percent-decoders

The decoder of the parser collects bytes; an escape without digits is passed through.  The
decoder of the static files collects characters, one for each byte, so that it agrees with
the other one on ASCII text only.

`decoders_invert_iff`: both undo percent-encoding exactly on ASCII text.
-/

namespace RunNginx
namespace Simd

open ByteString

def hexNibble (b : UInt8) : Option UInt8 :=
  IpAddr.hexVal b

/-- Decode `%XX`; what is not an escape stays as it is. -/
def percentDecode : Bytes → Bytes
  | 37 :: hi :: lo :: s =>
      match hexNibble hi, hexNibble lo with
      | some h, some l => ((h <<< 4) ||| l) :: percentDecode s
      | _, _ => 37 :: percentDecode (hi :: lo :: s)
  | b :: s => b :: percentDecode s
  | [] => []

end Simd

namespace StaticFiles

open ByteString PercentCode

section Pieces

variable {s out : Bytes} {pieces : List Piece}

/-- No escape means a NUL. -/
def NoEscapedNul (pieces : List Piece) : Prop :=
  ∀ hi lo, .escape hi lo ∈ pieces → escapeValue hi lo ≠ 0

theorem escapeValue_eq
    {hi lo h l : UInt8} (hhi : IpAddr.hexVal hi = some h) (hlo : IpAddr.hexVal lo = some l) :
    escapeValue hi lo = (h <<< 4) ||| l := by
  rw [escapeValue, hhi, hlo]
  rfl

theorem percentDecode_escape
    {hi lo : UInt8} (hhi : IsHex hi) (hlo : IsHex lo) (s : Bytes) :
    percentDecode (37 :: hi :: lo :: s) =
      if escapeValue hi lo = 0 then none
      else (percentDecode s).map fun out => Utf8.latin1 (escapeValue hi lo) ++ out := by
  obtain ⟨h, hh⟩ := Option.isSome_iff_exists.mp hhi
  obtain ⟨l, hl⟩ := Option.isSome_iff_exists.mp hlo
  rw [escapeValue_eq hh hl, percentDecode, hh, hl]

theorem percentDecode_bad_escape
    {hi lo : UInt8} (h : ¬ (IsHex hi ∧ IsHex lo)) (s : Bytes) :
    percentDecode (37 :: hi :: lo :: s) = none := by
  rw [percentDecode]
  split
  · rename_i h' l hh hl
    have hhi : IsHex hi := Option.isSome_iff_exists.mpr ⟨h', hh⟩
    have hlo : IsHex lo := Option.isSome_iff_exists.mpr ⟨l, hl⟩
    exact absurd ⟨hhi, hlo⟩ h
  · rfl

theorem percentDecode_literal
    {b : UInt8} {s : Bytes} (h : ∀ hi lo rest, b = 37 → s ≠ hi :: lo :: rest) :
    percentDecode (b :: s) = (percentDecode s).map fun out => Utf8.latin1 b ++ out := by
  rw [percentDecode]
  exact fun hi lo rest hb hs => h hi lo rest hb hs

/-- The text of a decoded path is that of its pieces, one character for each. -/
theorem percentDecode_of_lexed
    (h : Lexed s pieces) (hnul : NoEscapedNul pieces) :
    percentDecode s = some (pieces.flatMap fun p => Utf8.latin1 p.value) := by
  induction h with
  | nil => rfl
  | escape hhi hlo rest ih =>
      have hrest := ih fun hi lo hmem => hnul hi lo (List.mem_cons_of_mem _ hmem)
      rw [percentDecode_escape hhi hlo, if_neg (hnul _ _ List.mem_cons_self), hrest]
      rfl
  | literal hlate rest ih =>
      have hrest := ih fun hi lo hmem => hnul hi lo (List.mem_cons_of_mem _ hmem)
      rw [percentDecode_literal, hrest]
      · rfl
      · rintro hi lo rest rfl rfl
        exact absurd (hlate rfl) (by simp)

/-- A path that is decoded consists of pieces none of which means a NUL. -/
theorem lexed_of_percentDecode
    (h : percentDecode s = some out) :
    ∃ pieces, Lexed s pieces ∧ NoEscapedNul pieces ∧
      out = pieces.flatMap fun p => Utf8.latin1 p.value := by
  have hlexed : ∃ pieces, Lexed s pieces ∧ NoEscapedNul pieces := by
    induction s using lex.induct generalizing out with
    | case1 hi lo s hhex ih =>
        rw [percentDecode_escape hhex.1 hhex.2] at h
        split at h
        · cases h
        rename_i hvalue
        obtain ⟨tail, htail, -⟩ := Option.map_eq_some_iff.mp h
        obtain ⟨pieces, hrest, hnul⟩ := ih htail
        refine ⟨.escape hi lo :: pieces, .escape hhex.1 hhex.2 hrest, ?_⟩
        intro hi' lo' hmem
        rcases List.mem_cons.mp hmem with heq | hmem
        · cases heq
          exact hvalue
        · exact hnul hi' lo' hmem
    | case2 hi lo s hhex =>
        rw [percentDecode_bad_escape hhex] at h
        cases h
    | case3 b s hno ih =>
        rw [percentDecode_literal fun hi lo rest hb hs => hno hi lo rest hb hs] at h
        obtain ⟨tail, htail, -⟩ := Option.map_eq_some_iff.mp h
        obtain ⟨pieces, hrest, hnul⟩ := ih htail
        refine ⟨.literal b :: pieces, .literal ?_ hrest, ?_⟩
        · rintro rfl
          rcases s with _ | ⟨hi, _ | ⟨lo, s⟩⟩
          · exact Nat.zero_lt_two
          · exact Nat.one_lt_two
          · exact (hno hi lo s rfl rfl).elim
        · intro hi lo hmem
          rcases List.mem_cons.mp hmem with heq | hmem
          · cases heq
          · exact hnul hi lo hmem
    | case4 =>
        refine ⟨[], .nil, ?_⟩
        intro hi lo hmem
        cases hmem
  obtain ⟨pieces, hpieces, hnul⟩ := hlexed
  refine ⟨pieces, hpieces, hnul, ?_⟩
  rw [percentDecode_of_lexed hpieces hnul] at h
  exact (Option.some.inj h).symm

theorem simd_percentDecode_of_lexed
    (h : Lexed s pieces) :
    Simd.percentDecode s = pieces.map Piece.value := by
  induction h with
  | nil => rfl
  | @escape hi lo s pieces hhi hlo rest ih =>
      obtain ⟨h, hh⟩ := Option.isSome_iff_exists.mp hhi
      obtain ⟨l, hl⟩ := Option.isSome_iff_exists.mp hlo
      rw [List.map_cons, Piece.value, escapeValue_eq hh hl, ← ih, Simd.percentDecode,
        Simd.hexNibble, Simd.hexNibble, hh, hl]
  | @literal b s pieces hlate rest ih =>
      rw [List.map_cons, Simd.percentDecode, ih]
      · rfl
      · rintro hi lo rest rfl rfl
        exact absurd (hlate rfl) (by simp)

end Pieces

section Inverse

variable {s text : Bytes}

/-- Taken as characters, the bytes of a text are the text exactly if they are ASCII. -/
theorem flatMap_latin1_eq_iff
    (s : Bytes) :
    s.flatMap Utf8.latin1 = s ↔ ∀ b ∈ s, b < 0x80 := by
  have hlong : ∀ s : Bytes, s.length ≤ (s.flatMap Utf8.latin1).length := by
    intro s
    induction s with
    | nil => exact Nat.le_refl _
    | cons b s ih =>
        have hone := List.length_pos_of_ne_nil (Utf8.latin1_ne_nil b)
        rw [List.flatMap_cons, List.length_append, List.length_cons]
        omega
  induction s with
  | nil => exact iff_of_true rfl nofun
  | cons b s ih =>
      rw [List.flatMap_cons, List.forall_mem_cons]
      by_cases hb : b < 0x80
      · rw [Utf8.latin1, if_pos hb, List.singleton_append, List.cons.injEq]
        exact and_congr (iff_of_true rfl hb) ih
      · refine iff_of_false ?_ fun h => hb h.1
        intro heq
        have hlength := congrArg List.length heq
        have hrest := hlong s
        rw [Utf8.latin1, if_neg hb] at hlength
        simp only [List.cons_append, List.nil_append, List.length_cons] at hlength
        omega

/--
Both decoders give back what was encoded, whichever bytes were escaped and in whichever
case, exactly if it is ASCII text.
-/
theorem decoders_invert_iff
    (hnul : 0 ∉ s) (h : Encodes text s) :
    (percentDecode text = some s ∧ Simd.percentDecode text = s) ↔ ∀ b ∈ s, b < 0x80 := by
  obtain ⟨pieces, hwritten, rfl, rfl⟩ := h
  have hlexed := lexed_flatMap hwritten
  have hvalues : NoEscapedNul pieces := by
    intro hi lo hmem hzero
    exact hnul (List.mem_map.mpr ⟨_, hmem, hzero⟩)
  rw [percentDecode_of_lexed hlexed hvalues, simd_percentDecode_of_lexed hlexed,
    ← flatMap_latin1_eq_iff, List.flatMap_map, Option.some.injEq]
  exact and_iff_left rfl

/-- A space, in lower case, and a `%`, in a text of ASCII bytes. -/
theorem decoders_invert_example :
    Encodes (ascii "a%20b%25") (ascii "a b%") ∧
      percentDecode (ascii "a%20b%25") = some (ascii "a b%") ∧
      Simd.percentDecode (ascii "a%20b%25") = ascii "a b%" := by
  have h : Encodes (ascii "a%20b%25") (ascii "a b%") :=
    ⟨[.literal 97, .escape 50 48, .literal 98, .escape 50 53], by decide, by decide,
      by decide⟩
  exact ⟨h, (decoders_invert_iff (by decide) h).mpr (by decide +kernel)⟩

/-- The two bytes of a letter, one of them escaped, come back as two characters. -/
theorem letter_not_decoded :
    Utf8.isUtf8 [0xC3, 0xA9] = true ∧ 0 ∉ ([0xC3, 0xA9] : Bytes) ∧
      Encodes (ascii "%C3%a9") [0xC3, 0xA9] ∧
      percentDecode (ascii "%C3%a9") = some [0xC3, 0x83, 0xC2, 0xA9] ∧
      Simd.percentDecode (ascii "%C3%a9") = [0xC3, 0xA9] := by
  refine ⟨by decide, by decide, ?_, by decide, by decide⟩
  exact ⟨[.escape 67 51, .escape 97 57], by decide, by decide, by decide⟩

end Inverse

end StaticFiles
end RunNginx
