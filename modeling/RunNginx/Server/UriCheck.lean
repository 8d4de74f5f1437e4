import RunNginx.Server.Exits
import RunNginx.Server.PercentDecoding

/-!
# What the URI check is good for

The check looks for a few sequences in the request target, before its path is cut off and
decoded.  `%2F` and `%5C` are among them in upper case only, and so is `..` only in front of
a separator: `safe_decoded_iff` says which paths are safe once they are decoded.

It also looks at the query: `query_accepted_iff` says which queries are let through.
-/

namespace RunNginx
namespace Handler

open ByteString PercentCode StaticFiles
open Simd (isUriSafe isUriSafe_iff)

section Paths

/-- The bytes that separate the components of a path. -/
def isSeparator (b : UInt8) : Bool :=
  b == 47 || b == 92

/--
The decoded path holds no NUL, no component `..`, and its separators are those of the path
it was decoded from.
-/
structure SafePath (path decoded : Bytes) : Prop where
  nul : 0 ∉ decoded
  parent : ascii ".." ∉ decoded.splitOnP isSeparator
  separators : decoded.filter isSeparator = path.filter isSeparator

/-- How a dot can be written. -/
def dots : List Bytes :=
  [ascii ".", ascii "%2e", ascii "%2E"]

/-- The component is written so that it means `..`. -/
def SpellsParent (part : Bytes) : Prop :=
  ∃ d ∈ dots, ∃ d' ∈ dots, part = d ++ d'

instance (part : Bytes) : Decidable (SpellsParent part) := by
  unfold SpellsParent
  infer_instance

/-- The path has no lower-case escape of a separator, and no component that means `..`. -/
structure PlainPath (path : Bytes) : Prop where
  slash : contains (ascii "%2f") path = false
  backslash : contains (ascii "%5c") path = false
  parent : ∀ part ∈ path.splitOnP isSeparator, ¬ SpellsParent part

/-- The digits that mean a separator, and those that mean a dot. -/
theorem escapeValue_known
    {hi lo : UInt8} (hhi : IsHex hi) (hlo : IsHex lo) :
    (isSeparator (escapeValue hi lo) = true ↔
        [37, hi, lo] ∈ [ascii "%2F", ascii "%2f", ascii "%5C", ascii "%5c"]) ∧
      (escapeValue hi lo = 46 ↔ [37, hi, lo] ∈ [ascii "%2e", ascii "%2E"]) := by
  have hslash : escapeValue hi lo = 47 ↔ [37, hi, lo] ∈ [ascii "%2F", ascii "%2f"] :=
    escapeValue_mem_iff hhi hlo
  have hbackslash : escapeValue hi lo = 92 ↔ [37, hi, lo] ∈ [ascii "%5C", ascii "%5c"] :=
    escapeValue_mem_iff hhi hlo
  have hdot : escapeValue hi lo = 46 ↔ [37, hi, lo] ∈ [ascii "%2E", ascii "%2e"] :=
    escapeValue_mem_iff hhi hlo
  constructor
  · rw [isSeparator, Bool.or_eq_true, beq_iff_eq, beq_iff_eq, hslash, hbackslash]
    exact List.mem_append.symm
  · rw [hdot, List.mem_pair, List.mem_pair]
    exact or_comm

theorem not_separator_of_isHex
    {b : UInt8} (h : IsHex b) :
    isSeparator b = false := by
  rw [isSeparator, Bool.or_eq_false_iff, beq_eq_false_iff_ne, beq_eq_false_iff_ne]
  constructor
  · rintro rfl
    exact absurd h (by decide)
  · rintro rfl
    exact absurd h (by decide)

/-- No byte of a character beyond ASCII separates components. -/
theorem not_separator_of_le
    {c : UInt8} (h : 0x80 ≤ c) :
    isSeparator c = false := by
  rw [isSeparator, Bool.or_eq_false_iff, beq_eq_false_iff_ne, beq_eq_false_iff_ne]
  constructor
  · rintro rfl
    exact absurd h (by decide)
  · rintro rfl
    exact absurd h (by decide)

theorem latin1_of_separator
    {b : UInt8} (h : isSeparator b = true) :
    Utf8.latin1 b = [b] := by
  rw [isSeparator, Bool.or_eq_true, beq_iff_eq, beq_iff_eq] at h
  rcases h with rfl | rfl
  · rfl
  · rfl

theorem not_separator_of_mem_latin1
    {b c : UInt8} (hb : isSeparator b = false) (hc : c ∈ Utf8.latin1 b) :
    isSeparator c = false := by
  rcases Utf8.latin1_cases b with hsingle | hwide
  · rw [hsingle, List.mem_singleton] at hc
    exact hc ▸ hb
  · exact not_separator_of_le (hwide c hc)

theorem filter_latin1
    (b : UInt8) :
    (Utf8.latin1 b).filter isSeparator = [b].filter isSeparator := by
  by_cases hb : isSeparator b = true
  · rw [latin1_of_separator hb]
  · rw [Bool.not_eq_true] at hb
    rw [List.filter_eq_nil_iff.mpr fun c hc => Bool.not_eq_true _ ▸
      not_separator_of_mem_latin1 hb hc]
    exact (List.filter_eq_nil_iff.mpr fun c hc => by
      rw [List.mem_singleton.mp hc, hb]
      exact Bool.false_ne_true).symm

/-- The characters a piece is decoded to. -/
def chars (p : Piece) : Bytes :=
  Utf8.latin1 p.value

/-- A separator that is written as it is. -/
def literalSeparator : Piece → Bool
  | .literal b => isSeparator b
  | .escape _ _ => false

/-- No escape means a separator. -/
def NoEscapedSeparator (pieces : List Piece) : Prop :=
  ∀ hi lo, .escape hi lo ∈ pieces → isSeparator (escapeValue hi lo) = false

variable {path : Bytes} {pieces : List Piece}

theorem filter_text_escape
    {hi lo : UInt8} (hhi : IsHex hi) (hlo : IsHex lo) :
    (Piece.escape hi lo).text.filter isSeparator = [] := by
  rw [Piece.text, List.filter_cons_of_neg (by decide),
    List.filter_cons_of_neg (ne_true_of_eq_false (not_separator_of_isHex hhi)),
    List.filter_cons_of_neg (ne_true_of_eq_false (not_separator_of_isHex hlo)), List.filter_nil]

/-- Decoding loses no separator. -/
theorem separators_le
    (hdigits : ∀ p ∈ pieces, p.Digits) :
    ((pieces.flatMap Piece.text).filter isSeparator).length ≤
      ((pieces.flatMap chars).filter isSeparator).length := by
  induction pieces with
  | nil => exact Nat.le_refl _
  | cons p pieces ih =>
      obtain ⟨hp, hrest⟩ := List.forall_mem_cons.mp hdigits
      have hle := ih hrest
      rw [List.flatMap_cons, List.flatMap_cons, List.filter_append, List.filter_append,
        List.length_append, List.length_append, chars, filter_latin1]
      cases p with
      | literal b => exact Nat.add_le_add_left hle _
      | escape hi lo =>
          rw [filter_text_escape hp.1 hp.2]
          exact Nat.add_le_add (Nat.zero_le _) hle

/-- Decoding adds a separator exactly where an escape means one. -/
theorem separators_eq_iff
    (hdigits : ∀ p ∈ pieces, p.Digits) :
    (pieces.flatMap chars).filter isSeparator = (pieces.flatMap Piece.text).filter isSeparator ↔
      NoEscapedSeparator pieces := by
  induction pieces with
  | nil => exact iff_of_true rfl nofun
  | cons p pieces ih =>
      obtain ⟨hp, hrest⟩ := List.forall_mem_cons.mp hdigits
      rw [List.flatMap_cons, List.flatMap_cons, List.filter_append, List.filter_append,
        chars, filter_latin1]
      cases p with
      | literal b =>
          rw [Piece.value, Piece.text, List.append_cancel_left_eq, ih hrest]
          unfold NoEscapedSeparator
          simp only [List.mem_cons, reduceCtorEq, false_or]
      | escape hi lo =>
          rw [filter_text_escape hp.1 hp.2, List.nil_append, Piece.value]
          cases hvalue : isSeparator (escapeValue hi lo) with
          | true =>
              refine iff_of_false ?_ fun h => ?_
              · intro heq
                have hlength := congrArg List.length heq
                have hle := separators_le hrest
                rw [List.filter_cons_of_pos hvalue, List.filter_nil, List.length_append,
                  List.length_singleton] at hlength
                omega
              · exact absurd (h hi lo List.mem_cons_self) (ne_false_of_eq_true hvalue)
          | false =>
              rw [List.filter_cons_of_neg (ne_true_of_eq_false hvalue), List.filter_nil,
                List.nil_append, ih hrest]
              unfold NoEscapedSeparator
              constructor
              · intro h hi' lo' hmem
                rcases List.mem_cons.mp hmem with heq | hmem
                · cases heq
                  exact hvalue
                · exact h hi' lo' hmem
              · exact fun h hi' lo' hmem => h hi' lo' (List.mem_cons_of_mem _ hmem)

theorem dots_eq :
    dots = [[46], [37, 50, 101], [37, 50, 69]] := by
  decide

/-- A piece means a dot exactly if it is written as one. -/
theorem value_eq_dot_iff
    {p : Piece} (hp : p.Digits) :
    p.value = 46 ↔ p.text ∈ dots := by
  cases p with
  | literal b =>
      rw [Piece.value, Piece.text, dots_eq]
      simp
  | escape hi lo =>
      rw [Piece.value, (escapeValue_known hp.1 hp.2).2, Piece.text, dots]
      refine ⟨List.mem_cons_of_mem _, fun h => (List.mem_cons.mp h).resolve_left ?_⟩
      intro heq
      have hdot : ascii "." = [46] := by decide
      rw [hdot] at heq
      cases heq

theorem chars_eq_cons_dot_iff
    {p : Piece} {s : Bytes} :
    (p :: pieces).flatMap chars = 46 :: s ↔ p.value = 46 ∧ pieces.flatMap chars = s := by
  rw [List.flatMap_cons, chars]
  rcases Utf8.latin1_cases p.value with hsingle | hwide
  · rw [hsingle, List.singleton_append, List.cons.injEq]
  · refine iff_of_false ?_ fun h => ?_
    · intro heq
      obtain ⟨c, cs, hc⟩ := List.exists_cons_of_ne_nil (Utf8.latin1_ne_nil p.value)
      rw [hc, List.cons_append, List.cons.injEq] at heq
      have hge := hwide c (hc ▸ List.mem_cons_self)
      rw [heq.1] at hge
      exact absurd hge (by decide)
    · rw [h.1] at hwide
      exact absurd (hwide 46 (by decide)) (by decide)

/-- The first piece of a text that begins with a dot, however written, means a dot. -/
theorem value_of_text_eq_dot_append
    {d s : Bytes} (hdigits : ∀ p ∈ pieces, p.Digits) (hlate : Late pieces) (hd : d ∈ dots)
    (h : pieces.flatMap Piece.text = d ++ s) :
    ∃ p rest, pieces = p :: rest ∧ p.value = 46 ∧ rest.flatMap Piece.text = s := by
  have hdot := hd
  rw [dots_eq] at hd
  simp only [List.mem_cons, List.not_mem_nil, or_false] at hd
  cases pieces with
  | nil =>
      rcases hd with rfl | rfl | rfl <;> exact absurd h.symm (List.cons_ne_nil _ _)
  | cons p pieces =>
      refine ⟨p, pieces, rfl, ?_⟩
      rw [List.flatMap_cons] at h
      cases p with
      | literal b =>
          rw [Piece.text, List.singleton_append] at h
          rcases hd with rfl | rfl | rfl
          · obtain ⟨hb, hrest⟩ := List.cons.inj h
            exact ⟨hb, hrest⟩
          all_goals
            -- a `%` that stands for itself is not in front of two digits
            obtain ⟨rfl, hrest⟩ := List.cons.inj h
            have hshort := hlate [] pieces rfl
            rw [hrest] at hshort
            exact absurd hshort (by simp)
      | escape hi lo =>
          obtain ⟨hp, -⟩ := List.forall_mem_cons.mp hdigits
          rw [value_eq_dot_iff hp]
          rcases hd with rfl | rfl | rfl
          · exact absurd (List.cons.inj h).1 (by decide)
          all_goals
            simp only [Piece.text, List.cons_append, List.nil_append, List.cons.injEq,
              true_and] at h
            obtain ⟨rfl, rfl, hrest⟩ := h
            exact ⟨hdot, hrest⟩

/-- Pieces mean `..` exactly if they are written so. -/
theorem chars_eq_parent_iff
    (hdigits : ∀ p ∈ pieces, p.Digits) (hlate : Late pieces) :
    pieces.flatMap chars = ascii ".." ↔ SpellsParent (pieces.flatMap Piece.text) := by
  have hparent : ascii ".." = [46, 46] := by decide
  rw [hparent]
  constructor
  · intro h
    cases pieces with
    | nil => cases h
    | cons p rest =>
        obtain ⟨hp, h⟩ := chars_eq_cons_dot_iff.mp h
        obtain ⟨hdp, hdigits⟩ := List.forall_mem_cons.mp hdigits
        cases rest with
        | nil => cases h
        | cons p' rest =>
            obtain ⟨hp', h⟩ := chars_eq_cons_dot_iff.mp h
            obtain ⟨hdp', -⟩ := List.forall_mem_cons.mp hdigits
            cases rest with
            | nil =>
                refine ⟨p.text, (value_eq_dot_iff hdp).mp hp, p'.text,
                  (value_eq_dot_iff hdp').mp hp', ?_⟩
                rw [List.flatMap_cons, List.flatMap_cons, List.flatMap_nil, List.append_nil]
            | cons p'' rest =>
                rw [List.flatMap_cons] at h
                exact absurd (List.append_eq_nil_iff.mp h).1 (Utf8.latin1_ne_nil _)
  · rintro ⟨d, hd, d', hd', h⟩
    obtain ⟨p, rest, rfl, hp, hrest⟩ := value_of_text_eq_dot_append hdigits hlate hd h
    obtain ⟨-, hdigits⟩ := List.forall_mem_cons.mp hdigits
    have hlate := hlate.of_infix (List.infix_cons List.infix_rfl)
    rw [← List.append_nil d'] at hrest
    obtain ⟨p', rest, rfl, hp', hrest⟩ := value_of_text_eq_dot_append hdigits hlate hd' hrest
    refine chars_eq_cons_dot_iff.mpr ⟨hp, chars_eq_cons_dot_iff.mpr ⟨hp', ?_⟩⟩
    cases rest with
    | nil => rfl
    | cons p'' rest =>
        rw [List.flatMap_cons] at hrest
        cases p'' with
        | literal b => cases hrest
        | escape hi lo => cases hrest

/-- With no separator escaped, the components are decoded one by one. -/
theorem splitOnP_chars
    (hsep : NoEscapedSeparator pieces) :
    (pieces.flatMap chars).splitOnP isSeparator =
      (pieces.splitOnP literalSeparator).map (List.flatMap chars) := by
  refine splitOnP_flatMap ?_ ?_
  · intro p hp hq
    cases p with
    | literal b => exact ⟨b, latin1_of_separator hq, hq⟩
    | escape hi lo => cases hq
  · intro p hp hq
    have hvalue : isSeparator p.value = false := by
      cases p with
      | literal b => exact hq
      | escape hi lo => exact hsep hi lo hp
    exact fun c hc => not_separator_of_mem_latin1 hvalue hc

theorem splitOnP_text
    (hdigits : ∀ p ∈ pieces, p.Digits) :
    (pieces.flatMap Piece.text).splitOnP isSeparator =
      (pieces.splitOnP literalSeparator).map (List.flatMap Piece.text) := by
  refine splitOnP_flatMap ?_ ?_
  · intro p hp hq
    cases p with
    | literal b => exact ⟨b, rfl, hq⟩
    | escape hi lo => cases hq
  · intro p hp hq
    cases p with
    | literal b => exact List.forall_mem_singleton.mpr hq
    | escape hi lo =>
        obtain ⟨hhi, hlo⟩ := hdigits _ hp
        simp only [Piece.text, List.forall_mem_cons]
        exact ⟨by decide, not_separator_of_isHex hhi, not_separator_of_isHex hlo, nofun⟩

theorem parent_mem_iff
    (h : Lexed path pieces) (hsep : NoEscapedSeparator pieces) :
    ascii ".." ∈ (pieces.flatMap chars).splitOnP isSeparator ↔
      ∃ part ∈ path.splitOnP isSeparator, SpellsParent part := by
  have hpart : ∀ part ∈ pieces.splitOnP literalSeparator,
      (part.flatMap chars = ascii ".." ↔ SpellsParent (part.flatMap Piece.text)) := by
    intro part hmem
    have hwithin := infix_of_mem_splitOnP hmem
    exact chars_eq_parent_iff (fun p hp => h.digits p (hwithin.subset hp)) (h.late.of_infix hwithin)
  rw [splitOnP_chars hsep, ← h.text, splitOnP_text h.digits]
  constructor
  · intro hmem
    obtain ⟨part, hmem, heq⟩ := List.mem_map.mp hmem
    exact ⟨_, List.mem_map.mpr ⟨part, hmem, rfl⟩, (hpart part hmem).mp heq⟩
  · rintro ⟨_, hwritten, hspells⟩
    obtain ⟨part, hmem, rfl⟩ := List.mem_map.mp hwritten
    exact List.mem_map.mpr ⟨part, hmem, (hpart part hmem).mpr hspells⟩

end Paths

section Safe

variable {uri path decoded : Bytes} {pieces : List Piece}

/-- Only the lower-case escapes of a separator get through. -/
theorem noEscapedSeparator_iff
    (h : Lexed path pieces)
    (hsafe : ∀ seq ∈ Limits.forbiddenUriSequences, ¬ seq <:+: path) :
    NoEscapedSeparator pieces ↔
      contains (ascii "%2f") path = false ∧ contains (ascii "%5c") path = false := by
  rw [← Bool.not_eq_true, ← Bool.not_eq_true, contains_iff_infix (by decide),
    contains_iff_infix (by decide)]
  constructor
  · intro hsep
    constructor
    · intro hwithin
      have hmem : Piece.escape 50 102 ∈ pieces := h.mem_escape_iff.mpr hwithin
      exact absurd (hsep _ _ hmem) (by decide)
    · intro hwithin
      have hmem : Piece.escape 53 99 ∈ pieces := h.mem_escape_iff.mpr hwithin
      exact absurd (hsep _ _ hmem) (by decide)
  · rintro ⟨hslash, hbackslash⟩ hi lo hmem
    obtain ⟨hhi, hlo⟩ := h.digits _ hmem
    have hwithin := h.mem_escape_iff.mp hmem
    rw [← Bool.not_eq_true, (escapeValue_known hhi hlo).1]
    intro hknown
    simp only [List.mem_cons, List.not_mem_nil, or_false] at hknown
    rcases hknown with heq | heq | heq | heq
    · exact hsafe (ascii "%2F") (by decide) (heq ▸ hwithin)
    · exact hslash (heq ▸ hwithin)
    · exact hsafe (ascii "%5C") (by decide) (heq ▸ hwithin)
    · exact hbackslash (heq ▸ hwithin)

/-- A NUL is let through in neither way of writing it. -/
theorem nul_not_mem
    (h : Lexed path pieces) (hnul : NoEscapedNul pieces)
    (hsafe : ∀ seq ∈ Limits.forbiddenUriSequences, ¬ seq <:+: path) :
    0 ∉ pieces.flatMap chars := by
  have hlatin1 : ∀ b : UInt8, 0 ∈ Utf8.latin1 b → b = 0 := by
    intro b hb
    rcases Utf8.latin1_cases b with hsingle | hwide
    · exact (List.mem_singleton.mp (hsingle ▸ hb)).symm
    · exact absurd (hwide 0 hb) (by decide)
  intro hmem
  obtain ⟨p, hp, hmem⟩ := List.mem_flatMap.mp hmem
  have hvalue := hlatin1 p.value hmem
  cases p with
  | literal b =>
      obtain rfl : b = 0 := hvalue
      refine hsafe [0] List.mem_cons_self ((List.singleton_infix_iff _ _).mpr ?_)
      rw [← h.text]
      exact List.mem_flatMap.mpr ⟨_, hp, List.mem_singleton_self _⟩
  | escape hi lo => exact hnul hi lo hp hvalue

/-- The path of an accepted URI is decoded to a safe one exactly if it is plain. -/
theorem safe_decoded_iff
    (hsafe : isUriSafe uri = true)
    (hdecoded : percentDecode (ParsedRequest.splitUri uri).1 = some decoded) :
    SafePath (ParsedRequest.splitUri uri).1 decoded ↔
      PlainPath (ParsedRequest.splitUri uri).1 := by
  have hwithin := (ParsedRequest.splitUri_prefix uri).isInfix
  have hsequences : ∀ seq ∈ Limits.forbiddenUriSequences,
      ¬ seq <:+: (ParsedRequest.splitUri uri).1 :=
    fun seq hseq h => (isUriSafe_iff.mp hsafe).2 seq hseq (h.trans hwithin)
  obtain ⟨pieces, hlexed, hnul, rfl⟩ := lexed_of_percentDecode hdecoded
  have hseparators : (pieces.flatMap chars).filter isSeparator =
      (ParsedRequest.splitUri uri).1.filter isSeparator ↔ NoEscapedSeparator pieces := by
    conv_lhs => rw [← hlexed.text]
    exact separators_eq_iff hlexed.digits
  constructor
  · rintro ⟨-, hparent, hsame⟩
    have hsep := hseparators.mp hsame
    obtain ⟨hslash, hbackslash⟩ := (noEscapedSeparator_iff hlexed hsequences).mp hsep
    refine ⟨hslash, hbackslash, fun part hpart hspells => hparent ?_⟩
    exact (parent_mem_iff hlexed hsep).mpr ⟨part, hpart, hspells⟩
  · rintro ⟨hslash, hbackslash, hparent⟩
    have hsep := (noEscapedSeparator_iff hlexed hsequences).mpr ⟨hslash, hbackslash⟩
    refine ⟨nul_not_mem hlexed hnul hsequences, fun hmem => ?_, hseparators.mpr hsep⟩
    obtain ⟨part, hpart, hspells⟩ := (parent_mem_iff hlexed hsep).mp hmem
    exact hparent part hpart hspells

/-- An escaped space in front of dots that name a file. -/
theorem safe_decoded_example :
    isUriSafe (ascii "/a%20b/..c?d=%2f") = true ∧
      SafePath (ascii "/a%20b/..c") (ascii "/a b/..c") := by
  have hsafe : isUriSafe (ascii "/a%20b/..c?d=%2f") = true := by
    decide
  have hpath : (ParsedRequest.splitUri (ascii "/a%20b/..c?d=%2f")).1 = ascii "/a%20b/..c" := by
    decide
  have hplain : PlainPath (ParsedRequest.splitUri (ascii "/a%20b/..c?d=%2f")).1 := by
    rw [hpath]
    exact ⟨by decide, by decide, by decide⟩
  have hdecoded : percentDecode (ParsedRequest.splitUri (ascii "/a%20b/..c?d=%2f")).1 =
      some (ascii "/a b/..c") := by
    rw [hpath]
    decide
  have hsafePath := (safe_decoded_iff hsafe hdecoded).mpr hplain
  rw [hpath] at hsafePath
  exact ⟨hsafe, hsafePath⟩

/-- A separator in lower case is let through, and the dots in front of it become a parent. -/
theorem lower_case_separator_decoded :
    isUriSafe (ascii "/a/..%2fb") = true ∧
      (ParsedRequest.splitUri (ascii "/a/..%2fb")).1 = ascii "/a/..%2fb" ∧
      percentDecode (ascii "/a/..%2fb") = some (ascii "/a/../b") ∧
      ¬ SafePath (ascii "/a/..%2fb") (ascii "/a/../b") := by
  refine ⟨by decide, by decide, by decide, fun h => ?_⟩
  exact absurd h.separators (by decide)

end Safe

section Query

variable {ctx : Context} {env : Env} {st : ServerState} {raw p q : Bytes}

/-- The request is refused because of what its target contains. -/
def RejectsTarget (o : Outcome) : Prop :=
  o.exit = .badRequest ∧ o.result = .badRequest (ascii "forbidden URI sequence") false

/-- What is said about headers that cannot be read. -/
def headerReasons : List Bytes :=
  [ascii "malformed header line", ascii "header name too long", ascii "header value too long",
    ascii "headers incomplete", ascii "header line incomplete", ascii "headers too large",
    ascii "too many headers", ascii "header buffer overflow"]

theorem mem_headerReasons_of_line
    {line e : Bytes} (h : Simd.parseHeaderLine line = .error e) :
    e ∈ headerReasons := by
  unfold Simd.parseHeaderLine at h
  split at h
  · cases h
    simp [headerReasons]
  · dsimp only at h
    split at h
    · cases h
      simp [headerReasons]
    · split at h
      · cases h
        simp [headerReasons]
      · cases h

theorem mem_headerReasons_of_loop
    {fuel totalBytes pos : Nat} {rest e : Bytes} {headers : List Simd.Header}
    (h : Simd.parseHeaderLoop fuel rest headers totalBytes pos = .error e) :
    e ∈ headerReasons := by
  induction fuel generalizing rest headers totalBytes pos with
  | zero =>
      cases h
      simp [headerReasons]
  | succ fuel ih =>
      unfold Simd.parseHeaderLoop at h
      split at h
      · cases h
      split at h
      · cases h
        simp [headerReasons]
      split at h
      · cases h
        simp [headerReasons]
      split at h
      · rename_i hline
        cases h
        exact mem_headerReasons_of_line hline
      dsimp only at h
      split at h
      · cases h
        simp [headerReasons]
      split at h
      · cases h
        simp [headerReasons]
      · exact ih h

theorem mem_headerReasons
    {buf e : Bytes} (h : Simd.parseHeaders buf = .error e) :
    e ∈ headerReasons := by
  unfold Simd.parseHeaders at h
  split at h
  · cases h
    simp [headerReasons]
  · exact mem_headerReasons_of_loop h

/-- A target is refused exactly if the check refuses it. -/
theorem rejectsTarget_iff
    {line : Simd.RequestLine} {len : Nat}
    (hline : Simd.parseRequestLine raw = .ok (line, len)) :
    RejectsTarget (dispatch ctx env st raw) ↔
      env.scanBlocked = false ∧ isUriSafe line.uri = false := by
  have hother : ∀ reason ∈ headerReasons,
      HandlerResult.badRequest reason false ≠
        .badRequest (ascii "forbidden URI sequence") false := by
    decide +kernel
  constructor
  · rintro ⟨hexit, hresult⟩
    have hends := ends_dispatch ctx env st raw
    generalize dispatch ctx env st raw = o at hends hexit hresult
    cases hends with
    | badRequest hfree hparse =>
        refine ⟨hfree, ?_⟩
        by_contra hsafe
        rw [Bool.not_eq_false] at hsafe
        simp only [parseRequest, hline, hsafe, Bool.not_true, Bool.false_eq_true,
          ↓reduceIte] at hparse
        cases hbehind : Request.readBehindLine raw line len with
        | ok received =>
            rw [hbehind] at hparse
            cases hparse
        | error e =>
            rw [hbehind] at hparse
            cases hparse
            unfold Request.readBehindLine at hbehind
            split at hbehind
            · rename_i hheaders
              cases hbehind
              exact hother _ (mem_headerReasons hheaders) hresult
            · cases hbehind
    | _ => cases hexit
  · rintro ⟨hfree, hunsafe⟩
    have hparse : parseRequest raw = .error (ascii "forbidden URI sequence") := by
      simp only [parseRequest, hline, hunsafe, Bool.not_false, ↓reduceIte]
    rw [(Ends.badRequest hfree hparse).dispatch_eq]
    exact ⟨rfl, rfl⟩

/-- A question mark belongs to no sequence, so that none reaches across it. -/
theorem isUriSafe_query_iff
    (hp : isUriSafe p = true) (hq : Utf8.isUtf8 q = true) :
    isUriSafe (p ++ 63 :: q) = true ↔ isUriSafe q = true := by
  have hmark : ∀ seq ∈ Limits.forbiddenUriSequences, 63 ∉ seq := by
    decide
  rw [isUriSafe_iff] at hp
  rw [isUriSafe_iff, isUriSafe_iff]
  refine and_congr (iff_of_true ?_ hq) (forall₂_congr fun seq hseq => not_congr ?_)
  · exact Utf8.isUtf8_append hp.1 (Utf8.isUtf8_append (s := [63]) (by decide) hq)
  · constructor
    · intro h
      rcases List.infix_append_iff.mp h with h | h | ⟨front, back, rfl, hfront, hback⟩
      · exact absurd h (hp.2 seq hseq)
      · rcases List.infix_cons_iff.mp h with h | h
        · cases seq with
          | nil => exact List.nil_infix
          | cons b seq =>
              obtain ⟨rfl, -⟩ := List.cons_prefix_cons.mp h
              exact absurd List.mem_cons_self (hmark _ hseq)
        · exact h
      · cases back with
        | nil =>
            rw [List.append_nil] at hseq
            exact absurd hfront.isInfix (hp.2 front hseq)
        | cons b back =>
            obtain ⟨rfl, -⟩ := List.cons_prefix_cons.mp hback
            exact absurd (List.mem_append_right _ List.mem_cons_self) (hmark _ hseq)
    · exact fun h => List.infix_append_iff.mpr (.inr (.inl (List.infix_cons h)))

/--
A target with an acceptable path is refused as one with a forbidden sequence exactly if the
check refuses the query, unless the client is blocked before that.
-/
theorem query_accepted_iff
    {line : Simd.RequestLine} {len : Nat}
    (hline : Simd.parseRequestLine raw = .ok (line, len)) (huri : line.uri = p ++ 63 :: q)
    (hp : isUriSafe p = true) (hq : Utf8.isUtf8 q = true) :
    ¬ RejectsTarget (dispatch ctx env st raw) ↔ isUriSafe q = true ∨ env.scanBlocked = true := by
  rw [rejectsTarget_iff hline, huri, not_and, Bool.not_eq_false, isUriSafe_query_iff hp hq]
  cases env.scanBlocked with
  | true => simp
  | false => simp

/-- A query with an escaped space is let through. -/
theorem query_accepted_example :
    ¬ RejectsTarget (dispatch (contextOf (StaticFiles.serverAt (ascii "/srv")))
      (quietEnv StaticFiles.exampleFiles) (stateWithCache 0 0)
      (requestOf ["GET /find?text=a%20b HTTP/1.1", "Host: a"])) := by
  have hline : Simd.parseRequestLine (requestOf ["GET /find?text=a%20b HTTP/1.1", "Host: a"]) =
      .ok (⟨ascii "GET", ascii "/find?text=a%20b", ascii "HTTP/1.1"⟩, 31) := by
    decide
  have huri : ascii "/find?text=a%20b" = ascii "/find" ++ 63 :: ascii "text=a%20b" := by
    decide
  exact (query_accepted_iff hline huri (by decide) (by decide)).mpr
    (.inl (by decide))

/-- A URL in the query is refused, behind a path that the check accepts. -/
theorem url_in_query_refused :
    isUriSafe (ascii "/login") = true ∧ Utf8.isUtf8 (ascii "next=http://a/") = true ∧
      RejectsTarget (dispatch (contextOf (StaticFiles.serverAt (ascii "/srv")))
        (quietEnv StaticFiles.exampleFiles) (stateWithCache 0 0)
        (requestOf ["GET /login?next=http://a/ HTTP/1.1", "Host: a"])) := by
  have hline : Simd.parseRequestLine (requestOf ["GET /login?next=http://a/ HTTP/1.1", "Host: a"]) =
      .ok (⟨ascii "GET", ascii "/login?next=http://a/", ascii "HTTP/1.1"⟩, 36) := by
    decide
  exact ⟨by decide, by decide,
    (rejectsTarget_iff hline).mpr ⟨rfl, by decide⟩⟩

end Query

end Handler
end RunNginx
