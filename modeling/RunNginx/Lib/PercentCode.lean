import Mathlib.Data.List.Basic
import RunNginx.Lib.IpAddr

/-!
# Percent-encoded text

Text whose bytes are written as they are or as escapes of two hexadecimal digits.  `lex`
cuts a text into these pieces, as decoders read it from left to right: a `%` in front of
two bytes begins an escape, and any other byte stands for itself.

`Lexed.text` and `lexed_flatMap` say that cutting and writing undo each other;
`splitOnP_flatMap` is about the components of a text that is written piece by piece.
-/

namespace PercentCode

open ByteString IpAddr

/-- A byte as it is, or an escape. -/
inductive Piece
  | literal (b : UInt8)
  | escape (hi lo : UInt8)
deriving DecidableEq, Repr

/-- The value of two hexadecimal digits. -/
def escapeValue (hi lo : UInt8) : UInt8 :=
  ((hexVal hi).getD 0 <<< 4) ||| (hexVal lo).getD 0

def IsHex (b : UInt8) : Prop :=
  (hexVal b).isSome = true

instance (b : UInt8) : Decidable (IsHex b) := by
  unfold IsHex
  infer_instance

namespace Piece

def text : Piece → Bytes
  | literal b => [b]
  | escape hi lo => [37, hi, lo]

/-- The byte that is meant. -/
def value : Piece → UInt8
  | literal b => b
  | escape hi lo => escapeValue hi lo

/-- Escapes have digits. -/
def Digits : Piece → Prop
  | literal _ => True
  | escape hi lo => IsHex hi ∧ IsHex lo

/-- How an encoder writes: every `%` is escaped. -/
def Written : Piece → Prop
  | literal b => b ≠ 37
  | escape hi lo => IsHex hi ∧ IsHex lo

instance : DecidablePred Written
  | literal b => inferInstanceAs (Decidable (b ≠ 37))
  | escape hi lo => inferInstanceAs (Decidable (IsHex hi ∧ IsHex lo))

end Piece

/-- Cut a text into its pieces. -/
def lex : Bytes → Option (List Piece)
  | 37 :: hi :: lo :: s =>
      if IsHex hi ∧ IsHex lo then (lex s).map (.escape hi lo :: ·) else none
  | b :: s => (lex s).map (.literal b :: ·)
  | [] => some []

/-- The text spells these bytes, with any of them escaped. -/
def Encodes (text s : Bytes) : Prop :=
  ∃ pieces : List Piece, (∀ p ∈ pieces, p.Written) ∧
    pieces.flatMap Piece.text = text ∧ pieces.map Piece.value = s

section Digits

def hexDigits : Bytes :=
  ascii "0123456789ABCDEFabcdef"

theorem mem_hexDigits
    {b : UInt8} (h : IsHex b) :
    b ∈ hexDigits := by
  revert h
  exact forall_byte (P := fun b => IsHex b → b ∈ hexDigits) (by decide +kernel) b

theorem isHex_ne
    {b : UInt8} (h : IsHex b) :
    b ≠ 37 := by
  rintro rfl
  exact absurd h (by decide +kernel)

theorem hexVal_lt
    {b v : UInt8} (h : hexVal b = some v) :
    v.toNat < 16 := by
  have hall : ∀ b : UInt8, ∀ v ∈ hexVal b, v.toNat < 16 :=
    forall_byte (by decide +kernel)
  exact hall b v h

/-- The digits of an escape are those of the byte that is meant. -/
theorem escapeValue_eq_iff
    {hi lo v : UInt8} (hhi : IsHex hi) (hlo : IsHex lo) :
    escapeValue hi lo = v ↔ hexVal hi = some (v >>> 4) ∧ hexVal lo = some (v &&& 15) := by
  obtain ⟨h, hh⟩ := Option.isSome_iff_exists.mp hhi
  obtain ⟨l, hl⟩ := Option.isSome_iff_exists.mp hlo
  have hh' := hexVal_lt hh
  have hl' := hexVal_lt hl
  have hvalue : (escapeValue hi lo).toNat = 16 * h.toNat + l.toNat := by
    rw [escapeValue, hh, hl, Option.getD_some, Option.getD_some, UInt8.toNat_or,
      UInt8.toNat_shiftLeft, show (4 : UInt8).toNat % 8 = 4 from rfl,
      Nat.mod_eq_of_lt (by rw [Nat.shiftLeft_eq]; omega),
      ← Nat.shiftLeft_add_eq_or_of_lt hl', Nat.shiftLeft_eq]
    omega
  have hsplit : (v >>> 4).toNat = v.toNat / 16 ∧ (v &&& 15).toNat = v.toNat % 16 := by
    rw [UInt8.toNat_shiftRight, UInt8.toNat_and]
    exact ⟨Nat.shiftRight_eq_div_pow _ 4, Nat.and_two_pow_sub_one_eq_mod _ 4⟩
  rw [hh, hl, Option.some.injEq, Option.some.injEq, ← UInt8.toNat_inj, ← UInt8.toNat_inj,
    ← UInt8.toNat_inj, hvalue, hsplit.1, hsplit.2]
  omega

/-- The digits of one value. -/
theorem hexVal_eq_iff
    {b v : UInt8} :
    hexVal b = some v ↔ b ∈ hexDigits.filter fun d => hexVal d = some v := by
  rw [List.mem_filter, decide_eq_true_iff]
  exact ⟨fun h => ⟨mem_hexDigits (Option.isSome_of_eq_some h), h⟩, And.right⟩

/-- An escape of a byte has one of the digits of each of its halves. -/
theorem escapeValue_mem_iff
    {hi lo v : UInt8} (hhi : IsHex hi) (hlo : IsHex lo) :
    escapeValue hi lo = v ↔
      [37, hi, lo] ∈ (hexDigits.filter fun d => hexVal d = some (v >>> 4)).flatMap fun hi =>
        (hexDigits.filter fun d => hexVal d = some (v &&& 15)).map fun lo => [37, hi, lo] := by
  rw [escapeValue_eq_iff hhi hlo, hexVal_eq_iff, hexVal_eq_iff]
  simp only [List.mem_flatMap, List.mem_map, List.cons.injEq, true_and, and_true]
  constructor
  · rintro ⟨h, h'⟩
    exact ⟨hi, h, lo, h', rfl, rfl⟩
  · rintro ⟨_, h, _, h', rfl, rfl⟩
    exact ⟨h, h'⟩

end Digits

section Lexed

/-- `Lexed s pieces`: the text is cut into these pieces. -/
inductive Lexed : Bytes → List Piece → Prop
  | nil : Lexed [] []
  | escape
      {hi lo : UInt8} {s : Bytes} {pieces : List Piece}
      (hhi : IsHex hi) (hlo : IsHex lo)
      (rest : Lexed s pieces) :
      Lexed (37 :: hi :: lo :: s) (.escape hi lo :: pieces)
  | literal
      {b : UInt8} {s : Bytes} {pieces : List Piece}
      (hlate : b = 37 → s.length < 2)
      (rest : Lexed s pieces) :
      Lexed (b :: s) (.literal b :: pieces)

theorem lexed_of_lex
    {s : Bytes} {pieces : List Piece} (h : lex s = some pieces) :
    Lexed s pieces := by
  induction s using lex.induct generalizing pieces with
  | case1 hi lo s hhex ih =>
      rw [lex, if_pos hhex] at h
      obtain ⟨tail, htail, rfl⟩ := Option.map_eq_some_iff.mp h
      exact .escape hhex.1 hhex.2 (ih htail)
  | case2 hi lo s hhex =>
      rw [lex, if_neg hhex] at h
      cases h
  | case3 b s hno ih =>
      rw [lex] at h
      · obtain ⟨tail, htail, rfl⟩ := Option.map_eq_some_iff.mp h
        refine .literal ?_ (ih htail)
        rintro rfl
        rcases s with _ | ⟨hi, _ | ⟨lo, s⟩⟩
        · exact Nat.zero_lt_two
        · exact Nat.one_lt_two
        · exact (hno hi lo s rfl rfl).elim
      · exact hno
  | case4 =>
      obtain rfl := Option.some.inj h
      exact .nil

theorem Lexed.lex_eq
    {s : Bytes} {pieces : List Piece} (h : Lexed s pieces) :
    lex s = some pieces := by
  induction h with
  | nil => rfl
  | escape hhi hlo rest ih =>
      rw [lex, if_pos ⟨hhi, hlo⟩, ih]
      rfl
  | @literal b s pieces hlate rest ih =>
      rw [lex, ih]
      · rfl
      · rintro hi lo rest rfl rfl
        exact absurd (hlate rfl) (by simp)

theorem lex_eq_some_iff
    {s : Bytes} {pieces : List Piece} :
    lex s = some pieces ↔ Lexed s pieces :=
  ⟨lexed_of_lex, Lexed.lex_eq⟩

variable {s : Bytes} {pieces : List Piece}

/-- The pieces of a text are written as the text. -/
theorem Lexed.text
    (h : Lexed s pieces) :
    pieces.flatMap Piece.text = s := by
  induction h with
  | nil => rfl
  | escape hhi hlo rest ih => rw [List.flatMap_cons, ih]; rfl
  | literal hlate rest ih => rw [List.flatMap_cons, ih]; rfl

theorem Lexed.digits
    (h : Lexed s pieces) :
    ∀ p ∈ pieces, p.Digits := by
  induction h with
  | nil => nofun
  | escape hhi hlo rest ih => exact List.forall_mem_cons.mpr ⟨⟨hhi, hlo⟩, ih⟩
  | literal hlate rest ih => exact List.forall_mem_cons.mpr ⟨trivial, ih⟩

/-- What an encoder writes is cut where it was put together. -/
theorem lexed_flatMap
    (h : ∀ p ∈ pieces, p.Written) :
    Lexed (pieces.flatMap Piece.text) pieces := by
  induction pieces with
  | nil => exact .nil
  | cons p pieces ih =>
      obtain ⟨hp, hrest⟩ := List.forall_mem_cons.mp h
      cases p with
      | literal b => exact .literal (fun heq => absurd heq hp) (ih hrest)
      | escape hi lo => exact .escape hp.1 hp.2 (ih hrest)

/-- An escape stands in the text exactly where one is read. -/
theorem Lexed.mem_escape_iff
    (h : Lexed s pieces) {hi lo : UInt8} :
    Piece.escape hi lo ∈ pieces ↔ [37, hi, lo] <:+: s := by
  constructor
  · intro hmem
    obtain ⟨front, back, rfl⟩ := List.append_of_mem hmem
    rw [← h.text, List.flatMap_append, List.flatMap_cons]
    exact ⟨front.flatMap Piece.text, back.flatMap Piece.text, List.append_assoc _ _ _⟩
  · intro hinfix
    induction h with
    | nil => exact absurd (List.infix_nil.mp hinfix) (List.cons_ne_nil _ _)
    | @escape hi' lo' s pieces hhi' hlo' rest ih =>
        rcases List.infix_cons_iff.mp hinfix with hprefix | hinfix
        · simp only [List.cons_prefix_cons, List.nil_prefix, and_true, true_and] at hprefix
          obtain ⟨rfl, rfl⟩ := hprefix
          exact List.mem_cons_self
        -- the digits of an escape begin none
        rcases List.infix_cons_iff.mp hinfix with hprefix | hinfix
        · exact absurd (List.cons_prefix_cons.mp hprefix).1.symm (isHex_ne hhi')
        rcases List.infix_cons_iff.mp hinfix with hprefix | hinfix
        · exact absurd (List.cons_prefix_cons.mp hprefix).1.symm (isHex_ne hlo')
        · exact List.mem_cons_of_mem _ (ih hinfix)
    | literal hlate rest ih =>
        rcases List.infix_cons_iff.mp hinfix with hprefix | hinfix
        · obtain ⟨rfl, hbehind⟩ := List.cons_prefix_cons.mp hprefix
          exact absurd (hlate rfl) (Nat.not_lt.mpr hbehind.length_le)
        · exact List.mem_cons_of_mem _ (ih hinfix)

/-- A `%` that stands for itself has at most one byte behind it. -/
def Late (pieces : List Piece) : Prop :=
  ∀ front back, pieces = front ++ .literal 37 :: back → (back.flatMap Piece.text).length < 2

theorem Lexed.late
    (h : Lexed s pieces) :
    Late pieces := by
  induction h with
  | nil =>
      intro front back heq
      exact absurd heq (by simp)
  | escape hhi hlo rest ih =>
      intro front back heq
      cases front with
      | nil => cases heq
      | cons p front => exact ih front back (List.cons.inj heq).2
  | literal hlate rest ih =>
      intro front back heq
      cases front with
      | nil =>
          obtain ⟨hb, rfl⟩ := List.cons.inj heq
          rw [rest.text]
          exact hlate (Piece.literal.inj hb)
      | cons p front => exact ih front back (List.cons.inj heq).2

theorem Late.of_infix
    {part : List Piece} (h : Late pieces) (hpart : part <:+: pieces) :
    Late part := by
  obtain ⟨u, v, rfl⟩ := hpart
  rintro front back rfl
  have hlong := h (u ++ front) (back ++ v) (by simp)
  rw [List.flatMap_append, List.length_append] at hlong
  omega

end Lexed

section Split

variable {α β : Type} {p : β → Bool} {q : α → Bool} {f : α → List β}

theorem splitOnP_append_of_forall
    {xs : List β} (h : ∀ x ∈ xs, p x = false) (ys : List β) :
    (xs ++ ys).splitOnP p = (ys.splitOnP p).modifyHead (xs ++ ·) := by
  induction xs with
  | nil =>
      obtain ⟨head, tail, heq⟩ := List.exists_cons_of_ne_nil (List.splitOnP_ne_nil p ys)
      rw [List.nil_append, heq]
      rfl
  | cons x xs ih =>
      obtain ⟨hx, hxs⟩ := List.forall_mem_cons.mp h
      obtain ⟨head, tail, heq⟩ := List.exists_cons_of_ne_nil (List.splitOnP_ne_nil p ys)
      rw [List.cons_append, List.splitOnP_cons_eq_if_modifyHead, hx, ih hxs, heq]
      rfl

/--
Where each separator is written as a separator, and nothing else contains one, the
components of what is written are what the components are written as.
-/
theorem splitOnP_flatMap
    {l : List α} (hsep : ∀ a ∈ l, q a = true → ∃ b, f a = [b] ∧ p b = true)
    (hother : ∀ a ∈ l, q a = false → ∀ b ∈ f a, p b = false) :
    (l.flatMap f).splitOnP p = (l.splitOnP q).map (List.flatMap f) := by
  induction l with
  | nil => rfl
  | cons a l ih =>
      obtain ⟨hsepa, hsep⟩ := List.forall_mem_cons.mp hsep
      obtain ⟨hothera, hother⟩ := List.forall_mem_cons.mp hother
      have hrest := ih hsep hother
      rw [List.flatMap_cons, List.splitOnP_cons_eq_if_modifyHead]
      cases hq : q a with
      | true =>
          obtain ⟨b, hb, hpb⟩ := hsepa hq
          rw [hb, List.singleton_append, List.splitOnP_cons_eq_if_modifyHead, hpb, hrest]
          rfl
      | false =>
          obtain ⟨head, tail, heq⟩ := List.exists_cons_of_ne_nil (List.splitOnP_ne_nil q l)
          rw [splitOnP_append_of_forall (hothera hq), hrest, heq]
          rfl

/-- A component is a part of the whole. -/
theorem infix_of_mem_splitOnP
    {l part : List α} (h : part ∈ l.splitOnP q) :
    part <:+: l := by
  have hparts : ∀ l : List α, ∃ head tail, l.splitOnP q = head :: tail ∧ head <+: l ∧
      ∀ part ∈ tail, part <:+: l := by
    intro l
    induction l with
    | nil => exact ⟨[], [], rfl, List.prefix_rfl, nofun⟩
    | cons a l ih =>
        obtain ⟨head, tail, heq, hhead, htail⟩ := ih
        rw [List.splitOnP_cons_eq_if_modifyHead, heq]
        cases q a with
        | true =>
            refine ⟨[], head :: tail, rfl, List.nil_prefix, ?_⟩
            exact List.forall_mem_cons.mpr
              ⟨List.infix_cons hhead.isInfix, fun part hpart => List.infix_cons (htail part hpart)⟩
        | false =>
            exact ⟨a :: head, tail, rfl, List.cons_prefix_cons.mpr ⟨rfl, hhead⟩,
              fun part hpart => List.infix_cons (htail part hpart)⟩
  obtain ⟨head, tail, heq, hhead, htail⟩ := hparts l
  rw [heq] at h
  rcases List.mem_cons.mp h with rfl | h
  · exact hhead.isInfix
  · exact htail part h

end Split

end PercentCode
