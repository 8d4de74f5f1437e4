import Mathlib.Algebra.Ring.Nat
import RunNginx.Lib.ByteString

/-!
# Numerals as byte strings

`render` writes a natural number, `parseUnsigned` reads one back below a bound
the way an unsigned machine integer is parsed: an optional plus sign, at least
one digit, nothing else, and no overflow.
-/

namespace Decimal

open ByteString

/-- ASCII digit. -/
def isDigit (b : UInt8) : Bool :=
  48 ≤ b && b ≤ 57

/-- Value of a digit string, most significant digit first. -/
def value (s : Bytes) : Nat :=
  s.foldl (fun acc b => 10 * acc + (b.toNat - 48)) 0

/-- Decimal numeral of a natural number, without leading zeros. -/
def render (n : Nat) : Bytes :=
  (Nat.toDigits 10 n).map fun c => UInt8.ofNat c.toNat

/-- Hexadecimal numeral of a natural number, in lower case. -/
def renderHex (n : Nat) : Bytes :=
  (Nat.toDigits 16 n).map fun c => UInt8.ofNat c.toNat

/-- The digits of a numeral behind its optional plus sign. -/
def digitsOf : Bytes → Bytes
  | 43 :: s => s
  | s => s

/-- Parse an unsigned integer below `bound`. -/
def parseUnsigned (bound : Nat) (s : Bytes) : Option Nat :=
  let digits := digitsOf s
  if digits ≠ [] ∧ digits.all isDigit ∧ value digits < bound then
    some (value digits)
  else none

/-- Bounds of the unsigned machine integers the program parses into. -/
def u16Bound : Nat := 2 ^ 16
def u32Bound : Nat := 2 ^ 32
def u64Bound : Nat := 2 ^ 64
def usizeBound : Nat := 2 ^ 64

theorem mem_toDigits
    {base n : Nat} {c : Char}
    (hbase : 1 < base)
    (hc : c ∈ Nat.toDigits base n) :
    ∃ d < base, c = d.digitChar := by
  induction n using Nat.strongRecOn with
  | ind n ih =>
      rw [Nat.toDigits_eq_if hbase] at hc
      split at hc
      · rename_i hlt
        exact ⟨n, hlt, List.mem_singleton.mp hc⟩
      · rename_i hle
        rcases List.mem_append.mp hc with hc | hc
        · exact ih (n / base) (Nat.div_lt_self (by omega) hbase) hc
        · exact ⟨n % base, Nat.mod_lt n (by omega), List.mem_singleton.mp hc⟩

/-- Hexadecimal digits are no control characters. -/
theorem not_control_of_mem_renderHex
    {n : Nat} {b : UInt8}
    (hb : b ∈ renderHex n) :
    48 ≤ b := by
  obtain ⟨c, hc, rfl⟩ := List.mem_map.mp hb
  obtain ⟨d, hd, rfl⟩ := mem_toDigits (by omega) hc
  have hall : ∀ d < 16, 48 ≤ UInt8.ofNat d.digitChar.toNat := by
    decide
  exact hall d hd

theorem isDigit_ofNat_of_isDigit
    {c : Char}
    (hc : c.isDigit) :
    isDigit (UInt8.ofNat c.toNat) = true ∧
      (UInt8.ofNat c.toNat).toNat = c.toNat := by
  have hbounds : 48 ≤ c.toNat ∧ c.toNat ≤ 57 := by
    simp only [Char.isDigit, Bool.and_eq_true, decide_eq_true_eq] at hc
    exact ⟨hc.1, hc.2⟩
  have hnat : (UInt8.ofNat c.toNat).toNat = c.toNat := by
    simp
    omega
  refine ⟨?_, hnat⟩
  simp only [isDigit, Bool.and_eq_true, decide_eq_true_eq, UInt8.le_iff_toNat_le, hnat]
  exact hbounds

theorem render_ne_nil (n : Nat) : render n ≠ [] := by
  simp [render]

theorem isDigit_of_mem_render
    {n : Nat} {b : UInt8}
    (hb : b ∈ render n) :
    isDigit b = true := by
  obtain ⟨c, hc, rfl⟩ := List.mem_map.mp hb
  exact (isDigit_ofNat_of_isDigit
    (Nat.isDigit_of_mem_toDigits (by omega) (by omega) hc)).1

theorem all_isDigit_render
    (n : Nat) :
    (render n).all isDigit = true := by
  rw [List.all_eq_true]
  intro b hb
  exact isDigit_of_mem_render hb

/-- Reading the numeral of `n` gives `n`. -/
theorem value_render (n : Nat) : value (render n) = n := by
  have hfold : ∀ (l : List Char) (acc : Nat),
      (∀ c ∈ l, c.isDigit) →
      (l.map fun c => UInt8.ofNat c.toNat).foldl
          (fun acc b => 10 * acc + (b.toNat - 48)) acc =
        Nat.ofDigitChars 10 l acc := by
    intro l
    induction l with
    | nil =>
        intro acc _
        simp
    | cons c l ih =>
        intro acc hl
        have hc := (isDigit_ofNat_of_isDigit (hl c (by simp))).2
        rw [Nat.ofDigitChars_cons, ← ih _ (fun d hd => hl d (by simp [hd]))]
        simp only [List.map_cons, List.foldl_cons, hc]
        rfl
  rw [value, render, hfold _ 0]
  · simp
  · intro c hc
    exact Nat.isDigit_of_mem_toDigits (by omega) (by omega) hc

theorem render_inj
    {n m : Nat} (h : render n = render m) :
    n = m := by
  rw [← value_render n, h, value_render]

theorem digitsOf_of_digits
    {s : Bytes}
    (hs : s.all isDigit = true) :
    digitsOf s = s := by
  match s with
  | [] => rfl
  | b :: s =>
      have hb : isDigit b = true := by
        simp only [List.all_cons, Bool.and_eq_true] at hs
        exact hs.1
      have hne : b ≠ 43 := by
        rintro rfl
        exact absurd hb (by decide)
      unfold digitsOf
      split
      · simp_all
      · rfl

/-- A nonempty digit string parses to its value when that fits. -/
theorem parseUnsigned_digits
    {bound : Nat} {s : Bytes}
    (hne : s ≠ [])
    (hs : s.all isDigit = true)
    (hbound : value s < bound) :
    parseUnsigned bound s = some (value s) := by
  simp only [parseUnsigned, digitsOf_of_digits hs]
  rw [if_pos ⟨hne, hs, hbound⟩]

/-- Parsing undoes rendering. -/
theorem parseUnsigned_render
    {bound n : Nat}
    (hn : n < bound) :
    parseUnsigned bound (render n) = some n := by
  have hvalue : value (render n) < bound := by
    rw [value_render]
    exact hn
  have := parseUnsigned_digits (render_ne_nil n) (all_isDigit_render n) hvalue
  rwa [value_render] at this

/-- A number that does not fit is not read. -/
theorem parseUnsigned_render_eq_none
    {bound n : Nat}
    (hn : bound ≤ n) :
    parseUnsigned bound (render n) = none := by
  simp only [parseUnsigned, digitsOf_of_digits (all_isDigit_render n), value_render]
  exact if_neg fun h => Nat.not_lt.mpr hn h.2.2

end Decimal
