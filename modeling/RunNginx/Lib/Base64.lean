import RunNginx.Lib.ByteString

/-!
# Base64

Three bytes are four digits of six bits; a last group of one or two bytes is padded.

`digitsOf_encode` reads the digits of an encoded text back.
-/

namespace Base64

open ByteString

def alphabet : Bytes :=
  ascii "ABCDEFGHIJKLMNOPQRSTUVWXYZabcdefghijklmnopqrstuvwxyz0123456789+/"

/-- `=` -/
def pad : UInt8 := 61

/-- The bits of a text in groups of six, the last one filled with zeros. -/
def sextets : Bytes → List Nat
  | a :: b :: c :: rest =>
      a.toNat / 4 :: (a.toNat % 4 * 16 + b.toNat / 16) :: (b.toNat % 16 * 4 + c.toNat / 64) ::
        c.toNat % 64 :: sextets rest
  | [a, b] => [a.toNat / 4, a.toNat % 4 * 16 + b.toNat / 16, b.toNat % 16 * 4]
  | [a] => [a.toNat / 4, a.toNat % 4 * 16]
  | [] => []

def digit (n : Nat) : UInt8 :=
  alphabet.getD n pad

/-- The digits, padded to groups of four. -/
def encode (s : Bytes) : Bytes :=
  (sextets s).map digit ++ List.replicate ((3 - s.length % 3) % 3) pad

theorem sextets_lt
    (s : Bytes) :
    ∀ n ∈ sextets s, n < 64 := by
  induction s using sextets.induct with
  | case1 a b c rest ih =>
      have ha := a.toNat_lt
      have hb := b.toNat_lt
      have hc := c.toNat_lt
      intro n hn
      simp only [sextets, List.mem_cons] at hn
      rcases hn with rfl | rfl | rfl | rfl | hn
      · omega
      · omega
      · omega
      · omega
      · exact ih n hn
  | case2 a b =>
      have ha := a.toNat_lt
      have hb := b.toNat_lt
      intro n hn
      simp only [sextets, List.mem_cons, List.not_mem_nil, or_false] at hn
      omega
  | case3 a =>
      have ha := a.toNat_lt
      intro n hn
      simp only [sextets, List.mem_cons, List.not_mem_nil, or_false] at hn
      omega
  | case4 =>
      intro n hn
      cases hn

/-- A digit stands at its own place in the alphabet, and is not the padding. -/
theorem digit_spec
    {n : Nat} (h : n < 64) :
    alphabet.idxOf? (digit n) = some n ∧ digit n ∈ alphabet ∧ digit n ≠ pad := by
  have hall : ∀ m : Fin 64, alphabet.idxOf? (digit m) = some m.val ∧ digit m ∈ alphabet ∧
      digit m ≠ pad := by
    decide +kernel
  exact hall ⟨n, h⟩

theorem mem_encode
    {s : Bytes} {b : UInt8} (h : b ∈ encode s) :
    b ∈ alphabet ∨ b = pad := by
  rcases List.mem_append.mp h with hdigit | hpad
  · obtain ⟨n, hn, rfl⟩ := List.mem_map.mp hdigit
    exact Or.inl ((digit_spec (sextets_lt s n hn)).2.1)
  · exact Or.inr (List.eq_of_mem_replicate hpad)

/-- The digits of an encoded text, without the padding, are its sextets. -/
theorem digitsOf_encode
    (s : Bytes) :
    ((encode s).filter fun b => b != pad).filterMap (fun b => alphabet.idxOf? b) = sextets s := by
  have hdigits : ((sextets s).map digit).filter (fun b => b != pad) = (sextets s).map digit := by
    refine List.filter_eq_self.mpr fun b hb => ?_
    obtain ⟨n, hn, rfl⟩ := List.mem_map.mp hb
    exact bne_iff_ne.mpr (digit_spec (sextets_lt s n hn)).2.2
  have hpadding : ∀ k, (List.replicate k pad).filter (fun b => b != pad) = [] := by
    intro k
    refine List.filter_eq_nil_iff.mpr fun b hb => ?_
    rw [List.eq_of_mem_replicate hb]
    decide
  have hmap : ∀ l : List Nat, (∀ n ∈ l, n < 64) →
      (l.map digit).filterMap (fun b => alphabet.idxOf? b) = l := by
    intro l hl
    induction l with
    | nil => rfl
    | cons n l ih =>
        obtain ⟨hn, hrest⟩ := List.forall_mem_cons.mp hl
        rw [List.map_cons, List.filterMap_cons, (digit_spec hn).1, ih hrest]
  rw [encode, List.filter_append, hdigits, hpadding, List.append_nil, hmap _ (sextets_lt s)]

end Base64
