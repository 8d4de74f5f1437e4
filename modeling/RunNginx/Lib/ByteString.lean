import Mathlib.Data.List.Infix
import Mathlib.Data.List.TakeDrop

/-!
# Byte strings

Text as the list of its bytes, and the searching, cutting and comparing that
line-oriented protocols do on it.  A UTF-8 string is its byte list; every
operation here looks at ASCII bytes only, so it agrees with the operation on
characters.

The central facts are about the first occurrence of a pattern: `find_eq_some_iff`
characterises it, `find_append` says that bytes that arrive later do not move it,
and `find_crlf_append` computes it for a CRLF-free line.
-/

abbrev Bytes := List UInt8

namespace ByteString

/-- The bytes of an ASCII literal. -/
def ascii (s : String) : Bytes :=
  s.toList.map fun c => UInt8.ofNat c.toNat

/-- Index of the first occurrence of `pat` in a byte string. -/
def find (pat : Bytes) : Bytes → Option Nat
  | [] => if pat.isEmpty then some 0 else none
  | b :: s =>
      if pat.isPrefixOf (b :: s) then some 0
      else (find pat s).map (· + 1)

/-- Does `pat` occur in `s`? -/
def contains (pat s : Bytes) : Bool :=
  (find pat s).isSome

/-- Index of the last occurrence of a byte. -/
def rfindByte (c : UInt8) : Bytes → Option Nat
  | [] => none
  | b :: s =>
      match rfindByte c s with
      | some i => some (i + 1)
      | none => if b = c then some 0 else none

/-- ASCII lower case of one byte. -/
def toLowerByte (b : UInt8) : UInt8 :=
  if 65 ≤ b ∧ b ≤ 90 then b + 32 else b

/-- ASCII lower case. -/
def toAsciiLower (s : Bytes) : Bytes :=
  s.map toLowerByte

/-- Equality up to ASCII case. -/
def eqIgnoreCase (s t : Bytes) : Bool :=
  toAsciiLower s == toAsciiLower t

/-- A fact about all bytes is one about 256 numbers. -/
theorem forall_byte
    {P : UInt8 → Prop}
    (h : ∀ n : Fin 256, P (UInt8.ofFin n)) (b : UInt8) :
    P b :=
  h b.toFin

theorem toLowerByte_idem (b : UInt8) : toLowerByte (toLowerByte b) = toLowerByte b :=
  forall_byte (P := fun b => toLowerByte (toLowerByte b) = toLowerByte b) (by decide +kernel) b

/-- Texts that differ in their case only have the same other bytes. -/
theorem not_mem_of_eqIgnoreCase
    {b : UInt8} {s t : Bytes}
    (hb : toLowerByte b = b) (ht : b ∉ toAsciiLower t) (h : eqIgnoreCase s t = true) :
    b ∉ s := by
  have hlower : toAsciiLower s = toAsciiLower t := beq_iff_eq.mp h
  intro hmem
  have hmem' : b ∈ toAsciiLower s := List.mem_map.mpr ⟨b, hmem, hb⟩
  exact ht (hlower ▸ hmem')

/-- Drop the bytes satisfying `p` at both ends. -/
def trimBy (p : UInt8 → Bool) (s : Bytes) : Bytes :=
  ((s.dropWhile p).reverse.dropWhile p).reverse

/-- Remove a literal prefix. -/
def stripPrefix (p s : Bytes) : Option Bytes :=
  if p.isPrefixOf s then some (s.drop p.length) else none

theorem stripPrefix_eq_some_iff
    {p s t : Bytes} :
    stripPrefix p s = some t ↔ s = p ++ t := by
  unfold stripPrefix
  constructor
  · intro h
    split at h
    · rename_i hp
      rw [← Option.some.inj h]
      exact List.prefix_iff_eq_append.mp (List.isPrefixOf_iff_prefix.mp hp) |>.symm
    · cases h
  · rintro rfl
    rw [if_pos (List.isPrefixOf_iff_prefix.mpr (List.prefix_append p t)), List.drop_left]

/-- Remove a literal suffix. -/
def stripSuffix (p s : Bytes) : Option Bytes :=
  if p.isSuffixOf s then some (s.take (s.length - p.length)) else none

theorem stripSuffix_eq_some_iff
    {p s t : Bytes} :
    stripSuffix p s = some t ↔ s = t ++ p := by
  unfold stripSuffix
  constructor
  · intro h
    split at h
    · rename_i hp
      obtain ⟨u, rfl⟩ := List.isSuffixOf_iff_suffix.mp hp
      rw [← Option.some.inj h]
      simp
    · cases h
  · rintro rfl
    rw [if_pos (List.isSuffixOf_iff_suffix.mpr (List.suffix_append t p))]
    simp

/-- The pieces between the occurrences of a byte. -/
def splitByte (c : UInt8) : Bytes → List Bytes
  | [] => [[]]
  | b :: s =>
      if b = c then [] :: splitByte c s
      else match splitByte c s with
      | [] => [[b]]
      | piece :: pieces => (b :: piece) :: pieces

/-- Replace the occurrences of `pat`, from left to right; `skip` bytes are passed over. -/
def replaceFrom (pat by_ : Bytes) : Nat → Bytes → Bytes
  | _, [] => []
  | skip + 1, _ :: s => replaceFrom pat by_ skip s
  | 0, b :: s =>
      if pat.isPrefixOf (b :: s) then by_ ++ replaceFrom pat by_ (pat.length - 1) s
      else b :: replaceFrom pat by_ 0 s

/-- Replace every occurrence of a nonempty pattern. -/
def replace (pat by_ s : Bytes) : Bytes :=
  replaceFrom pat by_ 0 s

section Replace

/-- What a replacement yields comes from the text or from the new part. -/
theorem mem_replace
    {pat by_ s : Bytes} {b : UInt8}
    (h : b ∈ replace pat by_ s) :
    b ∈ by_ ∨ b ∈ s := by
  have hfrom : ∀ (s : Bytes) (skip : Nat), b ∈ replaceFrom pat by_ skip s → b ∈ by_ ∨ b ∈ s := by
    intro s
    induction s with
    | nil =>
        intro skip h
        cases skip <;> simp [replaceFrom] at h
    | cons c s ih =>
        intro skip h
        cases skip with
        | zero =>
            rw [replaceFrom] at h
            split at h
            · rcases List.mem_append.mp h with h | h
              · exact Or.inl h
              · exact (ih _ h).imp_right (List.mem_cons_of_mem c)
            · rcases List.mem_cons.mp h with rfl | h
              · exact Or.inr (by simp)
              · exact (ih _ h).imp_right (List.mem_cons_of_mem c)
        | succ skip =>
            exact (ih skip h).imp_right (List.mem_cons_of_mem c)
  exact hfrom s 0 h

end Replace

section Literals

theorem ascii_append
    (s t : String) :
    ascii (s ++ t) = ascii s ++ ascii t := by
  unfold ascii
  rw [String.toList_append, List.map_append]

/-- A literal is the string of its characters; this way it is evaluated in one pass. -/
theorem ascii_ofList
    (cs : List Char) :
    ascii (String.ofList cs) = cs.map fun c => UInt8.ofNat c.toNat := by
  rw [ascii, String.toList_ofList]

end Literals

section Find

/-- The first occurrence is an occurrence with no earlier one. -/
theorem find_eq_some_iff
    {pat : Bytes}
    (hpat : pat ≠ [])
    (s : Bytes) (i : Nat) :
    find pat s = some i ↔
      pat <+: s.drop i ∧ ∀ j, j < i → ¬ pat <+: s.drop j := by
  induction s generalizing i with
  | nil =>
      simp [find, hpat]
  | cons b s ih =>
      by_cases hp : pat <+: b :: s
      · have hfind : find pat (b :: s) = some 0 := by
          simp [find, List.isPrefixOf_iff_prefix.mpr hp]
        rw [hfind]
        constructor
        · intro h
          obtain rfl := Option.some.inj h
          simpa using hp
        · rintro ⟨_, hmin⟩
          cases i with
          | zero => rfl
          | succ i => exact absurd hp (hmin 0 (by omega))
      · have hfind : find pat (b :: s) = (find pat s).map (· + 1) := by
          have : pat.isPrefixOf (b :: s) = false := by
            simpa [← List.isPrefixOf_iff_prefix] using hp
          simp [find, this]
        rw [hfind]
        cases i with
        | zero =>
            simp [hp]
        | succ i =>
            have hmap :
                (find pat s).map (· + 1) = some (i + 1) ↔
                  find pat s = some i := by
              simp
            rw [hmap, ih i]
            constructor
            · rintro ⟨hocc, hmin⟩
              refine ⟨by simpa using hocc, ?_⟩
              intro j hj
              cases j with
              | zero => simpa using hp
              | succ j => simpa using hmin j (by omega)
            · rintro ⟨hocc, hmin⟩
              refine ⟨by simpa using hocc, ?_⟩
              intro j hj
              simpa using hmin (j + 1) (by omega)

/-- No first occurrence means no occurrence at all. -/
theorem find_eq_none_iff
    {pat : Bytes}
    (hpat : pat ≠ [])
    (s : Bytes) :
    find pat s = none ↔ ∀ i, ¬ pat <+: s.drop i := by
  induction s with
  | nil =>
      simp [find, hpat]
  | cons b s ih =>
      by_cases hp : pat <+: b :: s
      · have hfind : find pat (b :: s) = some 0 := by
          simp [find, List.isPrefixOf_iff_prefix.mpr hp]
        rw [hfind]
        constructor
        · intro h
          cases h
        · intro h
          exact absurd hp (h 0)
      · have : pat.isPrefixOf (b :: s) = false := by
          simpa [← List.isPrefixOf_iff_prefix] using hp
        rw [find, this]
        simp only [Bool.false_eq_true, if_false, Option.map_eq_none_iff, ih]
        constructor
        · intro h i
          cases i with
          | zero => simpa using hp
          | succ i => simpa using h i
        · intro h i
          simpa using h (i + 1)

/-- A pattern occurs exactly if it is a part of the string. -/
theorem contains_iff_infix
    {pat : Bytes}
    (hpat : pat ≠ []) (s : Bytes) :
    contains pat s = true ↔ pat <:+: s := by
  unfold contains
  rw [Option.isSome_iff_exists]
  constructor
  · rintro ⟨i, hi⟩
    obtain ⟨t, ht⟩ := ((find_eq_some_iff hpat s i).mp hi).1
    exact ⟨s.take i, t, by rw [List.append_assoc, ht, List.take_append_drop]⟩
  · rintro ⟨u, v, rfl⟩
    by_contra hnone
    have hno := (find_eq_none_iff hpat _).mp (Option.eq_none_iff_forall_ne_some.mpr
      fun i hi => hnone ⟨i, hi⟩)
    refine hno u.length ⟨v, ?_⟩
    rw [List.append_assoc, List.drop_left]

/-- A found pattern splits the string around it. -/
theorem find_split
    {pat s : Bytes} {i : Nat}
    (hpat : pat ≠ [])
    (h : find pat s = some i) :
    s = s.take i ++ pat ++ s.drop (i + pat.length) ∧ i ≤ s.length := by
  obtain ⟨⟨t, ht⟩, _⟩ := (find_eq_some_iff hpat s i).mp h
  have hdrop : s.drop (i + pat.length) = t := by
    rw [← List.drop_drop, ← ht]
    simp
  have hle : i ≤ s.length := by
    by_contra hlt
    have : s.drop i = [] := List.drop_eq_nil_of_le (by omega)
    rw [this] at ht
    exact hpat (by simp_all)
  refine ⟨?_, hle⟩
  rw [hdrop, List.append_assoc, ht, List.take_append_drop]

/-- A pattern is not found in front of where its first byte is. -/
theorem find_append_of_not_mem
    {c : UInt8} {u : Bytes} (h : c ∉ u) (pat v : Bytes) :
    find (c :: pat) (u ++ v) = (find (c :: pat) v).map (u.length + ·) := by
  induction u with
  | nil =>
      rw [List.nil_append, List.length_nil]
      simp
  | cons b u ih =>
      have hb : (c :: pat).isPrefixOf (b :: (u ++ v)) = false := by
        rw [List.isPrefixOf_cons_cons, Bool.and_eq_false_iff]
        exact .inl (beq_eq_false_iff_ne.mpr fun heq => h (heq ▸ List.mem_cons_self))
      rw [List.cons_append, find, hb, ih fun hu => h (List.mem_cons_of_mem b hu)]
      simp only [Bool.false_eq_true, if_false, Option.map_map, List.length_cons]
      congr 1
      funext i
      simp only [Function.comp_apply]
      omega

theorem find_self_append
    {pat : Bytes} (hpat : pat ≠ []) (v : Bytes) :
    find pat (pat ++ v) = some 0 :=
  (find_eq_some_iff hpat _ _).mpr ⟨List.prefix_append _ _, nofun⟩

end Find

section FindByte

/-- The first occurrence of a byte splits the string at a byte-free prefix. -/
theorem find_byte_split
    {c : UInt8} {s : Bytes} {i : Nat}
    (h : find [c] s = some i) :
    s = s.take i ++ c :: s.drop (i + 1) ∧
      i ≤ s.length ∧ c ∉ s.take i := by
  obtain ⟨hsplit, hle⟩ := find_split (by simp) h
  obtain ⟨_, hmin⟩ := (find_eq_some_iff (by simp) s i).mp h
  refine ⟨by simpa using hsplit, hle, ?_⟩
  intro hmem
  obtain ⟨j, hj, hget⟩ := List.getElem_of_mem hmem
  rw [List.length_take] at hj
  refine hmin j (by omega) ⟨s.drop (j + 1), ?_⟩
  rw [List.getElem_take] at hget
  rw [← hget, List.singleton_append, List.getElem_cons_drop]

/-- A byte behind a prefix without it is found there. -/
theorem find_byte_append
    {c : UInt8} {u : Bytes}
    (h : c ∉ u) (v : Bytes) :
    find [c] (u ++ c :: v) = some u.length := by
  rw [find_eq_some_iff (by simp)]
  constructor
  · simp
  · rintro j hj ⟨t, ht⟩
    rw [List.drop_append_of_le_length (by omega)] at ht
    apply h
    have hne : u.drop j ≠ [] := by
      simp
      omega
    obtain ⟨b, r, hbr⟩ := List.exists_cons_of_ne_nil hne
    rw [hbr] at ht
    simp at ht
    have : b ∈ u.drop j := by
      rw [hbr]
      simp
    rw [ht.1]
    exact List.mem_of_mem_drop this

theorem rfindByte_eq_none_iff
    (c : UInt8) (s : Bytes) :
    rfindByte c s = none ↔ c ∉ s := by
  induction s with
  | nil =>
      simp [rfindByte]
  | cons b s ih =>
      cases hs : rfindByte c s with
      | none =>
          have hfree := ih.mp hs
          by_cases hb : b = c
          · simp [rfindByte, hs, hb]
          · simp [rfindByte, hs, hb, hfree, Ne.symm hb]
      | some i =>
          have hmem : c ∈ s := by
            by_contra hfree
            rw [ih.mpr hfree] at hs
            cases hs
          simp [rfindByte, hs, hmem]

/-- The last occurrence of a byte splits the string at a byte-free suffix. -/
theorem rfindByte_split
    {c : UInt8} {s : Bytes} {i : Nat}
    (h : rfindByte c s = some i) :
    s = s.take i ++ c :: s.drop (i + 1) ∧
      i ≤ s.length ∧ c ∉ s.drop (i + 1) := by
  induction s generalizing i with
  | nil =>
      simp [rfindByte] at h
  | cons b s ih =>
      cases hs : rfindByte c s with
      | some j =>
          simp only [rfindByte, hs, Option.some.injEq] at h
          subst h
          obtain ⟨hsplit, hle, hfree⟩ := ih hs
          refine ⟨?_, by simp; omega, by simpa using hfree⟩
          simpa using hsplit
      | none =>
          simp only [rfindByte, hs] at h
          split at h
          · rename_i hb
            obtain rfl := Option.some.inj h
            simp [hb, (rfindByte_eq_none_iff c s).mp hs]
          · cases h

/-- A byte in front of a suffix without it is found there. -/
theorem rfindByte_append
    {c : UInt8} {v : Bytes}
    (h : c ∉ v) (u : Bytes) :
    rfindByte c (u ++ c :: v) = some u.length := by
  induction u with
  | nil =>
      simp [rfindByte, (rfindByte_eq_none_iff c v).mpr h]
  | cons b u ih =>
      simp [rfindByte, ih]

/-- A byte-free prefix is the first piece. -/
theorem splitByte_append
    {c : UInt8} {u : Bytes}
    (h : c ∉ u) (v : Bytes) :
    splitByte c (u ++ c :: v) = u :: splitByte c v := by
  induction u with
  | nil =>
      simp [splitByte]
  | cons b u ih =>
      simp only [List.mem_cons, not_or] at h
      rw [List.cons_append, splitByte, if_neg (Ne.symm h.1), ih h.2]

theorem splitByte_of_not_mem
    {c : UInt8} {u : Bytes}
    (h : c ∉ u) :
    splitByte c u = [u] := by
  induction u with
  | nil =>
      rfl
  | cons b u ih =>
      simp only [List.mem_cons, not_or] at h
      rw [splitByte, if_neg (Ne.symm h.1), ih h.2]

end FindByte

section Crlf

/-- The two bytes that end a line. -/
def crlf : Bytes := [13, 10]

/-- A line holds no line end. -/
def CrlfFree (s : Bytes) : Prop :=
  ∀ i, ¬ crlf <+: s.drop i

theorem crlf_ne_nil : crlf ≠ [] := by
  simp [crlf]

theorem crlfFree_iff_find
    (s : Bytes) :
    CrlfFree s ↔ find crlf s = none :=
  (find_eq_none_iff crlf_ne_nil s).symm

instance (s : Bytes) : Decidable (CrlfFree s) :=
  decidable_of_iff _ (crlfFree_iff_find s).symm

theorem CrlfFree.drop
    {s : Bytes}
    (h : CrlfFree s) (n : Nat) :
    CrlfFree (s.drop n) := by
  intro i hi
  rw [List.drop_drop] at hi
  exact h _ hi

/-- A string without line feed holds no line end. -/
theorem crlfFree_of_not_mem
    {s : Bytes}
    (h : (10 : UInt8) ∉ s) :
    CrlfFree s := by
  rintro i ⟨t, ht⟩
  apply h
  have hmem : (10 : UInt8) ∈ s.drop i := by
    rw [← ht]
    simp [crlf]
  exact List.mem_of_mem_drop hmem

/-- The line end written behind a line is the first one. -/
theorem find_crlf_append
    {s : Bytes}
    (h : CrlfFree s) (t : Bytes) :
    find crlf (s ++ crlf ++ t) = some s.length := by
  rw [find_eq_some_iff crlf_ne_nil]
  constructor
  · simp
  · intro j hj hpre
    rw [List.append_assoc, List.drop_append_of_le_length (by omega)] at hpre
    -- the two bytes of `crlf` lie in `s`, or the second one would be `13`
    obtain ⟨u, hu⟩ := hpre
    match hs : s.drop j with
    | [] =>
        have := congrArg List.length hs
        rw [List.length_drop] at this
        simp at this
        omega
    | [b] =>
        rw [hs] at hu
        simp [crlf] at hu
    | b :: c :: r =>
        rw [hs] at hu
        refine h j ⟨r, ?_⟩
        simp [crlf] at hu ⊢
        rw [hs]
        simp [hu]

/-- What stands before the first line end is a line. -/
theorem crlfFree_take
    {s : Bytes} {i : Nat}
    (h : find crlf s = some i) :
    CrlfFree (s.take i) := by
  intro j hj
  rw [List.drop_take] at hj
  obtain ⟨_, hmin⟩ := (find_eq_some_iff crlf_ne_nil s i).mp h
  have hend := hj.length_le
  rw [List.length_take] at hend
  refine hmin j ?_ (hj.trans (List.take_prefix _ _))
  simp only [crlf, List.length_cons, List.length_nil] at hend
  omega

/-- Two texts whose first lines both end in CRLF have the same first line. -/
theorem crlf_line_unique
    {s s' t t' : Bytes}
    (h : CrlfFree s) (h' : CrlfFree s')
    (heq : s ++ crlf ++ t = s' ++ crlf ++ t') :
    s = s' ∧ t = t' := by
  have hlen : s.length = s'.length := by
    have h₁ := find_crlf_append h t
    have h₂ := find_crlf_append h' t'
    rw [heq, h₂] at h₁
    exact (Option.some.inj h₁).symm
  rw [List.append_assoc, List.append_assoc] at heq
  obtain ⟨hs, ht⟩ := List.append_inj heq hlen
  exact ⟨hs, List.append_cancel_left ht⟩

end Crlf

section Lines

/-- Lines written one after the other, each ended by CRLF. -/
def joinLines (lines : List Bytes) : Bytes :=
  lines.flatMap fun l => l ++ crlf

@[simp] theorem joinLines_nil : joinLines [] = [] := by
  rfl

@[simp] theorem joinLines_cons
    (l : Bytes) (lines : List Bytes) :
    joinLines (l :: lines) = l ++ crlf ++ joinLines lines := by
  simp [joinLines]

end Lines

section TextLines

/-- Split behind every line feed; a text that ends in one has no further line. -/
def splitLines : Bytes → List Bytes
  | [] => []
  | b :: s =>
      if b = 10 then [10] :: splitLines s
      else match splitLines s with
      | [] => [[b]]
      | line :: lines => (b :: line) :: lines

/-- Remove the line end of a line; a carriage return counts only before a line feed. -/
def chomp (line : Bytes) : Bytes :=
  match stripSuffix [10] line with
  | none => line
  | some line => (stripSuffix [13] line).getD line

/-- The lines of a text, ended by LF or CRLF. -/
def lines (s : Bytes) : List Bytes :=
  (splitLines s).map chomp

end TextLines

section Trim

theorem dropWhile_append_of_all
    {p : UInt8 → Bool} {a : Bytes}
    (ha : ∀ b ∈ a, p b = true) (s : Bytes) :
    (a ++ s).dropWhile p = s.dropWhile p := by
  induction a with
  | nil => rfl
  | cons b a ih =>
      simp only [List.cons_append, List.dropWhile_cons, ha b (by simp), if_true]
      exact ih fun c hc => ha c (by simp [hc])

/-- A string whose end bytes stay is what trimming keeps. -/
theorem dropWhile_eq_self
    {p : UInt8 → Bool} {s : Bytes}
    (hs : ∀ b, s.head? = some b → p b = false) :
    s.dropWhile p = s := by
  cases s with
  | nil => rfl
  | cons b s => simp [hs b rfl]

/-- Trimming removes exactly the padding. -/
theorem trimBy_pad
    (p : UInt8 → Bool) (lead v trail : Bytes)
    (hlead : ∀ b ∈ lead, p b = true)
    (htrail : ∀ b ∈ trail, p b = true)
    (hhead : ∀ b, v.head? = some b → p b = false)
    (hlast : ∀ b, v.getLast? = some b → p b = false) :
    trimBy p (lead ++ v ++ trail) = v := by
  have hrev : ∀ b ∈ trail.reverse, p b = true := by
    simpa using htrail
  have hlast' : ∀ b, v.reverse.head? = some b → p b = false := by
    simpa [List.head?_reverse] using hlast
  unfold trimBy
  rw [List.append_assoc, dropWhile_append_of_all hlead]
  by_cases hv : v = []
  · subst hv
    have : trail.dropWhile p = [] := by
      have := dropWhile_append_of_all htrail []
      simpa using this
    simp [this]
  · have hkeep : (v ++ trail).dropWhile p = v ++ trail := by
      apply dropWhile_eq_self
      intro b hb
      rw [List.head?_append_of_ne_nil _ hv] at hb
      exact hhead b hb
    rw [hkeep, List.reverse_append, dropWhile_append_of_all hrev,
      dropWhile_eq_self hlast', List.reverse_reverse]

/-- What is left after trimming has nothing to trim. -/
theorem trimBy_idem
    (p : UInt8 → Bool) (s : Bytes) :
    trimBy p (trimBy p s) = trimBy p s := by
  have hhead : ∀ s : Bytes, (s.dropWhile p).head?.all (fun b => !p b) = true := by
    intro s
    induction s with
    | nil => rfl
    | cons b s ih =>
        by_cases hb : p b = true
        · simpa [hb] using ih
        · simp [hb]
  have hlast := hhead ((s.dropWhile p).reverse)
  have hself : (trimBy p s).dropWhile p = trimBy p s := by
    apply dropWhile_eq_self
    intro b hb
    -- the first byte that stays is the first byte before the end was trimmed
    have hfirst : (s.dropWhile p).head? = some b := by
      obtain ⟨u, hu⟩ : (s.dropWhile p).reverse.dropWhile p <:+ (s.dropWhile p).reverse :=
        List.dropWhile_suffix p
      have hu' : s.dropWhile p = trimBy p s ++ u.reverse := by
        rw [← List.reverse_reverse (s.dropWhile p), ← hu, List.reverse_append]
        rfl
      rw [hu', List.head?_append, hb]
      rfl
    have := hhead s
    rw [hfirst] at this
    simpa using this
  have hrev : (trimBy p s).reverse.dropWhile p = (trimBy p s).reverse := by
    apply dropWhile_eq_self
    intro b hb
    rw [trimBy, List.reverse_reverse] at hb
    rw [hb] at hlast
    simpa using hlast
  rw [trimBy, hself, hrev, List.reverse_reverse]

end Trim

end ByteString
