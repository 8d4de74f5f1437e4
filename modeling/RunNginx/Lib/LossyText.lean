import RunNginx.Lib.Utf8

/-!
# Lines in decoded text

Lossy decoding changes bytes from 128 on only, so ASCII separators stand in the decoded
text as they stood before: `SameAscii` relates two texts with the same ASCII bytes between
blocks of others, and `split` cuts both at the same ASCII byte.
-/

namespace LossyText

open ByteString Utf8

section Lines

/-- A line end is a CR with a LF behind it. -/
theorem crlf_prefix_drop_iff
    (s : Bytes) (i : Nat) :
    crlf <+: s.drop i ↔ s[i]? = some 13 ∧ s[i + 1]? = some 10 := by
  have hhead : ∀ l : Bytes, crlf <+: l ↔ l[0]? = some 13 ∧ l[1]? = some 10 := by
    rintro (_ | ⟨b, _ | ⟨c, l⟩⟩)
    · simp [crlf]
    · simp [crlf]
    · simp [crlf, eq_comm]
  rw [hhead, List.getElem?_drop, List.getElem?_drop]
  rfl

/-- A byte of no line end keeps lines apart. -/
theorem crlfFree_append_cons_iff
    {b : UInt8} (hcr : b ≠ 13) (hlf : b ≠ 10) (s t : Bytes) :
    CrlfFree (s ++ b :: t) ↔ CrlfFree s ∧ CrlfFree t := by
  unfold CrlfFree
  simp only [crlf_prefix_drop_iff]
  have hright : ∀ i, (s ++ b :: t)[s.length + 1 + i]? = t[i]? := by
    intro i
    rw [List.getElem?_append_right (by omega), show s.length + 1 + i - s.length = i + 1 by omega,
      List.getElem?_cons_succ]
  have hleft : ∀ i < s.length, (s ++ b :: t)[i]? = s[i]? := fun i hi =>
    List.getElem?_append_left hi
  have hmid : (s ++ b :: t)[s.length]? = some b := by simp
  constructor
  · intro h
    constructor
    · rintro i ⟨hi, hi'⟩
      obtain ⟨hlt, -⟩ := List.getElem?_eq_some_iff.mp hi'
      exact h i ⟨by rw [hleft i (by omega)]; exact hi, by rw [hleft _ hlt]; exact hi'⟩
    · rintro i ⟨hi, hi'⟩
      exact h (s.length + 1 + i) ⟨by rw [hright]; exact hi,
        by rw [Nat.add_assoc, hright]; exact hi'⟩
  · rintro ⟨hs, ht⟩ i ⟨hi, hi'⟩
    rcases Nat.lt_trichotomy i s.length with hlt | heq | hgt
    · rw [hleft i hlt] at hi
      rcases Nat.lt_or_ge (i + 1) s.length with hlt' | hge
      · rw [hleft _ hlt'] at hi'
        exact hs i ⟨hi, hi'⟩
      · rw [show i + 1 = s.length by omega, hmid] at hi'
        exact hlf (Option.some.inj hi')
    · rw [heq, hmid] at hi
      exact hcr (Option.some.inj hi)
    · obtain ⟨j, rfl⟩ := Nat.exists_eq_add_of_le (Nat.succ_le_of_lt hgt)
      rw [Nat.succ_eq_add_one, hright] at hi
      rw [Nat.succ_eq_add_one, Nat.add_assoc, hright] at hi'
      exact ht j ⟨hi, hi'⟩

/-- What stands in a line is a line. -/
theorem crlfFree_of_infix
    {s t : Bytes} (hpart : s <:+: t) (h : CrlfFree t) :
    CrlfFree s := by
  obtain ⟨u, v, rfl⟩ := hpart
  rintro i ⟨w, hw⟩
  have hle : i ≤ s.length := by
    by_contra hgt
    rw [List.drop_eq_nil_of_le (by omega)] at hw
    simp [crlf] at hw
  refine h (u.length + i) ⟨w ++ v, ?_⟩
  rw [List.append_assoc, ← List.drop_drop, List.drop_left, List.drop_append_of_le_length hle, ← hw,
    List.append_assoc]

theorem trimBy_infix
    (p : UInt8 → Bool) (s : Bytes) :
    trimBy p s <:+: s := by
  have hfront : s.dropWhile p <:+ s := List.dropWhile_suffix p
  have hback : ((s.dropWhile p).reverse.dropWhile p).reverse <+: s.dropWhile p := by
    rw [← List.reverse_suffix, List.reverse_reverse]
    exact List.dropWhile_suffix p
  exact hback.isInfix.trans hfront.isInfix

theorem head?_dropWhile
    {p : UInt8 → Bool} {s : Bytes} {b : UInt8} (h : (s.dropWhile p).head? = some b) :
    p b = false := by
  induction s with
  | nil => simp at h
  | cons c s ih =>
      rw [List.dropWhile_cons] at h
      split at h
      · exact ih h
      · rename_i hc
        obtain rfl := Option.some.inj h
        exact Bool.eq_false_iff.mpr hc

theorem head?_trimBy
    {p : UInt8 → Bool} {s : Bytes} {b : UInt8} (h : (trimBy p s).head? = some b) :
    p b = false := by
  have hback : trimBy p s <+: s.dropWhile p := by
    rw [← List.reverse_suffix, trimBy, List.reverse_reverse]
    exact List.dropWhile_suffix p
  obtain ⟨t, ht⟩ := hback
  apply head?_dropWhile (s := s)
  rw [← ht, List.head?_append, h]
  rfl

theorem getLast?_trimBy
    {p : UInt8 → Bool} {s : Bytes} {b : UInt8} (h : (trimBy p s).getLast? = some b) :
    p b = false := by
  rw [trimBy, List.getLast?_reverse] at h
  exact head?_dropWhile h

/-- A text whose ends stay is not trimmed. -/
theorem trimBy_eq_self
    {p : UInt8 → Bool} {s : Bytes} (hhead : ∀ b, s.head? = some b → p b = false)
    (hlast : ∀ b, s.getLast? = some b → p b = false) :
    trimBy p s = s := by
  have h := trimBy_pad p [] s [] nofun nofun hhead hlast
  rwa [List.nil_append, List.append_nil] at h

end Lines

section SameAscii

/-- The same ASCII bytes, with blocks of other bytes between them. -/
inductive SameAscii : Bytes → Bytes → Prop
  | nil : SameAscii [] []
  | ascii
      (b : UInt8) {s t : Bytes}
      (rest : SameAscii s t) :
      SameAscii (b :: s) (b :: t)
  | other
      {u v s t : Bytes}
      (hu : u ≠ []) (hv : v ≠ [])
      (hv' : ∀ b ∈ v, 0x80 ≤ b)
      (rest : SameAscii s t) :
      SameAscii (u ++ s) (v ++ t)

theorem SameAscii.nil_right
    {s t : Bytes} (h : SameAscii s t) (ht : t = []) :
    s = [] := by
  cases h with
  | nil => rfl
  | ascii b rest => cases ht
  | other hu hv hv' rest => exact absurd (List.append_eq_nil_iff.mp ht).1 hv

/-- Both texts are cut at the same ASCII byte. -/
theorem SameAscii.split
    {s t A B : Bytes} {b : UInt8} (h : SameAscii s t) (hb : b < 0x80) (ht : t = A ++ b :: B) :
    ∃ u v, s = u ++ b :: v ∧ SameAscii u A ∧ SameAscii v B := by
  induction h generalizing A with
  | nil => simp at ht
  | @ascii c s t rest ih =>
      cases A with
      | nil =>
          obtain ⟨rfl, rfl⟩ := List.cons.inj ht
          exact ⟨[], s, rfl, .nil, rest⟩
      | cons a A =>
          obtain ⟨rfl, ht'⟩ := List.cons.inj ht
          obtain ⟨u, v, rfl, hu, hv⟩ := ih ht'
          exact ⟨c :: u, v, rfl, .ascii c hu, hv⟩
  | @other x y s t hx hy hy' rest ih =>
      have hbeyond : ∃ A', A = y ++ A' ∧ t = A' ++ b :: B := by
        rcases List.append_eq_append_iff.mp ht with ⟨w, hw, hw'⟩ | ⟨w, hw, hw'⟩
        · exact ⟨w, hw, hw'⟩
        · cases w with
          | nil =>
              rw [List.append_nil] at hw
              exact ⟨[], by rw [hw, List.append_nil], hw'.symm⟩
          | cons c w =>
              -- the ASCII byte would lie in the block
              obtain ⟨rfl, -⟩ := List.cons.inj hw'
              have hge := hy' b (by rw [hw]; simp)
              rw [UInt8.lt_iff_toNat_lt] at hb
              rw [UInt8.le_iff_toNat_le] at hge
              omega
      obtain ⟨A', rfl, ht'⟩ := hbeyond
      obtain ⟨u, v, rfl, hu, hv⟩ := ih ht'
      exact ⟨x ++ u, v, by rw [List.append_assoc], .other hx hy hy' hu, hv⟩

theorem SameAscii.mem
    {s t : Bytes} {b : UInt8} (h : SameAscii s t) (hb : b < 0x80) (hmem : b ∈ t) :
    b ∈ s := by
  obtain ⟨A, B, rfl⟩ := List.append_of_mem hmem
  obtain ⟨u, v, rfl, -, -⟩ := h.split hb rfl
  simp

theorem SameAscii.head?
    {s t : Bytes} {b : UInt8} (h : SameAscii s t) (hb : b < 0x80) (hhead : t.head? = some b) :
    s.head? = some b := by
  obtain ⟨B, rfl⟩ := List.head?_eq_some_iff.mp hhead
  obtain ⟨u, v, rfl, hu, -⟩ := h.split hb (List.nil_append _).symm
  rw [hu.nil_right rfl]
  rfl

theorem SameAscii.getLast?
    {s t : Bytes} {b : UInt8} (h : SameAscii s t) (hb : b < 0x80)
    (hlast : t.getLast? = some b) :
    s.getLast? = some b := by
  obtain ⟨A, rfl⟩ := List.getLast?_eq_some_iff.mp hlast
  obtain ⟨u, v, rfl, -, hv⟩ := h.split hb rfl
  rw [hv.nil_right rfl, List.getLast?_concat]

theorem SameAscii.crlfFree
    {s t : Bytes} (h : SameAscii s t) (hs : CrlfFree s) :
    CrlfFree t := by
  rintro i ⟨w, hw⟩
  have ht : t = t.take i ++ 13 :: (10 :: w) := by
    rw [show (13 :: 10 :: w : Bytes) = crlf ++ w from rfl, hw, List.take_append_drop]
  obtain ⟨u, v, rfl, -, hv⟩ := h.split (by decide) ht
  obtain ⟨x, y, rfl, hx, -⟩ := hv.split (b := 10) (by decide) (List.nil_append _).symm
  rw [hx.nil_right rfl] at hs
  exact hs u.length ⟨y, by rw [List.drop_left]; rfl⟩

end SameAscii

section Lossy

theorem headChunk_pos
    (lead : UInt8) (s : Bytes) :
    0 < (headChunk lead s).2 := by
  unfold headChunk
  repeat' split
  all_goals exact Nat.succ_pos _

theorem replacement_ge :
    ∀ b ∈ replacement, 0x80 ≤ b := by
  decide +kernel

/-- Decoding keeps the ASCII bytes. -/
theorem sameAscii_lossyLoop
    {fuel : Nat} {s : Bytes} (hfuel : s.length ≤ fuel) :
    SameAscii s (lossyLoop fuel s) := by
  induction fuel generalizing s with
  | zero =>
      obtain rfl : s = [] := List.eq_nil_of_length_eq_zero (Nat.le_zero.mp hfuel)
      exact .nil
  | succ fuel ih =>
      cases s with
      | nil => exact .nil
      | cons lead s =>
          rw [List.length_cons] at hfuel
          have hpos := headChunk_pos lead s
          rw [lossyLoop]
          split
          · rename_i n hhead
            rw [hhead] at hpos
            obtain ⟨tail, rest, rfl, rfl, hchar, hge⟩ := isChar_of_headChunk hhead
            rw [List.length_append] at hfuel
            rw [List.drop_succ_cons, List.drop_left, List.take_succ_cons, List.take_left]
            have hrest := ih (s := rest) (by omega)
            by_cases hlead : lead < 0x80
            · -- a lead byte below 128 stands alone
              have htail : tail = [] := by
                unfold IsChar headChunk at hchar
                rw [if_pos hlead] at hchar
                have hlen := (Prod.mk.inj hchar).2
                exact List.eq_nil_of_length_eq_zero (by omega)
              rw [htail]
              exact .ascii lead hrest
            · have hblock : ∀ b ∈ lead :: tail, 0x80 ≤ b := by
                intro b hb
                rcases List.mem_cons.mp hb with rfl | hb
                · rw [UInt8.lt_iff_toNat_lt] at hlead
                  rw [UInt8.le_iff_toNat_le]
                  omega
                · exact hge b hb
              exact .other (List.cons_ne_nil lead tail) (List.cons_ne_nil lead tail) hblock hrest
          · rename_i n hhead
            rw [hhead] at hpos
            have hrest := ih (s := (lead :: s).drop n) (by
              rw [List.length_drop, List.length_cons]
              dsimp only at hpos
              omega)
            have hne : (lead :: s).take n ≠ [] := by
              intro hnil
              have hlen := congrArg List.length hnil
              rw [List.length_take, List.length_cons, List.length_nil] at hlen
              dsimp only at hpos
              omega
            have h := SameAscii.other hne (List.cons_ne_nil _ _) replacement_ge hrest
            rwa [List.take_append_drop] at h

theorem sameAscii_lossy
    (s : Bytes) :
    SameAscii s (fromUtf8Lossy s) :=
  sameAscii_lossyLoop (Nat.le_refl _)

theorem crlfFree_lossy
    {s : Bytes} (h : CrlfFree s) :
    CrlfFree (fromUtf8Lossy s) :=
  (sameAscii_lossy s).crlfFree h

theorem mem_of_mem_lossy
    {s : Bytes} {b : UInt8} (hb : b < 0x80) (h : b ∈ fromUtf8Lossy s) :
    b ∈ s :=
  (sameAscii_lossy s).mem hb h

/-- Nothing is left to trim in what was trimmed before it was decoded. -/
theorem trimBy_lossy
    {p : UInt8 → Bool} (hp : ∀ b, p b = true → b < 0x80) (s : Bytes) :
    trimBy p (fromUtf8Lossy (trimBy p s)) = fromUtf8Lossy (trimBy p s) := by
  have hsame := sameAscii_lossy (trimBy p s)
  apply trimBy_eq_self
  · intro b hb
    by_contra hblank
    rw [Bool.not_eq_false] at hblank
    have hhead := head?_trimBy (hsame.head? (hp b hblank) hb)
    rw [hhead] at hblank
    cases hblank
  · intro b hb
    by_contra hblank
    rw [Bool.not_eq_false] at hblank
    have hlast := getLast?_trimBy (hsame.getLast? (hp b hblank) hb)
    rw [hlast] at hblank
    cases hblank

end Lossy

end LossyText
