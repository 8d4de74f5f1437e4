import RunNginx.Lib.ByteString

/-!
# Replacing a pattern

What the replacement of all occurrences of a pattern does, read along the text: the pattern
at the front is replaced, and any other byte stays (`replace_rec`).  Where no occurrence
reaches over the border of two texts (`Apart`), they are replaced one by one.
-/

namespace ByteString

section Replace

variable {pat new s t : Bytes} {c : UInt8}

theorem replaceFrom_append
    (pat new u t : Bytes) :
    replaceFrom pat new u.length (u ++ t) = replace pat new t := by
  induction u with
  | nil => rfl
  | cons b u ih => exact ih

@[simp] theorem replace_nil :
    replace pat new [] = [] := rfl

theorem replace_pat
    (hpat : pat ≠ []) (t : Bytes) :
    replace pat new (pat ++ t) = new ++ replace pat new t := by
  obtain ⟨b, p, rfl⟩ := List.exists_cons_of_ne_nil hpat
  have hfront : (b :: p).isPrefixOf (b :: (p ++ t)) = true :=
    List.isPrefixOf_iff_prefix.mpr (List.prefix_append _ _)
  rw [List.cons_append, replace, replaceFrom, if_pos hfront, List.length_cons, Nat.add_sub_cancel,
    replaceFrom_append]

theorem replace_cons
    {b : UInt8} (h : ¬ pat <+: b :: t) :
    replace pat new (b :: t) = b :: replace pat new t := by
  have hfront : ¬ pat.isPrefixOf (b :: t) = true := mt List.isPrefixOf_iff_prefix.mp h
  rw [replace, replaceFrom, if_neg hfront, replace]

/-- Induction along a replacement. -/
theorem replace_rec
    {motive : Bytes → Prop} (hpat : pat ≠ []) (nil : motive [])
    (found : ∀ t, motive t → motive (pat ++ t))
    (other : ∀ b t, ¬ pat <+: b :: t → motive t → motive (b :: t)) (s : Bytes) :
    motive s := by
  induction hn : s.length using Nat.strong_induction_on generalizing s with
  | _ n ih =>
      subst hn
      cases s with
      | nil => exact nil
      | cons b s =>
          by_cases hfront : pat <+: b :: s
          · obtain ⟨t, ht⟩ := hfront
            have hlength := congrArg List.length ht
            have hpos := List.length_pos_of_ne_nil hpat
            rw [List.length_append] at hlength
            rw [← ht]
            exact found t (ih t.length (by omega) t rfl)
          · exact other b s hfront (ih s.length (by simp) s rfl)

/-- A text without the pattern is left as it is. -/
theorem replace_eq_self
    (h : ¬ pat <:+: s) :
    replace pat new s = s := by
  induction s with
  | nil => rfl
  | cons b s ih =>
      rw [replace_cons fun hfront => h hfront.isInfix,
        ih fun hin => h (hin.trans (List.suffix_cons b s).isInfix)]

/-- The pattern itself. -/
theorem replace_self
    (hpat : pat ≠ []) (new : Bytes) :
    replace pat new pat = new := by
  have h := @replace_pat pat new hpat []
  rwa [List.append_nil, replace_nil, List.append_nil] at h

/-- The length of a replaced text: `n` occurrences were found. -/
theorem length_replace
    (hpat : pat ≠ []) (s : Bytes) :
    ∃ n, (replace pat new s).length + n * pat.length = s.length + n * new.length ∧
      (pat <:+: s → 0 < n) := by
  induction s using replace_rec hpat with
  | nil => exact ⟨0, by simp, fun hin => absurd (List.infix_nil.mp hin) hpat⟩
  | found t ih =>
      obtain ⟨n, hn, -⟩ := ih
      refine ⟨n + 1, ?_, fun _ => Nat.succ_pos n⟩
      rw [replace_pat hpat, List.length_append, List.length_append, Nat.add_mul, Nat.add_mul]
      omega
  | other b t hfront ih =>
      obtain ⟨n, hn, hpos⟩ := ih
      refine ⟨n, ?_, fun hin => ?_⟩
      · rw [replace_cons hfront, List.length_cons, List.length_cons]
        omega
      · exact hpos ((List.infix_cons_iff.mp hin).resolve_left hfront)

/-- A replacement changes nothing exactly without an occurrence, or by the pattern itself. -/
theorem replace_eq_self_iff
    (hpat : pat ≠ []) (s : Bytes) :
    replace pat new s = s ↔ ¬ pat <:+: s ∨ new = pat := by
  constructor
  · intro h
    rw [or_iff_not_imp_left, not_not]
    intro hin
    obtain ⟨n, hn, hpos⟩ := @length_replace pat new hpat s
    rw [h] at hn
    have hlength : pat.length = new.length :=
      Nat.eq_of_mul_eq_mul_left (hpos hin) (Nat.add_left_cancel hn)
    -- With equal lengths the first occurrence stays in its place.
    clear hn hpos
    induction s using replace_rec hpat with
    | nil => exact absurd (List.infix_nil.mp hin) hpat
    | found t ih =>
        rw [replace_pat hpat] at h
        exact (List.append_inj h hlength.symm).1
    | other b t hfront ih =>
        rw [replace_cons hfront] at h
        exact ih (List.cons.inj h).2 ((List.infix_cons_iff.mp hin).resolve_left hfront)
  · rintro (h | rfl)
    · exact replace_eq_self h
    · induction s using replace_rec hpat with
      | nil => rfl
      | found t ih => rw [replace_pat hpat, ih]
      | other b t hfront ih => rw [replace_cons hfront, ih]

/-- No occurrence begins in the first text and ends in the second. -/
def Apart (pat s t : Bytes) : Prop :=
  ∀ v, v <:+ s → v ≠ [] → pat <+: v ++ t → pat <+: v

theorem replace_append
    (hpat : pat ≠ []) (h : Apart pat s t) :
    replace pat new (s ++ t) = replace pat new s ++ replace pat new t := by
  induction s using replace_rec hpat with
  | nil => rfl
  | found u ih =>
      rw [List.append_assoc, replace_pat hpat, replace_pat hpat,
        ih fun v hv => h v (hv.trans (List.suffix_append pat u)), List.append_assoc]
  | other b u hfront ih =>
      have hover : ¬ pat <+: b :: (u ++ t) :=
        fun hin => hfront (h (b :: u) List.suffix_rfl nofun hin)
      rw [List.cons_append, replace_cons hover, replace_cons hfront,
        ih fun v hv => h v (hv.trans (List.suffix_cons b u)), List.cons_append]

/-- An occurrence ends in the first text, or reaches into the second. -/
theorem isPrefix_append_cases
    {v : Bytes} (h : pat <+: v ++ t) :
    pat <+: v ∨ ∃ r, r ≠ [] ∧ pat = v ++ r ∧ r <+: t := by
  rcases List.prefix_or_prefix_of_prefix h (List.prefix_append v t) with hv | ⟨r, rfl⟩
  · exact .inl hv
  · by_cases hr : r = []
    · exact .inl (by rw [hr, List.append_nil])
    · exact .inr ⟨r, hr, rfl, (List.prefix_append_right_inj v).mp h⟩

/-- The second text begins with a byte that is only the first one of the pattern. -/
theorem apart_of_head
    (hc : c ∉ pat.tail) :
    Apart pat s (c :: t) := by
  intro v hv hne hin
  rcases isPrefix_append_cases hin with hv | ⟨r, hr, rfl, u, hu⟩
  · exact hv
  · obtain ⟨d, r, rfl⟩ := List.exists_cons_of_ne_nil hr
    obtain ⟨b, v, rfl⟩ := List.exists_cons_of_ne_nil hne
    have hd : d = c := (List.cons.inj hu).1
    exact absurd (by simp [hd]) hc

/-- The first text ends with a byte that is only the last one of the pattern. -/
theorem apart_of_last
    (hc : c ∉ pat.dropLast) (hs : s.getLast? = some c) :
    Apart pat s t := by
  intro v hv hne hin
  rcases isPrefix_append_cases hin with hv | ⟨r, hr, rfl, -⟩
  · exact hv
  · obtain ⟨u, rfl⟩ := hv
    rw [List.getLast?_append_of_ne_nil u hne] at hs
    rw [List.dropLast_append_of_ne_nil hr] at hc
    exact absurd (List.mem_append_left _ (List.mem_of_getLast? hs)) hc

/-- A text without the first byte of the pattern stays, and nothing reaches out of it. -/
theorem replace_append_of_not_mem
    (hc : c ∉ s) (t : Bytes) :
    replace (c :: pat) new (s ++ t) = s ++ replace (c :: pat) new t := by
  induction s with
  | nil => rfl
  | cons b s ih =>
      obtain ⟨hb, hs⟩ := not_or.mp (mt List.mem_cons.mpr hc)
      have hfront : ¬ c :: pat <+: b :: (s ++ t) :=
        fun hin => hb (List.cons_prefix_cons.mp hin).1
      rw [List.cons_append, replace_cons hfront, ih hs, List.cons_append]

/-- The last byte stays, if the pattern and the new text end with it too. -/
theorem getLast?_replace
    (hpat : pat ≠ []) (hnew : new.getLast? = some c) (hs : s.getLast? = some c) :
    (replace pat new s).getLast? = some c := by
  induction s using replace_rec hpat with
  | nil => cases hs
  | found t ih =>
      rw [replace_pat hpat]
      cases t with
      | nil => rwa [replace_nil, List.append_nil]
      | cons b t =>
          rw [List.getLast?_append_cons] at hs
          rw [List.getLast?_append, ih hs, Option.some_or]
  | other b t hfront ih =>
      rw [replace_cons hfront]
      cases t with
      | nil => exact hs
      | cons d t =>
          rw [List.getLast?_cons_cons] at hs
          have h := ih hs
          rw [List.getLast?_cons, h]
          rfl

/-- The last occurrence: what follows it stays. -/
theorem replace_cases
    (hpat : pat ≠ []) (new s : Bytes) :
    replace pat new s = s ∨
      ∃ front w back, s = front ++ pat ++ back ∧ replace pat new s = w ++ new ++ back := by
  induction s using replace_rec hpat with
  | nil => exact .inl rfl
  | found t ih =>
      rw [replace_pat hpat]
      rcases ih with ih | ⟨front, w, back, ht, ih⟩
      · exact .inr ⟨[], [], t, rfl, by rw [ih]; rfl⟩
      · exact .inr ⟨pat ++ front, new ++ w, back, by rw [ht]; simp, by rw [ih]; simp⟩
  | other b t hfront ih =>
      rw [replace_cons hfront]
      rcases ih with ih | ⟨front, w, back, ht, ih⟩
      · exact .inl (by rw [ih])
      · exact .inr ⟨b :: front, b :: w, back, by rw [ht]; rfl, by rw [ih]; rfl⟩

/-- A byte that is not in the first text is behind it. -/
theorem append_eq_append_cons
    {u f : Bytes} (hc : c ∉ u) (heq : u ++ s = f ++ c :: t) :
    ∃ g, f = u ++ g ∧ s = g ++ c :: t := by
  induction u generalizing f with
  | nil => exact ⟨f, rfl, heq⟩
  | cons b u ih =>
      cases f with
      | nil => exact absurd (List.cons.inj heq).1 fun hb => hc (hb ▸ List.mem_cons_self)
      | cons d f =>
          obtain ⟨rfl, htail⟩ := List.cons.inj heq
          obtain ⟨g, rfl, hs⟩ := ih (fun hu => hc (List.mem_cons_of_mem b hu)) htail
          exact ⟨g, rfl, hs⟩

/-- A pattern of one byte. -/
theorem replace_singleton
    (c : UInt8) (new s : Bytes) :
    replace [c] new s = s.flatMap fun b => if b = c then new else [b] := by
  induction s with
  | nil => rfl
  | cons b s ih =>
      rw [List.flatMap_cons, ← ih]
      by_cases hb : b = c
      · subst hb
        rw [if_pos rfl]
        exact replace_pat (by simp) s
      · have hfront : ¬ [c] <+: b :: s := fun hin => hb (List.cons_prefix_cons.mp hin).1.symm
        rw [if_neg hb, replace_cons hfront]
        rfl

end Replace

end ByteString
