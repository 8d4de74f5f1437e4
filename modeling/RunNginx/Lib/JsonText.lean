import RunNginx.Lib.Decimal
import RunNginx.Lib.IpAddr

/-!
# JSON texts

Strings, numbers, arrays and objects as they are written without blanks, and readers that undo
the writing.  A reader leaves what follows the value that it reads.

`Inverts` says that a reader undoes a writer wherever a value can stand; `readArray_array`
carries it over to arrays, and `readFields` reads an object field by field.
-/

namespace JsonText

open ByteString IpAddr

/-! ### Strings -/

/-- Bytes that stand in a string as one letter behind a backslash. -/
def shortEscapes : List (UInt8 × UInt8) :=
  [(34, 34), (92, 92), (8, 98), (12, 102), (10, 110), (13, 114), (9, 116)]

/-- A hexadecimal digit, in lower case. -/
def hexDigit (d : UInt8) : UInt8 :=
  if d < 10 then 48 + d else 87 + d

/-- How a byte stands in a string. -/
def escape (b : UInt8) : Bytes :=
  match shortEscapes.lookup b with
  | some e => [92, e]
  | none => if b < 32 then [92, 117, 48, 48, hexDigit (b >>> 4), hexDigit (b &&& 15)] else [b]

def string (s : Bytes) : Bytes :=
  34 :: (s.flatMap escape ++ [34])

/-- The byte of ASCII with these two digits. -/
def hexEscape (hi lo : UInt8) : Option UInt8 :=
  (hexVal hi).bind fun h => (hexVal lo).bind fun l => if h < 8 then some (h <<< 4 ||| l) else none

/-- The byte that a letter behind a backslash stands for. -/
def shortEscape (e : UInt8) : Option UInt8 :=
  if e = 47 then some 47 else (shortEscapes.find? fun x => x.2 == e).map Prod.fst

/-- Behind a backslash: the byte that is meant, if it is one of ASCII. -/
def readEscape : Bytes → Option (UInt8 × Bytes)
  | 117 :: 48 :: 48 :: hi :: lo :: s => (hexEscape hi lo).map fun b => (b, s)
  | e :: s => (shortEscape e).map fun b => (b, s)
  | [] => none

/-- The next byte of a string, or its end. -/
def readUnit : Bytes → Option (Option UInt8 × Bytes)
  | [] => none
  | c :: s =>
      if c = 34 then some (none, s)
      else if c = 92 then (readEscape s).map fun x => (some x.1, x.2)
      else if c < 32 then none
      else some (some c, s)

/-- The bytes up to the end of a string; each takes a byte of the text at least. -/
def readChars : Nat → Bytes → Option (Bytes × Bytes)
  | 0, _ => none
  | fuel + 1, s =>
      match readUnit s with
      | none => none
      | some (none, rest) => some ([], rest)
      | some (some b, rest) => (readChars fuel rest).map fun x => (b :: x.1, x.2)

def readString : Bytes → Option (Bytes × Bytes)
  | 34 :: s => readChars s.length s
  | _ => none

section Strings

theorem readUnit_escape
    (b : UInt8) (s : Bytes) :
    readUnit (escape b ++ s) = some (some b, s) := by
  have hshort : ∀ b : UInt8, ∀ e ∈ shortEscapes.lookup b, e ≠ 117 ∧ shortEscape e = some b :=
    forall_byte (by decide +kernel)
  have hlong : ∀ b : UInt8, shortEscapes.lookup b = none → b ≠ 34 ∧ b ≠ 92 ∧
      (b < 32 → hexEscape (hexDigit (b >>> 4)) (hexDigit (b &&& 15)) = some b) :=
    forall_byte (by decide +kernel)
  unfold escape
  split
  · rename_i e hlookup
    obtain ⟨he, hletter⟩ := hshort b e hlookup
    have hread : readEscape (e :: s) = some (b, s) := by
      unfold readEscape
      split
      · rename_i heq
        exact absurd (List.cons.inj heq).1 he
      · rename_i heq
        obtain ⟨rfl, rfl⟩ := List.cons.inj heq
        rw [hletter, Option.map_some]
      · rename_i heq
        cases heq
    simp [readUnit, hread]
  · rename_i hlookup
    obtain ⟨hquote, hslash, hlow⟩ := hlong b hlookup
    split
    · rename_i hcontrol
      simp [readUnit, readEscape, hlow hcontrol]
    · rename_i hplain
      simp [readUnit, hquote, hslash, hplain]

theorem length_escape_pos
    (b : UInt8) :
    1 ≤ (escape b).length := by
  unfold escape
  split
  · simp
  · split <;> simp

theorem length_flatMap_escape
    (s : Bytes) :
    s.length ≤ (s.flatMap escape).length := by
  induction s with
  | nil => exact Nat.le_refl _
  | cons b s ih =>
      have hb := length_escape_pos b
      rw [List.flatMap_cons, List.length_cons, List.length_append]
      omega

theorem readChars_escape
    (s rest : Bytes) {fuel : Nat} (hfuel : s.length < fuel) :
    readChars fuel (s.flatMap escape ++ 34 :: rest) = some (s, rest) := by
  induction s generalizing fuel with
  | nil =>
      obtain ⟨fuel, rfl⟩ := Nat.exists_eq_succ_of_ne_zero (Nat.ne_zero_of_lt hfuel)
      rfl
  | cons b s ih =>
      obtain ⟨fuel, rfl⟩ := Nat.exists_eq_succ_of_ne_zero (Nat.ne_zero_of_lt hfuel)
      rw [List.flatMap_cons, List.append_assoc, readChars, readUnit_escape]
      dsimp only
      rw [ih (Nat.lt_of_succ_lt_succ hfuel)]
      rfl

/-- A string is read back, whatever it holds. -/
theorem readString_string
    (s rest : Bytes) :
    readString (string s ++ rest) = some (s, rest) := by
  have hlength := length_flatMap_escape s
  have htext : string s ++ rest = 34 :: (s.flatMap escape ++ 34 :: rest) := by
    rw [string, List.cons_append, List.append_assoc, List.singleton_append]
  rw [htext, readString, readChars_escape]
  rw [List.length_append, List.length_cons]
  omega

/-- Bytes that stand for themselves in a string. -/
def IsPlain (s : Bytes) : Prop :=
  ∀ b ∈ s, escape b = [b]

/-- An escape is longer than the byte it stands for, and has as many quotes at most. -/
theorem readEscape_cases
    {s rest : Bytes} {b : UInt8} (h : readEscape s = some (b, rest)) :
    ∃ c, s = c ++ rest ∧ 1 ≤ c.length ∧ c.count 34 ≤ [b].count 34 := by
  have hhex : ∀ d : UInt8, hexVal d ≠ none → d ≠ 34 :=
    forall_byte (by decide +kernel)
  unfold readEscape at h
  split at h
  · rename_i hi lo s
    obtain ⟨c, hc, heq⟩ := Option.map_eq_some_iff.mp h
    cases heq
    obtain ⟨x, hx, hrest⟩ := Option.bind_eq_some_iff.mp hc
    obtain ⟨y, hy, -⟩ := Option.bind_eq_some_iff.mp hrest
    have hhi := hhex hi (by rw [hx]; exact nofun)
    have hlo := hhex lo (by rw [hy]; exact nofun)
    exact ⟨[117, 48, 48, hi, lo], rfl, by simp, by simp [List.count_cons, hhi, hlo]⟩
  · rename_i e s _
    obtain ⟨c, hc, heq⟩ := Option.map_eq_some_iff.mp h
    cases heq
    have hquote : ∀ e : UInt8, ∀ b ∈ shortEscape e, [e].count 34 ≤ [b].count 34 :=
      forall_byte (by decide +kernel)
    exact ⟨[e], rfl, Nat.le_refl _, hquote e b hc⟩
  · cases h

/-- A unit is the end of the string, a byte that stands for itself, or an escape. -/
theorem readUnit_cases
    {s rest : Bytes} {u : Option UInt8} (h : readUnit s = some (u, rest)) :
    (u = none ∧ s = 34 :: rest) ∨
      ∃ b, u = some b ∧ (escape b = [b] ∧ b ≠ 34 ∧ s = b :: rest ∨
        ∃ c, s = c ++ rest ∧ 2 ≤ c.length ∧ c.count 34 ≤ [b].count 34) := by
  have hplain : ∀ b : UInt8, b ≠ 34 → b ≠ 92 → ¬ b < 32 → escape b = [b] :=
    forall_byte (by decide +kernel)
  unfold readUnit at h
  split at h
  · cases h
  · rename_i c s
    split_ifs at h with hquote hslash hlow
    · cases h
      exact Or.inl ⟨rfl, by rw [hquote]⟩
    · obtain ⟨x, hx, heq⟩ := Option.map_eq_some_iff.mp h
      cases heq
      obtain ⟨front, rfl, hlength, hcount⟩ := readEscape_cases hx
      refine Or.inr ⟨x.1, rfl, Or.inr ⟨c :: front, rfl, Nat.succ_le_succ hlength, ?_⟩⟩
      rwa [List.count_cons_of_ne hquote]
    · cases h
      exact Or.inr ⟨c, rfl, Or.inl ⟨hplain c hquote hslash hlow, hquote, rfl⟩⟩

/--
A string that is read ends at a quote.  In front of it the text is longer than the string or
the same, and every quote in it stands for one.
-/
theorem readChars_cases
    {fuel : Nat} {s out rest : Bytes} (h : readChars fuel s = some (out, rest)) :
    ∃ c, s = c ++ 34 :: rest ∧ out.length ≤ c.length ∧ c.count 34 ≤ out.count 34 ∧
      (c.length = out.length → c = out ∧ IsPlain out) := by
  induction fuel generalizing s out with
  | zero => cases h
  | succ fuel ih =>
      rw [readChars] at h
      split at h
      · cases h
      · rename_i hunit
        cases h
        rcases readUnit_cases hunit with ⟨-, rfl⟩ | ⟨b, hb, -⟩
        · exact ⟨[], rfl, Nat.le_refl _, Nat.le_refl _, fun _ => ⟨rfl, nofun⟩⟩
        · cases hb
      · rename_i hunit
        obtain ⟨x, hx, heq⟩ := Option.map_eq_some_iff.mp h
        cases heq
        obtain ⟨back, hback, hle, hquotes, hsame⟩ := ih hx
        rcases readUnit_cases hunit with ⟨hnone, -⟩ | ⟨b, hb, hcases⟩
        · cases hnone
        cases hb
        rcases hcases with ⟨hplain, hquote, rfl⟩ | ⟨front, rfl, hlength, hcount⟩
        · refine ⟨_ :: back, by rw [hback]; rfl, Nat.succ_le_succ hle, ?_, fun hlength => ?_⟩
          · rwa [List.count_cons_of_ne hquote, List.count_cons_of_ne hquote]
          · obtain ⟨rfl, hrest⟩ := hsame (Nat.succ_inj.mp hlength)
            exact ⟨rfl, List.forall_mem_cons.mpr ⟨hplain, hrest⟩⟩
        · refine ⟨front ++ back, by rw [hback, List.append_assoc], ?_, ?_, fun hsame => ?_⟩
          · rw [List.length_append, List.length_cons]
            omega
          · rw [List.count_append, ← List.singleton_append, List.count_append]
            omega
          · rw [List.length_append, List.length_cons] at hsame
            omega

/-- Between quotes a text without escapes is a string. -/
theorem string_of_plain
    {s : Bytes} (h : IsPlain s) :
    string s = 34 :: (s ++ [34]) := by
  have hsame : s.flatMap escape = s := by
    induction s with
    | nil => rfl
    | cons b s ih =>
        obtain ⟨hb, hs⟩ := List.forall_mem_cons.mp h
        rw [List.flatMap_cons, hb, ih hs]
        rfl
  rw [string, hsame]

/-- A text between quotes: as it is written where nothing is escaped. -/
def quoted (s : Bytes) : Bytes :=
  34 :: (s ++ [34])

/-- A text between quotes is read as itself if and only if nothing in it had to be escaped. -/
theorem readString_quoted_iff
    {s rest r : Bytes} :
    readString (quoted s ++ rest) = some (s, r) ↔ IsPlain s ∧ r = rest := by
  constructor
  · intro h
    have htext : quoted s ++ rest = 34 :: (s ++ 34 :: rest) := by
      rw [quoted, List.cons_append, List.append_assoc, List.singleton_append]
    rw [htext] at h
    obtain ⟨c, hc, hle, hcount, hsame⟩ := readChars_cases h
    rcases List.append_eq_append_iff.mp hc with ⟨x, rfl, hx⟩ | ⟨x, rfl, hx⟩
    · cases x with
      | nil =>
          rw [List.append_nil] at hsame
          exact ⟨(hsame rfl).2, ((List.cons.inj hx).2).symm⟩
      | cons d x =>
          obtain rfl := (List.cons.inj hx).1
          rw [List.count_append, List.count_cons_self] at hcount
          omega
    · rw [List.length_append] at hle
      obtain rfl := List.eq_nil_of_length_eq_zero (by omega : x.length = 0)
      rw [List.append_nil] at hsame ⊢
      exact ⟨(hsame rfl).2, (List.cons.inj hx).2⟩
  · rintro ⟨h, rfl⟩
    rw [quoted, ← string_of_plain h, readString_string]

end Strings

/-! ### Numbers, truth values and fixed texts -/

def readNumber (s : Bytes) : Option (Nat × Bytes) :=
  let digits := s.takeWhile Decimal.isDigit
  if digits = [] then none else some (Decimal.value digits, s.dropWhile Decimal.isDigit)

def bool (b : Bool) : Bytes :=
  if b then ascii "true" else ascii "false"

def readBool (s : Bytes) : Option (Bool × Bytes) :=
  match stripPrefix (ascii "true") s with
  | some rest => some (true, rest)
  | none => (stripPrefix (ascii "false") s).map fun rest => (false, rest)

/-- What follows a value. -/
def IsEnd (c : UInt8) : Prop :=
  c = 44 ∨ c = 93 ∨ c = 125

/--
In front of what follows a value, the reader undoes the writer on these values, and on no
others.
-/
structure Inverts {α : Type} (ok : α → Prop) (read : Bytes → Option (α × Bytes))
    (write : α → Bytes) : Prop where
  reads : ∀ a c rest r, IsEnd c →
    (read (write a ++ c :: rest) = some (a, r) ↔ ok a ∧ r = c :: rest)
  /-- A value does not start like the end of an array. -/
  start : ∀ a, ∃ c rest, write a = c :: rest ∧ c ≠ 93

section Values

theorem some_pair_iff
    {α : Type} {a : α} {s r : Bytes} :
    some (a, s) = some (a, r) ↔ True ∧ r = s := by
  rw [Option.some.injEq, Prod.mk.injEq, eq_self, eq_comm (a := s)]

theorem inverts_string : Inverts (fun _ => True) readString string where
  reads s c rest r _ := by
    rw [readString_string]
    exact some_pair_iff
  start s := ⟨34, _, rfl, by decide⟩

theorem inverts_quoted : Inverts IsPlain readString quoted where
  reads s c rest r _ := readString_quoted_iff
  start s := ⟨34, _, rfl, by decide⟩

theorem inverts_number : Inverts (fun _ => True) readNumber Decimal.render where
  reads n c rest r hc := by
    have hstop : Decimal.isDigit c = false := by
      rcases hc with rfl | rfl | rfl <;> rfl
    have hdigits := List.all_eq_true.mp (Decimal.all_isDigit_render n)
    rw [readNumber, List.takeWhile_append_of_pos hdigits, List.dropWhile_append_of_pos hdigits,
      List.takeWhile_cons_of_neg (by simp [hstop]), List.dropWhile_cons_of_neg (by simp [hstop]),
      List.append_nil, if_neg (Decimal.render_ne_nil n), Decimal.value_render]
    exact some_pair_iff
  start n := by
    obtain ⟨c, rest, hn⟩ := List.exists_cons_of_ne_nil (Decimal.render_ne_nil n)
    refine ⟨c, rest, hn, ?_⟩
    rintro rfl
    exact absurd (Decimal.isDigit_of_mem_render (hn ▸ List.mem_cons_self)) (by decide)

theorem inverts_bool : Inverts (fun _ => True) readBool bool where
  reads b c rest r _ := by
    have hread : readBool (bool b ++ c :: rest) = some (b, c :: rest) := by
      cases b with
      | true => simp [readBool, bool, stripPrefix, ascii]
      | false => simp [readBool, bool, stripPrefix, ascii]
    rw [hread]
    exact some_pair_iff
  start b := by
    cases b with
    | true => exact ⟨116, _, rfl, by decide⟩
    | false => exact ⟨102, _, rfl, by decide⟩

end Values

/-! ### Arrays -/

section Arrays

variable {α : Type} (write : α → Bytes) (read : Bytes → Option (α × Bytes))

/-- The items behind the first one. -/
def arrayTail : List α → Bytes
  | [] => [93]
  | a :: as => 44 :: (write a ++ arrayTail as)

def array : List α → Bytes
  | [] => [91, 93]
  | a :: as => 91 :: (write a ++ arrayTail write as)

/-- Items up to the end of the array; each takes a byte of the text at least. -/
def readTail : Nat → Bytes → Option (List α × Bytes)
  | 0, _ => none
  | fuel + 1, s =>
      match s with
      | 93 :: s => some ([], s)
      | 44 :: s => (read s).bind fun x => (readTail fuel x.2).map fun y => (x.1 :: y.1, y.2)
      | _ => none

/-- The first item and those behind it. -/
def readItems (s : Bytes) : Option (List α × Bytes) :=
  (read s).bind fun x => (readTail read x.2.length x.2).map fun y => (x.1 :: y.1, y.2)

def readArray : Bytes → Option (List α × Bytes)
  | 91 :: 93 :: s => some ([], s)
  | 91 :: s => readItems read s
  | _ => none

theorem array_map
    {β : Type} (f : β → α) (as : List β) :
    array write (as.map f) = array (fun a => write (f a)) as := by
  have htail : ∀ as : List β,
      arrayTail write (as.map f) = arrayTail (fun a => write (f a)) as := by
    intro as
    induction as with
    | nil => rfl
    | cons a as ih => rw [List.map_cons, arrayTail, arrayTail, ih]
  cases as with
  | nil => rfl
  | cons a as => rw [List.map_cons, array, array, htail]

variable {write read} {ok : α → Prop}

theorem arrayTail_eq_cons
    (write : α → Bytes) (as : List α) :
    ∃ c rest, arrayTail write as = c :: rest ∧ IsEnd c := by
  cases as with
  | nil => exact ⟨93, [], rfl, Or.inr (Or.inl rfl)⟩
  | cons a as => exact ⟨44, _, rfl, Or.inl rfl⟩

theorem length_lt_arrayTail
    (write : α → Bytes) (as : List α) :
    as.length < (arrayTail write as).length := by
  induction as with
  | nil => exact Nat.zero_lt_one
  | cons a as ih =>
      rw [arrayTail, List.length_cons, List.length_cons, List.length_append]
      omega

/-- An item in front of the others. -/
theorem Inverts.reads_item
    (h : Inverts ok read write) (a : α) (as : List α) (rest r : Bytes) :
    read (write a ++ (arrayTail write as ++ rest)) = some (a, r) ↔
      ok a ∧ r = arrayTail write as ++ rest := by
  obtain ⟨c, tail, htail, hc⟩ := arrayTail_eq_cons write as
  rw [htail, List.cons_append]
  exact h.reads a c _ r hc

/-- An item and what is behind it. -/
theorem bind_map_iff
    {x : Option (α × Bytes)} {next : Bytes → Option (List α × Bytes)} {a : α} {as : List α}
    {r : Bytes} :
    (x.bind fun y => (next y.2).map fun z => (y.1 :: z.1, z.2)) = some (a :: as, r) ↔
      ∃ s, x = some (a, s) ∧ next s = some (as, r) := by
  cases x with
  | none => simp
  | some y =>
      obtain ⟨b, s⟩ := y
      rw [Option.bind_some, Option.map_eq_some_iff]
      constructor
      · rintro ⟨z, hz, heq⟩
        cases heq
        exact ⟨s, rfl, hz⟩
      · rintro ⟨s', heq, hnext⟩
        cases heq
        exact ⟨_, hnext, rfl⟩

theorem readTail_arrayTail_iff
    (h : Inverts ok read write) {as : List α} {rest r : Bytes} {fuel : Nat}
    (hfuel : as.length < fuel) :
    readTail read fuel (arrayTail write as ++ rest) = some (as, r) ↔
      (∀ a ∈ as, ok a) ∧ r = rest := by
  induction as generalizing fuel with
  | nil =>
      obtain ⟨fuel, rfl⟩ := Nat.exists_eq_succ_of_ne_zero (Nat.ne_zero_of_lt hfuel)
      have hread : readTail read (fuel + 1) (arrayTail write [] ++ rest) = some ([], rest) := rfl
      rw [hread, Option.some.injEq, Prod.mk.injEq, eq_comm (a := rest)]
      simp
  | cons a as ih =>
      obtain ⟨fuel, rfl⟩ := Nat.exists_eq_succ_of_ne_zero (Nat.ne_zero_of_lt hfuel)
      have hrest : as.length < fuel := Nat.lt_of_succ_lt_succ hfuel
      rw [arrayTail, List.cons_append, List.append_assoc, readTail]
      rw [bind_map_iff, List.forall_mem_cons, and_assoc]
      constructor
      · rintro ⟨s, hitem, htail⟩
        obtain ⟨hok, rfl⟩ := (h.reads_item a as rest s).mp hitem
        exact ⟨hok, (ih hrest).mp htail⟩
      · rintro ⟨hok, hall⟩
        exact ⟨_, (h.reads_item a as rest _).mpr ⟨hok, rfl⟩, (ih hrest).mpr hall⟩

/-- An array is read back if and only if each of its items is. -/
theorem readArray_array_iff
    (h : Inverts ok read write) {as : List α} {rest r : Bytes} :
    readArray read (array write as ++ rest) = some (as, r) ↔ (∀ a ∈ as, ok a) ∧ r = rest := by
  cases as with
  | nil =>
      have hread : readArray read (array write [] ++ rest) = some ([], rest) := rfl
      rw [hread, Option.some.injEq, Prod.mk.injEq, eq_comm (a := rest)]
      simp
  | cons a as =>
      obtain ⟨c, tail, hstart, hc⟩ := h.start a
      have hitems : readArray read (array write (a :: as) ++ rest) =
          readItems read (write a ++ (arrayTail write as ++ rest)) := by
        rw [array, List.cons_append, List.append_assoc, hstart, List.cons_append]
        unfold readArray
        split
        · rename_i heq
          exact absurd (List.cons.inj (List.cons.inj heq).2).1 hc
        · rename_i heq
          rw [(List.cons.inj heq).2]
        · rename_i hnone
          exact absurd rfl (hnone _)
      have hfuel : as.length < (arrayTail write as ++ rest).length := by
        have hlength := length_lt_arrayTail write as
        rw [List.length_append]
        omega
      rw [hitems, readItems, @bind_map_iff α _ (fun s => readTail read s.length s),
        List.forall_mem_cons, and_assoc]
      constructor
      · rintro ⟨s, hitem, htail⟩
        obtain ⟨hok, rfl⟩ := (h.reads_item a as rest s).mp hitem
        exact ⟨hok, (readTail_arrayTail_iff h hfuel).mp htail⟩
      · rintro ⟨hok, hall⟩
        exact ⟨_, (h.reads_item a as rest _).mpr ⟨hok, rfl⟩,
          (readTail_arrayTail_iff h hfuel).mpr hall⟩

theorem inverts_array
    (h : Inverts ok read write) :
    Inverts (fun as => ∀ a ∈ as, ok a) (readArray read) (array write) where
  reads as c rest r _ := readArray_array_iff h
  start as := by
    cases as with
    | nil => exact ⟨91, _, rfl, by decide⟩
    | cons a as => exact ⟨91, _, rfl, by decide⟩

end Arrays

/-! ### Objects -/

section Objects

variable {α β : Type} {ok : α → Prop} {ok' : β → Prop}
  {write : α → Bytes} {read : Bytes → Option (α × Bytes)}
  {write' : β → Bytes} {read' : Bytes → Option (β × Bytes)}

/-- A value behind a fixed text. -/
def behind (text : Bytes) (write : α → Bytes) (a : α) : Bytes :=
  text ++ write a

def readBehind (text : Bytes) (read : Bytes → Option (α × Bytes)) (s : Bytes) :
    Option (α × Bytes) :=
  (stripPrefix text s).bind read

/-- A value and, behind a comma, another one. -/
def both (write : α → Bytes) (write' : β → Bytes) (x : α × β) : Bytes :=
  write x.1 ++ 44 :: write' x.2

def readBoth (read : Bytes → Option (α × Bytes)) (read' : Bytes → Option (β × Bytes)) (s : Bytes) :
    Option ((α × β) × Bytes) :=
  (read s).bind fun x =>
    (stripPrefix [44] x.2).bind fun s => (read' s).map fun y => ((x.1, y.1), y.2)

/-- A value in front of the end of its object. -/
def closed (write : α → Bytes) (a : α) : Bytes :=
  write a ++ [125]

def readClosed (read : Bytes → Option (α × Bytes)) (s : Bytes) : Option (α × Bytes) :=
  (read s).bind fun x => (stripPrefix [125] x.2).map fun s => (x.1, s)

theorem stripPrefix_append
    (text s : Bytes) :
    stripPrefix text (text ++ s) = some s :=
  stripPrefix_eq_some_iff.mpr rfl

theorem inverts_behind
    {text : Bytes} (htext : (text.head?.any (· != 93)) = true) (h : Inverts ok read write) :
    Inverts ok (readBehind text read) (behind text write) where
  reads a d rest r hd := by
    rw [readBehind, behind, List.append_assoc, stripPrefix_append, Option.bind_some]
    exact h.reads a d rest r hd
  start a := by
    cases text with
    | nil => cases htext
    | cons c text => exact ⟨c, _, rfl, bne_iff_ne.mp htext⟩

theorem inverts_both
    (h : Inverts ok read write) (h' : Inverts ok' read' write') :
    Inverts (fun x => ok x.1 ∧ ok' x.2) (readBoth read read') (both write write') where
  reads x c rest r hc := by
    obtain ⟨a, b⟩ := x
    rw [readBoth, both, List.append_assoc, List.cons_append]
    have hcomma : stripPrefix [44] (44 :: (write' b ++ c :: rest)) = some (write' b ++ c :: rest) :=
      stripPrefix_append [44] _
    simp only [Option.bind_eq_some_iff, Option.map_eq_some_iff, Prod.exists, Prod.mk.injEq]
    constructor
    · rintro ⟨a', s, ha, t, ht, b', u, hb, ⟨rfl, rfl⟩, rfl⟩
      obtain ⟨hok, rfl⟩ := (h.reads a' 44 _ s (Or.inl rfl)).mp ha
      obtain rfl := Option.some.inj (hcomma.symm.trans ht)
      obtain ⟨hok', rfl⟩ := (h'.reads b' c rest u hc).mp hb
      exact ⟨⟨hok, hok'⟩, rfl⟩
    · rintro ⟨⟨hok, hok'⟩, rfl⟩
      exact ⟨a, _, (h.reads a 44 _ _ (Or.inl rfl)).mpr ⟨hok, rfl⟩, _, hcomma, b, _,
        (h'.reads b c rest _ hc).mpr ⟨hok', rfl⟩, ⟨rfl, rfl⟩, rfl⟩
  start x := by
    obtain ⟨c, rest, hstart, hc⟩ := h.start x.1
    exact ⟨c, _, by rw [both, hstart]; rfl, hc⟩

/-- An object is read back if and only if its values are. -/
theorem readClosed_iff
    (h : Inverts ok read write) {a : α} {rest r : Bytes} :
    readClosed read (closed write a ++ rest) = some (a, r) ↔ ok a ∧ r = rest := by
  have hbrace : stripPrefix [125] (125 :: rest) = some rest := stripPrefix_append [125] rest
  rw [readClosed, closed, List.append_assoc, List.singleton_append]
  simp only [Option.bind_eq_some_iff, Option.map_eq_some_iff, Prod.exists, Prod.mk.injEq]
  constructor
  · rintro ⟨a', s, ha, t, ht, rfl, rfl⟩
    obtain ⟨hok, rfl⟩ := (h.reads a' 125 rest s (Or.inr (Or.inr rfl))).mp ha
    exact ⟨hok, Option.some.inj (ht.symm.trans hbrace)⟩
  · rintro ⟨hok, rfl⟩
    exact ⟨a, _, (h.reads a 125 _ _ (Or.inr (Or.inr rfl))).mpr ⟨hok, rfl⟩, _, hbrace, rfl, rfl⟩

theorem inverts_closed
    (h : Inverts ok read write) :
    Inverts ok (readClosed read) (closed write) where
  reads a c rest r _ := readClosed_iff h
  start a := by
    obtain ⟨c, rest, hstart, hc⟩ := h.start a
    exact ⟨c, _, by rw [closed, hstart]; rfl, hc⟩

/-- A text that is a value and nothing else. -/
def readWhole (read : Bytes → Option (α × Bytes)) (s : Bytes) : Option α :=
  (read s).bind fun x => if x.2 = [] then some x.1 else none

theorem readWhole_eq_some_iff
    {s : Bytes} {a : α} :
    readWhole read s = some a ↔ read s = some (a, []) := by
  rw [readWhole, Option.bind_eq_some_iff]
  constructor
  · rintro ⟨⟨b, r⟩, hread, hwhole⟩
    split at hwhole
    · rename_i hnil
      cases hwhole
      obtain rfl : r = [] := hnil
      exact hread
    · cases hwhole
  · intro hread
    exact ⟨_, hread, rfl⟩

/-- An object by itself is read back if and only if its values are. -/
theorem readWhole_closed_iff
    (h : Inverts ok read write) {a : α} :
    readWhole (readClosed read) (closed write a) = some a ↔ ok a := by
  rw [readWhole_eq_some_iff, ← List.append_nil (closed write a), readClosed_iff h, eq_self,
    and_true]

/-- So is an array. -/
theorem readWhole_array_iff
    (h : Inverts ok read write) {as : List α} :
    readWhole (readArray read) (array write as) = some as ↔ ∀ a ∈ as, ok a := by
  rw [readWhole_eq_some_iff, ← List.append_nil (array write as), readArray_array_iff h, eq_self,
    and_true]

end Objects

end JsonText
