import RunNginx.Lib.Decimal

/-!
# HTTP messages as a recipient reads them

The head of a message is a sequence of lines, each ended by CRLF, up to an empty
line; what follows is the body.  `parseHead` is the recipient's side of it,
`parseHead_joinLines` its inverse on the sender's side.

A message is `Framed` when its head declares exactly one Content-Length, and that is
the number of bytes behind the head.
-/

namespace HttpMessage

open ByteString

/-- Read lines up to the empty one, with fuel. -/
def headLoop : Nat → Bytes → Option (List Bytes × Bytes)
  | 0, _ => none
  | fuel + 1, s =>
      match find crlf s with
      | none => none
      | some 0 => some ([], s.drop 2)
      | some (n + 1) =>
          (headLoop fuel (s.drop (n + 3))).map fun r => (s.take (n + 1) :: r.1, r.2)

/-- The lines of the head, and the bytes behind it. -/
def parseHead (s : Bytes) : Option (List Bytes × Bytes) :=
  headLoop (s.length + 1) s

/-- Optional white space around a field value. -/
def isOws (b : UInt8) : Bool :=
  b == 32 || b == 9

/-- Value of a field line with the given name. -/
def valueOf (name line : Bytes) : Option Bytes :=
  match find [58] line with
  | none => none
  | some i =>
      if eqIgnoreCase (line.take i) name then some (trimBy isOws (line.drop (i + 1))) else none

/-- The values of all fields with the given name. -/
def valuesOf (name : Bytes) (fieldLines : List Bytes) : List Bytes :=
  fieldLines.filterMap (valueOf name)

/-- The value is a decimal numeral of `n`. -/
def IsNumeral (value : Bytes) (n : Nat) : Prop :=
  value ≠ [] ∧ value.all Decimal.isDigit = true ∧ Decimal.value value = n

/-- Exactly one Content-Length, and it counts the bytes behind the head. -/
def Framed (s : Bytes) : Prop :=
  ∃ startLine fieldLines body value,
    parseHead s = some (startLine :: fieldLines, body) ∧
      valuesOf (ascii "content-length") fieldLines = [value] ∧
      IsNumeral value body.length

instance (value : Bytes) (n : Nat) : Decidable (IsNumeral value n) := by
  unfold IsNumeral
  infer_instance

/-- `Framed`, computed. -/
def isFramed (s : Bytes) : Bool :=
  match parseHead s with
  | some (_ :: fieldLines, body) =>
      match valuesOf (ascii "content-length") fieldLines with
      | [value] => decide (IsNumeral value body.length)
      | _ => false
  | _ => false

theorem isFramed_iff
    (s : Bytes) :
    isFramed s = true ↔ Framed s := by
  unfold isFramed Framed
  constructor
  · intro h
    split at h
    · rename_i startLine fieldLines body hhead
      split at h
      · rename_i value hvalue
        exact ⟨startLine, fieldLines, body, value, hhead, hvalue, of_decide_eq_true h⟩
      · cases h
    · cases h
  · rintro ⟨startLine, fieldLines, body, value, hhead, hvalue, hnumeral⟩
    simp only [hhead, hvalue]
    exact decide_eq_true hnumeral

instance (s : Bytes) : Decidable (Framed s) :=
  decidable_of_iff _ (isFramed_iff s)

theorem isNumeral_render
    (n : Nat) :
    IsNumeral (Decimal.render n) n :=
  ⟨Decimal.render_ne_nil n,
    List.all_eq_true.mpr fun _ hb => Decimal.isDigit_of_mem_render hb,
    Decimal.value_render n⟩

/-- The head that was written is the head that is read. -/
theorem parseHead_joinLines
    {lines : List Bytes}
    (hfree : ∀ l ∈ lines, CrlfFree l) (hne : ∀ l ∈ lines, l ≠ [])
    (body : Bytes) :
    parseHead (joinLines lines ++ crlf ++ body) = some (lines, body) := by
  have hloop : ∀ (fuel : Nat), lines.length < fuel →
      headLoop fuel (joinLines lines ++ crlf ++ body) = some (lines, body) := by
    induction lines with
    | nil =>
        intro fuel hfuel
        obtain ⟨fuel, rfl⟩ : ∃ k, fuel = k + 1 := ⟨fuel - 1, by simp at hfuel; omega⟩
        have hfind : find crlf (crlf ++ body) = some 0 :=
          find_crlf_append (s := []) (crlfFree_of_not_mem (by simp)) body
        simp only [joinLines_nil, List.nil_append, headLoop, hfind]
        simp [crlf]
    | cons l lines ih =>
        intro fuel hfuel
        simp only [List.length_cons] at hfuel
        obtain ⟨fuel, rfl⟩ : ∃ k, fuel = k + 1 := ⟨fuel - 1, by omega⟩
        have hrest := ih (fun m hm => hfree m (by simp [hm]))
          (fun m hm => hne m (by simp [hm])) fuel (by omega)
        have htext : joinLines (l :: lines) ++ crlf ++ body =
            l ++ crlf ++ (joinLines lines ++ crlf ++ body) := by
          simp
        have hfind := find_crlf_append (hfree l (by simp)) (joinLines lines ++ crlf ++ body)
        obtain ⟨n, hn⟩ : ∃ n, l.length = n + 1 :=
          ⟨l.length - 1, by
            have := List.length_pos_of_ne_nil (hne l (by simp))
            omega⟩
        have htake : (l ++ crlf ++ (joinLines lines ++ crlf ++ body)).take (n + 1) = l := by
          rw [← hn]
          simp
        have hdrop : (l ++ crlf ++ (joinLines lines ++ crlf ++ body)).drop (n + 3) =
            joinLines lines ++ crlf ++ body := by
          rw [show n + 3 = l.length + 2 by omega, List.append_assoc, ← List.drop_drop]
          simp [crlf]
        rw [htext, headLoop, hfind, hn]
        simp only [htake, hdrop, hrest, Option.map_some]
  apply hloop
  have hlen : lines.length ≤ (joinLines lines).length := by
    clear hfree hne hloop
    induction lines with
    | nil => simp
    | cons l lines ih =>
        simp only [joinLines_cons, List.length_append, List.length_cons, crlf]
        omega
  simp only [List.length_append]
  omega

/-- A field line is read back under its name. -/
theorem valueOf_field
    {name : Bytes} (value : Bytes)
    (hname : (58 : UInt8) ∉ name) (asked : Bytes) :
    valueOf asked (name ++ 58 :: value) =
      if eqIgnoreCase name asked then some (trimBy isOws value) else none := by
  unfold valueOf
  rw [find_byte_append hname]
  have hdrop : (name ++ 58 :: value).drop (name.length + 1) = value := by
    simp [List.drop_append]
  simp [hdrop]

theorem isOws_of_isDigit
    {b : UInt8} (h : Decimal.isDigit b = true) :
    isOws b = false := by
  simp only [Decimal.isDigit, Bool.and_eq_true, decide_eq_true_eq, UInt8.le_iff_toNat_le] at h
  have hne : ∀ c : UInt8, c.toNat < 48 → b ≠ c := by
    rintro c hc rfl
    simp at h
    omega
  simp [isOws, hne 32 (by decide), hne 9 (by decide)]

/-- A value behind a blank is read back. -/
theorem trimBy_blank
    {v : Bytes} (hhead : ∀ b, v.head? = some b → isOws b = false)
    (hlast : ∀ b, v.getLast? = some b → isOws b = false) :
    trimBy isOws (32 :: v) = v := by
  have h := trimBy_pad isOws [32] v [] (by simp [isOws]) (by simp) hhead hlast
  rwa [List.append_nil, List.singleton_append] at h

/-- A text that ends with a numeral ends with no blank. -/
theorem isOws_last_render
    (u : Bytes) (n : Nat) :
    ∀ b, (u ++ Decimal.render n).getLast? = some b → isOws b = false := by
  intro b hb
  rw [List.getLast?_append_of_ne_nil _ (Decimal.render_ne_nil n)] at hb
  exact isOws_of_isDigit (Decimal.isDigit_of_mem_render (List.mem_of_mem_getLast? hb))

/-- A numeral behind a blank is read back. -/
theorem trimBy_blank_render
    (n : Nat) :
    trimBy isOws (32 :: Decimal.render n) = Decimal.render n :=
  trimBy_blank
    (fun _ hb => isOws_of_isDigit (Decimal.isDigit_of_mem_render (List.mem_of_mem_head? hb)))
    (isOws_last_render [] n)

/-- A message whose lines declare the length of its body is framed. -/
theorem framed_of_lines
    {startLine : Bytes} {fieldLines : List Bytes} {body : Bytes}
    (hfree : ∀ l ∈ startLine :: fieldLines, CrlfFree l)
    (hne : ∀ l ∈ startLine :: fieldLines, l ≠ [])
    (hlength : valuesOf (ascii "content-length") fieldLines = [Decimal.render body.length]) :
    Framed (joinLines (startLine :: fieldLines) ++ crlf ++ body) :=
  ⟨startLine, fieldLines, body, _, parseHead_joinLines hfree hne body, hlength,
    isNumeral_render body.length⟩

end HttpMessage
