import RunNginx.Config.AuthText
import RunNginx.Config.Fields
import RunNginx.Config.ProxyText

/-!
# Sizes with a unit

A size is a decimal number with a unit behind it.  `parse_size` refuses a number that does
not fit, but not a product of the number and the unit that does not fit: it wraps around,
and what is left is taken for the size and cut at the ceiling of the body limits.

`sizes_exact_iff`: a size, and the limits that are stored for it in an http block, a server
block and a location, are exact unless the number fits and the product does not.
-/

namespace RunNginx
namespace ConfigParser

open ByteString Limits Parse

/-! ### Sizes as texts -/

inductive SizeUnit
  | bytes
  | kilo
  | mega
  | giga
deriving DecidableEq

def SizeUnit.factor : SizeUnit → Nat
  | .bytes => 1
  | .kilo => 1024
  | .mega => 1024 * 1024
  | .giga => 1024 * 1024 * 1024

/-- The letter of a unit, in upper or lower case. -/
def SizeUnit.suffix (upper : Bool) : SizeUnit → Bytes
  | .bytes => []
  | .kilo => [if upper then 75 else 107]
  | .mega => [if upper then 77 else 109]
  | .giga => [if upper then 71 else 103]

/-- A decimal number with a unit; a plus sign may stand in front. -/
structure SizeText where
  plus : Bool
  digits : Bytes
  unit : SizeUnit
  upper : Bool
  nonempty : digits ≠ []
  decimal : digits.all Decimal.isDigit = true

namespace SizeText

variable (size : SizeText)

def number : Nat :=
  Decimal.value size.digits

/-- What the text stands for. -/
def amount : Nat :=
  size.number * size.unit.factor

def numeral : Bytes :=
  (if size.plus then [43] else []) ++ size.digits

def text : Bytes :=
  size.numeral ++ size.unit.suffix size.upper

theorem digitsOf_numeral : Decimal.digitsOf size.numeral = size.digits := by
  unfold numeral
  cases size.plus with
  | true => rfl
  | false => exact Decimal.digitsOf_of_digits size.decimal

theorem parseUnsigned_numeral
    (bound : Nat) :
    Decimal.parseUnsigned bound size.numeral =
      if size.number < bound then some size.number else none := by
  simp only [Decimal.parseUnsigned, digitsOf_numeral]
  exact if_congr (by simp [size.nonempty, size.decimal, number]) rfl rfl

theorem numeral_getLast :
    ∃ c, Decimal.isDigit c = true ∧ size.numeral.getLast? = some c := by
  obtain ⟨c, hc⟩ := Option.ne_none_iff_exists'.mp
    (mt List.getLast?_eq_none_iff.mp size.nonempty)
  refine ⟨c, List.all_eq_true.mp size.decimal c (List.mem_of_getLast? hc), ?_⟩
  rw [numeral, List.getLast?_append, hc, Option.some_or]

end SizeText

theorem sizeFactor_digit
    {c : UInt8} (h : Decimal.isDigit c = true) :
    sizeFactor (some c) = none := by
  have hle : c ≤ 57 := by
    simp only [Decimal.isDigit, Bool.and_eq_true, decide_eq_true_eq] at h
    exact h.2
  have hne : ∀ b : UInt8, 57 < b → c ≠ b := by
    rintro b hb rfl
    exact absurd hle (UInt8.not_le.mpr hb)
  simp [sizeFactor, hne]

namespace SizeText

variable (size : SizeText)

/-- The last character tells the unit; a digit tells that there is none. -/
theorem sizeFactor_text :
    sizeFactor size.text.getLast? =
      if size.unit = .bytes then none else some size.unit.factor := by
  unfold text
  cases hunit : size.unit with
  | bytes =>
      obtain ⟨c, hc, hlast⟩ := size.numeral_getLast
      simp [SizeUnit.suffix, hlast, sizeFactor_digit hc]
  | kilo => cases size.upper <;> simp [SizeUnit.suffix, SizeUnit.factor, sizeFactor]
  | mega => cases size.upper <;> simp [SizeUnit.suffix, SizeUnit.factor, sizeFactor]
  | giga => cases size.upper <;> simp [SizeUnit.suffix, SizeUnit.factor, sizeFactor]

theorem text_of_bytes
    (h : size.unit = .bytes) :
    size.text = size.numeral := by
  simp [text, h, SizeUnit.suffix]

theorem take_text
    (h : size.unit ≠ .bytes) :
    size.text.take (size.text.length - 1) = size.numeral := by
  unfold text
  cases hunit : size.unit with
  | bytes => exact absurd hunit h
  | kilo => simp [SizeUnit.suffix]
  | mega => simp [SizeUnit.suffix]
  | giga => simp [SizeUnit.suffix]

end SizeText

/-- The size of a text: the number is checked, the product is not. -/
theorem parseSize_eq
    {text : Bytes} {size : SizeText} (h : Utf8.trim text = size.text) (directive : Bytes) :
    parseSize directive text =
      if size.number < Decimal.usizeBound then .ok (size.amount % Decimal.usizeBound)
      else .error (.invalidSize directive size.text) := by
  unfold parseSize SizeText.amount
  rw [h]
  dsimp only
  rw [size.sizeFactor_text]
  by_cases hunit : size.unit = .bytes
  · rw [if_pos hunit]
    dsimp only
    rw [size.text_of_bytes hunit, size.parseUnsigned_numeral, hunit]
    by_cases hfits : size.number < Decimal.usizeBound
    · simp only [hfits, if_true]
      rfl
    · simp only [hfits, if_false]
  · rw [if_neg hunit]
    dsimp only
    rw [size.take_text hunit, size.parseUnsigned_numeral]
    by_cases hfits : size.number < Decimal.usizeBound
    · simp only [hfits, if_true]
    · simp only [hfits, if_false]

theorem numeral_of_parseUnsigned
    {bound n : Nat} {s : Bytes} (h : Decimal.parseUnsigned bound s = some n) :
    ∃ (plus : Bool) (digits : Bytes), s = (if plus then [43] else []) ++ digits ∧
      digits ≠ [] ∧ digits.all Decimal.isDigit = true := by
  have hdigits : Decimal.digitsOf s ≠ [] ∧ (Decimal.digitsOf s).all Decimal.isDigit = true := by
    simp only [Decimal.parseUnsigned] at h
    split at h
    · rename_i hs
      exact ⟨hs.1, hs.2.1⟩
    · cases h
  have hsign : ∃ plus : Bool, s = (if plus then [43] else []) ++ Decimal.digitsOf s := by
    unfold Decimal.digitsOf
    split
    · exact ⟨true, rfl⟩
    · exact ⟨false, rfl⟩
  obtain ⟨plus, hs⟩ := hsign
  exact ⟨plus, Decimal.digitsOf s, hs, hdigits⟩

theorem unit_of_sizeFactor
    {last : Option UInt8} {factor : Nat} (h : sizeFactor last = some factor) :
    ∃ unit upper c, last = some c ∧ SizeUnit.suffix upper unit = [c] := by
  unfold sizeFactor at h
  split_ifs at h with hkilo hmega hgiga
  · rcases hkilo with rfl | rfl
    · exact ⟨.kilo, false, 107, rfl, rfl⟩
    · exact ⟨.kilo, true, 75, rfl, rfl⟩
  · rcases hmega with rfl | rfl
    · exact ⟨.mega, false, 109, rfl, rfl⟩
    · exact ⟨.mega, true, 77, rfl, rfl⟩
  · rcases hgiga with rfl | rfl
    · exact ⟨.giga, false, 103, rfl, rfl⟩
    · exact ⟨.giga, true, 71, rfl, rfl⟩

/-- Only a decimal number with a unit is accepted. -/
theorem sizeText_of_parseSize
    {directive text : Bytes} {n : Nat} (h : parseSize directive text = .ok n) :
    ∃ size : SizeText, Utf8.trim text = size.text := by
  unfold parseSize at h
  dsimp only at h
  generalize Utf8.trim text = s at h ⊢
  cases hfactor : sizeFactor s.getLast? with
  | none =>
      simp only [hfactor] at h
      cases hnum : Decimal.parseUnsigned Decimal.usizeBound s with
      | none => simp [hnum] at h
      | some d =>
          obtain ⟨plus, digits, hs, hne, hdigits⟩ := numeral_of_parseUnsigned hnum
          exact ⟨⟨plus, digits, .bytes, false, hne, hdigits⟩, by simpa [SizeText.text,
            SizeText.numeral, SizeUnit.suffix] using hs⟩
  | some factor =>
      simp only [hfactor] at h
      cases hnum : Decimal.parseUnsigned Decimal.usizeBound (s.take (s.length - 1)) with
      | none => simp [hnum] at h
      | some d =>
          obtain ⟨plus, digits, hs, hne, hdigits⟩ := numeral_of_parseUnsigned hnum
          obtain ⟨unit, upper, c, hlast, hsuffix⟩ := unit_of_sizeFactor hfactor
          refine ⟨⟨plus, digits, unit, upper, hne, hdigits⟩, ?_⟩
          rw [SizeText.text, SizeText.numeral, hsuffix, ← hs, ← List.dropLast_eq_take]
          exact (List.dropLast_append_getLast? c hlast).symm

/-! ### The limits of a body -/

section Table

variable {σ α γ : Type} {table : Directives σ} {name : Bytes}
  {check : Bytes → Except ConfigError α} {f : α → σ → σ}

theorem checkedWord_ok
    {st st' : σ} {ts : List Token} {rest : Rest ts}
    (h : checkedWord check f st ts = .ok (st', rest)) :
    ∃ v ts' a, ts = .word v :: ts' ∧ check v = .ok a ∧ st' = f a st := by
  obtain ⟨v, rest₁, rest₂, hword, h⟩ := bind_ok h
  obtain ⟨a, rest₃, rest₄, hcheck, h⟩ := bind_ok h
  obtain ⟨_, rest₅, rest₆, _, h⟩ := bind_ok h
  obtain ⟨ts', hts⟩ := expectWord_ok hword
  exact ⟨v, ts', a, hts, ofExcept_ok hcheck, (congrArg Prod.fst (Except.ok.inj h)).symm⟩

/-- Of the directives of a name, which alone write a field, the last one decides. -/
theorem parseBlock_last
    (field : σ → γ) (value : α → γ)
    (hlookup : table.lookup name = some (checkedWord check f))
    (hset : ∀ a st, field (f a st) = value a)
    (hkeep : ∀ c other, other ≠ name →
      Keeps (fun st => field st = c) (runDirective table unknownDirective other))
    {block : Block} {s st : σ} {ts : List Token} {rest : Rest ts}
    (h : parseBlock block table s ts = .ok (st, rest)) {text : Bytes}
    (hlast : (itemArgs name (blockItems block table s ts)).getLast? = some text) :
    ∃ a, check text = .ok a ∧ field st = value a := by
  refine block_rule (P := fun items st => ∀ text, (itemArgs name items).getLast? = some text →
    ∃ a, check text = .ok a ∧ field st = value a) ?_ ?_ h text hlast
  · intro before other st ts st' rest hst hstep text htext
    by_cases hname : other = name
    · subst hname
      have hrun : checkedWord check f st ts = .ok (st', rest) := by
        unfold runDirective at hstep
        rw [hlookup] at hstep
        exact hstep
      obtain ⟨v, ts', a, rfl, hcheck, rfl⟩ := checkedWord_ok hrun
      rw [itemArgs_append_word, List.getLast?_concat] at htext
      cases htext
      exact ⟨a, hcheck, hset a st⟩
    · rw [itemArgs_append_other hname] at htext
      obtain ⟨a, hcheck, hfield⟩ := hst text htext
      exact ⟨a, hcheck, (hkeep (field st) other hname st rfl ts st' rest hstep).trans hfield⟩
  · intro text htext
    cases htext

end Table

/-- The directive that sets the limit of a body. -/
def bodySize : Bytes :=
  ascii "client_max_body_size"

section Blocks

variable (lib : Libraries) (files : ConfigFiles) (configPath : Bytes)

theorem keeps_locationLimit
    (c : Option Nat) {name : Bytes} (h : name ≠ bodySize) :
    Keeps (fun st => st.clientMaxBodySize = c)
      (runDirective (locationDirectives lib) unknownDirective name) := by
  have hnames : ∀ e ∈ locationFields, e.2 = .clientMaxBodySize → e.1 = bodySize := by
    decide
  exact keeps_other (locationDirectives_shapes lib) (locationShapes_edit lib)
    .clientMaxBodySize c
    (fun name _ _ hnested => absurd hnested (locationShapes_simple lib name))
    fun hmem => h (hnames _ hmem rfl)

theorem keeps_serverLimit
    (c : Option Nat) {name : Bytes} (h : name ≠ bodySize) :
    Keeps (fun st => st.block.clientMaxBodySize = c)
      (runDirective (serverDirectives lib) unknownDirective name) := by
  have hnames : ∀ e ∈ serverFields, e.2 = .clientMaxBodySize → e.1 = bodySize := by
    decide
  exact keeps_other (serverDirectives_shapes lib) serverShapes_edit .clientMaxBodySize c
    (keeps_serverNested .clientMaxBodySize (by decide) c) fun hmem => h (hnames _ hmem rfl)

theorem httpDirectives_limit
    (c : Nat) :
    ∀ entry ∈ httpDirectives lib files configPath,
      entry.1 ∈ [bodySize] ∨ Keeps (fun st => st.http.clientMaxBodySize = c) entry.2 := by
  have hadd : ∀ (st : HttpReader) server, st.http.clientMaxBodySize = c →
      (st.add server).http.clientMaxBodySize = c :=
    fun _ _ h => h
  simp only [httpDirectives, List.forall_mem_cons]
  exact ⟨.inr (keeps_word fun _ _ h => h), .inr (keeps_anyWords fun _ _ h => h),
    .inr (keeps_checkedWord fun _ _ h => h), .inr (keeps_parsed fun _ _ h => h),
    .inl (by simp [bodySize]), .inr (keeps_parsed fun _ _ h => h),
    .inr (keeps_checkedWord fun _ _ h => h), .inr (keeps_word fun _ _ h => h),
    .inr (keeps_word fun _ _ h => h), .inr (keeps_word fun _ _ h => h),
    .inr (keeps_word fun _ _ h => h), .inr (keeps_anyWords fun _ _ h => h),
    .inr (keeps_checkedWord fun _ _ h => h), .inr (keeps_anyWords fun _ _ h => h),
    .inr (keeps_parsed fun _ _ h => h), .inr (keeps_serverDirective hadd),
    .inr (keeps_includeDirective files configPath hadd), by simp⟩

variable {lib files configPath}

/-- The limit of an http block is that of its last directive about it. -/
theorem http_limit
    {http : HttpBlock} {ts : List Token} {rest : Rest ts} {text : Bytes}
    (h : parseHttpBlock lib files configPath ts = .ok (http, rest))
    (hlast : (itemArgs bodySize (httpItems lib files configPath ts)).getLast? = some text) :
    ∃ n, parseBodySize text = .ok n ∧ http.clientMaxBodySize = n := by
  obtain ⟨st, rest₁, rest₂, hblock, h⟩ := bind_ok h
  obtain rfl : st.http = http := congrArg Prod.fst (Except.ok.inj h)
  exact parseBlock_last (fun st => st.http.clientMaxBodySize) id
    (f := onHttp fun n h => { h with clientMaxBodySize := n }) rfl
    (fun _ _ => rfl) (fun c name hname => keeps_runDirective_of_not_mem
      (httpDirectives_limit lib files configPath c) keeps_unknown (by simpa using hname))
    hblock hlast

theorem server_limit
    {server : ServerBlock} {ts : List Token} {text : Bytes}
    (h : ServerText lib server ts)
    (hlast : (itemArgs bodySize (serverItems lib ts)).getLast? = some text) :
    ∃ n, parseBodySize text = .ok n ∧ server.clientMaxBodySize = some n := by
  obtain ⟨rest, h⟩ := h
  obtain ⟨st, rest₁, rest₂, hblock, h⟩ := bind_ok h
  obtain rfl : st.block = server := congrArg Prod.fst (Except.ok.inj h)
  exact parseBlock_last (fun st => st.block.clientMaxBodySize) some rfl (fun _ _ => rfl)
    (fun c _ => keeps_serverLimit lib c) hblock hlast

theorem location_limit
    {loc : LocationBlock} {ts : List Token} {text : Bytes}
    (h : LocationText lib loc ts)
    (hlast : (itemArgs bodySize (locationItems lib ts)).getLast? = some text) :
    ∃ n, parseBodySize text = .ok n ∧ loc.clientMaxBodySize = some n := by
  obtain ⟨rest, h⟩ := h
  obtain ⟨pattern, rest₁, rest₂, hhead, h⟩ := bind_ok h
  obtain ⟨st, rest₃, rest₄, hblock, h⟩ := bind_ok h
  have hitems : locationItems lib ts =
      blockItems .location (locationDirectives lib) .initial rest₁.1 := by
    simp [locationItems, hhead]
  rw [hitems] at hlast
  obtain rfl : st.finish pattern = loc := congrArg Prod.fst (Except.ok.inj h)
  exact parseBlock_last LocationReader.clientMaxBodySize some rfl (fun _ _ => rfl)
    (fun c _ => keeps_locationLimit lib c) hblock hlast

end Blocks

/-! ### Exact sizes -/

/--
A size is read as the amount that its text stands for, or refused where that does not fit,
and it is stored cut at the ceiling where it is the last one of its block.
-/
structure SizeExact (text : Bytes) (size : SizeText) : Prop where
  parsed : ∀ directive, (parseSize directive text).toOption =
    if size.amount < Decimal.usizeBound then some size.amount else none
  http : ∀ lib files configPath http ts (rest : Rest ts),
    parseHttpBlock lib files configPath ts = .ok (http, rest) →
      (itemArgs bodySize (httpItems lib files configPath ts)).getLast? = some text →
        http.clientMaxBodySize = min size.amount absoluteMaxBodyBytes
  server : ∀ lib server ts, ServerText lib server ts →
    (itemArgs bodySize (serverItems lib ts)).getLast? = some text →
      server.clientMaxBodySize = some (min size.amount absoluteMaxBodyBytes)
  location : ∀ lib loc ts, LocationText lib loc ts →
    (itemArgs bodySize (locationItems lib ts)).getLast? = some text →
      loc.clientMaxBodySize = some (min size.amount absoluteMaxBodyBytes)

section Exact

variable {text : Bytes} {size : SizeText}

theorem parseBodySize_eq_ok_iff
    (h : Utf8.trim text = size.text) {n : Nat} :
    parseBodySize text = .ok n ↔ size.number < Decimal.usizeBound ∧
      min (size.amount % Decimal.usizeBound) absoluteMaxBodyBytes = n := by
  unfold parseBodySize
  rw [parseSize_eq h]
  by_cases hfits : size.number < Decimal.usizeBound
  · simp [hfits, Except.map]
  · simp [hfits, Except.map]

theorem number_le_amount (size : SizeText) : size.number ≤ size.amount := by
  refine Nat.le_mul_of_pos_right _ ?_
  cases size.unit <;> decide

/-- The size read is exact unless the number fits and the product does not. -/
theorem parseSize_exact_iff
    (h : Utf8.trim text = size.text) (directive : Bytes) :
    (parseSize directive text).toOption =
        (if size.amount < Decimal.usizeBound then some size.amount else none) ↔
      size.amount < Decimal.usizeBound ∨ Decimal.usizeBound ≤ size.number := by
  have hle := number_le_amount size
  rw [parseSize_eq h]
  by_cases hamount : size.amount < Decimal.usizeBound
  · have hfits : size.number < Decimal.usizeBound := Nat.lt_of_le_of_lt hle hamount
    simp [hamount, hfits, Except.toOption, Nat.mod_eq_of_lt hamount]
  · by_cases hfits : size.number < Decimal.usizeBound
    · simp [hamount, hfits, Except.toOption]
    · simp [hamount, hfits, Except.toOption]
      omega

/-- A limit that is stored for an amount that fits. -/
theorem limit_of_fits
    (h : Utf8.trim text = size.text)
    (hcond : size.amount < Decimal.usizeBound ∨ Decimal.usizeBound ≤ size.number) {n : Nat}
    (hn : parseBodySize text = .ok n) :
    n = min size.amount absoluteMaxBodyBytes := by
  obtain ⟨hfits, rfl⟩ := (parseBodySize_eq_ok_iff h).mp hn
  have hamount : size.amount < Decimal.usizeBound :=
    hcond.resolve_right (Nat.not_le.mpr hfits)
  rw [Nat.mod_eq_of_lt hamount]

/--
What is accepted is a decimal number with a unit, and it is exact, in the three blocks too,
unless the number fits and the product does not.
-/
theorem sizes_exact_iff
    (text : Bytes) :
    (∀ directive n, parseSize directive text = .ok n →
        ∃ size : SizeText, Utf8.trim text = size.text) ∧
      ∀ size : SizeText, Utf8.trim text = size.text →
        (SizeExact text size ↔
          size.amount < Decimal.usizeBound ∨ Decimal.usizeBound ≤ size.number) := by
  refine ⟨fun directive n h => sizeText_of_parseSize h, fun size h => ⟨fun hexact => ?_,
    fun hcond => ⟨fun directive => (parseSize_exact_iff h directive).mpr hcond, ?_, ?_, ?_⟩⟩⟩
  · exact (parseSize_exact_iff h []).mp (hexact.parsed [])
  · intro lib files configPath http ts rest hread hlast
    obtain ⟨n, hn, rfl⟩ := http_limit hread hlast
    exact limit_of_fits h hcond hn
  · intro lib server ts hread hlast
    obtain ⟨n, hn, hlimit⟩ := server_limit hread hlast
    rw [hlimit, limit_of_fits h hcond hn]
  · intro lib loc ts hread hlast
    obtain ⟨n, hn, hlimit⟩ := location_limit hread hlast
    rw [hlimit, limit_of_fits h hcond hn]

/-- The ceiling hides a product that has wrapped around to something above it. -/
theorem limit_exact_iff
    (h : Utf8.trim text = size.text) :
    parseBodySize text = .ok (min size.amount absoluteMaxBodyBytes) ↔
      size.number < Decimal.usizeBound ∧ (size.amount < Decimal.usizeBound ∨
        absoluteMaxBodyBytes ≤ size.amount % Decimal.usizeBound) := by
  rw [parseBodySize_eq_ok_iff h]
  refine and_congr_right fun _ => ?_
  have hceiling : absoluteMaxBodyBytes < Decimal.usizeBound := by decide
  by_cases hamount : size.amount < Decimal.usizeBound
  · simp [hamount, Nat.mod_eq_of_lt hamount]
  · have hmod := Nat.mod_le size.amount Decimal.usizeBound
    simp only [hamount, false_or]
    omega

end Exact

/-- Four mebibytes, written with white space around. -/
def fourMega : SizeText :=
  ⟨false, ascii "4", .mega, false, by decide, by decide⟩

theorem sizes_exact_example : SizeExact (ascii " 4m") fourMega :=
  ((sizes_exact_iff (ascii " 4m")).2 fourMega (by decide)).mpr (Or.inl (by decide))

/-- The first number of gibibytes that does not fit. -/
def wrappedGiga : SizeText :=
  ⟨false, ascii "17179869184", .giga, false, by decide, by decide⟩

/-- A limit of sixteen exbibytes is read as no byte at all. -/
theorem limit_wraps :
    parseBodySize (ascii "17179869184g") = .ok 0 ∧
      ¬ SizeExact (ascii "17179869184g") wrappedGiga := by
  have htrim : Utf8.trim (ascii "17179869184g") = wrappedGiga.text := by decide
  refine ⟨(parseBodySize_eq_ok_iff htrim).mpr (by decide), fun hexact => ?_⟩
  have hcond := (parseSize_exact_iff htrim []).mp (hexact.parsed [])
  exact absurd hcond (by decide)

end ConfigParser
end RunNginx
