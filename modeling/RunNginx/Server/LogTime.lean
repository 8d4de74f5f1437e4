import RunNginx.Lib.Decimal
import RunNginx.Lib.Framed
import RunNginx.Lib.Gregorian

/-!
# The time of a log entry

The formatter takes years off a number of days while they last, and then months.

`formatUnixTs_denotes`: up to the last year of 32 bits, what it prints is the date and the
time of day of the given second.  `formatUnixTs_inj`: no other second is printed so.
-/

namespace RunNginx
namespace AccessLog

open ByteString Decimal Gregorian

def isLeap (y : Nat) : Bool :=
  y % 4 == 0 && (y % 100 != 0 || y % 400 == 0)

def daysInMonth (month year : Nat) : Nat :=
  match month with
  | 0 | 2 | 4 | 6 | 7 | 9 | 11 => 31
  | 3 | 5 | 8 | 10 => 30
  | 1 => if isLeap year then 29 else 28
  | _ => 30

def months : List Bytes :=
  [ascii "Jan", ascii "Feb", ascii "Mar", ascii "Apr", ascii "May", ascii "Jun", ascii "Jul",
    ascii "Aug", ascii "Sep", ascii "Oct", ascii "Nov", ascii "Dec"]

/-- The days that are left, and the year.  Years are of 32 bits. -/
def yearLoop : Nat → Nat → Nat → Option (Nat × Nat)
  | 0, _, _ => none
  | fuel + 1, days, year =>
      let daysInYear := if isLeap year then 366 else 365
      if days < daysInYear then some (days, year)
      else yearLoop fuel (days - daysInYear) ((year + 1) % 2 ^ 32)

/-- The month, and the days that are left; a year without room for the days gives month 0. -/
def monthLoop (year : Nat) : List Nat → Nat → Nat × Nat
  | [], days => (0, days)
  | mo :: mos, days =>
      let dim := daysInMonth mo year
      if days < dim then (mo, days) else monthLoop year mos (days - dim)

/-- `{:0width}` -/
def padded (width n : Nat) : Bytes :=
  List.replicate (width - (render n).length) 48 ++ render n

/-- `{:02}/{}/{:04}:{:02}:{:02}:{:02} +0000` -/
def timeText (day : Nat) (month : Bytes) (year h m s : Nat) : Bytes :=
  padded 2 day ++ 47 :: (month ++ 47 :: (padded 4 year ++ 58 :: (padded 2 h ++
    58 :: (padded 2 m ++ 58 :: (padded 2 s ++ ascii " +0000")))))

/--
The time of a log entry; `none` if the name of the month is out of bounds.  Every turn of the
loop takes a day at least, so that their number is fuel enough.
-/
def formatUnixTs (ts : Nat) : Option Bytes :=
  let days := ts / 86400
  let timeOfDay := ts % 86400
  let h := timeOfDay / 3600
  let m := timeOfDay % 3600 / 60
  let s := timeOfDay % 60
  (yearLoop (days + 1) days 1970).bind fun (days, year) =>
    let (month, days) := monthLoop year (List.range 12) days
    months[month]?.map fun name => timeText (days + 1) name year h m s

/-- The text of an instant. -/
def instantText (t : Instant) : Bytes :=
  timeText (t.date.day + 1) (months[t.date.month]?.getD []) t.date.year t.hour t.minute t.second

section Loops

theorem yearLength_eq
    (y : Nat) :
    (if isLeap y then 366 else 365) = yearLength y :=
  rfl

theorem monthLengths_eq
    (y : Nat) :
    monthLengths y = (List.range 12).map fun mo => daysInMonth mo y :=
  rfl

/-- The loop over the years ends at the year of the day. -/
theorem yearLoop_spec
    {fuel days year : Nat}
    (hfuel : days < fuel) (hlast : daysBeforeYear year + days < daysBeforeYear (2 ^ 32)) :
    ∃ days' year', yearLoop fuel days year = some (days', year') ∧
      days' < yearLength year' ∧ year' < 2 ^ 32 ∧
        daysBeforeYear year' + days' = daysBeforeYear year + days := by
  have hbound : ∀ {y n}, daysBeforeYear y + n < daysBeforeYear (2 ^ 32) → y < 2 ^ 32 := by
    intro y n h
    by_contra hle
    have hmono := daysBeforeYear_mono (Nat.le_of_not_lt hle)
    omega
  induction fuel generalizing days year with
  | zero => cases hfuel
  | succ fuel ih =>
      rw [yearLoop, yearLength_eq]
      by_cases hdays : days < yearLength year
      · rw [if_pos hdays]
        exact ⟨days, year, rfl, hdays, hbound hlast, rfl⟩
      · rw [if_neg hdays]
        have hpos : 0 < yearLength year := by
          unfold yearLength
          split <;> decide
        have hnext : daysBeforeYear (year + 1) + (days - yearLength year) =
            daysBeforeYear year + days := by
          rw [daysBeforeYear_succ]
          omega
        have hyear : year + 1 < 2 ^ 32 := hbound (hnext ▸ hlast)
        rw [Nat.mod_eq_of_lt hyear]
        obtain ⟨days', year', hloop, hrest⟩ := ih (by omega) (hnext ▸ hlast)
        exact ⟨days', year', hloop, hnext ▸ hrest⟩

/-- The loop over the months ends at the month of the day. -/
theorem monthLoop_spec
    {year days : Nat} {mos : List Nat}
    (hdays : days < (mos.map fun mo => daysInMonth mo year).sum) :
    ∃ i mo days', monthLoop year mos days = (mo, days') ∧ mos[i]? = some mo ∧
      days' < daysInMonth mo year ∧
        ((mos.map fun mo => daysInMonth mo year).take i).sum + days' = days := by
  induction mos generalizing days with
  | nil => cases hdays
  | cons mo mos ih =>
      rw [monthLoop]
      by_cases hfirst : days < daysInMonth mo year
      · rw [if_pos hfirst]
        exact ⟨0, mo, days, rfl, rfl, hfirst, Nat.zero_add _⟩
      · rw [if_neg hfirst]
        rw [List.map_cons, List.sum_cons] at hdays
        obtain ⟨i, mo', days', hloop, hmo, hlt, hsum⟩ :=
          @ih (days - daysInMonth mo year) (by omega)
        refine ⟨i + 1, mo', days', hloop, hmo, hlt, ?_⟩
        rw [List.map_cons, List.take_succ_cons, List.sum_cons]
        omega

end Loops

section Denotes

/-- The loops end, the name of the month is in bounds, and the text is that of an instant. -/
theorem formatUnixTs_spec
    {ts : Nat} (hyear : daysBeforeYear 1970 + ts / 86400 < daysBeforeYear (2 ^ 32)) :
    ∃ t : Instant, unixTime t = ts ∧ t.date.year < 2 ^ 32 ∧
      formatUnixTs ts = some (instantText t) := by
  obtain ⟨days, year, hyears, hdays, hlt, hbefore⟩ :=
    yearLoop_spec (Nat.lt_succ_self (ts / 86400)) hyear
  rw [← sum_monthLengths, monthLengths_eq] at hdays
  obtain ⟨i, mo, day, hmonths, hmo, hday, hsum⟩ := monthLoop_spec hdays
  obtain ⟨hi, hrange⟩ := List.getElem?_eq_some_iff.mp hmo
  rw [List.getElem_range] at hrange
  subst hrange
  rw [List.length_range] at hi
  have hlength : (monthLengths year)[i]? = some (daysInMonth i year) := by
    rw [monthLengths_eq]
    simp [hi]
  refine ⟨⟨⟨year, i, day, hi, ?_⟩, ts % 86400 / 3600, ts % 86400 % 3600 / 60, ts % 86400 % 60,
    by omega, by omega, by omega⟩, ?_, hlt, ?_⟩
  · intro n hn
    rw [hlength] at hn
    rwa [← Option.some.inj hn]
  · rw [← monthLengths_eq] at hsum
    rw [unixTime, dayNumber]
    dsimp only
    omega
  · obtain ⟨name, hname⟩ : ∃ name, months[i]? = some name := ⟨_, List.getElem?_eq_getElem hi⟩
    rw [formatUnixTs]
    dsimp only
    rw [hyears, Option.bind_some]
    dsimp only
    rw [hmonths]
    dsimp only
    rw [hname, instantText, hname]
    rfl

example : formatUnixTs 1709251199 = some (ascii "29/Feb/2024:23:59:59 +0000") := by
  decide

end Denotes

section Text

theorem value_padded
    (width n : Nat) :
    value (padded width n) = n := by
  have hzeros : ∀ k s, value (List.replicate k 48 ++ s) = value s := by
    intro k s
    induction k with
    | zero => rfl
    | succ k ih => exact ih
  rw [padded, hzeros, value_render]

theorem isDigit_of_mem_padded
    {width n : Nat} {b : UInt8} (h : b ∈ padded width n) :
    isDigit b = true := by
  rcases List.mem_append.mp h with h | h
  · rw [List.eq_of_mem_replicate h]
    rfl
  · exact isDigit_of_mem_render h

theorem padded_inj
    {width n m : Nat} (h : padded width n = padded width m) :
    n = m := by
  rw [← value_padded width n, h, value_padded]

/-- Every part of the text of a time can be read from it. -/
theorem timeText_inj
    {day day' year year' h h' m m' s s' : Nat} {month month' : Bytes}
    (hmonth : (47 : UInt8) ∉ month) (hmonth' : (47 : UInt8) ∉ month')
    (heq : timeText day month year h m s = timeText day' month' year' h' m' s') :
    day = day' ∧ month = month' ∧ year = year' ∧ h = h' ∧ m = m' ∧ s = s' := by
  have hpart : ∀ {c : UInt8} {width n n' : Nat} {t t' : Bytes}, isDigit c = false →
      padded width n ++ c :: t = padded width n' ++ c :: t' → n = n' ∧ t = t' := by
    intro c width n n' t t' hc heq
    have hnot : ∀ k, c ∉ padded width k := by
      intro k hmem
      rw [isDigit_of_mem_padded hmem] at hc
      cases hc
    obtain ⟨hfront, hback⟩ := Framed.eq_of_quote (hnot n) (hnot n') heq
    exact ⟨padded_inj hfront, hback⟩
  unfold timeText at heq
  obtain ⟨hday, heq⟩ := hpart rfl heq
  obtain ⟨hname, heq⟩ := Framed.eq_of_quote hmonth hmonth' heq
  obtain ⟨hyear, heq⟩ := hpart rfl heq
  obtain ⟨hhour, heq⟩ := hpart rfl heq
  obtain ⟨hminute, heq⟩ := hpart rfl heq
  exact ⟨hday, hname, hyear, hhour, hminute, padded_inj (List.append_cancel_right heq)⟩

theorem monthName_spec
    {i j : Nat} (hi : i < 12) (hj : j < 12) :
    (47 : UInt8) ∉ months[i]?.getD [] ∧
      (months[i]?.getD [] = months[j]?.getD [] → i = j) := by
  have hall : ∀ i j : Fin 12, (47 : UInt8) ∉ months[i.val]?.getD [] ∧
      (months[i.val]?.getD [] = months[j.val]?.getD [] → i = j) := by
    decide +kernel
  obtain ⟨hslash, hsame⟩ := hall ⟨i, hi⟩ ⟨j, hj⟩
  exact ⟨hslash, fun h => congrArg Fin.val (hsame h)⟩

/-- An instant is determined by its text. -/
theorem unixTime_of_instantText
    {t t' : Instant} (heq : instantText t = instantText t') :
    unixTime t = unixTime t' := by
  obtain ⟨hslash, hsame⟩ := monthName_spec t.date.month_lt t'.date.month_lt
  have hslash' := (monthName_spec t'.date.month_lt t'.date.month_lt).1
  obtain ⟨hday, hname, hyear, hhour, hminute, hsecond⟩ := timeText_inj hslash hslash' heq
  have hdays : dayNumber t.date = dayNumber t'.date := by
    rw [dayNumber, dayNumber, hyear, hsame hname, Nat.succ.inj hday]
  rw [unixTime, unixTime, hdays, hhour, hminute, hsecond]

/-- Different seconds are printed differently. -/
theorem formatUnixTs_inj
    {ts ts' : Nat} (hyear : daysBeforeYear 1970 + ts / 86400 < daysBeforeYear (2 ^ 32))
    (hyear' : daysBeforeYear 1970 + ts' / 86400 < daysBeforeYear (2 ^ 32))
    (h : formatUnixTs ts = formatUnixTs ts') :
    ts = ts' := by
  obtain ⟨t, htime, -, htext⟩ := formatUnixTs_spec hyear
  obtain ⟨t', htime', -, htext'⟩ := formatUnixTs_spec hyear'
  rw [htext, htext'] at h
  have hsame := unixTime_of_instantText (Option.some.inj h)
  rw [htime, htime'] at hsame
  exact Int.ofNat.inj hsame

/-- The text of a time has neither a bracket nor a line end. -/
theorem of_mem_instantText
    {t : Instant} {b : UInt8} (h : b ∈ instantText t) :
    32 ≤ b ∧ b ≠ 93 := by
  have hdigit : ∀ b : UInt8, isDigit b = true → 32 ≤ b ∧ b ≠ 93 :=
    forall_byte (by decide +kernel)
  have hpadded : ∀ {width n : Nat}, b ∈ padded width n → 32 ≤ b ∧ b ≠ 93 :=
    fun hmem => hdigit b (isDigit_of_mem_padded hmem)
  have hname : ∀ i : Fin 12, (months[i.val]?.getD []).all (fun b => decide (32 ≤ b ∧ b ≠ 93)) =
      true := by
    decide +kernel
  have hzone : (ascii " +0000").all (fun b => decide (32 ≤ b ∧ b ≠ 93)) = true := rfl
  simp only [instantText, timeText, List.mem_append, List.mem_cons] at h
  rcases h with h | rfl | h | rfl | h | rfl | h | rfl | h | rfl | h | h
  · exact hpadded h
  · decide
  · exact of_decide_eq_true (List.all_eq_true.mp (hname ⟨_, t.date.month_lt⟩) b h)
  · decide
  · exact hpadded h
  · decide
  · exact hpadded h
  · decide
  · exact hpadded h
  · decide
  · exact hpadded h
  · exact of_decide_eq_true (List.all_eq_true.mp hzone b h)

end Text

end AccessLog
end RunNginx
