import Mathlib.Algebra.Ring.Nat
import Mathlib.Data.List.Basic

/-!
# The Gregorian calendar

Dates of the proleptic Gregorian calendar, with years from 0 on, and the number of days in
front of a date.  Months and days of a month are counted from 0.

`dayNumber_inj`: a date is determined by its number.
-/

namespace Gregorian

/-- A year that four divides, but no full century unless 400 divides it. -/
def leapYear (y : Nat) : Bool :=
  y % 4 == 0 && (y % 100 != 0 || y % 400 == 0)

def yearLength (y : Nat) : Nat :=
  if leapYear y then 366 else 365

def monthLengths (y : Nat) : List Nat :=
  [31, if leapYear y then 29 else 28, 31, 30, 31, 30, 31, 31, 30, 31, 30, 31]

/-- The leap years before a year are counted by their divisors. -/
def daysBeforeYear (y : Nat) : Nat :=
  365 * y + (y + 3) / 4 - (y + 99) / 100 + (y + 399) / 400

structure Date where
  year : Nat
  month : Nat
  day : Nat
  month_lt : month < 12
  day_lt : ∀ n ∈ (monthLengths year)[month]?, day < n

/-- The number of days in front of a date. -/
def dayNumber (d : Date) : Nat :=
  daysBeforeYear d.year + ((monthLengths d.year).take d.month).sum + d.day

section Blocks

variable {ls : List Nat} {i j r r' n : Nat}

/-- A position is in one block of a row of blocks. -/
theorem block_unique
    (hi : ls[i]? = some n) (hr : r < n) {m : Nat} (hj : ls[j]? = some m) (hr' : r' < m)
    (h : (ls.take i).sum + r = (ls.take j).sum + r') :
    i = j ∧ r = r' := by
  induction ls generalizing i j with
  | nil => cases hi
  | cons l ls ih =>
      cases i with
      | zero =>
          cases hi
          cases j with
          | zero => exact ⟨rfl, by simpa using h⟩
          | succ j =>
              rw [List.take_zero, List.take_succ_cons, List.sum_nil, List.sum_cons] at h
              omega
      | succ i =>
          cases j with
          | zero =>
              cases hj
              rw [List.take_zero, List.take_succ_cons, List.sum_nil, List.sum_cons] at h
              omega
          | succ j =>
              rw [List.take_succ_cons, List.take_succ_cons, List.sum_cons, List.sum_cons] at h
              obtain ⟨rfl, rfl⟩ := ih hi hj (by omega)
              exact ⟨rfl, rfl⟩

/-- Every block begins before the end of the row. -/
theorem take_sum_add_lt
    (hi : ls[i]? = some n) (hr : r < n) :
    (ls.take i).sum + r < ls.sum := by
  obtain ⟨hlt, rfl⟩ := List.getElem?_eq_some_iff.mp hi
  have hsplit : ls.sum = (ls.take i).sum + (ls[i] + (ls.drop (i + 1)).sum) := by
    conv_lhs => rw [← List.take_append_drop i ls, List.sum_append, List.drop_eq_getElem_cons hlt,
      List.sum_cons]
  omega

end Blocks

theorem sum_monthLengths
    (y : Nat) :
    (monthLengths y).sum = yearLength y := by
  unfold monthLengths yearLength
  cases leapYear y <;> rfl

/-- A multiple is passed every so many years. -/
theorem ceil_succ
    {n : Nat} (hn : 0 < n) (y : Nat) :
    (y + 1 + (n - 1)) / n = (y + (n - 1)) / n + if y % n = 0 then 1 else 0 := by
  have hdiv := Nat.div_add_mod y n
  have hmod := Nat.mod_lt y hn
  generalize y / n = q at hdiv
  generalize y % n = r at hdiv hmod
  have hnext : y + 1 + (n - 1) = r + n * (q + 1) := by
    rw [Nat.mul_add]
    omega
  have hlast : (y + (n - 1)) = r + (n - 1) + n * q := by
    omega
  rw [hnext, hlast, Nat.add_mul_div_left _ _ hn, Nat.add_mul_div_left _ _ hn,
    Nat.div_eq_of_lt hmod]
  split
  · rename_i hr
    have hzero : (r + (n - 1)) / n = 0 := by
      rw [hr, Nat.zero_add, Nat.div_eq_of_lt (Nat.sub_lt hn Nat.one_pos)]
    omega
  · have hone : (r + (n - 1)) / n = 1 := by
      rw [Nat.div_eq_iff hn]
      omega
    omega

theorem daysBeforeYear_succ
    (y : Nat) :
    daysBeforeYear (y + 1) = daysBeforeYear y + yearLength y := by
  have hfour := @ceil_succ 4 (by decide) y
  have hcentury := @ceil_succ 100 (by decide) y
  have hfourth := @ceil_succ 400 (by decide) y
  have hle : (y + 99) / 100 ≤ (y + 3) / 4 := by
    omega
  have hdvd : y % 100 = 0 → y % 4 = 0 := by
    omega
  have hdvd' : y % 400 = 0 → y % 100 = 0 := by
    omega
  unfold daysBeforeYear yearLength leapYear
  simp only [Nat.reduceSub] at hfour hcentury hfourth
  rw [hfour, hcentury, hfourth]
  clear hfour hcentury hfourth
  simp only [Bool.and_eq_true, Bool.or_eq_true, beq_iff_eq, bne_iff_ne]
  generalize (y + 3) / 4 = a at hle
  generalize (y + 99) / 100 = b at hle
  generalize (y + 399) / 400 = c
  generalize y % 4 = r at hdvd
  generalize y % 100 = s at hdvd hdvd'
  generalize y % 400 = t at hdvd'
  by_cases hs : s = 0
  · rw [if_pos hs, if_pos (hdvd hs)]
    by_cases ht : t = 0
    · rw [if_pos ht, if_pos ⟨hdvd hs, .inr ht⟩]
      omega
    · rw [if_neg ht, if_neg fun h => h.2.elim (fun h => h hs) ht]
      omega
  · rw [if_neg hs, if_neg fun ht => hs (hdvd' ht)]
    by_cases hr : r = 0
    · rw [if_pos hr, if_pos ⟨hr, .inl hs⟩]
      omega
    · rw [if_neg hr, if_neg fun h => hr h.1]
      omega

theorem daysBeforeYear_mono
    {y y' : Nat} (h : y ≤ y') :
    daysBeforeYear y ≤ daysBeforeYear y' := by
  induction h with
  | refl => exact Nat.le_refl _
  | @step y' h ih =>
      rw [daysBeforeYear_succ]
      omega

theorem dayNumber_lt
    (d : Date) :
    dayNumber d < daysBeforeYear (d.year + 1) := by
  obtain ⟨n, hn⟩ : ∃ n, (monthLengths d.year)[d.month]? = some n :=
    ⟨_, List.getElem?_eq_getElem d.month_lt⟩
  have hlt := take_sum_add_lt hn (d.day_lt n hn)
  rw [sum_monthLengths] at hlt
  rw [daysBeforeYear_succ, dayNumber]
  omega

/-- A date is determined by its number. -/
theorem dayNumber_inj
    {d d' : Date} (h : dayNumber d = dayNumber d') :
    d = d' := by
  have hle : ∀ {d d' : Date}, dayNumber d = dayNumber d' → d.year ≤ d'.year := by
    intro d d' h
    by_contra hlt
    have hbefore : daysBeforeYear (d'.year + 1) ≤ daysBeforeYear d.year :=
      daysBeforeYear_mono (Nat.lt_of_not_le hlt)
    have hlast := dayNumber_lt d'
    rw [← h] at hlast
    have hfirst : daysBeforeYear d.year ≤ dayNumber d := by
      rw [dayNumber]
      omega
    omega
  have hyear : d.year = d'.year := Nat.le_antisymm (hle h) (hle h.symm)
  obtain ⟨y, m, r, hm, hr⟩ := d
  obtain ⟨y', m', r', hm', hr'⟩ := d'
  obtain rfl : y = y' := hyear
  obtain ⟨n, hn⟩ : ∃ n, (monthLengths y)[m]? = some n := ⟨_, List.getElem?_eq_getElem hm⟩
  obtain ⟨n', hn'⟩ : ∃ n, (monthLengths y)[m']? = some n := ⟨_, List.getElem?_eq_getElem hm'⟩
  have hsum : ((monthLengths y).take m).sum + r = ((monthLengths y).take m').sum + r' := by
    rw [dayNumber, dayNumber] at h
    dsimp only at h
    omega
  obtain ⟨rfl, rfl⟩ := block_unique hn (hr n hn) hn' (hr' n' hn') hsum
  rfl

/-- A point in time, to the second. -/
structure Instant where
  date : Date
  hour : Nat
  minute : Nat
  second : Nat
  hour_lt : hour < 24
  minute_lt : minute < 60
  second_lt : second < 60

/-- The seconds since the beginning of 1970. -/
def unixTime (t : Instant) : Int :=
  86400 * ((dayNumber t.date : Int) - daysBeforeYear 1970) +
    (3600 * t.hour + 60 * t.minute + t.second : Nat)

/-- An instant is determined by its time. -/
theorem unixTime_inj
    {t t' : Instant} (h : unixTime t = unixTime t') :
    t = t' := by
  obtain ⟨d, hh, mm, ss, h₁, h₂, h₃⟩ := t
  obtain ⟨d', hh', mm', ss', h₁', h₂', h₃'⟩ := t'
  unfold unixTime at h
  dsimp only at h
  have hdate : dayNumber d = dayNumber d' := by omega
  obtain rfl := dayNumber_inj hdate
  obtain ⟨rfl, rfl, rfl⟩ : hh = hh' ∧ mm = mm' ∧ ss = ss' := by omega
  rfl

end Gregorian
