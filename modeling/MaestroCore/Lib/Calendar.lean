import Mathlib.Data.Int.Notation
import Mathlib.Data.Nat.Notation
import Mathlib.Tactic.IntervalCases
import Mathlib.Tactic.Ring

/-!
# The Gregorian Calendar

Civil dates, and the days after and before each of them. A date carries the proof that there
is such a day. The days are numbered by counting from 1970-01-01, one day at a time.

`dayNumber` is the closed form of that count.

## Main results

* `dayNumber_next` and `dayNumber_prev`: the closed form grows by one from every day to the
  next.
* `dayNumber_dateOfDay`: so it is the number of the day.
* `year_bounds` and `year_of_dayNumber`: the years of the days, from their numbers.
* `dayNumber_lt_iff`: the days are numbered in the order of their dates.
* `iterate_next_eq_iff`: the number of a day is the number of steps to it.
-/

namespace Calendar

/-- The leap years of the Gregorian calendar. -/
def isLeap (year : ℤ) : Bool := (year % 4 = 0 && year % 100 ≠ 0) || year % 400 = 0

/-- The number of the days of a month, January being 1. -/
def monthLength (year : ℤ) (month : ℕ) : ℕ :=
  if month = 2 then (if isLeap year then 29 else 28)
  else if month = 4 ∨ month = 6 ∨ month = 9 ∨ month = 11 then 30
  else 31

/-- A day of the calendar. -/
structure Date where
  year : ℤ
  month : ℕ
  day : ℕ
  month_pos : 1 ≤ month
  month_le : month ≤ 12
  day_pos : 1 ≤ day
  day_le : day ≤ monthLength year month
  deriving DecidableEq

/-- A month has at least 28 days. -/
theorem monthLength_ge (year : ℤ) (month : ℕ) : 28 ≤ monthLength year month := by
  rw [monthLength]
  split
  · split <;> omega
  · split <;> omega

/-- The day of a date is at most 31. -/
theorem Date.day_le_31 (d : Date) : d.day ≤ 31 := by
  have hle := d.day_le
  rw [monthLength] at hle
  split at hle <;> split at hle <;> omega

/-- The next day of the calendar. -/
def Date.next (d : Date) : Date :=
  if h : d.day < monthLength d.year d.month then
    { d with day := d.day + 1, day_pos := by omega, day_le := h }
  else if h' : d.month < 12 then
    { year := d.year, month := d.month + 1, day := 1
      month_pos := by omega, month_le := h', day_pos := le_refl 1
      day_le := Nat.le_trans (by omega) (monthLength_ge _ _) }
  else
    { year := d.year + 1, month := 1, day := 1
      month_pos := le_refl 1, month_le := by omega, day_pos := le_refl 1
      day_le := Nat.le_trans (by omega) (monthLength_ge _ _) }

/-- The day before it. -/
def Date.prev (d : Date) : Date :=
  if h : 1 < d.day then
    { d with day := d.day - 1, day_pos := by omega, day_le := by have := d.day_le; omega }
  else if h' : 1 < d.month then
    { year := d.year, month := d.month - 1, day := monthLength d.year (d.month - 1)
      month_pos := by omega, month_le := by have := d.month_le; omega
      day_pos := Nat.le_trans (by omega) (monthLength_ge _ _), day_le := le_refl _ }
  else
    { year := d.year - 1, month := 12, day := 31
      month_pos := by omega, month_le := le_refl 12, day_pos := by omega, day_le := le_refl 31 }

/-- The day with the number 0. -/
def epochDate : Date where
  year := 1970
  month := 1
  day := 1
  month_pos := le_refl 1
  month_le := by omega
  day_pos := le_refl 1
  day_le := Nat.le_trans (by omega) (monthLength_ge _ _)

/-- The day with the number, counted from 1970-01-01 on or back. -/
def dateOfDay : ℤ → Date
  | .ofNat n => Date.next^[n] epochDate
  | .negSucc n => Date.prev^[n + 1] epochDate

/-- A time of the day. -/
structure Clock where
  hour : ℕ
  min : ℕ
  sec : ℕ
  hour_lt : hour < 24
  min_lt : min < 60
  sec_lt : sec < 60
  deriving DecidableEq

/-- The beginning of the minute. -/
def Clock.minute (t : Clock) : Clock := { t with sec := 0, sec_lt := by omega }

/-! ### The closed form -/

/-- The number of the first day of a year. -/
def yearStart (year : ℤ) : ℤ :=
  (year - 1970) * 365 + (year - 1969) / 4 - (year - 1901) / 100 + (year - 1601) / 400

/-- The number of the days of a year before a month, January being 0. -/
def monthStart (year : ℤ) : ℕ → ℕ
  | 0 => 0
  | month + 1 => monthStart year month + monthLength year (month + 1)

/-- The number of a day. -/
def Date.dayNumber (d : Date) : ℤ :=
  yearStart d.year + monthStart d.year (d.month - 1) + (d.day - 1 : ℕ)

/-- The seconds from the beginning of 1970-01-01 to a time on a day. -/
def Date.epoch (d : Date) (t : Clock) : ℤ :=
  d.dayNumber * 86400 + (t.hour * 3600 + t.min * 60 + t.sec)

/-- The Gregorian rule for leap years. -/
theorem isLeap_eq_true {year : ℤ} :
    isLeap year = true ↔ year % 4 = 0 ∧ year % 100 ≠ 0 ∨ year % 400 = 0 := by
  simp [isLeap]

/-- A year has 365 days, and a leap year one more. -/
theorem yearStart_succ (year : ℤ) :
    yearStart (year + 1) = yearStart year + 365 + if isLeap year then 1 else 0 := by
  have hleap : isLeap year = true ↔ _ := isLeap_eq_true
  rw [yearStart, yearStart]
  split
  · rename_i h
    have := hleap.mp h
    omega
  · rename_i h
    have := mt hleap.mpr h
    omega

/-- December starts after 334 days, and in a leap year after one more. -/
theorem monthStart_eleven (year : ℤ) :
    monthStart year 11 = 334 + if isLeap year then 1 else 0 := by
  cases hleap : isLeap year <;> simp [monthStart, monthLength, hleap]

/-- **The closed form grows by one from every day to the next.** -/
theorem dayNumber_next (d : Date) : d.next.dayNumber = d.dayNumber + 1 := by
  have hday := d.day_pos
  have hmonth := d.month_pos
  have hle := d.day_le
  rw [Date.next]
  split
  · simp only [Date.dayNumber]
    omega
  · rename_i hlast
    split
    · simp only [Date.dayNumber]
      have hstart : monthStart d.year d.month =
          monthStart d.year (d.month - 1) + monthLength d.year d.month := by
        obtain ⟨m, hm⟩ : ∃ m, d.month = m + 1 := ⟨d.month - 1, by omega⟩
        rw [hm, monthStart, Nat.add_sub_cancel]
      rw [Nat.add_sub_cancel, hstart]
      omega
    · have htwelve : d.month = 12 := by
        have := d.month_le
        omega
      have hlength : monthLength d.year 12 = 31 := rfl
      rw [htwelve] at hle hlast
      have hjanuary : monthStart (d.year + 1) (1 - 1) = 0 := rfl
      have hdecember : monthStart d.year (12 - 1) = _ := monthStart_eleven d.year
      simp only [Date.dayNumber, htwelve, yearStart_succ, hjanuary, hdecember]
      split <;> omega

/-- The day before a day comes before it. -/
theorem dayNumber_prev (d : Date) : d.prev.dayNumber = d.dayNumber - 1 := by
  have hday := d.day_pos
  have hmonth := d.month_pos
  rw [Date.prev]
  split
  · simp only [Date.dayNumber]
    omega
  · split
    · simp only [Date.dayNumber]
      have hstart : monthStart d.year (d.month - 1) =
          monthStart d.year (d.month - 1 - 1) + monthLength d.year (d.month - 1) := by
        obtain ⟨m, hm⟩ : ∃ m, d.month = m + 2 := ⟨d.month - 2, by omega⟩
        rw [hm]
        rfl
      have hpos := monthLength_ge d.year (d.month - 1)
      omega
    · have hone : d.month = 1 := by omega
      have hyear := yearStart_succ (d.year - 1)
      rw [sub_add_cancel] at hyear
      have hjanuary : monthStart d.year (1 - 1) = 0 := rfl
      have hdecember : monthStart (d.year - 1) (12 - 1) = _ := monthStart_eleven (d.year - 1)
      simp only [Date.dayNumber, hone, hyear, hjanuary, hdecember]
      split <;> omega

/-- **The closed form is the number of the day.** -/
theorem dayNumber_dateOfDay (n : ℤ) : (dateOfDay n).dayNumber = n := by
  have hepoch : epochDate.dayNumber = 0 := by decide
  have hnext : ∀ k : ℕ, (Date.next^[k] epochDate).dayNumber = k := by
    intro k
    induction k with
    | zero => exact hepoch
    | succ k ih =>
        rw [Function.iterate_succ_apply', dayNumber_next, ih]
        push_cast
        rfl
  have hprev : ∀ k : ℕ, (Date.prev^[k] epochDate).dayNumber = -k := by
    intro k
    induction k with
    | zero => exact hepoch
    | succ k ih =>
        rw [Function.iterate_succ_apply', dayNumber_prev, ih]
        push_cast
        ring
  cases n with
  | ofNat k => exact hnext k
  | negSucc k =>
      rw [dateOfDay, hprev]
      rfl

/-- A month is in its year. -/
theorem monthStart_le (year : ℤ) {month : ℕ} (h : month ≤ 11) :
    monthStart year month + monthLength year (month + 1) ≤ 365 + if isLeap year then 1 else 0 := by
  cases hleap : isLeap year <;> interval_cases month <;> simp [monthStart, monthLength, hleap]

/-- No month starts later than the next year does. -/
theorem monthStart_le_year (year : ℤ) {month : ℕ} (h : month ≤ 12) :
    monthStart year month ≤ 366 := by
  cases month with
  | zero => exact Nat.zero_le _
  | succ month =>
      have hle := monthStart_le year (show month ≤ 11 by omega)
      rw [monthStart]
      split at hle <;> omega

/-- A day is between the first days of its year and of the next one. -/
theorem year_bounds (d : Date) :
    yearStart d.year ≤ d.dayNumber ∧ d.dayNumber < yearStart (d.year + 1) := by
  have hmonth := d.month_pos
  have hle := d.month_le
  have hday := d.day_le
  have hpos := d.day_pos
  have hstart := monthStart_le d.year (show d.month - 1 ≤ 11 by omega)
  rw [Nat.sub_add_cancel hmonth] at hstart
  rw [yearStart_succ, Date.dayNumber]
  by_cases hleap : isLeap d.year
  · rw [if_pos hleap] at hstart ⊢
    omega
  · rw [if_neg hleap] at hstart ⊢
    omega

/-- The years of the days from 1970-01-01 on. -/
theorem year_of_dayNumber {d : Date} (h : 0 ≤ d.dayNumber) :
    1970 ≤ d.year ∧ (d.year - 1970) * 365 ≤ d.dayNumber := by
  have hbounds := year_bounds d
  have hyear : 1970 ≤ d.year := by
    by_contra hlt
    have hneg : yearStart (d.year + 1) ≤ 0 := by
      rw [yearStart]
      omega
    omega
  refine ⟨hyear, ?_⟩
  have hge : (d.year - 1970) * 365 ≤ yearStart d.year := by
    rw [yearStart]
    omega
  omega

/-! ### The order of the days -/

/-- A later year does not start earlier. -/
theorem yearStart_mono {year later : ℤ} (h : year ≤ later) : yearStart year ≤ yearStart later := by
  rw [yearStart, yearStart]
  omega

/-- A later month does not start earlier. -/
theorem monthStart_mono (year : ℤ) {month later : ℕ} (h : month ≤ later) :
    monthStart year month ≤ monthStart year later := by
  induction h with
  | refl => exact Nat.le_refl _
  | step _ ih => exact Nat.le_trans ih (Nat.le_add_right _ _)

/-- A date comes before another one, field by field. -/
def Date.Before (d e : Date) : Prop :=
  d.year < e.year ∨ d.year = e.year ∧ (d.month < e.month ∨ d.month = e.month ∧ d.day < e.day)

/-- An earlier date has the smaller day number. -/
theorem Date.Before.dayNumber_lt {d e : Date} (h : d.Before e) : d.dayNumber < e.dayNumber := by
  rcases h with hyear | ⟨hyear, hmonth | ⟨hmonth, hday⟩⟩
  · calc d.dayNumber < yearStart (d.year + 1) := (year_bounds d).2
      _ ≤ yearStart e.year := yearStart_mono hyear
      _ ≤ e.dayNumber := (year_bounds e).1
  · have hpos := d.month_pos
    have hday := d.day_le
    have hday' := d.day_pos
    have hnext : monthStart d.year d.month =
        monthStart d.year (d.month - 1) + monthLength d.year d.month := by
      obtain ⟨m, hm⟩ : ∃ m, d.month = m + 1 := ⟨d.month - 1, by omega⟩
      rw [hm, monthStart, Nat.add_sub_cancel]
    have hmono := monthStart_mono d.year (show d.month ≤ e.month - 1 by omega)
    rw [Date.dayNumber, Date.dayNumber, ← hyear]
    omega
  · have hpos := d.day_pos
    rw [Date.dayNumber, Date.dayNumber, hyear, hmonth]
    omega

/-- **The days are numbered in the order of their dates.** -/
theorem dayNumber_lt_iff {d e : Date} : d.dayNumber < e.dayNumber ↔ d.Before e := by
  refine ⟨fun h => ?_, Date.Before.dayNumber_lt⟩
  by_contra hnot
  have hcases : e.Before d ∨ d.year = e.year ∧ d.month = e.month ∧ d.day = e.day := by
    simp only [Date.Before] at hnot ⊢
    omega
  rcases hcases with hafter | ⟨hyear, hmonth, hday⟩
  · have hlt := hafter.dayNumber_lt
    omega
  · rw [Date.dayNumber, Date.dayNumber, hyear, hmonth, hday] at h
    exact lt_irrefl _ h

/-- The years of a range of days. -/
theorem year_range {d : Date} {first last : ℤ} (h : yearStart first ≤ d.dayNumber)
    (h' : d.dayNumber < yearStart (last + 1)) : first ≤ d.year ∧ d.year ≤ last := by
  obtain ⟨hge, hlt⟩ := year_bounds d
  constructor
  · by_contra hyear
    have hmono := yearStart_mono (show d.year + 1 ≤ first by omega)
    omega
  · by_contra hyear
    have hmono := yearStart_mono (show last + 1 ≤ d.year by omega)
    omega

/-! ### Counting from the epoch -/

/-- Dates with the same fields are the same. -/
theorem Date.eq_of_fields {d e : Date} (hyear : d.year = e.year) (hmonth : d.month = e.month)
    (hday : d.day = e.day) : d = e := by
  cases d
  cases e
  subst hyear hmonth hday
  rfl

/-- After the day before comes the day. -/
theorem Date.prev_next (d : Date) : d.prev.next = d := by
  have hday := d.day_pos
  have hmonth := d.month_pos
  have hle := d.day_le
  rw [Date.prev]
  split
  · rw [Date.next, dif_pos (by simp only; omega)]
    exact Date.eq_of_fields rfl rfl (by simp only; omega)
  · rename_i hfirst
    split
    · have hlast := d.month_le
      rw [Date.next, dif_neg (by simp only; omega), dif_pos (by simp only; omega)]
      exact Date.eq_of_fields rfl (by simp only; omega) (by simp only; omega)
    · have hlength : monthLength (d.year - 1) 12 = 31 := rfl
      rw [Date.next, dif_neg (by simp only [hlength]; omega), dif_neg (by simp only; omega)]
      exact Date.eq_of_fields (by simp only; omega) (by simp only; omega) (by simp only; omega)

/-- The day with the number 0 is the first of 1970. -/
theorem eq_epochDate_of_dayNumber {d : Date} (h : d.dayNumber = 0) : d = epochDate := by
  obtain ⟨hyear, hle⟩ := year_of_dayNumber (d := d) (by omega)
  have hnumber : d.dayNumber = yearStart d.year + monthStart d.year (d.month - 1) +
    (d.day - 1 : ℕ) := rfl
  have h1970 : d.year = 1970 := by omega
  have hstart : yearStart 1970 = 0 := rfl
  rw [h1970, hstart] at hnumber
  have hmonth : d.month = 1 := by
    by_contra hne
    have hpos := d.month_pos
    obtain ⟨m, hm⟩ : ∃ m, d.month - 1 = m + 1 := ⟨d.month - 2, by omega⟩
    have hlength := monthLength_ge 1970 (m + 1)
    rw [hm, monthStart] at hnumber
    omega
  have hpos := d.day_pos
  exact Date.eq_of_fields h1970 hmonth (show d.day = 1 by omega)

/-- **The number of a day is the number of steps to it** from 1970-01-01. -/
theorem iterate_next_eq_iff {d : Date} {n : ℕ} :
    Date.next^[n] epochDate = d ↔ d.dayNumber = n := by
  constructor
  · rintro rfl
    exact dayNumber_dateOfDay n
  · intro h
    induction n generalizing d with
    | zero => exact (eq_epochDate_of_dayNumber h).symm
    | succ n ih =>
        have hprev := dayNumber_prev d
        push_cast at h
        have hiterate := ih (d := d.prev) (by omega)
        rw [Function.iterate_succ_apply', hiterate, d.prev_next]

end Calendar
