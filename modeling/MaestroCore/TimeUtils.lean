import MaestroCore.Lib.Calendar
import MaestroCore.Lib.Format

/-!
# Times, Dates and Their Texts

The functions of `time_utils.c` that convert between epochs, broken-down times and texts. The
arithmetic of `timegm` is done in `int`, and every operation on the way is checked here: one
whose result is no `int` is a fault, and so is an index outside `days_in_month`.

`gmtime` is the one of the standard library: the civil date and time of an instant, and nothing
when the year is no `int`.

## Main results

* `timegmDays_eq` and `timegm_date`: in the years 1969 to 9999, `timegm` counts the days as the
  calendar does.
* `timegmSeconds_eq_ok`: the rest of `timegm` has a result iff every part of it is an `int`.
* `FourDigits.gmtime` and `FourDigits.text`: the fields and the text of an epoch in the years 0
  to 9999.
-/

open CLang Calendar

namespace MaestroCore

/-- What makes a function of `time_utils.c` undefined. -/
inductive TimeFault
  | overflow
  | monthIndex
  | nullPointer
  | uninitialised
  deriving DecidableEq, Repr

/-- `struct tm`, as far as `timegm` reads it. -/
structure Tm where
  year : ℤ
  mon : ℤ
  mday : ℤ
  hour : ℤ
  min : ℤ
  sec : ℤ
  deriving DecidableEq, Repr

/-- The result of an operation on `int`. -/
def checkedInt (n : ℤ) : Except TimeFault ℤ :=
  if -2 ^ 31 ≤ n ∧ n < 2 ^ 31 then .ok n else .error .overflow

/-! ### `timegm` -/

/-- `days_in_month`. -/
def daysInMonth : List ℤ := [31, 28, 31, 30, 31, 30, 31, 31, 30, 31, 30, 31]

/-- The days before the year. -/
def timegmYears (year : ℤ) : Except TimeFault ℤ := do
  let years ← checkedInt ((← checkedInt (year - 1970)) * 365)
  let fourths := (← checkedInt (year - 1969)).tdiv 4
  let hundredths := (← checkedInt (year - 1901)).tdiv 100
  let fourHundredths := (← checkedInt (year - 1601)).tdiv 400
  let days ← checkedInt (years + fourths)
  let days ← checkedInt (days - hundredths)
  checkedInt (days + fourHundredths)

/-- The loop over the months: the number of iterations left, the index, and the days. -/
def timegmMonths : ℕ → ℕ → ℤ → Except TimeFault ℤ
  | 0, _, days => .ok days
  | left + 1, i, days =>
      match daysInMonth[i]? with
      | none => .error .monthIndex
      | some n => do
          let days ← checkedInt (days + n)
          timegmMonths left (i + 1) days

/-- The conversion to seconds. -/
def timegmSeconds (days hour min sec : ℤ) : Except TimeFault ℤ := do
  let hours ← checkedInt ((← checkedInt (days * 24)) + hour)
  let minutes ← checkedInt ((← checkedInt (hours * 60)) + min)
  checkedInt ((← checkedInt (minutes * 60)) + sec)

/-- The test for a leap year. -/
def timegmLeap (year : ℤ) : Bool :=
  (year.tmod 4 = 0 && year.tmod 100 ≠ 0) || year.tmod 400 = 0

/-- `timegm`. -/
def timegm (tm : Tm) : Except TimeFault ℤ := do
  let year ← checkedInt (tm.year + 1900)
  let day ← checkedInt (tm.mday - 1)
  let days ← timegmYears year
  let days ← timegmMonths tm.mon.toNat 0 days
  let days ← if 1 < tm.mon ∧ timegmLeap year then checkedInt (days + 1) else .ok days
  let days ← checkedInt (days + day)
  timegmSeconds days tm.hour tm.min tm.sec

/-! ### Broken-down times and their texts -/

/-- `gmtime` and `gmtime_r`. -/
def gmtime (epoch : ℤ) : Option Tm :=
  let date := dateOfDay (epoch / 86400)
  if -2 ^ 31 ≤ date.year - 1900 ∧ date.year - 1900 < 2 ^ 31 then
    some {
      year := date.year - 1900
      mon := date.month - 1
      mday := date.day
      hour := epoch % 86400 / 3600
      min := epoch % 3600 / 60
      sec := epoch % 60 }
  else none

/-- `"%04d-%02d-%02dT%02d:%02d"`. -/
def isoDateString : List FormatItem :=
  [.int 4, .lit 45, .int 2, .lit 45, .int 2, .lit 84, .int 2, .lit 58, .int 2]

/-- `"%04d-%02d-%02dT%02d:%02d:%02d%c%02d:%02d"`. -/
def isoDateStringFull : List FormatItem :=
  isoDateString ++ [.lit 58, .int 2, .char, .int 2, .lit 58, .int 2]

/-- `parse_iso_full_datetime_string_to_epoch`. -/
def parseIsoFullDatetimeStringToEpoch (s : Bytes) : Except TimeFault ℤ :=
  match sscanf isoDateStringFull (cstr s) with
  | [.int year, .int month, .int day, .int hour, .int min, .int sec, .char utcDirection,
      .int utcHour, .int _] =>
      if utcDirection = 43 then timegm ⟨year - 1900, month - 1, day, hour - utcHour, min, sec⟩
      else if utcDirection = 45 then
        timegm ⟨year - 1900, month - 1, day, hour + utcHour, min, sec⟩
      else .ok (-1)
  | _ => .ok (-1)

/-- `parse_iso_datetime_string_to_epoch`. -/
def parseIsoDatetimeStringToEpoch (s : Bytes) : Except TimeFault ℤ :=
  match sscanf isoDateString (cstr s) with
  | [.int year, .int month, .int day, .int hour, .int min] =>
      timegm ⟨year - 1900, month - 1, day, hour, min, 0⟩
  | _ => .ok (-1)

/-- `parse_epoch_to_iso_full_datetime_string`. -/
def parseEpochToIsoFullDatetimeString (epoch offsetHours : ℤ) : Except TimeFault Bytes :=
  match gmtime epoch with
  | none => .ok (ascii "Invalid datetime")
  | some tm =>
      if 12 < offsetHours ∨ offsetHours < -12 then .ok (ascii "Invalid UTC offset")
      else do
        let year ← checkedInt (tm.year + 1900)
        .ok (cstr (snprintf 26 (printf isoDateStringFull
          [.int year, .int (tm.mon + 1), .int tm.mday, .int tm.hour, .int tm.min, .int tm.sec,
            .char (if offsetHours < 0 then 45 else 43), .int offsetHours, .int 0])))

/-- `parse_epoch_to_iso_datetime_string`. -/
def parseEpochToIsoDatetimeString (epoch : ℤ) : Except TimeFault Bytes :=
  match gmtime epoch with
  | none => .ok (ascii "Invalid datetime")
  | some tm => do
      let year ← checkedInt (tm.year + 1900)
      .ok (cstr (snprintf 17 (printf isoDateString
        [.int year, .int (tm.mon + 1), .int tm.mday, .int tm.hour, .int tm.min])))

/-! ### The current time, rounded down -/

/-- The current time with some of its fields cleared. -/
def epochNow (clear : Tm → Tm) (now : ℤ) : Except TimeFault ℤ :=
  match gmtime now with
  | none => .error .nullPointer
  | some today => timegm (clear today)

/-- `epoch_now_day`. -/
def epochNowDay (now : ℤ) : Except TimeFault ℤ :=
  epochNow (fun today => { today with hour := 0, min := 0, sec := 0 }) now

/-- `epoch_now_hour`. -/
def epochNowHour (now : ℤ) : Except TimeFault ℤ :=
  epochNow (fun today => { today with min := 0, sec := 0 }) now

/-- `epoch_now_min`. -/
def epochNowMin (now : ℤ) : Except TimeFault ℤ :=
  epochNow (fun today => { today with sec := 0 }) now

/-- `epoch_now_day_utc`, which has its own `struct tm`. -/
def epochNowDayUtc (now : ℤ) : Except TimeFault ℤ :=
  match gmtime now with
  | none => .error .uninitialised
  | some tm => timegm { tm with hour := 0, min := 0, sec := 0 }

/-! ### What `timegm` computes -/

/-- The value is an `int`. -/
abbrev IsInt (n : ℤ) : Prop := -2 ^ 31 ≤ n ∧ n < 2 ^ 31

/-- A number in the range of `int` passes. -/
theorem checkedInt_eq {n : ℤ} (h : -2 ^ 31 ≤ n) (h' : n < 2 ^ 31) : checkedInt n = .ok n := by
  rw [checkedInt, if_pos ⟨h, h'⟩]

/-- Only numbers in the range of `int` pass, and unchanged. -/
theorem checkedInt_eq_ok {n m : ℤ} : checkedInt n = .ok m ↔ IsInt n ∧ n = m := by
  rw [checkedInt]
  split
  · rename_i h
    rw [Except.ok.injEq, and_iff_right h]
  · rename_i h
    simp [h]

/-- A sequence of operations has a result when each of them has one. -/
theorem bind_eq_ok {α β : Type} {x : Except TimeFault α} {f : α → Except TimeFault β} {b : β} :
    x >>= f = .ok b ↔ ∃ a, x = .ok a ∧ f a = .ok b := by
  cases x <;> simp [bind, Except.bind]

/-- The days before a year, when they are counted without overflow. -/
theorem timegmYears_eq_ok {year days : ℤ} : timegmYears year = .ok days ↔
    (IsInt (year - 1970) ∧ IsInt ((year - 1970) * 365) ∧ IsInt (year - 1969) ∧
      IsInt (year - 1901) ∧ IsInt (year - 1601) ∧
      IsInt ((year - 1970) * 365 + (year - 1969).tdiv 4) ∧
      IsInt ((year - 1970) * 365 + (year - 1969).tdiv 4 - (year - 1901).tdiv 100) ∧
      IsInt ((year - 1970) * 365 + (year - 1969).tdiv 4 - (year - 1901).tdiv 100 +
        (year - 1601).tdiv 400)) ∧
    (year - 1970) * 365 + (year - 1969).tdiv 4 - (year - 1901).tdiv 100 +
      (year - 1601).tdiv 400 = days := by
  simp only [timegmYears, bind_eq_ok, checkedInt_eq_ok, and_assoc, exists_and_left,
    exists_eq_left']

/-- The division of C, by the one that rounds down. -/
theorem tdiv_cases (a b : ℤ) :
    0 ≤ a ∧ a.tdiv b = a / b ∨ a < 0 ∧ a.tdiv b = -(-a / b) := by
  by_cases h : 0 ≤ a
  · exact Or.inl ⟨h, Int.tdiv_eq_ediv_of_nonneg h⟩
  · have hneg : a.tdiv b = -((-a).tdiv b) := by rw [Int.neg_tdiv, neg_neg]
    rw [hneg, Int.tdiv_eq_ediv_of_nonneg (by omega)]
    exact Or.inr ⟨by omega, rfl⟩

/-- The days before a year are those of the calendar. -/
theorem timegmYears_eq {year : ℤ} (h : 1969 ≤ year) (h' : year ≤ 9999) :
    timegmYears year = .ok (yearStart year) := by
  have hfourths : (year - 1969).tdiv 4 = (year - 1969) / 4 := Int.tdiv_eq_ediv_of_nonneg (by omega)
  have hhundredths : (year - 1901).tdiv 100 = (year - 1901) / 100 :=
    Int.tdiv_eq_ediv_of_nonneg (by omega)
  have hfourHundredths : (year - 1601).tdiv 400 = (year - 1601) / 400 :=
    Int.tdiv_eq_ediv_of_nonneg (by omega)
  rw [timegmYears_eq_ok, hfourths, hhundredths, hfourHundredths]
  exact ⟨by omega, rfl⟩

/-- The loop over the months adds their days. -/
theorem timegmMonths_eq {left i : ℕ} {days : ℤ} (hi : i + left ≤ 12) (h : -2 ^ 31 ≤ days)
    (h' : days + 31 * left < 2 ^ 31) :
    timegmMonths left i days = .ok (days + ((daysInMonth.drop i).take left).sum) := by
  induction left generalizing i days with
  | zero => rw [timegmMonths, List.take_zero, List.sum_nil, add_zero]
  | succ left ih =>
      have hlt : i < daysInMonth.length := by
        rw [show daysInMonth.length = 12 from rfl]
        omega
      have hall : ∀ n ∈ daysInMonth, 0 ≤ n ∧ n ≤ 31 := by decide
      have hn := hall _ (List.getElem_mem hlt)
      rw [timegmMonths, List.getElem?_eq_getElem hlt, List.drop_eq_getElem_cons hlt,
        List.take_succ_cons, List.sum_cons]
      push_cast at h'
      simp only [bind, Except.bind,
        checkedInt_eq (n := days + daysInMonth[i]) (by omega) (by omega)]
      rw [ih (by omega) (by omega) (by omega), add_assoc]

/-- The loop comes to an end only inside the table. -/
theorem timegmMonths_bounds {left i : ℕ} {days n : ℤ} (h : timegmMonths left i days = .ok n) :
    (left = 0 ∨ i + left ≤ 12) ∧ n ≤ days + 31 * left := by
  induction left generalizing i days with
  | zero =>
      obtain rfl : days = n := Except.ok.inj h
      exact ⟨Or.inl rfl, by simp⟩
  | succ left ih =>
      rw [timegmMonths] at h
      cases hn : daysInMonth[i]? with
      | none =>
          rw [hn] at h
          cases h
      | some length =>
          have hall : ∀ n ∈ daysInMonth, n ≤ 31 := by decide
          have hlength := hall length (List.mem_of_getElem? hn)
          have hlt : i < 12 := (List.getElem?_eq_some_iff.mp hn).1
          simp only [hn, bind_eq_ok, checkedInt_eq_ok] at h
          obtain ⟨_, ⟨-, rfl⟩, hrest⟩ := h
          obtain ⟨hleft, hle⟩ := ih hrest
          push_cast
          exact ⟨by omega, by omega⟩

/-- The leap test of `timegm` is the Gregorian rule for years from 0 on. -/
theorem timegmLeap_eq {year : ℤ} (h : 0 ≤ year) : timegmLeap year = isLeap year := by
  simp only [timegmLeap, isLeap, Int.tmod_eq_emod_of_nonneg h]

/-- The table has the lengths of the months of a year that is not a leap year. -/
theorem monthStart_eq (year : ℤ) {month : ℕ} (h : month ≤ 12) :
    (monthStart year month : ℤ) =
      (daysInMonth.take month).sum + if 1 < month ∧ isLeap year then 1 else 0 := by
  cases hleap : isLeap year <;> interval_cases month <;>
    simp [monthStart, monthLength, hleap, daysInMonth]

/-- The part of `timegm` that counts the days. -/
def timegmDays (tm : Tm) : Except TimeFault ℤ := do
  let year ← checkedInt (tm.year + 1900)
  let day ← checkedInt (tm.mday - 1)
  let days ← timegmYears year
  let days ← timegmMonths tm.mon.toNat 0 days
  let days ← if 1 < tm.mon ∧ timegmLeap year then checkedInt (days + 1) else .ok days
  checkedInt (days + day)

/-- `timegm` counts the days, and then the seconds. -/
theorem timegm_eq (tm : Tm) : timegm tm =
    timegmDays tm >>= fun days => timegmSeconds days tm.hour tm.min tm.sec := by
  simp only [timegm, timegmDays, bind_assoc]
  refine bind_congr fun year => bind_congr fun day => bind_congr fun days => bind_congr fun days =>
    ?_
  split
  · rw [bind_assoc]
  · rw [bind_assoc]

/-- The day that the fields denote: days are carried over into later months, and months before
January count as January. -/
def Tm.dayNumber (tm : Tm) : ℤ :=
  yearStart (tm.year + 1900) + monthStart (tm.year + 1900) tm.mon.toNat + (tm.mday - 1)

/-- The day number of the fields of a date is that of the date. -/
theorem Tm.dayNumber_date (d : Date) (hour min sec : ℤ) :
    Tm.dayNumber ⟨d.year - 1900, d.month - 1, d.day, hour, min, sec⟩ = d.dayNumber := by
  have hmonth := d.month_pos
  have hday := d.day_pos
  have hmon : ((d.month : ℤ) - 1).toNat = d.month - 1 := by omega
  rw [Tm.dayNumber, Date.dayNumber, sub_add_cancel, hmon]
  dsimp only
  omega

/-- **In the years 1969 to 9999, `timegm` counts the days as the calendar does**, from the fields
of a date or from others carried over. -/
theorem timegmDays_eq {tm : Tm} (h : 69 ≤ tm.year) (h' : tm.year ≤ 8099) (hmon : tm.mon ≤ 12)
    (hday : -1000 ≤ tm.mday) (hday' : tm.mday ≤ 1000) : timegmDays tm = .ok tm.dayNumber := by
  obtain ⟨year, hyear⟩ : ∃ year, year = tm.year + 1900 := ⟨_, rfl⟩
  have hstart : -365 ≤ yearStart year ∧ yearStart year < 3000000 := by
    rw [yearStart]
    omega
  have hmonths := monthStart_eq year (show tm.mon.toNat ≤ 12 by omega)
  have hle := monthStart_le_year year (show tm.mon.toNat ≤ 12 by omega)
  have htable : timegmMonths tm.mon.toNat 0 (yearStart year) =
      .ok (yearStart year + (daysInMonth.take tm.mon.toNat).sum) :=
    timegmMonths_eq (by omega) (by omega) (by omega)
  have hcheckYear := checkedInt_eq (n := year) (by omega) (by omega)
  have hcheckDay := checkedInt_eq (n := tm.mday - 1) (by omega) (by omega)
  have hcast : 1 < tm.mon ↔ 1 < tm.mon.toNat := by omega
  have hyears : timegmYears year = .ok (yearStart year) := timegmYears_eq (by omega) (by omega)
  simp only [timegmDays, Tm.dayNumber, bind, Except.bind, ← hyear, hcheckYear, hcheckDay, hyears,
    htable, timegmLeap_eq (show 0 ≤ year by omega), hcast]
  by_cases hadd : 1 < tm.mon.toNat ∧ isLeap year = true
  · rw [if_pos hadd] at hmonths
    simp only [if_pos hadd]
    rw [checkedInt_eq (by omega) (by omega)]
    simp only
    rw [checkedInt_eq (by omega) (by omega), hmonths, add_assoc (yearStart year)]
  · rw [if_neg hadd] at hmonths
    simp only [if_neg hadd]
    rw [checkedInt_eq (by omega) (by omega), hmonths, add_zero]

/-- The days are counted only up to the thirteenth month, and before 1969 they are negative. -/
theorem timegmDays_bounds {tm : Tm} {n : ℤ} (hday : tm.mday ≤ 99) (hn : timegmDays tm = .ok n) :
    tm.mon ≤ 12 ∧ (tm.year < 69 → n ≤ -200) := by
  simp only [timegmDays, bind_eq_ok, checkedInt_eq_ok] at hn
  obtain ⟨_, ⟨-, rfl⟩, _, ⟨-, rfl⟩, years, hyears, months, hmonths, hrest⟩ := hn
  have hadd : n ≤ months + 1 + (tm.mday - 1) := by
    split at hrest
    · simp only [bind_eq_ok, checkedInt_eq_ok] at hrest
      obtain ⟨_, ⟨-, rfl⟩, -, rfl⟩ := hrest
      exact le_refl _
    · simp only [bind_eq_ok, checkedInt_eq_ok] at hrest
      obtain ⟨_, hdays, -, rfl⟩ := hrest
      obtain rfl := Except.ok.inj hdays
      omega
  obtain ⟨hleft, hle⟩ := timegmMonths_bounds hmonths
  have hvalue := (timegmYears_eq_ok.mp hyears).2
  have hfourths := tdiv_cases (tm.year + 1900 - 1969) 4
  have hhundredths := tdiv_cases (tm.year + 1900 - 1901) 100
  have hfourHundredths := tdiv_cases (tm.year + 1900 - 1601) 400
  exact ⟨by omega, fun h => by omega⟩

/-- A result of `timegm` is the number of its days, converted to seconds. -/
theorem timegmSeconds_eq_ok {days hour min sec n : ℤ} : timegmSeconds days hour min sec = .ok n ↔
    (IsInt (days * 24) ∧ IsInt (days * 24 + hour) ∧ IsInt ((days * 24 + hour) * 60) ∧
      IsInt ((days * 24 + hour) * 60 + min) ∧ IsInt (((days * 24 + hour) * 60 + min) * 60) ∧
      IsInt (((days * 24 + hour) * 60 + min) * 60 + sec)) ∧
    ((days * 24 + hour) * 60 + min) * 60 + sec = n := by
  simp only [timegmSeconds, bind_eq_ok, checkedInt_eq_ok, and_assoc, exists_and_left,
    exists_eq_left']

/-- On the days of the years 1969 to 9999, `timegm` counts the days of the calendar. -/
theorem timegmDays_date {d : Date} (h : 1969 ≤ d.year) (h' : d.year ≤ 9999) (hour min sec : ℤ) :
    timegmDays ⟨d.year - 1900, d.month - 1, d.day, hour, min, sec⟩ = .ok d.dayNumber := by
  have hmonth := d.month_le
  have hday := d.day_le_31
  rw [← Tm.dayNumber_date d hour min sec]
  apply timegmDays_eq <;> dsimp only <;> omega

/-- So `timegm` converts the number of the day to seconds. -/
theorem timegm_date {d : Date} (h : 1969 ≤ d.year) (h' : d.year ≤ 9999) (hour min sec : ℤ) :
    timegm ⟨d.year - 1900, d.month - 1, d.day, hour, min, sec⟩ =
      timegmSeconds d.dayNumber hour min sec := by
  rw [timegm_eq, timegmDays_date h h']
  rfl

/-! ### What is read of a text -/

/-- The broken-down time that the short format passes to `timegm`. -/
def readShort (s : Bytes) : Option Tm :=
  match sscanf isoDateString (cstr s) with
  | [.int year, .int month, .int day, .int hour, .int min] =>
      some ⟨year - 1900, month - 1, day, hour, min, 0⟩
  | _ => none

/-- The broken-down time that the full format passes to `timegm`. -/
def readFull (s : Bytes) : Option Tm :=
  match sscanf isoDateStringFull (cstr s) with
  | [.int year, .int month, .int day, .int hour, .int min, .int sec, .char utcDirection,
      .int utcHour, .int _] =>
      if utcDirection = 43 then some ⟨year - 1900, month - 1, day, hour - utcHour, min, sec⟩
      else if utcDirection = 45 then
        some ⟨year - 1900, month - 1, day, hour + utcHour, min, sec⟩
      else none
  | _ => none

/-- The short parser hands what it has read to `timegm`. -/
theorem parseIsoDatetimeStringToEpoch_eq (s : Bytes) :
    parseIsoDatetimeStringToEpoch s = (readShort s).elim (.ok (-1)) timegm := by
  rw [parseIsoDatetimeStringToEpoch, readShort]
  split <;> rfl

/-- So does the full parser. -/
theorem parseIsoFullDatetimeStringToEpoch_eq_elim (s : Bytes) :
    parseIsoFullDatetimeStringToEpoch s = (readFull s).elim (.ok (-1)) timegm := by
  rw [parseIsoFullDatetimeStringToEpoch, readFull]
  split
  · split
    · rfl
    · split <;> rfl
  · rfl

/-! ### The texts of civil dates and times -/

/-- The fields of a date and a time. -/
def isoFields (d : Date) (t : Clock) : List FormatValue :=
  [.int d.year, .int d.month, .int d.day, .int t.hour, .int t.min]

/-- The text of a date and a time, without the seconds. -/
def isoText (d : Date) (t : Clock) : Bytes := printf isoDateString (isoFields d t)

/-- The fields of a day with a year of four digits fit into the format. -/
theorem fits_date {d : Date} (h : 0 ≤ d.year) (h' : d.year ≤ 9999) {hour min : ℤ}
    (hhour : 0 ≤ hour ∧ hour < 24) (hmin : 0 ≤ min ∧ min < 60) :
    Fits isoDateString [.int d.year, .int d.month, .int d.day, .int hour, .int min] := by
  have hmonth := d.month_le
  have hday := d.day_le_31
  exact ⟨⟨by omega, by omega, by omega⟩, ⟨by omega, by omega, by omega⟩,
    ⟨by omega, by omega, by omega⟩, ⟨by omega, by omega, by omega⟩,
    ⟨by omega, by omega, by omega⟩, trivial⟩

/-- The fields of a date in the years 0 to 9999 fit the ISO format. -/
theorem fits_isoFields {d : Date} (h : 0 ≤ d.year) (h' : d.year ≤ 9999) (t : Clock) :
    Fits isoDateString (isoFields d t) := by
  have hhour := t.hour_lt
  have hmin := t.min_lt
  exact fits_date h h' (by omega) (by omega)

/-- The short format is read back into the fields that `timegm` takes. -/
theorem parseIsoDatetimeStringToEpoch_isoText {d : Date} (h : 0 ≤ d.year) (h' : d.year ≤ 9999)
    (t : Clock) : parseIsoDatetimeStringToEpoch (isoText d t) =
      timegm ⟨d.year - 1900, d.month - 1, d.day, t.hour, t.min, 0⟩ := by
  have hfits := fits_isoFields h h' t
  have hnul := noNul_printf hfits (by decide) (by simp [isoFields])
  rw [parseIsoDatetimeStringToEpoch, isoText, cstr_eq_self hnul, sscanf_printf hfits, isoFields]

/-! ### Epochs with a year of four digits -/

/-- The epoch is in one of the years 0 to 9999. -/
def FourDigits (t : ℤ) : Prop := -62167219200 ≤ t ∧ t < 253402300800

/-- The fields of the date of an epoch. -/
def dateFields (t : ℤ) : List FormatValue :=
  [.int (dateOfDay (t / 86400)).year, .int (dateOfDay (t / 86400)).month,
    .int (dateOfDay (t / 86400)).day]

/-- The fields of its time of the day, without the seconds. -/
def minuteFields (t : ℤ) : List FormatValue :=
  [.int (t % 86400 / 3600), .int (t % 3600 / 60)]

section FourDigits

variable {t : ℤ}

/-- The year of such an epoch. -/
theorem FourDigits.year (h : FourDigits t) :
    0 ≤ (dateOfDay (t / 86400)).year ∧ (dateOfDay (t / 86400)).year ≤ 9999 := by
  obtain ⟨hfirst, hlast⟩ := h
  have hzero : yearStart 0 = -719528 := by decide
  have hend : yearStart (9999 + 1) = 2932897 := by decide
  refine year_range ?_ ?_ <;> rw [dayNumber_dateOfDay] <;> omega

/-- **The fields of such an epoch.** -/
theorem FourDigits.gmtime (h : FourDigits t) :
    gmtime t = some {
      year := (dateOfDay (t / 86400)).year - 1900
      mon := (dateOfDay (t / 86400)).month - 1
      mday := (dateOfDay (t / 86400)).day
      hour := t % 86400 / 3600
      min := t % 3600 / 60
      sec := t % 60 } := by
  obtain ⟨hyear, hyear'⟩ := h.year
  rw [MaestroCore.gmtime]
  exact if_pos ⟨by omega, by omega⟩

/-- The fields fill the short format. -/
theorem FourDigits.fits (h : FourDigits t) :
    Fits isoDateString (dateFields t ++ minuteFields t) :=
  fits_date h.year.1 h.year.2 (by omega) (by omega)

/-- The text in the short format, with nothing cut off. -/
theorem FourDigits.text (h : FourDigits t) : parseEpochToIsoDatetimeString t =
    .ok (printf isoDateString (dateFields t ++ minuteFields t)) := by
  obtain ⟨hyear, hyear'⟩ := h.year
  have hlength := length_printf h.fits
  rw [parseEpochToIsoDatetimeString, h.gmtime]
  have hint : checkedInt (dateOfDay (t / 86400)).year = .ok (dateOfDay (t / 86400)).year :=
    checkedInt_eq (by omega) (by omega)
  simp only [sub_add_cancel, hint, bind, Except.bind]
  have htext := cstr_snprintf (show 0 < 17 by decide)
    (noNul_printf h.fits (by decide) (by simp [dateFields, minuteFields]))
  rw [List.take_of_length_le (by rw [hlength]; decide)] at htext
  exact congrArg Except.ok htext

end FourDigits

end MaestroCore
