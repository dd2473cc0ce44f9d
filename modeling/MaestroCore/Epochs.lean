import MaestroCore.TimeUtils

/-!
# Civil Times and Epochs

`timegm` counts the days in a closed form with three divisions and then converts to seconds, all
of it in `int`; only the result is converted to `time_t`. The days are those of the calendar up
to the year 9999. The seconds are not: they leave `int` in January 2038.

The full format carries an offset from UTC in hours and minutes. Its hours are taken into the
`tm_hour` that `timegm` gets, its minutes nowhere.

## Main results

* `timegm_days_counted`: the days are those of the count from 1970-01-01.
* `epoch_exact_iff`: the epoch is exact iff it is below `2 ^ 31`.
* `offset_read_iff`: an offset is taken into account iff it has no minutes.
-/

open CLang Calendar

namespace MaestroCore

/-- The `struct tm` of a date and a time. -/
def tmOf (d : Date) (t : Clock) : Tm := ⟨d.year - 1900, d.month - 1, d.day, t.hour, t.min, t.sec⟩

/-- An offset from UTC, as the full format writes it. -/
structure UtcOffset where
  east : Bool
  hours : ℕ
  minutes : ℕ
  hours_le : hours ≤ 14
  minutes_le : minutes ≤ 59
  deriving DecidableEq

/-- The sign of an offset. -/
def UtcOffset.direction (o : UtcOffset) : UInt8 := if o.east then 43 else 45

/-- An offset with the sign it has. -/
def UtcOffset.signed (o : UtcOffset) (n : ℤ) : ℤ := if o.east then n else -n

/-- The seconds by which the clock is ahead of UTC. -/
def UtcOffset.seconds (o : UtcOffset) : ℤ := o.signed (o.hours * 3600 + o.minutes * 60)

/-- The fields of the full format. -/
def isoFullFields (d : Date) (t : Clock) (o : UtcOffset) : List FormatValue :=
  isoFields d t ++ [.int t.sec, .char o.direction, .int o.hours, .int o.minutes]

/-- The text of a date, a time and an offset. -/
def isoFullText (d : Date) (t : Clock) (o : UtcOffset) : Bytes :=
  printf isoDateStringFull (isoFullFields d t o)

section Epochs

variable {d : Date}

/-! ### The days -/

/-- **The days are counted day by day.** For every date from 1970 to 9999, `timegm` counts as many
days as there are steps from 1970-01-01 to the date: none on that day itself, and one more on each
next day. -/
theorem timegm_days_counted (d : Date) (t : Clock) (h : 1970 ≤ d.year) (h' : d.year ≤ 9999) :
    ∃ n : ℕ, timegmDays (tmOf d t) = .ok n ∧ (∀ m, Date.next^[m] epochDate = d ↔ m = n) ∧
      (n = 0 ↔ d = epochDate) ∧
      (d.next.year ≤ 9999 → timegmDays (tmOf d.next t) = .ok (n + 1)) := by
  have hbounds := year_bounds d
  have hpos : 0 ≤ d.dayNumber := by
    rw [yearStart] at hbounds
    omega
  obtain ⟨n, hn⟩ := Int.eq_ofNat_of_zero_le hpos
  have hcount : ∀ m, Date.next^[m] epochDate = d ↔ m = n := by
    intro m
    rw [iterate_next_eq_iff, hn]
    omega
  refine ⟨n, ?_, hcount, ?_, fun hnext => ?_⟩
  · rw [tmOf, timegmDays_date (by omega) h', hn]
  · rw [eq_comm, ← hcount 0, Function.iterate_zero_apply, eq_comm]
  · have hsucc := dayNumber_next d
    obtain ⟨hyear, -⟩ := year_of_dayNumber (d := d.next) (by omega)
    rw [tmOf, timegmDays_date (by omega) hnext, hsucc, hn]

/-- The leap day of 2000 is counted, and the first of March after it. -/
theorem leapDay_counted :
    ∃ (d : Date) (n : ℕ), d.year = 2000 ∧ d.month = 2 ∧ d.day = 29 ∧
      timegmDays ⟨100, 1, 29, 0, 0, 0⟩ = .ok n ∧ (∀ m, Date.next^[m] epochDate = d ↔ m = n) ∧
      timegmDays ⟨100, 2, 1, 0, 0, 0⟩ = .ok (n + 1) := by
  obtain ⟨n, hdays, hcount, -, hnext⟩ := timegm_days_counted
    ⟨2000, 2, 29, by omega, by omega, by omega, le_refl 29⟩
    ⟨0, 0, 0, by omega, by omega, by omega⟩ (by simp) (by simp)
  exact ⟨_, n, rfl, rfl, rfl, hdays, hcount, hnext (by decide)⟩

/-! ### The seconds -/

/-- The seconds of a civil time, before the result is an `int`. -/
theorem timegm_date_eq_ok (h : 1969 ≤ d.year) (h' : d.year ≤ 9999) {hour min sec n : ℤ} :
    timegm ⟨d.year - 1900, d.month - 1, d.day, hour, min, sec⟩ = .ok n →
      d.dayNumber * 86400 + (hour * 3600 + min * 60 + sec) = n ∧ n < 2 ^ 31 := by
  rw [timegm_date h h', timegmSeconds_eq_ok]
  rintro ⟨hints, rfl⟩
  exact ⟨by ring, hints.2.2.2.2.2.2⟩

/-- The days of four-digit years from 1969 on. -/
theorem dayNumber_bounds (h : 1969 ≤ d.year) (h' : d.year ≤ 9999) :
    -365 ≤ d.dayNumber ∧ d.dayNumber < 3000000 := by
  obtain ⟨hlow, hhigh⟩ := year_bounds d
  rw [yearStart] at hlow hhigh
  exact ⟨by omega, by omega⟩

/-- An instant of the first `2 ^ 31` seconds is computed exactly. -/
theorem timegm_of_instant (h : 1969 ≤ d.year) (h' : d.year ≤ 9999) {hour min sec n : ℤ}
    (hmin : 0 ≤ min) (hmin' : min < 60) (hsec : 0 ≤ sec) (hsec' : sec < 60)
    (hn : d.dayNumber * 86400 + (hour * 3600 + min * 60 + sec) = n) (hpos : 0 ≤ n)
    (hlt : n < 2 ^ 31) :
    timegm ⟨d.year - 1900, d.month - 1, d.day, hour, min, sec⟩ = .ok n := by
  obtain ⟨hlow, hhigh⟩ := dayNumber_bounds h h'
  rw [timegm_date h h', timegmSeconds_eq_ok]
  exact ⟨by omega, by omega⟩

/-- `timegm` is exact up to the last second of `int`. -/
theorem timegm_exact_iff (h : 1970 ≤ d.year) (h' : d.year ≤ 9999) (t : Clock) :
    timegm (tmOf d t) = .ok (d.epoch t) ↔ d.epoch t < 2 ^ 31 := by
  have hbounds := year_bounds d
  rw [yearStart] at hbounds
  have hmin := t.min_lt
  have hsec := t.sec_lt
  constructor
  · intro hok
    exact (timegm_date_eq_ok (by omega) h' hok).2
  · intro hlt
    exact timegm_of_instant (by omega) h' (by omega) (by omega) (by omega) (by omega) rfl
      (by rw [Date.epoch]; omega) hlt

/-- **When the epoch is exact.** For every date from 1970 to 9999 and every time, no operation of
`timegm` leaves `int` and its result is the number of seconds since 1970-01-01T00:00:00Z iff that
number is below `2 ^ 31`, and the same holds of the text of the date and time. -/
theorem epoch_exact_iff (d : Date) (t : Clock) (h : 1970 ≤ d.year) (h' : d.year ≤ 9999) :
    (timegm (tmOf d t) = .ok (d.epoch t) ↔ d.epoch t < 2 ^ 31) ∧
    (parseIsoDatetimeStringToEpoch (isoText d t) = .ok (d.epoch t.minute) ↔
      d.epoch t.minute < 2 ^ 31) := by
  refine ⟨timegm_exact_iff h h' t, ?_⟩
  rw [parseIsoDatetimeStringToEpoch_isoText (by omega) h']
  exact timegm_exact_iff h h' t.minute

/-- 2038-01-19T03:14:07 is the last second of `int`. -/
theorem last_epoch_exact :
    timegm ⟨138, 0, 19, 3, 14, 7⟩ = .ok 2147483647 ∧
      parseIsoDatetimeStringToEpoch (ascii "2038-01-19T03:14") = .ok 2147483640 := by
  obtain ⟨htm, htext⟩ := epoch_exact_iff
    ⟨2038, 1, 19, by omega, by omega, by omega, Nat.le_trans (by omega) (monthLength_ge _ _)⟩
    ⟨3, 14, 7, by omega, by omega, by omega⟩ (by simp) (by simp)
  exact ⟨htm.mpr (by decide), htext.mpr (by decide)⟩

/-- One second later the result is no `int`, and neither is the one of the text of the next
minute. -/
theorem epoch_after_last_overflows :
    ∃ (d : Date) (t : Clock), tmOf d t = ⟨138, 0, 19, 3, 14, 8⟩ ∧ d.epoch t = 2147483648 ∧
      timegm ⟨138, 0, 19, 3, 14, 8⟩ = .error .overflow ∧
      parseIsoDatetimeStringToEpoch (ascii "2038-01-19T03:15") = .error .overflow := by
  refine ⟨⟨2038, 1, 19, by omega, by omega, by omega, Nat.le_trans (by omega) (monthLength_ge _ _)⟩,
    ⟨3, 14, 8, by omega, by omega, by omega⟩, ?_, ?_, ?_, ?_⟩ <;> decide

/-! ### Offsets -/

/-- The full format is read back; the hours of the offset are taken off the hour. -/
theorem parseIsoFullDatetimeStringToEpoch_isoFullText (h : 0 ≤ d.year) (h' : d.year ≤ 9999)
    (t : Clock) (o : UtcOffset) : parseIsoFullDatetimeStringToEpoch (isoFullText d t o) =
      timegm ⟨d.year - 1900, d.month - 1, d.day, t.hour - o.signed o.hours, t.min, t.sec⟩ := by
  have hsec := t.sec_lt
  have hhours := o.hours_le
  have hminutes := o.minutes_le
  obtain ⟨hyear, hmonth, hday, hhour, hmin, -⟩ := fits_isoFields h h' t
  have hfits : Fits isoDateStringFull (isoFullFields d t o) :=
    ⟨hyear, hmonth, hday, hhour, hmin, ⟨by omega, by omega, by omega⟩,
      ⟨by omega, by omega, by omega⟩, ⟨by omega, by omega, by omega⟩, trivial⟩
  have hdirection : o.direction ≠ 0 := by
    rw [UtcOffset.direction]
    split <;> decide
  have hnul := noNul_printf hfits (by decide) (by simp [isoFullFields, isoFields, hdirection.symm])
  rw [parseIsoFullDatetimeStringToEpoch, isoFullText, cstr_eq_self hnul, sscanf_printf hfits,
    isoFullFields, isoFields]
  simp only [List.cons_append, List.nil_append, UtcOffset.direction, UtcOffset.signed]
  cases o.east with
  | false => simp
  | true => simp

/-- The dates whose instants are among the first `2 ^ 31` seconds, whatever the offset. -/
theorem year_of_instant {t : Clock} {o : UtcOffset} (h : 0 ≤ d.epoch t - o.seconds)
    (h' : d.epoch t - o.seconds < 2 ^ 31) : 1969 ≤ d.year ∧ d.year ≤ 9999 := by
  have hhour := t.hour_lt
  have hmin := t.min_lt
  have hsec := t.sec_lt
  have hhours := o.hours_le
  have hminutes := o.minutes_le
  have hoffset : -54000 < o.seconds ∧ o.seconds < 54000 := by
    rw [UtcOffset.seconds, UtcOffset.signed]
    split <;> omega
  have hdays : -2 ≤ d.dayNumber ∧ d.dayNumber < 30000 := by
    rw [Date.epoch] at h h'
    omega
  obtain ⟨hlow, hhigh⟩ := year_bounds d
  rw [yearStart] at hlow hhigh
  exact ⟨by omega, by omega⟩

/-- **When an offset is taken into account.** For every date and time with an offset of up to 14
hours and 59 minutes whose instant is among the first `2 ^ 31` seconds, the full text is read as
that instant iff the offset has no minutes. -/
theorem offset_read_iff (d : Date) (t : Clock) (o : UtcOffset) (h : 0 ≤ d.epoch t - o.seconds)
    (h' : d.epoch t - o.seconds < 2 ^ 31) :
    parseIsoFullDatetimeStringToEpoch (isoFullText d t o) = .ok (d.epoch t - o.seconds) ↔
      o.minutes = 0 := by
  have hmin := t.min_lt
  have hsec := t.sec_lt
  obtain ⟨hyear, hyear'⟩ := year_of_instant h h'
  rw [parseIsoFullDatetimeStringToEpoch_isoFullText (by omega) hyear']
  constructor
  · intro hok
    have hvalue := (timegm_date_eq_ok hyear hyear' hok).1
    rw [Date.epoch, UtcOffset.seconds, UtcOffset.signed, UtcOffset.signed] at hvalue
    split at hvalue <;> omega
  · intro hzero
    refine timegm_of_instant hyear hyear' (by omega) (by omega) (by omega) (by omega) ?_ h h'
    rw [Date.epoch, UtcOffset.seconds, UtcOffset.signed, UtcOffset.signed, hzero]
    split <;> omega

/-- With an offset of five hours, half past five is half past midnight in UTC. -/
theorem whole_hours_read :
    parseIsoFullDatetimeStringToEpoch (ascii "2024-01-01T05:30:00+05:00") = .ok 1704069000 := by
  obtain ⟨d, hd⟩ : ∃ d : Date, d = ⟨2024, 1, 1, by omega, by omega, by omega,
    Nat.le_trans (by omega) (monthLength_ge _ _)⟩ := ⟨_, rfl⟩
  obtain ⟨t, ht⟩ : ∃ t : Clock, t = ⟨5, 30, 0, by omega, by omega, by omega⟩ := ⟨_, rfl⟩
  obtain ⟨o, ho⟩ : ∃ o : UtcOffset, o = ⟨true, 5, 0, by omega, by omega⟩ := ⟨_, rfl⟩
  have hinstant : d.epoch t - o.seconds = 1704069000 := by
    rw [hd, ht, ho]
    decide
  have htext : isoFullText d t o = ascii "2024-01-01T05:30:00+05:00" := by
    rw [hd, ht, ho]
    decide
  have hread := (offset_read_iff d t o (by omega) (by omega)).mpr (by rw [ho])
  rwa [htext, hinstant] at hread

/-- `2024-01-01T05:30:00+05:30` is midnight in UTC, and is read as half past. -/
theorem half_hour_not_read :
    ∃ (d : Date) (t : Clock) (o : UtcOffset),
      isoFullText d t o = ascii "2024-01-01T05:30:00+05:30" ∧
      d.epoch t - o.seconds = 1704067200 ∧
      parseIsoFullDatetimeStringToEpoch (ascii "2024-01-01T05:30:00+05:30") = .ok 1704069000 := by
  refine ⟨⟨2024, 1, 1, by omega, by omega, by omega, Nat.le_trans (by omega) (monthLength_ge _ _)⟩,
    ⟨5, 30, 0, by omega, by omega, by omega⟩, ⟨true, 5, 30, by omega, by omega⟩, ?_, ?_, ?_⟩ <;>
    decide

end Epochs

end MaestroCore
