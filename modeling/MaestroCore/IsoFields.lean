import MaestroCore.TimeUtils

/-!
# The Fields of a Time Text

The two parsers of `time_utils.c` take whatever numbers `sscanf` reads into their fields and hand
them to `timegm`, whose loop indexes `days_in_month` as far as the month says. No field is
compared with a bound. A text is refused, with the result `-1`, only when fields are missing or
the sign of the offset is none.

A result of `-1` can also be the epoch of the fields, carried over from one to the next: the
second before 1970. The short format has no seconds, so that its epochs are whole minutes.

## Main results

* `timegm_eq_neg_one_iff`: the fields for which the result of `timegm` is `-1`.
* `timegm_ne_monthIndex`: up to the thirteenth month the index is in the table.
* `dates_checked_iff`: a parser refuses whatever is no date iff it has read a date, or by that
  coincidence.
-/

open CLang Calendar

namespace MaestroCore

/-- The year, the month and the day are those of a date. -/
def Tm.Calendric (tm : Tm) : Prop :=
  ∃ d : Date, tm.year = d.year - 1900 ∧ tm.mon = d.month - 1 ∧ tm.mday = d.day

/-- The fields, carried over from one to the next, are those of 1969-12-31T23:59:59, and the
month is one of thirteen. Months before January count as January. -/
def Tm.SecondBefore1970 (tm : Tm) : Prop :=
  tm.mon ≤ 12 ∧ tm.dayNumber * 86400 + (tm.hour * 3600 + tm.min * 60 + tm.sec) = -1

/-- A parser returns -1 or has read a date, and does not leave `days_in_month`. -/
def DatesChecked (read : Option Tm) (result : Except TimeFault ℤ) : Prop :=
  (result = .ok (-1) ∨ ∃ tm, read = some tm ∧ tm.Calendric) ∧ result ≠ .error .monthIndex

/-- The fields that the days and the seconds are computed from are no larger than what is read
into them. -/
structure Tm.Scanned (tm : Tm) : Prop where
  year : tm.year ≤ 8099
  mday : -99 ≤ tm.mday ∧ tm.mday ≤ 99
  hour : -198 ≤ tm.hour ∧ tm.hour ≤ 198
  min : -99 ≤ tm.min ∧ tm.min ≤ 99
  sec : -99 ≤ tm.sec ∧ tm.sec ≤ 99

section Fields

variable {tm : Tm} {s : Bytes}

/-! ### What is read -/

/-- Numbers of the widths of the formats. -/
theorem scanned_of_widths {year month day hour min sec : ℤ} (hyear : year < 10 ^ 4)
    (hday : -10 ^ 2 < day ∧ day < 10 ^ 2) (hhour : -198 ≤ hour ∧ hour ≤ 198)
    (hmin : -10 ^ 2 < min ∧ min < 10 ^ 2) (hsec : -10 ^ 2 < sec ∧ sec < 10 ^ 2) :
    Tm.Scanned ⟨year - 1900, month - 1, day, hour, min, sec⟩ := by
  constructor <;> dsimp only <;> omega

/-- The fields of the short format have no seconds. -/
theorem readShort_scanned (h : readShort s = some tm) : tm.Scanned ∧ tm.sec = 0 := by
  have hwidths := inWidths_sscanf isoDateString (cstr s)
  rw [readShort] at h
  split at h
  · rename_i hread
    rw [hread] at hwidths
    obtain ⟨hyear, -, hday, hhour, hmin, -⟩ := hwidths
    obtain rfl := Option.some.inj h
    exact ⟨scanned_of_widths hyear.2 hday (by omega) hmin (by omega), rfl⟩
  · cases h

/-- The fields of the full format. -/
theorem readFull_scanned (h : readFull s = some tm) : tm.Scanned := by
  have hwidths := inWidths_sscanf isoDateStringFull (cstr s)
  rw [readFull] at h
  split at h
  · rename_i hread
    rw [hread] at hwidths
    obtain ⟨hyear, -, hday, hhour, hmin, hsec, hutcHour, -⟩ := hwidths
    split at h
    · obtain rfl := Option.some.inj h
      exact scanned_of_widths hyear.2 hday (by omega) hmin hsec
    · split at h
      · obtain rfl := Option.some.inj h
        exact scanned_of_widths hyear.2 hday (by omega) hmin hsec
      · cases h
  · cases h

/-! ### What `timegm` makes of it -/

/-- **The fields whose result is -1**: carried over, they are the second before 1970. -/
theorem timegm_eq_neg_one_iff (h : tm.Scanned) : timegm tm = .ok (-1) ↔ tm.SecondBefore1970 := by
  obtain ⟨hyear, hday, hhour, hmin, hsec⟩ := h
  rw [timegm_eq, bind_eq_ok]
  constructor
  · rintro ⟨days, hdays, hseconds⟩
    have hvalue := (timegmSeconds_eq_ok.mp hseconds).2
    obtain ⟨hmon, hearly⟩ := timegmDays_bounds hday.2 hdays
    have h1969 : 69 ≤ tm.year := by
      by_contra hlt
      have hle := hearly (by omega)
      omega
    rw [timegmDays_eq h1969 hyear hmon (by omega) (by omega), Except.ok.injEq] at hdays
    exact ⟨hmon, by rw [hdays]; omega⟩
  · rintro ⟨hmon, hvalue⟩
    have hle := monthStart_le_year (tm.year + 1900) (show tm.mon.toNat ≤ 12 by omega)
    have hnumber : tm.dayNumber = yearStart (tm.year + 1900) +
      monthStart (tm.year + 1900) tm.mon.toNat + (tm.mday - 1) := rfl
    have h1969 : 69 ≤ tm.year := by
      by_contra hlt
      rw [yearStart] at hnumber
      omega
    refine ⟨tm.dayNumber, timegmDays_eq h1969 hyear hmon (by omega) (by omega), ?_⟩
    rw [timegmSeconds_eq_ok]
    exact ⟨by omega, by omega⟩

/-- The range check of `int` does not look a month up. -/
theorem checkedInt_ne_monthIndex (n : ℤ) : checkedInt n ≠ .error .monthIndex := by
  rw [checkedInt]
  split <;> simp

/-- Computations that look no month up outside the table do not do so in a row. -/
theorem bind_ne_monthIndex {α β : Type} {x : Except TimeFault α} {f : α → Except TimeFault β}
    (hx : x ≠ .error .monthIndex) (hf : ∀ a, f a ≠ .error .monthIndex) :
    x >>= f ≠ .error .monthIndex := by
  cases x with
  | error e =>
      intro h
      obtain rfl := Except.error.inj h
      exact hx rfl
  | ok a => exact hf a

/-- The loop over the years does not look a month up. -/
theorem timegmYears_ne_monthIndex (year : ℤ) : timegmYears year ≠ .error .monthIndex := by
  rw [timegmYears]
  iterate 7 refine bind_ne_monthIndex (checkedInt_ne_monthIndex _) fun _ => ?_
  exact checkedInt_ne_monthIndex _

/-- The sum of the seconds does not look a month up. -/
theorem timegmSeconds_ne_monthIndex (days hour min sec : ℤ) :
    timegmSeconds days hour min sec ≠ .error .monthIndex := by
  rw [timegmSeconds]
  iterate 5 refine bind_ne_monthIndex (checkedInt_ne_monthIndex _) fun _ => ?_
  exact checkedInt_ne_monthIndex _

/-- The loop over the months, as far as the table goes. -/
theorem timegmMonths_ne_monthIndex {left i : ℕ} (hi : i + left ≤ 12) (days : ℤ) :
    timegmMonths left i days ≠ .error .monthIndex := by
  induction left generalizing i days with
  | zero => simp [timegmMonths]
  | succ left ih =>
      have hlt : i < daysInMonth.length := by
        rw [show daysInMonth.length = 12 from rfl]
        omega
      rw [timegmMonths, List.getElem?_eq_getElem hlt]
      exact bind_ne_monthIndex (checkedInt_ne_monthIndex _) fun days => ih (by omega) days

/-- **Up to the thirteenth month** the index stays in `days_in_month`. -/
theorem timegm_ne_monthIndex (h : tm.mon ≤ 12) : timegm tm ≠ .error .monthIndex := by
  rw [timegm_eq]
  refine bind_ne_monthIndex ?_ fun days => timegmSeconds_ne_monthIndex _ _ _ _
  rw [timegmDays]
  refine bind_ne_monthIndex (checkedInt_ne_monthIndex _) fun year => ?_
  refine bind_ne_monthIndex (checkedInt_ne_monthIndex _) fun day => ?_
  refine bind_ne_monthIndex (timegmYears_ne_monthIndex _) fun days => ?_
  refine bind_ne_monthIndex (timegmMonths_ne_monthIndex (by omega) _) fun days => ?_
  split
  · refine bind_ne_monthIndex (checkedInt_ne_monthIndex _) fun days => ?_
    exact checkedInt_ne_monthIndex _
  · exact checkedInt_ne_monthIndex _

/-- The fields of a date have a month of the table. -/
theorem Tm.Calendric.mon_le (h : tm.Calendric) : tm.mon ≤ 12 := by
  obtain ⟨d, -, hmon, -⟩ := h
  have hle := d.month_le
  omega

/-- A result of whole minutes is not -1. -/
theorem timegm_ne_neg_one (h : tm.sec = 0) : timegm tm ≠ .ok (-1) := by
  rw [timegm_eq]
  intro hok
  obtain ⟨days, -, hseconds⟩ := bind_eq_ok.mp hok
  have hvalue := (timegmSeconds_eq_ok.mp hseconds).2
  omega

/-! ### What the parsers check -/

/-- A parser that passes its fields to `timegm` refuses whatever is no date exactly when `timegm`
refuses it. -/
theorem datesChecked_iff {read : Option Tm} {result : Except TimeFault ℤ}
    (hresult : result = read.elim (.ok (-1)) timegm) : DatesChecked read result ↔
      ∀ tm, read = some tm → tm.Calendric ∨ timegm tm = .ok (-1) := by
  subst hresult
  cases read with
  | none => simp [DatesChecked]
  | some tm =>
      simp only [DatesChecked, Option.elim_some, Option.some.injEq, exists_eq_left', forall_eq']
      constructor
      · rintro ⟨hrefused | hdate, -⟩
        · exact Or.inr hrefused
        · exact Or.inl hdate
      · rintro (hdate | hrefused)
        · exact ⟨Or.inr hdate, timegm_ne_monthIndex hdate.mon_le⟩
        · exact ⟨Or.inl hrefused, by simp [hrefused]⟩

/-- **When dates are checked.** For every string, the short parser returns -1 or has read a date,
and stays in `days_in_month`, iff the fields it passes on are those of a date. The full parser does
iff they are, or are those of the second before 1970. -/
theorem dates_checked_iff (s : Bytes) :
    (DatesChecked (readShort s) (parseIsoDatetimeStringToEpoch s) ↔
      ∀ tm, readShort s = some tm → tm.Calendric) ∧
    (DatesChecked (readFull s) (parseIsoFullDatetimeStringToEpoch s) ↔
      ∀ tm, readFull s = some tm → tm.Calendric ∨ tm.SecondBefore1970) := by
  rw [datesChecked_iff (parseIsoDatetimeStringToEpoch_eq s),
    datesChecked_iff (parseIsoFullDatetimeStringToEpoch_eq_elim s)]
  constructor
  · refine forall_congr' fun tm => imp_congr_right fun hread => ?_
    exact or_iff_left (timegm_ne_neg_one (readShort_scanned hread).2)
  · refine forall_congr' fun tm => imp_congr_right fun hread => ?_
    rw [timegm_eq_neg_one_iff (readFull_scanned hread)]

/-- The fourteenth month is looked up behind the table. -/
theorem fourteenth_month_read :
    parseIsoDatetimeStringToEpoch (ascii "2024-14-01T00:00") = .error .monthIndex ∧
    ¬ DatesChecked (readShort (ascii "2024-14-01T00:00"))
      (parseIsoDatetimeStringToEpoch (ascii "2024-14-01T00:00")) ∧
    parseIsoFullDatetimeStringToEpoch (ascii "2024-14-01T00:00:00+00:00") = .error .monthIndex ∧
    ¬ DatesChecked (readFull (ascii "2024-14-01T00:00:00+00:00"))
      (parseIsoFullDatetimeStringToEpoch (ascii "2024-14-01T00:00:00+00:00")) := by
  have hshort : parseIsoDatetimeStringToEpoch (ascii "2024-14-01T00:00") = .error .monthIndex := by
    decide
  have hfull : parseIsoFullDatetimeStringToEpoch (ascii "2024-14-01T00:00:00+00:00") =
      .error .monthIndex := by decide
  exact ⟨hshort, fun h => h.2 hshort, hfull, fun h => h.2 hfull⟩

/-- The 30th of February is taken for the first of March. -/
example : parseIsoDatetimeStringToEpoch (ascii "2024-02-30T00:00") =
    parseIsoDatetimeStringToEpoch (ascii "2024-03-01T00:00") := by decide

end Fields

end MaestroCore
