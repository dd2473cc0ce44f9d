import MaestroCore.Lib.TextOrder
import MaestroCore.TimeUtils

/-!
# Texts in the Order of Their Times

The texts that `time_utils.c` makes of epochs are compared with `strcmp` by whoever sorts files
or records by their dates. As long as the year has four digits, which are the years 0 to 9999,
every field fills its width and the texts are in the order of the times.

## Main results

* `iso_texts_sort`: of two epochs with such a year the texts are in the order of their minutes,
  and the dates are in the order of their days.
-/

open CLang Calendar

namespace MaestroCore

/-- `"%04d-%02d-%02d"`. -/
def isoShortString : List FormatItem := [.int 4, .lit 45, .int 2, .lit 45, .int 2]

/-- `parse_epoch_to_iso_short_datetime_string`. -/
def parseEpochToIsoShortDatetimeString (epoch : ℤ) : Except TimeFault Bytes :=
  match gmtime epoch with
  | none => .ok (ascii "Invalid datetime")
  | some tm => do
      let year ← checkedInt (tm.year + 1900)
      .ok (cstr (snprintf 11 (printf isoShortString
        [.int year, .int (tm.mon + 1), .int tm.mday])))

section Order

variable {t u : ℤ}

/-- The fields of the date alone fit into the format of the date. -/
theorem FourDigits.fits_short (h : FourDigits t) : Fits isoShortString (dateFields t) := by
  obtain ⟨hyear, hmonth, hday, -⟩ := h.fits
  exact ⟨hyear, hmonth, hday, trivial⟩

/-- The text of the date, with nothing cut off. -/
theorem FourDigits.short (h : FourDigits t) : parseEpochToIsoShortDatetimeString t =
    .ok (printf isoShortString (dateFields t)) := by
  obtain ⟨hyear, hyear'⟩ := h.year
  have hlength := length_printf h.fits_short
  rw [parseEpochToIsoShortDatetimeString, h.gmtime]
  have hint : checkedInt (dateOfDay (t / 86400)).year = .ok (dateOfDay (t / 86400)).year :=
    checkedInt_eq (by omega) (by omega)
  simp only [sub_add_cancel, hint, bind, Except.bind]
  have htext := cstr_snprintf (show 0 < 11 by decide)
    (noNul_printf h.fits_short (by decide) (by simp [dateFields]))
  rw [List.take_of_length_le (by rw [hlength]; decide)] at htext
  exact congrArg Except.ok htext

/-- The fields of dates are in the order of the days. -/
theorem dateFields_lt_iff :
    (dateFields t).map FormatValue.rank < (dateFields u).map FormatValue.rank ↔
      t / 86400 < u / 86400 := by
  rw [← dayNumber_dateOfDay (t / 86400), ← dayNumber_dateOfDay (u / 86400), dayNumber_lt_iff]
  simp [dateFields, FormatValue.rank, Date.Before, List.cons_lt_cons_iff]

/-- Days have the same fields only if they are the same. -/
theorem dateFields_inj :
    (dateFields t).map FormatValue.rank = (dateFields u).map FormatValue.rank ↔
      t / 86400 = u / 86400 := by
  constructor
  · intro h
    have hlt : ¬ t / 86400 < u / 86400 := by
      rw [← dateFields_lt_iff, h]
      exact List.lt_irrefl _
    have hgt : ¬ u / 86400 < t / 86400 := by
      rw [← dateFields_lt_iff, h]
      exact List.lt_irrefl _
    omega
  · intro h
    rw [dateFields, h, dateFields]

/-- The fields of all are in the order of the minutes. -/
theorem fields_lt_iff :
    (dateFields t ++ minuteFields t).map FormatValue.rank <
        (dateFields u ++ minuteFields u).map FormatValue.rank ↔ t / 60 < u / 60 := by
  rw [List.map_append, List.map_append, append_lt_append_iff (by rfl), dateFields_lt_iff,
    dateFields_inj]
  simp only [minuteFields, List.map_cons, List.map_nil, FormatValue.rank, List.cons_lt_cons_iff,
    List.not_lt_nil, and_false, or_false]
  omega

end Order

/-- **Texts sort as their times.** For any two epochs in the years 0 to 9999, `strcmp` finds the
texts of `parse_epoch_to_iso_datetime_string` in the order of the minutes, and those of
`parse_epoch_to_iso_short_datetime_string`, which are the beginnings of the former, in the order
of the days. -/
theorem iso_texts_sort (t u : ℤ) (ht : FourDigits t) (hu : FourDigits u) :
    ∃ text text' date date',
      parseEpochToIsoDatetimeString t = .ok text ∧
      parseEpochToIsoDatetimeString u = .ok text' ∧
      parseEpochToIsoShortDatetimeString t = .ok date ∧
      parseEpochToIsoShortDatetimeString u = .ok date' ∧
      (text < text' ↔ t / 60 < u / 60) ∧
      (date < date' ↔ t / 86400 < u / 86400) ∧
      date <+: text := by
  refine ⟨_, _, _, _, ht.text, hu.text, ht.short, hu.short, ?_, ?_, ?_⟩
  · rw [printf_lt_iff ht.fits hu.fits, fields_lt_iff]
  · rw [printf_lt_iff ht.fits_short hu.fits_short, dateFields_lt_iff]
  · have happend := printf_append ht.fits_short
      [.lit 84, .int 2, .lit 58, .int 2] (minuteFields t)
    exact ⟨_, happend.symm⟩

/-- The last minute of a year and the first one of the next. -/
theorem iso_texts_sort_new_year :
    ∃ text text' date date',
      parseEpochToIsoDatetimeString 1767225540 = .ok text ∧
      parseEpochToIsoDatetimeString 1767225600 = .ok text' ∧
      parseEpochToIsoShortDatetimeString 1767225540 = .ok date ∧
      parseEpochToIsoShortDatetimeString 1767225600 = .ok date' ∧
      text < text' ∧ date < date' := by
  obtain ⟨text, text', date, date', ht, hu, hd, hd', htext, hdate, -⟩ :=
    iso_texts_sort 1767225540 1767225600 ⟨by decide, by decide⟩ ⟨by decide, by decide⟩
  exact ⟨text, text', date, date', ht, hu, hd, hd', htext.mpr (by decide), hdate.mpr (by decide)⟩

end MaestroCore
