import MaestroCore.TimeUtils

/-!
# Times There and Back

What the functions of `time_utils.c` make of the epochs below `2 ^ 31`. There `gmtime`, the two
formats and `timegm` agree with each other, so a time that is printed and read again, or cut
off in its broken-down form, is the time rounded down. The full format agrees with itself only
at the offset zero: what is printed are the fields of UTC, and what is read are local ones.

## Main results

* `times_agree`: printing, reading and rounding agree.
* `full_datetime_round_trip_iff`: the full form is read back iff the offset is zero.
-/

open CLang Calendar

namespace MaestroCore

variable {t : ℤ}

/-! ### The fields of an epoch -/

/-- The day of an epoch below `2 ^ 31`. -/
theorem date_bounds (h : 0 ≤ t) (h' : t < 2 ^ 31) :
    (dateOfDay (t / 86400)).dayNumber = t / 86400 ∧ 1970 ≤ (dateOfDay (t / 86400)).year ∧
      (dateOfDay (t / 86400)).year ≤ 2039 := by
  have hnumber := dayNumber_dateOfDay (t / 86400)
  have hyear := year_of_dayNumber (d := dateOfDay (t / 86400)) (by omega)
  exact ⟨hnumber, hyear.1, by omega⟩

/-- An epoch below `2 ^ 31` has a year of four digits. -/
theorem fourDigits_of_lt (h : 0 ≤ t) (h' : t < 2 ^ 31) : FourDigits t :=
  ⟨by omega, by omega⟩

/-- `timegm` on the day of an epoch, with other fields for the time of the day. -/
theorem timegm_of_epoch (h : 0 ≤ t) (h' : t < 2 ^ 31) {hour min sec n : ℤ}
    (hhour : 0 ≤ t / 86400 * 24 + hour) (hmin : 0 ≤ min) (hsec : 0 ≤ sec)
    (hresult : ((t / 86400 * 24 + hour) * 60 + min) * 60 + sec = n) (hn : n < 2 ^ 31) :
    timegm ⟨(dateOfDay (t / 86400)).year - 1900, (dateOfDay (t / 86400)).month - 1,
      (dateOfDay (t / 86400)).day, hour, min, sec⟩ = .ok n := by
  obtain ⟨hnumber, hyear, hyear'⟩ := date_bounds h h'
  rw [timegm_date (by omega) (by omega), hnumber, timegmSeconds_eq_ok]
  exact ⟨by omega, hresult⟩

/-- **Printing, reading and rounding agree.** For every epoch below `2 ^ 31`, the short text is
read back as the epoch rounded down to a minute, and the functions for the current time round
it down to a minute, an hour and a day. -/
theorem times_agree (t : ℤ) (h : 0 ≤ t) (h' : t < 2 ^ 31) :
    (parseEpochToIsoDatetimeString t >>= parseIsoDatetimeStringToEpoch) = .ok (t - t % 60) ∧
    epochNowMin t = .ok (t - t % 60) ∧
    epochNowHour t = .ok (t - t % 3600) ∧
    epochNowDay t = .ok (t - t % 86400) ∧
    epochNowDayUtc t = .ok (t - t % 86400) := by
  have hgmtime := (fourDigits_of_lt h h').gmtime
  refine ⟨?_, ?_, ?_, ?_, ?_⟩
  · have hfits := (fourDigits_of_lt h h').fits
    rw [(fourDigits_of_lt h h').text]
    simp only [bind, Except.bind, parseIsoDatetimeStringToEpoch]
    rw [cstr_eq_self (noNul_printf hfits (by decide) (by simp [dateFields, minuteFields])),
      sscanf_printf hfits]
    simp only [dateFields, minuteFields, List.cons_append, List.nil_append]
    exact timegm_of_epoch h h' (by omega) (by omega) (by omega) (by omega) (by omega)
  · rw [epochNowMin, epochNow, hgmtime]
    simp only
    exact timegm_of_epoch h h' (by omega) (by omega) (by omega) (by omega) (by omega)
  · rw [epochNowHour, epochNow, hgmtime]
    simp only
    exact timegm_of_epoch h h' (by omega) (by omega) (by omega) (by omega) (by omega)
  · rw [epochNowDay, epochNow, hgmtime]
    simp only
    exact timegm_of_epoch h h' (by omega) (by omega) (by omega) (by omega) (by omega)
  · rw [epochNowDayUtc, hgmtime]
    simp only
    exact timegm_of_epoch h h' (by omega) (by omega) (by omega) (by omega) (by omega)

/-- The last second before `2 ^ 31`. -/
theorem last_times_agree :
    (parseEpochToIsoDatetimeString 2147483647 >>= parseIsoDatetimeStringToEpoch) =
      .ok 2147483640 ∧ epochNowDay 2147483647 = .ok 2147472000 := by
  obtain ⟨hshort, -, -, hday, -⟩ := times_agree 2147483647 (by omega) (by omega)
  exact ⟨hshort, hday⟩

/-! ### The full format -/

/-- The part of the full format before the offset. -/
def isoSecondsString : List FormatItem := isoDateString ++ [.lit 58, .int 2]

/-- The offset of the full format. -/
def isoOffsetString : List FormatItem := [.char, .int 2, .lit 58, .int 2]

/-- The fields before the offset. -/
def secondsFields (t : ℤ) : List FormatValue :=
  [.int (dateOfDay (t / 86400)).year, .int (dateOfDay (t / 86400)).month,
    .int (dateOfDay (t / 86400)).day, .int (t % 86400 / 3600), .int (t % 3600 / 60),
    .int (t % 60)]

/-- The offset as it is printed: its sign, and then the offset with its sign again. -/
def offsetText (offset : ℤ) : Bytes :=
  printf isoOffsetString [.char (if offset < 0 then 45 else 43), .int offset, .int 0]

/-- An epoch within `int` fits the format with seconds. -/
theorem fits_isoSecondsString (h : 0 ≤ t) (h' : t < 2 ^ 31) :
    Fits isoSecondsString (secondsFields t) := by
  obtain ⟨hyear, hmonth, hday, hhour, hmin, -⟩ := (fourDigits_of_lt h h').fits
  exact ⟨hyear, hmonth, hday, hhour, hmin, ⟨by omega, by omega, by omega⟩, trivial⟩

/-- What is printed of the offset, and what is read of it: the sign twice, and nothing behind
an offset of three characters. -/
theorem offsetText_spec {offset : ℤ} (h : -12 ≤ offset) (h' : offset ≤ 12) :
    ((offsetText offset).length = 6 ∨ (offsetText offset).length = 7) ∧
    (∀ b ∈ offsetText offset, b ≠ 0) ∧
    sscanf isoOffsetString ((offsetText offset).take 6) =
      if 0 ≤ offset then [.char 43, .int offset, .int 0]
      else if -10 < offset then [.char 45, .int offset, .int 0]
      else [.char 45, .int (-1)] := by
  interval_cases offset <;> decide

/-- The full text of an epoch: whatever is behind its 25th character is cut off. -/
theorem parseEpochToIsoFullDatetimeString_eq (h : 0 ≤ t) (h' : t < 2 ^ 31) {offset : ℤ}
    (hlow : -12 ≤ offset) (hhigh : offset ≤ 12) :
    parseEpochToIsoFullDatetimeString t offset =
      .ok (printf isoSecondsString (secondsFields t) ++ (offsetText offset).take 6) := by
  obtain ⟨-, hyear, hyear'⟩ := date_bounds h h'
  obtain ⟨hsix, hnul, -⟩ := offsetText_spec hlow hhigh
  have hfits := fits_isoSecondsString h h'
  have hlength : (printf isoSecondsString (secondsFields t)).length = 19 := length_printf hfits
  have hhead := noNul_printf hfits (by decide) (by simp [secondsFields])
  have hprintf : printf isoDateStringFull
      [.int (dateOfDay (t / 86400)).year, .int (dateOfDay (t / 86400)).month,
        .int (dateOfDay (t / 86400)).day, .int (t % 86400 / 3600), .int (t % 3600 / 60),
        .int (t % 60), .char (if offset < 0 then 45 else 43), .int offset, .int 0] =
      printf isoSecondsString (secondsFields t) ++ offsetText offset :=
    printf_append hfits isoOffsetString _
  rw [parseEpochToIsoFullDatetimeString, (fourDigits_of_lt h h').gmtime]
  simp only [if_neg (show ¬ (12 < offset ∨ offset < -12) by omega), sub_add_cancel, bind,
    Except.bind, checkedInt_eq (n := (dateOfDay (t / 86400)).year) (by omega) (by omega), hprintf]
  have hnone : ∀ b ∈ printf isoSecondsString (secondsFields t) ++ offsetText offset, b ≠ 0 := by
    intro b hb
    rcases List.mem_append.mp hb with hb | hb
    · exact hhead b hb
    · exact hnul b hb
  rw [cstr_snprintf (by decide) hnone, List.take_append, hlength,
    List.take_of_length_le (by rw [hlength]; decide)]

/-- What is read back: the fields are taken for local ones, whichever side of UTC the offset is
on, and an offset of three characters is not read at all. -/
theorem parseIsoFullDatetimeStringToEpoch_eq (h : 86400 ≤ t) (h' : t < 2 ^ 31) {offset : ℤ}
    (hlow : -12 ≤ offset) (hhigh : offset ≤ 12) :
    parseIsoFullDatetimeStringToEpoch
        (printf isoSecondsString (secondsFields t) ++ (offsetText offset).take 6) =
      .ok (if -10 < offset then t - 3600 * |offset| else -1) := by
  have h0 : 0 ≤ t := by omega
  obtain ⟨-, hnul, hscan⟩ := offsetText_spec hlow hhigh
  have hfits := fits_isoSecondsString h0 h'
  have hhead := noNul_printf hfits (by decide) (by simp [secondsFields])
  have hnone : ∀ b ∈ printf isoSecondsString (secondsFields t) ++ (offsetText offset).take 6,
      b ≠ 0 := by
    intro b hb
    rcases List.mem_append.mp hb with hb | hb
    · exact hhead b hb
    · exact hnul b (List.mem_of_mem_take hb)
  have hread := sscanf_printf_append hfits isoOffsetString ((offsetText offset).take 6)
  have hformat : isoDateStringFull = isoSecondsString ++ isoOffsetString := rfl
  rw [parseIsoFullDatetimeStringToEpoch, cstr_eq_self hnone, hformat, hread, hscan, secondsFields]
  by_cases hpos : 0 ≤ offset
  · rw [if_pos hpos, if_pos (by omega), abs_of_nonneg hpos]
    exact timegm_of_epoch h0 h' (by omega) (by omega) (by omega) (by omega) (by omega)
  · rw [if_neg hpos]
    by_cases hshort : -10 < offset
    · rw [if_pos hshort, if_pos hshort, abs_of_neg (by omega)]
      exact timegm_of_epoch h0 h' (by omega) (by omega) (by omega) (by omega) (by omega)
    · rw [if_neg hshort, if_neg hshort]
      rfl

/-- **When the full form is read back.** For every epoch from one day on to one day before
`2 ^ 31` and every offset from -12 to 12 hours, the text is a text of 25 characters that is read
back as the epoch iff the offset is zero. -/
theorem full_datetime_round_trip_iff (t offset : ℤ) (h : 86400 ≤ t) (h' : t < 2 ^ 31 - 86400)
    (hlow : -12 ≤ offset) (hhigh : offset ≤ 12) :
    (∃ s, parseEpochToIsoFullDatetimeString t offset = .ok s ∧ s.length = 25 ∧
      parseIsoFullDatetimeStringToEpoch s = .ok t) ↔ offset = 0 := by
  have hprint := parseEpochToIsoFullDatetimeString_eq (t := t) (by omega) (by omega) hlow hhigh
  have hread := parseIsoFullDatetimeStringToEpoch_eq h (by omega) hlow hhigh
  rw [hprint]
  constructor
  · rintro ⟨s, hs, -, hback⟩
    obtain rfl := Except.ok.inj hs
    rw [hread] at hback
    have hresult := Except.ok.inj hback
    split at hresult
    · exact abs_eq_zero.mp (by omega)
    · omega
  · rintro rfl
    refine ⟨_, rfl, ?_, ?_⟩
    · have hfits := fits_isoSecondsString (t := t) (by omega) (by omega)
      rw [List.length_append, length_printf hfits]
      decide
    · rw [hread]
      simp

/-- 1970-01-02T00:00:00+00:00 is read back. -/
theorem utc_datetime_round_trip :
    ∃ s, parseEpochToIsoFullDatetimeString 86400 0 = .ok s ∧ s.length = 25 ∧
      parseIsoFullDatetimeStringToEpoch s = .ok 86400 :=
  (full_datetime_round_trip_iff 86400 0 (by omega) (by omega) (by omega) (by omega)).mpr rfl

/-- With an offset of one hour, the second day of 1970 is printed as `1970-01-02T00:00:00+01:00`
and read back as one hour before it. -/
theorem offset_datetime_read_back :
    parseEpochToIsoFullDatetimeString 86400 1 = .ok (ascii "1970-01-02T00:00:00+01:00") ∧
    parseIsoFullDatetimeStringToEpoch (ascii "1970-01-02T00:00:00+01:00") = .ok 82800 ∧
    ¬ ∃ s, parseEpochToIsoFullDatetimeString 86400 1 = .ok s ∧ s.length = 25 ∧
      parseIsoFullDatetimeStringToEpoch s = .ok 86400 := by
  have hlow : (-12 : ℤ) ≤ 1 := by omega
  have hhigh : (1 : ℤ) ≤ 12 := by omega
  have hprint := parseEpochToIsoFullDatetimeString_eq (t := 86400) (by omega) (by omega) hlow hhigh
  have hread := parseIsoFullDatetimeStringToEpoch_eq (t := 86400) (by omega) (by omega) hlow hhigh
  have htext : printf isoSecondsString (secondsFields 86400) ++ (offsetText 1).take 6 =
      ascii "1970-01-02T00:00:00+01:00" := by decide
  rw [htext] at hprint hread
  refine ⟨hprint, hread, ?_⟩
  rintro ⟨s, hs, -, hback⟩
  obtain rfl := Except.ok.inj (hprint.symm.trans hs)
  exact absurd (Except.ok.inj (hread.symm.trans hback)) (by decide)

end MaestroCore
