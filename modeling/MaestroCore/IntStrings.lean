import MaestroCore.Lib.Occurrence
import MaestroCore.Utils

/-!
# Strings That Write an `int`

`parse_string_to_int` copies the beginning of a string into an array of 37 bytes, and scans
what it has copied. A longer string is judged by its first 36 bytes, and the length of the
string passes through an `int` first.

## Main results

* `parseStringToInt_copied`: what is accepted are the copied bytes.
* `WritesInt.unique`: a string writes at most one number.
* `parsed_as_int_iff`: when the string is judged as a whole.
-/

open CLang

namespace MaestroCore

/-- The string is white space, a sign or none, and decimal digits that denote the number, which
is an `int`. -/
def WritesInt (str : Bytes) (n : ℤ) : Prop :=
  (∃ spaces sign ds, str = spaces ++ (signText sign ++ ds) ∧ (∀ b ∈ spaces, isspace b = true) ∧
    ds ≠ [] ∧ (∀ b ∈ ds, isDigit 10 b = true) ∧
    n = if sign.getD false then -(numeral 10 ds : ℤ) else numeral 10 ds) ∧
  -2 ^ 31 ≤ n ∧ n ≤ intMax

/-- White space and a sign or none. -/
def OnlySign (str : Bytes) : Prop :=
  ∃ spaces sign, str = spaces ++ signText sign ∧ ∀ b ∈ spaces, isspace b = true

/-- `parse_string_to_int` accepts the string iff it writes an `int`, with that number, and else
returns `-1` and leaves its output alone. -/
def ParsedAsInt (str : Bytes) : Prop :=
  ∃ result, parseStringToInt str = .ok result ∧ ∀ n, result = some n ↔ WritesInt str n

/-- The string is judged by the copied bytes only, and they say the same as the whole. -/
def CopySuffices (str : Bytes) : Prop :=
  copiedPart str ≠ str →
    (∀ n, WritesInt (copiedPart str) n → n = 0 ∧ WritesInt str 0) ∧
    (OnlySign (copiedPart str) → ∀ n, ¬ WritesInt str n)

section IntStrings

variable {str : Bytes} {n m : ℤ}

/-- A string that writes an `int` is scanned to its end. -/
theorem writesInt_iff : WritesInt str n ↔ ∃ scanned, scanInt 10 str = some scanned ∧
    scanned.rest = [] ∧ scanned.value = n ∧ -2 ^ 31 ≤ n ∧ n ≤ intMax := by
  constructor
  · rintro ⟨⟨spaces, sign, ds, rfl, hspaces, hne, hds, rfl⟩, hrange⟩
    have hscan := scanInt_text hspaces sign hne hds
      (show ∀ b ∈ ([] : Bytes).head?, isDigit 10 b = false by simp)
    rw [List.append_nil] at hscan
    exact ⟨_, hscan, rfl, rfl, hrange⟩
  · rintro ⟨scanned, hscan, hrest, rfl, hrange⟩
    obtain ⟨spaces, sign, ds, hstr, hspaces, hne, hds, hnegative, hmagnitude⟩ :=
      exists_of_scanInt hscan
    rw [hrest, List.append_nil] at hstr
    refine ⟨⟨spaces, sign, ds, hstr, hspaces, hne, hds, ?_⟩, hrange⟩
    rw [Scanned.value, hnegative, hmagnitude]

/-- A string writes at most one number. -/
theorem WritesInt.unique (h : WritesInt str n) (h' : WritesInt str m) : n = m := by
  obtain ⟨scanned, hscan, -, rfl, -⟩ := writesInt_iff.mp h
  obtain ⟨scanned', hscan', -, rfl, -⟩ := writesInt_iff.mp h'
  rw [hscan, Option.some.injEq] at hscan'
  rw [hscan']

/-- A sign alone writes no number. -/
theorem not_writesInt_of_onlySign (h : OnlySign str) : ¬ WritesInt str n := by
  obtain ⟨spaces, sign, rfl, hspaces⟩ := h
  intro hwrites
  obtain ⟨scanned, hscan, -⟩ := writesInt_iff.mp hwrites
  rw [scanInt_of_no_digits hspaces sign] at hscan
  cases hscan

/-- **What is accepted are the copied bytes**, unless the length of the string is negative as an
`int`. -/
theorem parseStringToInt_copied (h : 0 ≤ toInt str.length) :
    ∃ result, parseStringToInt str = .ok result ∧
      ∀ n, result = some n ↔ WritesInt (copiedPart str) n := by
  refine ⟨_, parseStringToInt_of_nonneg h, fun n => ?_⟩
  rw [writesInt_iff, Option.bind_eq_some_iff]
  refine exists_congr fun scanned => and_congr_right fun _ => ?_
  constructor
  · intro hn
    split at hn
    · rename_i hrest
      obtain rfl := Option.some.inj hn
      exact ⟨hrest.1, rfl, hrest.2⟩
    · cases hn
  · rintro ⟨hrest, rfl, hrange⟩
    rw [if_pos ⟨hrest, hrange⟩]

/-- The digits of a numeral go on as far as they can. -/
theorem scanInt_text_append {spaces ds : Bytes} (hspaces : ∀ b ∈ spaces, isspace b = true)
    (sign : Option Bool) (hne : ds ≠ []) (hds : ∀ b ∈ ds, isDigit 10 b = true) (later : Bytes) :
    scanInt 10 (spaces ++ (signText sign ++ (ds ++ later))) =
      some ⟨sign.getD false, numeral 10 (ds ++ later.takeWhile (isDigit 10)),
        later.dropWhile (isDigit 10)⟩ := by
  have hdigits : ∀ b ∈ ds ++ later.takeWhile (isDigit 10), isDigit 10 b = true := by
    intro b hb
    rcases List.mem_append.mp hb with hb | hb
    · exact hds b hb
    · exact List.mem_takeWhile_imp hb
  have hend : ∀ b ∈ (later.dropWhile (isDigit 10)).head?, isDigit 10 b = false := by
    intro b hb
    have hnot := List.head?_dropWhile_not (isDigit 10) later
    rw [Option.mem_def] at hb
    rwa [hb] at hnot
  have hscan := scanInt_text hspaces sign (by simp [hne]) hdigits hend
  rwa [List.append_assoc, List.takeWhile_append_dropWhile] at hscan

/-- A number of which only the first digits are read is read right only when it is zero. -/
theorem WritesInt.eq_zero_of_append {later : Bytes} (h : WritesInt str n)
    (h' : WritesInt (str ++ later) n) (hlater : later ≠ []) : n = 0 := by
  obtain ⟨⟨spaces, sign, ds, rfl, hspaces, hne, hds, rfl⟩, -⟩ := h
  obtain ⟨scanned, hscan, hrest, hvalue, -⟩ := writesInt_iff.mp h'
  rw [List.append_assoc, List.append_assoc, scanInt_text_append hspaces sign hne hds,
    Option.some.injEq] at hscan
  subst hscan
  have hall : later.takeWhile (isDigit 10) = later := by
    have hsplit := List.takeWhile_append_dropWhile (p := isDigit 10) (l := later)
    rwa [show later.dropWhile (isDigit 10) = [] from hrest, List.append_nil] at hsplit
  have hpow : 10 ≤ 10 ^ later.length :=
    Nat.le_self_pow (by simpa using hlater) 10
  have hmul := Nat.mul_le_mul_left (numeral 10 ds) hpow
  simp only [Scanned.value, hall, numeral_append] at hvalue
  split at hvalue <;> split <;> omega

/-- A number of which not all digits are read. -/
theorem WritesInt.of_append {part later : Bytes} (h : WritesInt (part ++ later) n) :
    OnlySign part ∨ ∃ m, WritesInt part m := by
  obtain ⟨⟨spaces, sign, ds, hstr, hspaces, hne, hds, rfl⟩, hrange⟩ := h
  by_cases hspace : part.length ≤ spaces.length
  · obtain ⟨r, rfl, -⟩ := List.exists_split_of_length_le hstr.symm hspace
    exact Or.inl ⟨part, none, (List.append_nil part).symm, fun b hb =>
      hspaces b (List.mem_append_left r hb)⟩
  · obtain ⟨r, rfl, hr⟩ := List.exists_split_of_length_le hstr (by omega)
    by_cases hsign : r.length ≤ (signText sign).length
    · -- A sign is one byte, so it has been copied whole.
      have hshort : (signText sign).length ≤ 1 := by
        rcases sign with _ | _ | _ <;> simp [signText]
      have hlong : 1 ≤ r.length := by
        rw [List.length_append] at hspace
        omega
      obtain ⟨rfl, -⟩ := List.append_inj hr (by omega)
      exact Or.inl ⟨spaces, sign, rfl, hspaces⟩
    · obtain ⟨ds', rfl, hds'⟩ := List.exists_split_of_length_le hr (by omega)
      refine Or.inr ⟨_, ⟨spaces, sign, ds', rfl, hspaces, ?_, ?_, rfl⟩, ?_⟩
      · rintro rfl
        simp at hsign
      · exact fun b hb => hds b (hds' ▸ List.mem_append_left later hb)
      · have hle : numeral 10 ds' ≤ numeral 10 ds := by
          rw [← hds', numeral_append]
          have hpow : 1 ≤ 10 ^ later.length := Nat.one_le_pow _ _ (by omega)
          have hmul := Nat.mul_le_mul_left (numeral 10 ds') hpow
          omega
        cases hnegative : sign.getD false <;>
          simp only [hnegative, if_true, Bool.false_eq_true, if_false] at hrange ⊢ <;> omega

/-- What the copied bytes and the whole string write. -/
theorem copySuffices_iff :
    CopySuffices str ↔ ∀ n, WritesInt (copiedPart str) n ↔ WritesInt str n := by
  by_cases hwhole : copiedPart str = str
  · simp [CopySuffices, hwhole]
  · obtain ⟨later, hstr⟩ : copiedPart str <+: str := List.take_prefix _ _
    have hlater : later ≠ [] := by
      rintro rfl
      rw [List.append_nil] at hstr
      exact hwhole hstr
    constructor
    · intro h n
      obtain ⟨hzero, hsign⟩ := h hwhole
      constructor
      · intro hn
        obtain ⟨rfl, hstrZero⟩ := hzero n hn
        exact hstrZero
      · intro hn
        rcases (hstr ▸ hn).of_append with honly | ⟨m, hm⟩
        · exact absurd hn (hsign honly n)
        · obtain ⟨rfl, hstrZero⟩ := hzero m hm
          rwa [hn.unique hstrZero]
    · intro h _
      refine ⟨fun n hn => ?_, fun honly n hn => not_writesInt_of_onlySign honly ((h n).mpr hn)⟩
      have hn' := (h n).mp hn
      obtain rfl := hn.eq_zero_of_append (hstr.symm ▸ hn') hlater
      exact ⟨rfl, hn'⟩

/-- **When the string is judged as a whole.** For every string of any length, the string is
accepted iff it writes an `int`, with that number, iff its length is not negative as an `int`,
and, when not all of it is copied: the copied bytes write no `int`, or they and the whole string
write zero; and when the copied bytes end before the first digit, the string writes no `int`. -/
theorem parsed_as_int_iff (str : Bytes) :
    ParsedAsInt str ↔ 0 ≤ toInt str.length ∧ CopySuffices str := by
  constructor
  · rintro ⟨result, hresult, hwrites⟩
    have hnonneg : 0 ≤ toInt str.length := by
      by_contra hneg
      rw [parseStringToInt, if_pos (by omega)] at hresult
      cases hresult
    obtain ⟨result', hresult', hcopied⟩ := parseStringToInt_copied hnonneg
    obtain rfl : result = result' := Except.ok.inj (hresult.symm.trans hresult')
    exact ⟨hnonneg, copySuffices_iff.mpr fun n => (hcopied n).symm.trans (hwrites n)⟩
  · rintro ⟨hnonneg, hsuffices⟩
    obtain ⟨result, hresult, hcopied⟩ := parseStringToInt_copied hnonneg
    exact ⟨result, hresult, fun n => (hcopied n).trans (copySuffices_iff.mp hsuffices n)⟩

end IntStrings

/-- 36 zeros and a letter are accepted; 36 spaces and a digit are not. -/
theorem long_strings_misjudged :
    parseStringToInt (List.replicate 36 48 ++ ascii "x") = .ok (some 0) ∧
    parseStringToInt (List.replicate 36 32 ++ ascii "5") = .ok none ∧
    ¬ ParsedAsInt (List.replicate 36 48 ++ ascii "x") := by
  have hzeros : parseStringToInt (List.replicate 36 48 ++ ascii "x") = .ok (some 0) := by decide
  refine ⟨hzeros, by decide, ?_⟩
  rintro ⟨result, hresult, hwrites⟩
  obtain rfl : some 0 = result := Except.ok.inj (hzeros.symm.trans hresult)
  obtain ⟨scanned, hscan, hrest, -⟩ := writesInt_iff.mp ((hwrites 0).mp rfl)
  have htail : scanInt 10 (List.replicate 36 48 ++ ascii "x") = some ⟨false, 0, ascii "x"⟩ := by
    decide
  rw [htail, Option.some.injEq] at hscan
  rw [← hscan] at hrest
  exact absurd hrest (by decide)

end MaestroCore
