import MaestroCore.Lib.CLang

/-!
# Formatted Output and Input of Numbers

The conversions `%0Nd` and `%c` of `printf` and `%Nd` and `%c` of `scanf`, between literal
bytes. A number is printed with at least `N` characters, its sign among them, and read from at
most `N` characters after any white space. The two agree on the numbers that have at most `N`
digits and no sign, for which `N` characters are both what is printed and what is read.

## Main results

* `scanField_printInt`: one number is read back.
* `sscanf_printf_append`: a text is read back, whatever follows it.
* `inWidths_sscanf`: of any text, numbers within their widths are read.
* `length_printf`: the length of the text depends on the format only.
-/

namespace CLang

/-- A piece of a format: a conversion, or a byte that stands for itself. -/
inductive FormatItem
  | int (width : ℕ)
  | char
  | lit (b : UInt8)
  deriving DecidableEq, Repr

/-- The value of a conversion. -/
inductive FormatValue
  | int (n : ℤ)
  | char (b : UInt8)
  deriving DecidableEq, Repr

/-- A number with zeros before it, up to the width. -/
def padded (width n : ℕ) : Bytes := List.replicate (width - (decimal n).length) 48 ++ decimal n

/-- `%0Nd`: a minus sign takes one place of the width. -/
def printInt (width : ℕ) (n : ℤ) : Bytes :=
  if n < 0 then 45 :: padded (width - 1) n.natAbs else padded width n.natAbs

/-- The text of `printf`. -/
def printf : List FormatItem → List FormatValue → Bytes
  | .lit b :: fmt, vs => b :: printf fmt vs
  | .int width :: fmt, .int n :: vs => printInt width n ++ printf fmt vs
  | .char :: fmt, .char b :: vs => b :: printf fmt vs
  | _, _ => []

/-- `%Nd` at the start of a text: the number, and the text after it. -/
def scanField (width : ℕ) (s : Bytes) : Option (ℤ × Bytes) :=
  let s := s.dropWhile isspace
  let (negative, body) := scanSign s
  let ds := (body.take (width - (s.length - body.length))).takeWhile (isDigit 10)
  if ds = [] then none
  else some (if negative then -(numeral 10 ds : ℤ) else numeral 10 ds, body.drop ds.length)

/-- The values that `sscanf` assigns, up to the first piece that does not match; it returns
their number. -/
def sscanf : List FormatItem → Bytes → List FormatValue
  | [], _ => []
  | .int width :: fmt, s =>
      match scanField width s with
      | none => []
      | some (n, rest) => .int n :: sscanf fmt rest
  | .char :: fmt, b :: s => .char b :: sscanf fmt s
  | .lit b :: fmt, c :: s => if c = b then sscanf fmt s else []
  | _ :: _, [] => []

/-! ### One number -/

/-- A padded number consists of decimal digits. -/
theorem digits_padded (width n : ℕ) : ∀ b ∈ padded width n, isDigit 10 b := by
  intro b hb
  rcases List.mem_append.mp hb with hb | hb
  · rw [List.eq_of_mem_replicate hb]
    decide
  · exact (isNumeral_decimal n).digits b hb

/-- The padding does not change the number. -/
theorem numeral_padded (width n : ℕ) : numeral 10 (padded width n) = n := by
  have hzeros : ∀ k, numeral 10 (List.replicate k 48 ++ decimal n) = numeral 10 (decimal n) := by
    intro k
    induction k with
    | zero => rfl
    | succ k ih => exact ih
  exact (hzeros _).trans (isNumeral_decimal n).value

/-- A number of at most the width's digits is padded to exactly the width. -/
theorem length_padded {width n : ℕ} (hwidth : 0 < width) (h : n < 10 ^ width) :
    (padded width n).length = width := by
  obtain ⟨k, rfl⟩ : ∃ k, width = k + 1 := ⟨width - 1, by omega⟩
  have hle := length_decimal_le h
  rw [padded, List.length_append, List.length_replicate]
  omega

/-- Digits that fill the width are read as a number. -/
theorem scanField_digits {width : ℕ} {ds : Bytes} (hne : ds ≠ []) (hlength : ds.length = width)
    (h : ∀ b ∈ ds, isDigit 10 b) (rest : Bytes) :
    scanField width (ds ++ rest) = some ((numeral 10 ds : ℤ), rest) := by
  obtain ⟨d, ds', rfl⟩ := List.exists_cons_of_ne_nil hne
  have hd : isDigit 10 d := h d List.mem_cons_self
  have hspace : (d :: ds' ++ rest).dropWhile isspace = d :: ds' ++ rest :=
    List.dropWhile_cons_of_neg (by simp [(isDigit_spec (by omega) hd).1])
  have hsign : scanSign (d :: ds' ++ rest) = (false, d :: ds' ++ rest) := by
    have hscan := scanSign_of_digit (by omega) hd (ds' ++ rest)
    rwa [← List.cons_append, hspace] at hscan
  have htake : ((d :: ds' ++ rest).take width).takeWhile (isDigit 10) = d :: ds' := by
    rw [List.take_left' hlength]
    exact List.takeWhile_eq_self_iff.mpr h
  rw [scanField]
  simp only [hspace, hsign, Nat.sub_self, Nat.sub_zero, htake, if_neg hne, Bool.false_eq_true,
    if_false, List.drop_left' rfl]

/-- **A number that fits into its width is read back.** -/
theorem scanField_printInt {width : ℕ} {n : ℤ} (hwidth : 0 < width) (hn : 0 ≤ n)
    (h : n < 10 ^ width) (rest : Bytes) :
    scanField width (printInt width n ++ rest) = some (n, rest) := by
  have hlt : n.natAbs < 10 ^ width := by
    have hcast : ((10 ^ width : ℕ) : ℤ) = 10 ^ width := by push_cast; rfl
    omega
  have hlength := length_padded hwidth hlt
  have hne : padded width n.natAbs ≠ [] := List.ne_nil_of_length_pos (by omega)
  rw [printInt, if_neg (by omega), scanField_digits hne hlength (digits_padded _ _), numeral_padded,
    Int.natAbs_of_nonneg hn]

/-- What is read as a number are digits, not more than the width, and perhaps a minus sign. -/
theorem exists_of_scanField {width : ℕ} {s rest : Bytes} {n : ℤ}
    (h : scanField width s = some (n, rest)) : ∃ (negative : Bool) (ds : Bytes),
      ds.length ≤ width ∧ (∀ b ∈ ds, isDigit 10 b = true) ∧
      n = if negative then -(numeral 10 ds : ℤ) else numeral 10 ds := by
  rw [scanField] at h
  simp only at h
  split at h
  · cases h
  · refine ⟨_, _, ?_, fun b hb => List.mem_takeWhile_imp hb,
      (Prod.mk.inj (Option.some.inj h)).1.symm⟩
    calc _ ≤ _ := (List.takeWhile_prefix _).length_le
      _ ≤ _ := List.length_take_le _ _
      _ ≤ width := Nat.sub_le _ _

/-- A number that is read is smaller than the next one with more digits. -/
theorem scanField_bounds {width : ℕ} {s rest : Bytes} {n : ℤ}
    (h : scanField width s = some (n, rest)) : -10 ^ width < n ∧ n < 10 ^ width := by
  obtain ⟨negative, ds, hlength, hdigits, rfl⟩ := exists_of_scanField h
  have hlt : numeral 10 ds < 10 ^ width :=
    (numeral_lt hdigits).trans_le (Nat.pow_le_pow_right (by omega) hlength)
  have hcast : ((10 ^ width : ℕ) : ℤ) = 10 ^ width := by push_cast; rfl
  split <;> omega

/-! ### Whole texts -/

/-- The values are those of the conversions, and the numbers fit into their widths. -/
def Fits : List FormatItem → List FormatValue → Prop
  | [], [] => True
  | .lit _ :: fmt, vs => Fits fmt vs
  | .int width :: fmt, .int n :: vs => (0 < width ∧ 0 ≤ n ∧ n < 10 ^ width) ∧ Fits fmt vs
  | .char :: fmt, .char _ :: vs => Fits fmt vs
  | _, _ => False

/-- The values are read by the first pieces of the format, each number within its width. -/
def InWidths : List FormatItem → List FormatValue → Prop
  | .lit _ :: fmt, vs => InWidths fmt vs
  | .int width :: fmt, .int n :: vs => (-10 ^ width < n ∧ n < 10 ^ width) ∧ InWidths fmt vs
  | .char :: fmt, .char _ :: vs => InWidths fmt vs
  | _, [] => True
  | _, _ => False

/-- The number of characters that a piece prints. -/
def FormatItem.size : FormatItem → ℕ
  | .int width => width
  | .char => 1
  | .lit _ => 1

/-- The pieces of a format and the values that go with them, one conversion after the other. -/
theorem Fits.induction {P : List FormatItem → List FormatValue → Prop} (nil : P [] [])
    (lit : ∀ b fmt vs, Fits fmt vs → P fmt vs → P (.lit b :: fmt) vs)
    (int : ∀ width n fmt vs, 0 < width → 0 ≤ n → n < 10 ^ width → Fits fmt vs → P fmt vs →
      P (.int width :: fmt) (.int n :: vs))
    (char : ∀ b fmt vs, Fits fmt vs → P fmt vs → P (.char :: fmt) (.char b :: vs))
    {fmt : List FormatItem} {vs : List FormatValue} (h : Fits fmt vs) : P fmt vs := by
  induction fmt generalizing vs with
  | nil =>
      cases vs with
      | nil => exact nil
      | cons v vs => exact h.elim
  | cons item fmt ih =>
      cases item with
      | lit b => exact lit b fmt vs h (ih h)
      | int width =>
          match vs, h with
          | .int n :: vs, h => exact int width n fmt vs h.1.1 h.1.2.1 h.1.2.2 h.2 (ih h.2)
      | char =>
          match vs, h with
          | .char b :: vs, h => exact char b fmt vs h (ih h)

/-- **What is printed is read back**, whatever follows it. -/
theorem sscanf_printf_append {fmt : List FormatItem} {vs : List FormatValue} (h : Fits fmt vs)
    (later : List FormatItem) (rest : Bytes) :
    sscanf (fmt ++ later) (printf fmt vs ++ rest) = vs ++ sscanf later rest := by
  refine Fits.induction (P := fun fmt vs =>
    sscanf (fmt ++ later) (printf fmt vs ++ rest) = vs ++ sscanf later rest) rfl ?_ ?_ ?_ h
  · intro b fmt vs _ ih
    rw [printf, List.cons_append, List.cons_append, sscanf, if_pos rfl, ih]
  · intro width n fmt vs hwidth hn hlt _ ih
    rw [printf, List.append_assoc, List.cons_append, sscanf, scanField_printInt hwidth hn hlt]
    simp only [ih, List.cons_append]
  · intro b fmt vs _ ih
    rw [printf, List.cons_append, List.cons_append, sscanf, ih, List.cons_append]

/-- Values that fit the format are read back from what is printed. -/
theorem sscanf_printf {fmt : List FormatItem} {vs : List FormatValue} (h : Fits fmt vs) :
    sscanf fmt (printf fmt vs) = vs := by
  have happend := sscanf_printf_append h [] []
  rwa [List.append_nil, List.append_nil, sscanf, List.append_nil] at happend

/-- No values are within any widths. -/
theorem inWidths_nil (fmt : List FormatItem) : InWidths fmt [] := by
  induction fmt with
  | nil => trivial
  | cons item fmt ih =>
      cases item with
      | lit b => exact ih
      | int width => trivial
      | char => trivial

/-- **Whatever is read**, each number is within its width. -/
theorem inWidths_sscanf (fmt : List FormatItem) (s : Bytes) : InWidths fmt (sscanf fmt s) := by
  induction fmt generalizing s with
  | nil => trivial
  | cons item fmt ih =>
      cases item with
      | int width =>
          rw [sscanf]
          cases hscan : scanField width s with
          | none => trivial
          | some p => exact ⟨scanField_bounds hscan, ih p.2⟩
      | char =>
          cases s with
          | nil => trivial
          | cons b s => exact ih s
      | lit b =>
          cases s with
          | nil => exact inWidths_nil fmt
          | cons c s =>
              rw [sscanf]
              split
              · exact ih s
              · exact inWidths_nil fmt

/-- A text is printed in pieces. -/
theorem printf_append {fmt : List FormatItem} {vs : List FormatValue} (h : Fits fmt vs)
    (later : List FormatItem) (more : List FormatValue) :
    printf (fmt ++ later) (vs ++ more) = printf fmt vs ++ printf later more := by
  refine Fits.induction (P := fun fmt vs =>
    printf (fmt ++ later) (vs ++ more) = printf fmt vs ++ printf later more) rfl ?_ ?_ ?_ h
  · intro b fmt vs _ ih
    rw [List.cons_append, printf, printf, ih, List.cons_append]
  · intro width n fmt vs _ _ _ _ ih
    rw [List.cons_append, List.cons_append, printf, printf, ih, List.append_assoc]
  · intro b fmt vs _ ih
    rw [List.cons_append, List.cons_append, printf, printf, ih, List.cons_append]

/-- A text has a NUL only where the format or a character has one. -/
theorem noNul_printf {fmt : List FormatItem} {vs : List FormatValue} (h : Fits fmt vs)
    (hlit : .lit 0 ∉ fmt) (hchar : .char 0 ∉ vs) : ∀ b ∈ printf fmt vs, b ≠ 0 := by
  refine Fits.induction (P := fun fmt vs =>
    .lit 0 ∉ fmt → .char 0 ∉ vs → ∀ b ∈ printf fmt vs, b ≠ 0) ?_ ?_ ?_ ?_ h hlit hchar
  · intro _ _ b hb
    cases hb
  · intro b fmt vs _ ih hlit hchar c hc
    rcases List.mem_cons.mp hc with rfl | hc
    · rintro rfl
      exact hlit List.mem_cons_self
    · exact ih (fun hmem => hlit (List.mem_cons_of_mem _ hmem)) hchar c hc
  · intro width n fmt vs _ hn _ _ ih hlit hchar c hc
    rw [printf, printInt, if_neg (by omega)] at hc
    rcases List.mem_append.mp hc with hc | hc
    · rintro rfl
      exact absurd (digits_padded _ _ 0 hc) (by decide)
    · exact ih (fun hmem => hlit (List.mem_cons_of_mem _ hmem))
        (fun hmem => hchar (List.mem_cons_of_mem _ hmem)) c hc
  · intro b fmt vs _ ih hlit hchar c hc
    rcases List.mem_cons.mp hc with rfl | hc
    · rintro rfl
      exact hchar List.mem_cons_self
    · exact ih (fun hmem => hlit (List.mem_cons_of_mem _ hmem))
        (fun hmem => hchar (List.mem_cons_of_mem _ hmem)) c hc

/-- **The length of the text depends on the format only.** -/
theorem length_printf {fmt : List FormatItem} {vs : List FormatValue} (h : Fits fmt vs) :
    (printf fmt vs).length = (fmt.map FormatItem.size).sum := by
  refine Fits.induction (P := fun fmt vs =>
    (printf fmt vs).length = (fmt.map FormatItem.size).sum) rfl ?_ ?_ ?_ h
  · intro b fmt vs _ ih
    rw [printf, List.length_cons, ih, List.map_cons, List.sum_cons, FormatItem.size, add_comm]
  · intro width n fmt vs hwidth hn hlt _ ih
    have hcast : ((10 ^ width : ℕ) : ℤ) = 10 ^ width := by push_cast; rfl
    rw [printf, List.length_append, ih, List.map_cons, List.sum_cons, FormatItem.size, printInt,
      if_neg (by omega), length_padded hwidth (by omega)]
  · intro b fmt vs _ ih
    rw [printf, List.length_cons, ih, List.map_cons, List.sum_cons, FormatItem.size, add_comm]

end CLang
