import Mathlib.Data.List.Lex
import MaestroCore.Lib.Format

/-!
# The Order of Texts

Texts are compared byte by byte, as `strcmp` does it, which is the lexicographic order on lists
of bytes. Numbers of different lengths are not in order as texts, but numbers that fill the same
width are, and so are the texts of one format.

## Main results

* `numeral_lt_iff`: digit strings of one length are in the order of their numbers.
* `printf_lt_iff`: the texts of one format, with values that fit, are in the lexicographic order
  of the values.
-/

namespace CLang

/-- Lists whose first parts have one length are compared by these parts first. -/
theorem append_lt_append_iff {α : Type*} [LT α] {a b s t : List α} (h : a.length = b.length) :
    a ++ s < b ++ t ↔ a < b ∨ a = b ∧ s < t := by
  induction a generalizing b with
  | nil =>
      obtain rfl : b = [] := List.length_eq_zero_iff.mp h.symm
      simp
  | cons x a ih =>
      cases b with
      | nil => simp at h
      | cons y b =>
          have hlength : a.length = b.length := Nat.succ.inj h
          rw [List.cons_append, List.cons_append, List.cons_lt_cons_iff, List.cons_lt_cons_iff,
            ih hlength, List.cons.injEq]
          tauto

/-- The value of a decimal digit. -/
theorem digitVal_of_isDigit {b : UInt8} (h : isDigit 10 b = true) :
    digitVal b = some (b.toNat - 48) ∧ 48 ≤ b.toNat ∧ b.toNat ≤ 57 := by
  rw [isDigit, digitVal] at h
  split at h
  · rename_i hb
    have hle : 48 ≤ b.toNat := hb.1
    have hle' : b.toNat ≤ 57 := hb.2
    exact ⟨if_pos hb, hle, hle'⟩
  · split at h
    · rename_i hb
      have hle : 97 ≤ b.toNat := hb.1
      simp at h
      omega
    · split at h
      · rename_i hb
        have hle : 65 ≤ b.toNat := hb.1
        simp at h
        omega
      · simp at h

/-- Numbers of two parts are compared by the leading parts first. -/
theorem mul_add_lt_iff {a b p x y : ℕ} (hx : x < p) (hy : y < p) :
    a * p + x < b * p + y ↔ a < b ∨ a = b ∧ x < y := by
  rcases lt_trichotomy a b with hlt | rfl | hlt
  · have hle : (a + 1) * p ≤ b * p := Nat.mul_le_mul_right p hlt
    rw [Nat.add_mul, Nat.one_mul] at hle
    exact iff_of_true (by omega) (Or.inl hlt)
  · omega
  · have hle : (b + 1) * p ≤ a * p := Nat.mul_le_mul_right p hlt
    rw [Nat.add_mul, Nat.one_mul] at hle
    exact iff_of_false (by omega) (by omega)

/-- **Digit strings of one length** are in the order of their numbers. -/
theorem numeral_lt_iff {ds es : Bytes} (hlength : ds.length = es.length)
    (hds : ∀ b ∈ ds, isDigit 10 b = true) (hes : ∀ b ∈ es, isDigit 10 b = true) :
    ds < es ↔ numeral 10 ds < numeral 10 es := by
  induction ds generalizing es with
  | nil =>
      obtain rfl : es = [] := List.length_eq_zero_iff.mp hlength.symm
      simp
  | cons d ds ih =>
      cases es with
      | nil => simp at hlength
      | cons e es =>
          have hlength' : ds.length = es.length := Nat.succ.inj hlength
          have hds' : ∀ b ∈ ds, isDigit 10 b = true := fun b hb => hds b (List.mem_cons_of_mem _ hb)
          have hes' : ∀ b ∈ es, isDigit 10 b = true := fun b hb => hes b (List.mem_cons_of_mem _ hb)
          obtain ⟨hd, hdle, -⟩ := digitVal_of_isDigit (hds d List.mem_cons_self)
          obtain ⟨he, hele, -⟩ := digitVal_of_isDigit (hes e List.mem_cons_self)
          have hlt := numeral_lt hds'
          have hlt' := numeral_lt hes'
          have hrest := ih hlength' hds' hes'
          rw [List.cons_lt_cons_iff, hrest, numeral_cons, numeral_cons, hd, he, hlength',
            Option.getD_some, Option.getD_some]
          rw [hlength'] at hlt
          rw [mul_add_lt_iff hlt hlt', ← UInt8.toNat_inj, UInt8.lt_iff_toNat_lt]
          omega

section PrintInt

variable {width : ℕ} {n m : ℤ}

/-- A number that fits is printed as the digits that fill the width. -/
theorem printInt_eq (hn : 0 ≤ n) (hn' : n < 10 ^ width) :
    printInt width n = padded width n.natAbs ∧ n.natAbs < 10 ^ width := by
  have hcast : ((10 ^ width : ℕ) : ℤ) = 10 ^ width := by push_cast; rfl
  exact ⟨if_neg (by omega), by omega⟩

/-- A number that fits its width is printed at exactly that width. -/
theorem length_printInt (hwidth : 0 < width) (hn : 0 ≤ n) (hn' : n < 10 ^ width) :
    (printInt width n).length = width := by
  obtain ⟨hprint, hlt⟩ := printInt_eq hn hn'
  rw [hprint, length_padded hwidth hlt]

/-- Numbers that fill one width are printed in their order. -/
theorem printInt_lt_iff (hwidth : 0 < width) (hn : 0 ≤ n) (hn' : n < 10 ^ width) (hm : 0 ≤ m)
    (hm' : m < 10 ^ width) : printInt width n < printInt width m ↔ n < m := by
  have hlength := (length_printInt hwidth hn hn').trans (length_printInt hwidth hm hm').symm
  rw [(printInt_eq hn hn').1, (printInt_eq hm hm').1] at hlength ⊢
  rw [numeral_lt_iff hlength (digits_padded _ _) (digits_padded _ _), numeral_padded,
    numeral_padded]
  omega

/-- Numbers that fit the width are equal when their texts are. -/
theorem printInt_inj (hwidth : 0 < width) (hn : 0 ≤ n) (hn' : n < 10 ^ width) (hm : 0 ≤ m)
    (hm' : m < 10 ^ width) : printInt width n = printInt width m ↔ n = m := by
  refine ⟨fun heq => ?_, fun heq => by rw [heq]⟩
  have hscan := scanField_printInt hwidth hn hn' []
  rw [heq, scanField_printInt hwidth hm hm' []] at hscan
  exact (Prod.mk.inj (Option.some.inj hscan)).1.symm

end PrintInt

/-- The place of a value among those of its kind. -/
def FormatValue.rank : FormatValue → ℤ
  | .int n => n
  | .char b => b.toNat

/-- The value of a number that fits. -/
theorem Fits.exists_int {width : ℕ} {fmt : List FormatItem} {vs : List FormatValue}
    (h : Fits (.int width :: fmt) vs) :
    ∃ n vs', vs = .int n :: vs' ∧ (0 < width ∧ 0 ≤ n ∧ n < 10 ^ width) ∧ Fits fmt vs' := by
  cases vs with
  | nil => exact h.elim
  | cons v vs =>
      cases v with
      | int n => exact ⟨n, vs, rfl, h.1, h.2⟩
      | char b => exact h.elim

/-- Values that fit a format with a character in front start with a character. -/
theorem Fits.exists_char {fmt : List FormatItem} {vs : List FormatValue}
    (h : Fits (.char :: fmt) vs) : ∃ b vs', vs = .char b :: vs' ∧ Fits fmt vs' := by
  cases vs with
  | nil => exact h.elim
  | cons v vs =>
      cases v with
      | int n => exact h.elim
      | char b => exact ⟨b, vs, rfl, h⟩

/-- Only no values fit the empty format. -/
theorem Fits.eq_nil {vs : List FormatValue} (h : Fits [] vs) : vs = [] := by
  cases vs with
  | nil => rfl
  | cons v vs => exact h.elim

/-- **The texts of one format** are in the lexicographic order of their values. -/
theorem printf_lt_iff {fmt : List FormatItem} {vs ws : List FormatValue} (h : Fits fmt vs)
    (h' : Fits fmt ws) :
    printf fmt vs < printf fmt ws ↔ vs.map FormatValue.rank < ws.map FormatValue.rank := by
  induction fmt generalizing vs ws with
  | nil =>
      obtain rfl := h.eq_nil
      obtain rfl := h'.eq_nil
      exact iff_of_false (List.lt_irrefl _) (List.lt_irrefl _)
  | cons item fmt ih =>
      cases item with
      | lit b => rw [printf, printf, List.cons_lt_cons_self, ih h h']
      | int width =>
          obtain ⟨n, vs, rfl, ⟨hwidth, hn, hn'⟩, h⟩ := h.exists_int
          obtain ⟨m, ws, rfl, ⟨-, hm, hm'⟩, h'⟩ := h'.exists_int
          have hlength := (length_printInt hwidth hn hn').trans
            (length_printInt hwidth hm hm').symm
          rw [printf, printf, append_lt_append_iff hlength,
            printInt_lt_iff hwidth hn hn' hm hm', printInt_inj hwidth hn hn' hm hm', ih h h',
            List.map_cons, List.map_cons, List.cons_lt_cons_iff]
          rfl
      | char =>
          obtain ⟨b, vs, rfl, h⟩ := h.exists_char
          obtain ⟨c, ws, rfl, h'⟩ := h'.exists_char
          rw [printf, printf, List.cons_lt_cons_iff, ih h h', List.map_cons, List.map_cons,
            List.cons_lt_cons_iff]
          simp only [FormatValue.rank, Nat.cast_lt, Nat.cast_inj, UInt8.lt_iff_toNat_lt,
            UInt8.toNat_inj]

end CLang
