import Mathlib.Data.List.TakeWhile
import Mathlib.Tactic.Ring

/-!
# C Integers, Strings and Numerals

The parts of C that byte-level code relies on: the integer conversions of an LP64
platform, strings ended by a NUL byte, and the numeral scanners `strtol` and `strtoull`
of the standard library.

A byte array that holds a string is modelled by the bytes before its first NUL (`cstr`).
A scanner returns `none` where C leaves `*endptr` at the start of the string, and
otherwise the value together with the text that `*endptr` points to.

## Main results

* `toInt_eq_self` and `toInt_neg`: the conversion to `int` is the identity below `2 ^ 31`
  and negative from there to `2 ^ 32`.
* `strchr_append`: the first occurrence of a byte splits the string around it.
* `scanInt_digits`: a string of digits scans to the number it writes.
* `scanInt_text` and `exists_of_scanInt`: what scans is white space, a sign and digits.
* `IsNumeral.pow_length_le`: the length of a numeral without a leading zero.
* `isNumeral_decimal`: the decimal numeral of a number writes the number.
-/

namespace CLang

/-- A string of bytes. -/
abbrev Bytes := List UInt8

/-- The bytes of an ASCII string literal. -/
def ascii (s : String) : Bytes := s.toList.map fun c => UInt8.ofNat c.toNat

/-- A property of the bytes of a string is decided along the string, not over all the bytes. -/
instance (priority := high) decidableForallMem (p : UInt8 → Prop) [DecidablePred p] (s : Bytes) :
    Decidable (∀ b ∈ s, p b) :=
  List.decidableBAll p s

/-! ### Integer conversions -/

/-- The largest `int`. -/
def intMax : ℕ := 2 ^ 31 - 1

/-- The conversion of an integer value to a signed type of the given width: the value
modulo `2 ^ width` in two's complement. -/
def toSigned (width : ℕ) (n : ℤ) : ℤ :=
  let r := (n % 2 ^ width).toNat
  if r < 2 ^ (width - 1) then r else r - 2 ^ width

/-- The conversion of an integer value to `int`. -/
def toInt (n : ℤ) : ℤ := toSigned 32 n

/-- The conversion of an integer value to `long` or `ssize_t`. -/
def toLong (n : ℤ) : ℤ := toSigned 64 n

/-- The conversion of an integer value to `size_t`. -/
def toSize (n : ℤ) : ℕ := (n % 2 ^ 64).toNat

/-- The size of the largest block that can be asked for, `PTRDIFF_MAX`. -/
def ptrdiffMax : ℕ := 2 ^ 63 - 1

/-- A number below `2 ^ 31` is kept by the conversion to `int`. -/
theorem toInt_eq_self {n : ℕ} (h : n < 2 ^ 31) : toInt n = n := by
  rw [toInt, toSigned]
  split <;> omega

/-- From `2 ^ 31` to `2 ^ 32` the conversion to `int` wraps to a negative value. -/
theorem toInt_neg {n : ℕ} (h : 2 ^ 31 ≤ n) (h' : n < 2 ^ 32) : toInt n < 0 := by
  rw [toInt, toSigned]
  split <;> omega

/-- An `int` is below `2 ^ 31`. -/
theorem toInt_lt (n : ℤ) : toInt n < 2 ^ 31 := by
  rw [toInt, toSigned]
  split <;> omega

/-- The conversion of a natural number to `int` makes it no larger. -/
theorem toInt_le (n : ℕ) : toInt n ≤ n := by
  rw [toInt, toSigned]
  split <;> omega

/-- A non-negative converted index that differs from the original fell by at least
`2 ^ 32`. -/
theorem toInt_add_le {n : ℕ} (h : 0 ≤ toInt n) (hn : 2 ^ 31 ≤ n) :
    toInt n + 2 ^ 32 ≤ n := by
  rw [toInt, toSigned] at h ⊢
  split at h
  · rw [if_pos (by assumption)]
    omega
  · omega

/-- A conversion before an addition changes nothing. -/
theorem toInt_add_toInt (n m : ℤ) : toInt (toInt n + m) = toInt (n + m) := by
  simp only [toInt, toSigned]
  split <;> split <;> split <;> omega

/-- An `int` is kept by the conversion. -/
theorem toInt_toInt (n : ℤ) : toInt (toInt n) = toInt n := by
  simpa using toInt_add_toInt n 0

/-- A number below `2 ^ 63` is kept by the conversion to `long`. -/
theorem toLong_eq_self {n : ℕ} (h : n < 2 ^ 63) : toLong n = n := by
  rw [toLong, toSigned]
  split <;> omega

/-- The conversion of a positive `size_t` to `long` is not zero. -/
theorem toLong_ne_zero {n : ℕ} (hpos : 0 < n) (h : n < 2 ^ 64) : toLong n ≠ 0 := by
  rw [toLong, toSigned]
  split <;> omega

/-- From `2 ^ 63` on a `size_t` is negative as a `long`. -/
theorem toLong_neg {n : ℕ} (h : 2 ^ 63 ≤ n) (h' : n < 2 ^ 64) : toLong n < 0 := by
  rw [toLong, toSigned]
  split <;> omega

/-- An `int` converted to `size_t` is small, or within `2 ^ 31` of the largest value. -/
theorem toSize_toInt_cases (n : ℤ) :
    toSize (toInt n) < 2 ^ 31 ∨ 2 ^ 64 - 2 ^ 31 ≤ toSize (toInt n) ∧ toSize (toInt n) < 2 ^ 64 := by
  rw [toSize, toInt, toSigned]
  split <;> omega

/-- A `size_t` is kept by the conversion. -/
theorem toSize_eq_self {n : ℕ} (h : n < 2 ^ 64) : toSize n = n := by
  rw [toSize]
  omega

/-! ### Strings -/

/-- The string held by a byte array: its bytes before the first NUL. -/
def cstr (s : Bytes) : Bytes := s.takeWhile (· ≠ 0)

/-- Bytes without a NUL are the string. -/
theorem cstr_eq_self {s : Bytes} (h : ∀ b ∈ s, b ≠ 0) : cstr s = s := by
  rw [cstr, List.takeWhile_eq_self_iff]
  simpa using h

/-- The NUL that ends a string is not part of it. -/
theorem cstr_nul (s : Bytes) : cstr (s ++ [0]) = cstr s := by
  rw [cstr, cstr, List.takeWhile_append]
  split
  · rename_i hall
    rw [(List.takeWhile_prefix _).eq_of_length hall]
    simp
  · rfl

/-- A string has no NUL. -/
theorem cstr_noNul (s : Bytes) : ∀ b ∈ cstr s, b ≠ 0 := by
  intro b hb
  have hne := List.mem_takeWhile_imp hb
  exact of_decide_eq_true hne

/-- `strchr`, as the text before and after the first occurrence of the byte. -/
def strchr (ch : UInt8) : Bytes → Option (Bytes × Bytes)
  | [] => none
  | b :: s => if b = ch then some ([], s) else (strchr ch s).map fun p => (b :: p.1, p.2)

/-- The first occurrence of a byte splits the string around it. -/
theorem strchr_append {ch : UInt8} {x : Bytes} (hx : ch ∉ x) (y : Bytes) :
    strchr ch (x ++ ch :: y) = some (x, y) := by
  induction x with
  | nil => simp [strchr]
  | cons b x ih =>
      have hb : b ≠ ch := fun h => hx (by simp [h])
      rw [List.cons_append, strchr, if_neg hb, ih fun h => hx (by simp [h])]
      rfl

/-- A byte that is not found is not in the string. -/
theorem strchr_eq_none_iff {ch : UInt8} {s : Bytes} : strchr ch s = none ↔ ch ∉ s := by
  induction s with
  | nil => simp [strchr]
  | cons b s ih =>
      rw [strchr]
      split
      · rename_i hb
        simp [hb]
      · rename_i hb
        rw [Option.map_eq_none_iff, ih, List.mem_cons, not_or]
        exact ⟨fun h => ⟨fun heq => hb heq.symm, h⟩, fun h => h.2⟩

/-- What `strchr` finds is the first occurrence of the byte. -/
theorem strchr_eq_some_iff {ch : UInt8} {s x y : Bytes} :
    strchr ch s = some (x, y) ↔ s = x ++ ch :: y ∧ ch ∉ x := by
  constructor
  · intro h
    induction s generalizing x y with
    | nil => cases h
    | cons b s ih =>
        rw [strchr] at h
        split at h
        · rename_i hb
          obtain ⟨rfl, rfl⟩ := Prod.mk.inj (Option.some.inj h)
          exact ⟨by rw [hb, List.nil_append], List.not_mem_nil⟩
        · rename_i hb
          obtain ⟨⟨x', y'⟩, hs, heq⟩ := Option.map_eq_some_iff.mp h
          obtain ⟨rfl, rfl⟩ := Prod.mk.inj heq
          obtain ⟨rfl, hx⟩ := ih hs
          refine ⟨rfl, fun hmem => ?_⟩
          rcases List.mem_cons.mp hmem with rfl | hmem
          · exact hb rfl
          · exact hx hmem
  · rintro ⟨rfl, hx⟩
    exact strchr_append hx y

/-- A `char` array of the given size with the string it holds. -/
structure CString (size : ℕ) where
  bytes : Bytes
  fits : bytes.length < size
  noNul : ∀ b ∈ bytes, b ≠ 0
  deriving DecidableEq, Repr

/-- The copy of a string into an array, `none` when it does not fit with its NUL. -/
def CString.copy (size : ℕ) (s : Bytes) : Option (CString size) :=
  if h : s.length < size ∧ s.all (· ≠ 0) = true then
    some ⟨s, h.1, fun b hb => of_decide_eq_true (List.all_eq_true.mp h.2 b hb)⟩
  else none

/-- A copy that fits has the bytes of the original. -/
theorem CString.bytes_of_copy {size : ℕ} {s : Bytes} {t : CString size}
    (h : CString.copy size s = some t) : t.bytes = s := by
  rw [CString.copy] at h
  split at h
  · rw [← Option.some.inj h]
  · cases h

/-- The string of an array is copied into an array of that size. -/
theorem CString.copy_bytes {size : ℕ} (t : CString size) :
    CString.copy size t.bytes = some t := by
  have hall : t.bytes.all (· ≠ 0) = true :=
    List.all_eq_true.mpr fun b hb => decide_eq_true (t.noNul b hb)
  rw [CString.copy, dif_pos ⟨t.fits, hall⟩]

/-- `snprintf` into an array of the given size: the bytes it leaves there, of which the last
is a NUL when the text does not fit. -/
def snprintf (size : ℕ) (text : Bytes) : Bytes :=
  if text.length < size then text else text.take (size - 1) ++ [0]

/-- A text that is no longer than the array leaves as many bytes as it has. -/
theorem length_snprintf {size : ℕ} {text : Bytes} (hpos : 0 < size) (h : text.length ≤ size) :
    (snprintf size text).length = text.length := by
  rw [snprintf]
  split
  · rfl
  · rw [List.length_append, List.length_take, List.length_singleton]
    omega

/-- The string that `snprintf` leaves is the text, as far as the array holds it. -/
theorem cstr_snprintf {size : ℕ} {text : Bytes} (hpos : 0 < size) (h : ∀ b ∈ text, b ≠ 0) :
    cstr (snprintf size text) = text.take (size - 1) := by
  rw [snprintf]
  split
  · rw [cstr_eq_self h, List.take_of_length_le (by omega)]
  · have hcut : ∀ b ∈ text.take (size - 1), b ≠ 0 := fun b hb => h b (List.mem_of_mem_take hb)
    rw [cstr, List.takeWhile_append_of_pos fun b hb => decide_eq_true (hcut b hb),
      List.takeWhile_cons_of_neg (by decide), List.append_nil]

/-- What `snprintf` returns: the length of the text, or a negative value when that is no
`int`. -/
def snprintfLen (text : Bytes) : ℤ := if text.length ≤ intMax then text.length else -1

/-- `tolower` in the "C" locale. -/
def tolower (b : UInt8) : UInt8 := if 65 ≤ b ∧ b ≤ 90 then b + 32 else b

/-- White space of the "C" locale. -/
def isspace (b : UInt8) : Bool := b = 32 || (9 ≤ b && b ≤ 13)

/-- Control characters of the "C" locale. -/
def iscntrl (b : UInt8) : Bool := b < 32 || b = 127

/-! ### Numerals -/

/-- The value of an alphanumeric byte as a digit of a base up to 36. -/
def digitVal (b : UInt8) : Option ℕ :=
  if 48 ≤ b ∧ b ≤ 57 then some (b.toNat - 48)
  else if 97 ≤ b ∧ b ≤ 122 then some (b.toNat - 87)
  else if 65 ≤ b ∧ b ≤ 90 then some (b.toNat - 55)
  else none

/-- The byte is a digit of the base. -/
def isDigit (base : ℕ) (b : UInt8) : Bool := (digitVal b).any (· < base)

/-- The number a string of digits writes in the base. -/
def numeral (base : ℕ) (ds : Bytes) : ℕ :=
  ds.foldl (fun n b => n * base + (digitVal b).getD 0) 0

/-- A scanned numeral: its sign, its magnitude and the text after it. -/
structure Scanned where
  negative : Bool
  magnitude : ℕ
  rest : Bytes
  deriving DecidableEq, Repr

/-- The number that a numeral denotes. -/
def Scanned.value (n : Scanned) : ℤ := if n.negative then -n.magnitude else n.magnitude

/-- An optional sign and the text after it. -/
def scanSign : Bytes → Bool × Bytes
  | [] => (false, [])
  | b :: s => if b = 45 then (true, s) else if b = 43 then (false, s) else (false, b :: s)

/-- The prefix `0x` of a hexadecimal numeral, which counts only before a digit. -/
def hexPrefix : Bytes → Bool
  | z :: x :: d :: _ => z = 48 && (x = 120 || x = 88) && isDigit 16 d
  | _ => false

/-- The numeral at the start of a string as `strtol` and its siblings read it: white
space, a sign, in base 16 an optional `0x`, then the longest run of digits. -/
def scanInt (base : ℕ) (s : Bytes) : Option Scanned :=
  let signed := scanSign (s.dropWhile isspace)
  let body := if base = 16 ∧ hexPrefix signed.2 then signed.2.drop 2 else signed.2
  let ds := body.takeWhile (isDigit base)
  if ds = [] then none
  else some ⟨signed.1, numeral base ds, body.drop ds.length⟩

/-- `strtoull`: the value, negated modulo `2 ^ 64` after a minus sign and saturated on
overflow, and the text after it. -/
def strtoull (base : ℕ) (s : Bytes) : Option (ℕ × Bytes) :=
  (scanInt base s).map fun n =>
    (if 2 ^ 64 ≤ n.magnitude then 2 ^ 64 - 1
      else if n.negative then (2 ^ 64 - n.magnitude) % 2 ^ 64 else n.magnitude,
     n.rest)

/-- `strtol`: the value, clamped to `long` with the flag for `ERANGE`, and the text after
it. -/
def strtol (base : ℕ) (s : Bytes) : Option (ℤ × Bool × Bytes) :=
  (scanInt base s).map fun n =>
    if n.negative then
      if 2 ^ 63 < n.magnitude then (-2 ^ 63, true, n.rest) else (-n.magnitude, false, n.rest)
    else if 2 ^ 63 ≤ n.magnitude then (2 ^ 63 - 1, true, n.rest)
    else (n.magnitude, false, n.rest)

/-- The digits of a base up to 16 are `0`-`9`, `A`-`F` and `a`-`f`. -/
theorem isDigit_range {base : ℕ} (hbase : base ≤ 16) {b : UInt8} (h : isDigit base b) :
    (48 ≤ b.toNat ∧ b.toNat ≤ 57) ∨ (65 ≤ b.toNat ∧ b.toNat ≤ 70) ∨
      (97 ≤ b.toNat ∧ b.toNat ≤ 102) := by
  simp only [isDigit, Option.any_eq_true, decide_eq_true_eq] at h
  obtain ⟨d, hd, hlt⟩ := h
  simp only [digitVal, UInt8.le_iff_toNat_le, UInt8.reduceToNat] at hd
  split at hd
  · omega
  · split at hd
    · simp only [Option.some.injEq] at hd
      omega
    · split at hd
      · simp only [Option.some.injEq] at hd
        omega
      · exact absurd hd (by simp)

/-- A digit is neither white space, nor a sign, nor the `x` of a prefix. -/
theorem isDigit_spec {base : ℕ} (hbase : base ≤ 16) {b : UInt8} (h : isDigit base b) :
    isspace b = false ∧ b ≠ 45 ∧ b ≠ 43 ∧ b ≠ 120 ∧ b ≠ 88 := by
  have hr := isDigit_range hbase h
  simp only [isspace, ne_eq, ← UInt8.toNat_inj, UInt8.le_iff_toNat_le, UInt8.reduceToNat,
    Bool.or_eq_false_iff, Bool.and_eq_false_iff, decide_eq_false_iff_not]
  omega

/-- White space and a sign are not skipped before a digit. -/
theorem scanSign_of_digit {base : ℕ} (hbase : base ≤ 16) {b : UInt8} (h : isDigit base b)
    (s : Bytes) : scanSign ((b :: s).dropWhile isspace) = (false, b :: s) := by
  obtain ⟨hsp, hm, hp, -, -⟩ := isDigit_spec hbase h
  rw [List.dropWhile_cons_of_neg (by simp [hsp]), scanSign, if_neg hm, if_neg hp]

/-- A string of digits has no `0x` prefix. -/
theorem hexPrefix_digits {base : ℕ} (hbase : base ≤ 16) {ds : Bytes}
    (hds : ∀ b ∈ ds, isDigit base b) : hexPrefix ds = false := by
  match ds, hds with
  | [], _ | [_], _ | [_, _], _ => rfl
  | z :: x :: d :: r, hds =>
      obtain ⟨-, -, -, h1, h2⟩ := isDigit_spec hbase (hds x (by simp))
      simp [hexPrefix, h1, h2]

/-- **A string of digits scans to the number it writes.** -/
theorem scanInt_digits {base : ℕ} (hbase : base ≤ 16) {ds : Bytes} (hne : ds ≠ [])
    (hds : ∀ b ∈ ds, isDigit base b) :
    scanInt base ds = some ⟨false, numeral base ds, []⟩ := by
  obtain ⟨b, s, rfl⟩ := List.exists_cons_of_ne_nil hne
  have htake : (b :: s).takeWhile (isDigit base) = b :: s :=
    List.takeWhile_eq_self_iff.mpr hds
  simp [scanInt, scanSign_of_digit hbase (hds b (by simp)), hexPrefix_digits hbase hds,
    htake]

/-! ### The texts that scan -/

/-- A sign, or none. -/
def signText : Option Bool → Bytes
  | none => []
  | some negative => if negative then [45] else [43]

/-- A sign is read, and nothing more. -/
theorem scanSign_signText (sign : Option Bool) {s : Bytes}
    (h : ∀ b ∈ s.head?, b ≠ 45 ∧ b ≠ 43) :
    scanSign (signText sign ++ s) = (sign.getD false, s) := by
  cases sign with
  | none =>
      cases s with
      | nil => rfl
      | cons b s =>
          obtain ⟨hminus, hplus⟩ := h b rfl
          simp [signText, scanSign, hminus, hplus]
  | some negative => cases negative <;> rfl

/-- Neither a sign nor a digit is white space. -/
theorem dropWhile_isspace_sign {spaces : Bytes} (hspaces : ∀ b ∈ spaces, isspace b = true)
    (sign : Option Bool) {s : Bytes} (h : ∀ b ∈ s.head?, isspace b = false) :
    (spaces ++ (signText sign ++ s)).dropWhile isspace = signText sign ++ s := by
  rw [List.dropWhile_append_of_pos hspaces]
  cases sign with
  | none =>
      cases s with
      | nil => rfl
      | cons b s => exact List.dropWhile_cons_of_neg (by simp [h b rfl])
  | some negative => cases negative <;> rfl

/-- **White space, a sign and digits** scan to the number that the digits write. -/
theorem scanInt_text {spaces ds rest : Bytes} (hspaces : ∀ b ∈ spaces, isspace b = true)
    (sign : Option Bool) (hne : ds ≠ []) (hds : ∀ b ∈ ds, isDigit 10 b = true)
    (hrest : ∀ b ∈ rest.head?, isDigit 10 b = false) :
    scanInt 10 (spaces ++ (signText sign ++ (ds ++ rest))) =
      some ⟨sign.getD false, numeral 10 ds, rest⟩ := by
  obtain ⟨d, ds', rfl⟩ := List.exists_cons_of_ne_nil hne
  obtain ⟨hspace, hminus, hplus, -, -⟩ := isDigit_spec (by omega) (hds d List.mem_cons_self)
  have htake : (d :: ds' ++ rest).takeWhile (isDigit 10) = d :: ds' := by
    rw [List.takeWhile_append_of_pos hds]
    cases rest with
    | nil => rw [List.takeWhile_nil, List.append_nil]
    | cons b rest =>
        rw [List.takeWhile_cons_of_neg (by simp [hrest b rfl]), List.append_nil]
  have hnosign : ∀ b ∈ (d :: ds' ++ rest).head?, b ≠ 45 ∧ b ≠ 43 := by
    simpa using ⟨hminus, hplus⟩
  have hsign := scanSign_signText sign hnosign
  rw [scanInt, dropWhile_isspace_sign hspaces sign (by simpa using hspace), hsign]
  simp only [Nat.reduceEqDiff, false_and, if_false, htake, if_neg hne, List.drop_left' rfl]

/-- White space and a sign without digits do not scan. -/
theorem scanInt_of_no_digits {spaces : Bytes} (hspaces : ∀ b ∈ spaces, isspace b = true)
    (sign : Option Bool) : scanInt 10 (spaces ++ signText sign) = none := by
  have hskip := dropWhile_isspace_sign hspaces sign
    (show ∀ b ∈ ([] : Bytes).head?, isspace b = false by simp)
  have hsign := scanSign_signText sign (show ∀ b ∈ ([] : Bytes).head?, b ≠ 45 ∧ b ≠ 43 by simp)
  rw [List.append_nil] at hskip hsign
  rw [scanInt, hskip, hsign]
  rfl

/-- What comes after a run of bytes begins where the run ends. -/
theorem drop_length_takeWhile (p : UInt8 → Bool) (s : Bytes) :
    s.drop (s.takeWhile p).length = s.dropWhile p := by
  induction s with
  | nil => rfl
  | cons b s ih =>
      cases hb : p b with
      | false => simp [hb]
      | true => simp [hb, ih]

/-- What scans is white space, a sign and digits. -/
theorem exists_of_scanInt {s : Bytes} {n : Scanned} (h : scanInt 10 s = some n) :
    ∃ spaces sign ds, s = spaces ++ (signText sign ++ (ds ++ n.rest)) ∧
      (∀ b ∈ spaces, isspace b = true) ∧ ds ≠ [] ∧ (∀ b ∈ ds, isDigit 10 b = true) ∧
      n.negative = sign.getD false ∧ n.magnitude = numeral 10 ds := by
  obtain ⟨sign, hsign⟩ : ∃ sign, s.dropWhile isspace =
      signText sign ++ (scanSign (s.dropWhile isspace)).2 ∧
      (scanSign (s.dropWhile isspace)).1 = sign.getD false := by
    cases s.dropWhile isspace with
    | nil => exact ⟨none, rfl, rfl⟩
    | cons b s =>
        rw [scanSign]
        split
        · rename_i hb
          exact ⟨some true, by rw [hb]; rfl, rfl⟩
        · split
          · rename_i hb
            exact ⟨some false, by rw [hb]; rfl, rfl⟩
          · exact ⟨none, rfl, rfl⟩
  rw [scanInt] at h
  simp only [Nat.reduceEqDiff, false_and, if_false] at h
  split at h
  · cases h
  · rename_i hne
    obtain rfl := Option.some.inj h
    refine ⟨s.takeWhile isspace, sign, _, ?_, fun b hb => List.mem_takeWhile_imp hb, hne,
      fun b hb => List.mem_takeWhile_imp hb, hsign.2, rfl⟩
    have hdigits : (scanSign (s.dropWhile isspace)).2.takeWhile (isDigit 10) ++
        (scanSign (s.dropWhile isspace)).2.dropWhile (isDigit 10) =
          (scanSign (s.dropWhile isspace)).2 := List.takeWhile_append_dropWhile
    have hdrop : (scanSign (s.dropWhile isspace)).2.drop
        ((scanSign (s.dropWhile isspace)).2.takeWhile (isDigit 10)).length =
          (scanSign (s.dropWhile isspace)).2.dropWhile (isDigit 10) :=
      drop_length_takeWhile _ _
    rw [hdrop, hdigits, ← hsign.1, List.takeWhile_append_dropWhile]

/-! ### Strings that write a number -/

/-- The string writes the number `n` in the base, with digits only. -/
structure IsNumeral (base n : ℕ) (ds : Bytes) : Prop where
  nonempty : ds ≠ []
  digits : ∀ b ∈ ds, isDigit base b
  value : numeral base ds = n

/-- The value of a numeral in terms of the value of its later digits. -/
theorem numeral_cons (base : ℕ) (b : UInt8) (ds : Bytes) :
    numeral base (b :: ds) = (digitVal b).getD 0 * base ^ ds.length + numeral base ds := by
  have hfold : ∀ n : ℕ, ds.foldl (fun n b => n * base + (digitVal b).getD 0) n =
      n * base ^ ds.length + numeral base ds := by
    unfold numeral
    induction ds with
    | nil => simp
    | cons c ds ih =>
        intro n
        rw [List.foldl_cons, List.foldl_cons, ih, ih (0 * base + (digitVal c).getD 0),
          List.length_cons, pow_succ]
        ring
  rw [numeral, List.foldl_cons, hfold]
  simp

/-- The value of digits in two parts. -/
theorem numeral_append (base : ℕ) (ds later : Bytes) :
    numeral base (ds ++ later) = numeral base ds * base ^ later.length + numeral base later := by
  induction ds with
  | nil => simp [numeral]
  | cons b ds ih =>
      rw [List.cons_append, numeral_cons, numeral_cons, ih, List.length_append, pow_add]
      ring

/-- A numeral is less than the next power with more digits. -/
theorem numeral_lt {base : ℕ} {ds : Bytes} (h : ∀ b ∈ ds, isDigit base b = true) :
    numeral base ds < base ^ ds.length := by
  induction ds with
  | nil => simp [numeral]
  | cons b ds ih =>
      have hlater := ih fun c hc => h c (List.mem_cons_of_mem b hc)
      have hdigit := h b List.mem_cons_self
      simp only [isDigit, Option.any_eq_true, decide_eq_true_eq] at hdigit
      obtain ⟨d, hd, hlt⟩ := hdigit
      rw [numeral_cons, hd, Option.getD_some, List.length_cons]
      calc d * base ^ ds.length + numeral base ds
          < d * base ^ ds.length + base ^ ds.length := Nat.add_lt_add_left hlater _
        _ = (d + 1) * base ^ ds.length := (Nat.succ_mul _ _).symm
        _ ≤ base * base ^ ds.length := Nat.mul_le_mul_right _ hlt
        _ = base ^ (ds.length + 1) := (pow_succ' _ _).symm

/-- A digit other than `0` has a positive value. -/
theorem digitVal_pos {base : ℕ} {b : UInt8} (h : isDigit base b) (h0 : b ≠ 48) :
    1 ≤ (digitVal b).getD 0 := by
  simp only [isDigit, Option.any_eq_true, decide_eq_true_eq] at h
  obtain ⟨d, hd, -⟩ := h
  have hne : b.toNat ≠ 48 := fun hb => h0 (UInt8.toNat_inj.mp hb)
  simp only [digitVal, UInt8.le_iff_toNat_le, UInt8.reduceToNat] at hd ⊢
  split at hd
  · rw [if_pos (by assumption), Option.getD_some]
    omega
  · rw [if_neg (by assumption)]
    split at hd
    · rw [if_pos (by assumption), Option.getD_some]
      omega
    · rw [if_neg (by assumption)]
      split at hd
      · rw [if_pos (by assumption), Option.getD_some]
        omega
      · exact absurd hd (by simp)

/-- A numeral without a leading zero is no longer than its value allows. -/
theorem IsNumeral.pow_length_le {base n : ℕ} {b : UInt8} {ds : Bytes}
    (h : IsNumeral base n (b :: ds)) (h0 : b ≠ 48) : base ^ ds.length ≤ n := by
  have hpos := digitVal_pos (h.digits b (by simp)) h0
  calc base ^ ds.length = 1 * base ^ ds.length := (one_mul _).symm
    _ ≤ (digitVal b).getD 0 * base ^ ds.length := Nat.mul_le_mul_right _ hpos
    _ ≤ numeral base (b :: ds) := by
        rw [numeral_cons]
        exact Nat.le_add_right _ _
    _ = n := h.value

/-- The decimal digits of a number, as `%zu` prints them. Each digit uses up one unit of
the first argument. -/
def decimalLoop : ℕ → ℕ → Bytes
  | 0, _ => []
  | fuel + 1, n => (if n < 10 then [] else decimalLoop fuel (n / 10)) ++ [UInt8.ofNat (48 + n % 10)]

/-- The decimal numeral of a number. -/
def decimal (n : ℕ) : Bytes := decimalLoop (n + 1) n

/-- The value of a decimal digit. -/
theorem digitVal_ofNat {d : ℕ} (h : d < 10) : digitVal (UInt8.ofNat (48 + d)) = some d := by
  have hnat : (UInt8.ofNat (48 + d)).toNat = 48 + d :=
    UInt8.toNat_ofNat_of_lt' (by rw [UInt8.size]; omega)
  rw [digitVal, if_pos]
  · rw [hnat, Nat.add_sub_cancel_left]
  · simp only [UInt8.le_iff_toNat_le, hnat, UInt8.reduceToNat]
    omega

/-- A digit at the end of a numeral. -/
theorem numeral_append_digit {ds : Bytes} {d : ℕ} (h : d < 10) :
    numeral 10 (ds ++ [UInt8.ofNat (48 + d)]) = numeral 10 ds * 10 + d := by
  simp only [numeral, List.foldl_append, List.foldl_cons, List.foldl_nil, digitVal_ofNat h,
    Option.getD_some]

/-- **The decimal numeral of a number** writes the number. -/
theorem isNumeral_decimalLoop {fuel n : ℕ} (h : n < fuel) :
    IsNumeral 10 n (decimalLoop fuel n) := by
  induction fuel generalizing n with
  | zero => omega
  | succ fuel ih =>
      have hdigit : isDigit 10 (UInt8.ofNat (48 + n % 10)) = true := by
        rw [isDigit, digitVal_ofNat (by omega)]
        simp only [Option.any_some, decide_eq_true_eq]
        omega
      rw [decimalLoop]
      split
      · refine ⟨by simp, by simpa using hdigit, ?_⟩
        rw [numeral_append_digit (by omega)]
        simp only [numeral, List.foldl_nil]
        omega
      · have hrec := ih (n := n / 10) (by omega)
        refine ⟨by simp, ?_, ?_⟩
        · intro b hb
          rcases List.mem_append.mp hb with hb | hb
          · exact hrec.digits b hb
          · rw [List.mem_singleton.mp hb]
            exact hdigit
        · rw [numeral_append_digit (by omega), hrec.value]
          omega

/-- The decimal numeral of a number writes the number. -/
theorem isNumeral_decimal (n : ℕ) : IsNumeral 10 n (decimal n) :=
  isNumeral_decimalLoop (Nat.lt_succ_self n)

/-- A number below a power of ten has as many digits at most. -/
theorem length_decimalLoop_le {fuel n k : ℕ} (h : n < 10 ^ (k + 1)) :
    (decimalLoop fuel n).length ≤ k + 1 := by
  induction fuel generalizing n k with
  | zero => simp [decimalLoop]
  | succ fuel ih =>
      rw [decimalLoop]
      split
      · simp
      · cases k with
        | zero => omega
        | succ k =>
            have := ih (n := n / 10) (k := k) (by rw [pow_succ] at h; omega)
            rw [List.length_append, List.length_singleton]
            omega

/-- A number below `10 ^ (k + 1)` has at most `k + 1` digits. -/
theorem length_decimal_le {n k : ℕ} (h : n < 10 ^ (k + 1)) : (decimal n).length ≤ k + 1 :=
  length_decimalLoop_le h

end CLang
