import MaestroCore.Lib.CLang
import MaestroCore.Lib.Memory

/-!
# C Strings in Memory

A string in memory is the cells with its bytes and the cell with the NUL after them. The
functions of the standard library read it up to there, and fail where a cell is outside of the
block or indeterminate.

## Main results

* `loadString_text`: what is read of a string are its bytes.
* `store_nul`: a NUL within a string cuts it.
* `copyString_eq`: what `strncpy` and a NUL leave in an array.
-/

open CLang Memory

namespace StringArray

/-- A string with its NUL. -/
def text (s : Bytes) : Block UInt8 := (s ++ [0]).map some

/-- The string at the start of a block, up to its NUL. -/
def loadString : Block UInt8 → Option Bytes
  | [] => none
  | none :: _ => none
  | some b :: block => if b = 0 then some [] else (loadString block).map (b :: ·)

/-- `strlen` of the string at the index `s`. -/
def strlen (block : Block UInt8) (s : ℕ) : Option ℕ := (loadString (block.drop s)).map List.length

/-- The index where `strchr` finds a byte in the string at the index `s`. -/
def strchrIndex (block : Block UInt8) (s : ℕ) (ch : UInt8) : Option (Option ℕ) :=
  (loadString (block.drop s)).map fun str => (strchr ch str).map fun xy => s + xy.1.length

/-- The `n` bytes that `strncpy` writes. -/
def strncpyBytes (n : ℕ) (s : Bytes) : Bytes := s.take n ++ List.replicate (n - s.length) 0

/-- `strncpy` of a string into an array of the given size, and a NUL into its last byte. -/
def copyString (block : Block UInt8) (size : ℕ) (s : Bytes) : Option (Block UInt8) := do
  let block ← store block 0 (strncpyBytes (size - 1) s)
  store block (size - 1) [0]

/-! ### Reading -/

/-- A string takes one cell more than it has bytes. -/
@[simp] theorem length_text (s : Bytes) : (text s).length = s.length + 1 := by
  rw [text, List.length_map, List.length_append, List.length_singleton]

/-- The empty string is its NUL. -/
theorem text_nil : text [] = [some 0] := rfl

/-- Two strings in a row share the NUL of the second. -/
theorem text_append (s t : Bytes) : text (s ++ t) = s.map some ++ text t := by
  rw [text, text, List.append_assoc, List.map_append]

/-- The first cell of a string holds its first byte. -/
theorem text_cons (b : UInt8) (s : Bytes) : text (b :: s) = some b :: text s := rfl

/-- **What is read of a string are its bytes**, whatever is behind its NUL. -/
theorem loadString_text {s : Bytes} (h : 0 ∉ s) (later : Block UInt8) :
    loadString (text s ++ later) = some s := by
  induction s with
  | nil => rfl
  | cons b s ih =>
      rw [List.mem_cons, not_or] at h
      rw [text_cons, List.cons_append, loadString, if_neg (Ne.symm h.1), ih h.2, Option.map_some]

/-- `strlen` counts the bytes up to the NUL, wherever in the array the string starts. -/
theorem strlen_append {s : Bytes} (h : 0 ∉ s) (before later : Block UInt8) :
    strlen (before ++ (text s ++ later)) before.length = some s.length := by
  rw [strlen, List.drop_left' rfl, loadString_text h, Option.map_some]

/-- `strchr` on an array that holds a string is `strchr` on the string. -/
theorem strchrIndex_text {s : Bytes} (h : 0 ∉ s) (ch : UInt8) (later : Block UInt8) :
    strchrIndex (text s ++ later) 0 ch = some ((strchr ch s).map fun xy => xy.1.length) := by
  rw [strchrIndex, List.drop_zero, loadString_text h, Option.map_some]
  simp only [Nat.zero_add]

/-- A byte within a string. -/
theorem load_within (before : Block UInt8) (s : Bytes) (b : UInt8) (later : Block UInt8) :
    load (before ++ (s.map some ++ some b :: later)) (before.length + s.length) = some b := by
  have hload := load_append (before ++ s.map some) b later
  rwa [List.length_append, List.length_map, List.append_assoc] at hload

/-- The first byte of a string, or its NUL. -/
theorem load_text_zero (s : Bytes) (later : Block UInt8) :
    load (text s ++ later) 0 = some (s.headD 0) := by
  cases s <;> rfl

/-- Bytes with a NUL after them hold the string up to their first NUL. -/
theorem exists_text_cstr (s : Bytes) : ∃ later, text s = text (cstr s) ++ later := by
  have hsplit : cstr s ++ s.dropWhile (· ≠ 0) = s := List.takeWhile_append_dropWhile
  cases hrest : s.dropWhile (· ≠ 0) with
  | nil => exact ⟨[], by rw [hrest, List.append_nil] at hsplit; rw [hsplit, List.append_nil]⟩
  | cons b rest =>
      obtain rfl : b = 0 := by
        have hfirst := List.head?_dropWhile_not (fun b : UInt8 => decide (b ≠ 0)) s
        rw [hrest] at hfirst
        simpa using hfirst
      refine ⟨text rest, ?_⟩
      rw [hrest] at hsplit
      conv_lhs => rw [← hsplit]
      simp [text]

/-! ### Writing -/

/-- Bytes with a NUL, at the start of a block. -/
theorem exists_store_text {block : Block UInt8} {s : Bytes} (h : s.length < block.length) :
    ∃ later, store block 0 (s ++ [0]) = some (text (cstr s) ++ later) := by
  obtain ⟨later, hlater⟩ := exists_text_cstr s
  have hfits : 0 + (s ++ [0]).length ≤ block.length := by
    rw [List.length_append, List.length_singleton]
    omega
  refine ⟨later ++ block.drop (0 + (s ++ [0]).length), ?_⟩
  rw [store, if_pos hfits, List.take_zero, List.nil_append, ← text, hlater, List.append_assoc]

/-- A NUL within a string cuts it. -/
theorem store_nul (before : Block UInt8) (s : Bytes) (b : UInt8) (later : Block UInt8) :
    store (before ++ (s.map some ++ some b :: later)) (before.length + s.length) [0] =
      some (before ++ (text s ++ later)) := by
  have hwrite := store_append (before ++ s.map some) [some b] later [0] rfl
  rw [List.length_append, List.length_map, List.append_assoc] at hwrite
  rw [text, List.map_append, List.append_assoc]
  simpa using hwrite

/-- An array with a string and NULs in its first `size` bytes. -/
def overwritten (block : Block UInt8) (size : ℕ) (s : Bytes) : Block UInt8 :=
  (s ++ List.replicate (size - s.length) 0).map some ++ block.drop size

/-- **What `strncpy` and a NUL leave in an array**: the string, as far as it fits. -/
theorem copyString_eq {block : Block UInt8} {size : ℕ} (hpos : 0 < size) (h : size ≤ block.length)
    (s : Bytes) :
    copyString block size s = some (overwritten block size (s.take (size - 1))) := by
  have hlength : (strncpyBytes (size - 1) s).length = (block.take (size - 1)).length := by
    simp only [strncpyBytes, List.length_append, List.length_take, List.length_replicate]
    omega
  have hcell : block.drop (size - 1) = block[size - 1] :: block.drop size := by
    rw [List.drop_eq_getElem_cons (by omega), Nat.sub_add_cancel hpos]
  have hbytes := store_append [] (block.take (size - 1)) (block.drop (size - 1)) _ hlength
  rw [List.nil_append, List.take_append_drop, List.nil_append, List.length_nil] at hbytes
  have hnul := store_append ((strncpyBytes (size - 1) s).map some) [block[size - 1]]
    (block.drop size) [0] rfl
  rw [List.length_map, hlength, List.length_take, Nat.min_eq_left (by omega)] at hnul
  have hpad : size - (s.take (size - 1)).length = size - 1 - s.length + 1 := by
    rw [List.length_take]
    omega
  rw [copyString, hbytes, Option.bind_eq_bind, Option.bind_some, hcell, ← List.singleton_append,
    hnul, overwritten, hpad, List.replicate_succ', strncpyBytes]
  simp

/-- The string in such an array. -/
theorem overwritten_eq (block : Block UInt8) {size : ℕ} {s : Bytes} (h : s.length < size) :
    ∃ later, overwritten block size s = text s ++ later := by
  obtain ⟨k, hk⟩ : ∃ k, size - s.length = k + 1 := ⟨size - s.length - 1, by omega⟩
  refine ⟨(List.replicate k 0).map some ++ block.drop size, ?_⟩
  rw [overwritten, hk, List.replicate_succ, text, List.map_append, List.map_append]
  simp

end StringArray
