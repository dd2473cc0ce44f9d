import Mathlib.Data.List.DropRight
import MaestroCore.Lib.CLang
import MaestroCore.Lib.Lines

/-!
# The Config Readers

`config_get_value` and `config_values_get` from `config_handler.c`. Both read a file with
`fgets` into an array of 512 bytes and take what they get for a line: it is trimmed, skipped
when it is empty or a comment, and cut at its first `=` into a key and a value.

The two differ in what they do with a pair. The first one takes a value for every key that has
none yet, cut to the size of its buffer; the second one takes it in any case, and counts. The
field `taken` of `ConfigRead` is a record of this, which the code does not have: the number of
the piece and the index of the key.

## Main results

* `configPieces_eq`: the pieces that are read are the pieces of the physical lines.
* `isSome_configPair`: the pieces that are taken for a line with a key and a value.
-/

open CLang Lines

namespace MaestroCore

/-- `trim`. -/
def trim (s : Bytes) : Bytes := (s.dropWhile isspace).rdropWhile isspace

/-- The loop of `strip_inline_comment`, where the flag says that a `#` starts a comment. -/
def stripLoop : Bool → Bytes → Bytes
  | _, [] => []
  | starts, b :: s => if b = 35 ∧ starts = true then [] else b :: stripLoop (isspace b) s

/-- `strip_inline_comment`. -/
def stripInlineComment (s : Bytes) : Bytes := stripLoop true s

/-- The key and the value in what `fgets` has read, when it is neither empty nor a comment and
has a `=`. -/
def configPair (line : Bytes) : Option (Bytes × Bytes) :=
  let line := trim (cstr line)
  if line.head? = some 35 ∨ line = [] then none
  else
    (strchr 61 line).map fun kv => (trim kv.1, trim (stripInlineComment (trim kv.2)))

/-- What `fgets` reads from the file into an array of 512 bytes, call by call. -/
def configPieces (file : Bytes) : List Bytes := readPieces 10 511 file

/-- The values read so far and their number, with the record of where they were taken from. -/
structure ConfigRead where
  values : List (Option Bytes)
  foundCount : ℕ := 0
  taken : List (ℕ × ℕ) := []
  deriving DecidableEq, Repr

/-- Before anything is read. -/
def ConfigRead.start (keys : List (Option Bytes)) : ConfigRead where
  values := List.replicate keys.length none

/-- A value is taken from the piece with the number `j` for the keys with the indices. -/
def ConfigRead.take (r : ConfigRead) (j : ℕ) (indices : List ℕ) (value : Bytes) : ConfigRead where
  values := indices.foldl (fun values i => values.set i (some value)) r.values
  foundCount := r.foundCount + indices.length
  taken := r.taken ++ indices.map fun i => (j, i)

/-- The indices of a key. -/
def keyIndices (keys : List (Option Bytes)) (key : Bytes) : List ℕ :=
  (List.range keys.length).filter fun i => keys[i]? = some (some key)

/-- One iteration of the loop of `config_get_value`. -/
def configGetStep (keys : List (Option Bytes)) (maxValueLen : ℕ) (r : ConfigRead)
    (piece : Bytes × ℕ) : ConfigRead :=
  match configPair piece.1 with
  | none => r
  | some (key, value) =>
      r.take piece.2 ((keyIndices keys key).filter fun i => r.values[i]? = some none)
        (value.take (maxValueLen - 1))

/-- One iteration of the loop of `config_values_get`. -/
def configValuesStep (keys : List (Option Bytes)) (r : ConfigRead) (piece : Bytes × ℕ) :
    ConfigRead :=
  match configPair piece.1 with
  | none => r
  | some (key, value) => r.take piece.2 (keyIndices keys key) value

/-- The loop of `config_get_value` over a file. -/
def configGetLoop (keys : List (Option Bytes)) (maxValueLen : ℕ) (file : Bytes) : ConfigRead :=
  (configPieces file).zipIdx.foldl (configGetStep keys maxValueLen) (.start keys)

/-- The loop of `config_values_get` over a file. -/
def configValuesLoop (keys : List (Option Bytes)) (file : Bytes) : ConfigRead :=
  (configPieces file).zipIdx.foldl (configValuesStep keys) (.start keys)

/-- `config_get_value`: its result, and what it has read. `none` stands for a file that cannot
be opened. A value that was not taken leaves its buffer as it was. -/
def configGetValue (file : Option Bytes) (keys : List (Option Bytes)) (maxValueLen : ℕ) :
    ℤ × ConfigRead :=
  if maxValueLen = 0 ∨ keys = [] then (-2, .start keys)
  else
    match file with
    | none => (-1, .start keys)
    | some file =>
        let r := configGetLoop keys maxValueLen file
        (if r.values.all Option.isSome then 0 else -2, r)

/-- `config_values_get`: its result, and what it has read. -/
def configValuesGet (file : Option Bytes) (keys : List (Option Bytes)) : ℤ × ConfigRead :=
  if keys = [] then (-1, .start keys)
  else
    match file with
    | none => (-1, .start keys)
    | some file =>
        let r := configValuesLoop keys file
        (toInt r.foundCount, r)

/-! ### The pieces of a file -/

/-- The pieces that are read are the pieces of the physical lines. -/
theorem configPieces_eq (file : Bytes) :
    configPieces file = (numberedPieces 511 0 (physicalLines 10 file)).map fun x => x.2.2 := by
  rw [map_numberedPieces]
  exact readPieces_eq (by decide) file

/-- A piece that does not start as a comment and has a `=`. -/
def definesPair (piece : Bytes) : Bool :=
  (trim (cstr piece)).head? ≠ some 35 && (trim (cstr piece)).contains 61

/-- A piece gives a pair exactly when it defines one. -/
theorem isSome_configPair (piece : Bytes) :
    (configPair piece).isSome = definesPair piece := by
  rw [configPair, definesPair]
  split
  · rename_i hskip
    rcases hskip with hhead | hnil
    · simp [hhead]
    · simp [hnil]
  · rename_i hgo
    obtain ⟨hhead, -⟩ := not_or.mp hgo
    rw [Option.isSome_map]
    cases hfind : strchr 61 (trim (cstr piece)) with
    | none =>
        have hnone := strchr_eq_none_iff.mp hfind
        simp [hnone]
    | some kv =>
        have hmem : 61 ∈ trim (cstr piece) := by
          by_contra hnot
          rw [strchr_eq_none_iff.mpr hnot] at hfind
          cases hfind
        simp [hhead, hmem]

end MaestroCore
