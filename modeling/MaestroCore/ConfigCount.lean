import Mathlib.Algebra.BigOperators.Group.List.Basic
import MaestroCore.ConfigAgreement

/-!
# The Number of Values That Are Read

`config_values_get` counts the values that it takes. It takes one whenever a key comes up, so a
key that the file defines twice is counted twice, and a caller that compares the number with
the number of its keys is misled. The counter is a `size_t` and the result an `int`.

## Main results

* `foundCount_configValuesLoop`: the count is the number of definitions of all the keys.
* `config_count_iff`: it is the number of the values iff no key is defined again, up to what the
  conversion to `int` does.
-/

open CLang

namespace MaestroCore

/-- How often the file defines a key. -/
def definitions (file : Bytes) (key : Option Bytes) : ℕ :=
  (filePairs file).countP fun pair => some pair.1 = key

/-- How often the file defines the keys. -/
def allDefinitions (file : Bytes) (keys : List (Option Bytes)) : ℕ :=
  (keys.map (definitions file)).sum

/-- How often the file defines the keys again, after the first time. -/
def repeatedDefinitions (file : Bytes) (keys : List (Option Bytes)) : ℕ :=
  (keys.map fun key => definitions file key - 1).sum

/-- How many of the keys the file defines. -/
def definedKeys (file : Bytes) (keys : List (Option Bytes)) : ℕ :=
  keys.countP fun key => 0 < definitions file key

/-- A result that is not negative is the number of the values that are not `NULL`; it is the
number of the keys iff there is a value for every key. -/
def CountsValues (result : ℤ) (values : List (Option Bytes)) (keyCount : ℕ) : Prop :=
  0 ≤ result → result = values.countP Option.isSome ∧
    (result = keyCount ↔ ∀ value ∈ values, value.isSome = true)

/-! ### The counter -/

/-- The number of indices of a key. -/
theorem length_keyIndices (keys : List (Option Bytes)) (key : Bytes) :
    (keyIndices keys key).length = keys.countP fun k => some key = k := by
  have hkeys : keys.map some = (List.range keys.length).map fun i => keys[i]? := by
    refine List.ext_getElem (by simp) fun i hi _ => ?_
    simp only [List.length_map] at hi
    simp [hi]
  have hsome : (keys.map some).countP (fun k => k = some (some key)) =
      keys.countP fun k => some key = k := by
    rw [List.countP_map]
    exact List.countP_congr fun k _ => by simp [eq_comm]
  rw [← hsome, hkeys, List.countP_map, keyIndices, ← List.countP_eq_length_filter]
  rfl

/-- One more pair defines every key with its name once more. -/
theorem sum_countP_append (keys : List (Option Bytes)) (pairs : List (Bytes × Bytes))
    (pair : Bytes × Bytes) :
    (keys.map fun k => (pairs ++ [pair]).countP fun p => some p.1 = k).sum =
      (keys.map fun k => pairs.countP fun p => some p.1 = k).sum +
        keys.countP fun k => some pair.1 = k := by
  induction keys with
  | nil => rfl
  | cons k keys ih =>
      rw [List.map_cons, List.map_cons, List.sum_cons, List.sum_cons, ih, List.countP_append,
        List.countP_singleton, List.countP_cons]
      omega

/-- **The count is the number of definitions of all the keys.** -/
theorem foundCount_configValuesLoop (keys : List (Option Bytes)) (file : Bytes) :
    (configValuesLoop keys file).foundCount = allDefinitions file keys := by
  refine foldl_pairs (I := fun pairs r =>
    r.foundCount = (keys.map fun k => pairs.countP fun p => some p.1 = k).sum)
    (fun pairs r p hr => ?_) ?_ file
  · rw [configValuesStep]
    cases configPair p.1 with
    | none => simpa using hr
    | some pair =>
        simp only [Option.toList_some, ConfigRead.take]
        rw [sum_countP_append, ← hr, length_keyIndices]
  · simp [ConfigRead.start]

/-- A key is counted once if it is defined, and once more for each further definition. -/
theorem allDefinitions_eq (file : Bytes) (keys : List (Option Bytes)) :
    allDefinitions file keys = definedKeys file keys + repeatedDefinitions file keys := by
  induction keys with
  | nil => rfl
  | cons key keys ih =>
      simp only [allDefinitions, definedKeys, repeatedDefinitions, List.map_cons, List.sum_cons,
        List.countP_cons, decide_eq_true_eq] at ih ⊢
      split <;> omega

/-! ### The values -/

/-- The values that are left at the end are those of the keys that are defined. -/
theorem countP_configValuesLoop (keys : List (Option Bytes)) (file : Bytes) :
    (configValuesLoop keys file).values.countP Option.isSome = definedKeys file keys := by
  rw [values_configValuesLoop, List.countP_map, definedKeys]
  refine List.countP_congr fun key _ => ?_
  cases key with
  | none => simp [definitions]
  | some key =>
      rw [decide_eq_true_eq, definitions, List.countP_pos_iff]
      simp

/-- As an `int` a count is negative, or is the number, exactly when its low 32 bits say so. -/
theorem toInt_eq_iff {count n : ℕ} :
    (0 ≤ toInt count → toInt count = n) ↔ 2 ^ 31 ≤ count % 2 ^ 32 ∨ count % 2 ^ 32 = n := by
  rw [toInt, toSigned]
  split <;> omega

/-- **When the count is the number of the values.** For every file and every array of keys, the
result counts the values iff the file defines fewer than `2 ^ 31` of the keys and none of them
again (or a multiple of `2 ^ 32` times), or the number of all the definitions is converted to a
negative result. -/
theorem config_count_iff (file : Bytes) (keys : List (Option Bytes)) :
    CountsValues (configValuesGet (some file) keys).1 (configValuesGet (some file) keys).2.values
        keys.length ↔
      (definedKeys file keys < 2 ^ 31 ∧ 2 ^ 32 ∣ repeatedDefinitions file keys) ∨
        2 ^ 31 ≤ allDefinitions file keys % 2 ^ 32 := by
  have hsum := allDefinitions_eq file keys
  have hcond : (definedKeys file keys < 2 ^ 31 ∧ 2 ^ 32 ∣ repeatedDefinitions file keys) ∨
        2 ^ 31 ≤ allDefinitions file keys % 2 ^ 32 ↔
      2 ^ 31 ≤ allDefinitions file keys % 2 ^ 32 ∨
        allDefinitions file keys % 2 ^ 32 = definedKeys file keys := by
    omega
  rw [hcond, ← toInt_eq_iff, CountsValues]
  by_cases hne : keys = []
  · subst hne
    simpa [configValuesGet, allDefinitions, definedKeys] using fun _ => by decide
  · rw [configValuesGet, if_neg hne]
    simp only [foundCount_configValuesLoop, countP_configValuesLoop]
    refine imp_congr_right fun _ => and_iff_left_of_imp fun hcount => ?_
    have hlength : (configValuesLoop keys file).values.length = keys.length := by
      rw [values_configValuesLoop, List.length_map]
    rw [hcount, Nat.cast_inj, ← countP_configValuesLoop, ← hlength, List.countP_eq_length]

/-- **One value is counted twice**, and a missing one beside it is not noticed. -/
theorem missing_value_not_noticed :
    (configValuesGet (some twiceDefined) [some (ascii "k"), some (ascii "m")]).1 = 2 ∧
    (configValuesGet (some twiceDefined) [some (ascii "k"), some (ascii "m")]).2.values =
      [some (ascii "b"), none] ∧
    ¬ CountsValues 2 [some (ascii "b"), none] 2 := by
  rw [CountsValues]
  decide

end MaestroCore
