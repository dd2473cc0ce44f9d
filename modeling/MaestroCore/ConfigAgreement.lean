import MaestroCore.ConfigHandler

/-!
# The Two Config Readers Side by Side

`config_get_value` and `config_values_get` read the same pairs from a file. The first one
takes a value for a key once, and the second one whenever the key comes up again, so what is
left at the end is the first value in one case and the last one in the other.

## Main results

* `values_configGetLoop`: the values of `config_get_value` are the first ones of their keys,
  cut to the size of the buffers.
* `values_configValuesLoop`: the values of `config_values_get` are the last ones.
* `config_readers_agree_iff`: the two agree iff the first and the last value of every key that
  is asked for are the same.
-/

open CLang Lines

namespace MaestroCore

/-- The pairs that are read from a file, in their order. -/
def filePairs (file : Bytes) : List (Bytes × Bytes) := (configPieces file).filterMap configPair

section Values

variable {keys : List (Option Bytes)} {f g : Bytes → Option Bytes} {key value : Bytes}

/-- The indices of a key are those where it stands in the array. -/
theorem mem_keyIndices {i : ℕ} : i ∈ keyIndices keys key ↔ keys[i]? = some (some key) := by
  rw [keyIndices, List.mem_filter, List.mem_range, decide_eq_true_eq]
  refine ⟨And.right, fun h => ⟨?_, h⟩⟩
  exact (List.getElem?_eq_some_iff.mp h).1

/-- Writing one value at several indices. -/
theorem getElem?_foldl_set (indices : List ℕ) (values : List (Option Bytes)) (i : ℕ) :
    (indices.foldl (fun values i => values.set i (some value)) values)[i]? =
      if i ∈ indices ∧ i < values.length then some (some value) else values[i]? := by
  induction indices generalizing values with
  | nil => simp
  | cons j indices ih =>
      rw [List.foldl_cons, ih, List.length_set, List.getElem?_set]
      grind

/-- Taking a value at the indices of a key, as far as they are still asked for. -/
theorem values_take {r : ConfigRead} (hr : r.values = keys.map fun k => k.bind f)
    {wanted : ℕ → Bool} (j : ℕ) (hother : ∀ key', key' ≠ key → g key' = f key')
    (hkey : ∀ i, keys[i]? = some (some key) → g key = if wanted i then some value else f key) :
    (r.take j ((keyIndices keys key).filter wanted) value).values =
      keys.map fun k => k.bind g := by
  refine List.ext_getElem? fun i => ?_
  rw [ConfigRead.take, getElem?_foldl_set, hr]
  simp only [List.length_map, List.getElem?_map, List.mem_filter, mem_keyIndices]
  cases hi : keys[i]? with
  | none => simp
  | some k =>
      have hlt : i < keys.length := (List.getElem?_eq_some_iff.mp hi).1
      cases k with
      | none => simp
      | some key' =>
          by_cases hsame : key' = key
          · subst hsame
            have hwanted := hkey i hi
            split <;> simp_all
          · simp [hsame, hother key' hsame]

/-! ### What the loops leave -/

/-- The values of the first pairs, after one more piece. -/
theorem values_configGetStep {r : ConfigRead} {maxValueLen : ℕ} {pairs : List (Bytes × Bytes)}
    (hr : r.values = keys.map fun k => k.bind fun key =>
      (pairs.lookup key).map (List.take (maxValueLen - 1))) (p : Bytes × ℕ) :
    (configGetStep keys maxValueLen r p).values = keys.map fun k => k.bind fun key =>
      ((pairs ++ (configPair p.1).toList).lookup key).map (List.take (maxValueLen - 1)) := by
  rw [configGetStep]
  cases configPair p.1 with
  | none => simpa using hr
  | some pair =>
      obtain ⟨key, value⟩ := pair
      refine values_take hr p.2 (fun key' hne => ?_) fun i hi => ?_
      · have hnone : List.lookup key' [(key, value)] = none := by
          rw [List.lookup_cons, beq_false_of_ne hne]
          rfl
        simp [List.lookup_append, hnone]
      · rw [hr, List.getElem?_map, hi]
        cases hfirst : pairs.lookup key <;> simp [List.lookup_append, hfirst]

/-- The values of the last pairs, after one more piece. -/
theorem values_configValuesStep {r : ConfigRead} {pairs : List (Bytes × Bytes)}
    (hr : r.values = keys.map fun k => k.bind fun key => pairs.reverse.lookup key)
    (p : Bytes × ℕ) :
    (configValuesStep keys r p).values = keys.map fun k => k.bind fun key =>
      (pairs ++ (configPair p.1).toList).reverse.lookup key := by
  rw [configValuesStep]
  cases configPair p.1 with
  | none => simpa using hr
  | some pair =>
      obtain ⟨key, value⟩ := pair
      have htake : (r.take p.2 ((keyIndices keys key).filter fun _ => true) value).values =
          keys.map fun k => k.bind fun key' => ((key, value) :: pairs.reverse).lookup key' := by
        refine values_take hr p.2 (fun key' hne => ?_) fun i hi => ?_
        · rw [List.lookup_cons, beq_false_of_ne hne]
        · simp
      simpa using htake

/-- A loop over pieces whose iterations keep an invariant of the pairs read so far. -/
theorem foldl_pairs {step : ConfigRead → Bytes × ℕ → ConfigRead}
    {I : List (Bytes × Bytes) → ConfigRead → Prop}
    (hstep : ∀ pairs r p, I pairs r → I (pairs ++ (configPair p.1).toList) (step r p))
    (hstart : I [] (.start keys)) (file : Bytes) :
    I (filePairs file) ((configPieces file).zipIdx.foldl step (.start keys)) := by
  have hpieces : ∀ (pieces : List (Bytes × ℕ)) (r : ConfigRead) (pairs : List (Bytes × Bytes)),
      I pairs r → I (pairs ++ (pieces.map Prod.fst).filterMap configPair)
        (pieces.foldl step r) := by
    intro pieces
    induction pieces with
    | nil => simp
    | cons p pieces ih =>
        intro r pairs hr
        have hlater := ih _ _ (hstep pairs r p hr)
        rw [List.append_assoc] at hlater
        rw [List.foldl_cons, List.map_cons, List.filterMap_cons]
        cases hpair : configPair p.1 with
        | none => simpa [hpair] using hlater
        | some pair => simpa [hpair] using hlater
  have hall := hpieces (configPieces file).zipIdx _ [] hstart
  rwa [List.nil_append, List.zipIdx_map_fst] at hall

/-- **`config_get_value` keeps the first value of a key**, cut to the size of the buffer. -/
theorem values_configGetLoop (keys : List (Option Bytes)) (maxValueLen : ℕ) (file : Bytes) :
    (configGetLoop keys maxValueLen file).values = keys.map fun k => k.bind fun key =>
      ((filePairs file).lookup key).map (List.take (maxValueLen - 1)) := by
  refine foldl_pairs (I := fun pairs r => r.values = keys.map fun k => k.bind fun key =>
    (pairs.lookup key).map (List.take (maxValueLen - 1))) (fun _ _ p hr => ?_) ?_ file
  · exact values_configGetStep hr p
  · simp [ConfigRead.start]

/-- **`config_values_get` keeps the last value of a key.** -/
theorem values_configValuesLoop (keys : List (Option Bytes)) (file : Bytes) :
    (configValuesLoop keys file).values = keys.map fun k => k.bind fun key =>
      (filePairs file).reverse.lookup key := by
  refine foldl_pairs (I := fun pairs r => r.values = keys.map fun k => k.bind fun key =>
    pairs.reverse.lookup key) (fun _ _ p hr => ?_) ?_ file
  · exact values_configValuesStep hr p
  · simp [ConfigRead.start]

/-! ### The readers -/

/-- The call that returns 0 has read the file. -/
theorem configGetValue_of_zero {file : Bytes} {maxValueLen : ℕ}
    (h : (configGetValue (some file) keys maxValueLen).1 = 0) :
    keys ≠ [] ∧ (configGetValue (some file) keys maxValueLen).2 =
      configGetLoop keys maxValueLen file := by
  rw [configGetValue] at h ⊢
  split
  · rename_i hargs
    rw [if_pos hargs] at h
    cases h
  · rename_i hargs
    exact ⟨(not_or.mp hargs).2, rfl⟩

/-- **The two readers agree** on a call that finds every key, with buffers longer than any
value, iff the first and the last value of every key that is asked for are the same. -/
theorem config_readers_agree_iff (file : Bytes) (keys : List (Option Bytes)) (maxValueLen : ℕ)
    (hlong : ∀ pair ∈ filePairs file, pair.2.length < maxValueLen)
    (hzero : (configGetValue (some file) keys maxValueLen).1 = 0) :
    (configValuesGet (some file) keys).2.values =
        (configGetValue (some file) keys maxValueLen).2.values ↔
      ∀ key, some key ∈ keys →
        (filePairs file).reverse.lookup key = (filePairs file).lookup key := by
  obtain ⟨hne, hget⟩ := configGetValue_of_zero hzero
  have hwhole : ∀ key, ((filePairs file).lookup key).map (List.take (maxValueLen - 1)) =
      (filePairs file).lookup key := by
    intro key
    cases hfirst : (filePairs file).lookup key with
    | none => rfl
    | some value =>
        obtain ⟨before, later, hpairs, -⟩ := List.lookup_eq_some_iff.mp hfirst
        have hlen : value.length < maxValueLen := hlong (key, value) (by simp [hpairs])
        rw [Option.map_some, List.take_of_length_le (by omega)]
  rw [hget, configValuesGet, if_neg hne, values_configGetLoop, values_configValuesLoop,
    List.map_inj_left]
  constructor
  · intro h key hkey
    exact (h (some key) hkey).trans (hwhole key)
  · intro h k hk
    cases k with
    | none => rfl
    | some key => exact (h key hk).trans (hwhole key).symm

end Values

/-- A file that defines a key twice, with different values. -/
def twiceDefined : Bytes := ascii "k=a\nk=b\n"

/-- A file that defines it twice, with one value. -/
def twiceTheSame : Bytes := ascii "k=a\nk=a\n"

/-- Two equal definitions of a key leave the readers in agreement. -/
theorem twiceTheSame_agrees :
    (configValuesGet (some twiceTheSame) [some (ascii "k")]).2.values =
      (configGetValue (some twiceTheSame) [some (ascii "k")] 16).2.values := by
  refine (config_readers_agree_iff twiceTheSame [some (ascii "k")] 16 (by decide)
    (by decide)).mpr fun key hkey => ?_
  obtain rfl : key = ascii "k" := by simpa using hkey
  decide

/-- **The two readers disagree** about a key that is defined twice. -/
theorem twiceDefined_disagrees :
    (∀ pair ∈ filePairs twiceDefined, pair.2.length < 16) ∧
    configGetValue (some twiceDefined) [some (ascii "k")] 16 =
      (0, ⟨[some (ascii "a")], 1, [(0, 0)]⟩) ∧
    configValuesGet (some twiceDefined) [some (ascii "k")] =
      (2, ⟨[some (ascii "b")], 2, [(0, 0), (1, 0)]⟩) := by
  refine ⟨?_, ?_, ?_⟩ <;> decide

end MaestroCore
