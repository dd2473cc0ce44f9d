import MaestroCore.ConfigBuffers
import MaestroCore.Lib.Occurrence

/-!
# The Grammar of a Config File

What a line of a config file means, in its own terms: a line that is no comment and has a `=`
defines the key before the first one with the value after it, up to a comment; white space
around the line, the key and the value does not count. The grammar knows nothing of buffers or
of the order in which `config_get_value` trims and cuts.

## Main results

* `defines_iff`: a line defines the key and the value that the reader takes from it.
* `filePairs_eq`: the reader takes the pairs of the lines when every line fits into its array.
* `config_grammar_read`: so the buffers hold the values of the first lines that define the keys.
-/

open CLang Lines Memory StringArray

namespace MaestroCore

/-- `t` is `s` without the white space at its ends. -/
def IsTrimmed (s t : Bytes) : Prop :=
  ∃ before later, s = before ++ t ++ later ∧
    (∀ b ∈ before, isspace b = true) ∧ (∀ b ∈ later, isspace b = true) ∧
    (∀ b ∈ t.head?, isspace b = false) ∧ ∀ b ∈ t.getLast?, isspace b = false

/-- There is a `#` after white space, or at the start if the flag says that this is enough. -/
def CommentAt (starts : Bool) (s : Bytes) : ℕ → Prop
  | 0 => s[0]? = some 35 ∧ starts = true
  | i + 1 => s[i + 1]? = some 35 ∧ ∃ b ∈ s[i]?, isspace b = true

/-- `t` is `s` up to the first comment. -/
def IsUncommented (starts : Bool) (s t : Bytes) : Prop :=
  t <+: s ∧ (∀ i < t.length, ¬ CommentAt starts s i) ∧ (t = s ∨ CommentAt starts s t.length)

/-- The line defines the key with the value. -/
def Defines (line key value : Bytes) : Prop :=
  ∃ before later text uncommented, IsTrimmed line (before ++ 61 :: later) ∧
    (before ++ 61 :: later).head? ≠ some 35 ∧ 61 ∉ before ∧
    IsTrimmed before key ∧ IsTrimmed later text ∧ IsUncommented true text uncommented ∧
    IsTrimmed uncommented value

/-- The lines of a file, without their ends. -/
def textLines (file : Bytes) : List Bytes := file.splitOn 10

/-- The first line that defines the key defines it with the value. -/
def FirstDefines (file key value : Bytes) : Prop :=
  ∃ before line later, textLines file = before ++ line :: later ∧ Defines line key value ∧
    ∀ l ∈ before, ∀ v, ¬ Defines l key v

/-! ### Trimming -/

/-- `trim` trims. -/
theorem isTrimmed_trim (s : Bytes) : IsTrimmed s (trim s) := by
  refine ⟨s.takeWhile isspace, (s.dropWhile isspace).rtakeWhile isspace, ?_,
    fun b hb => List.mem_takeWhile_imp hb, fun b hb => List.mem_rtakeWhile_imp hb, ?_, ?_⟩
  · rw [trim, List.append_assoc, List.rdropWhile_append_rtakeWhile,
      List.takeWhile_append_dropWhile]
  · intro b hb
    obtain ⟨rest, hrest⟩ := List.head?_eq_some_iff.mp hb
    obtain ⟨later, hlater⟩ := List.rdropWhile_prefix isspace (s.dropWhile isspace)
    have hfirst := List.head?_dropWhile_not isspace s
    rw [← hlater, ← trim, hrest] at hfirst
    simpa using hfirst
  · intro b hb
    have hne : trim s ≠ [] := by
      intro hnil
      rw [hnil] at hb
      cases hb
    have hlast := List.rdropWhile_last_not isspace (s.dropWhile isspace) hne
    obtain rfl : (trim s).getLast hne = b :=
      Option.some.inj ((List.getLast?_eq_some_getLast hne).symm.trans hb)
    exact Bool.eq_false_of_not_eq_true hlast

/-- Only one text is the trimmed one. -/
theorem IsTrimmed.eq_trim {s t : Bytes} (h : IsTrimmed s t) : t = trim s := by
  obtain ⟨before, later, rfl, hbefore, hlater, hfirst, hlast⟩ := h
  rw [trim, List.append_assoc, List.dropWhile_append_of_pos hbefore]
  cases t with
  | nil =>
      rw [List.nil_append, List.dropWhile_eq_nil_iff.mpr hlater, List.rdropWhile_nil]
  | cons b t =>
      have hb : ¬ isspace b = true := by simp [hfirst b rfl]
      rw [List.cons_append, List.dropWhile_cons_of_neg hb, ← List.cons_append,
        List.rdropWhile_append_of_pos hlater, eq_comm, List.rdropWhile_eq_self_iff]
      intro hne
      simp [hlast _ (List.getLast?_eq_some_getLast hne)]

/-- The trimmed text is the result of `trim`. -/
theorem isTrimmed_iff {s t : Bytes} : IsTrimmed s t ↔ t = trim s :=
  ⟨IsTrimmed.eq_trim, fun h => h ▸ isTrimmed_trim s⟩

/-! ### Comments -/

/-- A comment further on is a comment of the rest, which starts after the first byte. -/
theorem commentAt_cons (starts : Bool) (b : UInt8) (s : Bytes) (i : ℕ) :
    CommentAt starts (b :: s) (i + 1) ↔ CommentAt (isspace b) s i := by
  cases i <;> simp [CommentAt]

/-- Two texts up to the first comment are the same. -/
theorem IsUncommented.unique {starts : Bool} {s t t' : Bytes} (h : IsUncommented starts s t)
    (h' : IsUncommented starts s t') : t = t' := by
  have hle : ∀ {t t'}, IsUncommented starts s t → IsUncommented starts s t' →
      t'.length ≤ t.length := by
    rintro t t' ⟨-, -, hend⟩ ⟨hpre', hnone', -⟩
    rcases hend with rfl | hcomment
    · exact hpre'.length_le
    · exact not_lt.mp fun hlt => hnone' _ hlt hcomment
  exact (List.prefix_of_prefix_length_le h.1 h'.1 (hle h' h)).eq_of_length
    (le_antisymm (hle h' h) (hle h h'))

/-- The loop of `strip_inline_comment` cuts at the first comment. -/
theorem isUncommented_stripLoop (starts : Bool) (s : Bytes) :
    IsUncommented starts s (stripLoop starts s) := by
  induction s generalizing starts with
  | nil => exact ⟨List.prefix_rfl, fun i hi => absurd hi (Nat.not_lt_zero i), Or.inl rfl⟩
  | cons b s ih =>
      obtain ⟨hpre, hnone, hend⟩ := ih (isspace b)
      rw [stripLoop]
      split
      · rename_i hcomment
        refine ⟨List.nil_prefix, fun i hi => absurd hi (Nat.not_lt_zero i), Or.inr ?_⟩
        exact ⟨by rw [hcomment.1]; rfl, hcomment.2⟩
      · rename_i hcomment
        refine ⟨List.cons_prefix_cons.mpr ⟨rfl, hpre⟩, fun i hi => ?_, ?_⟩
        · cases i with
          | zero => exact fun h => hcomment (by simpa [CommentAt] using h)
          | succ i =>
              rw [commentAt_cons]
              exact hnone i (by simpa using hi)
        · rw [List.length_cons, commentAt_cons]
          exact hend.imp (fun h => by rw [h]) id

/-- The text without its comment is the result of `strip_inline_comment`. -/
theorem isUncommented_iff {s t : Bytes} : IsUncommented true s t ↔ t = stripInlineComment s :=
  ⟨fun h => h.unique (isUncommented_stripLoop true s), fun h => h ▸ isUncommented_stripLoop true s⟩

/-! ### Lines -/

/-- **A line defines what the reader takes from it.** -/
theorem defines_iff {line key value : Bytes} (hnul : 0 ∉ line) :
    Defines line key value ↔ configPair line = some (key, value) := by
  have hcstr : cstr line = line := cstr_eq_self fun b hb => fun h0 => hnul (h0 ▸ hb)
  simp only [Defines, isTrimmed_iff, isUncommented_iff]
  rw [configPair, hcstr]
  constructor
  · rintro ⟨before, later, text, uncommented, hline, hhead, hbefore, rfl, rfl, rfl, rfl⟩
    rw [← hline, if_neg (by simpa using hhead), strchr_append hbefore]
    rfl
  · intro h
    split at h
    · cases h
    · rename_i hgo
      obtain ⟨⟨before, later⟩, hfind, hpair⟩ := Option.map_eq_some_iff.mp h
      obtain ⟨hline, hbefore⟩ := strchr_eq_some_iff.mp hfind
      obtain ⟨rfl, rfl⟩ := Prod.mk.inj hpair
      refine ⟨before, later, _, _, hline.symm, ?_, hbefore, rfl, rfl, rfl, rfl⟩
      rw [← hline]
      exact (not_or.mp hgo).1

/-- The end of a line is white space. -/
theorem configPair_lineEnd {line : Bytes} (hnul : 0 ∉ line) :
    configPair (line ++ [10]) = configPair line := by
  have hcstr : cstr line = line := cstr_eq_self fun b hb => fun h0 => hnul (h0 ▸ hb)
  have hcstr' : cstr (line ++ [10]) = line ++ [10] := by
    refine cstr_eq_self fun b hb => ?_
    rcases List.mem_append.mp hb with hb | hb
    · exact fun h0 => hnul (h0 ▸ hb)
    · rw [List.mem_singleton.mp hb]
      decide
  have htrim : trim (line ++ [10]) = trim line := by
    obtain ⟨before, later, hline, hbefore, hlater, hends⟩ := isTrimmed_trim line
    refine (IsTrimmed.eq_trim ⟨before, later ++ [10], ?_, hbefore, ?_, hends⟩).symm
    · conv_lhs => rw [hline]
      rw [List.append_assoc _ later]
    · exact List.forall_mem_append.mpr ⟨hlater, by decide⟩
  rw [configPair, configPair, hcstr, hcstr', htrim]

/-- **The reader takes the pairs of the lines**, when there is no NUL and every line fits into
its array. -/
theorem filePairs_eq {file : Bytes} (hnul : 0 ∉ file)
    (hshort : ∀ line ∈ textLines file, line.length ≤ 510) :
    filePairs file = (textLines file).filterMap configPair := by
  obtain ⟨lines, last, hsplit, hlines⟩ := physicalLines_splitOn 10 file
  have hno : ∀ line ∈ textLines file, 0 ∉ line := fun line hline hmem =>
    hnul (mem_of_mem_splitOn hline hmem)
  rw [textLines, hsplit] at hshort hno ⊢
  have hpieces : configPieces file = physicalLines 10 file := by
    have hone : ∀ line ∈ physicalLines 10 file, linePieces 511 line = [line] := by
      intro line hline
      rw [hlines] at hline
      rcases List.mem_append.mp hline with hline | hline
      · obtain ⟨l, hl, rfl⟩ := List.mem_map.mp hline
        have hle := hshort l (List.mem_append_left _ hl)
        refine linePieces_of_short (by simp) ?_
        rw [List.length_append, List.length_singleton]
        omega
      · split at hline
        · cases hline
        · rename_i hlast
          obtain rfl := List.mem_singleton.mp hline
          have hle := hshort line (List.mem_append_right _ (List.mem_singleton_self _))
          exact linePieces_of_short hlast (by omega)
    rw [configPieces, readPieces_eq (by decide), List.flatMap_congr hone, List.flatMap_singleton']
  rw [filePairs, hpieces, hlines, List.filterMap_append, List.filterMap_append,
    List.filterMap_map]
  congr 1
  · refine List.filterMap_congr fun line hline => ?_
    exact configPair_lineEnd (hno line (List.mem_append_left _ hline))
  · split
    · rename_i hlast
      subst hlast
      rfl
    · rfl

/-! ### What the reader leaves -/

section Reader

variable {file key : Bytes}

/-- The pairs that are read are the definitions of the lines. -/
theorem mem_filePairs_iff (hnul : 0 ∉ file)
    (hshort : ∀ line ∈ textLines file, line.length ≤ 510) {value : Bytes} :
    (key, value) ∈ filePairs file ↔ ∃ line ∈ textLines file, Defines line key value := by
  rw [filePairs_eq hnul hshort, List.mem_filterMap]
  refine exists_congr fun line => and_congr_right fun hline => ?_
  rw [defines_iff fun hmem => hnul (mem_of_mem_splitOn hline hmem)]

/-- A value is the first one of its key iff the first line that defines the key has it. -/
theorem lookup_eq_some_iff_firstDefines (hnul : 0 ∉ file)
    (hshort : ∀ line ∈ textLines file, line.length ≤ 510) {value : Bytes} :
    (filePairs file).lookup key = some value ↔ FirstDefines file key value := by
  set find : Bytes → Option Bytes := fun line =>
    (configPair line).bind fun pair => if key == pair.1 then some pair.2 else none with hfind
  have hdefines : ∀ line ∈ textLines file, ∀ v, find line = some v ↔ Defines line key v := by
    intro line hline v
    rw [defines_iff fun hmem => hnul (mem_of_mem_splitOn hline hmem)]
    cases hpair : configPair line with
    | none => simp [hfind, hpair]
    | some pair =>
        by_cases hk : key = pair.1
        · simp [hfind, hpair, hk, Prod.ext_iff]
        · simp [hfind, hpair, hk, Ne.symm hk, Prod.ext_iff]
  have hnone : ∀ line ∈ textLines file, find line = none ↔ ∀ v, ¬ Defines line key v := by
    intro line hline
    rw [Option.eq_none_iff_forall_ne_some]
    exact forall_congr' fun v => not_congr (hdefines line hline v)
  rw [filePairs_eq hnul hshort, List.lookup_eq_findSome?, ← List.head?_filterMap,
    List.filterMap_filterMap, List.head?_filterMap, List.findSome?_eq_some_iff]
  refine exists_congr fun before => exists_congr fun line => exists_congr fun later =>
    and_congr_right fun hlines => ?_
  rw [hlines] at hdefines hnone
  refine and_congr (hdefines line (by simp) value) (forall₂_congr fun l hl => ?_)
  exact hnone l (List.mem_append_left _ hl)

/-- In a file of short lines a key is not found exactly when no line defines it. -/
theorem lookup_eq_none_iff_defines (hnul : 0 ∉ file)
    (hshort : ∀ line ∈ textLines file, line.length ≤ 510) :
    (filePairs file).lookup key = none ↔
      ∀ line ∈ textLines file, ∀ value, ¬ Defines line key value := by
  rw [List.lookup_eq_none_iff]
  constructor
  · intro h line hline value hvalue
    have hmem := (mem_filePairs_iff hnul hshort).mpr ⟨line, hline, hvalue⟩
    simpa using h _ hmem
  · rintro h ⟨k, value⟩ hmem
    refine bne_iff_ne.mpr ?_
    rintro rfl
    obtain ⟨line, hline, hvalue⟩ := (mem_filePairs_iff hnul hshort).mp hmem
    exact h line hline value hvalue

/-- A value that is read is a C string. -/
theorem noNul_of_configPair {line value : Bytes} (h : configPair line = some (key, value)) :
    0 ∉ value := by
  rw [configPair] at h
  split at h
  · cases h
  · obtain ⟨⟨before, later⟩, hfind, hpair⟩ := Option.map_eq_some_iff.mp h
    obtain ⟨hline, -⟩ := strchr_eq_some_iff.mp hfind
    obtain ⟨-, rfl⟩ := Prod.mk.inj hpair
    intro hmem
    have hlater : 0 ∈ later :=
      InPlace.mem_trim (InPlace.mem_stripLoop (InPlace.mem_trim hmem))
    have htrim : 0 ∈ trim (cstr line) := by
      rw [hline]
      exact List.mem_append_right _ (List.mem_cons_of_mem _ hlater)
    exact cstr_noNul line 0 (InPlace.mem_trim htrim) rfl

/-- A value found in a file has no NUL. -/
theorem noNul_of_lookup {value : Bytes} (h : (filePairs file).lookup key = some value) :
    0 ∉ value := by
  obtain ⟨before, later, hpairs, -⟩ := List.lookup_eq_some_iff.mp h
  have hmem : (key, value) ∈ filePairs file := by simp [hpairs]
  obtain ⟨line, -, hpair⟩ := List.mem_filterMap.mp hmem
  exact noNul_of_configPair hpair

end Reader

/-- What a call of the reader returns and leaves in the buffers, in terms of the lines of the
file. -/
structure ReadsGrammar (file : Bytes) (arrays : List (Bytes × Block UInt8)) (maxValueLen : ℕ)
    (result : ℤ) (buffers : List (Block UInt8)) : Prop where
  zero_iff : result = 0 ↔
    ∀ x ∈ arrays, ∃ line ∈ textLines file, ∃ value, Defines line x.1 value
  found : ∀ (i : ℕ) (key : Bytes) (buffer : Block UInt8), arrays[i]? = some (key, buffer) →
    (∃ line ∈ textLines file, ∃ value, Defines line key value) →
    ∃ value buffer', FirstDefines file key value ∧ buffers[i]? = some buffer' ∧
      loadString buffer' = some (value.take (maxValueLen - 1))
  missing : ∀ (i : ℕ) (key : Bytes) (buffer : Block UInt8), arrays[i]? = some (key, buffer) →
    (∀ line ∈ textLines file, ∀ value, ¬ Defines line key value) → buffers[i]? = some buffer

/-- **The config reader implements its grammar.** For every file without NUL whose lines have at
most 510 bytes, and every array of keys with buffers that have room for `maxValueLen` bytes, no
access of the run is outside of an array, the result is 0 iff every key is defined, the buffer
of a defined key holds the value from the first line that defines it, cut to `maxValueLen - 1`
bytes, and every other buffer is unchanged. -/
theorem config_grammar_read {line : Block UInt8} {file : Bytes}
    {arrays : List (Bytes × Block UInt8)} {maxValueLen : ℕ} (hline : line.length = 512)
    (hnul : 0 ∉ file) (hshort : ∀ l ∈ textLines file, l.length ≤ 510) (hne : arrays ≠ [])
    (hpos : 0 < maxValueLen) (hfits : ∀ x ∈ arrays, maxValueLen ≤ x.2.length) :
    ∃ result buffers, InPlace.configGetValue line (some file)
        (arrays.map fun x => (some x.1, x.2)) maxValueLen = some (result, buffers) ∧
      ReadsGrammar file arrays maxValueLen result buffers := by
  have hbuffers : ∀ x ∈ arrays.map fun x => (some x.1, x.2), maxValueLen ≤ x.2.length :=
    List.forall_mem_map.mpr hfits
  have hread := InPlace.configGetValue_eq hline hbuffers (some file)
  have hargs : ¬ (maxValueLen = 0 ∨ (arrays.map fun x => some x.1) = []) := by
    simp [hne, hpos.ne']
  have hvalues : (configGetLoop (arrays.map fun x => some x.1) maxValueLen file).values =
      arrays.map fun x => ((filePairs file).lookup x.1).map (List.take (maxValueLen - 1)) := by
    rw [values_configGetLoop, List.map_map]
    rfl
  simp only [List.map_map, Function.comp_def, configGetValue, if_neg hargs, hvalues,
    List.zipWith_map_left, List.zipWith_map_right, List.zipWith_self] at hread
  refine ⟨_, _, hread, ?_, ?_, ?_⟩
  · have hfound : ∀ x ∈ arrays, ((filePairs file).lookup x.1).isSome = true ↔
        ∃ line ∈ textLines file, ∃ value, Defines line x.1 value := by
      intro x _
      rw [Option.isSome_iff_ne_none, Ne, lookup_eq_none_iff_defines hnul hshort]
      push Not
      rfl
    rw [← forall₂_congr hfound]
    split
    · rename_i hall
      simpa using hall
    · rename_i hnot
      refine iff_of_false (by decide) fun hall => hnot ?_
      simpa using hall
  · intro i key buffer harray hdefined
    cases hfirst : (filePairs file).lookup key with
    | none =>
        obtain ⟨line, hline, value, hvalue⟩ := hdefined
        exact absurd hvalue ((lookup_eq_none_iff_defines hnul hshort).mp hfirst line hline value)
    | some value =>
        have hlen : (value.take (maxValueLen - 1)).length < maxValueLen := by
          rw [List.length_take]
          omega
        obtain ⟨later, hlater⟩ := overwritten_eq buffer hlen
        refine ⟨value, _, (lookup_eq_some_iff_firstDefines hnul hshort).mp hfirst, ?_,
          loadString_text (fun hmem => noNul_of_lookup hfirst (List.mem_of_mem_take hmem)) later⟩
        rw [List.getElem?_map, harray, ← hlater]
        simp [hfirst, InPlace.filledBuffer]
  · intro i key buffer harray hmissing
    have hnone := (lookup_eq_none_iff_defines hnul hshort).mpr hmissing
    rw [List.getElem?_map, harray]
    simp [hnone, InPlace.filledBuffer]

/-- A value with a `#` in it and a comment after it, longer than its buffer. -/
theorem commented_value_read :
    ∃ result buffers, InPlace.configGetValue (List.replicate 512 none)
        (some (ascii "# c\n k = ab#c # d\n")) [(some (ascii "k"), List.replicate 4 none)] 4 =
          some (result, buffers) ∧
      ReadsGrammar (ascii "# c\n k = ab#c # d\n") [(ascii "k", List.replicate 4 none)] 4 result
        buffers :=
  @config_grammar_read (List.replicate 512 none) (ascii "# c\n k = ab#c # d\n")
    [(ascii "k", List.replicate 4 none)] 4 List.length_replicate (by decide) (by decide)
    (List.cons_ne_nil _ _) (by decide) (by decide)

end MaestroCore
