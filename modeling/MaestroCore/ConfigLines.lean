import MaestroCore.ConfigHandler

/-!
# Comments and Lines of a Config File

Which lines of a config file the two readers take values from. A physical line of 511 bytes or
more is read in several pieces, and each of them is treated as a line: the later pieces of a
comment are no comment, and a line can have more than one pair.

## Main results

* `taken_of_foldl`: what the loops take comes from pieces with a key and a value, and all of
  them are taken when their keys are asked for.
* `config_takes_lines_iff`: values come from lines that are no comments, one pair at most from
  each of them, iff no more pieces of a line define a pair than that.
-/

open CLang Lines

namespace MaestroCore

/-- The first byte of the line that is not blank is a `#`. -/
def isComment (line : Bytes) : Bool := (line.dropWhile isspace).head? = some 35

/-- The pieces that are read from a file, each with its physical line and the number of the
line. -/
def filePieces (file : Bytes) : List (ℕ × Bytes × Bytes) :=
  numberedPieces 511 0 (physicalLines 10 file)

/-- Values are taken only from lines that are no comments, and from each line only from one
piece. -/
def TakesLines (file : Bytes) (taken : List (ℕ × ℕ)) : Prop :=
  (∀ x ∈ taken, ∃ n line piece, (filePieces file)[x.1]? = some (n, line, piece) ∧
    isComment line = false) ∧
  ∀ x ∈ taken, ∀ y ∈ taken, ∀ n line line' piece piece',
    (filePieces file)[x.1]? = some (n, line, piece) →
    (filePieces file)[y.1]? = some (n, line', piece') → x.1 = y.1

/-- No piece of a comment defines a pair, and one piece at most of every other line does. -/
def PairsPerLine (file : Bytes) : Prop :=
  ∀ line ∈ physicalLines 10 file,
    (linePieces 511 line).countP definesPair ≤ if isComment line then 0 else 1

/-! ### What the loops take -/

/-- Taking a value notes it under its piece and nothing else. -/
theorem taken_take {r : ConfigRead} {j : ℕ} {indices : List ℕ} {value : Bytes} {x : ℕ × ℕ}
    (h : x ∈ (r.take j indices value).taken) : x ∈ r.taken ∨ x.1 = j := by
  rcases List.mem_append.mp h with h | h
  · exact Or.inl h
  · obtain ⟨i, -, rfl⟩ := List.mem_map.mp h
    exact Or.inr rfl

/-- A loop whose iterations take values only from a piece that defines a pair. -/
theorem taken_of_foldl {step : ConfigRead → Bytes × ℕ → ConfigRead}
    (hstep : ∀ r p, ∀ x ∈ (step r p).taken, x ∈ r.taken ∨ x.1 = p.2 ∧ definesPair p.1 = true)
    {pieces : List (Bytes × ℕ)} {r : ConfigRead} :
    ∀ x ∈ (pieces.foldl step r).taken,
      x ∈ r.taken ∨ ∃ piece, (piece, x.1) ∈ pieces ∧ definesPair piece = true := by
  induction pieces generalizing r with
  | nil => exact fun x hx => Or.inl hx
  | cons p pieces ih =>
      intro x hx
      rcases ih x hx with hx | ⟨piece, hmem, hdefines⟩
      · rcases hstep r p x hx with hx | ⟨heq, hdefines⟩
        · exact Or.inl hx
        · exact Or.inr ⟨p.1, by rw [heq]; exact List.mem_cons_self, hdefines⟩
      · exact Or.inr ⟨piece, List.mem_cons_of_mem _ hmem, hdefines⟩

/-- A step of the first reader notes values only under a piece that defines a pair. -/
theorem taken_configGetStep (keys : List (Option Bytes)) (maxValueLen : ℕ) (r : ConfigRead)
    (p : Bytes × ℕ) : ∀ x ∈ (configGetStep keys maxValueLen r p).taken,
      x ∈ r.taken ∨ x.1 = p.2 ∧ definesPair p.1 = true := by
  intro x hx
  rw [← isSome_configPair]
  rw [configGetStep] at hx
  split at hx
  · exact Or.inl hx
  · rename_i key value hpair
    exact (taken_take hx).imp id fun heq => ⟨heq, by rw [hpair]; rfl⟩

/-- A step of the second reader notes values only under a piece that defines a pair. -/
theorem taken_configValuesStep (keys : List (Option Bytes)) (r : ConfigRead) (p : Bytes × ℕ) :
    ∀ x ∈ (configValuesStep keys r p).taken, x ∈ r.taken ∨ x.1 = p.2 ∧ definesPair p.1 = true := by
  intro x hx
  rw [← isSome_configPair]
  rw [configValuesStep] at hx
  split at hx
  · exact Or.inl hx
  · rename_i key value hpair
    exact (taken_take hx).imp id fun heq => ⟨heq, by rw [hpair]; rfl⟩

/-- `config_values_get` takes every pair whose key is asked for. -/
theorem mem_taken_configValues {keys : List (Option Bytes)} {pieces : List (Bytes × ℕ)}
    {r : ConfigRead} {piece key value : Bytes} {j i : ℕ} (hmem : (piece, j) ∈ pieces)
    (hpair : configPair piece = some (key, value)) (hkey : keys[i]? = some (some key)) :
    (j, i) ∈ (pieces.foldl (configValuesStep keys) r).taken := by
  have hkeep : ∀ (pieces : List (Bytes × ℕ)) (r : ConfigRead) (x : ℕ × ℕ), x ∈ r.taken →
      x ∈ (pieces.foldl (configValuesStep keys) r).taken := by
    intro pieces
    induction pieces with
    | nil => exact fun r x hx => hx
    | cons p pieces ih =>
        intro r x hx
        refine ih _ x ?_
        rw [configValuesStep]
        split
        · exact hx
        · exact List.mem_append_left _ hx
  induction pieces generalizing r with
  | nil => cases hmem
  | cons p pieces ih =>
      rcases List.mem_cons.mp hmem with rfl | hmem
      · refine hkeep pieces _ _ ?_
        rw [configValuesStep, hpair]
        refine List.mem_append_right _ (List.mem_map_of_mem (f := fun i => (j, i)) ?_)
        refine List.mem_filter.mpr ⟨List.mem_range.mpr ?_, decide_eq_true hkey⟩
        exact (List.getElem?_eq_some_iff.mp hkey).1
      · exact ih hmem

/-! ### Pieces and lines -/

/-- The pieces that are read, by their numbers. -/
theorem mem_zipIdx_configPieces {file piece : Bytes} {j : ℕ} :
    (piece, j) ∈ (configPieces file).zipIdx ↔
      ∃ n line, (filePieces file)[j]? = some (n, line, piece) := by
  rw [List.mem_zipIdx_iff_getElem?, configPieces_eq, List.getElem?_map]
  constructor
  · intro h
    obtain ⟨⟨n, line, p⟩, hget, rfl⟩ := Option.map_eq_some_iff.mp h
    exact ⟨n, line, hget⟩
  · rintro ⟨n, line, hget⟩
    rw [filePieces] at hget
    simp [hget]

/-- What is taken comes from pieces that define a pair. -/
theorem defines_of_taken {step : ConfigRead → Bytes × ℕ → ConfigRead}
    (hstep : ∀ r p, ∀ x ∈ (step r p).taken, x ∈ r.taken ∨ x.1 = p.2 ∧ definesPair p.1 = true)
    {keys : List (Option Bytes)} {file : Bytes} {x : ℕ × ℕ}
    (hx : x ∈ ((configPieces file).zipIdx.foldl step (.start keys)).taken) :
    ∃ n line piece, (filePieces file)[x.1]? = some (n, line, piece) ∧
      definesPair piece = true := by
  rcases taken_of_foldl hstep x hx with hx | ⟨piece, hmem, hdefines⟩
  · cases hx
  · obtain ⟨n, line, hget⟩ := mem_zipIdx_configPieces.mp hmem
    exact ⟨n, line, piece, hget, hdefines⟩

/-- The number of a line and the line of a piece. -/
theorem line_of_filePieces {file line piece : Bytes} {j n : ℕ}
    (h : (filePieces file)[j]? = some (n, line, piece)) :
    (physicalLines 10 file)[n]? = some line :=
  (line_of_mem_numberedPieces (List.mem_of_getElem? h)).2

/-- The bound for a line is one for the pieces with its number. -/
theorem PairsPerLine.countP_le {file line : Bytes} {n : ℕ} (h : PairsPerLine file)
    (hn : (physicalLines 10 file)[n]? = some line) :
    (filePieces file).countP (fun x => x.1 = n && definesPair x.2.2) ≤
      if isComment line then 0 else 1 := by
  rw [filePieces, countP_numberedPieces (Nat.zero_le n) hn]
  exact h line (List.mem_of_getElem? hn)

/-- A loop that takes values only from pieces that define a pair takes lines. -/
theorem PairsPerLine.takesLines {step : ConfigRead → Bytes × ℕ → ConfigRead}
    (hstep : ∀ r p, ∀ x ∈ (step r p).taken, x ∈ r.taken ∨ x.1 = p.2 ∧ definesPair p.1 = true)
    {keys : List (Option Bytes)} {file : Bytes} (h : PairsPerLine file) :
    TakesLines file ((configPieces file).zipIdx.foldl step (.start keys)).taken := by
  constructor
  · intro x hx
    obtain ⟨n, line, piece, hget, hdefines⟩ := defines_of_taken hstep hx
    refine ⟨n, line, piece, hget, ?_⟩
    by_contra hcomment
    rw [Bool.not_eq_false] at hcomment
    have hle := h.countP_le (line_of_filePieces hget)
    rw [if_pos hcomment, Nat.le_zero, List.countP_eq_zero] at hle
    exact hle _ (List.mem_of_getElem? hget) (by simp [hdefines])
  · intro x hx y hy n line line' piece piece' hgetx hgety
    obtain ⟨n₁, line₁, piece₁, hget₁, hdefines₁⟩ := defines_of_taken hstep hx
    obtain ⟨n₂, line₂, piece₂, hget₂, hdefines₂⟩ := defines_of_taken hstep hy
    obtain ⟨rfl, rfl, rfl⟩ : n₁ = n ∧ line₁ = line ∧ piece₁ = piece := by
      simpa using hget₁.symm.trans hgetx
    obtain ⟨rfl, rfl, rfl⟩ : n₂ = n₁ ∧ line₂ = line' ∧ piece₂ = piece' := by
      simpa using hget₂.symm.trans hgety
    have hle := h.countP_le (line_of_filePieces hgetx)
    have hone := countP_le_one_iff.mp (le_trans hle (by split <;> omega))
    exact hone x.1 y.1 _ _ hgetx hgety (by simp [hdefines₁]) (by simp [hdefines₂])

/-- A comment that is read from its start is taken for one. -/
theorem head_trim_of_isComment {line : Bytes} (h : isComment line = true) :
    (trim (cstr line)).head? = some 35 := by
  rw [isComment, decide_eq_true_eq, List.head?_eq_some_iff] at h
  obtain ⟨rest, hrest⟩ := h
  have hline : line = line.takeWhile isspace ++ 35 :: rest := by
    rw [← hrest, List.takeWhile_append_dropWhile]
  have hspaces : ∀ b ∈ line.takeWhile isspace, isspace b = true := fun b hb =>
    List.mem_takeWhile_imp hb
  have hcstr : cstr line = line.takeWhile isspace ++ 35 :: cstr rest := by
    conv_lhs => rw [hline]
    rw [cstr, List.takeWhile_append_of_pos, List.takeWhile_cons_of_pos (by decide)]
    · rfl
    · intro b hb
      refine decide_eq_true ?_
      rintro rfl
      exact absurd (hspaces 0 hb) (by decide)
  have hdrop : (cstr line).dropWhile isspace = 35 :: cstr rest := by
    rw [hcstr, List.dropWhile_append_of_pos hspaces, List.dropWhile_cons_of_neg (by decide)]
  have hpre : trim (cstr line) <+: 35 :: cstr rest := by
    rw [trim, hdrop]
    exact List.rdropWhile_prefix _ _
  have hne : trim (cstr line) ≠ [] := by
    rw [trim, hdrop, ne_eq, List.rdropWhile_eq_nil_iff]
    intro hall
    exact absurd (hall 35 List.mem_cons_self) (by decide)
  obtain ⟨b, t, ht⟩ := List.exists_cons_of_ne_nil hne
  rw [ht] at hpre ⊢
  rw [(List.cons_prefix_cons.mp hpre).1]
  rfl

/-- Lines that fit into the array are read in one piece, and so they are no exception. -/
theorem pairsPerLine_of_short {file : Bytes}
    (h : ∀ line ∈ physicalLines 10 file, line.length ≤ 511) : PairsPerLine file := by
  intro line hline
  by_cases hnil : line = []
  · subst hnil
    exact Nat.zero_le _
  · rw [linePieces_of_short hnil (h line hline), List.countP_singleton]
    split
    · rename_i hdefines
      rw [if_neg]
      intro hcomment
      simp [definesPair, head_trim_of_isComment hcomment] at hdefines
    · exact Nat.zero_le _

/-- The pair of a piece is taken by `config_values_get` when its key is asked for. -/
theorem taken_of_filePieces {file line piece key value : Bytes} {keys : List (Option Bytes)}
    {n j i : ℕ} (hget : (filePieces file)[j]? = some (n, line, piece))
    (hpair : configPair piece = some (key, value)) (hkey : keys[i]? = some (some key)) :
    (j, i) ∈ (configValuesGet (some file) keys).2.taken := by
  have hne : keys ≠ [] := by
    rintro rfl
    cases hkey
  rw [configValuesGet, if_neg hne]
  exact mem_taken_configValues (mem_zipIdx_configPieces.mpr ⟨n, line, hget⟩) hpair hkey

/-- **When a comment defines no key and a line no more than one.** For every file, the two
readers take values only from lines that are no comments, and from one piece at most of each
line, whatever keys they are asked for, iff no piece of a comment and at most one piece of every
other line has a key and a value. -/
theorem config_takes_lines_iff (file : Bytes) :
    (∀ keys maxValueLen,
      TakesLines file (configGetValue (some file) keys maxValueLen).2.taken ∧
      TakesLines file (configValuesGet (some file) keys).2.taken) ↔ PairsPerLine file := by
  constructor
  · intro h line hline
    obtain ⟨n, hn⟩ := List.mem_iff_getElem?.mp hline
    rw [← countP_numberedPieces (Nat.zero_le n) hn, ← filePieces]
    have hpair : ∀ {piece : Bytes}, definesPair piece = true →
        ∃ key value, configPair piece = some (key, value) := by
      intro piece hdefines
      rw [← isSome_configPair] at hdefines
      obtain ⟨⟨key, value⟩, hpair⟩ := Option.isSome_iff_exists.mp hdefines
      exact ⟨key, value, hpair⟩
    split
    · rename_i hcomment
      rw [Nat.le_zero, List.countP_eq_zero]
      rintro ⟨k, line', piece⟩ hmem hboth
      simp only [Bool.and_eq_true, decide_eq_true_eq] at hboth
      obtain ⟨rfl, hdefines⟩ := hboth
      obtain ⟨j, hget⟩ := List.mem_iff_getElem?.mp hmem
      obtain ⟨key, value, hkv⟩ := hpair hdefines
      have htaken : (j, 0) ∈ (configValuesGet (some file) [some key]).2.taken :=
        taken_of_filePieces hget hkv rfl
      obtain ⟨n', line'', piece', hget', hno⟩ := (h [some key] 1).2.1 _ htaken
      obtain ⟨rfl, rfl, rfl⟩ : k = n' ∧ line' = line'' ∧ piece = piece' := by
        simpa using hget.symm.trans hget'
      obtain rfl : line = line' := Option.some.inj (hn.symm.trans (line_of_filePieces hget))
      rw [hcomment] at hno
      cases hno
    · rw [countP_le_one_iff]
      rintro i j ⟨k, line₁, piece₁⟩ ⟨k', line₂, piece₂⟩ hi hj hboth hboth'
      simp only [Bool.and_eq_true, decide_eq_true_eq] at hboth hboth'
      obtain ⟨rfl, hdefines⟩ := hboth
      obtain ⟨rfl, hdefines'⟩ := hboth'
      obtain ⟨key, value, hkv⟩ := hpair hdefines
      obtain ⟨key', value', hkv'⟩ := hpair hdefines'
      have htaken : (i, 0) ∈ (configValuesGet (some file) [some key, some key']).2.taken :=
        taken_of_filePieces hi hkv rfl
      have htaken' : (j, 1) ∈ (configValuesGet (some file) [some key, some key']).2.taken :=
        taken_of_filePieces hj hkv' rfl
      exact (h [some key, some key'] 1).2.2 _ htaken _ htaken' _ _ _ _ _ hi hj
  · intro h keys maxValueLen
    have hstart : TakesLines file (ConfigRead.start keys).taken :=
      ⟨fun x hx => (by cases hx), fun x hx => (by cases hx)⟩
    constructor
    · rw [configGetValue]
      split
      · exact hstart
      · exact h.takesLines (taken_configGetStep keys maxValueLen)
    · rw [configValuesGet]
      split
      · exact hstart
      · exact h.takesLines (taken_configValuesStep keys)

/-- A comment of 514 bytes. -/
def longComment : Bytes := 35 :: List.replicate 510 120 ++ ascii "k=v"

/-- The file is one line and a comment, and the value of `k` is taken from it. -/
theorem comment_defines_key :
    physicalLines 10 longComment = [longComment] ∧ isComment longComment = true ∧
    configGetValue (some longComment) [some (ascii "k")] 16 =
      (0, ⟨[some (ascii "v")], 1, [(1, 0)]⟩) ∧
    ¬ TakesLines longComment (configGetValue (some longComment) [some (ascii "k")] 16).2.taken := by
  have hread : configGetValue (some longComment) [some (ascii "k")] 16 =
      (0, ⟨[some (ascii "v")], 1, [(1, 0)]⟩) := by decide +kernel
  have hpiece : (filePieces longComment)[1]? = some (0, longComment, ascii "k=v") := by
    decide +kernel
  refine ⟨by decide +kernel, by decide +kernel, hread, ?_⟩
  rw [hread]
  rintro ⟨hlines, -⟩
  obtain ⟨n, line, piece, hget, hno⟩ := hlines (1, 0) (List.mem_singleton_self _)
  obtain ⟨rfl, rfl, rfl⟩ : 0 = n ∧ longComment = line ∧ ascii "k=v" = piece := by
    simpa using hpiece.symm.trans hget
  revert hno
  decide

end MaestroCore
