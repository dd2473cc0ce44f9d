import Mathlib.Data.List.Basic
import Mathlib.Data.Nat.Notation

/-!
# The Lines of a Text, Read in Pieces

A text is a list of lines, each of which ends with a given element except perhaps the last one.
A reader with a bounded buffer gets a line in pieces: `readPiece n` reads up to the end of the
line and at most `n` elements.

## Main results

* `readPieces_eq`: what such a reader gets from a text are the pieces of its lines, one line
  after the other.
* `physicalLines_splitOn`: the lines are what stands between the ends of lines.
* `countP_le_one_iff`: at most one element of a list has a property iff no two places have it.
-/

namespace Lines

/-! ### Pieces of a line -/

section Pieces

variable {α : Type*}

/-- The pieces of a line that have `size` elements, and what is left; the first argument bounds
their number. -/
def piecesLoop (size : ℕ) : ℕ → List α → List (List α)
  | 0, _ => []
  | fuel + 1, line =>
      match line with
      | [] => []
      | b :: line => (b :: line).take size :: piecesLoop size fuel ((b :: line).drop size)

/-- The pieces of a line. -/
def linePieces (size : ℕ) (line : List α) : List (List α) := piecesLoop size line.length line

/-- Fuel for the length of the line is enough. -/
theorem piecesLoop_congr {size fuel fuel' : ℕ} (hsize : 0 < size) {line : List α}
    (h : line.length ≤ fuel) (h' : line.length ≤ fuel') :
    piecesLoop size fuel line = piecesLoop size fuel' line := by
  induction fuel generalizing fuel' line with
  | zero =>
      obtain rfl : line = [] := List.length_eq_zero_iff.mp (by omega)
      cases fuel' <;> rfl
  | succ fuel ih =>
      cases line with
      | nil => cases fuel' <;> rfl
      | cons b line =>
          rw [List.length_cons] at h h'
          obtain ⟨k, rfl⟩ : ∃ k, fuel' = k + 1 := ⟨fuel' - 1, by omega⟩
          have hdrop : ((b :: line).drop size).length ≤ line.length := by
            rw [List.length_drop, List.length_cons]
            omega
          have hsame : piecesLoop size fuel ((b :: line).drop size) =
              piecesLoop size k ((b :: line).drop size) := ih (by omega) (by omega)
          rw [piecesLoop, piecesLoop, hsame]

/-- The pieces of a line are its start and the pieces of the rest. -/
theorem linePieces_eq {size : ℕ} (hsize : 0 < size) {line : List α} (h : line ≠ []) :
    linePieces size line = line.take size :: linePieces size (line.drop size) := by
  obtain ⟨b, line, rfl⟩ := List.exists_cons_of_ne_nil h
  have hdrop : ((b :: line).drop size).length ≤ line.length := by
    rw [List.length_drop, List.length_cons]
    omega
  rw [linePieces, linePieces, List.length_cons, piecesLoop,
    piecesLoop_congr hsize hdrop (Nat.le_refl _)]

/-- A line that is not longer than a piece is one piece. -/
theorem linePieces_of_short {size : ℕ} {line : List α} (hne : line ≠ [])
    (h : line.length ≤ size) : linePieces size line = [line] := by
  have hpos : 0 < size := Nat.lt_of_lt_of_le (List.length_pos_iff.mpr hne) h
  rw [linePieces_eq hpos hne, List.drop_of_length_le h, List.take_of_length_le h]
  rfl

/-- The pieces of some lines, each with its line and the number of the line, counted from `n`
on. -/
def numberedPieces (size : ℕ) : ℕ → List (List α) → List (ℕ × List α × List α)
  | _, [] => []
  | n, line :: lines =>
      (linePieces size line).map (fun piece => (n, line, piece)) ++
        numberedPieces size (n + 1) lines

/-- Without their numbers the numbered pieces are the pieces of the lines. -/
theorem map_numberedPieces (size n : ℕ) (lines : List (List α)) :
    (numberedPieces size n lines).map (fun x => x.2.2) = lines.flatMap (linePieces size) := by
  induction lines generalizing n with
  | nil => rfl
  | cons line lines ih =>
      rw [numberedPieces, List.map_append, ih, List.flatMap_cons, List.map_map]
      congr 1
      exact List.map_id _

/-- The number of a piece is the one of its line. -/
theorem line_of_mem_numberedPieces {size n : ℕ} {lines : List (List α)}
    {x : ℕ × List α × List α} (h : x ∈ numberedPieces size n lines) :
    n ≤ x.1 ∧ lines[x.1 - n]? = some x.2.1 := by
  induction lines generalizing n with
  | nil => cases h
  | cons line lines ih =>
      rcases List.mem_append.mp h with h | h
      · obtain ⟨piece, -, rfl⟩ := List.mem_map.mp h
        exact ⟨Nat.le_refl _, by simp⟩
      · obtain ⟨hle, hget⟩ := ih h
        refine ⟨by omega, ?_⟩
        rw [show x.1 - n = x.1 - (n + 1) + 1 by omega]
        exact hget

/-- The pieces with the number of a line are the pieces of the line. -/
theorem countP_numberedPieces {size n k : ℕ} {lines : List (List α)} {line : List α}
    (hk : n ≤ k) (h : lines[k - n]? = some line) (q : List α → Bool) :
    (numberedPieces size n lines).countP (fun x => x.1 = k && q x.2.2) =
      (linePieces size line).countP q := by
  induction lines generalizing n with
  | nil => cases h
  | cons l lines ih =>
      rw [numberedPieces, List.countP_append, List.countP_map]
      rcases Nat.eq_or_lt_of_le hk with rfl | hlt
      · rw [Nat.sub_self] at h
        obtain rfl : l = line := Option.some.inj h
        have hlater :
            (numberedPieces size (n + 1) lines).countP (fun x => x.1 = n && q x.2.2) = 0 := by
          rw [List.countP_eq_zero]
          intro x hx
          have hle := (line_of_mem_numberedPieces hx).1
          simp only [Bool.and_eq_true, decide_eq_true_eq, not_and]
          omega
        rw [hlater, Nat.add_zero]
        refine List.countP_congr fun piece _ => ?_
        simp
      · have hfirst : (linePieces size l).countP
            ((fun x : ℕ × List α × List α => decide (x.1 = k) && q x.2.2) ∘
              fun piece => (n, l, piece)) = 0 := by
          rw [List.countP_eq_zero]
          intro piece _
          simp only [Function.comp_apply, Bool.and_eq_true, decide_eq_true_eq, not_and]
          omega
        rw [hfirst, Nat.zero_add]
        refine ih (by omega) ?_
        rw [show k - n = k - (n + 1) + 1 by omega] at h
        exact h

end Pieces

/-! ### Lines of a text -/

section Text

variable {α : Type*} [DecidableEq α] (eol : α)

/-- The first line of a text, with its end. -/
def firstLine : List α → List α
  | [] => []
  | b :: s => if b = eol then [b] else b :: firstLine s

/-- The lines of a text, with their ends. -/
def physicalLines : List α → List (List α)
  | [] => []
  | b :: s =>
      if b = eol then [b] :: physicalLines s
      else
        match physicalLines s with
        | [] => [[b]]
        | line :: lines => (b :: line) :: lines

/-- Read up to the end of the line and at most `n` elements: what was read, and the rest. -/
def readPiece : ℕ → List α → List α × List α
  | 0, s => ([], s)
  | _ + 1, [] => ([], [])
  | n + 1, b :: s =>
      if b = eol then ([b], s) else (b :: (readPiece n s).1, (readPiece n s).2)

/-- Read a text piece by piece; the first argument bounds their number. -/
def readLoop (size : ℕ) : ℕ → List α → List (List α)
  | 0, _ => []
  | fuel + 1, s =>
      if s = [] then []
      else (readPiece eol size s).1 :: readLoop size fuel (readPiece eol size s).2

/-- Read a whole text. -/
def readPieces (size : ℕ) (s : List α) : List (List α) := readLoop eol size s.length s

/-! ### The first line -/

variable {eol}

/-- The first line of a text that is not empty is not empty. -/
theorem firstLine_ne_nil {s : List α} (h : s ≠ []) : firstLine eol s ≠ [] := by
  cases s with
  | nil => exact absurd rfl h
  | cons b s =>
      rw [firstLine]
      split <;> exact List.cons_ne_nil _ _

/-- The lines of a text are its first line and the lines of the rest. -/
theorem physicalLines_eq {s : List α} (h : s ≠ []) :
    physicalLines eol s =
      firstLine eol s :: physicalLines eol (s.drop (firstLine eol s).length) := by
  induction s with
  | nil => exact absurd rfl h
  | cons b s ih =>
      rw [physicalLines, firstLine]
      split
      · rfl
      · by_cases hs : s = []
        · subst hs
          rfl
        · rw [ih hs, List.length_cons, List.drop_succ_cons]

/-- A piece is the start of the first line. -/
theorem readPiece_eq (n : ℕ) (s : List α) :
    readPiece eol n s =
      ((firstLine eol s).take n, s.drop (min n (firstLine eol s).length)) := by
  induction n generalizing s with
  | zero => rw [readPiece, List.take_zero, Nat.zero_min, List.drop_zero]
  | succ n ih =>
      cases s with
      | nil => rfl
      | cons b s =>
          rw [readPiece, firstLine]
          split
          · simp
          · rw [ih, List.take_succ_cons, List.length_cons, Nat.succ_min_succ, List.drop_succ_cons]

/-- What is left of the first line is the first line of the rest. -/
theorem firstLine_drop {n : ℕ} {s : List α} (h : n < (firstLine eol s).length) :
    firstLine eol (s.drop n) = (firstLine eol s).drop n := by
  induction n generalizing s with
  | zero => rw [List.drop_zero, List.drop_zero]
  | succ n ih =>
      cases s with
      | nil => cases h
      | cons b s =>
          rw [firstLine] at h ⊢
          split at h
          · simp at h
          · rw [if_neg (by assumption), List.drop_succ_cons, List.drop_succ_cons]
            exact ih (by simpa using h)

/-- **A reader gets the pieces of the lines, one line after the other.** -/
theorem readLoop_eq {size fuel : ℕ} (hsize : 0 < size) {s : List α} (h : s.length ≤ fuel) :
    readLoop eol size fuel s = (physicalLines eol s).flatMap (linePieces size) := by
  induction fuel generalizing s with
  | zero =>
      obtain rfl : s = [] := List.length_eq_zero_iff.mp (by omega)
      rfl
  | succ fuel ih =>
      by_cases hs : s = []
      · subst hs
        rfl
      · have hne : firstLine eol s ≠ [] := firstLine_ne_nil hs
        have hpos := List.length_pos_iff.mpr hne
        have hpos' := List.length_pos_iff.mpr hs
        rw [readLoop, if_neg hs, readPiece_eq]
        simp only
        rw [ih (by rw [List.length_drop]; omega), physicalLines_eq hs, List.flatMap_cons,
          linePieces_eq hsize hne, List.cons_append]
        congr 1
        by_cases hlong : size < (firstLine eol s).length
        · -- the rest of the text starts with the rest of the line
          have hrest : s.drop size ≠ [] := by
            intro hnil
            have hfirst := firstLine_drop hlong
            rw [hnil, firstLine] at hfirst
            have := congrArg List.length hfirst
            rw [List.length_nil, List.length_drop] at this
            omega
          rw [Nat.min_eq_left (Nat.le_of_lt hlong), physicalLines_eq hrest, firstLine_drop hlong,
            List.flatMap_cons, List.drop_drop, List.length_drop,
            Nat.add_sub_cancel' (Nat.le_of_lt hlong)]
        · have hnil : (firstLine eol s).drop size = [] := List.drop_of_length_le (by omega)
          rw [Nat.min_eq_right (by omega), hnil]
          rfl

/-- Reading in pieces cuts each physical line into pieces. -/
theorem readPieces_eq {size : ℕ} (hsize : 0 < size) (s : List α) :
    readPieces eol size s = (physicalLines eol s).flatMap (linePieces size) :=
  readLoop_eq hsize (Nat.le_refl _)

/-- The lines are what stands between the ends of lines, each with its end; the last one has
none, and is no line when it is empty. -/
theorem physicalLines_splitOn (eol : α) (s : List α) :
    ∃ lines last, s.splitOn eol = lines ++ [last] ∧
      physicalLines eol s =
        lines.map (fun line => line ++ [eol]) ++ if last = [] then [] else [last] := by
  induction s with
  | nil => exact ⟨[], [], rfl, rfl⟩
  | cons b s ih =>
      obtain ⟨lines, last, hsplit, hlines⟩ := ih
      rw [List.splitOn_cons_eq_if_modifyHead, physicalLines, hsplit, hlines]
      by_cases hb : b = eol
      · exact ⟨[] :: lines, last, by simp [hb], by simp [hb]⟩
      · rw [if_neg hb]
        cases lines with
        | nil =>
            refine ⟨[], b :: last, by simp [hb], ?_⟩
            by_cases hlast : last = [] <;> simp [hlast]
        | cons line lines => exact ⟨(b :: line) :: lines, last, by simp [hb], by simp⟩

/-- The bytes of a line are bytes of the text. -/
theorem mem_of_mem_splitOn {s line : List α} {b : α} (hline : line ∈ s.splitOn eol)
    (hb : b ∈ line) : b ∈ s := by
  induction s generalizing line with
  | nil => simp_all
  | cons c s ih =>
      rw [List.splitOn_cons_eq_if_modifyHead] at hline
      split at hline
      · rcases List.mem_cons.mp hline with rfl | hline
        · cases hb
        · exact List.mem_cons_of_mem _ (ih hline hb)
      · obtain ⟨first, lines, hsplit⟩ := List.exists_cons_of_ne_nil (List.splitOn_ne_nil eol s)
        rw [hsplit, List.modifyHead_cons] at hline
        rcases List.mem_cons.mp hline with rfl | hline
        · rcases List.mem_cons.mp hb with rfl | hb
          · exact List.mem_cons_self
          · exact List.mem_cons_of_mem _ (ih (by rw [hsplit]; exact List.mem_cons_self) hb)
        · exact List.mem_cons_of_mem _ (ih (by rw [hsplit]; exact List.mem_cons_of_mem _ hline) hb)

/-- A reader gets no more than its buffer holds. -/
theorem length_le_of_mem_readLoop {size fuel : ℕ} {s piece : List α}
    (h : piece ∈ readLoop eol size fuel s) : piece.length ≤ size := by
  induction fuel generalizing s with
  | zero => cases h
  | succ fuel ih =>
      rw [readLoop] at h
      split at h
      · cases h
      · rcases List.mem_cons.mp h with rfl | h
        · rw [readPiece_eq]
          exact List.length_take_le _ _
        · exact ih h

end Text

/-! ### At most one place -/

/-- **At most one element of a list has a property iff no two places have it.** -/
theorem countP_le_one_iff {β : Type*} {l : List β} {p : β → Bool} :
    l.countP p ≤ 1 ↔
      ∀ (i j : ℕ) (x y : β), l[i]? = some x → l[j]? = some y → p x = true → p y = true → i = j := by
  induction l with
  | nil => simp
  | cons a l ih =>
      rw [List.countP_cons]
      by_cases ha : p a = true
      · rw [if_pos ha]
        constructor
        · intro hle i j x y hx hy hpx hpy
          have hzero : ∀ z ∈ l, ¬ p z = true := by
            rw [← List.countP_eq_zero]
            omega
          have hfirst : ∀ {k z}, (a :: l)[k]? = some z → p z = true → k = 0 := by
            intro k z hz hpz
            cases k with
            | zero => rfl
            | succ k => exact absurd hpz (hzero z (List.mem_of_getElem? hz))
          rw [hfirst hx hpx, hfirst hy hpy]
        · intro hone
          have hzero : l.countP p = 0 := by
            rw [List.countP_eq_zero]
            intro z hz hpz
            obtain ⟨k, hk⟩ := List.mem_iff_getElem?.mp hz
            exact absurd (hone 0 (k + 1) a z rfl hk ha hpz) (by omega)
          omega
      · rw [if_neg ha, Nat.add_zero, ih]
        constructor
        · intro hone i j x y hx hy hpx hpy
          cases i with
          | zero =>
              obtain rfl := Option.some.inj hx
              exact absurd hpx ha
          | succ i =>
              cases j with
              | zero =>
                  obtain rfl := Option.some.inj hy
                  exact absurd hpy ha
              | succ j => rw [hone i j x y hx hy hpx hpy]
        · intro hone i j x y hx hy hpx hpy
          exact Nat.succ.inj (hone (i + 1) (j + 1) x y hx hy hpx hpy)

end Lines
