import Mathlib.Data.List.Basic
import MaestroCore.Lib.CLang

/-!
# Blocks of Memory

A block of allocated memory is a list of cells, of which some have never been written. `realloc`
keeps what fits of the old contents and adds cells that are indeterminate, and a copy into a
block fails where it does not lie within it.

The place of a write or a move is given by the cells before it, so that what an operation does
and what it leaves alone stand in one equation.

## Main results

* `reallocTo_block`: a size that blocks can have is granted.
* `store_realloc`: a block that is made larger and written from its old end on holds its old
  contents and what was written.
* `store_append` and `memmove_append`: a write and a move to the front, with the cells around
  them.
* `fetch_contents`, `store_contents` and `memmove_contents`: reading, extending and shortening the
  contents that a block starts with.
-/

open CLang (ptrdiffMax)

namespace Memory

variable {α : Type*}

/-- A block: a cell is `none` as long as its contents are indeterminate. -/
abbrev Block (α : Type*) := List (Option α)

/-- `realloc` of a block, or of `NULL`, that succeeds. -/
def realloc (old : Option (Block α)) (size : ℕ) : Block α :=
  let kept := (old.getD []).take size
  kept ++ List.replicate (size - kept.length) none

/-- What a request to change the size of a block comes to. -/
inductive Resized (α : Type*)
  | block (new : Block α)
  /-- `NULL`, and the old block is as it was. -/
  | refused
  /-- `NULL`, and the old block is gone. -/
  | freed

/-- `realloc` where only the size decides: what is too large is refused, and a size of zero
frees the old block. -/
def reallocTo (old : Option (Block α)) (size : ℕ) : Resized α :=
  if ptrdiffMax < size then .refused
  else if size = 0 ∧ old.isSome then .freed
  else .block (realloc old size)

/-- A size that blocks can have is granted. -/
theorem reallocTo_block {old : Option (Block α)} {size : ℕ} (hpos : 0 < size)
    (hmax : size ≤ ptrdiffMax) : reallocTo old size = .block (realloc old size) := by
  rw [reallocTo, if_neg (Nat.not_lt.mpr hmax), if_neg fun h => Nat.ne_of_gt hpos h.1]

/-- The bytes are written from the index `offset` on, `none` where this is not in the block. -/
def store (block : Block α) (offset : ℕ) (values : List α) : Option (Block α) :=
  if offset + values.length ≤ block.length then
    some (block.take offset ++ values.map some ++ block.drop (offset + values.length))
  else none

/-- The contents of the first `n` cells, `none` where one of them is not in the block or has
no contents. -/
def fetch : Block α → ℕ → Option (List α)
  | _, 0 => some []
  | some a :: block, n + 1 => (fetch block n).map (a :: ·)
  | _, _ + 1 => none

/-- The contents of a cell, `none` where there are none. -/
def load (block : Block α) (i : ℕ) : Option α := block[i]?.join

/-- `memmove` within a block, `none` where this is not in the block. -/
def memmove (block : Block α) (dst src n : ℕ) : Option (Block α) :=
  if dst + n ≤ block.length ∧ src + n ≤ block.length then
    some (block.take dst ++ (block.drop src).take n ++ block.drop (dst + n))
  else none

/-- A reallocated block has the new size. -/
theorem length_realloc (old : Option (Block α)) (size : ℕ) : (realloc old size).length = size := by
  simp only [realloc, List.length_append, List.length_replicate, List.length_take]
  omega

/-- Contents at the start of a block that fit are kept. -/
theorem take_realloc {old : Option (Block α)} {contents : List α} {size : ℕ}
    (h : (old.getD []).take contents.length = contents.map some) (hsize : contents.length ≤ size) :
    (realloc old size).take contents.length = contents.map some := by
  have hlength : contents.length ≤ (old.getD []).length := by
    have hle := congrArg List.length h
    rw [List.length_take, List.length_map] at hle
    omega
  have hkept : contents.length ≤ ((old.getD []).take size).length := by
    rw [List.length_take]
    omega
  rw [realloc, List.take_append_of_le_length hkept, List.take_take, Nat.min_eq_left hsize, h]

/-- What is written comes behind the contents before it. -/
theorem take_store {block block' : Block α} {contents values : List α}
    (h : block.take contents.length = contents.map some)
    (hstore : store block contents.length values = some block') :
    block'.take (contents ++ values).length = (contents ++ values).map some := by
  rw [store] at hstore
  split at hstore
  · rw [← Option.some.inj hstore, h, ← List.map_append]
    exact List.take_left' (by rw [List.length_map])
  · cases hstore

/-- A store does not change the size of the block. -/
theorem length_store {block block' : Block α} {offset : ℕ} {values : List α}
    (hstore : store block offset values = some block') : block'.length = block.length := by
  rw [store] at hstore
  split at hstore
  · rw [← Option.some.inj hstore]
    simp only [List.length_append, List.length_take, List.length_map, List.length_drop]
    omega
  · cases hstore

/-- **A block that grows**: made larger by the length of the values and one cell, and written
from the end of its contents on, it holds its contents, the values and the last one. -/
theorem store_realloc {old : Option (Block α)} {contents : List α}
    (h : (old.getD []).take contents.length = contents.map some) (values : List α) (last : α) :
    ∃ block, store (realloc old (contents.length + values.length + 1)) contents.length values =
        some block ∧
      store block (contents.length + values.length) [last] =
        some ((contents ++ values ++ [last]).map some) := by
  have hlength := length_realloc old (contents.length + values.length + 1)
  obtain ⟨block, hblock⟩ : ∃ block,
      store (realloc old (contents.length + values.length + 1)) contents.length values =
        some block := ⟨_, if_pos (by omega)⟩
  obtain ⟨block', hblock'⟩ : ∃ block',
      store block (contents.length + values.length) [last] = some block' :=
    ⟨_, if_pos (by rw [length_store hblock, hlength]; exact Nat.le_refl _)⟩
  have hvalues := take_store (take_realloc h (by omega)) hblock
  have hlast := take_store hvalues (by rw [List.length_append]; exact hblock')
  refine ⟨block, hblock, ?_⟩
  rw [hblock', ← hlast, List.take_of_length_le]
  rw [length_store hblock', length_store hblock, hlength, List.length_append, List.length_append]
  exact Nat.le_refl _

/-! ### Cells with others around them -/

/-- What stands at an offset is loaded. -/
theorem load_append (before : Block α) (a : α) (later : Block α) :
    load (before ++ some a :: later) before.length = some a := by
  simp [load]

/-- Writing over as many cells. -/
theorem store_append (before old later : Block α) (values : List α)
    (h : values.length = old.length) :
    store (before ++ (old ++ later)) before.length values =
      some (before ++ (values.map some ++ later)) := by
  rw [store, if_pos (by simp [h]), List.take_left' rfl, ← List.drop_drop, List.drop_left' rfl, h,
    List.drop_left' rfl, List.append_assoc]

/-- Moving cells to the front leaves the last ones as they were. -/
theorem memmove_append (before gap cells later : Block α) :
    memmove (before ++ (gap ++ cells ++ later)) before.length (before.length + gap.length)
        cells.length =
      some (before ++ (cells ++ ((gap ++ cells).drop cells.length ++ later))) := by
  have hdrop : (gap ++ cells ++ later).drop cells.length =
      (gap ++ cells).drop cells.length ++ later :=
    List.drop_append_of_le_length (by simp)
  rw [memmove, if_pos (by simp; omega), List.take_left' rfl, ← List.drop_drop, ← List.drop_drop,
    List.drop_left' rfl, hdrop, List.append_assoc gap, List.drop_left' rfl, List.take_left' rfl,
    List.append_assoc]

/-! ### Blocks that start with given contents -/

section Contents

variable {block : Block α} {contents values : List α} {n : ℕ}

/-- What a block starts with is fetched. -/
theorem fetch_contents (h : contents.map some <+: block) :
    fetch block contents.length = some contents := by
  obtain ⟨later, rfl⟩ := h
  induction contents with
  | nil => simp [fetch]
  | cons a contents ih => simp [fetch, ih]

/-- No more cells are read than there are. -/
theorem fetch_of_length_lt (h : block.length < n) : fetch block n = none := by
  induction block generalizing n with
  | nil =>
      cases n with
      | zero => simp at h
      | succ n => rfl
  | cons cell block ih =>
      cases n with
      | zero => simp at h
      | succ n =>
          cases cell with
          | none => rfl
          | some a => simp [fetch, ih (Nat.lt_of_succ_lt_succ h)]

/-- What is written behind the contents is added to them, where it fits. -/
theorem store_contents (h : contents.map some <+: block)
    (hfit : contents.length + values.length ≤ block.length) :
    ∃ block', store block contents.length values = some block' ∧
      (contents ++ values).map some <+: block' ∧ block'.length = block.length := by
  obtain ⟨block', hblock'⟩ : ∃ block', store block contents.length values = some block' :=
    ⟨_, if_pos hfit⟩
  have htake := take_store (by simpa using (List.prefix_iff_eq_take.mp h).symm) hblock'
  refine ⟨block', hblock', ?_, length_store hblock'⟩
  rw [← htake]
  exact List.take_prefix _ _

/-- Moving what comes after the first `n` cells to the front leaves a block that starts with
it. -/
theorem memmove_contents (h : contents.map some <+: block) (hn : n ≤ contents.length) :
    ∃ block', memmove block 0 n (contents.length - n) = some block' ∧
      (contents.drop n).map some <+: block' ∧ block'.length = block.length := by
  obtain ⟨later, rfl⟩ := h
  have hblock : contents.map some ++ later =
      (contents.take n).map some ++ (contents.drop n).map some ++ later := by
    rw [← List.map_append, List.take_append_drop]
  have hmove := memmove_append [] ((contents.take n).map some) ((contents.drop n).map some) later
  simp only [List.nil_append, List.length_nil, List.length_map, List.length_take,
    List.length_drop, Nat.zero_add, Nat.min_eq_left hn] at hmove
  rw [hblock, hmove]
  refine ⟨_, rfl, List.prefix_append _ _, ?_⟩
  simp only [List.length_append, List.length_map, List.length_drop, List.length_take]
  omega

end Contents

end Memory
