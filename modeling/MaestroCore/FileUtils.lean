import Mathlib.Tactic.Abel
import MaestroCore.Lib.CLang
import MaestroCore.Lib.Heap

/-!
# Files and Directories

The functions of `file_utils.c` that read a directory or a file, with every request that they
make of the system: handles, the array of the names, its copies when it grows, and the copies of
the names. A request may be refused at any point.

`list_filenames_with_ext` doubles an array while it reads, and makes room for a terminator at
the end. When a request is refused on the way it frees what it has built; when the last one is
refused it returns the names without a terminator. `count_files_with_extension` looks at the
type of an entry only where the headers define `DT_REG`. `read_file_to_string` does not look at
the size that it is told, which is -1 for a pipe.

## Main results

* `filenames_no_leak`: whatever is refused, the listing owns its names or nothing, and nothing
  is left when its caller has freed them.
* `hasExtension_iff`: a name has an extension iff it ends in a dot and the extension.
* `directory_readers_agree_iff`: the number of files is that of the names listed, unless types
  are looked at and a name is not that of a regular file.
* `read_file_text_iff`: what is read of a file, in which cases, without a write beyond a block.
-/

open CLang Ownership

namespace MaestroCore

/-! ### Directory entries -/

/-- `d_type`. -/
inductive EntryType
  /-- `DT_REG`. -/
  | regular
  /-- `DT_UNKNOWN`. -/
  | unknown
  /-- Any other type. -/
  | other
  deriving DecidableEq, Repr

/-- `struct dirent`. The name is given without its NUL. -/
structure Dirent where
  name : Bytes
  type : EntryType
  deriving DecidableEq, Repr

/-- `strcmp(name, ".") == 0 || strcmp(name, "..") == 0`. -/
def isDots (name : Bytes) : Bool := name = ascii "." || name = ascii ".."

/-- `has_extension`. -/
def hasExtension (name ext : Bytes) : Bool :=
  if name.length < ext.length + 1 then false
  else if name[name.length - ext.length - 1]? ≠ some 46 then false
  else name.drop (name.length - ext.length) = ext

/-- Whether `count_files_with_extension` counts the entry. The test of the type stands under
`#ifdef DT_REG`. -/
def countsFile (dtReg : Bool) (ext : Bytes) (entry : Dirent) : Bool :=
  if isDots entry.name then false
  else if dtReg ∧ entry.type ≠ .regular ∧ entry.type ≠ .unknown then false
  else if ext.length ≤ entry.name.length then
    entry.name.drop (entry.name.length - ext.length) = ext
  else false

/-- The loop of `count_files_with_extension`. -/
def countFilesLoop (dtReg : Bool) (ext : Bytes) : List Dirent → ℤ → ℤ
  | [], count => count
  | entry :: rest, count =>
      countFilesLoop dtReg ext rest
        (if countsFile dtReg ext entry then toInt (count + 1) else count)

/-! ### The programs -/

/-- What is asked of the system. -/
inductive FileRequest
  /-- The handle of an open directory or file. -/
  | handle
  /-- The array of the names. -/
  | array
  /-- The copy of a name. -/
  | name
  /-- The array with room for its terminator. -/
  | terminator
  /-- The contents of a file. -/
  | text
  deriving DecidableEq, Repr

/-- A program that reads a directory. It has no faults but those of the heap. -/
abbrev FileM (α : Type) := HeapM FileRequest Empty α

/-- `count_files_with_extension`, compiled with `DT_REG` or without. It takes the length of the
extension before it looks whether there is one. -/
def countFilesWithExtension (dtReg : Bool) (entries : Bytes → List Dirent)
    (dirpath ext : Option Bytes) : FileM ℤ :=
  match ext, dirpath with
  | none, _ => do
      deref none
      pure (-1)
  | some _, none => pure (-1)
  | some ext, some path => do
      match ← malloc .handle with
      | none => pure (-1)
      | some dir => do
          use dir
          free dir
          pure (countFilesLoop dtReg ext (entries path) 0)

/-- The local variables of `list_filenames_with_ext`. -/
structure NameArray where
  /-- `result`. -/
  array : Option Block := none
  capacity : ℕ := 0
  /-- The names up to `count`, with the blocks of their copies. -/
  names : List (Block × Bytes) := []
  deriving DecidableEq, Repr

/-- What `list_filenames_with_ext` returns. -/
structure Filenames where
  array : Option Block := none
  names : List (Block × Bytes) := []
  /-- The names are followed by `NULL`. -/
  terminated : Bool := false
  /-- `*_count_out`, if it has been set. -/
  countOut : Option ℕ := none
  deriving DecidableEq, Repr

/-- A write to a slot of an array of pointers. One beyond the end is a fault. -/
def writeSlot (array : Option Block) (i capacity : ℕ) : FileM Unit :=
  if i < capacity then deref array else fun _ => .error (.pointer array)

/-- `for (size_t i = 0; i < count; i++) free(result[i])`. -/
def freeNames (array : Option Block) : List (Block × Bytes) → FileM Unit
  | [] => pure ()
  | x :: names => do
      deref array
      free x.1
      freeNames array names

/-- The end of `list_filenames_with_ext` after a request has been refused. -/
def abandonNames (dir : Block) (a : NameArray) : FileM (Option NameArray) := do
  freeNames a.array a.names
  freeOpt a.array
  free dir
  pure none

/-- `if (count == capacity)`: the array grows. -/
def growNames (a : NameArray) : FileM (Option NameArray) :=
  if a.names.length = a.capacity then do
    let newCap := if a.capacity = 0 then 8 else a.capacity * 2
    match ← realloc a.array .array with
    | none => pure none
    | some tmp => pure (some { a with array := some tmp, capacity := newCap })
  else pure (some a)

/-- The loop of `list_filenames_with_ext`, `none` when it has returned `NULL`. -/
def listFilenamesLoop (dir : Block) (ext : Bytes) :
    List Dirent → NameArray → FileM (Option NameArray)
  | [], a => pure (some a)
  | entry :: rest, a => do
      use dir
      if isDots entry.name then listFilenamesLoop dir ext rest a
      else if !hasExtension entry.name ext then listFilenamesLoop dir ext rest a
      else
        match ← growNames a with
        | none => abandonNames dir a
        | some a => do
            let name ← malloc .name
            writeSlot a.array a.names.length a.capacity
            match name with
            | none => abandonNames dir a
            | some name =>
                listFilenamesLoop dir ext rest { a with names := a.names ++ [(name, entry.name)] }

/-- `list_filenames_with_ext`. -/
def listFilenamesWithExt (entries : Bytes → List Dirent) (dirpath ext : Option Bytes)
    (countOut : Bool) : FileM Filenames :=
  match dirpath, ext, countOut with
  | some path, some ext, true => do
      match ← malloc .handle with
      | none => pure { countOut := some 0 }
      | some dir => do
          match ← listFilenamesLoop dir ext (entries path) {} with
          | none => pure { countOut := some 0 }
          | some a => do
              free dir
              match ← realloc a.array .terminator with
              | none =>
                  pure { array := a.array, names := a.names, countOut := some a.names.length }
              | some tmp => do
                  writeSlot (some tmp) a.names.length (a.names.length + 1)
                  pure {
                    array := some tmp
                    names := a.names
                    terminated := true
                    countOut := some a.names.length }
  | _, _, _ => pure {}

/-- "Caller must free each element and the array itself." -/
def freeFilenames (l : Filenames) : FileM Unit := do
  freeNames l.array l.names
  freeOpt l.array

/-! ### The blocks of a listing -/

/-- The blocks of the copies. -/
def nameBlocks : List (Block × Bytes) → Multiset Block
  | [] => 0
  | x :: names => x.1 ::ₘ nameBlocks names

/-- The blocks that a listing has while it is made. -/
def NameArray.blocks (a : NameArray) : Multiset Block := nameBlocks a.names + blockOf a.array

/-- The blocks that the caller is handed over. -/
def Filenames.blocks (l : Filenames) : Multiset Block := nameBlocks l.names + blockOf l.array

/-- The names fit into the array, and there is an array if there is a name. -/
structure NameArray.Sound (a : NameArray) : Prop where
  fits : a.names.length ≤ a.capacity
  backed : a.array = none → a.capacity = 0

/-- The names of the entries that have the extension, in the order of the directory. -/
def filenames (ext : Bytes) (entries : List Dirent) : List Bytes :=
  (entries.filter fun entry => !isDots entry.name && hasExtension entry.name ext).map Dirent.name

/-- A name added at the end adds its block to the blocks of the names. -/
theorem nameBlocks_append (names : List (Block × Bytes)) (x : Block × Bytes) :
    nameBlocks (names ++ [x]) = x.1 ::ₘ nameBlocks names := by
  induction names with
  | nil => rfl
  | cons y names ih => rw [List.cons_append, nameBlocks, ih, nameBlocks, Multiset.cons_swap]

/-- What one directory entry adds to the matching names: nothing when it is a dot entry or has
another extension, its own name otherwise. -/
theorem filenames_cons (ext : Bytes) (entry : Dirent) (rest : List Dirent) :
    filenames ext (entry :: rest) =
      if isDots entry.name then filenames ext rest
      else if !hasExtension entry.name ext then filenames ext rest
      else entry.name :: filenames ext rest := by
  rw [filenames, List.filter_cons]
  cases isDots entry.name <;> cases hasExtension entry.name ext <;> rfl

/-! ### What the programs own -/

section Owns

variable {cost : FileRequest → ℕ} {P : Multiset Block} {β : Type}
  {S : β → Multiset Block → Prop} {dir : Block} {ext : Bytes} {a : NameArray}

/-- Freeing the names is legal while the array that holds them is owned. -/
theorem owns_freeNames {array : Option Block} {names : List (Block × Bytes)} {f : Unit → FileM β}
    (harray : names ≠ [] → ∃ b ∈ P, array = some b) (hf : Owns cost P (f ()) S) :
    Owns cost (nameBlocks names + P) (freeNames array names >>= f) S := by
  induction names with
  | nil =>
      rw [nameBlocks, zero_add]
      exact hf
  | cons x names ih =>
      obtain ⟨b, hb, hsome⟩ := harray (List.cons_ne_nil _ _)
      simp only [freeNames, bind_assoc, nameBlocks, Multiset.cons_add]
      refine .deref ⟨b, ?_, hsome⟩ (.free (ih fun _ => ⟨b, hb, hsome⟩))
      exact Multiset.mem_cons_of_mem (Multiset.mem_add.mpr (Or.inr hb))

/-- A listing with names has an array. -/
theorem NameArray.Sound.exists_array (h : a.Sound) (hpos : 0 < a.capacity) :
    ∃ b, a.array = some b := by
  cases harray : a.array with
  | none => exact absurd (h.backed harray) (Nat.ne_of_gt hpos)
  | some b => exact ⟨b, rfl⟩

/-- Freeing the names and then the array leaves only the caller's blocks. -/
theorem owns_freeArray {array : Option Block} {names : List (Block × Bytes)} {f : Unit → FileM β}
    (harray : names ≠ [] → ∃ b, array = some b) (hf : Owns cost P (f ()) S) :
    Owns cost (nameBlocks names + blockOf array + P)
      (freeNames array names >>= fun _ => freeOpt array >>= f) S := by
  rw [add_assoc]
  refine owns_freeNames (fun hne => ?_) (.freeOpt hf)
  obtain ⟨b, rfl⟩ := harray hne
  exact ⟨b, by simp, rfl⟩

/-- **A listing that is abandoned** frees all that it has. -/
theorem owns_abandonNames {f : Option NameArray → FileM β} (h : a.Sound)
    (hf : Owns cost P (f none) S) :
    Owns cost (a.blocks + (dir ::ₘ P)) (abandonNames dir a >>= f) S := by
  simp only [abandonNames, bind_assoc, pure_bind]
  refine owns_freeArray (fun hne => h.exists_array ?_) (.free hf)
  exact (List.length_pos_iff.mpr hne).trans_le h.fits

/-- **The array grows** when it is full. -/
theorem owns_growNames {f : Option NameArray → FileM β} (hcost : ∀ k, cost k = 0) (h : a.Sound)
    (hsome : ∀ a' : NameArray, a'.Sound → a'.names = a.names → a'.names.length < a'.capacity →
      Owns cost (a'.blocks + P) (f (some a')) S)
    (hnone : Owns cost (a.blocks + P) (f none) S) :
    Owns cost (a.blocks + P) (growNames a >>= f) S := by
  rw [growNames]
  split
  · rename_i hfull
    simp only [bind_assoc]
    have hsplit : a.blocks + P = blockOf a.array + (nameBlocks a.names + P) := by
      rw [NameArray.blocks]
      abel
    rw [hsplit] at hnone ⊢
    refine .realloc (hcost _) (fun b => ?_) ?_
    · simp only [pure_bind]
      have hroom : a.names.length < if a.capacity = 0 then 8 else a.capacity * 2 := by
        split <;> omega
      refine (hsome ⟨some b, _, a.names⟩ ⟨hroom.le, nofun⟩ rfl hroom).congr ?_
      rw [NameArray.blocks, blockOf_some, ← Multiset.singleton_add]
      abel
    · simp only [pure_bind]
      exact hnone
  · rename_i hroom
    rw [pure_bind]
    exact hsome a h rfl (lt_of_le_of_ne h.fits hroom)

/-- A write into a slot below the capacity stays inside the array. -/
theorem owns_writeSlot {array : Option Block} {i capacity : ℕ} {f : Unit → FileM β}
    (hi : i < capacity) (harray : ∃ b ∈ P, array = some b) (hf : Owns cost P (f ()) S) :
    Owns cost P (writeSlot array i capacity >>= f) S := by
  rw [writeSlot, if_pos hi]
  exact .deref harray hf

/-- What the loop hands over: nothing, or a listing with the names. -/
def Listed (dir : Block) (names : List Bytes) (o : Option NameArray) (R : Multiset Block) : Prop :=
  o = none ∧ R = 0 ∨
    ∃ a, o = some a ∧ R = a.blocks + {dir} ∧ a.Sound ∧ a.names.map Prod.snd = names

/-- A listing that gives up frees its names, its array and the directory. -/
theorem owns_abandoned (h : a.Sound) (names : List Bytes) :
    Owns cost (a.blocks + {dir}) (abandonNames dir a) (Listed dir names) := by
  have hlast : Owns cost (a.blocks + (dir ::ₘ 0)) (abandonNames dir a >>= pure)
      (Listed dir names) := owns_abandonNames h (.pure (Or.inl ⟨rfl, rfl⟩))
  exact .last hlast

/-- **The loop** hands over the names that have the extension, or nothing. -/
theorem owns_listFilenamesLoop (hcost : ∀ k, cost k = 0) (h : a.Sound) (entries : List Dirent) :
    Owns cost (a.blocks + {dir}) (listFilenamesLoop dir ext entries a)
      (Listed dir (a.names.map Prod.snd ++ filenames ext entries)) := by
  induction entries generalizing a with
  | nil => exact .pure (Or.inr ⟨a, rfl, rfl, h, (List.append_nil _).symm⟩)
  | cons entry rest ih =>
      rw [listFilenamesLoop, filenames_cons]
      refine .use (by simp) ?_
      split
      · exact ih h
      · split
        · exact ih h
        · refine owns_growNames hcost h (fun a' hsound hnames hroom => ?_) (owns_abandoned h _)
          refine .malloc_any (hcost _) fun name => ?_
          obtain ⟨b, hb⟩ := hsound.exists_array (Nat.zero_lt_of_lt hroom)
          refine owns_writeSlot hroom ⟨b, by simp [NameArray.blocks, hb], hb⟩ ?_
          cases name with
          | none =>
              rw [blockOf_none, zero_add]
              exact owns_abandoned hsound _
          | some name =>
              have hlonger : NameArray.Sound
                  { a' with names := a'.names ++ [(name, entry.name)] } :=
                ⟨by rw [List.length_append]; exact hroom, hsound.backed⟩
              have hrest := ih hlonger
              rw [List.map_append, List.append_assoc] at hrest
              rw [← hnames]
              refine hrest.congr ?_
              simp only [NameArray.blocks, nameBlocks_append, blockOf_some,
                ← Multiset.singleton_add]
              abel

/-- What the caller is handed over: the names, or nothing. -/
structure Handed (ext : Bytes) (entries : List Dirent) (l : Filenames) : Prop where
  count : l.countOut = some l.names.length
  whole : l.names.map Prod.snd = filenames ext entries ∨ l = { countOut := some 0 }
  array : l.names ≠ [] → ∃ b, l.array = some b

/-- The listing owns exactly the array and the names it hands over, and those are names of the
directory. -/
theorem owns_listFilenamesWithExt (hcost : ∀ k, cost k = 0) (entries : Bytes → List Dirent)
    (path ext : Bytes) :
    Owns cost 0 (listFilenamesWithExt entries (some path) (some ext) true) fun l R =>
      R = l.blocks ∧ Handed ext (entries path) l := by
  rw [listFilenamesWithExt]
  have hnothing : Handed ext (entries path) { countOut := some 0 } :=
    ⟨rfl, Or.inr rfl, fun hne => absurd rfl hne⟩
  refine .malloc_free (hcost _) (fun dir => ?_) (.pure ⟨rfl, hnothing⟩)
  have hloop : Owns cost (dir ::ₘ 0) (listFilenamesLoop dir ext (entries path) {})
      (Listed dir (filenames ext (entries path))) :=
    owns_listFilenamesLoop (a := {}) hcost ⟨le_refl _, fun _ => rfl⟩ (entries path)
  refine .bind hloop fun o R hR => ?_
  rcases hR with ⟨rfl, rfl⟩ | ⟨a, rfl, rfl, hsound, hnames⟩
  · exact .pure ⟨rfl, hnothing⟩
  · have harray : a.names ≠ [] → ∃ b, a.array = some b := fun hne =>
      hsound.exists_array ((List.length_pos_iff.mpr hne).trans_le hsound.fits)
    have hblocks : a.blocks + {dir} = dir ::ₘ (blockOf a.array + nameBlocks a.names) := by
      rw [NameArray.blocks, ← Multiset.singleton_add]
      abel
    rw [hblocks]
    refine .free (.realloc (hcost _) (fun tmp => ?_) ?_)
    · refine owns_writeSlot (Nat.lt_succ_self _) ⟨tmp, Multiset.mem_cons_self _ _, rfl⟩ ?_
      refine .pure ⟨?_, rfl, Or.inl hnames, fun _ => ⟨tmp, rfl⟩⟩
      rw [Filenames.blocks, blockOf_some, ← Multiset.singleton_add, add_comm]
    · exact .pure ⟨add_comm _ _, rfl, Or.inl hnames, harray⟩

end Owns

/-! ### Systems that refuse nothing -/

section Refines

variable {β δ : Type} {T : β → δ → Prop} {r : Except Empty δ} {dir : Block} {ext : Bytes}
  {a : NameArray}

/-- Writing a slot does not show in the result. -/
theorem refines_writeSlot {array : Option Block} {i capacity : ℕ} {f : Unit → FileM β}
    (hf : Refines (f ()) r T) : Refines (writeSlot array i capacity >>= f) r T := by
  rw [writeSlot]
  split
  · exact .deref hf
  · exact fun _ _ => trivial

/-- Growing the array keeps the names it holds. -/
theorem refines_growNames {f : Option NameArray → FileM β}
    (hsome : ∀ a' : NameArray, a'.names = a.names → Refines (f (some a')) r T) :
    Refines (growNames a >>= f) r T := by
  rw [growNames]
  split
  · simp only [bind_assoc]
    refine .realloc fun b => ?_
    rw [pure_bind]
    exact hsome _ rfl
  · rw [pure_bind]
    exact hsome a rfl

/-- The loop reads all names. -/
theorem refines_listFilenamesLoop (entries : List Dirent) :
    Refines (listFilenamesLoop dir ext entries a)
      (.ok (a.names.map Prod.snd ++ filenames ext entries))
      fun o names => ∃ a', o = some a' ∧ a'.names.map Prod.snd = names := by
  induction entries generalizing a with
  | nil => exact .pure ⟨a, rfl, (List.append_nil _).symm⟩
  | cons entry rest ih =>
      rw [listFilenamesLoop, filenames_cons]
      refine .use ?_
      split
      · exact ih
      · split
        · exact ih
        · refine refines_growNames fun a' hnames => .malloc fun name => refines_writeSlot ?_
          have hrest := ih (a := { a' with names := a'.names ++ [(name, entry.name)] })
          rw [List.map_append, List.append_assoc] at hrest
          rw [← hnames]
          exact hrest

/-- With every request granted the listing is the terminated array of the directory's matching
names. -/
theorem refines_listFilenamesWithExt (entries : Bytes → List Dirent) (path ext : Bytes) :
    Refines (listFilenamesWithExt entries (some path) (some ext) true)
      (.ok (filenames ext (entries path)))
      fun l names => l.terminated = true ∧ l.names.map Prod.snd = names := by
  rw [listFilenamesWithExt]
  refine .malloc fun dir => ?_
  refine (refines_listFilenamesLoop (a := {}) (entries path)).andThen fun o names h => ?_
  obtain ⟨a, rfl, hnames⟩ := h
  exact .free (.realloc fun tmp => refines_writeSlot (.pure ⟨rfl, hnames⟩))

end Refines

/-! ### Listing a directory -/

/-- **The listing owns its names or nothing.** Whatever is refused, `list_filenames_with_ext`
follows and frees no bad pointer and writes to no slot beyond its array, and closes the
directory. It returns the names of the entries with the extension, in their order, or `NULL`
with the count 0; what it returns is all that it leaves behind, and freeing it as its caller
has to leaves nothing. When nothing is refused the names are there, with the terminator. -/
theorem filenames_no_leak (entries : Bytes → List Dirent) (path ext : Bytes)
    (h : Heap FileRequest) :
    ∃ l h', listFilenamesWithExt entries (some path) (some ext) true h = .ok (l, h') ∧
      h'.live = l.blocks + h.live ∧ l.countOut = some l.names.length ∧
      (l.names.map Prod.snd = filenames ext (entries path) ∨ l = { countOut := some 0 }) ∧
      (∃ h'', freeFilenames l h' = .ok ((), h'') ∧ h''.live = h.live) ∧
      ((∀ k, h.grants k = true) →
        l.terminated = true ∧ l.names.map Prod.snd = filenames ext (entries path)) := by
  obtain ⟨l, h', R, hrun, hlive, rfl, hhanded⟩ :=
    (owns_listFilenamesWithExt (fun _ => rfl) entries path ext).exact (zero_add h.live).symm
  refine ⟨l, h', hrun, hlive, hhanded.count, hhanded.whole, ?_, fun hgrants => ?_⟩
  · have hfree : Owns (fun _ => 0) (l.blocks + 0) (freeFilenames l >>= pure) fun _ R => R = 0 := by
      simp only [freeFilenames, bind_assoc]
      exact owns_freeArray hhanded.array (.pure rfl)
    obtain ⟨_, h'', R, hrun', hlive', rfl⟩ :=
      hfree.last.exact (F := h.live) (by rw [hlive, add_zero])
    exact ⟨h'', hrun', hlive'.trans (zero_add _)⟩
  · have hall := refines_listFilenamesWithExt entries path ext h hgrants
    rw [hrun] at hall
    obtain ⟨-, -, names, hnames, hterminated, hsame⟩ := hall
    exact ⟨hterminated, hsame.trans (Except.ok.inj hnames).symm⟩

/-! ### Counting files -/

/-- **A name has an extension** iff it ends in a dot and the extension. -/
theorem hasExtension_iff (name ext : Bytes) :
    hasExtension name ext = true ↔ (46 :: ext) <:+ name := by
  rw [hasExtension, List.suffix_iff_eq_drop, List.length_cons]
  by_cases hshort : name.length < ext.length + 1
  · rw [if_pos hshort, Nat.sub_eq_zero_of_le hshort.le, List.drop_zero]
    refine iff_of_false Bool.false_ne_true fun heq => ?_
    rw [← heq, List.length_cons] at hshort
    exact Nat.lt_irrefl _ hshort
  · have hlt : name.length - ext.length - 1 < name.length := by omega
    have hnext : name.length - ext.length - 1 + 1 = name.length - ext.length := by omega
    rw [if_neg hshort, ← Nat.sub_sub, List.drop_eq_getElem_cons hlt, hnext,
      List.getElem?_eq_getElem hlt, List.cons.injEq]
    by_cases hdot : name[name.length - ext.length - 1] = 46
    · rw [if_neg (by simp [hdot])]
      exact ⟨fun h => ⟨hdot.symm, (of_decide_eq_true h).symm⟩, fun h => decide_eq_true h.2.symm⟩
    · rw [if_pos fun h => hdot (Option.some.inj h)]
      exact iff_of_false Bool.false_ne_true fun h => hdot h.1.symm

/-- The entry is a regular file, or may be one. -/
def Dirent.mayBeFile (entry : Dirent) : Bool := entry.type ≠ .other

/-- The comparison of `count_files_with_extension`. -/
theorem endsIn_iff (name ext : Bytes) :
    (if ext.length ≤ name.length then decide (name.drop (name.length - ext.length) = ext)
      else false) = true ↔ ext <:+ name := by
  rw [List.suffix_iff_eq_drop]
  split
  · rw [decide_eq_true_eq, eq_comm]
  · rename_i hshort
    refine iff_of_false Bool.false_ne_true fun heq => hshort ?_
    rw [heq, List.length_drop]
    omega

/-- A file is counted by the dot and the extension iff it is listed by the extension, and may be
a regular file where that is looked at. -/
theorem countsFile_eq (dtReg : Bool) (ext : Bytes) (entry : Dirent) :
    countsFile dtReg (46 :: ext) entry =
      ((!dtReg || entry.mayBeFile) && (!isDots entry.name && hasExtension entry.name ext)) := by
  have hends := endsIn_iff entry.name (46 :: ext)
  rw [← hasExtension_iff, ← Bool.eq_iff_iff] at hends
  rw [countsFile, hends, Dirent.mayBeFile]
  cases dtReg <;> cases isDots entry.name <;> cases entry.type <;> simp

/-- The loop counts, as long as the count is an `int`. -/
theorem countFilesLoop_eq (dtReg : Bool) (ext : Bytes) (entries : List Dirent) (n : ℕ)
    (h : n + entries.length < 2 ^ 31) :
    countFilesLoop dtReg ext entries n = (n + entries.countP (countsFile dtReg ext) : ℕ) := by
  induction entries generalizing n with
  | nil => rfl
  | cons entry rest ih =>
      rw [List.length_cons] at h
      rw [countFilesLoop, List.countP_cons]
      split
      · have hnext : toInt ((n : ℤ) + 1) = (n + 1 : ℕ) := toInt_eq_self (n := n + 1) (by omega)
        rw [hnext, ih (n + 1) (by omega), Nat.add_assoc, Nat.add_comm 1]
      · exact ih n (by omega)

/-- A directory that can be opened is counted, and closed. -/
theorem countFiles_eq {dtReg : Bool} {entries : Bytes → List Dirent} {path ext : Bytes}
    {h h' : Heap FileRequest} {count : ℤ} (hshort : (entries path).length < 2 ^ 31)
    (hopen : h.grants 0 = true)
    (hrun : countFilesWithExtension dtReg entries (some path) (some ext) h = .ok (count, h')) :
    count = ((entries path).countP (countsFile dtReg ext) : ℕ) ∧ h'.live = h.live := by
  have hmem : h.next ∈ h.grant.live := Multiset.mem_cons_self _ _
  rw [countFilesWithExtension, bind_ok (if_pos hopen)] at hrun
  simp only at hrun
  rw [bind_ok (if_pos hmem), bind_ok (if_pos hmem)] at hrun
  obtain ⟨rfl, rfl⟩ := Prod.mk.inj (Except.ok.inj hrun)
  refine ⟨?_, Multiset.erase_cons_head _ _⟩
  have hloop := countFilesLoop_eq dtReg ext (entries path) 0 (by omega)
  rwa [Nat.zero_add] at hloop

/-- **The two readers of a directory agree** in a build without `DT_REG`, and in one with it iff
all names that are listed belong to regular files, or to entries of which the type is not
known. -/
theorem directory_readers_agree_iff {dtReg : Bool} {entries : Bytes → List Dirent}
    {path ext : Bytes} {g h g' h' : Heap FileRequest} {l : Filenames} {count : ℤ}
    (hshort : (entries path).length < 2 ^ 31) (hg : ∀ k, g.grants k = true)
    (hlist : listFilenamesWithExt entries (some path) (some ext) true g = .ok (l, g'))
    (hh : h.grants 0 = true)
    (hcount : countFilesWithExtension dtReg entries (some path) (some (46 :: ext)) h =
      .ok (count, h')) :
    count = l.names.length ↔
      (dtReg = true → ∀ entry ∈ entries path, isDots entry.name = false →
        hasExtension entry.name ext = true → entry.mayBeFile = true) := by
  have hall := refines_listFilenamesWithExt entries path ext g hg
  rw [hlist] at hall
  obtain ⟨-, -, names, hnames, -, hsame⟩ := hall
  have hlength := congrArg List.length (hsame.trans (Except.ok.inj hnames).symm)
  rw [List.length_map, filenames, List.length_map] at hlength
  rw [(countFiles_eq hshort hh hcount).1, hlength, Nat.cast_inj,
    funext (countsFile_eq dtReg ext), ← List.countP_filter, List.countP_eq_length]
  constructor
  · intro hfiles hreg entry hentry hdots hext
    have hfile := hfiles entry (List.mem_filter.mpr ⟨hentry, by rw [hdots, hext]; rfl⟩)
    rwa [hreg] at hfile
  · intro hfiles entry hentry
    obtain ⟨hmem, hlisted⟩ := List.mem_filter.mp hentry
    rw [Bool.and_eq_true, Bool.not_eq_true'] at hlisted
    cases dtReg with
    | false => rfl
    | true => exact hfiles rfl entry hmem hlisted.1 hlisted.2

/-- A directory with a text file and a directory of the same kind. -/
def mixedDirectory (_ : Bytes) : List Dirent :=
  [⟨ascii ".", .other⟩, ⟨ascii "a.txt", .regular⟩, ⟨ascii "b.txt", .other⟩]

/-- A build that looks at the types lists the directory and does not count it; the other one
counts it too. -/
theorem mixed_readers_disagree :
    ∃ l g', listFilenamesWithExt mixedDirectory (some []) (some (ascii "txt")) true
        (emptyHeap FileRequest fun _ => true) = .ok (l, g') ∧
      (∃ count h', countFilesWithExtension true mixedDirectory (some []) (some (ascii ".txt"))
        (emptyHeap FileRequest fun _ => true) = .ok (count, h') ∧ count ≠ l.names.length) ∧
      ∃ count h', countFilesWithExtension false mixedDirectory (some []) (some (ascii ".txt"))
        (emptyHeap FileRequest fun _ => true) = .ok (count, h') ∧ count = l.names.length := by
  have hlist : ∃ l g', listFilenamesWithExt mixedDirectory (some []) (some (ascii "txt")) true
      (emptyHeap FileRequest fun _ => true) = .ok (l, g') := ⟨_, _, rfl⟩
  have hcount : ∀ dtReg, ∃ count h', countFilesWithExtension dtReg mixedDirectory (some [])
      (some (ascii ".txt")) (emptyHeap FileRequest fun _ => true) = .ok (count, h') :=
    fun _ => ⟨_, _, rfl⟩
  obtain ⟨l, g', hl⟩ := hlist
  obtain ⟨count, h₁, hc⟩ := hcount true
  obtain ⟨count', h₂, hc'⟩ := hcount false
  refine ⟨l, g', hl, ⟨count, h₁, hc, fun heq => ?_⟩, count', h₂, hc', ?_⟩
  · have hall := (directory_readers_agree_iff (by decide) (fun _ => rfl) hl rfl hc).mp heq rfl
    exact absurd (hall ⟨ascii "b.txt", .other⟩ (by decide) (by decide) (by decide)) (by decide)
  · exact (directory_readers_agree_iff (by decide) (fun _ => rfl) hl rfl hc').mpr
      fun hreg => absurd hreg Bool.false_ne_true

/-! ### Reading a file -/

/-- A file that is read from its beginning. -/
structure StoredFile where
  /-- What `ftell` returns at its end, `none` for -1: a pipe has no position. -/
  size : Option ℕ
  content : Bytes
  fits : ∀ n, size = some n → n < 2 ^ 63

/-- What `fread` stores when it is asked for so many bytes. The system rejects a read of more
bytes than an `ssize_t` counts, and stores nothing. -/
def fread (content : Bytes) (n : ℕ) : Bytes := if n < 2 ^ 63 then content.take n else []

/-- A write of so many bytes to a block of a size. One beyond the end is a fault. -/
def fillBlock (b : Block) (n size : ℕ) : FileM Unit :=
  if n ≤ size then use b else fun _ => .error (.pointer (some b))

/-- `file_size`: the conversion of what `ftell` returns to `size_t`. -/
def StoredFile.fileSize (stored : StoredFile) : ℕ := stored.size.getD (2 ^ 64 - 1)

/-- The size of the block, `file_size + 1`, which is 0 for a pipe. -/
def StoredFile.capacity (stored : StoredFile) : ℕ := (stored.fileSize + 1) % 2 ^ 64

/-- The part of `read_file_to_string` that runs once there is a block. -/
def fillString (stored : StoredFile) (file string : Block) : FileM (Option (Block × Bytes)) := do
  let text := fread stored.content stored.fileSize
  fillBlock string text.length stored.capacity
  if text.length ≠ stored.fileSize then do
    free string
    free file
    pure none
  else do
    fillBlock string (stored.fileSize + 1) stored.capacity
    free file
    pure (some (string, text))

/-- `read_file_to_string`, with the block that it returns and the text in it. -/
def readFileToString (files : Bytes → Option StoredFile) (filename : Bytes) :
    FileM (Option (Block × Bytes)) :=
  match files filename with
  | none => pure none
  | some stored => do
      match ← malloc .handle with
      | none => pure none
      | some file => do
          use file
          match ← reallocTo none .text stored.capacity with
          | none => do
              free file
              pure none
          | some string => fillString stored file string

/-- The block of a text. -/
def textBlocks (o : Option (Block × Bytes)) : Multiset Block := blockOf (o.map Prod.fst)

section Files

variable {files : Bytes → Option StoredFile} {filename text : Bytes} {stored : StoredFile}

/-- The text can be read of the file: it has the length that is told, which leaves room for a
NUL, and the file starts with it. -/
structure Readable (stored : StoredFile) (text : Bytes) : Prop where
  size : stored.size = some text.length
  short : text.length < ptrdiffMax
  starts : text <+: stored.content

/-- A size that is told leaves room for a NUL. -/
theorem StoredFile.capacity_eq {n : ℕ} (h : stored.size = some n) :
    stored.fileSize = n ∧ stored.capacity = n + 1 := by
  have hn := stored.fits n h
  have hfile : stored.fileSize = n := by rw [StoredFile.fileSize, h, Option.getD_some]
  exact ⟨hfile, by rw [StoredFile.capacity, hfile, Nat.mod_eq_of_lt (by omega)]⟩

/-- Of a pipe nothing is read, and more is asked for. -/
theorem fread_pipe (h : stored.size = none) :
    fread stored.content stored.fileSize = [] ∧ 0 < stored.fileSize := by
  rw [StoredFile.fileSize, h]
  exact ⟨if_neg (by decide), by decide⟩

/-- What is stored fits the block. -/
theorem fread_fits : (fread stored.content stored.fileSize).length ≤ stored.capacity := by
  cases hsize : stored.size with
  | none =>
      rw [(fread_pipe hsize).1]
      exact Nat.zero_le _
  | some n =>
      obtain ⟨hfile, hcapacity⟩ := StoredFile.capacity_eq hsize
      rw [hfile, hcapacity, fread, if_pos (stored.fits n hsize)]
      exact (List.length_take_le _ _).trans (Nat.le_succ n)

/-- When all that is asked for is stored there is room for a NUL. -/
theorem room_of_fread (h : (fread stored.content stored.fileSize).length = stored.fileSize) :
    stored.fileSize + 1 ≤ stored.capacity := by
  cases hsize : stored.size with
  | none =>
      obtain ⟨hnil, hpos⟩ := fread_pipe hsize
      rw [hnil, List.length_nil] at h
      exact absurd h (Nat.ne_of_lt hpos)
  | some n =>
      obtain ⟨hfile, hcapacity⟩ := StoredFile.capacity_eq hsize
      rw [hfile, hcapacity]

/-- What can be read of the file is what `fread` stores when it stores all that is asked for,
as far as a block can hold it. -/
theorem readable_iff (hroom : stored.capacity ≤ ptrdiffMax) :
    Readable stored text ↔
      (fread stored.content stored.fileSize).length = stored.fileSize ∧
        text = fread stored.content stored.fileSize := by
  cases hsize : stored.size with
  | none =>
      obtain ⟨hnil, hpos⟩ := fread_pipe hsize
      rw [hnil]
      refine iff_of_false (fun h => ?_) fun h => absurd h.1 (Nat.ne_of_lt hpos)
      have hsome := h.size
      rw [hsize] at hsome
      cases hsome
  | some n =>
      obtain ⟨hfile, hcapacity⟩ := StoredFile.capacity_eq hsize
      rw [hcapacity] at hroom
      rw [fread, hfile, if_pos (stored.fits n hsize), List.length_take]
      constructor
      · intro h
        obtain rfl : n = text.length := Option.some.inj (hsize.symm.trans h.size)
        exact ⟨Nat.min_eq_left h.starts.length_le, List.prefix_iff_eq_take.mp h.starts⟩
      · rintro ⟨hlength, rfl⟩
        have htake : (stored.content.take n).length = n := by rw [List.length_take, hlength]
        exact ⟨by rw [hsize, htake], by rw [htake]; exact hroom, List.take_prefix _ _⟩

/-- A file that is too large for a block has no text. -/
theorem not_readable (hroom : ¬ stored.capacity ≤ ptrdiffMax) : ¬ Readable stored text := by
  intro h
  rw [(StoredFile.capacity_eq h.size).2] at hroom
  exact hroom h.short

/-- A write of at most the block's size stays inside the block. -/
theorem owns_fillBlock {cost : FileRequest → ℕ} {P : Multiset Block} {β : Type}
    {S : β → Multiset Block → Prop} {b : Block} {n size : ℕ} {f : Unit → FileM β}
    (hn : n ≤ size) (hb : b ∈ P) (hf : Owns cost P (f ()) S) :
    Owns cost P (fillBlock b n size >>= f) S := by
  rw [fillBlock, if_pos hn]
  exact .use hb hf

/-- What is returned: a block for the text that can be read, or nothing. -/
def ReadFrom (stored : StoredFile) (o : Option (Block × Bytes)) (R : Multiset Block) : Prop :=
  R = textBlocks o ∧ ∀ text, o.map Prod.snd = some text ↔ Readable stored text

/-- The end of `read_file_to_string` closes the file, and keeps a block for the text. -/
theorem owns_fillString {file string : Block} (hroom : stored.capacity ≤ ptrdiffMax) :
    Owns (fun _ => 0) (string ::ₘ file ::ₘ 0) (fillString stored file string)
      (ReadFrom stored) := by
  have hmem : string ∈ string ::ₘ file ::ₘ 0 := Multiset.mem_cons_self _ _
  rw [fillString]
  refine owns_fillBlock fread_fits hmem ?_
  split
  · rename_i hshort
    refine .free (.free (.pure ⟨rfl, fun text => iff_of_false (by simp) fun h => hshort ?_⟩))
    exact ((readable_iff hroom).mp h).1
  · rename_i hall
    have hall := not_not.mp hall
    rw [Multiset.cons_swap] at hmem ⊢
    refine owns_fillBlock (room_of_fread hall) hmem (.free (.pure ⟨rfl, fun text => ?_⟩))
    rw [readable_iff hroom, Option.map_some, Option.some.injEq, eq_comm]
    exact ⟨fun h => ⟨hall, h⟩, And.right⟩

/-- A file that is there, after its handle has been granted or refused. -/
theorem readFileToString_run (hfile : files filename = some stored) (h : Heap FileRequest) :
    ∃ r h', readFileToString files filename h = .ok (r, h') ∧
      h'.live = textBlocks r + h.live ∧
      ∀ text, r.map Prod.snd = some text ↔
        Readable stored text ∧ h.grants 0 = true ∧ h.grants 1 = true := by
  have hmem : h.next ∈ h.grant.live := Multiset.mem_cons_self _ _
  have herase : (h.next ::ₘ h.live).erase h.next = 0 + h.live := by
    rw [Multiset.erase_cons_head, zero_add]
  rw [readFileToString, hfile]
  by_cases hopen : h.grants 0 = true
  · simp only
    rw [bind_ok (if_pos hopen)]
    simp only
    rw [bind_ok (if_pos hmem)]
    by_cases hroom : stored.capacity ≤ ptrdiffMax
    · rw [reallocTo, if_neg (Nat.not_lt.mpr hroom)]
      by_cases hmemory : h.grants 1 = true
      · rw [bind_ok (if_pos hmemory)]
        have hend : Owns (fun _ => 0) (h.grant.next ::ₘ h.next ::ₘ 0)
            (fillString stored h.next h.grant.next) (ReadFrom stored) := owns_fillString hroom
        obtain ⟨r, h', R, hrun, hlive, rfl, htext⟩ :=
          hend.exact (g := h.grant.grant) (F := h.live) (by simp)
        refine ⟨r, h', hrun, hlive, fun text => ?_⟩
        rw [htext]
        exact ⟨fun h => ⟨h, hopen, hmemory⟩, And.left⟩
      · rw [bind_ok (if_neg hmemory)]
        simp only
        rw [bind_ok (if_pos hmem)]
        exact ⟨none, _, rfl, herase, fun text =>
          iff_of_false (by simp) fun h => hmemory h.2.2⟩
    · rw [reallocTo, if_pos (Nat.not_le.mp hroom), pure_bind]
      simp only
      rw [bind_ok (if_pos hmem)]
      exact ⟨none, _, rfl, herase, fun text => iff_of_false (by simp) fun h =>
        not_readable hroom h.1⟩
  · simp only
    rw [bind_ok (if_neg hopen)]
    exact ⟨none, _, rfl, (zero_add _).symm, fun text =>
      iff_of_false (by simp) fun h => hopen h.2.1⟩

/-- **What is read of a file**: whatever is refused, and whatever size is told,
`read_file_to_string` returns without a write beyond a block and closes the file, and what it
returns is all that it leaves behind. It returns a text iff the file is opened, memory is
granted, a size is told that leaves room for a NUL in a block, and so many bytes are there: the
text is these bytes. Of a pipe, which has no size, it returns nothing. -/
theorem read_file_text_iff (files : Bytes → Option StoredFile) (filename : Bytes)
    (h : Heap FileRequest) :
    ∃ r h', readFileToString files filename h = .ok (r, h') ∧
      h'.live = textBlocks r + h.live ∧
      ∀ text, r.map Prod.snd = some text ↔
        ∃ stored, files filename = some stored ∧ stored.size = some text.length ∧
          text.length < ptrdiffMax ∧ text <+: stored.content ∧
          h.grants 0 = true ∧ h.grants 1 = true := by
  cases hfile : files filename with
  | none =>
      have hrun : readFileToString files filename h = .ok (none, h) := by
        rw [readFileToString, hfile]
        rfl
      exact ⟨none, h, hrun, (zero_add _).symm, by simp⟩
  | some stored =>
      obtain ⟨r, h', hrun, hlive, htext⟩ := readFileToString_run hfile h
      refine ⟨r, h', hrun, hlive, fun text => ?_⟩
      rw [htext]
      constructor
      · rintro ⟨⟨hsize, hshort, hstarts⟩, hopen, hmemory⟩
        exact ⟨stored, rfl, hsize, hshort, hstarts, hopen, hmemory⟩
      · rintro ⟨_, hsame, hsize, hshort, hstarts, hopen, hmemory⟩
        obtain rfl := Option.some.inj hsame
        exact ⟨⟨hsize, hshort, hstarts⟩, hopen, hmemory⟩

end Files

end MaestroCore
