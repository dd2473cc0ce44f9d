import MaestroCore.ConfigAgreement
import MaestroCore.Lib.StringArray

/-!
# The Config Reader in Its Buffers

`config_get_value` as it works on memory: `fgets` fills an array of 512 bytes, the line is
trimmed and cut in this array, with the key and the value as two strings in it, and the value
is copied into the buffer of the caller. Every access is checked: a run has no result when it
leaves an array or reads a byte that was never written.

## Main results

* `trim_replaces` and `stripInlineComment_replaces`: the two functions change the string that
  they are given as `trim` and `stripInlineComment` do, and leave what is around it as it was.
* `splitLine_eq`: after the line is cut, the array holds the key and the value of `configPair`.
* `configGetValue_eq`: no run fails, and the buffers hold the values that `configGetValue` has
  read.
-/

open CLang Lines Memory StringArray

namespace MaestroCore

namespace InPlace

/-! ### Trimming -/

/-- The first loop of `trim`: how far `p` moves. -/
def skipSpaces : Block UInt8 → Option ℕ
  | [] => none
  | none :: _ => none
  | some b :: block =>
      if b ≠ 0 ∧ isspace b = true then (skipSpaces block).map (· + 1) else some 0

/-- The second loop of `trim`, for the string of length `len` at the index `s`. -/
def cutSpaces (s : ℕ) : ℕ → Block UInt8 → Option (Block UInt8)
  | 0, block => some block
  | len + 1, block => do
      let last ← load block (s + len)
      if isspace last then cutSpaces s len (← store block (s + len) [0]) else some block

/-- `trim` of the string at the index `s`. -/
def trim (block : Block UInt8) (s : ℕ) : Option (Block UInt8) := do
  let skipped ← skipSpaces (block.drop s)
  let length ← strlen block (s + skipped)
  let block ← memmove block s (s + skipped) (length + 1)
  cutSpaces s (← strlen block s) block

/-- `i == 0 || isspace(s[i - 1])`. -/
def startsComment (block : Block UInt8) (s i : ℕ) : Option Bool :=
  if i = 0 then some true else (load block (s + i - 1)).map isspace

/-- The loop of `strip_inline_comment`, from the index `i` of the string on; the first argument
bounds the iterations. -/
def stripLoop (block : Block UInt8) (s : ℕ) : ℕ → ℕ → Option (Block UInt8)
  | 0, _ => none
  | fuel + 1, i => do
      let b ← load block (s + i)
      if b = 0 then some block
      else if b = 35 then
        if ← startsComment block s i then store block (s + i) [0]
        else stripLoop block s fuel (i + 1)
      else stripLoop block s fuel (i + 1)

/-- `strip_inline_comment` of the string at the index `s`. -/
def stripInlineComment (block : Block UInt8) (s : ℕ) : Option (Block UInt8) :=
  stripLoop block s block.length 0

/-! ### The reader -/

/-- A line whose `=` is at the index `eq` is cut there; the key and the value are trimmed, and
the comment is taken off the value. -/
def cutPair (line : Block UInt8) (eq : ℕ) : Option (Block UInt8) := do
  let line ← store line eq [0]
  let line ← trim line 0
  let line ← trim line (eq + 1)
  let line ← stripInlineComment line (eq + 1)
  trim line (eq + 1)

/-- The array `line` after `fgets` has read a piece into it and the line was cut, with the
index of the value; the key is at the index 0. No index stands for a line that is skipped. -/
def splitLine (line : Block UInt8) (piece : Bytes) : Option (Block UInt8 × Option ℕ) := do
  let line ← store line 0 (piece ++ [0])
  let line ← trim line 0
  let first ← load line 0
  if first = 35 ∨ first = 0 then return (line, none)
  match ← strchrIndex line 0 61 with
  | none => return (line, none)
  | some eq => return (← cutPair line eq, some (eq + 1))

/-- `keys[i]`, `values[i]` and `found[i]`. -/
structure ConfigSlot where
  key : Option Bytes
  value : Block UInt8
  found : Bool := false

/-- One iteration of the loop over the keys, for a key and a value in the array. -/
def fillSlot (line : Block UInt8) (value maxValueLen : ℕ) (slot : ConfigSlot) :
    Option ConfigSlot :=
  if slot.found then some slot
  else
    match slot.key with
    | none => some slot
    | some key => do
        if key = (← loadString line) then
          let buffer ← copyString slot.value maxValueLen (← loadString (line.drop value))
          some { slot with value := buffer, found := true }
        else some slot

/-- The loop over the keys. -/
def fillSlots (line : Block UInt8) (value maxValueLen : ℕ) :
    List ConfigSlot → Option (List ConfigSlot)
  | [] => some []
  | slot :: slots => do
      let slot ← fillSlot line value maxValueLen slot
      let slots ← fillSlots line value maxValueLen slots
      some (slot :: slots)

/-- The loop of `config_get_value` over the pieces that `fgets` reads. -/
def configGetLoop (maxValueLen : ℕ) :
    List Bytes → Block UInt8 → List ConfigSlot → Option (List ConfigSlot)
  | [], _, slots => some slots
  | piece :: pieces, line, slots => do
      match ← splitLine line piece with
      | (line, none) => configGetLoop maxValueLen pieces line slots
      | (line, some value) =>
          configGetLoop maxValueLen pieces line (← fillSlots line value maxValueLen slots)

/-- `config_get_value`: its result, and the buffers it leaves. `line` is the array before the
first call of `fgets`, and `arrays` are the keys, each with its buffer. -/
def configGetValue (line : Block UInt8) (file : Option Bytes)
    (arrays : List (Option Bytes × Block UInt8)) (maxValueLen : ℕ) :
    Option (ℤ × List (Block UInt8)) :=
  if maxValueLen = 0 ∨ arrays = [] then some (-2, arrays.map Prod.snd)
  else
    match file with
    | none => some (-1, arrays.map Prod.snd)
    | some file => do
        let slots ← configGetLoop maxValueLen (configPieces file) line
          (arrays.map fun x => { key := x.1, value := x.2 })
        some (if slots.all (·.found) then 0 else -2, slots.map (·.value))

/-! ### Strings that are changed where they are -/

/-- An operation on the string at an index makes another string of it, which is not longer, and
leaves the cells before the string and the ones after its NUL as they were. -/
def Replaces (op : Block UInt8 → ℕ → Option (Block UInt8)) (str str' : Bytes) : Prop :=
  ∀ before later, ∃ slack, slack.length + str'.length = str.length ∧
    op (before ++ (text str ++ later)) before.length =
      some (before ++ (text str' ++ (slack ++ later)))

/-- Skipping spaces in an array that holds a string stops after the string's leading spaces. -/
theorem skipSpaces_text {str : Bytes} (h : 0 ∉ str) (later : Block UInt8) :
    skipSpaces (text str ++ later) = some (str.takeWhile isspace).length := by
  induction str with
  | nil => rfl
  | cons b str ih =>
      rw [List.mem_cons, not_or] at h
      rw [text_cons, List.cons_append, skipSpaces, ih h.2]
      by_cases hspace : isspace b = true
      · rw [if_pos ⟨Ne.symm h.1, hspace⟩, List.takeWhile_cons_of_pos hspace]
        rfl
      · rw [if_neg fun hboth => hspace hboth.2, List.takeWhile_cons_of_neg hspace]
        rfl

/-- Cutting the spaces at the end replaces the string by one without them. -/
theorem replaces_cutSpaces (str : Bytes) :
    Replaces (fun block s => cutSpaces s str.length block) str (str.rdropWhile isspace) := by
  intro before later
  induction str using List.reverseRecOn generalizing later with
  | nil => exact ⟨[], rfl, rfl⟩
  | append_singleton str b ih =>
      have hcell : before ++ (text (str ++ [b]) ++ later) =
          before ++ (str.map some ++ some b :: (some 0 :: later)) := by
        rw [text_append, List.append_assoc]
        rfl
      simp only [hcell, List.length_append, List.length_singleton, cutSpaces, load_within,
        Option.bind_eq_bind, Option.bind_some, List.rdropWhile_concat]
      split
      · obtain ⟨slack, hlength, hcut⟩ := ih (some 0 :: later)
        refine ⟨slack ++ [some 0], by simp; omega, ?_⟩
        rw [store_nul, Option.bind_some, List.append_assoc]
        exact hcut
      · exact ⟨[], by simp, by rw [← hcell]; rfl⟩

/-- **`trim` trims the string where it is.** -/
theorem trim_replaces {str : Bytes} (h : 0 ∉ str) :
    Replaces trim str (MaestroCore.trim str) := by
  intro before later
  set spaces := str.takeWhile isspace with hspaces
  set rest := str.dropWhile isspace with hrest
  have hstr : spaces ++ rest = str := List.takeWhile_append_dropWhile
  have hno : 0 ∉ rest := fun hmem => h (hstr ▸ List.mem_append_right _ hmem)
  have hline : before ++ (text str ++ later) =
      before ++ spaces.map some ++ (text rest ++ later) := by
    rw [← hstr, text_append]
    simp
  have hlength : strlen (before ++ (text str ++ later)) (before.length + spaces.length) =
      some rest.length := by
    have hread := strlen_append hno (before ++ spaces.map some) later
    rwa [← hline, List.length_append, List.length_map] at hread
  -- the characters of the string and its NUL are moved over the white space
  have hmove := memmove_append before (spaces.map some) (text rest) later
  rw [← text_append, hstr, List.length_map, length_text] at hmove
  set slack := (text str).drop (rest.length + 1) with hslack
  obtain ⟨slack', hlength', hcut⟩ := replaces_cutSpaces rest before (slack ++ later)
  refine ⟨slack' ++ slack, ?_, ?_⟩
  · have hlen := congrArg List.length hstr
    rw [List.length_append] at hlen
    rw [List.length_append, MaestroCore.trim, ← hrest, hslack, List.length_drop, length_text]
    omega
  · simp only [trim, List.drop_left' rfl, skipSpaces_text h, ← hspaces, Option.bind_eq_bind,
      Option.bind_some, hlength, hmove, strlen_append hno]
    rw [MaestroCore.trim, ← hrest, List.append_assoc slack']
    exact hcut

/-- A comment may start at the beginning of the string or after a space. -/
theorem startsComment_eq (before : Block UInt8) (pre : Bytes) (later : Block UInt8) :
    startsComment (before ++ (pre.map some ++ later)) before.length pre.length =
      some (pre.getLast?.all isspace) := by
  rcases List.eq_nil_or_concat pre with rfl | ⟨first, c, rfl⟩
  · rfl
  · have hload := load_within before first c later
    simp [startsComment, hload]

/-- The loop of `strip_inline_comment` from the middle of the string on. -/
theorem stripLoop_eq {fuel : ℕ} (before : Block UInt8) (pre : Bytes) {suf : Bytes} (h : 0 ∉ suf)
    (later : Block UInt8) (hfuel : suf.length < fuel) :
    ∃ slack, slack.length + (MaestroCore.stripLoop (pre.getLast?.all isspace) suf).length =
        suf.length ∧
      stripLoop (before ++ (pre.map some ++ (text suf ++ later))) before.length fuel pre.length =
        some (before ++ (pre.map some ++ (text (MaestroCore.stripLoop (pre.getLast?.all isspace)
          suf) ++ (slack ++ later)))) := by
  obtain ⟨n, rfl⟩ : ∃ n, fuel = n + 1 := ⟨fuel - 1, by omega⟩
  induction suf generalizing pre n with
  | nil =>
      refine ⟨[], rfl, ?_⟩
      rw [stripLoop, text_nil, List.singleton_append, load_within]
      rfl
  | cons b suf ih =>
      rw [List.mem_cons, not_or] at h
      rw [List.length_cons] at hfuel
      obtain ⟨m, rfl⟩ : ∃ m, n = m + 1 := ⟨n - 1, by omega⟩
      obtain ⟨slack, hlength, hloop⟩ := ih (pre ++ [b]) h.2 m (by omega)
      have hlast : (pre ++ [b]).getLast?.all isspace = isspace b := by simp
      have hmiddle : ∀ cells : Block UInt8, before ++ ((pre ++ [b]).map some ++ cells) =
          before ++ (pre.map some ++ some b :: cells) := fun cells => by simp
      rw [hlast] at hlength hloop
      rw [hmiddle, hmiddle, List.length_append, List.length_singleton] at hloop
      rw [stripLoop, text_cons, List.cons_append, load_within, Option.bind_eq_bind,
        Option.bind_some, if_neg (Ne.symm h.1), startsComment_eq, Option.bind_eq_bind,
        Option.bind_some, MaestroCore.stripLoop, hloop]
      by_cases hsign : b = 35
      · rw [if_pos hsign]
        by_cases hstarts : pre.getLast?.all isspace = true
        · have hcut := store_nul before pre b (text suf ++ later)
          rw [if_pos hstarts, if_pos ⟨hsign, hstarts⟩, hcut, text_nil, text, List.map_append]
          exact ⟨text suf, by simp, by simp⟩
        · rw [if_neg hstarts, if_neg fun hboth => hstarts hboth.2, text_cons]
          exact ⟨slack, by rw [List.length_cons, List.length_cons]; omega, rfl⟩
      · rw [if_neg hsign, if_neg fun hboth => hsign hboth.1, text_cons]
        exact ⟨slack, by rw [List.length_cons, List.length_cons]; omega, rfl⟩

/-- **`strip_inline_comment` cuts the comment off where the string is.** -/
theorem stripInlineComment_replaces {str : Bytes} (h : 0 ∉ str) :
    Replaces stripInlineComment str (MaestroCore.stripInlineComment str) := by
  intro before later
  exact stripLoop_eq before [] h later (by simp; omega)

/-! ### Cutting a line -/

/-- Trimming adds no bytes. -/
theorem mem_trim {b : UInt8} {s : Bytes} (h : b ∈ MaestroCore.trim s) : b ∈ s :=
  (List.dropWhile_sublist _).subset ((List.rdropWhile_prefix _ _).subset h)

/-- Cutting a comment off adds no bytes. -/
theorem mem_stripLoop {b : UInt8} {starts : Bool} {s : Bytes}
    (h : b ∈ MaestroCore.stripLoop starts s) : b ∈ s := by
  induction s generalizing starts with
  | nil => cases h
  | cons c s ih =>
      rw [MaestroCore.stripLoop] at h
      split at h
      · cases h
      · rcases List.mem_cons.mp h with rfl | h
        · exact List.mem_cons_self
        · exact List.mem_cons_of_mem _ (ih h)

/-- One operation after the other. -/
theorem Replaces.bind {op op' : Block UInt8 → ℕ → Option (Block UInt8)} {str str' str'' : Bytes}
    (h : Replaces op str str') (h' : Replaces op' str' str'') :
    Replaces (fun block s => (op block s).bind fun block => op' block s) str str'' := by
  intro before later
  obtain ⟨slack, hlength, heq⟩ := h before later
  obtain ⟨slack', hlength', heq'⟩ := h' before (slack ++ later)
  refine ⟨slack' ++ slack, by rw [List.length_append]; omega, ?_⟩
  simp only [heq, Option.bind_some, heq', List.append_assoc]

/-- The array holds a key and a value, the value at the index; no index stands for no pair. -/
def HoldsPair (line : Block UInt8) : Option ℕ → Option (Bytes × Bytes) → Prop
  | none, none => True
  | some value, some pair =>
      loadString line = some pair.1 ∧ loadString (line.drop value) = some pair.2
  | _, _ => False

/-- **A line is cut into its key and its value.** -/
theorem cutPair_eq {key value : Bytes} (hkey : 0 ∉ key) (hvalue : 0 ∉ value)
    (later : Block UInt8) :
    ∃ line', cutPair (text (key ++ 61 :: value) ++ later) key.length = some line' ∧
      line'.length = (text (key ++ 61 :: value) ++ later).length ∧
      HoldsPair line' (some (key.length + 1)) (some (MaestroCore.trim key,
        MaestroCore.trim (MaestroCore.stripInlineComment (MaestroCore.trim value)))) := by
  have hcut : store (text (key ++ 61 :: value) ++ later) key.length [0] =
      some (text key ++ (text value ++ later)) := by
    have hwrite := store_nul [] key 61 (text value ++ later)
    rw [List.length_nil, Nat.zero_add] at hwrite
    rw [text_append, text_cons, List.append_assoc]
    exact hwrite
  obtain ⟨slack, hslack, htrim⟩ := trim_replaces hkey [] (text value ++ later)
  rw [List.nil_append, List.nil_append, List.length_nil] at htrim
  have hno : 0 ∉ MaestroCore.trim value := fun hmem => hvalue (mem_trim hmem)
  have hno' : 0 ∉ MaestroCore.stripInlineComment (MaestroCore.trim value) :=
    fun hmem => hno (mem_stripLoop hmem)
  have hops := ((trim_replaces hvalue).bind (stripInlineComment_replaces hno)).bind
    (trim_replaces hno')
  set key' := MaestroCore.trim key with hkey'
  set value' := MaestroCore.trim (MaestroCore.stripInlineComment (MaestroCore.trim value))
  -- the cells up to the value: the trimmed key, its NUL and what the trimming has left
  have hbefore : (text key' ++ slack).length = key.length + 1 := by
    rw [List.length_append, length_text]
    omega
  obtain ⟨slack', hslack', hvalueOps⟩ := hops (text key' ++ slack) later
  simp only [hbefore, Option.bind_assoc] at hvalueOps
  refine ⟨text key' ++ slack ++ (text value' ++ (slack' ++ later)), ?_, ?_, ?_, ?_⟩
  · simp only [cutPair, hcut, htrim, Option.bind_eq_bind, Option.bind_some]
    rw [← List.append_assoc]
    exact hvalueOps
  · rw [List.length_append, hbefore]
    simp only [List.length_append, List.length_cons, length_text]
    omega
  · rw [List.append_assoc]
    exact loadString_text (fun hmem => hkey (mem_trim hmem)) _
  · rw [List.drop_left' hbefore]
    exact loadString_text (fun hmem => hno' (mem_trim hmem)) _

/-- **What is in the array after a line is read and cut** are the key and the value of
`configPair`. -/
theorem splitLine_eq {line : Block UInt8} {piece : Bytes} (h : piece.length < line.length) :
    ∃ line' place, splitLine line piece = some (line', place) ∧ line'.length = line.length ∧
      HoldsPair line' place (configPair piece) := by
  obtain ⟨later, hread⟩ := exists_store_text h
  have hcstr : 0 ∉ cstr piece := fun hmem => cstr_noNul piece 0 hmem rfl
  obtain ⟨slack, hslack, htrim⟩ := trim_replaces hcstr [] later
  rw [List.nil_append, List.nil_append, List.length_nil] at htrim
  have hno : 0 ∉ MaestroCore.trim (cstr piece) := fun hmem => hcstr (mem_trim hmem)
  have hlength := length_store hread
  set rest := slack ++ later with hrest
  have htrimmed : (text (MaestroCore.trim (cstr piece)) ++ rest).length = line.length := by
    rw [← hlength, hrest]
    simp only [List.length_append, length_text]
    omega
  simp only [splitLine, hread, htrim, load_text_zero, Option.bind_eq_bind, Option.bind_some,
    configPair]
  generalize MaestroCore.trim (cstr piece) = trimmed at hno htrimmed
  have hskip : (trimmed.headD 0 = 35 ∨ trimmed.headD 0 = 0) ↔
      (trimmed.head? = some 35 ∨ trimmed = []) := by
    cases trimmed with
    | nil => simp
    | cons b _ => simp [show b ≠ 0 from fun hb => hno (by simp [hb])]
  simp only [hskip]
  split
  · exact ⟨_, none, rfl, htrimmed, trivial⟩
  · rw [strchrIndex_text hno, Option.bind_some]
    cases hsplit : strchr 61 trimmed with
    | none => exact ⟨_, none, rfl, htrimmed, trivial⟩
    | some xy =>
        obtain ⟨key, value⟩ := xy
        obtain ⟨rfl, -⟩ := strchr_eq_some_iff.mp hsplit
        have hkey : 0 ∉ key := fun hmem => hno (List.mem_append_left _ hmem)
        have hvalue : 0 ∉ value := fun hmem =>
          hno (List.mem_append_right _ (List.mem_cons_of_mem _ hmem))
        obtain ⟨line', hcut, hlen, hpair⟩ := cutPair_eq hkey hvalue rest
        simp only [Option.map_some, hcut, Option.bind_some]
        exact ⟨line', some (key.length + 1), rfl, hlen.trans htrimmed, hpair⟩

/-! ### Filling the buffers -/

/-- The value of a key after some pairs were read, cut to the size of its buffer. -/
def firstValue (maxValueLen : ℕ) (pairs : List (Bytes × Bytes)) (key : Option Bytes) :
    Option Bytes :=
  key.bind fun key => (pairs.lookup key).map (List.take (maxValueLen - 1))

/-- A buffer after a value was written into it, if there is one. -/
def filledBuffer (maxValueLen : ℕ) (buffer : Block UInt8) (value : Option Bytes) : Block UInt8 :=
  value.elim buffer (overwritten buffer maxValueLen)

/-- What the reader has for a key and its buffer after some pairs were read. -/
def slotAfter (maxValueLen : ℕ) (pairs : List (Bytes × Bytes)) (x : Option Bytes × Block UInt8) :
    ConfigSlot where
  key := x.1
  value := filledBuffer maxValueLen x.2 (firstValue maxValueLen pairs x.1)
  found := (firstValue maxValueLen pairs x.1).isSome

/-- A pair fills a slot's buffer when its key is the slot's and the slot is still empty. -/
theorem fillSlot_eq {line : Block UInt8} {value maxValueLen : ℕ} {pair : Bytes × Bytes}
    (hpair : HoldsPair line (some value) (some pair)) (hpos : 0 < maxValueLen)
    (pairs : List (Bytes × Bytes)) {x : Option Bytes × Block UInt8}
    (hfits : maxValueLen ≤ x.2.length) :
    fillSlot line value maxValueLen (slotAfter maxValueLen pairs x) =
      some (slotAfter maxValueLen (pairs ++ [pair]) x) := by
  obtain ⟨key, buffer⟩ := x
  cases key with
  | none => rfl
  | some key =>
      cases hfirst : pairs.lookup key with
      | some v => simp [fillSlot, slotAfter, firstValue, hfirst, List.lookup_append]
      | none =>
          have hslot : slotAfter maxValueLen pairs (some key, buffer) =
              ⟨some key, buffer, false⟩ := by
            simp [slotAfter, firstValue, filledBuffer, hfirst]
          rw [hslot, fillSlot]
          simp only [Bool.false_eq_true, if_false, hpair.1, hpair.2, Option.bind_eq_bind,
            Option.bind_some, copyString_eq hpos hfits]
          have hlookup : (pairs ++ [pair]).lookup key =
              if key = pair.1 then some pair.2 else none := by
            rw [List.lookup_append, hfirst, Option.none_or, List.lookup_cons]
            split <;> simp_all
          by_cases hname : key = pair.1
          · rw [if_pos hname] at hlookup ⊢
            simp [slotAfter, firstValue, filledBuffer, hlookup]
          · rw [if_neg hname] at hlookup ⊢
            simp [slotAfter, firstValue, filledBuffer, hlookup]

/-- A pair fills the buffers of all the slots that wait for its key. -/
theorem fillSlots_eq {line : Block UInt8} {value maxValueLen : ℕ} {pair : Bytes × Bytes}
    (hpair : HoldsPair line (some value) (some pair)) (hpos : 0 < maxValueLen)
    (pairs : List (Bytes × Bytes)) {arrays : List (Option Bytes × Block UInt8)}
    (hfits : ∀ x ∈ arrays, maxValueLen ≤ x.2.length) :
    fillSlots line value maxValueLen (arrays.map (slotAfter maxValueLen pairs)) =
      some (arrays.map (slotAfter maxValueLen (pairs ++ [pair]))) := by
  induction arrays with
  | nil => rfl
  | cons x arrays ih =>
      rw [List.forall_mem_cons] at hfits
      rw [List.map_cons, fillSlots, fillSlot_eq hpair hpos pairs hfits.1, Option.bind_eq_bind,
        Option.bind_some, ih hfits.2]
      rfl

/-- **The loop over the pieces keeps the slots in step with the pairs.** -/
theorem configGetLoop_eq {maxValueLen : ℕ} (hpos : 0 < maxValueLen) {pieces : List Bytes}
    {line : Block UInt8} (hpieces : ∀ piece ∈ pieces, piece.length < line.length)
    (pairs : List (Bytes × Bytes)) {arrays : List (Option Bytes × Block UInt8)}
    (hfits : ∀ x ∈ arrays, maxValueLen ≤ x.2.length) :
    configGetLoop maxValueLen pieces line (arrays.map (slotAfter maxValueLen pairs)) =
      some (arrays.map (slotAfter maxValueLen (pairs ++ pieces.filterMap configPair))) := by
  induction pieces generalizing line pairs with
  | nil => rw [configGetLoop, List.filterMap_nil, List.append_nil]
  | cons piece pieces ih =>
      rw [List.forall_mem_cons] at hpieces
      obtain ⟨line', place, hsplit, hlength, hpair⟩ := splitLine_eq hpieces.1
      rw [← hlength] at hpieces
      rw [configGetLoop, hsplit, Option.bind_eq_bind, Option.bind_some]
      cases place with
      | none =>
          cases hconfig : configPair piece with
          | some pair => rw [hconfig] at hpair; cases hpair
          | none =>
              rw [List.filterMap_cons, hconfig]
              exact ih hpieces.2 pairs
      | some value =>
          cases hconfig : configPair piece with
          | none => rw [hconfig] at hpair; cases hpair
          | some pair =>
              rw [hconfig] at hpair
              have hlater := ih hpieces.2 (pairs ++ [pair])
              rw [List.append_assoc, List.singleton_append] at hlater
              rw [List.filterMap_cons, hconfig]
              simp only [fillSlots_eq hpair hpos pairs hfits]
              exact hlater

/-- Every piece that `fgets` reads fits into the array. -/
theorem length_lt_of_mem_configPieces {file piece : Bytes} (h : piece ∈ configPieces file) :
    piece.length < 512 :=
  Nat.lt_succ_of_le (length_le_of_mem_readLoop h)

/-- **The reader in its buffers does what `configGetValue` says.** For every file, every array of
keys and buffers that have room for `maxValueLen` bytes, no access is outside of an array or to
a byte that was never written; the result is the one of `configGetValue`, a buffer whose value
was taken holds it, and every other buffer is as it was. -/
theorem configGetValue_eq {line : Block UInt8} {maxValueLen : ℕ}
    {arrays : List (Option Bytes × Block UInt8)} (hline : line.length = 512)
    (hfits : ∀ x ∈ arrays, maxValueLen ≤ x.2.length) (file : Option Bytes) :
    configGetValue line file arrays maxValueLen =
      some ((MaestroCore.configGetValue file (arrays.map Prod.fst) maxValueLen).1,
        List.zipWith (fun x value => filledBuffer maxValueLen x.2 value) arrays
          (MaestroCore.configGetValue file (arrays.map Prod.fst) maxValueLen).2.values) := by
  have hstart : List.zipWith (fun x value => filledBuffer maxValueLen x.2 value) arrays
      (ConfigRead.start (arrays.map Prod.fst)).values = arrays.map Prod.snd := by
    refine List.ext_getElem (by simp [ConfigRead.start]) fun i _ _ => ?_
    simp [ConfigRead.start, filledBuffer]
  have hskip : (maxValueLen = 0 ∨ arrays.map Prod.fst = []) ↔ (maxValueLen = 0 ∨ arrays = []) := by
    rw [List.map_eq_nil_iff]
  rw [configGetValue.eq_def, MaestroCore.configGetValue.eq_def]
  simp only [hskip]
  by_cases hargs : maxValueLen = 0 ∨ arrays = []
  · simp only [if_pos hargs, hstart]
  · simp only [if_neg hargs]
    cases file with
    | none => simp only [hstart]
    | some file =>
        have hpos : 0 < maxValueLen := Nat.pos_of_ne_zero (not_or.mp hargs).1
        have hpieces : ∀ piece ∈ configPieces file, piece.length < line.length := by
          rw [hline]
          exact fun piece hmem => length_lt_of_mem_configPieces hmem
        have hloop := configGetLoop_eq hpos hpieces [] hfits
        rw [List.nil_append, ← filePairs] at hloop
        have hvalues : (MaestroCore.configGetLoop (arrays.map Prod.fst) maxValueLen file).values =
            arrays.map fun x => firstValue maxValueLen (filePairs file) x.1 := by
          rw [values_configGetLoop, List.map_map]
          rfl
        have hslots : (arrays.map fun x => ({ key := x.1, value := x.2 } : ConfigSlot)) =
            arrays.map (slotAfter maxValueLen []) := by
          refine List.map_congr_left fun x _ => ?_
          cases hkey : x.1 <;> simp [slotAfter, firstValue, filledBuffer, hkey]
        simp only [hslots, hloop, hvalues, Option.bind_eq_bind, Option.bind_some]
        rw [List.all_map, List.all_map, List.map_map, List.zipWith_map_right, List.zipWith_self]
        rfl

end InPlace

end MaestroCore
