import Mathlib.Data.List.DropRight
import Mathlib.Data.List.Infix

/-!
# First Occurrence of a Pattern

This module defines `List.firstOcc`, the index of the first occurrence of a pattern in
a list, which is what a left-to-right byte scan computes. The list it is applied to is
usually a buffer that has received only part of a stream, so the lemmas relate the scan
of a prefix to the scan of the whole.

## Main results

* `firstOcc_append`: an occurrence found in a prefix is the one found in the whole.
* `firstOcc_front`: the scan of a prefix finds the occurrence of the whole exactly
  when the prefix is long enough to contain it.
* `firstOcc_eq_split`: an occurrence splits the list around the pattern.
* `firstOcc_isSome_iff`: the scan finds a pattern exactly when the list contains it.
* `infix_dropWhile` and `infix_rdropWhile`: trimming a list keeps a pattern that is not
  trimmed itself.
* `exists_split_of_length_le`: what a stream starts with can be split off a buffer that is
  long enough.
* `exists_first_or_none`: a list is cut at its first element with a property.
-/

namespace List

variable {α : Type*} [DecidableEq α]

/-- The index of the **first occurrence** of the pattern `p`: the least position at
which `p` is a prefix of what remains. -/
def firstOcc (p : List α) : List α → Option ℕ
  | [] => if p = [] then some 0 else none
  | x :: xs => if p <+: x :: xs then some 0 else (firstOcc p xs).map (· + 1)

/-- A pattern that starts the list occurs at index zero. -/
theorem firstOcc_of_starts {p l : List α} (h : p <+: l) : firstOcc p l = some 0 := by
  cases l with
  | nil => simp [firstOcc, List.prefix_nil.mp h]
  | cons x xs => rw [firstOcc, if_pos h]

/-- When the pattern does not start here, the scan moves on by one element. -/
theorem firstOcc_cons_of_not_starts {p xs : List α} {x : α} (h : ¬ p <+: x :: xs) :
    firstOcc p (x :: xs) = (firstOcc p xs).map (· + 1) := by
  rw [firstOcc, if_neg h]

/-- A non-empty pattern does not occur in the empty list. -/
theorem firstOcc_nil {p : List α} (hp : p ≠ []) : firstOcc p [] = none := by
  rw [firstOcc, if_neg hp]

/-- An occurrence splits the list around the pattern. -/
theorem firstOcc_eq_split {p l : List α} {i : ℕ} (h : firstOcc p l = some i) :
    ∃ pre post, l = pre ++ p ++ post ∧ pre.length = i := by
  induction l generalizing i with
  | nil =>
      by_cases hp : p = []
      · subst hp
        simp only [firstOcc, if_true, Option.some.injEq] at h
        exact ⟨[], [], rfl, h⟩
      · rw [firstOcc_nil hp] at h
        exact absurd h (by simp)
  | cons x xs ih =>
      by_cases hpre : p <+: x :: xs
      · rw [firstOcc_of_starts hpre, Option.some.injEq] at h
        obtain ⟨post, hpost⟩ := hpre
        exact ⟨[], post, by simp [hpost], h⟩
      · rw [firstOcc_cons_of_not_starts hpre, Option.map_eq_some_iff] at h
        obtain ⟨j, hj, rfl⟩ := h
        obtain ⟨pre, post, rfl, hlen⟩ := ih hj
        exact ⟨x :: pre, post, by simp, by simp [hlen]⟩

/-- An occurrence lies inside the list. -/
theorem firstOcc_add_length_le {p l : List α} {i : ℕ} (h : firstOcc p l = some i) :
    i + p.length ≤ l.length := by
  obtain ⟨pre, post, rfl, rfl⟩ := firstOcc_eq_split h
  simp only [List.length_append]
  omega

/-- An occurrence found in a prefix is the first one of the whole list. -/
theorem firstOcc_append {p l : List α} {i : ℕ} (h : firstOcc p l = some i) (m : List α) :
    firstOcc p (l ++ m) = some i := by
  induction l generalizing i with
  | nil =>
      have hp : p = [] := by
        by_contra hp
        rw [firstOcc_nil hp] at h
        exact absurd h (by simp)
      subst hp
      simp only [firstOcc, if_true, Option.some.injEq] at h
      subst h
      exact firstOcc_of_starts (List.nil_prefix)
  | cons x xs ih =>
      by_cases hpre : p <+: x :: xs
      · rw [firstOcc_of_starts hpre, Option.some.injEq] at h
        subst h
        exact firstOcc_of_starts (hpre.trans (List.prefix_append _ _))
      · rw [firstOcc_cons_of_not_starts hpre, Option.map_eq_some_iff] at h
        obtain ⟨j, hj, rfl⟩ := h
        have hlen := firstOcc_add_length_le hj
        have hpre' : ¬ p <+: x :: (xs ++ m) := by
          intro hc
          exact hpre (List.prefix_of_prefix_length_le hc
            (List.prefix_append (x :: xs) m) (by simp; omega))
        rw [List.cons_append, firstOcc_cons_of_not_starts hpre', ih hj]
        rfl

/-- An occurrence of the whole list that lies inside a prefix is found in the prefix. -/
theorem firstOcc_of_append {p b m : List α} {i : ℕ} (h : firstOcc p (b ++ m) = some i)
    (hle : i + p.length ≤ b.length) : firstOcc p b = some i := by
  induction b generalizing i with
  | nil =>
      have hp : p = [] := by
        rw [List.length_nil] at hle
        exact List.length_eq_zero_iff.mp (by omega)
      subst hp
      have hi : i = 0 := by simpa using hle
      simp [firstOcc, hi]
  | cons x xs ih =>
      rw [List.cons_append] at h
      by_cases hpre : p <+: x :: (xs ++ m)
      · rw [firstOcc_of_starts hpre, Option.some.injEq] at h
        subst h
        exact firstOcc_of_starts (List.prefix_of_prefix_length_le hpre
          (List.prefix_append (x :: xs) m) (by simpa using hle))
      · rw [firstOcc_cons_of_not_starts hpre, Option.map_eq_some_iff] at h
        obtain ⟨j, hj, rfl⟩ := h
        have hpre' : ¬ p <+: x :: xs := fun hc =>
          hpre (hc.trans (List.prefix_append (x :: xs) m))
        have hle' : j + p.length ≤ xs.length := by
          simp only [List.length_cons] at hle
          omega
        rw [firstOcc_cons_of_not_starts hpre', ih hj hle']
        rfl

/-- **The scan of a prefix**: it finds the occurrence of the whole list exactly when
the prefix is long enough to contain it, and nothing otherwise. -/
theorem firstOcc_front {p b m : List α} {i : ℕ} (h : firstOcc p (b ++ m) = some i) :
    firstOcc p b = if i + p.length ≤ b.length then some i else none := by
  split
  · rename_i hle
    exact firstOcc_of_append h hle
  · rename_i hlt
    cases hb : firstOcc p b with
    | none => rfl
    | some j =>
        have hj := firstOcc_append hb m
        rw [h, Option.some.injEq] at hj
        subst hj
        exact absurd (firstOcc_add_length_le hb) hlt

/-- The scan finds a pattern exactly when the list contains it. -/
theorem firstOcc_isSome_iff {p l : List α} : (firstOcc p l).isSome ↔ p <:+: l := by
  induction l with
  | nil => simp [firstOcc]
  | cons x xs ih =>
      rw [firstOcc, List.infix_cons_iff]
      split <;> simp [*]

/-- Trimming a list at its front keeps a pattern that is not trimmed itself. -/
theorem infix_dropWhile {α : Type*} {q : α → Bool} {p l : List α} (hp : p ≠ [])
    (hq : p.dropWhile q = p) (h : p <:+: l) : p <:+: l.dropWhile q := by
  obtain ⟨pre, post, rfl⟩ := h
  have hdrop : (p ++ post).dropWhile q = p ++ post := by
    rw [List.dropWhile_append, hq, if_neg (by simpa using hp)]
  rw [List.append_assoc, List.dropWhile_append]
  split
  · rw [hdrop]
    exact (List.prefix_append p post).isInfix
  · exact ⟨_, post, by rw [List.append_assoc]⟩

/-- What is trimmed off the end of a list can be trimmed first. -/
theorem rdropWhile_append_of_pos {α : Type*} {q : α → Bool} {l later : List α}
    (h : ∀ b ∈ later, q b = true) : (l ++ later).rdropWhile q = l.rdropWhile q := by
  rw [List.rdropWhile, List.reverse_append,
    List.dropWhile_append_of_pos fun b hb => h b (List.mem_reverse.mp hb), List.rdropWhile]

/-- Trimming a list at its end keeps a pattern that is not trimmed itself. -/
theorem infix_rdropWhile {α : Type*} {q : α → Bool} {p l : List α} (hp : p ≠ [])
    (hq : p.rdropWhile q = p) (h : p <:+: l) : p <:+: l.rdropWhile q := by
  rw [← List.reverse_infix, List.rdropWhile, List.reverse_reverse]
  refine infix_dropWhile (by simpa using hp) ?_ (List.reverse_infix.mpr h)
  rw [← List.reverse_inj, List.reverse_reverse]
  exact hq

/-- Two ways of writing one list: when the first part `p` of one lies inside the first part
`b` of the other, it can be split off there. -/
theorem exists_split_of_length_le {α : Type*} {b m p q : List α} (h : b ++ m = p ++ q)
    (hle : p.length ≤ b.length) : ∃ r, b = p ++ r ∧ r ++ m = q := by
  obtain ⟨r, rfl⟩ : p <+: b :=
    List.prefix_of_prefix_length_le (h ▸ List.prefix_append p q) (List.prefix_append b m) hle
  rw [List.append_assoc] at h
  exact ⟨r, rfl, List.append_cancel_left h⟩

/-- A list is cut at its first element with a property, or has none. -/
theorem exists_first_or_none {α : Type*} (p : α → Bool) (l : List α) :
    (∃ pre a post, l = pre ++ a :: post ∧ (∀ x ∈ pre, p x = false) ∧ p a = true) ∨
      ∀ a ∈ l, p a = false := by
  cases hfind : l.find? p with
  | none =>
      right
      simpa [List.find?_eq_none] using hfind
  | some a =>
      obtain ⟨ha, pre, post, heq, hpre⟩ := List.find?_eq_some_iff_append.mp hfind
      exact Or.inl ⟨pre, a, post, heq, by simpa using hpre, ha⟩

end List
