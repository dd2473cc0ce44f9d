import Mathlib.Data.List.Infix
import Mathlib.Data.Nat.Notation
import Mathlib.Logic.Relation

/-!
# A Buffer Between a Stream and Its Reader

A reader holds a buffer. It appends elements from the front of a stream to the buffer's end,
drops elements from the buffer's front, and sometimes copies what it drops to an output. The
`Ledger` of such a reader keeps the elements that have left the buffer as well, so that none
of the stream is forgotten.

## Main results

* `Run.stream_eq`: consumed, buffered and pending elements are the stream, at every moment.
* `Run.consumed_grows`: what has been consumed is only ever extended.
* `Run.piecesOf`: the output consists of pieces of what has been consumed, in order.
-/

namespace StreamBuffer

variable {α : Type*}

/-- The second list is the concatenation, in order, of disjoint pieces of the first. -/
inductive PiecesOf : List α → List α → Prop
  | nil : PiecesOf [] []
  | skip {xs out : List α} (gap : List α) : PiecesOf xs out → PiecesOf (xs ++ gap) out
  | take {xs out : List α} (piece : List α) :
      PiecesOf xs out → PiecesOf (xs ++ piece) (out ++ piece)

/-- What a reader has done with a stream: the elements it is finished with, those in its
buffer, those it has not read, and its output. -/
structure Ledger (α : Type*) where
  consumed : List α
  buffer : List α
  pending : List α
  output : List α

/-- The whole stream. -/
def Ledger.stream (l : Ledger α) : List α := l.consumed ++ (l.buffer ++ l.pending)

/-- The ledger before anything is read. -/
def Ledger.initial (stream : List α) : Ledger α := ⟨[], [], stream, []⟩

/-- The operations of a reader. It drops and copies no more than its buffer holds. -/
inductive Step : Ledger α → Ledger α → Prop
  | read {cs buf out : List α} (b p : List α) :
      Step ⟨cs, buf, b ++ p, out⟩ ⟨cs, buf ++ b, p, out⟩
  | drop {cs buf p out : List α} (n : ℕ) (hn : n ≤ buf.length) :
      Step ⟨cs, buf, p, out⟩ ⟨cs ++ buf.take n, buf.drop n, p, out⟩
  | copy {cs buf p out : List α} (n : ℕ) (hn : n ≤ buf.length) :
      Step ⟨cs, buf, p, out⟩ ⟨cs ++ buf.take n, buf.drop n, p, out ++ buf.take n⟩

/-- A step neither adds to the stream nor takes from it. -/
theorem Step.stream_eq {l l' : Ledger α} (h : Step l l') : l'.stream = l.stream := by
  cases h with
  | read b p => simp [Ledger.stream]
  | drop n | copy n =>
      simp only [Ledger.stream]
      rw [List.append_assoc, ← List.append_assoc (List.take _ _), List.take_append_drop]

/-- A step only adds to what is consumed. -/
theorem Step.consumed_grows {l l' : Ledger α} (h : Step l l') :
    l.consumed <+: l'.consumed := by
  cases h with
  | read b p => exact List.prefix_rfl
  | drop n | copy n => exact List.prefix_append _ _

/-- If the output was made of pieces of what is consumed, it is so after a step. -/
theorem Step.piecesOf {l l' : Ledger α} (h : Step l l') (hl : PiecesOf l.consumed l.output) :
    PiecesOf l'.consumed l'.output := by
  cases h with
  | read b p => exact hl
  | drop n => exact hl.skip _
  | copy n => exact hl.take _

/-- A sequence of operations. -/
def Run : Ledger α → Ledger α → Prop := Relation.ReflTransGen Step

/-- Nothing is a run. -/
theorem Run.refl (l : Ledger α) : Run l l := Relation.ReflTransGen.refl

/-- A single step is a run. -/
theorem Run.single {l l' : Ledger α} (h : Step l l') : Run l l' :=
  Relation.ReflTransGen.single h

/-- Two runs in a row are a run. -/
theorem Run.trans {l l' l'' : Ledger α} (h : Run l l') (h' : Run l' l'') : Run l l'' :=
  Relation.ReflTransGen.trans h h'

/-- **Conservation.** Consumed, buffered and pending elements are the stream. -/
theorem Run.stream_eq {l l' : Ledger α} (h : Run l l') : l'.stream = l.stream := by
  induction h with
  | refl => rfl
  | tail _ hstep ih => exact hstep.stream_eq.trans ih

/-- What has been consumed is only ever extended. -/
theorem Run.consumed_grows {l l' : Ledger α} (h : Run l l') : l.consumed <+: l'.consumed := by
  induction h with
  | refl => exact List.prefix_rfl
  | tail _ hstep ih => exact ih.trans hstep.consumed_grows

/-- The output consists of pieces of what has been consumed, in order. -/
theorem Run.piecesOf {l l' : Ledger α} (h : Run l l') (hl : PiecesOf l.consumed l.output) :
    PiecesOf l'.consumed l'.output := by
  induction h with
  | refl => exact hl
  | tail _ hstep ih => exact hstep.piecesOf ih

end StreamBuffer
