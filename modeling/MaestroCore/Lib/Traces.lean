import Mathlib.Algebra.Order.BigOperators.Group.Finset
import Mathlib.Tactic.Ring

/-!
# Runs of a Labelled Relation

A relation `R s x t` with a label on every step leads from one state to another along a list of
labels. How many steps of one kind a run can have follows from what a single step does, if
it pays for itself out of a potential of the state.

## Main results

* `Trace.invariant`: what every step keeps holds at the end of a trace.
* `Trace.countP_le`: the number of the steps of one kind is bounded by the potential at the
  start and by what the other steps bring in.
-/

namespace Traces

variable {σ α : Type*} {R R' : σ → α → σ → Prop} {a b c : σ} {xs ys : List α}

/-- The labelled relation leads from one state to the other along the labels. -/
inductive Trace (R : σ → α → σ → Prop) : σ → List α → σ → Prop
  | nil (s : σ) : Trace R s [] s
  | cons {s t u : σ} {x : α} {xs : List α} (h : R s x t) (ht : Trace R t xs u) :
      Trace R s (x :: xs) u

/-- Two runs in a row are a run. -/
theorem Trace.append (h : Trace R a xs b) (h' : Trace R b ys c) : Trace R a (xs ++ ys) c := by
  induction h with
  | nil _ => exact h'
  | cons hstep _ ih => exact .cons hstep (ih h')

/-- A run stays one when more steps are allowed. -/
theorem Trace.mono (hle : ∀ s x t, R s x t → R' s x t) (h : Trace R a xs b) : Trace R' a xs b := by
  induction h with
  | nil s => exact .nil s
  | cons hstep _ ih => exact .cons (hle _ _ _ hstep) ih

/-- What every step keeps holds at the end of a trace. -/
theorem Trace.invariant {I : σ → Prop} (hstep : ∀ s x t, R s x t → I s → I t)
    (h : Trace R a xs b) (ha : I a) : I b := by
  induction h with
  | nil _ => exact ha
  | cons hxy _ ih => exact ih (hstep _ _ _ hxy ha)

/-- **The potential rule.** If every step of a kind pays one unit, out of the potential and of
what its label brings in, then their number is bounded by the potential and by all that is
brought in. -/
theorem Trace.countP_le (μ : σ → ℕ) (p : α → Bool) (gain : α → ℕ)
    (hstep : ∀ s x t, R s x t → μ t + (if p x then 1 else 0) ≤ μ s + gain x)
    (h : Trace R a xs b) : μ b + xs.countP p ≤ μ a + (xs.map gain).sum := by
  induction h with
  | nil _ => exact Nat.le_refl _
  | cons hxy _ ih =>
      have hfirst := hstep _ _ _ hxy
      rw [List.countP_cons, List.map_cons, List.sum_cons]
      omega

end Traces
