import Mathlib.Algebra.BigOperators.Group.Finset.Basic
import Mathlib.Data.Fintype.BigOperators
import Mathlib.Tactic.Abel

/-!
# Threads with Local States

A system of threads has a shared state and one local state for each thread. What the threads
hold together is a sum over their local states, in any commutative monoid: a number of
threads, or the multiset of the things that they hold. A step of one thread changes one
summand.

## Main results

* `sum_update`: what a step of one thread does to the sum.
* `balance_update`: a step of one thread keeps the balance between what was taken, what is
  done and what the threads hold.
-/

namespace Threads

variable {ι κ M : Type*} [Fintype ι] [DecidableEq ι] [AddCommMonoid M]
  (f : ι → κ → M) (threads : ι → κ)

/-- **A step of one thread changes one summand.** -/
theorem sum_update (i : ι) (x : κ) :
    ∑ j, f j (Function.update threads i x j) + f i (threads i) =
      ∑ j, f j (threads j) + f i x := by
  have hrest : ∑ j ∈ Finset.univ.erase i, f j (Function.update threads i x j) =
      ∑ j ∈ Finset.univ.erase i, f j (threads j) := by
    refine Finset.sum_congr rfl fun j hj => ?_
    rw [Function.update_of_ne (Finset.ne_of_mem_erase hj)]
  rw [← Finset.add_sum_erase _ _ (Finset.mem_univ i), hrest, Function.update_self,
    ← Finset.add_sum_erase Finset.univ (fun j => f j (threads j)) (Finset.mem_univ i)]
  abel

variable {f threads}

/-- **The books stay balanced**: what was taken is what is done and what the threads hold, when
it was so before and the step of one thread accounts for what it takes, does and holds. -/
theorem balance_update [IsCancelAdd M] {taken done taken' done' : M} {i : ι} {x : κ}
    (h : taken = done + ∑ j, f j (threads j))
    (hstep : taken' + (done + f i (threads i)) = taken + (done' + f i x)) :
    taken' = done' + ∑ j, f j (Function.update threads i x j) := by
  have hsum := sum_update f threads i x
  refine add_right_cancel (b := done + f i (threads i)) ?_
  rw [hstep, h]
  calc done + ∑ j, f j (threads j) + (done' + f i x)
      = done' + done + (∑ j, f j (threads j) + f i x) := by
        abel
    _ = done' + done + (∑ j, f j (Function.update threads i x j) + f i (threads i)) := by
        rw [hsum]
    _ = done' + ∑ j, f j (Function.update threads i x j) + (done + f i (threads i)) := by
        abel

end Threads
