import Mathlib.Algebra.Order.BigOperators.Group.List
import Mathlib.Data.List.Infix
import MaestroCore.TimeUtils

/-!
# The Average of an Array

`math_get_avg_int` from `math_utils.h`. It adds the inputs up in an `int` and divides the sum
by their number, which rounds toward zero. A partial sum that is no `int` makes the function
undefined, whatever the inputs after it are.

## Main results

* `sumLoop_eq_ok`: the loop has a result iff every partial sum is an `int`.
* `average_between`: an average lies between two of the inputs.
* `average_exact_iff`: the exact average is returned iff every partial sum is an `int`.
-/

namespace MaestroCore

/-- What makes a function of `math_utils.h` undefined. -/
inductive MathFault
  | overflow
  | outOfBounds
  deriving DecidableEq, Repr

/-- The loop of `math_get_avg_int`: the iterations that are left, the inputs from `_inputs[i]`
on, and `counter`. -/
def sumLoop : ℕ → List ℤ → ℤ → Except MathFault ℤ
  | 0, _, counter => .ok counter
  | _ + 1, [], _ => .error .outOfBounds
  | n + 1, input :: inputs, counter =>
      if IsInt (counter + input) then sumLoop n inputs (counter + input) else .error .overflow

/-- `math_get_avg_int`. `none` stands for `NULL`. -/
def mathGetAvgInt (inputs : Option (List ℤ)) (count : ℤ) : Except MathFault ℤ :=
  match inputs with
  | none => .ok 0
  | some inputs =>
      if count ≤ 0 then .ok 0
      else (sumLoop count.toNat inputs 0).map fun counter => counter.tdiv count

/-- **The loop has a result iff every partial sum is an `int`.** -/
theorem sumLoop_eq_ok {inputs : List ℤ} {counter sum : ℤ} (hcounter : IsInt counter) :
    sumLoop inputs.length inputs counter = .ok sum ↔
      (∀ first, first <+: inputs → IsInt (counter + first.sum)) ∧ counter + inputs.sum = sum := by
  induction inputs generalizing counter with
  | nil => simpa [sumLoop] using fun _ => hcounter
  | cons input inputs ih =>
      have hfirst : (∀ first, first <+: input :: inputs → IsInt (counter + first.sum)) ↔
          ∀ first, first <+: inputs → IsInt (counter + input + first.sum) := by
        constructor
        · intro h first hpre
          have hint := h (input :: first) (List.cons_prefix_cons.mpr ⟨rfl, hpre⟩)
          rwa [List.sum_cons, ← add_assoc] at hint
        · intro h first hpre
          rcases List.prefix_cons_iff.mp hpre with rfl | ⟨later, rfl, hlater⟩
          · simpa using hcounter
          · rw [List.sum_cons, ← add_assoc]
            exact h later hlater
      rw [List.length_cons, sumLoop, hfirst, List.sum_cons, ← add_assoc]
      split
      · rename_i hint
        exact ih hint
      · rename_i hover
        -- the sum with this input alone is a partial sum
        refine iff_of_false nofun fun h => hover ?_
        simpa using h.1 [] List.nil_prefix

/-- An average lies between two of the inputs. -/
theorem average_between {inputs : List ℤ} (hne : inputs ≠ []) :
    (∃ x ∈ inputs, x ≤ inputs.sum.tdiv inputs.length) ∧
      ∃ x ∈ inputs, inputs.sum.tdiv inputs.length ≤ x := by
  have hpos : (0 : ℤ) < inputs.length := by
    exact_mod_cast List.length_pos_iff.mpr hne
  set average := inputs.sum.tdiv inputs.length with haverage
  constructor
  · by_contra! hall
    have hsum := List.card_nsmul_le_sum inputs (average + 1) hall
    rw [nsmul_eq_mul] at hsum
    have hle := Int.tdiv_le_tdiv hpos hsum
    rw [Int.mul_tdiv_cancel_left _ hpos.ne', ← haverage] at hle
    omega
  · by_contra! hall
    have hsum := List.sum_le_card_nsmul inputs (average - 1) fun x hx =>
      Int.le_sub_one_of_lt (hall x hx)
    rw [nsmul_eq_mul] at hsum
    have hle := Int.tdiv_le_tdiv hpos hsum
    rw [Int.mul_tdiv_cancel_left _ hpos.ne', ← haverage] at hle
    omega

/-- **When the average is exact.** For every array that is not empty, the sum divided by the
number of the inputs is returned, rounded toward zero and between the smallest and the largest
input, iff the sum of the first inputs is an `int`, however many of them are taken. -/
theorem average_exact_iff {inputs : List ℤ} (hne : inputs ≠ []) :
    (∃ average, mathGetAvgInt (some inputs) inputs.length = .ok average ∧
      average = inputs.sum.tdiv inputs.length ∧
      (∃ x ∈ inputs, x ≤ average) ∧ ∃ x ∈ inputs, average ≤ x) ↔
    ∀ first, first <+: inputs → IsInt first.sum := by
  have hpos : ¬ (inputs.length : ℤ) ≤ 0 := by
    rw [not_le]
    exact_mod_cast List.length_pos_iff.mpr hne
  have hloop : sumLoop inputs.length inputs 0 = .ok inputs.sum ↔
      (∀ first, first <+: inputs → IsInt (0 + first.sum)) ∧ 0 + inputs.sum = inputs.sum :=
    sumLoop_eq_ok (by decide)
  simp only [zero_add, and_true] at hloop
  rw [← hloop, mathGetAvgInt]
  simp only [if_neg hpos, Int.toNat_natCast]
  constructor
  · rintro ⟨average, hok, -⟩
    cases hsum : sumLoop inputs.length inputs 0 with
    | error fault =>
        rw [hsum] at hok
        cases hok
    | ok sum =>
        have hexact := ((sumLoop_eq_ok (by decide)).mp hsum).2
        rw [← hexact, zero_add]
  · intro hsum
    rw [hsum]
    exact ⟨_, rfl, rfl, average_between hne⟩

/-- The average of three temperatures. -/
theorem average_of_three :
    ∃ average, mathGetAvgInt (some [-3, 4, -3]) 3 = .ok average ∧
      average = [-3, 4, -3].sum.tdiv 3 ∧
      (∃ x ∈ [-3, 4, -3], x ≤ average) ∧ ∃ x ∈ [-3, 4, -3], average ≤ x :=
  (average_exact_iff (List.cons_ne_nil (-3) [4, -3])).mpr fun first hfirst => by
    rw [← List.mem_inits] at hfirst
    revert first
    decide

/-- **The sum overflows**, although the average of the two inputs is an `int`. -/
theorem average_overflows :
    (∀ x ∈ [2147483647, 1], IsInt x) ∧ ([2147483647, 1] : List ℤ).sum.tdiv 2 = 1073741824 ∧
    mathGetAvgInt (some [2147483647, 1]) 2 = .error .overflow := by
  decide

end MaestroCore
