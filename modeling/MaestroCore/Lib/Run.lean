import Mathlib.Data.Nat.Notation
import Mathlib.Logic.Relation

/-!
# Runs of a Partial Deterministic Step Function

A machine is a step function `step : σ → Except ε σ`: the next state, or the fault that
stops it. `Reaches step a b` says that the run from `a` passes through `b`. The run is
deterministic, so two states of one run are comparable, and a state that steps to itself
is where the run stays.

## Main results

* `Reaches.total`: two states of one run are ordered by the run.
* `run_invariant` and `Reaches.invariant`: a property that one step keeps holds in every state
  of the run.
* `exists_goal_of_measure`: a run whose steps keep an invariant and decrease a measure
  until the goal holds reaches the goal.
* `Reaches.simulate` and `Reaches.lockstep`: a relation between the states of two machines
  that every step keeps relates every state of one run to a state of the other.
* `run_simulates` and `fixed_of_run`: a machine that answers the steps of another one, when their
  faults are of different types.
* `reaches_of_run` and `forall_reaches_of_absorbing`: the executable iteration `run` computes
  the states of the run.
-/

namespace Run

variable {σ ε : Type*} {step : σ → Except ε σ} {a b c : σ}

/-- The run from `a` passes through `b`. -/
def Reaches (step : σ → Except ε σ) : σ → σ → Prop :=
  Relation.ReflTransGen fun a b => step a = .ok b

/-- Every state reaches itself. -/
theorem Reaches.refl (a : σ) : Reaches step a a :=
  Relation.ReflTransGen.refl

/-- What is reached from a reached state is reached. -/
theorem Reaches.trans (hab : Reaches step a b) (hbc : Reaches step b c) :
    Reaches step a c :=
  Relation.ReflTransGen.trans hab hbc

/-- A step can be put in front of a run. -/
theorem Reaches.head (hab : step a = .ok b) (hbc : Reaches step b c) : Reaches step a c :=
  Relation.ReflTransGen.head hab hbc

/-- A step can be put at the end of a run. -/
theorem Reaches.tail (hab : Reaches step a b) (hbc : step b = .ok c) : Reaches step a c :=
  Relation.ReflTransGen.tail hab hbc

/-- A single step is a run. -/
theorem Reaches.single (hab : step a = .ok b) : Reaches step a b :=
  Relation.ReflTransGen.single hab

/-- A run is where it started, or its first step has been taken. -/
theorem Reaches.cases_first (h : Reaches step a c) :
    a = c ∨ ∃ b, step a = .ok b ∧ Reaches step b c :=
  Relation.ReflTransGen.cases_head h

/-- Two states of one run are ordered by the run. -/
theorem Reaches.total (hab : Reaches step a b) (hac : Reaches step a c) :
    Reaches step b c ∨ Reaches step c b := by
  refine Relation.ReflTransGen.total_of_right_unique ?_ hab hac
  intro x y z hxy hxz
  exact Except.ok.inj (hxy.symm.trans hxz)

/-- What every step of a relation keeps holds in every state of its runs. -/
theorem run_invariant {R : σ → σ → Prop} {I : σ → Prop} (hstep : ∀ x y, R x y → I x → I y)
    (h : Relation.ReflTransGen R a b) (ha : I a) : I b := by
  induction h with
  | refl => exact ha
  | tail _ hxy ih => exact hstep _ _ hxy ih

/-- A property that one step keeps holds in every state of the run. -/
theorem Reaches.invariant {I : σ → Prop} (hstep : ∀ x y, step x = .ok y → I x → I y)
    (h : Reaches step a b) (ha : I a) : I b :=
  run_invariant hstep h ha

/-- The run stays in a state that steps to itself. -/
theorem Reaches.eq_of_fixed (hfix : step a = .ok a) (h : Reaches step a b) : b = a := by
  refine Reaches.invariant (I := fun x => x = a) ?_ h rfl
  intro x y hxy hx
  subst hx
  exact Except.ok.inj (hxy.symm.trans hfix)

/-- Every state of a run that ends in a fixed state still leads to that state. -/
theorem Reaches.to_fixed (hfix : step b = .ok b) (hab : Reaches step a b)
    (hac : Reaches step a c) : Reaches step c b := by
  rcases hab.total hac with hbc | hcb
  · rw [hbc.eq_of_fixed hfix]
    exact .refl b
  · exact hcb

/-- Two fixed states of one run are the same state. -/
theorem Reaches.fixed_unique (hb : step b = .ok b) (hc : step c = .ok c)
    (hab : Reaches step a b) (hac : Reaches step a c) : b = c :=
  (hab.to_fixed hb hac).eq_of_fixed hc

/-- The run stops at a state whose step is a fault. -/
theorem Reaches.eq_of_fault {e : ε} (hfault : step a = .error e) (h : Reaches step a b) :
    b = a := by
  rcases h.cases_first with rfl | ⟨c, hc, -⟩
  · rfl
  · rw [hfault] at hc
    cases hc

/-- A run that comes to a fixed state meets no fault on the way. -/
theorem Reaches.exists_step (hfix : step b = .ok b) (hab : Reaches step a b)
    (hac : Reaches step a c) : ∃ d, step c = .ok d := by
  rcases (hab.to_fixed hfix hac).cases_first with rfl | ⟨d, hd, -⟩
  · exact ⟨c, hfix⟩
  · exact ⟨d, hd⟩

/-- **The measure rule.** If every state of the invariant that is not yet a goal has a
step that keeps the invariant and decreases the measure, the run reaches a goal inside
the invariant. A relation to the goal that can be carried back over these steps holds in
every state of the run, unless the state comes after the goal. -/
theorem exists_goal_of_measure {I G : σ → Prop} {R : σ → σ → Prop} (μ : σ → ℕ)
    (hgoal : ∀ x, I x → G x → R x x)
    (hstep : ∀ x, I x → ¬ G x →
      ∃ y, step x = .ok y ∧ I y ∧ μ y < μ x ∧ ∀ z, R y z → R x z) (ha : I a) :
    ∃ b, Reaches step a b ∧ I b ∧ G b ∧ R a b ∧
      ∀ c, Reaches step a c → R c b ∨ Reaches step b c := by
  induction hn : μ a using Nat.strongRecOn generalizing a with
  | ind n ih =>
      by_cases hG : G a
      · exact ⟨a, .refl a, ha, hG, hgoal a ha hG, fun c hc => Or.inr hc⟩
      · obtain ⟨y, hy, hIy, hlt, hback⟩ := hstep a ha hG
        obtain ⟨b, hyb, hIb, hGb, hR, hall⟩ := ih (μ y) (hn ▸ hlt) hIy rfl
        refine ⟨b, .head hy hyb, hIb, hGb, hback b hR, ?_⟩
        intro c hc
        rcases hc.cases_first with rfl | ⟨y', hy', hyc⟩
        · exact Or.inl (hback b hR)
        · obtain rfl := Except.ok.inj (hy'.symm.trans hy)
          exact hall c hyc

/-- The measure rule without a relation to the goal. -/
theorem exists_reaches_of_measure {I G : σ → Prop} (μ : σ → ℕ)
    (hstep : ∀ x, I x → ¬ G x → ∃ y, step x = .ok y ∧ I y ∧ μ y < μ x) (ha : I a) :
    ∃ b, Reaches step a b ∧ I b ∧ G b := by
  have hstep' : ∀ x, I x → ¬ G x →
      ∃ y, step x = .ok y ∧ I y ∧ μ y < μ x ∧ ∀ _ : σ, True → True := by
    intro x hx hG
    obtain ⟨y, hy, hIy, hlt⟩ := hstep x hx hG
    exact ⟨y, hy, hIy, hlt, fun _ _ => trivial⟩
  obtain ⟨b, hab, hI, hG, -⟩ := exists_goal_of_measure (R := fun _ _ => True) μ
    (fun _ _ _ => trivial) hstep' ha
  exact ⟨b, hab, hI, hG⟩

/-! ### Two machines -/

section Simulation

variable {τ : Type*} {step' : τ → Except ε τ} {R : σ → τ → Prop} {a' : τ}

/-- **Simulation**: when the second machine can answer every step of the first one with a
run, it can answer every run. -/
theorem Reaches.simulate
    (hsim : ∀ x y x', R x y → step x = .ok x' → ∃ y', Reaches step' y y' ∧ R x' y')
    (h : Reaches step a b) (hR : R a a') : ∃ b', Reaches step' a' b' ∧ R b b' := by
  induction h with
  | refl => exact ⟨a', .refl a', hR⟩
  | tail _ hxy ih =>
      obtain ⟨y, hy, hR'⟩ := ih
      obtain ⟨z, hz, hR''⟩ := hsim _ _ _ hR' hxy
      exact ⟨z, hy.trans hz, hR''⟩

/-- Two steps that end in the same fault, or in related states. -/
inductive Lockstep (R : σ → τ → Prop) : Except ε σ → Except ε τ → Prop
  | fault (e : ε) : Lockstep R (.error e) (.error e)
  | ok {x : σ} {y : τ} (h : R x y) : Lockstep R (.ok x) (.ok y)

/-- Lockstep is symmetric, with the relation turned round. -/
theorem Lockstep.symm {x : Except ε σ} {y : Except ε τ} (h : Lockstep R x y) :
    Lockstep (fun y x => R x y) y x := by
  cases h with
  | fault e => exact .fault e
  | ok h => exact .ok h

/-- A step that the second machine takes by translating the one of the first. -/
theorem Lockstep.map {f : σ → τ} {x : Except ε σ} (h : ∀ y, x = .ok y → R y (f y)) :
    Lockstep R x (x.map f) := by
  cases x with
  | error e => exact .fault e
  | ok y => exact .ok (h y rfl)

/-- A property of the first machine can be carried along. -/
theorem Lockstep.and {P : σ → Prop} {x : Except ε σ} {y : Except ε τ} (h : Lockstep R x y)
    (hP : ∀ z, x = .ok z → P z) : Lockstep (fun x y => P x ∧ R x y) x y := by
  cases h with
  | fault e => exact .fault e
  | ok h => exact .ok ⟨hP _ rfl, h⟩

/-- **Lockstep**: two machines that keep a relation step by step pass through related
states. -/
theorem Reaches.lockstep (hlock : ∀ x y, R x y → Lockstep R (step x) (step' y))
    (h : Reaches step a b) (hR : R a a') : ∃ b', Reaches step' a' b' ∧ R b b' := by
  refine h.simulate ?_ hR
  intro x y x' hxy hx
  have hl := hlock x y hxy
  rw [hx] at hl
  generalize hy : step' y = r at hl
  cases hl with
  | ok h => exact ⟨_, .single hy, h⟩

end Simulation

/-! ### Evaluation -/

/-- The state after `n` steps, or the fault met on the way. -/
def run (step : σ → Except ε σ) : ℕ → σ → Except ε σ
  | 0, a => .ok a
  | n + 1, a => step a >>= run step n

/-- An iteration that comes through has made its first step. -/
theorem exists_step_of_run {n : ℕ} (h : run step (n + 1) a = .ok b) :
    ∃ x, step a = .ok x ∧ run step n x = .ok b := by
  rw [run] at h
  cases hs : step a with
  | error e =>
      rw [hs] at h
      cases h
  | ok x =>
      rw [hs] at h
      exact ⟨x, rfl, h⟩

/-- The iteration computes states of the run. -/
theorem reaches_of_run {n : ℕ} (h : run step n a = .ok b) : Reaches step a b := by
  induction n generalizing a with
  | zero =>
      obtain rfl : a = b := Except.ok.inj h
      exact .refl a
  | succ n ih =>
      obtain ⟨x, hs, h⟩ := exists_step_of_run h
      exact .head hs (ih h)

/-- The iteration stays in a state that steps to itself. -/
theorem run_of_fixed (h : step a = .ok a) (n : ℕ) : run step n a = .ok a := by
  induction n with
  | zero => rfl
  | succ n ih =>
      rw [run, h]
      exact ih

section Simulation

variable {τ δ : Type*} {step' : τ → Except δ τ} {R : σ → τ → Prop} {a' b' : τ} {n : ℕ}

/-- A machine that answers every step of another one is in a related state after `n` steps. -/
theorem run_simulates
    (hsim : ∀ x y x', R x y → step x = .ok x' → ∃ y', step' y = .ok y' ∧ R x' y')
    (hR : R a a') (h : run step n a = .ok b) : ∃ b', run step' n a' = .ok b' ∧ R b b' := by
  induction n generalizing a a' with
  | zero =>
      obtain rfl : a = b := Except.ok.inj h
      exact ⟨a', rfl, hR⟩
  | succ n ih =>
      obtain ⟨x, hx, h⟩ := exists_step_of_run h
      obtain ⟨y, hy, hxy⟩ := hsim a a' x hR hx
      obtain ⟨b', hb', hbb'⟩ := ih hxy h
      refine ⟨b', ?_, hbb'⟩
      rw [run, hy]
      exact hb'

/-- When it has no step to answer it may come to a state of its own, where it stays. -/
theorem fixed_of_run
    (hsim : ∀ x y x', R x y → step x = .ok x' → ∃ y', step' y = .ok y' ∧ R x' y')
    (hstop : ∀ x y e y', R x y → step x = .error e → step' y = .ok y' → step' y' = .ok y')
    (hR : R a a') {e : ε} (h : run step n a = .error e) (h' : run step' n a' = .ok b') :
    step' b' = .ok b' := by
  induction n generalizing a a' with
  | zero => cases h
  | succ n ih =>
      obtain ⟨y, hy, h'⟩ := exists_step_of_run h'
      cases hx : step a with
      | error e' =>
          have hfix := hstop a a' e' y hR hx hy
          obtain rfl := Except.ok.inj ((run_of_fixed hfix n).symm.trans h')
          exact hfix
      | ok x =>
          obtain ⟨y', hy', hxy⟩ := hsim a a' x hR hx
          obtain rfl := Except.ok.inj (hy.symm.trans hy')
          rw [run, hx] at h
          exact ih hxy h h'

end Simulation

/-- A decidable property of the state after `n` steps can be evaluated. -/
theorem exists_run_of_any {P : σ → Bool} {n : ℕ} (h : (run step n a).toOption.any P) :
    ∃ b, run step n a = .ok b ∧ P b := by
  cases hrun : run step n a with
  | error e =>
      rw [hrun] at h
      cases h
  | ok b =>
      rw [hrun] at h
      exact ⟨b, rfl, h⟩

/-- A run that is in a set after `n` steps that no step leaves has, besides the states of the
set, at most the states of the iteration up to there, which can be checked one by one. -/
theorem forall_reaches_of_absorbing {P J : σ → Prop} {n : ℕ} (hrun : run step n a = .ok b)
    (hstep : ∀ x y, step x = .ok y → J x → J y) (hb : J b) (hJ : ∀ x, J x → P x)
    (hall : ∀ k < n, ∀ x ∈ (run step k a).toOption, P x) : ∀ c, Reaches step a c → P c := by
  intro c hc
  induction n generalizing a with
  | zero =>
      obtain rfl : a = b := Except.ok.inj hrun
      exact hJ c (hc.invariant hstep hb)
  | succ n ih =>
      rcases hc.cases_first with rfl | ⟨x, hx, hxc⟩
      · exact hall 0 (Nat.zero_lt_succ n) a rfl
      · rw [run, hx] at hrun
        refine ih hrun ?_ hxc
        intro k hk y hy
        refine hall (k + 1) (Nat.succ_lt_succ hk) y ?_
        rw [run, hx]
        exact hy

/-- The same for a run that comes to a fixed state. -/
theorem forall_reaches_of_run {P : σ → Prop} {n : ℕ} (hrun : run step n a = .ok b)
    (hfix : step b = .ok b) (hall : ∀ k ≤ n, ∀ x ∈ (run step k a).toOption, P x) :
    ∀ c, Reaches step a c → P c := by
  refine forall_reaches_of_absorbing (J := fun x => x = b) hrun ?_ rfl ?_
    fun k hk => hall k (Nat.le_of_lt hk)
  · intro x y hxy hx
    subst hx
    exact Except.ok.inj (hxy.symm.trans hfix)
  · intro x hx
    subst hx
    exact hall n (Nat.le_refl n) x (by rw [hrun]; rfl)

end Run
