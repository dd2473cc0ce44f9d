import MaestroCore.Lib.Run
import MaestroCore.ThreadPool

/-!
# Creating the Threads of a Pool

`tp_init` as a thread beside the workers that it has created so far. No other thread has the
pool before the return, so nothing is queued and nobody sets `stop`: the workers go to sleep.
When `pthread_create` fails, `tp_init` joins the workers that were created before, and these
end only when `stop` is set.

The threads that were not created yet take no steps, and the model ends with the return.

## Main results

* `StartRun.quiet`: no worker ends, and none takes a task, before `tp_init` returns.
* `StartRun.joining`: with a worker to join, `tp_init` stays in its first `pthread_join`.
* `init_never_stuck_iff`: `tp_init` cannot get stuck iff `pthread_create` does not fail, or
  fails for the first thread.
-/

open Run

namespace MaestroCore

/-- Where a thread stands in `tp_init`. -/
inductive Creator
  /-- Before the allocations. -/
  | allocating
  /-- Before it creates the thread with the index. -/
  | creating (i : ℕ)
  /-- After a failure for the index `i`, before it joins the thread with the index `y`. -/
  | joining (i y : ℕ)
  /-- After the return. -/
  | returned
  deriving DecidableEq, Repr

/-- The number of the threads that were created and may take steps. -/
def Creator.started : Creator → ℕ
  | .allocating => 0
  | .creating i => i
  | .joining i _ => i
  | .returned => 0

/-- The pool in `tp_init`. -/
structure PoolStart (n m : ℕ) (φ α : Type) where
  creator : Creator := .allocating
  pool : ThreadPool n m φ α := {}

/-- The worker that takes the step, unless it is woken for no reason. -/
def PoolAction.actor {n m : ℕ} {φ α : Type} : PoolAction n m φ α → Option (Fin n)
  | .fetch w | .execute w | .callback w | .finish w _ => some w
  | .add caller _ _ _ _ => caller
  | _ => none

section Start

variable {n m : ℕ} {φ α : Type} {fails : ℕ → Bool} {s s' : PoolStart n m φ α}

/-- One step of `tp_init` or of a worker, where `fails` says for which threads
`pthread_create` fails. -/
inductive StartStep (fails : ℕ → Bool) : PoolStart n m φ α → PoolStart n m φ α → Prop
  | allocate {s : PoolStart n m φ α} (hs : s.creator = .allocating) :
      StartStep fails s { s with creator := .creating 0 }
  | allocateFails {s : PoolStart n m φ α} (hs : s.creator = .allocating) :
      StartStep fails s { s with creator := .returned }
  | create {s : PoolStart n m φ α} {i : ℕ} (hs : s.creator = .creating i) (hi : i < n)
      (hcreate : fails i = false) : StartStep fails s { s with creator := .creating (i + 1) }
  | createFails {s : PoolStart n m φ α} {i : ℕ} (hs : s.creator = .creating i) (hi : i < n)
      (hcreate : fails i = true) : StartStep fails s { s with creator := .joining i 0 }
  | created {s : PoolStart n m φ α} {i : ℕ} (hs : s.creator = .creating i) (hi : n ≤ i) :
      StartStep fails s { s with creator := .returned }
  | join {s : PoolStart n m φ α} {i : ℕ} {w : Fin n} (hs : s.creator = .joining i w)
      (hw : w < i) (hexited : s.pool.workers w = .exited) :
      StartStep fails s { s with creator := .joining i (w + 1) }
  | joined {s : PoolStart n m φ α} {i y : ℕ} (hs : s.creator = .joining i y) (hy : i ≤ y) :
      StartStep fails s { s with creator := .returned }
  | work {s : PoolStart n m φ α} {w : Fin n} {a : PoolAction n m φ α} {pool : ThreadPool n m φ α}
      (hw : w < s.creator.started) (ha : a.actor = some w) (hstep : PoolStep s.pool a pool) :
      StartStep fails s { s with pool := pool }

/-- A worker wakes up for no reason. -/
inductive StartWake : PoolStart n m φ α → PoolStart n m φ α → Prop
  | wake {s : PoolStart n m φ α} {w : Fin n} {pool : ThreadPool n m φ α}
      (hw : w < s.creator.started) (hstep : PoolStep s.pool (.wakeWorker w) pool) :
      StartWake s { s with pool := pool }

/-- The run from one state passes through the other. -/
def StartRun (fails : ℕ → Bool) : PoolStart n m φ α → PoolStart n m φ α → Prop :=
  Relation.ReflTransGen fun s s' => StartStep fails s s' ∨ StartWake s s'

/-! ### What the workers do meanwhile -/

/-- Nothing is queued, `stop` is not set, and the workers are before their first task. -/
structure Quiet (pool : ThreadPool n m φ α) : Prop where
  count : pool.count = 0
  stop : pool.stop = false
  workers : ∀ w, pool.workers w = .locking ∨ pool.workers w = .asleep

/-- A worker that locks or sleeps keeps the pool quiet. -/
theorem Quiet.setWorker {pool : ThreadPool n m φ α} {w : Fin n} {x : Worker φ α} (h : Quiet pool)
    (hx : x = .locking ∨ x = .asleep) : Quiet (pool.setWorker w x) where
  count := h.count
  stop := h.stop
  workers v := by
    by_cases hv : v = w
    · subst hv
      rwa [ThreadPool.setWorker_self]
    · rw [ThreadPool.setWorker_of_ne hv]
      exact h.workers v

/-- A worker of a quiet pool can only go to sleep. -/
theorem PoolStep.quiet {pool pool' : ThreadPool n m φ α} {a : PoolAction n m φ α} {w : Fin n}
    (hstep : PoolStep pool a pool') (ha : a.actor = some w) (h : Quiet pool) : Quiet pool' := by
  cases hstep with
  | fetch hw hfetch =>
      rcases tpWorkerFetch_cases hfetch with ⟨-, -, rfl⟩ | ⟨-, hstop, -⟩ | ⟨_, _, hcount, -⟩
      · exact h.setWorker (Or.inr rfl)
      · cases h.stop.symm.trans hstop
      · exact absurd h.count hcount
  | @execute w _ hw | @callback w _ hw | @finish w _ hw =>
      rcases h.workers w with hw' | hw' <;> cases hw.symm.trans hw'
  | @add caller _ _ _ _ _ hcaller =>
      obtain ⟨job, hjob⟩ := hcaller w ha
      rcases h.workers w with hw | hw <;> rcases hjob with hjob | hjob <;>
        cases hjob.symm.trans hw
  | callWait | checkWait | dispose | join | wakeWorker | wakeWaiter => cases ha

/-- A worker that wakes up keeps the pool quiet. -/
theorem Quiet.wake {pool pool' : ThreadPool n m φ α} {w : Fin n} (h : Quiet pool)
    (hstep : PoolStep pool (.wakeWorker w) pool') : Quiet pool' := by
  cases hstep with
  | wakeWorker => exact h.setWorker (Or.inl rfl)

/-- **No worker ends, and none takes a task**, before `tp_init` returns. -/
theorem StartRun.quiet (hrun : StartRun fails s s') (h : Quiet s.pool) : Quiet s'.pool := by
  refine run_invariant (I := fun s => Quiet s.pool) ?_ hrun h
  rintro x y (hstep | hwake) hx
  · cases hstep with
    | work _ ha hstep => exact hstep.quiet ha hx
    | _ => exact hx
  · cases hwake with
    | wake _ hstep => exact hx.wake hstep

/-- A pool without tasks whose workers have not begun is quiet. -/
theorem quiet_start : Quiet ({} : ThreadPool n m φ α) :=
  ⟨rfl, rfl, fun _ => Or.inl rfl⟩

/-! ### How far the creator gets -/

/-- The loop has created the threads before the index, and goes to the join at the first
failure. -/
def CreatorAt (fails : ℕ → Bool) (n : ℕ) : Creator → Prop
  | .creating i => i ≤ n ∧ ∀ j < i, fails j = false
  | .joining i _ => i < n ∧ fails i = true ∧ ∀ j < i, fails j = false
  | _ => True

/-- A step keeps the creating loop in its place. -/
theorem StartStep.creatorAt (hstep : StartStep fails s s') (h : CreatorAt fails n s.creator) :
    CreatorAt fails n s'.creator := by
  cases hstep with
  | allocate => exact ⟨Nat.zero_le n, fun j hj => absurd hj (Nat.not_lt_zero j)⟩
  | allocateFails | created | joined => trivial
  | @create i hs hi hcreate =>
      rw [hs] at h
      refine ⟨hi, fun j hj => ?_⟩
      rcases Nat.lt_succ_iff_lt_or_eq.mp hj with hj | rfl
      · exact h.2 j hj
      · exact hcreate
  | createFails hs hi hcreate =>
      rw [hs] at h
      exact ⟨hi, hcreate, h.2⟩
  | join hs =>
      rw [hs] at h
      exact h
  | work => exact h

/-- A run keeps the creating loop in its place. -/
theorem StartRun.creatorAt (hrun : StartRun fails s s') (h : CreatorAt fails n s.creator) :
    CreatorAt fails n s'.creator := by
  refine run_invariant (I := fun s => CreatorAt fails n s.creator) ?_ hrun h
  rintro x y (hstep | hwake) hx
  · exact hstep.creatorAt hx
  · cases hwake with
    | wake => exact hx

/-- **With a worker to join, `tp_init` stays in its first `pthread_join`.** -/
theorem StartRun.joining {i : ℕ} (hrun : StartRun fails s s') (h : Quiet s.pool) (hi : 0 < i)
    (hs : s.creator = .joining i 0) : s'.creator = .joining i 0 := by
  suffices hboth : Quiet s'.pool ∧ s'.creator = .joining i 0 from hboth.2
  refine run_invariant (I := fun s => Quiet s.pool ∧ s.creator = .joining i 0) ?_ hrun ⟨h, hs⟩
  rintro x y hxy ⟨hquiet, hx⟩
  refine ⟨StartRun.quiet (Relation.ReflTransGen.single hxy) hquiet, ?_⟩
  rcases hxy with hstep | hwake
  · cases hstep with
    | allocate hx' | allocateFails hx' | create hx' | createFails hx' | created hx' =>
        cases hx'.symm.trans hx
    | join hx' _ hexited =>
        rcases hquiet.workers _ with hw | hw <;> cases hexited.symm.trans hw
    | joined hx' hy =>
        obtain ⟨rfl, rfl⟩ := Creator.joining.inj (hx'.symm.trans hx)
        omega
    | work => exact hx
  · cases hwake with
    | wake => exact hx

/-- The loop comes to the first index for which `pthread_create` fails. -/
theorem startRun_creating {k : ℕ} (hk : k ≤ n) (hbefore : ∀ j < k, fails j = false) :
    StartRun fails ({} : PoolStart n m φ α) { creator := .creating k } := by
  induction k with
  | zero => exact .single (Or.inl (.allocate rfl))
  | succ k ih =>
      refine .tail (ih (by omega) fun j hj => hbefore j (by omega)) (Or.inl ?_)
      exact .create rfl hk (hbefore k (Nat.lt_succ_self k))

/-! ### Getting stuck -/

/-- In every state before the return some step is possible, other than waking up for no reason,
and a worker that is to be joined has ended or can still come to its end. -/
def NeverStuck (n m : ℕ) (φ α : Type) (fails : ℕ → Bool) : Prop :=
  ∀ s : PoolStart n m φ α, StartRun fails {} s → s.creator ≠ .returned →
    (∃ s', StartStep fails s s') ∧
    ∀ i y, s.creator = .joining i y → ∀ w : Fin n, w < i →
      s.pool.workers w = .exited ∨ ∃ s', StartRun fails s s' ∧ s'.pool.workers w = .exited

/-- **When `tp_init` cannot get stuck.** For every number of threads and whichever of them
cannot be created, it cannot get stuck iff all of them can be created, or already the first one
cannot. -/
theorem init_never_stuck_iff (maxThreads : ℤ) (m : ℕ) (φ α : Type) (fails : ℕ → Bool) :
    NeverStuck (workerCount maxThreads) m φ α fails ↔
      fails 0 = true ∨ ∀ i < workerCount maxThreads, fails i = false := by
  constructor
  · intro hnever
    by_contra hcond
    rw [not_or] at hcond
    obtain ⟨hzero, hsome⟩ := hcond
    simp only [not_forall, Bool.not_eq_false] at hsome
    obtain ⟨i, hi, hfails⟩ := hsome
    -- the first thread that cannot be created
    have hex : ∃ i, fails i = true := ⟨i, hfails⟩
    have hk : Nat.find hex < workerCount maxThreads := (Nat.find_min' hex hfails).trans_lt hi
    have hpos : 0 < Nat.find hex := by
      rw [Nat.find_pos]
      exact hzero
    have hrun : StartRun fails ({} : PoolStart (workerCount maxThreads) m φ α)
        { creator := .joining (Nat.find hex) 0 } := by
      refine .tail (startRun_creating hk.le fun j hj => ?_) (Or.inl ?_)
      · exact Bool.not_eq_true _ ▸ Nat.find_min hex hj
      · exact .createFails rfl hk (Nat.find_spec hex)
    obtain ⟨-, hends⟩ := hnever _ hrun (by simp)
    rcases hends _ _ rfl ⟨0, workerCount_pos maxThreads⟩ hpos with hexited | ⟨s', hrun', hexited⟩
    · cases hexited
    · rcases (hrun'.quiet quiet_start).workers ⟨0, workerCount_pos maxThreads⟩ with hw | hw <;>
        cases hexited.symm.trans hw
  · intro hcond s hrun hs
    have hat : CreatorAt fails _ s.creator := hrun.creatorAt trivial
    cases hcreator : s.creator with
    | allocating => exact ⟨⟨_, .allocate hcreator⟩, fun i y h => by cases h⟩
    | creating i =>
        rw [hcreator] at hat
        refine ⟨?_, fun i y h => by cases h⟩
        rcases hat.1.lt_or_eq with hi | hi
        · cases hfails : fails i with
          | false => exact ⟨_, .create hcreator hi hfails⟩
          | true => exact ⟨_, .createFails hcreator hi hfails⟩
        · exact ⟨_, .created hcreator hi.ge⟩
    | joining i y =>
        rw [hcreator] at hat
        obtain ⟨hi, hfails, hbefore⟩ := hat
        have hi : i = 0 := by
          rcases hcond with hzero | hall
          · by_contra hne
            cases hzero.symm.trans (hbefore 0 (Nat.pos_of_ne_zero hne))
          · cases hfails.symm.trans (hall i hi)
        subst hi
        refine ⟨⟨_, .joined hcreator (Nat.zero_le y)⟩, fun i y h w hw => ?_⟩
        obtain ⟨rfl, -⟩ := Creator.joining.inj h
        exact absurd hw (Nat.not_lt_zero _)
    | returned => exact absurd hcreator hs

/-- A worker that is asleep takes no step. -/
theorem PoolStep.not_asleep {pool pool' : ThreadPool n m φ α} {a : PoolAction n m φ α} {w : Fin n}
    (hstep : PoolStep pool a pool') (ha : a.actor = some w) : pool.workers w ≠ .asleep := by
  intro hasleep
  cases hstep with
  | fetch hw | execute hw | callback hw | finish hw =>
      obtain rfl := Option.some.inj ha
      cases hw.symm.trans hasleep
  | add _ hcaller =>
      obtain ⟨job, hjob | hjob⟩ := hcaller w ha <;> cases hjob.symm.trans hasleep
  | callWait | checkWait | dispose | join | wakeWorker | wakeWaiter => cases ha

/-- No step is possible in the first `pthread_join` when the workers are asleep. -/
theorem stuck_of_asleep {i : ℕ} (hs : s.creator = .joining i 0) (hi : 0 < i)
    (hasleep : ∀ w : Fin n, w < i → s.pool.workers w = .asleep) : ¬ ∃ s', StartStep fails s s' := by
  rintro ⟨s', hstep⟩
  cases hstep with
  | allocate hs' | allocateFails hs' | create hs' | createFails hs' | created hs' =>
      cases hs'.symm.trans hs
  | join hs' hw hexited =>
      obtain ⟨rfl, -⟩ := Creator.joining.inj (hs'.symm.trans hs)
      cases hexited.symm.trans (hasleep _ hw)
  | joined hs' hy =>
      obtain ⟨rfl, rfl⟩ := Creator.joining.inj (hs'.symm.trans hs)
      omega
  | work hw ha hstep =>
      rw [hs] at hw
      exact hstep.not_asleep ha (hasleep _ hw)

end Start

/-- The second thread cannot be created. -/
def secondFails (i : ℕ) : Bool := i = 1

/-- The first of two workers. -/
def firstWorker : Fin (workerCount 2) := ⟨0, workerCount_pos 2⟩

/-- Of two workers the first one was created and is asleep, and is to be joined. -/
def joiningSleeper : PoolStart (workerCount 2) 0 Unit Unit where
  creator := .joining 1 0
  pool := ThreadPool.setWorker {} firstWorker .asleep

/-- **`tp_init` gets stuck**: of two threads the second one cannot be created, the first one is
asleep, and `tp_init` waits for its end. No step is possible, and no run leads to the return. -/
theorem init_joins_sleeping_worker :
    StartRun secondFails {} joiningSleeper ∧ (¬ ∃ s', StartStep secondFails joiningSleeper s') ∧
      (∀ s', StartRun secondFails joiningSleeper s' → s'.creator ≠ .returned) ∧
      ¬ NeverStuck (workerCount 2) 0 Unit Unit secondFails := by
  have hjoin : StartRun secondFails ({} : PoolStart (workerCount 2) 0 Unit Unit)
      { creator := .joining 1 0 } := by
    refine .tail (startRun_creating (k := 1) (by decide) (by decide)) (Or.inl ?_)
    exact .createFails rfl (by decide) rfl
  have hsleep : StartRun secondFails {} joiningSleeper := by
    refine .tail hjoin (Or.inl (.work (w := firstWorker) (a := .fetch firstWorker) ?_ rfl ?_))
    · exact Nat.one_pos
    · exact .fetch rfl rfl
  have hquiet : Quiet joiningSleeper.pool := quiet_start.setWorker (Or.inr rfl)
  have hstuck : ¬ ∃ s', StartStep secondFails joiningSleeper s' := by
    refine stuck_of_asleep rfl Nat.one_pos fun w hw => ?_
    obtain rfl : w = firstWorker := Fin.ext (Nat.lt_one_iff.mp hw)
    rfl
  refine ⟨hsleep, hstuck, fun s' hrun hreturned => ?_, fun hnever => ?_⟩
  · cases hreturned.symm.trans (hrun.joining hquiet Nat.one_pos rfl)
  · exact hstuck (hnever _ hsleep (by simp [joiningSleeper])).1

end MaestroCore
