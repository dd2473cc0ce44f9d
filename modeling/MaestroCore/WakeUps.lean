import MaestroCore.TaskOrder

/-!
# Who Is Woken Up

The two wait sets of the thread pool. A task that is added wakes one worker and `tp_dispose`
wakes them all, so nobody sleeps beside a task. A task that is finished wakes one thread in
`tp_wait`, which is not enough when several threads wait for the last task.

The steps without a cause, `wakeWorker` and `wakeWaiter`, are allowed in these runs and never
needed.

## Main results

* `no_worker_sleeps_beside_task`: no task is queued while all workers are asleep, and no worker
  is asleep after `tp_dispose`, in every run in which fewer than `2 ^ 32` tasks are queued.
* `every_waiter_released`: no thread is asleep in `tp_wait` when nothing is queued or active, in
  every run in which one thread at most waits for the last task.
* `all_workers_sleep_beside_tasks` and `second_waiter_not_released`: runs without these bounds.
-/

open Run

namespace MaestroCore

section WakeUps

variable {n m : ℕ} {φ α : Type} {s s' : ThreadPool n m φ α}

/-! ### The workers -/

/-- No task is queued while all workers are asleep, and no worker is asleep after
`tp_dispose`. -/
def WorkersAwake (s : ThreadPool n m φ α) : Prop :=
  (s.queue ≠ [] → ∃ w, s.workers w ≠ .asleep) ∧ (s.stop = true → ∀ w, s.workers w ≠ .asleep)

/-- A worker that goes on and not to sleep is awake, and the others are as before. -/
theorem WorkersAwake.goes {w : Fin n} {x : Worker φ α} (h : WorkersAwake s) (hx : x ≠ .asleep)
    (hworkers : s'.workers = (s.setWorker w x).workers) (hstop : s'.stop = s.stop) :
    WorkersAwake s' := by
  rw [WorkersAwake, hworkers, hstop]
  refine ⟨fun _ => ⟨w, by rwa [ThreadPool.setWorker_self]⟩, fun hs v => ?_⟩
  by_cases hv : v = w
  · subst hv
    rwa [ThreadPool.setWorker_self]
  · rw [ThreadPool.setWorker_of_ne hv]
    exact h.2 hs v

/-- A step keeps a worker awake beside every queued task. -/
theorem PoolStep.workersAwake {a : PoolAction n m φ α} (hstep : PoolStep s a s') (hn : 0 < n)
    (hledger : TaskLedger s) (hshort : s.queue.length < 2 ^ 32) (h : WorkersAwake s) :
    WorkersAwake s' := by
  cases hstep with
  | @fetch _ w hw hfetch =>
      rcases tpWorkerFetch_cases hfetch with
        ⟨hcount, hstop, rfl⟩ | ⟨-, -, rfl⟩ | ⟨job, queue, -, -, rfl⟩
      · rw [hledger.count_eq hshort] at hcount
        refine ⟨fun hqueue => absurd (List.length_eq_zero_iff.mp hcount) hqueue, fun hs => ?_⟩
        cases hstop.symm.trans hs
      · exact h.goes (x := .exited) nofun rfl rfl
      · exact h.goes (x := .running job) nofun rfl rfl
  | @execute w job hw =>
      refine h.goes (w := w) ?_ rfl rfl
      split <;> nofun
  | @callback w job hw => exact h.goes (w := w) (x := .finishing) nofun rfl rfl
  | @finish w woken hw _ =>
      refine h.goes (w := w) (x := .locking) nofun (signalWaiter_workers ..) ?_
      cases woken <;> rfl
  | @add caller task taskAlloc itemAlloc woken _ _ hwoken =>
      rcases tpTaskAdd_cases s task taskAlloc itemAlloc woken with hsame | hadd
      · rw [hsame]
        exact h
      · rw [hadd]
        cases woken with
        | some w => exact h.goes (w := w) (x := .locking) nofun rfl rfl
        | none => exact ⟨fun _ => ⟨⟨0, hn⟩, hwoken ⟨0, hn⟩⟩, fun _ => hwoken⟩
  | callWait _ _ => exact h
  | checkWait _ =>
      rw [tpWaitCheck]
      split <;> exact h
  | dispose _ =>
      cases hstop : s.stop with
      | true =>
          rw [tpDisposeStop, if_pos hstop]
          exact h
      | false =>
          have hall : ∀ w, (tpDisposeStop s).workers w ≠ .asleep := by
            intro w
            rw [tpDisposeStop, if_neg (by simp [hstop])]
            cases hw : s.workers w <;> simp [hw]
          exact ⟨fun _ => ⟨⟨0, hn⟩, hall ⟨0, hn⟩⟩, fun _ => hall⟩
  | join _ _ => exact h
  | @wakeWorker w hw => exact h.goes (w := w) (x := .locking) nofun rfl rfl
  | wakeWaiter _ => exact h

/-- A step that leaves fewer than `2 ^ 32` tasks in the queue, whenever they are added. -/
def CountedStep (s s' : ThreadPool n m φ α) : Prop :=
  (∃ a, PoolStep s a s') ∧ s'.queue.length < 2 ^ 32

/-- **No wake-up of a worker is lost**, in every run from `tp_init` in which fewer than
`2 ^ 32` tasks are queued. -/
theorem no_worker_sleeps_beside_task (maxThreads : ℤ)
    (s : ThreadPool (workerCount maxThreads) m φ α)
    (h : Relation.ReflTransGen CountedStep (tpInit maxThreads m φ α) s) : WorkersAwake s := by
  have hinv : TaskLedger s ∧ s.queue.length < 2 ^ 32 ∧ WorkersAwake s := by
    refine run_invariant
      (I := fun s => TaskLedger s ∧ s.queue.length < 2 ^ 32 ∧ WorkersAwake s) ?_ h
      ⟨taskLedger_tpInit maxThreads, Nat.two_pow_pos 32, fun hqueue => absurd rfl hqueue,
        fun hstop => by cases hstop⟩
    rintro x y ⟨⟨a, hstep⟩, hshort⟩ ⟨hledger, hshort', hawake⟩
    exact ⟨hstep.ledger hledger, hshort,
      hstep.workersAwake (workerCount_pos maxThreads) hledger hshort' hawake⟩
  exact hinv.2.2

/-! ### The waiting threads -/

/-- No thread is asleep in `tp_wait` when nothing is queued or active. -/
def WaitersReleased (s : ThreadPool n m φ α) : Prop :=
  s.count = 0 → s.activeTasks = 0 → ∀ i, s.waiters i ≠ .asleep

/-- Of the threads in `tp_wait`, one at most is asleep when the last task is finished, and
`count` does not wrap around. -/
def OneWaiter (s : ThreadPool n m φ α) : PoolAction n m φ α → Prop
  | .finish _ _ => s.count = 0 → s.activeTasks = 1 →
      ∀ i j, s.waiters i = .asleep → s.waiters j = .asleep → i = j
  | .add _ _ _ _ _ => s.count + 1 < 2 ^ 32
  | _ => True

/-- A thread that goes on and not to sleep is not asleep, and the others are as before. -/
theorem WaitersReleased.setWaiter {i : Fin m} {x : Waiter} (h : WaitersReleased s)
    (hx : x ≠ .asleep) : WaitersReleased (s.setWaiter i x) := by
  intro hcount hactive j
  by_cases hj : j = i
  · subst hj
    rwa [ThreadPool.setWaiter_self]
  · rw [ThreadPool.setWaiter_of_ne hj]
    exact h hcount hactive j

/-- A step keeps every waiter released once the pool is empty. -/
theorem PoolStep.waitersReleased {a : PoolAction n m φ α} (hstep : PoolStep s a s')
    (hone : OneWaiter s a) (hledger : TaskLedger s) (h : WaitersReleased s) :
    WaitersReleased s' := by
  cases hstep with
  | @fetch _ w hw hfetch =>
      rcases tpWorkerFetch_cases hfetch with ⟨-, -, rfl⟩ | ⟨-, -, rfl⟩ | ⟨job, queue, -, -, rfl⟩
      · exact h
      · exact h
      · intro _ hactive
        have hnonneg := hledger.active
        change s.activeTasks + 1 = 0 at hactive
        omega
  | execute _ => exact h
  | callback _ => exact h
  | @finish w woken hw hwoken =>
      cases woken with
      | none => exact fun _ _ => hwoken
      | some i =>
          intro hcount hactive j
          change s.activeTasks - 1 = 0 at hactive
          rw [tpWorkerFinish, ThreadPool.signalWaiter]
          by_cases hj : j = i
          · subst hj
            rw [ThreadPool.setWaiter_self]
            decide
          · rw [ThreadPool.setWaiter_of_ne hj]
            exact fun hasleep => hj (hone hcount (by omega) j i hasleep hwoken)
  | @add caller task taskAlloc itemAlloc woken _ _ _ =>
      rcases tpTaskAdd_cases s task taskAlloc itemAlloc woken with hsame | hadd
      · rw [hsame]
        exact h
      · rw [hadd]
        intro hcount
        have hnew : ((s.enqueue task).signalWorker woken).count = (s.count + 1) % 2 ^ 32 := by
          cases woken <;> rfl
        rw [hnew, Nat.mod_eq_of_lt hone] at hcount
        cases hcount
  | callWait _ _ => exact h.setWaiter (by decide)
  | checkWait _ =>
      rw [tpWaitCheck]
      split
      · rename_i hsome
        intro hcount hactive
        change s.count = 0 at hcount
        change s.activeTasks = 0 at hactive
        omega
      · exact h.setWaiter (by decide)
  | dispose _ =>
      rw [tpDisposeStop]
      split <;> exact h
  | join _ _ => exact h
  | wakeWorker _ => exact h
  | wakeWaiter _ => exact h.setWaiter (by decide)

/-- A step at which one thread at most waits for the last task. -/
def OneWaiterStep (s s' : ThreadPool n m φ α) : Prop := ∃ a, PoolStep s a s' ∧ OneWaiter s a

/-- **Every waiter is released**, in every run from `tp_init` in which one thread at most is
asleep in `tp_wait` when the last task is finished, and `count` does not wrap around. -/
theorem every_waiter_released (maxThreads : ℤ) (s : ThreadPool (workerCount maxThreads) m φ α)
    (h : Relation.ReflTransGen OneWaiterStep (tpInit maxThreads m φ α) s) :
    WaitersReleased s := by
  have hinv : TaskLedger s ∧ WaitersReleased s := by
    refine run_invariant (I := fun s => TaskLedger s ∧ WaitersReleased s) ?_ h
      ⟨taskLedger_tpInit maxThreads, fun _ _ _ => nofun⟩
    rintro x y ⟨a, hstep, hone⟩ ⟨hledger, hreleased⟩
    exact ⟨hstep.ledger hledger, hstep.waitersReleased hone hledger hreleased⟩
  exact hinv.2

end WakeUps

/-! ### Runs of a small pool -/

/-- The worker of a pool of one. -/
def onlyWorker : Fin (workerCount 1) := ⟨0, workerCount_pos 1⟩

/-- The worker goes to sleep, and the first task wakes it. -/
theorem sleeper_woken_by_task :
    ∃ s : ThreadPool (workerCount 1) 0 ℕ ℕ, s.queue ≠ [] ∧ ∃ w, s.workers w ≠ .asleep := by
  let s₁ := (tpInit 1 0 ℕ ℕ).setWorker onlyWorker .asleep
  let s₂ := (s₁.enqueue plainTask).setWorker onlyWorker .locking
  have h₁ : CountedStep (tpInit 1 0 ℕ ℕ) s₁ :=
    ⟨⟨.fetch onlyWorker, .fetch rfl rfl⟩, by decide⟩
  have h₂ : CountedStep s₁ s₂ :=
    ⟨⟨.add none plainTask true true (some onlyWorker), .add rfl nofun rfl⟩, by decide⟩
  have hqueue : s₂.queue ≠ [] := List.cons_ne_nil _ _
  exact ⟨s₂, hqueue, (no_worker_sleeps_beside_task 1 s₂ (.head h₁ (.single h₂))).1 hqueue⟩

/-- The worker goes to sleep when `count` is zero, whatever is in the queue. -/
theorem sleeps_beside_task_of_count {k : ℕ} (hpos : 0 < k) (hcount : k % 2 ^ 32 = 0) :
    ∃ s : ThreadPool (workerCount 1) 0 ℕ ℕ,
      Relation.ReflTransGen PromptStep (tpInit 1 0 ℕ ℕ) s ∧ ¬ WorkersAwake s := by
  obtain ⟨jobs, hlength, heq⟩ := filledPool_eq 0 k
  have hsleep : tpWorkerFetch (filledPool 0 k) onlyWorker =
      .ok ((filledPool 0 k).setWorker onlyWorker .asleep) := by
    rw [tpWorkerFetch, if_pos]
    rw [heq]
    exact ⟨hcount, rfl⟩
  have hfetch : PromptStep (filledPool 0 k) ((filledPool 0 k).setWorker onlyWorker .asleep) := by
    refine ⟨.fetch onlyWorker, .fetch ?_ hsleep, trivial, rfl⟩
    rw [heq]
    rfl
  refine ⟨_, (reaches_filledPool 0 k).tail hfetch, fun h => ?_⟩
  have hqueue : (filledPool 0 k).queue ≠ [] := by
    rw [heq]
    exact List.ne_nil_of_length_pos (hlength.symm ▸ hpos)
  obtain ⟨w, hw⟩ := h.1 hqueue
  refine hw ?_
  have hone : Subsingleton (Fin (workerCount 1)) := inferInstanceAs (Subsingleton (Fin 1))
  obtain rfl : w = onlyWorker := Subsingleton.elim w onlyWorker
  exact ThreadPool.setWorker_self ..

/-- **The worker sleeps beside `2 ^ 32` queued tasks.** -/
theorem all_workers_sleep_beside_tasks :
    ∃ s : ThreadPool (workerCount 1) 0 ℕ ℕ,
      Relation.ReflTransGen PromptStep (tpInit 1 0 ℕ ℕ) s ∧ ¬ WorkersAwake s :=
  sleeps_beside_task_of_count (Nat.two_pow_pos 32) (Nat.mod_self _)

/-- A pool of one worker with one task, before the worker runs. -/
def onePlainTask : ThreadPool (workerCount 1) 2 ℕ ℕ := (tpInit 1 2 ℕ ℕ).enqueue plainTask

/-- The worker runs the task of the pool, and its signal wakes the first of two threads. -/
def finishedFor (s : ThreadPool (workerCount 1) 2 ℕ ℕ) : ThreadPool (workerCount 1) 2 ℕ ℕ :=
  tpWorkerFinish (tpWorkerExecute (s.take onlyWorker ⟨0, plainTask⟩ []) onlyWorker ⟨0, plainTask⟩)
    onlyWorker (some 0)

/-- Adding one task to a new pool is a step. -/
theorem step_onePlainTask : PoolStep (tpInit 1 2 ℕ ℕ)
    (.add none plainTask true true none) onePlainTask :=
  .add rfl nofun fun _ => nofun

/-- One thread waits for the only task, and it is released. -/
theorem one_waiter_released :
    ∃ s : ThreadPool (workerCount 1) 2 ℕ ℕ, s.executed.length = 1 ∧
      ∀ i, s.waiters i ≠ .asleep := by
  let s₁ := onePlainTask.setWaiter 0 .locking
  let s₂ := s₁.setWaiter 0 .asleep
  let s₃ := s₂.take onlyWorker ⟨0, plainTask⟩ []
  have h₀ : OneWaiterStep (tpInit 1 2 ℕ ℕ) onePlainTask :=
    ⟨_, step_onePlainTask, show 0 + 1 < 2 ^ 32 by decide⟩
  have h₁ : OneWaiterStep onePlainTask s₁ := ⟨.callWait 0, .callWait rfl rfl, trivial⟩
  have h₂ : OneWaiterStep s₁ s₂ := ⟨.checkWait 0, .checkWait rfl, trivial⟩
  have h₃ : OneWaiterStep s₂ s₃ := ⟨.fetch onlyWorker, .fetch rfl rfl, trivial⟩
  have h₄ : OneWaiterStep s₃ (tpWorkerExecute s₃ onlyWorker ⟨0, plainTask⟩) :=
    ⟨.execute onlyWorker, .execute rfl, trivial⟩
  have h₅ : OneWaiterStep (tpWorkerExecute s₃ onlyWorker ⟨0, plainTask⟩) (finishedFor s₂) :=
    ⟨.finish onlyWorker (some 0), .finish rfl rfl, fun _ _ => by decide⟩
  have hrun : Relation.ReflTransGen OneWaiterStep (tpInit 1 2 ℕ ℕ) (finishedFor s₂) :=
    .head h₀ (.head h₁ (.head h₂ (.head h₃ (.head h₄ (.single h₅)))))
  exact ⟨_, rfl, every_waiter_released 1 _ hrun (by decide) rfl⟩

/-- **The second of two threads that wait for the last task is not released.** -/
theorem second_waiter_not_released :
    ∃ s : ThreadPool (workerCount 1) 2 ℕ ℕ,
      Relation.ReflTransGen PromptStep (tpInit 1 2 ℕ ℕ) s ∧ ¬ WaitersReleased s := by
  let s₁ := onePlainTask.setWaiter 0 .locking
  let s₂ := s₁.setWaiter 0 .asleep
  let s₃ := s₂.setWaiter 1 .locking
  let s₄ := s₃.setWaiter 1 .asleep
  let s₅ := s₄.take onlyWorker ⟨0, plainTask⟩ []
  have hrun : Relation.ReflTransGen PromptStep (tpInit 1 2 ℕ ℕ) (finishedFor s₄) :=
    .head (b := onePlainTask) ⟨_, step_onePlainTask, rfl, rfl⟩ <|
    .head (b := s₁) ⟨.callWait 0, .callWait rfl rfl, trivial, rfl⟩ <|
    .head (b := s₂) ⟨.checkWait 0, .checkWait rfl, trivial, rfl⟩ <|
    .head (b := s₃) ⟨.callWait 1, .callWait rfl rfl, trivial, rfl⟩ <|
    .head (b := s₄) ⟨.checkWait 1, .checkWait rfl, trivial, rfl⟩ <|
    .head (b := s₅) ⟨.fetch onlyWorker, .fetch rfl rfl, trivial, rfl⟩ <|
    .head (b := tpWorkerExecute s₅ onlyWorker ⟨0, plainTask⟩)
      ⟨.execute onlyWorker, .execute rfl, trivial, rfl⟩ <|
    .single ⟨.finish onlyWorker (some 0), .finish rfl rfl, trivial, rfl⟩
  exact ⟨_, hrun, fun h => h (by decide) rfl 1 rfl⟩

end MaestroCore
