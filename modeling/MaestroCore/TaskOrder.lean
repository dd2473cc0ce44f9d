import Mathlib.Algebra.BigOperators.Pi
import Mathlib.Algebra.BigOperators.Ring.Finset
import MaestroCore.ThreadPool

/-!
# Every Task Once and in Order

What the ledger of the thread pool says about a run. The tasks leave the queue in the order in
which they came, a worker that takes a task runs its function and its callback once, and
nothing is left to do when `tp_wait` returns and when `tp_dispose` has joined the workers.

All of this rests on `count`, which is the length of the queue modulo `2 ^ 32`.

## Main results

* `TaskLedger.allFinished`: when no worker is busy and nothing is queued, all tasks are finished.
* `pool_runs_tasks_in_order`: the tasks are run once and in order, and waited for, in every run
  in which fewer than `2 ^ 32` tasks are queued.
* `pool_returns_early`: `tp_wait` does not wait for `2 ^ 32` queued tasks.
-/

open Run

namespace MaestroCore

/-- The worker is between taking a task and its decrement of `active_tasks`. -/
def Worker.isBusy {φ α : Type} : Worker φ α → Bool
  | .running _ => true
  | .calling _ => true
  | .finishing => true
  | _ => false

section Order

variable {n m : ℕ} {φ α : Type} {s s' : ThreadPool n m φ α}

/-- Every task that was added has run, and its callback if it has one. -/
def AllFinished (s : ThreadPool n m φ α) : Prop :=
  ∀ job ∈ s.added, (∃ w, (w, job) ∈ s.executed) ∧
    (job.task.callbackFunc.isSome → ∃ w, (w, job) ∈ s.calledBack)

/-- The pool runs its tasks once and in order, and waits for them. -/
structure RunsTasks (s : ThreadPool n m φ α) : Prop where
  /-- The tasks leave the queue in the order in which they were added. -/
  order : s.dequeued ++ s.queue = s.added
  /-- No task is added twice. -/
  distinct : (s.added.map Job.number).Nodup
  /-- A task that runs was taken from the queue. -/
  taken : ∀ x ∈ s.executed, x.2 ∈ s.dequeued
  /-- It runs once, and so on one worker. -/
  once : (s.executed.map Prod.snd).Nodup
  /-- A callback runs once, on the worker that ran the function. -/
  onceCalled : s.calledBack.Nodup ∧ ∀ x ∈ s.calledBack, x ∈ s.executed
  /-- The active tasks are those between their removal from the queue and the decrement. -/
  active : s.activeTasks = (Finset.univ.filter fun w => (s.workers w).isBusy).card
  /-- `tp_wait` returns only when everything that was added is finished. -/
  waits : ∀ i s', PoolStep s (.checkWait i) s' → s'.waiters i = .idle → AllFinished s
  /-- `tp_dispose` joins the workers only when everything is finished. -/
  disposes : s.joined = true → s.queue = [] ∧ AllFinished s

/-! ### What the ledger says -/

/-- A busy worker counts as one active task. -/
theorem holds_fst (w : Fin n) (x : Worker φ α) : (holds w x).1 = if x.isBusy then 1 else 0 := by
  cases x <;> rfl

/-- Another worker holds nothing. -/
theorem holds_of_not_busy {w : Fin n} {x : Worker φ α} (h : x.isBusy = false) :
    holds w x = 0 := by
  cases x with
  | locking | asleep | exited => rfl
  | running _ | calling _ | finishing => cases h

/-- `active_tasks` is the number of the busy workers. -/
theorem TaskLedger.active (h : TaskLedger s) :
    s.activeTasks = (Finset.univ.filter fun w => (s.workers w).isBusy).card := by
  have hheld := congrArg Prod.fst h.held
  rw [Prod.fst_add, Prod.fst_sum] at hheld
  rw [Finset.natCast_card_filter]
  calc s.activeTasks = 0 + ∑ w, (holds w (s.workers w)).1 := hheld
    _ = ∑ w, if (s.workers w).isBusy then (1 : ℤ) else 0 := by
        rw [zero_add]
        exact Finset.sum_congr rfl fun w _ => holds_fst w (s.workers w)

/-- No two tasks that have been added are the same. -/
theorem TaskLedger.distinct (h : TaskLedger s) : (s.added.map Job.number).Nodup := by
  rw [h.numbered]
  exact List.nodup_range

/-- The tasks that have run are among those that were taken. -/
theorem TaskLedger.executed_le (h : TaskLedger s) :
    ((s.executed.map Prod.snd : List _) : Multiset (Job φ α)) ≤ s.dequeued := by
  have hheld : s.taken.2.1 = s.done.2.1 + (∑ w, holds w (s.workers w)).2.1 :=
    congrArg (fun x => x.2.1) h.held
  exact le_of_le_of_eq (Multiset.le_add_right _ _) hheld.symm

/-- Callbacks are called for tasks that have been run and that have one. -/
theorem TaskLedger.calledBack_le (h : TaskLedger s) :
    (s.calledBack : Multiset (Fin n × Job φ α)) ≤
      (s.executed.filter fun x => x.2.task.callbackFunc.isSome : List _) := by
  have hheld : s.taken.2.2 = s.done.2.2 + (∑ w, holds w (s.workers w)).2.2 :=
    congrArg (fun x => x.2.2) h.held
  exact le_of_le_of_eq (Multiset.le_add_right _ _) hheld.symm

/-- No task is run twice. -/
theorem TaskLedger.once (h : TaskLedger s) : (s.executed.map Prod.snd).Nodup := by
  have hadded : s.added.Nodup := h.distinct.of_map
  rw [h.fifo, List.nodup_append] at hadded
  exact Multiset.coe_nodup.mp (Multiset.nodup_of_le h.executed_le (Multiset.coe_nodup.mpr hadded.1))

/-- No callback is called twice. -/
theorem TaskLedger.onceCalled (h : TaskLedger s) :
    s.calledBack.Nodup ∧ ∀ x ∈ s.calledBack, x ∈ s.executed := by
  have hle := h.calledBack_le
  constructor
  · have hexecuted : s.executed.Nodup := h.once.of_map
    exact Multiset.coe_nodup.mp
      (Multiset.nodup_of_le hle (Multiset.coe_nodup.mpr (hexecuted.filter _)))
  · intro x hx
    have hfilter := Multiset.mem_of_le hle (Multiset.mem_coe.mpr hx)
    exact List.mem_of_mem_filter (Multiset.mem_coe.mp hfilter)

/-- **When no worker is busy and nothing is queued, all tasks are finished.** -/
theorem TaskLedger.allFinished (h : TaskLedger s) (hidle : ∀ w, (s.workers w).isBusy = false)
    (hqueue : s.queue = []) : AllFinished s := by
  have hheld := h.held
  rw [Finset.sum_eq_zero fun w _ => holds_of_not_busy (hidle w), add_zero] at hheld
  have hexecuted : (s.dequeued : Multiset (Job φ α)) = (s.executed.map Prod.snd : List _) :=
    congrArg (fun x => x.2.1) hheld
  have hcalled : ((s.executed.filter fun x => x.2.task.callbackFunc.isSome : List _) :
      Multiset (Fin n × Job φ α)) = s.calledBack := congrArg (fun x => x.2.2) hheld
  intro job hjob
  rw [h.fifo, hqueue, List.append_nil] at hjob
  have hrun : job ∈ s.executed.map Prod.snd := by
    rw [← Multiset.mem_coe, ← hexecuted]
    exact hjob
  obtain ⟨⟨w, job'⟩, hmem, rfl⟩ := List.mem_map.mp hrun
  refine ⟨⟨w, hmem⟩, fun hcallback => ⟨w, ?_⟩⟩
  rw [← Multiset.mem_coe, ← hcalled]
  exact List.mem_filter.mpr ⟨hmem, hcallback⟩

/-- When no task is active no worker is busy. -/
theorem TaskLedger.not_busy_of_active (h : TaskLedger s) (hactive : s.activeTasks ≤ 0) (w : Fin n) :
    (s.workers w).isBusy = false := by
  rw [h.active] at hactive
  have hcard : (Finset.univ.filter fun w => (s.workers w).isBusy).card = 0 := by omega
  have hempty := Finset.card_eq_zero.mp hcard
  rw [Finset.filter_eq_empty_iff] at hempty
  simpa using hempty (Finset.mem_univ w)

/-! ### The end of the workers -/

/-- The task is added before `tp_dispose`, or from inside a running one. -/
def Timely (s : ThreadPool n m φ α) : PoolAction n m φ α → Prop
  | .add none _ _ _ _ => s.stop = false
  | _ => True

/-- After `tp_dispose`, not all workers end before the queue is empty. -/
def Drains (s : ThreadPool n m φ α) : Prop :=
  s.stop = true → s.queue ≠ [] → ∃ w, s.workers w ≠ .exited

/-- A worker that has not ended will empty the queue. -/
theorem drains_of_worker {w : Fin n} {x : Worker φ α} (hw : s.workers w = x)
    (hx : x ≠ .exited) : Drains s :=
  fun _ _ => ⟨w, fun hexit => hx (hw.symm.trans hexit)⟩

/-- A signal to a worker does not touch `stop`. -/
theorem signalWorker_stop (s : ThreadPool n m φ α) (woken : Option (Fin n)) :
    (s.signalWorker woken).stop = s.stop := by
  cases woken <;> rfl

/-- A signal to a waiter does not touch the workers. -/
theorem signalWaiter_workers (s : ThreadPool n m φ α) (woken : Option (Fin m)) :
    (s.signalWaiter woken).workers = s.workers := by
  cases woken <;> rfl

/-- A worker ends only when nothing is queued, and a task that is added later comes from
another one. -/
theorem PoolStep.drains {a : PoolAction n m φ α} (hstep : PoolStep s a s') (htimely : Timely s a)
    (hn : 0 < n) (h : TaskLedger s) (hshort : s.queue.length < 2 ^ 32) (hd : Drains s) :
    Drains s' := by
  cases hstep with
  | @fetch _ w hw hfetch =>
      rcases tpWorkerFetch_cases hfetch with
        ⟨-, hstop, rfl⟩ | ⟨hcount, -, rfl⟩ | ⟨job, queue, -, -, rfl⟩
      · intro hstop'
        rw [show (s.setWorker w .asleep).stop = s.stop from rfl, hstop] at hstop'
        cases hstop'
      · intro _ hqueue
        rw [h.count_eq hshort] at hcount
        exact absurd (List.length_eq_zero_iff.mp hcount) hqueue
      · exact drains_of_worker (ThreadPool.setWorker_self s w (.running job)) (by simp)
  | @execute w job hw =>
      refine drains_of_worker (ThreadPool.setWorker_self s w _) ?_
      split <;> simp
  | @callback w job hw =>
      exact drains_of_worker (ThreadPool.setWorker_self s w .finishing) (by simp)
  | @finish w woken hw _ =>
      refine drains_of_worker (w := w) (x := .locking) ?_ (by simp)
      rw [tpWorkerFinish, signalWaiter_workers]
      exact ThreadPool.setWorker_self ..
  | @add caller task taskAlloc itemAlloc woken _ hcaller _ =>
      rcases tpTaskAdd_cases s task taskAlloc itemAlloc woken with hsame | hadd
      · rw [hsame]
        exact hd
      · rw [hadd]
        cases woken with
        | some v => exact drains_of_worker (ThreadPool.setWorker_self _ v .locking) (by simp)
        | none =>
            cases caller with
            | none =>
                intro hstop
                rw [signalWorker_stop, show (s.enqueue task).stop = s.stop from rfl,
                  show s.stop = false from htimely] at hstop
                cases hstop
            | some w =>
                obtain ⟨job, hw | hw⟩ := hcaller w rfl
                · exact drains_of_worker hw (by simp)
                · exact drains_of_worker hw (by simp)
  | callWait _ _ => exact hd
  | checkWait _ =>
      rw [tpWaitCheck]
      split <;> exact hd
  | dispose _ =>
      cases hstop : s.stop with
      | true =>
          rw [tpDisposeStop, if_pos hstop]
          exact hd
      | false =>
          rcases tpDisposeStop_workers hstop ⟨0, hn⟩ with hw | ⟨-, hw⟩
          · refine drains_of_worker hw fun hexit => ?_
            rw [h.exited _ hexit] at hstop
            cases hstop
          · exact drains_of_worker hw (by simp)
  | join _ _ => exact hd
  | @wakeWorker w hw =>
      exact drains_of_worker (ThreadPool.setWorker_self s w .locking) (by simp)
  | wakeWaiter _ => exact hd

/-! ### Runs -/

/-- A step of some thread, with tasks added in time. -/
def TimelyStep (s s' : ThreadPool n m φ α) : Prop := ∃ a, PoolStep s a s' ∧ Timely s a

/-- A step that leaves fewer than `2 ^ 32` tasks in the queue. -/
def ShortStep (s s' : ThreadPool n m φ α) : Prop :=
  TimelyStep s s' ∧ s'.queue.length < 2 ^ 32

/-- What the ledger says of the tasks that have been run. -/
theorem TaskLedger.runsTasks (h : TaskLedger s) (hshort : s.queue.length < 2 ^ 32) (hd : Drains s) :
    RunsTasks s where
  order := h.fifo.symm
  distinct := h.distinct
  taken x hx := Multiset.mem_coe.mp
    (Multiset.mem_of_le h.executed_le (Multiset.mem_coe.mpr (List.mem_map_of_mem hx)))
  once := h.once
  onceCalled := h.onceCalled
  active := h.active
  waits i s' hstep hidle := by
    cases hstep with
    | checkWait hi =>
        rw [tpWaitCheck] at hidle
        split at hidle
        · rw [ThreadPool.setWaiter_self] at hidle
          cases hidle
        · rename_i hnone
          obtain ⟨hactive, hcount⟩ := not_or.mp hnone
          rw [h.count_eq hshort] at hcount
          exact h.allFinished (h.not_busy_of_active (by omega))
            (List.length_eq_zero_iff.mp (by omega))
  disposes hj := by
    obtain ⟨hstop, hall⟩ := h.joined hj
    have hqueue : s.queue = [] := by
      by_contra hqueue
      obtain ⟨w, hw⟩ := hd hstop hqueue
      exact hw (hall w)
    exact ⟨hqueue, h.allFinished (fun w => by rw [hall w]; rfl) hqueue⟩

/-- **The pool runs every task once and in order**, and waits for them, in every state of every
run from `tp_init` in which fewer than `2 ^ 32` tasks are queued and tasks are added before
`tp_dispose` or from inside running ones. -/
theorem pool_runs_tasks_in_order (maxThreads : ℤ)
    (s : ThreadPool (workerCount maxThreads) m φ α)
    (h : Relation.ReflTransGen ShortStep (tpInit maxThreads m φ α) s) : RunsTasks s := by
  have hinv : TaskLedger s ∧ s.queue.length < 2 ^ 32 ∧ Drains s := by
    refine run_invariant (I := fun s => TaskLedger s ∧ s.queue.length < 2 ^ 32 ∧ Drains s) ?_ h
      ⟨taskLedger_tpInit maxThreads, Nat.two_pow_pos 32, fun hstop => by cases hstop⟩
    rintro x y ⟨⟨a, hstep, htimely⟩, hshort⟩ ⟨hledger, hshort', hd⟩
    exact ⟨hstep.ledger hledger, hshort,
      hstep.drains htimely (workerCount_pos maxThreads) hledger hshort' hd⟩
  exact hinv.1.runsTasks hinv.2.1 hinv.2.2

end Order

/-- A task with a callback. -/
def calledTask : TPTask ℕ ℕ := ⟨some 0, none, some 1, none⟩

/-- A pool of one worker is given a task and disposed of. -/
theorem disposed_after_task :
    ∃ s : ThreadPool (workerCount 1) 0 ℕ ℕ, RunsTasks s ∧ s.joined = true ∧
      s.calledBack.map Prod.snd = [⟨0, calledTask⟩] := by
  let w : Fin (workerCount 1) := ⟨0, workerCount_pos 1⟩
  let s₁ := (tpInit 1 0 ℕ ℕ).enqueue calledTask
  let s₂ := s₁.take w ⟨0, calledTask⟩ []
  let s₃ := tpWorkerExecute s₂ w ⟨0, calledTask⟩
  let s₄ := tpWorkerCallback s₃ w ⟨0, calledTask⟩
  let s₅ := tpWorkerFinish s₄ w none
  let s₆ := tpDisposeStop s₅
  let s₇ := s₆.setWorker w .exited
  have h₁ : ShortStep (tpInit 1 0 ℕ ℕ) s₁ :=
    ⟨⟨.add none calledTask true true none, .add rfl nofun (fun _ => nofun), rfl⟩, by decide⟩
  have h₂ : ShortStep s₁ s₂ := ⟨⟨.fetch w, .fetch rfl rfl, trivial⟩, by decide⟩
  have h₃ : ShortStep s₂ s₃ := ⟨⟨.execute w, .execute rfl, trivial⟩, by decide⟩
  have h₄ : ShortStep s₃ s₄ := ⟨⟨.callback w, .callback rfl, trivial⟩, by decide⟩
  have h₅ : ShortStep s₄ s₅ := ⟨⟨.finish w none, .finish rfl nofun, trivial⟩, by decide⟩
  have h₆ : ShortStep s₅ s₆ := ⟨⟨.dispose, .dispose rfl, trivial⟩, by decide⟩
  have hexit : tpWorkerFetch s₆ w = .ok s₇ :=
    (if_neg fun hsleep => Bool.noConfusion hsleep.2).trans (if_pos ⟨by decide, rfl⟩)
  have h₇ : ShortStep s₆ s₇ := ⟨⟨.fetch w, .fetch rfl hexit, trivial⟩, by decide⟩
  have h₈ : ShortStep s₇ { s₇ with joined := true } :=
    ⟨⟨.join, .join rfl (by decide), trivial⟩, by decide⟩
  have hrun : Relation.ReflTransGen ShortStep (tpInit 1 0 ℕ ℕ) { s₇ with joined := true } :=
    .head h₁ (.head h₂ (.head h₃ (.head h₄ (.head h₅ (.head h₆ (.head h₇ (.single h₈)))))))
  exact ⟨_, pool_runs_tasks_in_order 1 _ hrun, rfl, rfl⟩

/-! ### More tasks than `count` can tell -/

/-- A thread wakes up although nothing signalled it. -/
def PoolAction.isSpurious {n m : ℕ} {φ α : Type} : PoolAction n m φ α → Bool
  | .wakeWorker _ => true
  | .wakeWaiter _ => true
  | _ => false

/-- A step with tasks added in time and without a spurious wake-up. -/
def PromptStep {n m : ℕ} {φ α : Type} (s s' : ThreadPool n m φ α) : Prop :=
  ∃ a, PoolStep s a s' ∧ Timely s a ∧ a.isSpurious = false

/-- A step of a program that adds no task after `tp_dispose` is timely. -/
theorem PromptStep.timelyStep {n m : ℕ} {φ α : Type} {s s' : ThreadPool n m φ α}
    (h : PromptStep s s') : TimelyStep s s' := by
  obtain ⟨a, hstep, htimely, -⟩ := h
  exact ⟨a, hstep, htimely⟩

/-- A task without a callback. -/
def plainTask : TPTask ℕ ℕ := ⟨some 0, none, none, none⟩

/-- A new pool of one worker, to which tasks are added before the worker runs. -/
def filledPool (m : ℕ) : ℕ → ThreadPool (workerCount 1) m ℕ ℕ
  | 0 => tpInit 1 m ℕ ℕ
  | k + 1 => (filledPool m k).enqueue plainTask

/-- A pool with so many tasks in its queue. -/
theorem filledPool_eq (m k : ℕ) : ∃ jobs : List (Job ℕ ℕ), jobs.length = k ∧
    filledPool m k = { tpInit 1 m ℕ ℕ with queue := jobs, count := k % 2 ^ 32, added := jobs } := by
  induction k with
  | zero => exact ⟨[], rfl, rfl⟩
  | succ k ih =>
      obtain ⟨jobs, hlength, heq⟩ := ih
      refine ⟨jobs ++ [⟨jobs.length, plainTask⟩], by simp [hlength], ?_⟩
      rw [filledPool, heq, ThreadPool.enqueue]
      simp

/-- Such a pool is reached. -/
theorem reaches_filledPool (m k : ℕ) :
    Relation.ReflTransGen PromptStep (tpInit 1 m ℕ ℕ) (filledPool m k) := by
  induction k with
  | zero => exact .refl
  | succ k ih =>
      obtain ⟨jobs, -, heq⟩ := filledPool_eq m k
      refine ih.tail ⟨.add none plainTask true true none, ?_, ?_, rfl⟩
      · refine PoolStep.add ?_ nofun ?_
        · rw [heq]
          rfl
        · intro w
          rw [heq]
          nofun
      · rw [heq]
        rfl

/-- `tp_wait` returns at once when `count` is zero, whatever is in the queue. -/
theorem returns_early_of_count {k : ℕ} (hpos : 0 < k) (hcount : k % 2 ^ 32 = 0) :
    ∃ s : ThreadPool (workerCount 1) 1 ℕ ℕ,
      Relation.ReflTransGen TimelyStep (tpInit 1 1 ℕ ℕ) s ∧ ¬ RunsTasks s := by
  obtain ⟨jobs, hlength, heq⟩ := filledPool_eq 1 k
  have hcall : TimelyStep (filledPool 1 k) ((filledPool 1 k).setWaiter 0 .locking) := by
    refine ⟨.callWait 0, .callWait ?_ ?_, trivial⟩ <;> rw [heq] <;> rfl
  have hfilled : Relation.ReflTransGen TimelyStep (tpInit 1 1 ℕ ℕ) (filledPool 1 k) :=
    Relation.ReflTransGen.mono (fun _ _ => PromptStep.timelyStep) _ _ (reaches_filledPool 1 k)
  refine ⟨_, hfilled.tail hcall, fun h => ?_⟩
  have hfinished := h.waits 0 _ (.checkWait (ThreadPool.setWaiter_self ..)) (by
    rw [tpWaitCheck, if_neg, ThreadPool.setWaiter_self]
    rw [heq]
    simpa [tpInit, ThreadPool.setWaiter] using hcount)
  obtain ⟨job, later, rfl⟩ := List.exists_cons_of_length_pos (hlength.symm ▸ hpos)
  obtain ⟨w, hw⟩ := (hfinished job (by rw [heq]; exact List.mem_cons_self)).1
  rw [heq] at hw
  cases hw

/-- **`tp_wait` does not wait for `2 ^ 32` queued tasks.** -/
theorem pool_returns_early :
    ∃ s : ThreadPool (workerCount 1) 1 ℕ ℕ,
      Relation.ReflTransGen TimelyStep (tpInit 1 1 ℕ ℕ) s ∧ ¬ RunsTasks s :=
  returns_early_of_count (Nat.two_pow_pos 32) (Nat.mod_self _)

end MaestroCore
