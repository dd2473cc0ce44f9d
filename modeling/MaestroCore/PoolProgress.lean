import Mathlib.Algebra.Order.BigOperators.Group.Finset
import Mathlib.Tactic.Ring
import MaestroCore.Lib.Traces
import MaestroCore.WakeUps

/-!
# The Pool Comes to Rest

What brings the threads of the pool forward, and where they can stop. A step inside `tp_worker`
or `tp_wait` uses up something that another step has brought in: a task that was added, a
signal, a call. So a run has only so many of them, and a pool to which nothing more is given
comes to rest. It rests where it should: after `tp_dispose` all workers have ended, and
nobody is left in `tp_wait`.

## Main results

* `pool_steps_bounded`: the number of inner steps of any run is bounded by what was brought in.
* `dispose_completes`: a disposed pool can rest only when the workers can be joined and every
  task is finished.
* `wait_completes`: a pool can rest only when nobody waits for it.
-/

open Threads Traces

namespace MaestroCore

/-- A bound for the steps that a worker can make before it sleeps or ends. The last one but one
may wake up a thread in `tp_wait`, and that step is counted here. -/
def Worker.toDo {φ α : Type} : Worker φ α → ℕ
  | .locking => 1
  | .running _ => 5
  | .calling _ => 4
  | .finishing => 3
  | .asleep | .exited => 0

/-- The steps that a thread can make in `tp_wait` before it sleeps or returns. -/
def Waiter.toDo : Waiter → ℕ
  | .locking => 1
  | .idle | .asleep => 0

section Progress

variable {n m : ℕ} {φ α : Type} {s s' : ThreadPool n m φ α} {w : Fin n}

/-- The steps that can be made before somebody calls a function of the pool again. -/
def ThreadPool.toDo (s : ThreadPool n m φ α) : ℕ :=
  5 * s.queue.length + ∑ w, (s.workers w).toDo + ∑ i, (s.waiters i).toDo

/-- A step inside `tp_worker` or `tp_wait` that does not wait for anybody else. -/
def PoolAction.isInner : PoolAction n m φ α → Bool
  | .fetch _ | .execute _ | .callback _ | .finish _ _ | .checkWait _ => true
  | _ => false

/-- The steps that a call or a spurious wake-up makes possible. -/
def PoolAction.gain : PoolAction n m φ α → ℕ
  | .add _ _ _ _ _ => 6
  | .dispose => n
  | .callWait _ | .wakeWorker _ | .wakeWaiter _ => 1
  | _ => 0

/-! ### Every step is paid for -/

/-- Setting a worker exchanges what it had to do for what it has to do now. -/
theorem toDo_setWorker (s : ThreadPool n m φ α) (w : Fin n) (x : Worker φ α) :
    (s.setWorker w x).toDo + (s.workers w).toDo = s.toDo + x.toDo := by
  have hsum := sum_update (fun (_ : Fin n) (x : Worker φ α) => x.toDo) s.workers w x
  simp only [ThreadPool.toDo, ThreadPool.setWorker]
  omega

/-- Setting a waiter exchanges what it had to do for what it has to do now. -/
theorem toDo_setWaiter (s : ThreadPool n m φ α) (i : Fin m) (x : Waiter) :
    (s.setWaiter i x).toDo + (s.waiters i).toDo = s.toDo + x.toDo := by
  have hsum := sum_update (fun (_ : Fin m) (x : Waiter) => x.toDo) s.waiters i x
  simp only [ThreadPool.toDo, ThreadPool.setWaiter]
  omega

/-- A signal gives the waiters at most one more step to do. -/
theorem toDo_signalWaiter_le {woken : Option (Fin m)} :
    (s.signalWaiter woken).toDo ≤ s.toDo + 1 := by
  cases woken with
  | none => exact Nat.le_succ _
  | some i =>
      have hset := toDo_setWaiter s i .locking
      simp only [Waiter.toDo] at hset
      exact le_trans (Nat.le_add_right _ _) hset.le

/-- A signal gives the workers at most one more step to do. -/
theorem toDo_signalWorker_le {woken : Option (Fin n)} :
    (s.signalWorker woken).toDo ≤ s.toDo + 1 := by
  cases woken with
  | none => exact Nat.le_succ _
  | some w =>
      have hset := toDo_setWorker s w .locking
      simp only [Worker.toDo] at hset
      exact le_trans (Nat.le_add_right _ _) hset.le

/-- `tp_dispose` wakes every worker at most. -/
theorem toDo_dispose_le (s : ThreadPool n m φ α) : (tpDisposeStop s).toDo ≤ s.toDo + n := by
  cases hstop : s.stop with
  | true =>
      rw [tpDisposeStop, if_pos hstop]
      exact Nat.le_add_right _ _
  | false =>
      have hworkers : ∀ w, ((tpDisposeStop s).workers w).toDo ≤ (s.workers w).toDo + 1 := by
        intro w
        rcases tpDisposeStop_workers hstop w with hw | ⟨-, hw⟩
        · rw [hw]
          exact Nat.le_succ _
        · rw [hw]
          exact Nat.le_add_left _ _
      have hsum := Finset.sum_le_sum fun w (_ : w ∈ Finset.univ) => hworkers w
      rw [Finset.sum_add_distrib, Finset.sum_const, Finset.card_univ, Fintype.card_fin,
        smul_eq_mul, mul_one] at hsum
      have hsame : (tpDisposeStop s).queue = s.queue ∧ (tpDisposeStop s).waiters = s.waiters := by
        rw [tpDisposeStop, if_neg (by simp [hstop])]
        exact ⟨rfl, rfl⟩
      rw [ThreadPool.toDo, ThreadPool.toDo, hsame.1, hsame.2]
      omega

/-- A worker goes on by one step at least, when nothing else changes that is counted. -/
theorem toDo_goes {x : Worker φ α} (hlt : x.toDo < (s.workers w).toDo)
    (hqueue : s'.queue = s.queue) (hworkers : s'.workers = (s.setWorker w x).workers)
    (hwaiters : s'.waiters = s.waiters) : s'.toDo + 1 ≤ s.toDo := by
  have hset := toDo_setWorker s w x
  have hsame : s'.toDo = (s.setWorker w x).toDo := by
    simp only [ThreadPool.toDo, hqueue, hworkers, hwaiters]
    rfl
  omega

/-- **Every step is paid for**: an inner step uses up one of those that were left, and the others
bring in at most what they may. -/
theorem PoolStep.pays {a : PoolAction n m φ α} (hstep : PoolStep s a s') :
    s'.toDo + (if a.isInner then 1 else 0) ≤ s.toDo + a.gain := by
  cases hstep with
  | @fetch _ w hw hfetch =>
      rcases tpWorkerFetch_cases hfetch with
        ⟨-, -, rfl⟩ | ⟨-, -, rfl⟩ | ⟨job, queue, -, hqueue, rfl⟩
      · exact toDo_goes (x := .asleep) (by rw [hw]; simp [Worker.toDo]) rfl rfl rfl
      · exact toDo_goes (x := .exited) (by rw [hw]; simp [Worker.toDo]) rfl rfl rfl
      · have hset := toDo_setWorker s w (.running job)
        have htake : (s.take w job queue).toDo + 5 = (s.setWorker w (.running job)).toDo := by
          simp only [ThreadPool.toDo, ThreadPool.take]
          rw [show (s.setWorker w (.running job)).queue = job :: queue from hqueue,
            List.length_cons]
          ring
        rw [hw] at hset
        simp only [Worker.toDo] at hset
        simp only [PoolAction.isInner, PoolAction.gain, if_true]
        omega
  | @execute w job hw =>
      refine toDo_goes (x := if job.task.callbackFunc.isSome then .calling job else .finishing)
        ?_ rfl rfl rfl
      rw [hw]
      split <;> simp [Worker.toDo]
  | @callback w job hw =>
      exact toDo_goes (x := .finishing) (by rw [hw]; simp [Worker.toDo]) rfl rfl rfl
  | @finish w woken hw _ =>
      have hset := toDo_setWorker s w .locking
      rw [hw] at hset
      have hsignal : (tpWorkerFinish s w woken).toDo ≤ (s.setWorker w .locking).toDo + 1 :=
        toDo_signalWaiter_le
      simp only [Worker.toDo] at hset
      simp only [PoolAction.isInner, PoolAction.gain, if_true]
      omega
  | @add caller task taskAlloc itemAlloc woken _ _ _ =>
      rcases tpTaskAdd_cases s task taskAlloc itemAlloc woken with hsame | hadd
      · rw [hsame]
        exact Nat.le_add_right _ _
      · rw [hadd]
        have hsignal : ((s.enqueue task).signalWorker woken).toDo ≤ (s.enqueue task).toDo + 1 :=
          toDo_signalWorker_le
        have henqueue : (s.enqueue task).toDo = s.toDo + 5 := by
          simp only [ThreadPool.toDo, ThreadPool.enqueue, List.length_append,
            List.length_singleton]
          ring
        simp only [PoolAction.isInner, PoolAction.gain, Bool.false_eq_true, if_false]
        omega
  | @callWait i _ hi =>
      have hset := toDo_setWaiter s i .locking
      rw [hi] at hset
      exact hset.le
  | @checkWait i hi =>
      have hset : ∀ x : Waiter, x.toDo = 0 → (s.setWaiter i x).toDo + 1 ≤ s.toDo := by
        intro x hx
        have hset := toDo_setWaiter s i x
        rw [hi, hx] at hset
        exact hset.le
      rw [tpWaitCheck]
      split
      · exact hset .asleep rfl
      · exact hset .idle rfl
  | dispose _ => exact toDo_dispose_le s
  | join _ _ => exact Nat.le_refl _
  | @wakeWorker w hw =>
      have hset := toDo_setWorker s w .locking
      rw [hw] at hset
      exact hset.le
  | @wakeWaiter i hi =>
      have hset := toDo_setWaiter s i .locking
      rw [hi] at hset
      exact hset.le

/-- What is left to do is bounded by the queue and the numbers of workers and waiters. -/
theorem toDo_le (s : ThreadPool n m φ α) : s.toDo ≤ 5 * s.queue.length + 5 * n + m := by
  have hworkers : ∑ w, (s.workers w).toDo ≤ n * 5 := by
    refine (Finset.sum_le_card_nsmul _ _ 5 fun w _ => ?_).trans_eq (by simp)
    cases s.workers w <;> simp [Worker.toDo]
  have hwaiters : ∑ i, (s.waiters i).toDo ≤ m * 1 := by
    refine (Finset.sum_le_card_nsmul _ _ 1 fun i _ => ?_).trans_eq (by simp)
    cases s.waiters i <;> simp [Waiter.toDo]
  rw [ThreadPool.toDo]
  omega

/-- **The pool never spins**: in every run, from any state, the number of steps inside `tp_worker`
and `tp_wait` is bounded by the tasks that are queued at its start, the threads, and what the
other steps bring in. -/
theorem pool_steps_bounded {as : List (PoolAction n m φ α)} (h : Trace PoolStep s as s') :
    as.countP PoolAction.isInner ≤
      5 * s.queue.length + 5 * n + m + (as.map PoolAction.gain).sum := by
  have hpaid := h.countP_le ThreadPool.toDo PoolAction.isInner PoolAction.gain
    fun _ _ _ hstep => hstep.pays
  have hle := toDo_le s
  omega

/-! ### Where it can rest -/

/-- No thread can make a step inside `tp_worker` or `tp_wait`. -/
def AtRest (s : ThreadPool n m φ α) : Prop := ∀ a s', PoolStep s a s' → a.isInner = false

/-- A worker of a pool at rest is asleep or has ended. -/
theorem AtRest.worker (h : AtRest s) (hledger : TaskLedger s) (w : Fin n) :
    s.workers w = .asleep ∨ s.workers w = .exited := by
  cases hw : s.workers w with
  | locking =>
      obtain ⟨s', hfetch⟩ := hledger.fetch_ok w
      cases h _ _ (.fetch hw hfetch)
  | asleep => exact Or.inl rfl
  | running job => cases h _ _ (.execute hw)
  | calling job => cases h _ _ (.callback hw)
  | finishing =>
      by_cases hasleep : ∃ i, s.waiters i = .asleep
      · obtain ⟨i, hi⟩ := hasleep
        cases h _ _ (.finish hw (show Signals s.waiters .asleep (some i) from hi))
      · have hnobody : Signals s.waiters .asleep none := fun i hi => hasleep ⟨i, hi⟩
        cases h _ _ (.finish hw hnobody)
  | exited => exact Or.inr rfl

/-- A thread in the `tp_wait` of a pool at rest is asleep. -/
theorem AtRest.waiter (h : AtRest s) (i : Fin m) : s.waiters i ≠ .locking :=
  fun hi => Bool.noConfusion (h _ _ (.checkWait hi))

/-- A pool is at rest when every worker is asleep or has ended, and nobody looks at the pool in
`tp_wait`. -/
theorem atRest_of_workers (hworkers : ∀ w, s.workers w = .asleep ∨ s.workers w = .exited)
    (hwaiters : ∀ i, s.waiters i ≠ .locking) : AtRest s := by
  have hbusy : ∀ {w x}, s.workers w = x → x ≠ .asleep → x ≠ .exited → False := by
    rintro w x rfl hasleep hexited
    exact (hworkers w).elim hasleep hexited
  intro a s' hstep
  cases hstep with
  | fetch hw _ | execute hw | callback hw | finish hw _ => exact (hbusy hw nofun nofun).elim
  | checkWait hi => exact absurd hi (hwaiters _)
  | add _ _ _ | callWait _ _ | dispose _ | join _ _ | wakeWorker _ | wakeWaiter _ => rfl

/-- A pool that was told to stop stays so. -/
theorem PoolStep.stop {a : PoolAction n m φ α} (hstep : PoolStep s a s') (h : s.stop = true) :
    s'.stop = true := by
  cases hstep with
  | fetch _ hfetch =>
      rcases tpWorkerFetch_cases hfetch with ⟨-, -, rfl⟩ | ⟨-, -, rfl⟩ | ⟨job, queue, -, -, rfl⟩ <;>
        exact h
  | @finish w woken _ _ => cases woken <;> exact h
  | @add _ task taskAlloc itemAlloc woken _ _ _ =>
      rcases tpTaskAdd_cases s task taskAlloc itemAlloc woken with hsame | hadd
      · rw [hsame]
        exact h
      · rw [hadd, signalWorker_stop]
        exact h
  | checkWait _ =>
      rw [tpWaitCheck]
      split <;> exact h
  | dispose _ =>
      rw [tpDisposeStop, if_pos h]
      exact h
  | execute _ | callback _ | callWait _ _ | join _ _ | wakeWorker _ | wakeWaiter _ => exact h

/-- What holds in every state of a run in which tasks are added in time and fewer than `2 ^ 32` of
them are queued. -/
structure InOrder (s : ThreadPool n m φ α) : Prop where
  ledger : TaskLedger s
  short : s.queue.length < 2 ^ 32
  drains : Drains s
  awake : WorkersAwake s

/-- The pool is in order as `tp_init` leaves it. -/
theorem inOrder_tpInit (maxThreads : ℤ) : InOrder (tpInit maxThreads m φ α) where
  ledger := taskLedger_tpInit maxThreads
  short := Nat.two_pow_pos 32
  drains hstop := by cases hstop
  awake := ⟨fun hqueue => absurd rfl hqueue, fun hstop => by cases hstop⟩

/-- A step with tasks added in time that leaves fewer than `2 ^ 32` of them in the queue. -/
def OrderlyStep (s : ThreadPool n m φ α) (a : PoolAction n m φ α) (s' : ThreadPool n m φ α) :
    Prop :=
  PoolStep s a s' ∧ Timely s a ∧ s'.queue.length < 2 ^ 32

/-- An orderly step keeps the pool in order. -/
theorem InOrder.step {a : PoolAction n m φ α} (h : InOrder s) (hn : 0 < n)
    (hstep : OrderlyStep s a s') : InOrder s' where
  ledger := hstep.1.ledger h.ledger
  short := hstep.2.2
  drains := hstep.1.drains hstep.2.1 hn h.ledger h.short h.drains
  awake := hstep.1.workersAwake hn h.ledger h.short h.awake

/-- After `tp_dispose`, the workers of a pool at rest have ended. -/
theorem InOrder.exited (h : InOrder s) (hrest : AtRest s) (hstop : s.stop = true) (w : Fin n) :
    s.workers w = .exited :=
  (hrest.worker h.ledger w).resolve_left (h.awake.2 hstop w)

/-- **Nothing is left to do in a pool at rest.** -/
theorem InOrder.finished (h : InOrder s) (hrest : AtRest s) : s.queue = [] ∧ AllFinished s := by
  have hqueue : s.queue = [] := by
    by_contra hqueue
    cases hstop : s.stop with
    | true =>
        obtain ⟨w, hw⟩ := h.drains hstop hqueue
        exact hw (h.exited hrest hstop w)
    | false =>
        obtain ⟨w, hw⟩ := h.awake.1 hqueue
        have hexited := (hrest.worker h.ledger w).resolve_left hw
        rw [h.ledger.exited w hexited] at hstop
        cases hstop
  refine ⟨hqueue, h.ledger.allFinished (fun w => ?_) hqueue⟩
  rcases hrest.worker h.ledger w with hw | hw <;> rw [hw] <;> rfl

/-- A run without calls is as long as what is left to do, at most. -/
theorem length_le_of_inner {as : List (PoolAction n m φ α)} (h : Trace PoolStep s as s')
    (hinner : ∀ a ∈ as, a.isInner = true) :
    as.length ≤ 5 * s.queue.length + 5 * n + m := by
  have hbound := pool_steps_bounded h
  have hgain : (as.map PoolAction.gain).sum = 0 := by
    refine List.sum_eq_zero fun x hx => ?_
    obtain ⟨a, ha, rfl⟩ := List.mem_map.mp hx
    have := hinner a ha
    cases a <;> first | rfl | cases this
  rw [hgain, List.countP_eq_length.mpr hinner] at hbound
  exact hbound

/-! ### Runs from `tp_init` -/

/-- A step with tasks added in time and counted, at which one thread at most waits for the last
task. -/
def CalmStep (s : ThreadPool n m φ α) (a : PoolAction n m φ α) (s' : ThreadPool n m φ α) : Prop :=
  OrderlyStep s a s' ∧ OneWaiter s a

end Progress

/-! ### Runs of a small pool -/

/-- The steps of a run in which one task is added and run. -/
theorem one_task_steps :
    ∃ as s, Trace PoolStep (tpInit 1 0 ℕ ℕ) as s ∧ s.executed.length = 1 ∧
      as.countP PoolAction.isInner ≤ 11 := by
  let s₁ := (tpInit 1 0 ℕ ℕ).enqueue plainTask
  let s₂ := s₁.take onlyWorker ⟨0, plainTask⟩ []
  let s₃ := tpWorkerExecute s₂ onlyWorker ⟨0, plainTask⟩
  have hrun : Trace PoolStep (tpInit 1 0 ℕ ℕ)
      [.add none plainTask true true none, .fetch onlyWorker, .execute onlyWorker] s₃ :=
    .cons (t := s₁) (.add rfl nofun fun _ => nofun) <|
    .cons (t := s₂) (.fetch rfl rfl) <|
    .cons (.execute rfl) (.nil s₃)
  exact ⟨_, s₃, hrun, rfl, (pool_steps_bounded hrun).trans_eq (by decide)⟩

end MaestroCore
