import MaestroCore.Lib.Threads
import MaestroCore.LinkedList

/-!
# The Thread Pool

`thread_pool.c` as a system of threads. Every region of `tp_worker`, `tp_task_add`, `tp_wait`
and `tp_dispose` that holds the mutex is one step, and so is the execution of the function and
of the callback of a task. A thread in `pthread_cond_wait` is asleep in one of the two wait
sets until it is signalled or wakes up for no reason; it then has to lock the mutex again.

The queue is the sequence that its linked list represents, with the `count` of the list, an
`unsigned int`. Its items are never `NULL`. The fields from `added` on are a record of what
happened, which the code does not have.

## Main results

* `PoolStep.ledger`: what is queued, held by the workers and done is always what was added.
* `TaskLedger.fetch_ok`: no step dereferences the head of an empty queue.
-/

open Threads

namespace MaestroCore

/-- `TP_Task`. -/
structure TPTask (φ α : Type) where
  threadFunc : Option φ
  threadArg : Option α
  callbackFunc : Option φ
  callbackArg : Option α
  deriving DecidableEq, Repr

/-- The persistent copy of a task, with the number of the tasks that were added before it. -/
structure Job (φ α : Type) where
  number : ℕ
  task : TPTask φ α
  deriving DecidableEq, Repr

/-- Where a worker stands in `tp_worker`. -/
inductive Worker (φ α : Type)
  /-- Before it locks the mutex to look at the queue. -/
  | locking
  /-- In the wait set of `task_added`. -/
  | asleep
  /-- Before and in the function of the task. -/
  | running (job : Job φ α)
  /-- Before and in the callback of the task. -/
  | calling (job : Job φ α)
  /-- Before it locks the mutex to decrement `active_tasks`. -/
  | finishing
  /-- After its loop. -/
  | exited
  deriving DecidableEq, Repr

/-- Where a thread stands that may call `tp_wait`. -/
inductive Waiter
  /-- Not in `tp_wait`. -/
  | idle
  /-- Before it locks the mutex to look at the pool. -/
  | locking
  /-- In the wait set of `task_finished`. -/
  | asleep
  deriving DecidableEq, Repr

/-- `Thread_Pool` with its `n` workers, `m` threads that may wait for it, and the record. -/
structure ThreadPool (n m : ℕ) (φ α : Type) where
  queue : List (Job φ α) := []
  count : ℕ := 0
  activeTasks : ℤ := 0
  stop : Bool := false
  workers : Fin n → Worker φ α := fun _ => .locking
  waiters : Fin m → Waiter := fun _ => .idle
  joined : Bool := false
  added : List (Job φ α) := []
  dequeued : List (Job φ α) := []
  executed : List (Fin n × Job φ α) := []
  calledBack : List (Fin n × Job φ α) := []

/-- The number of the threads that `tp_init` creates. -/
def workerCount (maxThreads : ℤ) : ℕ := if maxThreads ≤ 0 then 2 else maxThreads.toNat

/-- `tp_init`, when nothing fails. -/
def tpInit (maxThreads : ℤ) (m : ℕ) (φ α : Type) : ThreadPool (workerCount maxThreads) m φ α := {}

/-- A pool has at least one worker, whatever number was asked for. -/
theorem workerCount_pos (maxThreads : ℤ) : 0 < workerCount maxThreads := by
  rw [workerCount]
  split <;> omega

section Pool

variable {n m : ℕ} {φ α : Type} {s s' : ThreadPool n m φ α} {w : Fin n}

/-- A worker goes on. -/
def ThreadPool.setWorker (s : ThreadPool n m φ α) (w : Fin n) (x : Worker φ α) :
    ThreadPool n m φ α :=
  { s with workers := Function.update s.workers w x }

/-- The worker just set is in its new state. -/
@[simp] theorem ThreadPool.setWorker_self (s : ThreadPool n m φ α) (w : Fin n) (x : Worker φ α) :
    (s.setWorker w x).workers w = x :=
  Function.update_self ..

/-- Setting one worker leaves the others as they were. -/
theorem ThreadPool.setWorker_of_ne {v : Fin n} (hv : v ≠ w) (x : Worker φ α) :
    (s.setWorker w x).workers v = s.workers v :=
  Function.update_of_ne hv ..

/-- A waiting thread goes on. -/
def ThreadPool.setWaiter (s : ThreadPool n m φ α) (i : Fin m) (x : Waiter) :
    ThreadPool n m φ α :=
  { s with waiters := Function.update s.waiters i x }

/-- The waiter just set is in its new state. -/
@[simp] theorem ThreadPool.setWaiter_self (s : ThreadPool n m φ α) (i : Fin m) (x : Waiter) :
    (s.setWaiter i x).waiters i = x :=
  Function.update_self ..

/-- Setting one waiter leaves the others as they were. -/
theorem ThreadPool.setWaiter_of_ne {i j : Fin m} (hj : j ≠ i) (x : Waiter) :
    (s.setWaiter i x).waiters j = s.waiters j :=
  Function.update_of_ne hj ..

/-- What `pthread_cond_signal` may do on a wait set: one of the threads in it is woken, or there
is none. -/
def Signals {κ : Type} {k : ℕ} (threads : Fin k → κ) (asleep : κ) (woken : Option (Fin k)) :
    Prop :=
  match woken with
  | some i => threads i = asleep
  | none => ∀ i, threads i ≠ asleep

/-- `pthread_cond_signal` on `task_added`, which wakes the given worker. -/
def ThreadPool.signalWorker (s : ThreadPool n m φ α) (woken : Option (Fin n)) :
    ThreadPool n m φ α :=
  match woken with
  | none => s
  | some w => s.setWorker w .locking

/-- `pthread_cond_signal` on `task_finished`, which wakes the given thread. -/
def ThreadPool.signalWaiter (s : ThreadPool n m φ α) (woken : Option (Fin m)) :
    ThreadPool n m φ α :=
  match woken with
  | none => s
  | some i => s.setWaiter i .locking

/-- A worker takes the first task of the queue. -/
def ThreadPool.take (s : ThreadPool n m φ α) (w : Fin n) (job : Job φ α)
    (queue : List (Job φ α)) : ThreadPool n m φ α :=
  { s.setWorker w (.running job) with
    queue := queue
    count := (s.count + (2 ^ 32 - 1)) % 2 ^ 32
    activeTasks := s.activeTasks + 1
    dequeued := s.dequeued ++ [job] }

/-- A task comes to the end of the queue. -/
def ThreadPool.enqueue (s : ThreadPool n m φ α) (task : TPTask φ α) : ThreadPool n m φ α :=
  { s with
    queue := s.queue ++ [⟨s.added.length, task⟩]
    count := (s.count + 1) % 2 ^ 32
    added := s.added ++ [⟨s.added.length, task⟩] }

/-- The first region of `tp_worker`: the worker goes to sleep, ends, or takes a task. -/
def tpWorkerFetch (s : ThreadPool n m φ α) (w : Fin n) :
    Except PointerFault (ThreadPool n m φ α) :=
  if s.count = 0 ∧ s.stop = false then .ok (s.setWorker w .asleep)
  else if s.count = 0 ∧ s.stop = true then .ok (s.setWorker w .exited)
  else
    match s.queue with
    | [] => .error .dangling
    | job :: queue => .ok (s.take w job queue)

/-- The function of the task has run. -/
def tpWorkerExecute (s : ThreadPool n m φ α) (w : Fin n) (job : Job φ α) : ThreadPool n m φ α :=
  { s.setWorker w (if job.task.callbackFunc.isSome then .calling job else .finishing) with
    executed := s.executed ++ [(w, job)] }

/-- The callback of the task has run. -/
def tpWorkerCallback (s : ThreadPool n m φ α) (w : Fin n) (job : Job φ α) : ThreadPool n m φ α :=
  { s.setWorker w .finishing with calledBack := s.calledBack ++ [(w, job)] }

/-- The second region of `tp_worker`. -/
def tpWorkerFinish (s : ThreadPool n m φ α) (w : Fin n) (woken : Option (Fin m)) :
    ThreadPool n m φ α :=
  { s.setWorker w .locking with activeTasks := s.activeTasks - 1 }.signalWaiter woken

/-- `tp_task_add`, where the two allocations may fail. -/
def tpTaskAdd (s : ThreadPool n m φ α) (task : TPTask φ α) (taskAlloc itemAlloc : Bool)
    (woken : Option (Fin n)) : ℤ × ThreadPool n m φ α :=
  if task.threadFunc = none then (-1, s)
  else if taskAlloc = false then (-10, s)
  else if itemAlloc = false then (-101, s)
  else (0, (s.enqueue task).signalWorker woken)

/-- The region of `tp_wait`: the thread goes to sleep, or returns. -/
def tpWaitCheck (s : ThreadPool n m φ α) (i : Fin m) : ThreadPool n m φ α :=
  if 0 < s.activeTasks ∨ 0 < s.count then s.setWaiter i .asleep else s.setWaiter i .idle

/-- The first region of `tp_dispose`, which wakes every worker. -/
def tpDisposeStop (s : ThreadPool n m φ α) : ThreadPool n m φ α :=
  if s.stop = true then s
  else
    { s with
      stop := true
      workers := fun w => match s.workers w with
        | .asleep => .locking
        | x => x }

/-- What the threads can do next. A task is added by a worker that runs one, or by a thread
that is not a worker. -/
inductive PoolAction (n m : ℕ) (φ α : Type)
  | fetch (w : Fin n)
  | execute (w : Fin n)
  | callback (w : Fin n)
  | finish (w : Fin n) (woken : Option (Fin m))
  | add (caller : Option (Fin n)) (task : TPTask φ α) (taskAlloc itemAlloc : Bool)
      (woken : Option (Fin n))
  | callWait (i : Fin m)
  | checkWait (i : Fin m)
  | dispose
  | join
  | wakeWorker (w : Fin n)
  | wakeWaiter (i : Fin m)

/-- One step of one thread. -/
inductive PoolStep : ThreadPool n m φ α → PoolAction n m φ α → ThreadPool n m φ α → Prop
  | fetch {s s' : ThreadPool n m φ α} {w : Fin n} (hw : s.workers w = .locking)
      (hfetch : tpWorkerFetch s w = .ok s') : PoolStep s (.fetch w) s'
  | execute {s : ThreadPool n m φ α} {w : Fin n} {job : Job φ α}
      (hw : s.workers w = .running job) : PoolStep s (.execute w) (tpWorkerExecute s w job)
  | callback {s : ThreadPool n m φ α} {w : Fin n} {job : Job φ α}
      (hw : s.workers w = .calling job) : PoolStep s (.callback w) (tpWorkerCallback s w job)
  | finish {s : ThreadPool n m φ α} {w : Fin n} {woken : Option (Fin m)}
      (hw : s.workers w = .finishing) (hwoken : Signals s.waiters .asleep woken) :
      PoolStep s (.finish w woken) (tpWorkerFinish s w woken)
  | add {s : ThreadPool n m φ α} {caller : Option (Fin n)} {task : TPTask φ α}
      {taskAlloc itemAlloc : Bool} {woken : Option (Fin n)} (hopen : s.joined = false)
      (hcaller : ∀ w, caller = some w →
        ∃ job, s.workers w = .running job ∨ s.workers w = .calling job)
      (hwoken : Signals s.workers .asleep woken) :
      PoolStep s (.add caller task taskAlloc itemAlloc woken)
        (tpTaskAdd s task taskAlloc itemAlloc woken).2
  | callWait {s : ThreadPool n m φ α} {i : Fin m} (hopen : s.joined = false)
      (hi : s.waiters i = .idle) : PoolStep s (.callWait i) (s.setWaiter i .locking)
  | checkWait {s : ThreadPool n m φ α} {i : Fin m} (hi : s.waiters i = .locking) :
      PoolStep s (.checkWait i) (tpWaitCheck s i)
  | dispose {s : ThreadPool n m φ α} (hopen : s.joined = false) :
      PoolStep s .dispose (tpDisposeStop s)
  | join {s : ThreadPool n m φ α} (hstop : s.stop = true) (hall : ∀ w, s.workers w = .exited) :
      PoolStep s .join { s with joined := true }
  | wakeWorker {s : ThreadPool n m φ α} {w : Fin n} (hw : s.workers w = .asleep) :
      PoolStep s (.wakeWorker w) (s.setWorker w .locking)
  | wakeWaiter {s : ThreadPool n m φ α} {i : Fin m} (hi : s.waiters i = .asleep) :
      PoolStep s (.wakeWaiter i) (s.setWaiter i .locking)

/-! ### What the two regions with branches do -/

/-- A worker that fetches goes to sleep, exits, or takes the task at the head of the queue. -/
theorem tpWorkerFetch_cases (h : tpWorkerFetch s w = .ok s') :
    (s.count = 0 ∧ s.stop = false ∧ s' = s.setWorker w .asleep) ∨
    (s.count = 0 ∧ s.stop = true ∧ s' = s.setWorker w .exited) ∨
    ∃ job queue, s.count ≠ 0 ∧ s.queue = job :: queue ∧ s' = s.take w job queue := by
  rw [tpWorkerFetch] at h
  split at h
  · rename_i hsleep
    exact Or.inl ⟨hsleep.1, hsleep.2, (Except.ok.inj h).symm⟩
  · rename_i hawake
    split at h
    · rename_i hend
      exact Or.inr (Or.inl ⟨hend.1, hend.2, (Except.ok.inj h).symm⟩)
    · rename_i hgo
      have hcount : s.count ≠ 0 := by
        intro hcount
        cases hstop : s.stop with
        | false => exact hawake ⟨hcount, hstop⟩
        | true => exact hgo ⟨hcount, hstop⟩
      split at h
      · cases h
      · rename_i job queue hqueue
        exact Or.inr (Or.inr ⟨job, queue, hcount, hqueue, (Except.ok.inj h).symm⟩)

/-- A task that is not accepted changes nothing. -/
theorem tpTaskAdd_cases (s : ThreadPool n m φ α) (task : TPTask φ α) (taskAlloc itemAlloc : Bool)
    (woken : Option (Fin n)) :
    (tpTaskAdd s task taskAlloc itemAlloc woken).2 = s ∨
      (tpTaskAdd s task taskAlloc itemAlloc woken).2 = (s.enqueue task).signalWorker woken := by
  rw [tpTaskAdd]
  split
  · exact Or.inl rfl
  · split
    · exact Or.inl rfl
    · split
      · exact Or.inl rfl
      · exact Or.inr rfl

/-! ### The ledger -/

/-- What a worker holds: one unit of `active_tasks`, the task whose function is to run, and the
task whose callback is to run. -/
def holds (w : Fin n) : Worker φ α → ℤ × Multiset (Job φ α) × Multiset (Fin n × Job φ α)
  | .running job => (1, {job}, 0)
  | .calling job => (1, 0, {(w, job)})
  | .finishing => (1, 0, 0)
  | _ => 0

/-- What the workers were given: the active tasks, the tasks to run, the callbacks to run. -/
def ThreadPool.taken (s : ThreadPool n m φ α) :
    ℤ × Multiset (Job φ α) × Multiset (Fin n × Job φ α) :=
  (s.activeTasks, s.dequeued, (s.executed.filter fun x => x.2.task.callbackFunc.isSome : List _))

/-- What they have done of it. -/
def ThreadPool.done (s : ThreadPool n m φ α) :
    ℤ × Multiset (Job φ α) × Multiset (Fin n × Job φ α) :=
  (0, (s.executed.map Prod.snd : List _), s.calledBack)

/-- What is queued, held and done is what was added. -/
structure TaskLedger (s : ThreadPool n m φ α) : Prop where
  count : s.count = s.queue.length % 2 ^ 32
  fifo : s.added = s.dequeued ++ s.queue
  numbered : s.added.map Job.number = List.range s.added.length
  held : s.taken = s.done + ∑ w, holds w (s.workers w)
  exited : ∀ w, s.workers w = .exited → s.stop = true
  joined : s.joined = true → s.stop = true ∧ ∀ w, s.workers w = .exited

/-- The ledger holds of the pool as `tp_init` leaves it. -/
theorem taskLedger_tpInit (maxThreads : ℤ) : TaskLedger (tpInit maxThreads m φ α) where
  count := rfl
  fifo := rfl
  numbered := rfl
  held := by
    have hnone : ∑ w, holds w ((tpInit maxThreads m φ α).workers w) = 0 :=
      Finset.sum_eq_zero fun _ _ => rfl
    rw [hnone]
    rfl
  exited w hw := by cases hw
  joined h := by cases h

/-- The ledger does not depend on what the waiters do. -/
theorem TaskLedger.setWaiter (h : TaskLedger s) (i : Fin m) (x : Waiter) :
    TaskLedger (s.setWaiter i x) :=
  ⟨h.count, h.fifo, h.numbered, h.held, h.exited, h.joined⟩

/-- The ledger is kept when a waiter is signalled. -/
theorem TaskLedger.signalWaiter (h : TaskLedger s) (woken : Option (Fin m)) :
    TaskLedger (s.signalWaiter woken) := by
  cases woken with
  | none => exact h
  | some i => exact h.setWaiter i .locking

/-- A worker goes on: the ledger is kept when what it takes, does and holds is accounted for. -/
theorem TaskLedger.goes {x : Worker φ α} (h : TaskLedger s) (hw : s.workers w ≠ .exited)
    (hx : x = .exited → s.stop = true) (hworkers : s'.workers = (s.setWorker w x).workers)
    (hstop : s'.stop = s.stop) (hjoined : s'.joined = s.joined) (hadded : s'.added = s.added)
    (hcount : s'.count = s'.queue.length % 2 ^ 32) (hfifo : s'.added = s'.dequeued ++ s'.queue)
    (hbalance : s'.taken + (s.done + holds w (s.workers w)) = s.taken + (s'.done + holds w x)) :
    TaskLedger s' where
  count := hcount
  fifo := hfifo
  numbered := by rw [hadded, h.numbered]
  held := by
    rw [hworkers]
    exact balance_update h.held hbalance
  exited v hv := by
    rw [hworkers] at hv
    rw [hstop]
    by_cases hvw : v = w
    · subst hvw
      rw [ThreadPool.setWorker_self] at hv
      exact hx hv
    · rw [ThreadPool.setWorker_of_ne hvw] at hv
      exact h.exited v hv
  joined hj := by
    rw [hjoined] at hj
    exact absurd ((h.joined hj).2 w) hw

/-- A worker goes on that holds nothing before and after. -/
theorem TaskLedger.setWorker {x : Worker φ α} (h : TaskLedger s) (hw : s.workers w ≠ .exited)
    (hold : holds w (s.workers w) = 0) (hnew : holds w x = 0)
    (hx : x = .exited → s.stop = true) : TaskLedger (s.setWorker w x) :=
  h.goes hw hx rfl rfl rfl rfl h.count h.fifo (by rw [hold, hnew]; rfl)

/-- The ledger is kept when a task is added, which it then counts. -/
theorem TaskLedger.enqueue (h : TaskLedger s) (task : TPTask φ α) :
    TaskLedger (s.enqueue task) where
  count := by
    have hcount := h.count
    simp only [ThreadPool.enqueue, List.length_append, List.length_singleton]
    omega
  fifo := by
    simp only [ThreadPool.enqueue]
    rw [h.fifo, List.append_assoc]
  numbered := by
    simp only [ThreadPool.enqueue, List.map_append, h.numbered, List.map_cons, List.map_nil,
      List.length_append, List.length_singleton, List.range_succ]
  held := h.held
  exited := h.exited
  joined := h.joined

/-- The ledger is kept when a sleeping worker is woken, for it held no task. -/
theorem TaskLedger.signalWorker (h : TaskLedger s) {woken : Option (Fin n)}
    (hwoken : Signals s.workers .asleep woken) : TaskLedger (s.signalWorker woken) := by
  cases woken with
  | none => exact h
  | some w =>
      have hw : s.workers w = .asleep := hwoken
      exact h.setWorker (by simp [hw]) (by rw [hw]; rfl) rfl
        nofun

/-- A worker takes a task. -/
theorem TaskLedger.take {job : Job φ α} {queue : List (Job φ α)} (h : TaskLedger s)
    (hw : s.workers w = .locking) (hqueue : s.queue = job :: queue) :
    TaskLedger (s.take w job queue) := by
  have hlength := h.count
  rw [hqueue, List.length_cons] at hlength
  refine h.goes (x := .running job) (by simp [hw]) nofun
    rfl rfl rfl rfl ?_ ?_ ?_
  · change (s.count + (2 ^ 32 - 1)) % 2 ^ 32 = queue.length % 2 ^ 32
    omega
  · change s.added = s.dequeued ++ [job] ++ queue
    rw [h.fifo, hqueue, List.append_assoc, List.singleton_append]
  · rw [hw]
    refine Prod.ext ?_ (Prod.ext ?_ ?_)
    · change s.activeTasks + 1 + (0 + 0) = s.activeTasks + (0 + 1)
      omega
    · change ((s.dequeued ++ [job] : List _) : Multiset _) + (s.done.2.1 + 0) =
        (s.dequeued : Multiset _) + (s.done.2.1 + {job})
      rw [← Multiset.coe_add, Multiset.coe_singleton]
      abel
    · rfl

/-- The function of a task has run, and its callback is to run if it has one. -/
theorem TaskLedger.execute {job : Job φ α} (h : TaskLedger s) (hw : s.workers w = .running job) :
    TaskLedger (tpWorkerExecute s w job) := by
  refine h.goes (x := if job.task.callbackFunc.isSome then .calling job else .finishing)
    (by simp [hw]) (by split <;> nofun) rfl rfl rfl rfl h.count h.fifo ?_
  rw [hw]
  have hdone : (tpWorkerExecute s w job).done.2.1 = s.done.2.1 + {job} := by
    simp only [ThreadPool.done, tpWorkerExecute, List.map_append, ← Multiset.coe_add]
    rfl
  refine Prod.ext ?_ (Prod.ext ?_ ?_)
  · change s.activeTasks + (0 + 1) = s.activeTasks + (0 + (holds w _).1)
    split <;> rfl
  · change s.taken.2.1 + (s.done.2.1 + {job}) =
      s.taken.2.1 + ((tpWorkerExecute s w job).done.2.1 + (holds w _).2.1)
    rw [hdone]
    split <;> exact congrArg _ (add_zero _).symm
  · change (((s.executed ++ [(w, job)]).filter fun x => x.2.task.callbackFunc.isSome : List _) :
        Multiset _) + (s.done.2.2 + 0) =
      s.taken.2.2 + (s.done.2.2 + (holds w _).2.2)
    rw [List.filter_append, ← Multiset.coe_add]
    by_cases hcallback : job.task.callbackFunc.isSome
    · rw [if_pos hcallback, List.filter_cons_of_pos (by exact hcallback)]
      change s.taken.2.2 + {(w, job)} + (s.done.2.2 + 0) =
        s.taken.2.2 + (s.done.2.2 + {(w, job)})
      abel
    · rw [if_neg hcallback, List.filter_cons_of_neg (by exact hcallback)]
      change s.taken.2.2 + 0 + (s.done.2.2 + 0) = s.taken.2.2 + (s.done.2.2 + 0)
      abel

/-- The callback of a task has run. -/
theorem TaskLedger.callback {job : Job φ α} (h : TaskLedger s) (hw : s.workers w = .calling job) :
    TaskLedger (tpWorkerCallback s w job) := by
  refine h.goes (x := .finishing) (by simp [hw]) nofun rfl rfl rfl rfl h.count h.fifo ?_
  rw [hw]
  refine Prod.ext rfl (Prod.ext rfl ?_)
  change s.taken.2.2 + ((s.calledBack : Multiset _) + {(w, job)}) =
    s.taken.2.2 + (((s.calledBack ++ [(w, job)] : List _) : Multiset _) + 0)
  rw [← Multiset.coe_add, Multiset.coe_singleton, add_zero]

/-- A task is no longer active. -/
theorem TaskLedger.finish (h : TaskLedger s) (hw : s.workers w = .finishing)
    (woken : Option (Fin m)) : TaskLedger (tpWorkerFinish s w woken) := by
  refine TaskLedger.signalWaiter ?_ woken
  refine h.goes (x := .locking) (by simp [hw]) nofun rfl rfl rfl rfl h.count h.fifo ?_
  rw [hw]
  refine Prod.ext ?_ rfl
  change s.activeTasks - 1 + (0 + 1) = s.activeTasks + (0 + 0)
  omega

/-- What `tp_dispose` makes of a worker: those that are asleep wake up. -/
theorem tpDisposeStop_workers (h : s.stop = false) (w : Fin n) :
    (tpDisposeStop s).workers w = s.workers w ∨
      s.workers w = .asleep ∧ (tpDisposeStop s).workers w = .locking := by
  rw [tpDisposeStop, if_neg (by simp [h])]
  cases hw : s.workers w with
  | asleep => exact Or.inr ⟨rfl, by simp [hw]⟩
  | locking | running _ | calling _ | finishing | exited => exact Or.inl (by simp [hw])

/-- The ledger is kept when the pool is told to stop. -/
theorem TaskLedger.dispose (h : TaskLedger s) : TaskLedger (tpDisposeStop s) := by
  cases hstop : s.stop with
  | true =>
      rw [tpDisposeStop, if_pos hstop]
      exact h
  | false =>
      have hworkers := tpDisposeStop_workers hstop
      have hnew : (tpDisposeStop s).stop = true := by
        rw [tpDisposeStop, if_neg (by simp [hstop])]
      have hsame : s.taken = (tpDisposeStop s).taken ∧ s.done = (tpDisposeStop s).done ∧
          s.count = (tpDisposeStop s).count ∧ s.queue = (tpDisposeStop s).queue ∧
          s.added = (tpDisposeStop s).added ∧ s.dequeued = (tpDisposeStop s).dequeued ∧
          s.joined = (tpDisposeStop s).joined := by
        rw [tpDisposeStop, if_neg (by simp [hstop])]
        exact ⟨rfl, rfl, rfl, rfl, rfl, rfl, rfl⟩
      obtain ⟨htaken, hdone, hcount, hqueue, hadded, hdequeued, hjoined⟩ := hsame
      have hheld : ∑ w, holds w ((tpDisposeStop s).workers w) = ∑ w, holds w (s.workers w) := by
        refine Finset.sum_congr rfl fun w _ => ?_
        rcases hworkers w with hw | ⟨hw, hw'⟩
        · rw [hw]
        · rw [hw, hw']
          rfl
      exact {
        count := by rw [← hcount, ← hqueue, h.count]
        fifo := by rw [← hadded, ← hdequeued, ← hqueue, h.fifo]
        numbered := by rw [← hadded, h.numbered]
        held := by rw [hheld, ← htaken, ← hdone, h.held]
        exited := fun _ _ => hnew
        joined := fun hj => by
          rw [← hjoined] at hj
          rw [(h.joined hj).1] at hstop
          cases hstop }

/-- **Every step keeps the ledger.** -/
theorem PoolStep.ledger {a : PoolAction n m φ α} (hstep : PoolStep s a s') (h : TaskLedger s) :
    TaskLedger s' := by
  cases hstep with
  | fetch hw hfetch =>
      rcases tpWorkerFetch_cases hfetch with
        ⟨-, -, rfl⟩ | ⟨-, hstop, rfl⟩ | ⟨job, queue, -, hqueue, rfl⟩
      · exact h.setWorker (by simp [hw]) (by rw [hw]; rfl) rfl nofun
      · exact h.setWorker (by simp [hw]) (by rw [hw]; rfl) rfl fun _ => hstop
      · exact h.take hw hqueue
  | execute hw => exact h.execute hw
  | callback hw => exact h.callback hw
  | finish hw _ => exact h.finish hw _
  | @add _ task taskAlloc itemAlloc woken _ _ hwoken =>
      rcases tpTaskAdd_cases s task taskAlloc itemAlloc woken with hsame | hadd
      · rw [hsame]
        exact h
      · rw [hadd]
        exact (h.enqueue task).signalWorker hwoken
  | callWait _ _ => exact h.setWaiter _ _
  | checkWait _ =>
      rw [tpWaitCheck]
      split <;> exact h.setWaiter _ _
  | dispose _ => exact h.dispose
  | join hstop hall =>
      exact ⟨h.count, h.fifo, h.numbered, h.held, h.exited, fun _ => ⟨hstop, hall⟩⟩
  | wakeWorker hw => exact h.setWorker (by simp [hw]) (by rw [hw]; rfl) rfl nofun
  | wakeWaiter _ => exact h.setWaiter _ _

/-- With fewer than `2 ^ 32` tasks in the queue, `count` is their number. -/
theorem TaskLedger.count_eq (h : TaskLedger s) (hshort : s.queue.length < 2 ^ 32) :
    s.count = s.queue.length := by
  rw [h.count, Nat.mod_eq_of_lt hshort]

/-- **No step dereferences the head of an empty queue.** -/
theorem TaskLedger.fetch_ok (h : TaskLedger s) (w : Fin n) : ∃ s', tpWorkerFetch s w = .ok s' := by
  rw [tpWorkerFetch]
  split
  · exact ⟨_, rfl⟩
  · rename_i hsleep
    split
    · exact ⟨_, rfl⟩
    · rename_i hend
      split
      · rename_i hqueue
        have hcount : s.count = 0 := by rw [h.count, hqueue, List.length_nil, Nat.zero_mod]
        cases hstop : s.stop with
        | false => exact absurd ⟨hcount, hstop⟩ hsleep
        | true => exact absurd ⟨hcount, hstop⟩ hend
      · exact ⟨_, rfl⟩

end Pool

end MaestroCore
