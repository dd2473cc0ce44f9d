import Mathlib.Data.List.FinRange
import Mathlib.Logic.Function.Basic
import Mathlib.Logic.Relation

/-!
# The Table of the Scheduler

`scheduler.c`: a table of tasks, each of them a callback with its context. A slot is free when
both are `NULL`. A new task takes the first free slot, and its handle is the address of the
slot, here its index. A sweep calls the callback of every slot that has one, in the order of
the table, and every call may change the table.

The table is the same for every kind of context and callback. Its length stands for
`SCHEDULER_MAX_TASKS`, which a build may set.

## Main results

* `createTask_eq_some`: a task that is created takes a slot that was free, and only that.
* `destroyTask_createTask`: destroying it gives the table back as it was.
* `schedulerWork_reaches`: a sweep is a run of the calls that it makes.
-/

namespace MaestroCore

/-- `Scheduler_Task`, with `none` for `NULL`. -/
structure SchedulerTask (α β : Type*) where
  context : Option α := none
  callback : Option β := none
  deriving DecidableEq, Repr

/-- The slot of the task is free. -/
def SchedulerTask.isFree {α β : Type*} (t : SchedulerTask α β) : Bool :=
  t.context.isNone && t.callback.isNone

/-- `Scheduler`, with a table of `n` slots. -/
@[ext]
structure Scheduler (n : ℕ) (α β : Type*) where
  tasks : Fin n → SchedulerTask α β

section Table

variable {n : ℕ} {α β : Type*} {s s' : Scheduler n α β} {i : Fin n} {t : SchedulerTask α β}

/-- The table with another task in one slot. -/
def Scheduler.set (s : Scheduler n α β) (i : Fin n) (t : SchedulerTask α β) : Scheduler n α β :=
  ⟨Function.update s.tasks i t⟩

@[simp] theorem Scheduler.set_tasks_self : (s.set i t).tasks i = t := by
  simp only [Scheduler.set, Function.update_self]

theorem Scheduler.set_tasks_of_ne {j : Fin n} (h : j ≠ i) : (s.set i t).tasks j = s.tasks j := by
  simp only [Scheduler.set, Function.update_of_ne h]

/-- `scheduler_init`. -/
def schedulerInit : Scheduler n α β := ⟨fun _ => {}⟩

/-- `scheduler_create_task`: the handle of the new task, and the table. -/
def schedulerCreateTask (s : Scheduler n α β) (context : Option α) (callback : Option β) :
    Option (Fin n) × Scheduler n α β :=
  match (List.finRange n).find? fun i => (s.tasks i).isFree with
  | some i => (some i, s.set i ⟨context, callback⟩)
  | none => (none, s)

/-- `scheduler_destroy_task`. The loop compares the address of every slot with the handle. -/
def schedulerDestroyTask (s : Scheduler n α β) (task : Option ℕ) : Scheduler n α β :=
  ⟨fun i => if task = some i.val then {} else s.tasks i⟩

/-- `scheduler_get_task_count`. -/
def schedulerGetTaskCount (s : Scheduler n α β) : ℕ :=
  (List.finRange n).countP fun i => (s.tasks i).callback.isSome

/-- `scheduler_dispose`. -/
def schedulerDispose (_s : Scheduler n α β) : Scheduler n α β := ⟨fun _ => {}⟩

/-- A free slot is empty. -/
theorem SchedulerTask.eq_of_isFree (h : t.isFree = true) : t = {} := by
  obtain ⟨context, callback⟩ := t
  simp only [SchedulerTask.isFree, Bool.and_eq_true, Option.isNone_iff_eq_none] at h
  rw [h.1, h.2]

/-- A task that is created takes a slot that was free, and only that. -/
theorem createTask_eq_some {context : Option α} {callback : Option β}
    (h : schedulerCreateTask s context callback = (some i, s')) :
    s.tasks i = {} ∧ s' = s.set i ⟨context, callback⟩ := by
  rw [schedulerCreateTask] at h
  split at h
  · rename_i j hj
    obtain ⟨hi, hs⟩ := Prod.mk.injEq .. ▸ h
    obtain rfl := Option.some.inj hi
    have hfree : (s.tasks j).isFree = true :=
      List.find?_some (p := fun i => (s.tasks i).isFree) hj
    exact ⟨SchedulerTask.eq_of_isFree hfree, hs.symm⟩
  · cases h

/-- A task that is not created leaves the table alone. -/
theorem createTask_eq_none {context : Option α} {callback : Option β}
    (h : schedulerCreateTask s context callback = (none, s')) : s' = s := by
  rw [schedulerCreateTask] at h
  split at h
  · cases h
  · exact (congrArg Prod.snd h).symm

/-- A handle frees its own slot and no other. -/
theorem destroyTask_some : schedulerDestroyTask s (some i.val) = s.set i {} := by
  ext1
  funext j
  by_cases hj : j = i
  · subst hj
    rw [Scheduler.set_tasks_self]
    exact if_pos rfl
  · rw [Scheduler.set_tasks_of_ne hj]
    exact if_neg fun h => hj (Fin.ext (Option.some.inj h).symm)

/-- The handle `NULL` frees nothing. -/
theorem destroyTask_none : schedulerDestroyTask s none = s := by
  simp only [schedulerDestroyTask, reduceCtorEq, if_false]

/-- **Destroying a task that has just been created gives the table back as it was.** -/
theorem destroyTask_createTask {context : Option α} {callback : Option β}
    (h : schedulerCreateTask s context callback = (some i, s')) :
    schedulerDestroyTask s' (some i.val) = s := by
  obtain ⟨hfree, rfl⟩ := createTask_eq_some h
  rw [destroyTask_some]
  ext1
  rw [Scheduler.set, Scheduler.set, Function.update_idem, ← hfree, Function.update_eq_self]

end Table

/-! ### Sweeps -/

section Sweep

variable {n : ℕ} {α β σ ε : Type*}

/-- One iteration of the loop of `scheduler_work`. -/
def schedulerWorkAt (tasks : σ → Fin n → SchedulerTask α β) (call : Fin n → σ → Except ε σ)
    (s : σ) (i : Fin n) : Except ε σ :=
  if (tasks s i).callback.isSome then call i s else .ok s

/-- `scheduler_work`, in a world in which the table can be read and the callbacks called. -/
def schedulerWork (tasks : σ → Fin n → SchedulerTask α β) (call : Fin n → σ → Except ε σ)
    (s : σ) : Except ε σ :=
  (List.finRange n).foldlM (schedulerWorkAt tasks call) s

/-- **A sweep is a run of the calls that it makes.** -/
theorem schedulerWork_reaches {tasks : σ → Fin n → SchedulerTask α β}
    {call : Fin n → σ → Except ε σ} {R : σ → σ → Prop} {s t : σ}
    (hcall : ∀ i s t, (tasks s i).callback.isSome = true → call i s = .ok t →
      Relation.ReflTransGen R s t)
    (h : schedulerWork tasks call s = .ok t) : Relation.ReflTransGen R s t := by
  rw [schedulerWork] at h
  generalize List.finRange n = slots at h
  induction slots generalizing s with
  | nil =>
      obtain rfl : s = t := Except.ok.inj h
      exact .refl
  | cons i rest ih =>
      rw [List.foldlM_cons, schedulerWorkAt] at h
      split at h
      · rename_i hsome
        cases hc : call i s with
        | error e =>
            rw [hc] at h
            cases h
        | ok s' =>
            rw [hc] at h
            exact (hcall i s s' hsome hc).trans (ih h)
      · exact ih h

end Sweep

end MaestroCore
