import Mathlib.Data.Fintype.Card
import MaestroCore.Lib.Run
import MaestroCore.Scheduler

/-!
# The Table of the Scheduler Is a Finite Map

A caller of the scheduler has handles, and each of them stands for the task that it was
created with until it is destroyed. This is a finite map from handles to tasks. The table
implements it, although a slot is judged free by two fields and counted by one, and although
slots are reused.

The step relation runs the functions of the scheduler beside the map that a caller keeps of
its own calls. Only live handles are destroyed, and callbacks are not `NULL`.

## Main results

* `SchedulerStep.represents`: every call keeps the table and the map together.
* `scheduler_refines_map`: what the functions return, and what the slots hold, is what the map
  says.
-/

open Run

namespace MaestroCore

/-- The tasks that are live, by their handles: each with its context and its callback. -/
abbrev TaskMap (n : ℕ) (α β : Type*) := Fin n → Option (Option α × β)

section Map

variable {n : ℕ} {α β : Type*} {s s' : Scheduler n α β} {m m' : TaskMap n α β} {i : Fin n}

/-- The handles that are live. -/
def TaskMap.live (m : TaskMap n α β) : Finset (Fin n) :=
  Finset.univ.filter fun i => (m i).isSome

/-- The slot that represents a task, or that there is none. -/
def slotOf : Option (Option α × β) → SchedulerTask α β
  | none => {}
  | some (context, callback) => ⟨context, some callback⟩

/-- The table represents the map. -/
def Represents (s : Scheduler n α β) (m : TaskMap n α β) : Prop :=
  ∀ i, s.tasks i = slotOf (m i)

/-- One call of a function of the scheduler, with what its caller then knows. -/
inductive SchedulerStep :
    Scheduler n α β × TaskMap n α β → Scheduler n α β × TaskMap n α β → Prop
  | init (s : Scheduler n α β) (m : TaskMap n α β) :
      SchedulerStep (s, m) (schedulerInit, fun _ => none)
  | created {s s' : Scheduler n α β} {m : TaskMap n α β} {i : Fin n} {context : Option α}
      {callback : β} (h : schedulerCreateTask s context (some callback) = (some i, s')) :
      SchedulerStep (s, m) (s', Function.update m i (some (context, callback)))
  | refused {s s' : Scheduler n α β} {m : TaskMap n α β} {context : Option α} {callback : β}
      (h : schedulerCreateTask s context (some callback) = (none, s')) :
      SchedulerStep (s, m) (s', m)
  | destroyed {s : Scheduler n α β} {m : TaskMap n α β} {i : Fin n} (h : i ∈ m.live) :
      SchedulerStep (s, m) (schedulerDestroyTask s (some i.val), Function.update m i none)
  | destroyedNull (s : Scheduler n α β) (m : TaskMap n α β) :
      SchedulerStep (s, m) (schedulerDestroyTask s none, m)
  | disposed (s : Scheduler n α β) (m : TaskMap n α β) :
      SchedulerStep (s, m) (schedulerDispose s, fun _ => none)

/-- A slot is live when a task stands in it. -/
theorem TaskMap.mem_live : i ∈ m.live ↔ (m i).isSome = true := by
  simp [TaskMap.live]

/-- A slot is free when no task stands in it. -/
theorem isFree_slotOf (t : Option (Option α × β)) : (slotOf t).isFree = t.isNone := by
  cases t with
  | none => rfl
  | some t => simp [slotOf, SchedulerTask.isFree]

/-- A slot has a callback when a task stands in it. -/
theorem callback_slotOf (t : Option (Option α × β)) : (slotOf t).callback.isSome = t.isSome := by
  cases t <;> rfl

/-- Writing a slot writes the map. -/
theorem Represents.set (h : Represents s m) (t : Option (Option α × β)) :
    Represents (s.set i (slotOf t)) (Function.update m i t) := by
  intro j
  by_cases hj : j = i
  · subst hj
    rw [Scheduler.set_tasks_self, Function.update_self]
  · rw [Scheduler.set_tasks_of_ne hj, Function.update_of_ne hj]
    exact h j

/-- **Every call keeps the table and the map together.** -/
theorem SchedulerStep.represents {x y : Scheduler n α β × TaskMap n α β}
    (h : SchedulerStep x y) (hx : Represents x.1 x.2) : Represents y.1 y.2 := by
  cases h with
  | init => exact fun _ => rfl
  | created hcreate =>
      obtain ⟨-, rfl⟩ := createTask_eq_some hcreate
      exact hx.set (some (_, _))
  | refused hcreate =>
      rw [createTask_eq_none hcreate]
      exact hx
  | destroyed =>
      rw [destroyTask_some]
      exact hx.set none
  | destroyedNull =>
      rw [destroyTask_none]
      exact hx
  | disposed => exact fun _ => rfl

/-- A new task is refused exactly when every slot is taken. -/
theorem createTask_fst_eq_none_iff {context : Option α} {callback : Option β} :
    (schedulerCreateTask s context callback).1 = none ↔ ∀ i, (s.tasks i).isFree = false := by
  rw [schedulerCreateTask]
  split
  · rename_i i hi
    have hfree : (s.tasks i).isFree = true :=
      List.find?_some (p := fun i => (s.tasks i).isFree) hi
    simp only [reduceCtorEq, false_iff, not_forall]
    exact ⟨i, by simp [hfree]⟩
  · rename_i hnone
    simpa using hnone

/-- No slot is free exactly when as many are live as there are. -/
theorem Represents.live_eq_univ_iff (h : Represents s m) :
    (∀ i, (s.tasks i).isFree = false) ↔ m.live.card = n := by
  have hcard : m.live.card = n ↔ m.live = Finset.univ := by
    rw [← Finset.card_eq_iff_eq_univ, Fintype.card_fin]
  rw [hcard, Finset.eq_univ_iff_forall]
  refine forall_congr' fun i => ?_
  rw [h i, isFree_slotOf, TaskMap.mem_live]
  cases m i <;> simp

/-- The count of the callbacks is the number of live handles. -/
theorem Represents.taskCount (h : Represents s m) : schedulerGetTaskCount s = m.live.card := by
  have hcount : schedulerGetTaskCount s = (List.finRange n).countP fun i => (m i).isSome := by
    refine List.countP_congr fun i _ => ?_
    rw [h i, callback_slotOf]
  have hlive : ((List.finRange n).filter fun i => (m i).isSome).toFinset = m.live := by
    ext i
    simp [TaskMap.mem_live]
  rw [hcount, List.countP_eq_length_filter, ← hlive,
    List.toFinset_card_of_nodup ((List.nodup_finRange n).filter _)]

/-- **The table of the scheduler refines a finite map from handles to tasks.** After any calls
that start with `scheduler_init`, a new task is refused iff every handle is live, and else has
a handle that is not; the slot of a live handle holds the context and the callback that the
task was created with; a handle that is destroyed changes no other slot; and the count is the
number of live handles. -/
theorem scheduler_refines_map (s : Scheduler n α β) (m : TaskMap n α β)
    (h : Relation.ReflTransGen SchedulerStep (schedulerInit, fun _ => none) (s, m)) :
    (∀ context callback,
      ((schedulerCreateTask s context (some callback)).1 = none ↔ m.live.card = n) ∧
      ∀ i, (schedulerCreateTask s context (some callback)).1 = some i → i ∉ m.live) ∧
    (∀ i context callback, m i = some (context, callback) →
      s.tasks i = ⟨context, some callback⟩) ∧
    (∀ i j, j ≠ i → (schedulerDestroyTask s (some i.val)).tasks j = s.tasks j) ∧
    schedulerGetTaskCount s = m.live.card := by
  have hsm : Represents s m :=
    run_invariant (I := fun x => Represents x.1 x.2) (fun _ _ hstep => hstep.represents) h
      fun _ => rfl
  refine ⟨fun context callback => ⟨?_, fun i hi => ?_⟩, fun i context callback hi => ?_,
    fun i j hj => ?_, hsm.taskCount⟩
  · rw [createTask_fst_eq_none_iff, hsm.live_eq_univ_iff]
  · have hslot := (createTask_eq_some (i := i) (Prod.ext hi rfl)).1
    rw [hsm i] at hslot
    rw [TaskMap.mem_live]
    cases hm : m i with
    | none => simp
    | some t => simp [hm, slotOf] at hslot
  · rw [hsm i, hi]
    rfl
  · rw [destroyTask_some, Scheduler.set_tasks_of_ne hj]

end Map

/-- The table of one slot with one task, and its map. -/
def oneTask : Scheduler 1 ℕ ℕ × TaskMap 1 ℕ ℕ :=
  ((schedulerCreateTask schedulerInit none (some 7)).2,
    Function.update (fun _ => none) 0 (some (none, 7)))

/-- A table of one slot has one task and refuses the second one, though the first one has no
context. -/
theorem oneTask_refuses : (schedulerCreateTask oneTask.1 (some 1) (some 2)).1 = none ∧
    oneTask.1.tasks 0 = ⟨none, some 7⟩ ∧ schedulerGetTaskCount oneTask.1 = 1 := by
  have hcreate : SchedulerStep (schedulerInit, fun _ => none) oneTask :=
    SchedulerStep.created (i := 0) rfl
  obtain ⟨hnone, hslot, -, hcount⟩ := scheduler_refines_map oneTask.1 oneTask.2 (.single hcreate)
  have hcard : oneTask.2.live.card = 1 := by decide
  exact ⟨(hnone (some 1) 2).1.mpr hcard, hslot 0 none 7 rfl, hcount.trans hcard⟩

end MaestroCore
