import Mathlib.Data.List.TakeWhile
import MaestroCore.SchedulerMap

/-!
# Sweeps and What the Callbacks Do to the Table

A sweep of `scheduler_work` goes over a table that the callbacks change while it runs: they
create tasks, destroy them, themselves included, and reuse the slots that they have freed. The
callbacks are arbitrary here. A script says which calls to the scheduler each of them makes,
and it may look at everything that has happened so far.

The events of a sweep are recorded in their order, each with the slot that is being run. From
the events alone follows which task stands in which slot (`standing`), so every statement about
a sweep is one about this record.

## Main results

* `Recorded.perform` and `workAt_records`: what a call, and one iteration, add to the record.
* `schedulerWork_records`: the record of a whole sweep is legal, ordered and complete.
* `sweep_fair`: which tasks are called, and how often.
-/

namespace MaestroCore

/-- A call that a callback makes to the scheduler. -/
inductive TableCall (α β : Type*)
  | create (context : Option α) (callback : Option β)
  | destroy (task : Option ℕ)
  | init
  | dispose

/-- What happens during a sweep: the callback of a slot is called, or the callback of the slot
`running` creates a task in a slot or frees one. -/
inductive SweepEvent (n : ℕ) (α β : Type*)
  | called (i : Fin n) (context : Option α) (callback : β)
  | created (running i : Fin n) (context : Option α) (callback : Option β)
  | freed (running i : Fin n)
  deriving DecidableEq

/-- The table during a sweep, and the events so far. -/
structure Sweep (n : ℕ) (α β : Type*) where
  table : Scheduler n α β
  events : List (SweepEvent n α β)

section Record

variable {n : ℕ} {α β : Type*}

/-- The slot that is being run. -/
def SweepEvent.running : SweepEvent n α β → Fin n
  | .called i _ _ => i
  | .created running _ _ _ => running
  | .freed running _ => running

/-- The callback of the slot is called. -/
def SweepEvent.isCallOf (i : Fin n) : SweepEvent n α β → Bool
  | .called j _ _ => j = i
  | _ => false

/-- The slot is taken or freed. -/
def SweepEvent.changes (i : Fin n) : SweepEvent n α β → Bool
  | .called _ _ _ => false
  | .created _ j _ _ => j = i
  | .freed _ j => j = i

/-- The slots with the property are freed. -/
def freedSlots (running : Fin n) (p : Fin n → Bool) : List (SweepEvent n α β) :=
  ((List.finRange n).filter p).map (.freed running)

/-- A call to the scheduler. -/
def Sweep.perform (running : Fin n) (s : Sweep n α β) : TableCall α β → Sweep n α β
  | .create context callback =>
      match schedulerCreateTask s.table context callback with
      | (some i, table) => ⟨table, s.events ++ [.created running i context callback]⟩
      | (none, table) => ⟨table, s.events⟩
  | .destroy task =>
      ⟨schedulerDestroyTask s.table task,
        s.events ++ freedSlots running fun i => task = some i.val⟩
  | .init => ⟨schedulerInit, s.events ++ freedSlots running fun _ => true⟩
  | .dispose => ⟨schedulerDispose s.table, s.events ++ freedSlots running fun _ => true⟩

/-- The call of the callback in a slot, which then makes the calls that the script has for
it. -/
def sweepCall (script : List (SweepEvent n α β) → List (TableCall α β)) (i : Fin n)
    (s : Sweep n α β) : Except Empty (Sweep n α β) :=
  match (s.table.tasks i).callback with
  | none => .ok s
  | some callback =>
      let events := s.events ++ [.called i (s.table.tasks i).context callback]
      .ok ((script events).foldl (Sweep.perform i) ⟨s.table, events⟩)

/-- A sweep with these callbacks. -/
def sweep (script : List (SweepEvent n α β) → List (TableCall α β)) (s : Scheduler n α β) :
    Except Empty (Sweep n α β) :=
  schedulerWork (fun x : Sweep n α β => x.table.tasks) (sweepCall script) ⟨s, []⟩

/-! ### The tasks that stand in the slots -/

/-- The tasks of a table. A slot without a callback has none. -/
def tasksOf (s : Scheduler n α β) : TaskMap n α β := fun i =>
  (s.tasks i).callback.map fun callback => ((s.tasks i).context, callback)

/-- The tasks after an event. -/
def TaskMap.after (m : TaskMap n α β) : SweepEvent n α β → TaskMap n α β
  | .called _ _ _ => m
  | .created _ i context callback =>
      Function.update m i (callback.map fun callback => (context, callback))
  | .freed _ i => Function.update m i none

/-- The tasks that stand in the slots after the events. -/
def standing (m : TaskMap n α β) (events : List (SweepEvent n α β)) : TaskMap n α β :=
  events.foldl TaskMap.after m

/-- Only a task that stands in its slot is called, with its own context and callback, and a new
task takes a slot in which none stands. -/
def TaskMap.allows (m : TaskMap n α β) : SweepEvent n α β → Prop
  | .called i context callback => m i = some (context, callback)
  | .created _ i _ _ => m i = none
  | .freed _ _ => True

/-- Every event is allowed by the tasks that stand when it happens. -/
def Legal (m : TaskMap n α β) : List (SweepEvent n α β) → Prop
  | [] => True
  | e :: es => m.allows e ∧ Legal (m.after e) es

variable {m : TaskMap n α β} {s t u : Sweep n α β} {i j k : Fin n} {e : SweepEvent n α β}
  {events pre post xs ys : List (SweepEvent n α β)} {context : Option α} {callback : β}

/-- The tasks after two lists of events are those after the second, from where the first left off.
-/
theorem standing_append :
    standing m (xs ++ ys) = standing (standing m xs) ys := List.foldl_append

/-- Two lists of events are legal together when each is legal where it starts. -/
theorem legal_append : Legal m (xs ++ ys) ↔ Legal m xs ∧ Legal (standing m xs) ys := by
  induction xs generalizing m with
  | nil => simp [Legal, standing]
  | cons x xs ih =>
      rw [List.cons_append, Legal, Legal, ih, and_assoc]
      rfl

/-- An event that does not change a slot leaves the task there. -/
theorem TaskMap.after_of_not_changes (h : e.changes i = false) : m.after e i = m i := by
  cases e with
  | called => rfl
  | created running j context callback =>
      exact Function.update_of_ne (fun hij => by simp [SweepEvent.changes, hij] at h) _ _
  | freed running j =>
      exact Function.update_of_ne (fun hij => by simp [SweepEvent.changes, hij] at h) _ _

/-- **A task that is not freed stays in its slot**, and no other takes it. -/
theorem Legal.stays {task : Option α × β} (h : Legal m events) (htask : m i = some task)
    (hfreed : ∀ k, .freed k i ∉ events) :
    standing m events i = some task ∧ ∀ e ∈ events, e.changes i = false := by
  induction events generalizing m with
  | nil => exact ⟨htask, fun e he => absurd he List.not_mem_nil⟩
  | cons e es ih =>
      have hsame : e.changes i = false := by
        cases e with
        | called => rfl
        | created running j context callback =>
            have hnone : m j = none := h.1
            have hne : j ≠ i := fun hji => by simp [← hji, hnone] at htask
            simpa [SweepEvent.changes] using hne
        | freed running j =>
            have hne : j ≠ i := fun hji => hfreed running (by simp [hji])
            simpa [SweepEvent.changes] using hne
      obtain ⟨hstands, hothers⟩ := ih h.2 (by rw [TaskMap.after_of_not_changes hsame, htask])
        fun k hk => hfreed k (List.mem_cons_of_mem _ hk)
      refine ⟨hstands, fun e' he' => ?_⟩
      rcases List.mem_cons.mp he' with rfl | he'
      · exact hsame
      · exact hothers e' he'

/-! ### What is recorded -/

/-- From one table to another, with the events on the way. -/
structure Recorded (s t : Sweep n α β) (new : List (SweepEvent n α β)) : Prop where
  events : t.events = s.events ++ new
  legal : Legal (tasksOf s.table) new
  tasks : standing (tasksOf s.table) new = tasksOf t.table

/-- The events of a callback: all while its slot is run, and none of them a call. -/
def OnlyChanges (k : Fin n) (new : List (SweepEvent n α β)) : Prop :=
  ∀ e ∈ new, e.running = k ∧ ∀ i, e.isCallOf i = false

/-- Nothing happens between a table and itself. -/
theorem Recorded.refl (s : Sweep n α β) : Recorded s s [] :=
  ⟨(List.append_nil _).symm, trivial, rfl⟩

/-- What is recorded on the way to a table and from there on is recorded on the whole way. -/
theorem Recorded.trans (h : Recorded s t xs) (h' : Recorded t u ys) :
    Recorded s u (xs ++ ys) where
  events := by rw [h'.events, h.events, List.append_assoc]
  legal := legal_append.mpr ⟨h.legal, h.tasks ▸ h'.legal⟩
  tasks := by rw [standing_append, h.tasks, h'.tasks]

/-- A slot of a table is written. -/
theorem tasksOf_set (table : Scheduler n α β) (i : Fin n) (context : Option α)
    (callback : Option β) :
    tasksOf (table.set i ⟨context, callback⟩) =
      Function.update (tasksOf table) i (callback.map fun callback => (context, callback)) := by
  funext j
  by_cases hj : j = i
  · subst hj
    rw [Function.update_self, tasksOf, Scheduler.set_tasks_self]
  · rw [Function.update_of_ne hj, tasksOf, Scheduler.set_tasks_of_ne hj]
    rfl

/-- No task stands in a slot that has been freed. -/
theorem standing_freed (m : TaskMap n α β) (k : Fin n) (slots : List (Fin n)) :
    standing m (slots.map (.freed k)) = fun i => if i ∈ slots then none else m i := by
  induction slots generalizing m with
  | nil => simp [standing]
  | cons j slots ih =>
      have hstep : standing m ((j :: slots).map (.freed k)) =
          standing (Function.update m j none) (slots.map (.freed k)) := rfl
      rw [hstep, ih]
      funext i
      by_cases hj : i = j
      · simp [hj]
      · simp [hj]

/-- Slots may be freed in any order and at any time. -/
theorem legal_freed (m : TaskMap n α β) (k : Fin n) (slots : List (Fin n)) :
    Legal m (slots.map (.freed k)) := by
  induction slots generalizing m with
  | nil => trivial
  | cons j slots ih => exact ⟨trivial, ih _⟩

/-- Slots are freed all at once. -/
theorem Recorded.free {table : Scheduler n α β} {p : Fin n → Bool}
    (h : ∀ i, table.tasks i = if p i then {} else s.table.tasks i) :
    Recorded s ⟨table, s.events ++ freedSlots k p⟩ (freedSlots k p) ∧
      OnlyChanges k (freedSlots k p : List (SweepEvent n α β)) := by
  refine ⟨⟨rfl, legal_freed _ _ _, ?_⟩, fun e he => ?_⟩
  · rw [freedSlots, standing_freed]
    funext i
    cases hp : p i <;> simp [tasksOf, h, hp]
  · obtain ⟨i, -, rfl⟩ := List.mem_map.mp he
    exact ⟨rfl, fun _ => rfl⟩

/-- **What a call to the scheduler adds to the record.** -/
theorem Recorded.perform (k : Fin n) (s : Sweep n α β) (call : TableCall α β) :
    ∃ new, Recorded s (s.perform k call) new ∧ OnlyChanges k new := by
  cases call with
  | create context callback =>
      rw [Sweep.perform]
      cases hcreate : schedulerCreateTask s.table context callback with
      | mk handle table =>
          cases handle with
          | none =>
              rw [createTask_eq_none hcreate]
              exact ⟨[], .refl s, fun e he => absurd he List.not_mem_nil⟩
          | some i =>
              obtain ⟨hfree, rfl⟩ := createTask_eq_some hcreate
              refine ⟨[.created k i context callback], ⟨rfl, ⟨?_, trivial⟩, ?_⟩, fun e he => ?_⟩
              · simp [TaskMap.allows, tasksOf, hfree]
              · exact (tasksOf_set ..).symm
              · rw [List.mem_singleton.mp he]
                exact ⟨rfl, fun _ => rfl⟩
  | destroy task => exact ⟨_, Recorded.free fun i => by simp [schedulerDestroyTask]⟩
  | init => exact ⟨_, Recorded.free fun i => by simp [schedulerInit]⟩
  | dispose => exact ⟨_, Recorded.free fun i => by simp [schedulerDispose]⟩

/-- What all the calls of a callback add to it. -/
theorem Recorded.foldl (k : Fin n) (calls : List (TableCall α β)) (s : Sweep n α β) :
    ∃ new, Recorded s (calls.foldl (Sweep.perform k) s) new ∧ OnlyChanges k new := by
  induction calls generalizing s with
  | nil => exact ⟨[], .refl s, fun e he => absurd he List.not_mem_nil⟩
  | cons call calls ih =>
      obtain ⟨first, hfirst, hquiet⟩ := Recorded.perform k s call
      obtain ⟨later, hlater, hquiet'⟩ := ih (s.perform k call)
      refine ⟨first ++ later, hfirst.trans hlater, fun e he => ?_⟩
      rcases List.mem_append.mp he with he | he
      · exact hquiet e he
      · exact hquiet' e he

/-! ### One iteration, and the whole sweep -/

/-- The events of one iteration: none when no task stands in the slot, and else the call of that
task and what its callback does. -/
def RunsSlot (k : Fin n) (task : Option (Option α × β)) (new : List (SweepEvent n α β)) : Prop :=
  match task with
  | none => new = []
  | some (context, callback) =>
      ∃ later, new = .called k context callback :: later ∧ OnlyChanges k later

/-- **What one iteration adds to the record.** -/
theorem workAt_records (script : List (SweepEvent n α β) → List (TableCall α β)) (k : Fin n)
    (s : Sweep n α β) :
    ∃ t new, schedulerWorkAt (fun x : Sweep n α β => x.table.tasks) (sweepCall script) s k =
        .ok t ∧ Recorded s t new ∧ RunsSlot k (tasksOf s.table k) new := by
  rw [schedulerWorkAt, sweepCall, tasksOf]
  cases hcallback : (s.table.tasks k).callback with
  | none => exact ⟨s, [], rfl, .refl s, rfl⟩
  | some callback =>
      obtain ⟨later, hlater, hquiet⟩ := Recorded.foldl k
        (script (s.events ++ [.called k (s.table.tasks k).context callback]))
        ⟨s.table, s.events ++ [.called k (s.table.tasks k).context callback]⟩
      have hcalled : Recorded s
          ⟨s.table, s.events ++ [.called k (s.table.tasks k).context callback]⟩
          [.called k (s.table.tasks k).context callback] :=
        ⟨rfl, ⟨by simp [TaskMap.allows, tasksOf, hcallback], trivial⟩, rfl⟩
      exact ⟨_, _, rfl, hcalled.trans hlater, later, rfl, hquiet⟩

/-- The events before a slot is reached. -/
def eventsBefore (i : Fin n) (events : List (SweepEvent n α β)) : List (SweepEvent n α β) :=
  events.takeWhile fun e => e.running < i

/-- One event comes before another: its slot is not run later, and is run before the slot that
is called next. -/
def SweepEvent.precedes (e e' : SweepEvent n α β) : Prop :=
  e.running ≤ e'.running ∧ (e'.isCallOf e'.running = true → e.running < e'.running)

/-- The record of the iterations over some slots: what happens is allowed, in the order of the
slots, and no slot in which a task stands is passed over. -/
structure FairRecord (slots : List (Fin n)) (m : TaskMap n α β)
    (events : List (SweepEvent n α β)) : Prop where
  legal : Legal m events
  ordered : events.Pairwise SweepEvent.precedes
  running : ∀ e ∈ events, e.running ∈ slots
  complete : ∀ i ∈ slots, ∀ context callback,
    standing m (eventsBefore i events) i = some (context, callback) →
      ∃ post, events = eventsBefore i events ++ .called i context callback :: post

/-- An event is a call of a slot exactly when it calls some task there. -/
theorem isCallOf_eq_true_iff : e.isCallOf i = true ↔
    ∃ context callback, e = .called i context callback := by
  cases e with
  | called j context callback =>
      constructor
      · intro h
        obtain rfl : j = i := by simpa [SweepEvent.isCallOf] using h
        exact ⟨context, callback, rfl⟩
      · rintro ⟨context', callback', h⟩
        cases h
        simp [SweepEvent.isCallOf]
  | created => simp [SweepEvent.isCallOf]
  | freed => simp [SweepEvent.isCallOf]

/-- The slots that have been run come before the next one. -/
theorem eventsBefore_append (hxs : ∀ e ∈ xs, e.running < i) :
    eventsBefore i (xs ++ ys) = xs ++ eventsBefore i ys :=
  List.takeWhile_append_of_pos fun e he => decide_eq_true (hxs e he)

/-- Nothing comes before a slot when all slots that have been run come after it. -/
theorem eventsBefore_eq_nil (hxs : ∀ e ∈ xs, i ≤ e.running) : eventsBefore i xs = [] := by
  cases xs with
  | nil => rfl
  | cons e xs => exact List.takeWhile_cons_of_neg (by simpa using hxs e List.mem_cons_self)

/-- The events of running a slot all happen while that slot is run. -/
theorem RunsSlot.running {task : Option (Option α × β)} (h : RunsSlot k task xs) :
    ∀ e ∈ xs, e.running = k := by
  intro e he
  cases task with
  | none =>
      obtain rfl : xs = [] := h
      exact absurd he List.not_mem_nil
  | some task =>
      obtain ⟨later, rfl, hquiet⟩ := h
      rcases List.mem_cons.mp he with rfl | he
      · rfl
      · exact (hquiet e he).1

/-- The call comes first, and what the callback does is no call. -/
theorem RunsSlot.ordered {task : Option (Option α × β)} (h : RunsSlot k task xs) :
    xs.Pairwise SweepEvent.precedes := by
  have hruns := h.running
  cases task with
  | none =>
      obtain rfl : xs = [] := h
      exact List.Pairwise.nil
  | some task =>
      obtain ⟨later, rfl, hquiet⟩ := h
      have hprecedes : ∀ e ∈ .called k task.1 task.2 :: later, ∀ e' ∈ later, e.precedes e' :=
        fun e he e' he' => ⟨by rw [hruns e he, (hquiet e' he').1],
          fun hcalled => by simp [(hquiet e' he').2] at hcalled⟩
      refine List.pairwise_cons.mpr ⟨hprecedes _ List.mem_cons_self, ?_⟩
      exact List.pairwise_of_forall_mem_list fun e he e' he' =>
        hprecedes e (List.mem_cons_of_mem _ he) e' he'

/-- The iteration over the next slot, and then over the others. -/
theorem FairRecord.cons {slots : List (Fin n)} (hslots : ∀ i ∈ slots, k < i)
    (hlegal : Legal m xs) (hrun : RunsSlot k (m k) xs)
    (h : FairRecord slots (standing m xs) ys) : FairRecord (k :: slots) m (xs ++ ys) := by
  have hlater : ∀ e ∈ ys, k < e.running := fun e he => hslots _ (h.running e he)
  have hruns := hrun.running
  refine ⟨legal_append.mpr ⟨hlegal, h.legal⟩, ?_, fun e he => ?_,
    fun i hi context callback hm => ?_⟩
  · refine List.pairwise_append.mpr ⟨hrun.ordered, h.ordered, fun e he e' he' => ?_⟩
    have hlt : e.running < e'.running := (hruns e he).symm ▸ hlater e' he'
    exact ⟨hlt.le, fun _ => hlt⟩
  · rcases List.mem_append.mp he with he | he
    · rw [hruns e he]
      exact List.mem_cons_self
    · exact List.mem_cons_of_mem _ (h.running e he)
  · rcases List.mem_cons.mp hi with rfl | hi
    · have hnone : eventsBefore i (xs ++ ys) = [] := by
        refine eventsBefore_eq_nil fun e he => ?_
        rcases List.mem_append.mp he with he | he
        · exact (hruns e he).ge
        · exact (hlater e he).le
      rw [hnone] at hm ⊢
      have hk : m i = some (context, callback) := hm
      rw [hk] at hrun
      obtain ⟨later, rfl, -⟩ := hrun
      exact ⟨later ++ ys, rfl⟩
    · have hbefore : eventsBefore i (xs ++ ys) = xs ++ eventsBefore i ys :=
        eventsBefore_append fun e he => (hruns e he).symm ▸ hslots i hi
      rw [hbefore, standing_append] at hm
      obtain ⟨post, hpost⟩ := h.complete i hi context callback hm
      refine ⟨post, ?_⟩
      rw [hbefore, List.append_assoc, ← hpost]

/-- **The record of a whole sweep is legal, ordered and complete.** -/
theorem schedulerWork_records (script : List (SweepEvent n α β) → List (TableCall α β))
    (s : Scheduler n α β) :
    ∃ t events, sweep script s = .ok ⟨t, events⟩ ∧
      FairRecord (List.finRange n) (tasksOf s) events := by
  have hloop : ∀ slots : List (Fin n), slots.Pairwise (· < ·) → ∀ s : Sweep n α β,
      ∃ t new, slots.foldlM
          (schedulerWorkAt (fun x : Sweep n α β => x.table.tasks) (sweepCall script)) s = .ok t ∧
        Recorded s t new ∧ FairRecord slots (tasksOf s.table) new := by
    intro slots hsorted
    induction slots with
    | nil =>
        exact fun s => ⟨s, [], rfl, .refl s, trivial, .nil, fun e he => absurd he List.not_mem_nil,
          fun i hi => absurd hi List.not_mem_nil⟩
    | cons k slots ih =>
        intro s
        obtain ⟨hlt, hsorted⟩ := List.pairwise_cons.mp hsorted
        obtain ⟨t, first, hfirst, hrecorded, hrun⟩ := workAt_records script k s
        obtain ⟨u, later, hlater, hrecorded', hfair⟩ := ih hsorted t
        refine ⟨u, first ++ later, ?_, hrecorded.trans hrecorded', ?_⟩
        · rw [List.foldlM_cons, hfirst]
          exact hlater
        · rw [← hrecorded.tasks] at hfair
          exact .cons hlt hrecorded.legal hrun hfair
  obtain ⟨t, new, hwork, hrecorded, hfair⟩ := hloop _ (List.pairwise_lt_finRange n) ⟨s, []⟩
  refine ⟨t.table, new, ?_, hfair⟩
  rw [sweep, schedulerWork, hwork, ← hrecorded.events.trans (List.nil_append new)]

/-! ### Who is called -/

/-- The task that has been created or has stood in the slot before these events is called in
them: nothing takes or frees its slot before. -/
def Calls (i : Fin n) (context : Option α) (callback : β)
    (events : List (SweepEvent n α β)) : Prop :=
  ∃ pre post, events = pre ++ .called i context callback :: post ∧
    ∀ e ∈ pre, e.changes i = false

namespace FairRecord

/-- The events before a slot happen while an earlier slot is run. -/
theorem mem_eventsBefore (he : e ∈ eventsBefore i events) : e ∈ events ∧ e.running < i :=
  ⟨(List.takeWhile_prefix _).subset he, by simpa using List.mem_takeWhile_imp he⟩

/-- What comes before an event and after it. -/
theorem precedes (h : FairRecord (List.finRange n) m events) (hsplit : events = pre ++ e :: post) :
    (∀ e' ∈ pre, e'.precedes e) ∧ ∀ e' ∈ post, e.precedes e' := by
  have hordered := h.ordered
  rw [hsplit, List.pairwise_append, List.pairwise_cons] at hordered
  exact ⟨fun e' he' => hordered.2.2 e' he' e List.mem_cons_self, hordered.2.1.1⟩

/-- No slot is called twice. -/
theorem called_once (h : FairRecord (List.finRange n) m events)
    (hsplit : events = pre ++ .called i context callback :: post) :
    events.filter (·.isCallOf i) = [.called i context callback] := by
  obtain ⟨hpre, hpost⟩ := h.precedes hsplit
  have hbefore : pre.filter (·.isCallOf i) = [] := by
    refine List.filter_eq_nil_iff.mpr fun e he hcall => ?_
    obtain ⟨context', callback', rfl⟩ := isCallOf_eq_true_iff.mp hcall
    exact lt_irrefl i ((hpre _ he).2 (by simp [SweepEvent.isCallOf, SweepEvent.running]))
  have hafter : post.filter (·.isCallOf i) = [] := by
    refine List.filter_eq_nil_iff.mpr fun e he hcall => ?_
    obtain ⟨context', callback', rfl⟩ := isCallOf_eq_true_iff.mp hcall
    exact lt_irrefl i ((hpost _ he).2 (by simp [SweepEvent.isCallOf, SweepEvent.running]))
  rw [hsplit, List.filter_append, List.filter_cons_of_pos (by simp [SweepEvent.isCallOf]), hbefore,
    hafter, List.nil_append]

/-- A fair record calls no slot twice. -/
theorem length_calls_le (h : FairRecord (List.finRange n) m events) (i : Fin n) :
    (events.filter (·.isCallOf i)).length ≤ 1 := by
  by_cases hcall : ∃ e ∈ events, e.isCallOf i = true
  · obtain ⟨e, he, hcall⟩ := hcall
    obtain ⟨context, callback, rfl⟩ := isCallOf_eq_true_iff.mp hcall
    obtain ⟨pre, post, hsplit⟩ := List.append_of_mem he
    rw [h.called_once hsplit]
    exact le_refl 1
  · rw [List.filter_eq_nil_iff.mpr fun e he hcalled => hcall ⟨e, he, hcalled⟩]
    exact Nat.zero_le 1

/-- **Only a task that stands in its slot is called.** -/
theorem standing_of_called (h : FairRecord (List.finRange n) m events)
    (hsplit : events = pre ++ .called i context callback :: post) :
    standing m pre i = some (context, callback) := by
  have hlegal := h.legal
  rw [hsplit, legal_append] at hlegal
  exact hlegal.2.1

/-- **A task that stands until its slot is reached is called there.** -/
theorem calls_of_stands (h : FairRecord (List.finRange n) m events)
    (hsplit : events = xs ++ ys) (hxs : ∀ e ∈ xs, e.running < i)
    (hstands : standing m xs i = some (context, callback))
    (hfreed : ∀ k, .freed k i ∈ ys → i ≤ k) : Calls i context callback ys := by
  have hlegal := (legal_append.mp (hsplit ▸ h.legal)).2
  have hbefore : eventsBefore i events = xs ++ eventsBefore i ys := by
    rw [hsplit, eventsBefore_append hxs]
  obtain ⟨tail, htail⟩ : eventsBefore i ys <+: ys := List.takeWhile_prefix _
  rw [← htail, legal_append] at hlegal
  obtain ⟨hstill, hquiet⟩ := hlegal.1.stays hstands fun k hk =>
    absurd (hfreed k (mem_eventsBefore hk).1) (not_le.mpr (mem_eventsBefore hk).2)
  rw [← standing_append, ← hbefore] at hstill
  obtain ⟨post, hpost⟩ := h.complete i (List.mem_finRange i) context callback hstill
  refine ⟨eventsBefore i ys, post, (List.append_right_inj xs).mp ?_, hquiet⟩
  rw [← hsplit, ← List.append_assoc, ← hbefore]
  exact hpost

end FairRecord

/-- **A sweep is fair, whatever its callbacks do to the table.** For every table and all
callbacks that create and destroy tasks: a task that stands in its slot at the start and is not
destroyed before the slot is reached is called exactly once, with its own context; no slot is
called twice; the task that is called is the one that stands in the slot then, so it has not
been destroyed; and a task that is created on the way, and not destroyed before its slot would
be reached, is called in the same sweep iff its slot comes after the one being run. -/
theorem sweep_fair (s : Scheduler n α β)
    (script : List (SweepEvent n α β) → List (TableCall α β)) :
    ∃ t events, sweep script s = .ok ⟨t, events⟩ ∧
      (∀ i context callback, s.tasks i = ⟨context, some callback⟩ →
        (∀ k, .freed k i ∈ events → i ≤ k) →
        events.filter (·.isCallOf i) = [.called i context callback]) ∧
      (∀ i, (events.filter (·.isCallOf i)).length ≤ 1) ∧
      (∀ pre post i context callback, events = pre ++ .called i context callback :: post →
        standing (tasksOf s) pre i = some (context, callback)) ∧
      ∀ pre post k i context callback,
        events = pre ++ .created k i context (some callback) :: post →
        (∀ k', .freed k' i ∈ post → i ≤ k') →
        (Calls i context callback post ↔ k < i) := by
  obtain ⟨t, events, hsweep, hfair⟩ := schedulerWork_records script s
  refine ⟨t, events, hsweep, fun i context callback htask hfreed => ?_, hfair.length_calls_le,
    fun pre post i context callback hsplit => hfair.standing_of_called hsplit,
    fun pre post k i context callback hsplit hfreed => ⟨?_, fun hlt => ?_⟩⟩
  · have hstands : standing (tasksOf s) [] i = some (context, callback) := by
      simp [standing, tasksOf, htask]
    obtain ⟨pre, post, hsplit, -⟩ := hfair.calls_of_stands (List.nil_append events).symm
      (fun e he => absurd he List.not_mem_nil) hstands hfreed
    exact hfair.called_once hsplit
  · rintro ⟨mid, later, rfl, -⟩
    have hprecedes := (hfair.precedes hsplit).2 (.called i context callback) (by simp)
    exact hprecedes.2 (by simp [SweepEvent.isCallOf, SweepEvent.running])
  · have hcreated : events = (pre ++ [.created k i context (some callback)]) ++ post := by
      rw [hsplit, List.append_assoc, List.singleton_append]
    refine hfair.calls_of_stands hcreated (fun e he => ?_) ?_ hfreed
    · rcases List.mem_append.mp he with he | he
      · exact ((hfair.precedes hsplit).1 e he).1.trans_lt hlt
      · rw [List.mem_singleton.mp he]
        exact hlt
    · rw [standing_append]
      exact Function.update_self ..

end Record

end MaestroCore
