import MaestroCore.Lib.Traces
import MaestroCore.Lifecycle
import MaestroCore.SchedulerMap

/-!
# Several Requests on One Scheduler

A program starts requests with several clients and lets the scheduler sweep over all of them.
The clients share the table. Each of them is called through its slot with its own address as
context, takes a slot when its request starts, and gives it up when it disposes of itself.

A run is a sequence of starts and calls in any order: a sweep is a sequence of calls, and what
a callback starts is a step of its own, right after the call that delivers. A client whose
request is still in the table is not started again.

## Main results

* `ClientsStep.attended`: every slot is free, or holds a client that has its handle.
* `slot_kept_until_disposed`: a client is in its slot until a call of its own disposes of it,
  whatever the other clients do.
* `sweep_calls_each_once`: a sweep calls the task of every client in the table exactly once.
* `task_count_eq_registered`: the scheduler counts the clients that are not done.
-/

open CLang Run Traces

namespace MaestroCore

/-- The table of the scheduler and the clients. The address of a client is its index, and
`http_client_taskwork` is the only callback. -/
structure Clients (n k : ℕ) where
  scheduler : Scheduler n (Fin k) Unit
  clients : Fin k → Exchange

section Clients

variable {n k : ℕ} {s t : Clients n k} {j : Fin k} {i : Fin n}

/-- The slot of a client that is called with its address. -/
def heldBy (j : Fin k) : SchedulerTask (Fin k) Unit := ⟨some j, some ()⟩

/-- The table with one of the clients. -/
def Clients.view (s : Clients n k) (j : Fin k) : System n (Fin k) Unit :=
  ⟨s.scheduler, s.clients j⟩

/-- What one client does to the table and to itself. -/
def Clients.put (s : Clients n k) (j : Fin k) (v : System n (Fin k) Unit) : Clients n k :=
  ⟨v.scheduler, Function.update s.clients j v.client⟩

/-- The view of a client just put back is what was put back. -/
@[simp] theorem Clients.view_put_self (v : System n (Fin k) Unit) : (s.put j v).view j = v := by
  simp [Clients.view, Clients.put]

/-- Putting one client back leaves the others as they were. -/
theorem Clients.put_clients_of_ne {j' : Fin k} (h : j' ≠ j) (v : System n (Fin k) Unit) :
    (s.put j v).clients j' = s.clients j' :=
  Function.update_of_ne h ..

/-- What the program does next. -/
inductive ClientsAction (k : ℕ)
  /-- It starts a request. -/
  | initiate (j : Fin k)
  /-- The scheduler calls a client. -/
  | call (j : Fin k)
  deriving DecidableEq

/-- One step of the program. -/
inductive ClientsStep : Clients n k → ClientsAction k → Clients n k → Prop
  | initiate {s : Clients n k} {j : Fin k} {url : Bytes} {method : HTTPMethod} {onSuccess : Bool}
      {alloc : InitiateAllocations} {env : Environment}
      (hfree : ∀ i, s.scheduler.tasks i ≠ heldBy j) :
      ClientsStep s (.initiate j)
        (s.put j (httpClientInitiate (some j) () url method onSuccess alloc env (s.view j)).2)
  | call {s : Clients n k} {j : Fin k} {v : System n (Fin k) Unit}
      (hcalled : Called j () (s.view j) v) : ClientsStep s (.call j) (s.put j v)

/-! ### The table -/

/-- Every slot is free, or holds a client that has its handle. -/
def Attended (s : Clients n k) : Prop :=
  ∀ i, s.scheduler.tasks i = {} ∨ ∃ j, Registered j () i (s.view j)

/-- The client of a slot has its handle. -/
theorem Attended.registered (h : Attended s) (hi : s.scheduler.tasks i = heldBy j) :
    Registered j () i (s.view j) := by
  rcases h i with hfree | ⟨j', hj'⟩
  · rw [hfree] at hi
    cases hi
  · obtain rfl : j' = j := by
      have heq := hj'.2.symm.trans hi
      simpa [heldBy] using heq
    exact hj'

/-- A client without a handle is in no slot. -/
theorem Attended.ne_heldBy (h : Attended s) (htask : (s.clients j).task = none) (i : Fin n) :
    s.scheduler.tasks i ≠ heldBy j := by
  intro hi
  rw [show (s.clients j).task = some i.val from (h.registered hi).1] at htask
  cases htask

/-- The table stays attended when the slots that one client changes are free, or its own. -/
theorem Attended.put {v : System n (Fin k) Unit} (h : Attended s)
    (hslots : ∀ i, v.scheduler.tasks i = {} ∨ Registered j () i v ∨
      v.scheduler.tasks i = s.scheduler.tasks i ∧ s.scheduler.tasks i ≠ heldBy j) :
    Attended (s.put j v) := by
  intro i
  rcases hslots i with hfree | hown | ⟨hsame, hother⟩
  · exact Or.inl hfree
  · exact Or.inr ⟨j, by rwa [Clients.view_put_self]⟩
  · rcases h i with hfree | ⟨j', htask, hslot⟩
    · exact Or.inl (hsame.trans hfree)
    · have hne : j' ≠ j := by
        rintro rfl
        exact hother hslot
      refine Or.inr ⟨j', ?_, hsame.trans hslot⟩
      rw [Clients.view, Clients.put_clients_of_ne hne]
      exact htask

/-- Starting a client that is not in the table keeps the table attended, whether or not its
allocations succeed. -/
theorem initiate_attended {url : Bytes} {method : HTTPMethod} {onSuccess : Bool}
    {alloc : InitiateAllocations} {env : Environment} (h : Attended s)
    (hfree : ∀ i, s.scheduler.tasks i ≠ heldBy j) :
    Attended
      (s.put j (httpClientInitiate (some j) () url method onSuccess alloc env (s.view j)).2) := by
  refine h.put fun i => ?_
  obtain ⟨code, client, -, heq⟩ | ⟨p, i', hp, -, heq⟩ :=
    initiate_cases (some j) () url method onSuccess alloc env (s.view j)
  · rw [heq]
    exact Or.inr (Or.inr ⟨rfl, hfree i⟩)
  · obtain rfl := Option.some.inj hp
    rw [heq]
    by_cases hi : i = i'
    · subst hi
      exact Or.inr (Or.inl ⟨rfl, Scheduler.set_tasks_self⟩)
    · exact Or.inr (Or.inr ⟨Scheduler.set_tasks_of_ne hi, hfree i⟩)

/-- A client that disposes of itself has no handle any more. -/
theorem taskwork_of_disposing {e d : Exchange} (hs : e.state = .disposing)
    (h : httpClientTaskwork e = .ok d) : d.task = none := by
  cases taskwork_cases h with
  | waits hne | works hne _ => exact absurd hs hne.2
  | fails herror => exact absurd (hs.symm.trans herror) (by decide)
  | disposes _ => rfl

/-- A call frees the slot of a client that disposes of itself, and leaves every other one. -/
theorem Attended.called {v : System n (Fin k) Unit} (h : Attended s)
    (hcalled : Called j () (s.view j) v) :
    ∃ i, Registered j () i (s.view j) ∧
      ((s.clients j).state = .disposing ∧ v.scheduler = s.scheduler.set i {} ∧
          v.client.task = none ∨
        (s.clients j).state ≠ .disposing ∧ v.scheduler = s.scheduler ∧
          v.client.task = some i.val) := by
  obtain ⟨i, hi⟩ := hcalled.1
  have hregistered := h.registered hi
  refine ⟨i, hregistered, ?_⟩
  have hwork := (System.taskwork_eq_ok hcalled.2).1
  by_cases hs : (s.clients j).state = .disposing
  · refine Or.inl ⟨hs, called_disposing hcalled hs hregistered.1, ?_⟩
    exact taskwork_of_disposing hs hwork
  · exact Or.inr ⟨hs, called_of_ne_disposing hcalled hs,
      (taskwork_task hs hwork).trans hregistered.1⟩

/-- A client is in one slot at most. -/
theorem registered_unique {i' : Fin n} (h : Registered j () i (s.view j))
    (h' : Registered j () i' (s.view j)) : i = i' :=
  Fin.ext (Option.some.inj (h.1.symm.trans h'.1))

/-- One call of a client's work function keeps the table attended. -/
theorem call_attended {v : System n (Fin k) Unit} (h : Attended s)
    (hcalled : Called j () (s.view j) v) : Attended (s.put j v) := by
  obtain ⟨i, hi, hcase⟩ := h.called hcalled
  refine h.put fun i' => ?_
  by_cases hown : i' = i
  · subst hown
    rcases hcase with ⟨-, htable, -⟩ | ⟨-, htable, htask⟩
    · rw [htable]
      exact Or.inl Scheduler.set_tasks_self
    · exact Or.inr (Or.inl ⟨htask, by rw [htable]; exact hi.2⟩)
  · have hother : s.scheduler.tasks i' ≠ heldBy j := fun heq =>
      hown (registered_unique (h.registered heq) hi)
    rcases hcase with ⟨-, htable, -⟩ | ⟨-, htable, -⟩ <;> rw [htable]
    · exact Or.inr (Or.inr ⟨Scheduler.set_tasks_of_ne hown, hother⟩)
    · exact Or.inr (Or.inr ⟨rfl, hother⟩)

/-- **Every slot is free, or holds a client that has its handle**: no step changes this. -/
theorem ClientsStep.attended {a : ClientsAction k} (hstep : ClientsStep s a t) (h : Attended s) :
    Attended t := by
  cases hstep with
  | initiate hfree => exact initiate_attended h hfree
  | call hcalled => exact call_attended h hcalled

/-- The empty table is attended. -/
theorem attended_schedulerInit (clients : Fin k → Exchange) :
    Attended (⟨schedulerInit, clients⟩ : Clients n k) :=
  fun _ => Or.inl rfl

/-- Every table that starts and sweeps can reach is attended. -/
theorem attended_of_trace {clients : Fin k → Exchange} {as : List (ClientsAction k)}
    (h : Trace ClientsStep ⟨schedulerInit, clients⟩ as s) : Attended s :=
  h.invariant (fun _ _ _ hstep hx => hstep.attended hx) (attended_schedulerInit clients)

/-! ### One client among the others -/

/-- What another client does does not change the client. -/
theorem ClientsStep.other_client {a : ClientsAction k} (hstep : ClientsStep s a t)
    (hinit : a ≠ .initiate j) (hcall : a ≠ .call j) : t.clients j = s.clients j := by
  cases hstep with
  | @initiate j' url method onSuccess alloc env hfree =>
      have hne : j ≠ j' := fun heq => hinit (by rw [heq])
      exact Clients.put_clients_of_ne hne _
  | @call j' v hcalled =>
      have hne : j ≠ j' := fun heq => hcall (by rw [heq])
      exact Clients.put_clients_of_ne hne _

/-- Nor does it change its slot. -/
theorem ClientsStep.other_slot {a : ClientsAction k} (hstep : ClientsStep s a t) (h : Attended s)
    (hcall : a ≠ .call j) (hi : s.scheduler.tasks i = heldBy j) :
    t.scheduler.tasks i = heldBy j := by
  cases hstep with
  | @initiate j' url method onSuccess alloc env hfree =>
      obtain ⟨code, client, -, heq⟩ | ⟨p, i', -, hempty, heq⟩ :=
        initiate_cases (some j') () url method onSuccess alloc env (s.view j')
      · rw [heq]
        exact hi
      · have hi' : i ≠ i' := by
          rintro rfl
          cases hempty.symm.trans hi
        rw [heq]
        exact (Scheduler.set_tasks_of_ne hi').trans hi
  | @call j' v hcalled =>
      obtain ⟨i', hi', ⟨-, htable, -⟩ | ⟨-, htable, -⟩⟩ := h.called hcalled
      · have hother : i ≠ i' := by
          rintro rfl
          have heq := hi.symm.trans hi'.2
          exact hcall (congrArg ClientsAction.call (by simpa [heldBy] using heq.symm))
        rw [show (s.put j' v).scheduler = v.scheduler from rfl, htable]
        exact (Scheduler.set_tasks_of_ne hother).trans hi
      · rw [show (s.put j' v).scheduler = v.scheduler from rfl, htable]
        exact hi

/-- The client stays in its slot while the others do something. -/
theorem ClientsStep.keeps_slot {a : ClientsAction k} (hstep : ClientsStep s a t) (h : Attended s)
    (hinit : a ≠ .initiate j) (hcall : a ≠ .call j) (hj : Registered j () i (s.view j)) :
    Registered j () i (t.view j) := by
  refine ⟨?_, hstep.other_slot h hcall hj.2⟩
  rw [show (t.view j).client = s.clients j from hstep.other_client hinit hcall]
  exact hj.1

/-- A call of the client frees its slot when it disposes of itself, and keeps it otherwise. -/
theorem ClientsStep.called_slot (hstep : ClientsStep s (.call j) t) (h : Attended s)
    (hj : Registered j () i (s.view j)) :
    (s.clients j).state = .disposing ∧ (t.clients j).task = none ∨
      Registered j () i (t.view j) := by
  cases hstep with
  | @call _ v hcalled =>
      obtain ⟨i', hi', hcase⟩ := h.called hcalled
      obtain rfl := registered_unique hi' hj
      have hclient : (s.put j v).clients j = v.client := Function.update_self ..
      rcases hcase with ⟨hs, -, htask⟩ | ⟨-, htable, htask⟩
      · exact Or.inl ⟨hs, by rw [hclient]; exact htask⟩
      · refine Or.inr ?_
        rw [Clients.view_put_self]
        exact ⟨htask, by rw [htable]; exact hj.2⟩

/-- A client without a handle has none as long as it is not started. -/
theorem no_handle_of_trace {bs : List (ClientsAction k)} (ht : Trace ClientsStep s bs t)
    (h : Attended s) (hno : .initiate j ∉ bs) (hnone : (s.clients j).task = none) :
    (t.clients j).task = none := by
  induction ht with
  | nil _ => exact hnone
  | @cons s u t a bs hstep _ ih =>
      have hinit : a ≠ .initiate j := fun heq => hno (by rw [heq]; exact List.mem_cons_self)
      have hcall : a ≠ .call j := by
        rintro rfl
        cases hstep with
        | call hcalled =>
            obtain ⟨i, hi⟩ := hcalled.1
            exact h.ne_heldBy hnone i hi
      refine ih (hstep.attended h) (fun hmem => hno (List.mem_cons_of_mem _ hmem)) ?_
      rw [hstep.other_client hinit hcall]
      exact hnone

/-- The scheduler calls the callback of a slot with its context. -/
def Clients.call (i : Fin n) (s : Clients n k) : Except Fault (Clients n k) :=
  match (s.scheduler.tasks i).context with
  | none => .ok s
  | some j => (s.view j).taskwork.map (s.put j)

/-- `scheduler_work`. -/
def Clients.sweep (s : Clients n k) : Except Fault (Clients n k) :=
  schedulerWork (fun s => s.scheduler.tasks) Clients.call s

/-- A part of a sweep: the clients of the slots are called, each of them once, and nothing else
changes. -/
structure SlotsCalled (slots : List (Fin n)) (s t : Clients n k) : Prop where
  attended : Attended t
  others : ∀ i ∉ slots, t.scheduler.tasks i = s.scheduler.tasks i
  otherClients : ∀ j, (∀ i ∈ slots, s.scheduler.tasks i ≠ heldBy j) → t.clients j = s.clients j
  free : ∀ i ∈ slots, s.scheduler.tasks i = {} → t.scheduler.tasks i = {}
  client : ∀ i ∈ slots, ∀ j, s.scheduler.tasks i = heldBy j →
    httpClientTaskwork (s.clients j) = .ok (t.clients j) ∧
      t.scheduler.tasks i = if (s.clients j).state = .disposing then {} else heldBy j
  trace : ∃ as, Trace ClientsStep s as t ∧ ∀ a ∈ as, ∃ j, a = .call j

/-- Working one slot calls the client registered there and nobody else. -/
theorem slotsCalled_workAt (h : Attended s)
    (hwork : schedulerWorkAt (fun s => s.scheduler.tasks) Clients.call s i = .ok t) :
    SlotsCalled [i] s t := by
  rcases h i with hfree | ⟨j, hj⟩
  · rw [schedulerWorkAt, hfree] at hwork
    obtain rfl : s = t := Except.ok.inj hwork
    refine ⟨h, fun _ _ => rfl, fun _ _ => rfl, fun _ _ => id, fun i' hi' j hj => ?_,
      [], .nil s, fun _ ha => absurd ha List.not_mem_nil⟩
    rw [List.mem_singleton.mp hi', hfree] at hj
    cases hj
  · have hheld : s.scheduler.tasks i = heldBy j := hj.2
    have hsome : (heldBy j).callback.isSome = true := rfl
    rw [schedulerWorkAt, hheld, if_pos hsome, Clients.call, hheld] at hwork
    simp only [heldBy] at hwork
    cases hv : (s.view j).taskwork with
    | error f =>
        rw [hv] at hwork
        cases hwork
    | ok v =>
        rw [hv] at hwork
        obtain rfl := Except.ok.inj hwork
        have hcalled : Called j () (s.view j) v := ⟨⟨i, hheld⟩, hv⟩
        have hstep : ClientsStep s (.call j) (s.put j v) := .call hcalled
        obtain ⟨i', hi', hcase⟩ := h.called hcalled
        obtain rfl := registered_unique hi' hj
        have hclient : (s.put j v).clients j = v.client := Function.update_self ..
        refine ⟨hstep.attended h, fun i hi => ?_, fun j' hj' => ?_, fun i hi hfree => ?_,
          fun i hi j' hj' => ?_, [.call j], .cons hstep (.nil _),
          fun a ha => ⟨j, by simpa using ha⟩⟩
        · have hne : i ≠ i' := fun heq => hi (List.mem_singleton.mpr heq)
          rw [show (s.put j v).scheduler = v.scheduler from rfl]
          rcases hcase with ⟨-, htable, -⟩ | ⟨-, htable, -⟩ <;> rw [htable]
          exact Scheduler.set_tasks_of_ne hne
        · have hne : j' ≠ j := fun heq => hj' i' List.mem_cons_self (heq ▸ hheld)
          exact Clients.put_clients_of_ne hne _
        · rw [List.mem_singleton.mp hi, hheld] at hfree
          cases hfree
        · obtain rfl := List.mem_singleton.mp hi
          obtain rfl : j = j' := by simpa [heldBy] using hheld.symm.trans hj'
          refine ⟨by rw [hclient]; exact (System.taskwork_eq_ok hv).1, ?_⟩
          rw [show (s.put j v).scheduler = v.scheduler from rfl]
          rcases hcase with ⟨hs, htable, -⟩ | ⟨hs, htable, -⟩
          · rw [if_pos hs, htable, Scheduler.set_tasks_self]
          · rw [if_neg hs, htable]
            exact hheld

/-- The client of a slot that has been called is not called again in the slots after it. -/
theorem SlotsCalled.cons {u : Clients n k} {rest : List (Fin n)} (hs : Attended s)
    (h : SlotsCalled [i] s u) (hrest : SlotsCalled rest u t) (hi : i ∉ rest) :
    SlotsCalled (i :: rest) s t := by
  have hsame : ∀ i' ∈ rest, u.scheduler.tasks i' = s.scheduler.tasks i' := fun i' hi' =>
    h.others i' fun hmem => hi (List.mem_singleton.mp hmem ▸ hi')
  have hunique : ∀ j, s.scheduler.tasks i = heldBy j →
      ∀ i' ∈ rest, s.scheduler.tasks i' ≠ heldBy j := by
    intro j hj i' hi' hj'
    obtain rfl := registered_unique (hs.registered hj) (hs.registered hj')
    exact hi hi'
  refine ⟨hrest.attended, fun i' hi' => ?_, fun j hj => ?_, fun i' hi' hfree => ?_,
    fun i' hi' j hj => ?_, ?_⟩
  · rw [List.mem_cons, not_or] at hi'
    rw [hrest.others i' hi'.2, h.others i' fun hmem => hi'.1 (List.mem_singleton.mp hmem)]
  · rw [hrest.otherClients j fun i' hi' => ?_, h.otherClients j fun i' hi' => ?_]
    · exact hj i' (List.mem_cons.mpr (Or.inl (List.mem_singleton.mp hi')))
    · rw [hsame i' hi']
      exact hj i' (List.mem_cons_of_mem _ hi')
  · rcases List.mem_cons.mp hi' with rfl | hmem
    · rw [hrest.others i' hi]
      exact h.free i' List.mem_cons_self hfree
    · exact hrest.free i' hmem ((hsame i' hmem).trans hfree)
  · rcases List.mem_cons.mp hi' with rfl | hmem
    · obtain ⟨hwork, hslot⟩ := h.client i' List.mem_cons_self j hj
      have hlater : t.clients j = u.clients j := by
        refine hrest.otherClients j fun x hx => ?_
        rw [hsame x hx]
        exact hunique j hj x hx
      rw [hlater, hrest.others i' hi]
      exact ⟨hwork, hslot⟩
    · have hfirst : u.clients j = s.clients j := by
        refine h.otherClients j fun x hx hheld => ?_
        rw [List.mem_singleton.mp hx] at hheld
        exact hunique j hheld i' hmem hj
      rw [← hfirst]
      exact hrest.client i' hmem j ((hsame i' hmem).trans hj)
  · obtain ⟨as, has, hcalls⟩ := h.trace
    obtain ⟨bs, hbs, hcalls'⟩ := hrest.trace
    exact ⟨as ++ bs, has.append hbs, fun a ha =>
      (List.mem_append.mp ha).elim (hcalls a) (hcalls' a)⟩

/-- Working different slots in turn calls the client of each of them once. -/
theorem slotsCalled_foldlM {slots : List (Fin n)} (hnodup : slots.Nodup) (h : Attended s)
    (hrun : slots.foldlM (schedulerWorkAt (fun s => s.scheduler.tasks) Clients.call) s = .ok t) :
    SlotsCalled slots s t := by
  induction slots generalizing s with
  | nil =>
      obtain rfl : s = t := Except.ok.inj hrun
      exact ⟨h, fun _ _ => rfl, fun _ _ => rfl, nofun, nofun, [], .nil s,
        fun _ ha => absurd ha List.not_mem_nil⟩
  | cons i rest ih =>
      obtain ⟨hi, hrest⟩ := List.nodup_cons.mp hnodup
      rw [List.foldlM_cons] at hrun
      cases hwork : schedulerWorkAt (fun s => s.scheduler.tasks) Clients.call s i with
      | error f =>
          rw [hwork] at hrun
          cases hrun
      | ok u =>
          rw [hwork] at hrun
          have hcalled := slotsCalled_workAt h hwork
          exact hcalled.cons h (ih hrest hcalled.attended hrun) hi

/-- **A sweep calls the task of every client in the table exactly once**, in every state of every
run from `scheduler_init`, and no other client. It frees the slots of the clients that dispose of
themselves, and no others, and it is a run of calls. -/
theorem sweep_calls_each_once {clients : Fin k → Exchange} {as : List (ClientsAction k)}
    (hs : Trace ClientsStep ⟨schedulerInit, clients⟩ as s) (h : s.sweep = .ok t) :
    (∀ i j, Registered j () i (s.view j) →
      httpClientTaskwork (s.clients j) = .ok (t.clients j) ∧
        t.scheduler.tasks i = if (s.clients j).state = .disposing then {} else heldBy j) ∧
    (∀ j, (∀ i, s.scheduler.tasks i ≠ heldBy j) → t.clients j = s.clients j) ∧
    (∀ i, s.scheduler.tasks i = {} → t.scheduler.tasks i = {}) ∧
    ∃ bs, Trace ClientsStep s bs t ∧ ∀ a ∈ bs, ∃ j, a = .call j := by
  have hcalled := slotsCalled_foldlM (List.nodup_finRange n) (attended_of_trace hs) h
  exact ⟨fun i j hj => hcalled.client i (List.mem_finRange i) j hj.2,
    fun j hj => hcalled.otherClients j fun i _ => hj i,
    fun i hfree => hcalled.free i (List.mem_finRange i) hfree, hcalled.trace⟩

/-! ### The count of the tasks -/

/-- The tasks of the table, by their handles. -/
def Clients.tasks (s : Clients n k) : TaskMap n (Fin k) Unit := fun i =>
  (s.scheduler.tasks i).callback.map fun callback => ((s.scheduler.tasks i).context, callback)

/-- An attended table is represented by the list of its tasks. -/
theorem Attended.represents (h : Attended s) : Represents s.scheduler s.tasks := by
  intro i
  rw [Clients.tasks]
  rcases h i with hfree | ⟨j, -, hheld⟩
  · rw [hfree]
    rfl
  · rw [show s.scheduler.tasks i = _ from hheld]
    rfl

/-- **The scheduler counts the clients that are not done**: the tasks are the clients whose
request is in the table, each counted once, in every state of every run. -/
theorem task_count_eq_registered {clients : Fin k → Exchange} {as : List (ClientsAction k)}
    (hs : Trace ClientsStep ⟨schedulerInit, clients⟩ as s) :
    schedulerGetTaskCount s.scheduler =
      (Finset.univ.filter fun j => ∃ i, s.scheduler.tasks i = heldBy j).card := by
  have hattended := attended_of_trace hs
  rw [hattended.represents.taskCount]
  have hlive : ∀ i, i ∈ s.tasks.live ↔ ∃ j, s.scheduler.tasks i = heldBy j := by
    intro i
    rw [TaskMap.mem_live, Clients.tasks]
    rcases hattended i with hfree | ⟨j, -, hheld⟩
    · rw [hfree]
      exact iff_of_false nofun nofun
    · exact iff_of_true (by rw [show s.scheduler.tasks i = _ from hheld]; rfl) ⟨j, hheld⟩
  -- a slot in use and its client determine each other
  have hinj : Set.InjOn (fun i => (s.scheduler.tasks i).context) s.tasks.live := by
    intro i hi i' hi' heq
    obtain ⟨j, hj⟩ := (hlive i).mp hi
    obtain ⟨j', hj'⟩ := (hlive i').mp hi'
    simp only [hj, hj', heldBy, Option.some.injEq] at heq
    subst heq
    exact registered_unique (hattended.registered hj) (hattended.registered hj')
  have himage : s.tasks.live.image (fun i => (s.scheduler.tasks i).context) =
      (Finset.univ.filter fun j => ∃ i, s.scheduler.tasks i = heldBy j).image some := by
    ext context
    simp only [Finset.mem_image, Finset.mem_filter, Finset.mem_univ, true_and, hlive]
    constructor
    · rintro ⟨i, ⟨j, hj⟩, rfl⟩
      exact ⟨j, ⟨i, hj⟩, by rw [hj]; rfl⟩
    · rintro ⟨j, ⟨i, hj⟩, rfl⟩
      exact ⟨i, ⟨j, hj⟩, by rw [hj]; rfl⟩
  rw [← Finset.card_image_of_injOn hinj, himage,
    Finset.card_image_of_injective _ (Option.some_injective _)]

end Clients

/-! ### Two clients -/

/-- A request with a URL that names no scheme. -/
def started {n k : ℕ} (j : Fin k) (s : Clients n k) : Clients n k :=
  s.put j (httpClientInitiate (some j) () [120] .get true ⟨true, true, true⟩
    (reachableServer [] [] fun _ => 0) (s.view j)).2

/-- Two clients whose requests have been started, in a table of three slots. -/
def twoStarted : Clients 3 2 :=
  started (Fin.last 1) (started ⟨0, Nat.two_pos⟩ ⟨schedulerInit, fun _ => zeroed⟩)

/-- Two clients started one after the other are a run of the system. -/
theorem trace_twoStarted :
    Trace ClientsStep ⟨schedulerInit, fun _ => zeroed⟩ [.initiate 0, .initiate 1] twoStarted :=
  .cons (t := started 0 ⟨schedulerInit, fun _ => zeroed⟩) (.initiate (by decide)) <|
  .cons (.initiate (by decide)) (.nil _)

/-- A sweep calls the client of the second slot. -/
theorem sweep_of_two :
    ∃ t, twoStarted.sweep = .ok t ∧
      httpClientTaskwork (twoStarted.clients 1) = .ok (t.clients 1) ∧
      t.scheduler.tasks 1 = heldBy 1 := by
  obtain ⟨t, ht⟩ : ∃ t, twoStarted.sweep = .ok t := ⟨_, rfl⟩
  have hstarted : (twoStarted.clients 1).state ≠ .disposing := by decide
  obtain ⟨hwork, hslot⟩ :=
    (sweep_calls_each_once trace_twoStarted ht).1 1 1 (show Registered 1 () 1 _ from ⟨rfl, rfl⟩)
  exact ⟨t, ht, hwork, hslot.trans (if_neg hstarted)⟩

/-- Both of them are counted. -/
theorem count_of_two : schedulerGetTaskCount twoStarted.scheduler = 2 :=
  (task_count_eq_registered trace_twoStarted).trans (by decide)

end MaestroCore
