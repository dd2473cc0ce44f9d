import MaestroCore.Scheduler
import MaestroCore.Transitions

/-!
# The Lifecycle of a Scheduled Request

`http_client_initiate` registers the client in the table of the scheduler, the sweeps call
`http_client_taskwork` through the slot, and the last call disposes of the client and frees
the slot. In between the other tasks run, and the callback of the client; they may do anything
except touch the client or its slot.

A run is a sequence of calls of the client's task and of steps of the rest of the program, in
any order. What `on_success` does to the rest of the table is a step of its own, right after
the call that delivers.

## Main results

* `sweep_steps`: a sweep of the scheduler is a run.
* `initiate_cases`: a request that is not started leaves the table as it was.
* `request_lifecycle`: the body is delivered at most once and never after an error, and the
  slot is registered until the disposal, which frees that slot and no other.
-/

open CLang Run

namespace MaestroCore

/-! ### One call of the task -/

section Taskwork

variable {e d : Exchange}

/-- What one call of `http_client_taskwork` does. -/
inductive TaskworkCase (e : Exchange) : Exchange → Prop
  | waits (hs : e.state ≠ .error ∧ e.state ≠ .disposing) : TaskworkCase e e.ticked
  | fails (hs : e.state = .error) : TaskworkCase e { e.ticked with state := .disposing }
  | disposes (hs : e.state = .disposing) : TaskworkCase e (httpClientDispose e.ticked)
  | works {d : Exchange} (hs : e.state ≠ .error ∧ e.state ≠ .disposing)
      (h : exchangeStep e.ticked = .ok d) : TaskworkCase e d

/-- A call of the work function waits, takes a failed client to `DISPOSING`, disposes of it, or
makes one step of the exchange. -/
theorem taskwork_cases (h : httpClientTaskwork e = .ok d) : TaskworkCase e d := by
  rw [httpClientTaskwork] at h
  have hstate : e.ticked.state = e.state := rfl
  simp only [hstate] at h
  split at h
  · rename_i hs
    obtain rfl := Except.ok.inj h
    exact .waits (by simp [hs])
  · rename_i hs
    obtain rfl := Except.ok.inj h
    exact .fails hs
  · rename_i hs
    obtain rfl := Except.ok.inj h
    exact .disposes hs
  · rename_i herror hdisposing
    split at h
    · obtain rfl := Except.ok.inj h
      exact .waits ⟨herror, hdisposing⟩
    · exact .works ⟨herror, hdisposing⟩ h

/-- The delivering worker calls `on_success` once and ends, or it does not call it. -/
theorem returning_responses (hs : e.state = .returning) (h : exchangeStep e = .ok d) :
    d.responses = e.responses ∨
      d.state = .disposing ∧ ∃ body, d.responses = e.responses ++ [body] := by
  obtain ⟨s, x, hwork, rfl⟩ := work_of_exchangeStep h
  rw [exchangeWork, hs] at hwork
  obtain ⟨c, hc, rfl⟩ := work_of_read hwork
  rw [httpClientWork, hs] at hc
  simp only [httpClientWorktaskReturning] at hc
  split at hc
  · split at hc
    · obtain ⟨-, rfl⟩ := Prod.mk.injEq .. ▸ Except.ok.inj hc
      exact Or.inl rfl
    · obtain ⟨-, rfl⟩ := Prod.mk.injEq .. ▸ Except.ok.inj hc
      exact Or.inl rfl
  · split at hc
    · obtain ⟨rfl, rfl⟩ := Prod.mk.injEq .. ▸ Except.ok.inj hc
      exact Or.inr ⟨rfl, _, rfl⟩
    · obtain ⟨-, rfl⟩ := Prod.mk.injEq .. ▸ Except.ok.inj hc
      exact Or.inl rfl

/-- `on_success` has been called at most once, and only by a client that is done. -/
def DeliversOnce (e : Exchange) : Prop :=
  e.responses.length ≤ 1 ∧ (e.state ≠ .disposing → e.responses = [])

/-- A call of the work function keeps the deliveries at no more than one. -/
theorem DeliversOnce.step (h : DeliversOnce e) (hstep : httpClientTaskwork e = .ok d) :
    DeliversOnce d := by
  cases taskwork_cases hstep with
  | waits _ => exact h
  | fails hs => exact ⟨h.1, fun hne => absurd rfl hne⟩
  | disposes hs => exact ⟨h.1, fun hne => absurd hs hne⟩
  | works hs hwork =>
      have hnone : e.responses = [] := h.2 hs.2
      by_cases hreturning : e.state = .returning
      · rcases returning_responses (e := e.ticked) hreturning hwork with hr | ⟨hd, body, hr⟩
        · have hnone' : d.responses = [] := hr.trans hnone
          exact ⟨by simp [hnone'], fun _ => hnone'⟩
        · have hone : d.responses = [body] := by
            rw [hr]
            exact congrArg (· ++ [body]) hnone
          exact ⟨by simp [hone], fun hne => absurd hd hne⟩
      · have hkept := (exchangeStep_kept hwork).receiver hreturning
        have hnone' : d.responses = [] := (congrArg Receiver.responses hkept).trans hnone
        exact ⟨by simp [hnone'], fun _ => hnone'⟩

/-- The request has failed, and `on_success` has not been called. -/
def Failed (e : Exchange) : Prop :=
  (e.state = .error ∨ e.state = .disposing) ∧ e.responses = []

/-- A call of the work function does not bring a failed client back. -/
theorem Failed.step (h : Failed e) (hstep : httpClientTaskwork e = .ok d) : Failed d := by
  cases taskwork_cases hstep with
  | waits _ => exact h
  | fails _ => exact ⟨Or.inr rfl, h.2⟩
  | disposes hs => exact ⟨Or.inr hs, h.2⟩
  | works hs _ =>
      rcases h.1 with he | he
      · exact absurd he hs.1
      · exact absurd he hs.2

/-- Until it is disposed of, a client keeps its handle. -/
theorem taskwork_task (hs : e.state ≠ .disposing) (hstep : httpClientTaskwork e = .ok d) :
    d.task = e.task := by
  cases taskwork_cases hstep with
  | waits _ => rfl
  | fails _ => rfl
  | disposes hd => exact absurd hd hs
  | works _ hwork => exact (exchangeStep_kept hwork).task

end Taskwork

/-! ### The client and the table -/

/-- The table of the scheduler and one of the clients. -/
structure System (n : ℕ) (α β : Type) where
  scheduler : Scheduler n α β
  client : Exchange

section System

variable {n : ℕ} {α β : Type}

/-- `http_client_taskwork` of the client. The slot is freed by `http_client_dispose`. -/
def System.taskwork (s : System n α β) : Except Fault (System n α β) := do
  let client ← httpClientTaskwork s.client
  .ok {
    scheduler :=
      if s.client.state = .disposing then schedulerDestroyTask s.scheduler s.client.task
      else s.scheduler
    client := client }

/-- Which of the allocations of `http_client_initiate` succeed. -/
structure InitiateAllocations where
  req : Bool
  resp : Bool
  urlCopy : Bool

/-- `http_client_initiate`. `self` is the address of the client, and `taskwork` the address of
`http_client_taskwork`. The function does not use its method: `(void)_method`. -/
def httpClientInitiate (self : Option α) (taskwork : β) (url : Bytes) (_method : HTTPMethod)
    (onSuccess : Bool) (alloc : InitiateAllocations) (env : Environment) (s : System n α β) :
    ErrorCode × System n α β :=
  match self with
  | none => (.invalidArg, s)
  | some self =>
      if !alloc.req then (.noMemory, s)
      else if !alloc.resp then (.noMemory, s)
      else
        match schedulerCreateTask s.scheduler (some self) (some taskwork) with
        | (none, scheduler) => (.busy, ⟨scheduler, { s.client with task := none }⟩)
        | (some i, scheduler) =>
            if !alloc.urlCopy then
              (.noMemory, ⟨schedulerDestroyTask scheduler (some i.val),
                { s.client with task := none }⟩)
            else (.success, ⟨scheduler, initiated s.client url onSuccess i.val env⟩)

/-- The client holds the slot. -/
def Registered (self : α) (taskwork : β) (i : Fin n) (s : System n α β) : Prop :=
  s.client.task = some i.val ∧ s.scheduler.tasks i = ⟨some self, some taskwork⟩

/-- The scheduler calls the task of the client, through a slot that holds it. -/
def Called (self : α) (taskwork : β) (s t : System n α β) : Prop :=
  (∃ i, s.scheduler.tasks i = ⟨some self, some taskwork⟩) ∧ s.taskwork = .ok t

/-- Other code runs. It touches neither the client nor the slot of which the client holds the
handle. -/
def Untouched (s t : System n α β) : Prop :=
  t.client = s.client ∧
    ∀ i : Fin n, s.client.task = some i.val → t.scheduler.tasks i = s.scheduler.tasks i

/-- One step of the program. -/
def SystemStep (self : α) (taskwork : β) (s t : System n α β) : Prop :=
  Called self taskwork s t ∨ Untouched s t

/-- A run of the program. -/
abbrev SystemRun (self : α) (taskwork : β) : System n α β → System n α β → Prop :=
  Relation.ReflTransGen (SystemStep self taskwork)

/-! ### Sweeps -/

/-- What the scheduler calls at a slot: the task of the client, with its callback, or another
task. `others` is what that other code does. -/
def System.call [DecidableEq α] [DecidableEq β] (self : α) (taskwork : β)
    (others : Fin n → System n α β → System n α β) (i : Fin n) (s : System n α β) :
    Except Fault (System n α β) :=
  if s.scheduler.tasks i = ⟨some self, some taskwork⟩ then s.taskwork.map (others i)
  else .ok (others i s)

/-- **A sweep of the scheduler is a run**, whatever the other tasks do. -/
theorem sweep_steps [DecidableEq α] [DecidableEq β] {self : α} {taskwork : β}
    {others : Fin n → System n α β → System n α β} (hothers : ∀ i s, Untouched s (others i s))
    {s t : System n α β}
    (h : schedulerWork (fun s => s.scheduler.tasks) (System.call self taskwork others) s = .ok t) :
    SystemRun self taskwork s t := by
  refine schedulerWork_reaches ?_ h
  intro i s t _ hcall
  rw [System.call] at hcall
  split at hcall
  · rename_i hslot
    cases hwork : s.taskwork with
    | error f =>
        rw [hwork] at hcall
        cases hcall
    | ok u =>
        rw [hwork] at hcall
        obtain rfl := Except.ok.inj hcall
        exact .tail (.single (Or.inl ⟨⟨i, hslot⟩, hwork⟩)) (Or.inr (hothers i u))
  · obtain rfl := Except.ok.inj hcall
    exact .single (Or.inr (hothers i s))

/-! ### The invariants of a run -/

variable {self : α} {taskwork : β} {s t : System n α β} {i : Fin n}

/-- In the system a call of the work function also frees the slot when the client disposes of
itself. -/
theorem System.taskwork_eq_ok (h : s.taskwork = .ok t) :
    httpClientTaskwork s.client = .ok t.client ∧
      t.scheduler = if s.client.state = .disposing then
        schedulerDestroyTask s.scheduler s.client.task else s.scheduler := by
  rw [System.taskwork] at h
  cases hwork : httpClientTaskwork s.client with
  | error f =>
      rw [hwork] at h
      cases h
  | ok client =>
      rw [hwork] at h
      obtain rfl := Except.ok.inj h
      exact ⟨rfl, rfl⟩

/-- What every call of the task keeps holds of the client in the whole run. -/
theorem SystemRun.client_invariant {I : Exchange → Prop}
    (hstep : ∀ e d, httpClientTaskwork e = .ok d → I e → I d) (h : SystemRun self taskwork s t)
    (hs : I s.client) : I t.client := by
  refine run_invariant (I := fun u => I u.client) ?_ h hs
  rintro u t (⟨-, hwork⟩ | ⟨hclient, -⟩) hu
  · exact hstep _ _ (System.taskwork_eq_ok hwork).1 hu
  · rw [hclient]
    exact hu

/-- The call that disposes of the client frees its slot. -/
theorem called_disposing (h : Called self taskwork s t) (hs : s.client.state = .disposing)
    (htask : s.client.task = some i.val) : t.scheduler = s.scheduler.set i {} := by
  rw [(System.taskwork_eq_ok h.2).2, if_pos hs, htask, destroyTask_some]

/-- Every other call leaves the table alone. -/
theorem called_of_ne_disposing (h : Called self taskwork s t) (hs : s.client.state ≠ .disposing) :
    t.scheduler = s.scheduler := by
  rw [(System.taskwork_eq_ok h.2).2, if_neg hs]

/-- A step other than the disposal keeps the slot registered. -/
theorem Registered.step (h : Registered self taskwork i s) (hstep : SystemStep self taskwork s t)
    (hs : Called self taskwork s t → s.client.state ≠ .disposing) :
    Registered self taskwork i t := by
  rcases hstep with hcalled | ⟨hclient, hslots⟩
  · have htask := taskwork_task (hs hcalled) (System.taskwork_eq_ok hcalled.2).1
    have htable := called_of_ne_disposing hcalled (hs hcalled)
    exact ⟨htask.trans h.1, by rw [htable]; exact h.2⟩
  · exact ⟨by rw [hclient]; exact h.1, (hslots i h.1).trans h.2⟩

/-- **The slot is registered until the disposal.** -/
theorem registered_until_disposal (h : Registered self taskwork i s)
    (hrun : SystemRun self taskwork s t) :
    Registered self taskwork i t ∨
      ∃ u v, SystemRun self taskwork s u ∧ Registered self taskwork i u ∧
        u.client.state = .disposing ∧ Called self taskwork u v ∧
        v.scheduler = u.scheduler.set i {} ∧ SystemRun self taskwork v t := by
  induction hrun with
  | refl => exact Or.inl h
  | @tail u v hsu huv ih =>
      rcases ih with hregistered | ⟨x, y, hx, hreg, hs, hcalled, htable, hrun⟩
      · by_cases hdispose : Called self taskwork u v ∧ u.client.state = .disposing
        · obtain ⟨hcalled, hs⟩ := hdispose
          exact Or.inr ⟨u, v, hsu, hregistered, hs, hcalled,
            called_disposing hcalled hs hregistered.1, .refl⟩
        · exact Or.inl (hregistered.step huv fun hcalled hs => hdispose ⟨hcalled, hs⟩)
      · exact Or.inr ⟨x, y, hx, hreg, hs, hcalled, htable, hrun.tail huv⟩

/-- A client that has given up its slot frees nothing any more. -/
theorem called_without_task (h : Called self taskwork s t) (htask : s.client.task = none) :
    t.scheduler = s.scheduler := by
  rw [(System.taskwork_eq_ok h.2).2, htask, destroyTask_none, ite_self]

/-- The handle of a client is the one of its slot, or `NULL` after the disposal. -/
theorem SystemRun.task (h : SystemRun self taskwork s t) (hs : s.client.task = some i.val) :
    t.client.task = some i.val ∨ t.client.task = none := by
  refine h.client_invariant (I := fun e => e.task = some i.val ∨ e.task = none) ?_ (Or.inl hs)
  intro e d hstep he
  by_cases hdisposing : e.state = .disposing
  · cases taskwork_cases hstep with
    | waits h | works h _ => exact absurd hdisposing h.2
    | fails _ => exact he
    | disposes _ => exact Or.inr rfl
  · rw [taskwork_task hdisposing hstep]
    exact he

/-! ### Requests -/

/-- **A request is not started and leaves the table as it was, or it is started and takes a
slot that was free.** -/
theorem initiate_cases (self : Option α) (taskwork : β) (url : Bytes) (method : HTTPMethod)
    (onSuccess : Bool) (alloc : InitiateAllocations) (env : Environment) (s : System n α β) :
    (∃ code client, code ≠ .success ∧
      httpClientInitiate self taskwork url method onSuccess alloc env s =
        (code, ⟨s.scheduler, client⟩)) ∨
    ∃ (p : α) (i : Fin n), self = some p ∧ s.scheduler.tasks i = {} ∧
      httpClientInitiate self taskwork url method onSuccess alloc env s =
        (.success, ⟨s.scheduler.set i ⟨some p, some taskwork⟩,
          initiated s.client url onSuccess i.val env⟩) := by
  cases self with
  | none => exact Or.inl ⟨.invalidArg, s.client, by decide, rfl⟩
  | some p =>
      simp only [httpClientInitiate]
      split
      · exact Or.inl ⟨.noMemory, s.client, by decide, rfl⟩
      · split
        · exact Or.inl ⟨.noMemory, s.client, by decide, rfl⟩
        · split
          · rename_i hcreate
            rw [createTask_eq_none hcreate]
            exact Or.inl ⟨.busy, _, by decide, rfl⟩
          · rename_i i scheduler hcreate
            split
            · rw [destroyTask_createTask hcreate]
              exact Or.inl ⟨.noMemory, _, by decide, rfl⟩
            · obtain ⟨hfree, rfl⟩ := createTask_eq_some hcreate
              exact Or.inr ⟨p, i, rfl, hfree, rfl⟩

/-- **The lifecycle of a scheduled request.** A request that is not started leaves the table
as it was. One that is started takes a free slot, and in every run of the program `on_success`
is called at most once, never when the client has been in the error state, and the slot is
registered until the disposal, which frees this slot and no other. -/
theorem request_lifecycle (self : Option α) (taskwork : β) (url : Bytes) (method : HTTPMethod)
    (onSuccess : Bool) (alloc : InitiateAllocations) (env : Environment) (s₀ : System n α β) :
    ((httpClientInitiate self taskwork url method onSuccess alloc env s₀).1 ≠ .success →
      (httpClientInitiate self taskwork url method onSuccess alloc env s₀).2.scheduler =
        s₀.scheduler) ∧
    ((httpClientInitiate self taskwork url method onSuccess alloc env s₀).1 = .success →
      ∃ (p : α) (i : Fin n), self = some p ∧ s₀.scheduler.tasks i = {} ∧
        Registered p taskwork i
          (httpClientInitiate self taskwork url method onSuccess alloc env s₀).2 ∧
        ∀ s, SystemRun p taskwork
            (httpClientInitiate self taskwork url method onSuccess alloc env s₀).2 s →
          s.client.responses.length ≤ 1 ∧
          (s.client.state = .error →
            ∀ t, SystemRun p taskwork s t → t.client.responses = []) ∧
          (Registered p taskwork i s ∨
            ∃ u v, SystemRun p taskwork
                (httpClientInitiate self taskwork url method onSuccess alloc env s₀).2 u ∧
              Registered p taskwork i u ∧ u.client.state = .disposing ∧
              Called p taskwork u v ∧ v.scheduler = u.scheduler.set i {} ∧
              SystemRun p taskwork v s) ∧
          ∀ t, Called p taskwork s t →
            (s.client.state = .disposing → s.client.task = some i.val →
              t.scheduler = s.scheduler.set i {}) ∧
            (¬ (s.client.state = .disposing ∧ s.client.task = some i.val) →
              t.scheduler = s.scheduler)) := by
  obtain ⟨code, client, hcode, heq⟩ | ⟨p, i, hself, hfree, heq⟩ :=
    initiate_cases self taskwork url method onSuccess alloc env s₀
  · rw [heq]
    exact ⟨fun _ => rfl, fun h => absurd h hcode⟩
  rw [heq]
  refine ⟨fun h => absurd rfl h, fun _ => ?_⟩
  have hregistered : Registered p taskwork i
      ⟨s₀.scheduler.set i ⟨some p, some taskwork⟩, initiated s₀.client url onSuccess i.val env⟩ :=
    ⟨rfl, Scheduler.set_tasks_self⟩
  refine ⟨p, i, hself, hfree, hregistered, fun s hs => ?_⟩
  have honce : DeliversOnce s.client :=
    hs.client_invariant (fun _ _ hstep h => h.step hstep) ⟨Nat.zero_le 1, fun _ => rfl⟩
  refine ⟨honce.1, ?_, registered_until_disposal hregistered hs, fun t ht => ⟨?_, ?_⟩⟩
  · intro herror t ht
    have hfailed : Failed s.client := ⟨Or.inl herror, honce.2 (by simp [herror])⟩
    exact (ht.client_invariant (fun _ _ hstep h => h.step hstep) hfailed).2
  · exact fun hdisposing htask => called_disposing ht hdisposing htask
  · intro hother
    by_cases hdisposing : s.client.state = .disposing
    · rcases hs.task (i := i) rfl with htask | htask
      · exact absurd ⟨hdisposing, htask⟩ hother
      · exact called_without_task ht htask
    · exact called_of_ne_disposing ht hdisposing

end System

end MaestroCore
