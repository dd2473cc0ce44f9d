import MaestroCore.HeapCall
import MaestroCore.Lifecycle

/-!
# Scheduled Requests and the Heap

`http_client_initiate` and `http_client_taskwork` with the memory that they ask for. A request
that is started holds its blocks from one call of its task to the next, and the call that
disposes of it frees them. What it leaves behind is the buffer of each call of the callback.

Unlike `http_blocking_work`, `http_client_initiate` returns without a look back when
`HTTP_Response` is refused, and the `HTTP_Request` is lost.

## Main results

* `task_no_leak`: whatever the heap refuses, no bad pointer is followed exactly when no call ends
  the block of the decoded body; after the disposal the heap is as it was, up to the delivered
  buffers and to what the refusals have cost.
-/

open CLang Ownership Run

namespace MaestroCore.Allocating

/-- `http_client_initiate`. `task` is what `scheduler_create_task` returns. -/
def httpClientInitiate (url : Bytes) (onSuccess : Bool) (task : Option ℕ) (env : Environment)
    (e : Exchange) : Allocated (ErrorCode × Exchange) := do
  match ← malloc .request with
  | none => pure (.noMemory, e)
  | some req => do
      match ← malloc .response with
      | none => pure (.noMemory, e)
      | some resp =>
          match task with
          | none => do
              free resp
              free req
              pure (.busy, { e with content := { e.content with task := none } })
          | some i => do
              match ← malloc .url with
              | none => do
                  free req
                  free resp
                  pure (.noMemory, { e with content := { e.content with task := none } })
              | some urlCopy =>
                  pure (.success, ⟨initiated e.content url onSuccess i env,
                    { url := some urlCopy
                      req := some req
                      resp := some resp
                      requestBuffer := e.blocks.requestBuffer }⟩)

/-- `http_client_taskwork`. -/
def httpClientTaskwork (e : Exchange) : Allocated Exchange :=
  let now := e.content.clock 0
  let d : Exchange := ⟨e.content.ticked, e.blocks⟩
  match e.content.state with
  | .initializing => pure d
  | .error => pure { d with content := { d.content with state := .disposing } }
  | .disposing => httpClientDispose d
  | s => if waitsForRetry s ∧ now < e.content.nextRetryAt then pure d else exchangeStep d

/-! ### The calls of the task -/

/-- What holds of a scheduled client between two calls: its pointers fit its state, or it has
been disposed of and only the delivered buffers are left. -/
def TaskSound (e : Exchange) : Prop :=
  FitsWhole false e.content.state e ∨
    e.content.state = .disposing ∧ e.blocks = { delivered := e.blocks.delivered } ∧
      e.blocks.delivered.length = e.content.responses.length

section Task

variable {cost : Kind → ℕ} {e : Exchange}

/-- The blocks that a client leaves behind. -/
theorem all_delivered (l : List Block) : { delivered := l : ClientBlocks }.all = l := by
  have hnone : ResponseBlocks.blocks {} = 0 := rfl
  simp [ClientBlocks.all, listBlocks, hnone]

/-- **The last call** frees everything but the delivered buffers. -/
theorem owns_taskwork_disposing (h : TaskSound e) (hs : e.content.state = .disposing) :
    Owns cost e.blocks.all (httpClientTaskwork e) fun d R =>
      R = d.blocks.delivered ∧ d.content.state = .disposing ∧
        d.blocks = { delivered := d.blocks.delivered } ∧
        d.blocks.delivered.length = d.content.responses.length := by
  obtain ⟨hdisposable, houtput, hhanded⟩ : Disposable e.blocks ∧ e.blocks.output = none ∧
      e.blocks.delivered.length = e.content.responses.length := by
    rcases h with hfits | ⟨-, hblocks, hhanded⟩
    · exact ⟨hfits.disposable, hfits.reader.receiver.unfilled rfl, hfits.reader.receiver.handed⟩
    · refine ⟨?_, by rw [hblocks], hhanded⟩
      rw [hblocks]
      exact ⟨fun _ => ⟨rfl, rfl⟩, fun _ => rfl⟩
  have hdispose : Owns cost (e.blocks.all + 0) (httpClientDispose ⟨e.content.ticked, e.blocks⟩ >>=
      pure) fun d R => R = d.blocks.delivered ∧ d.content.state = .disposing ∧
        d.blocks = { delivered := d.blocks.delivered } ∧
        d.blocks.delivered.length = d.content.responses.length := by
    refine owns_dispose (e := ⟨e.content.ticked, e.blocks⟩) hdisposable (.pure ?_)
    rw [houtput, add_zero]
    exact ⟨all_delivered _, hs, rfl, hhanded⟩
  rw [httpClientTaskwork, hs]
  exact (hdispose.congr (add_zero _).symm).last

/-- **One call of the task** keeps the blocks of the client, unless it ends that of the decoded
body. -/
theorem owns_taskwork (hcost : Pricing cost) (h : TaskSound e) (hbody : ¬ EndsBodyNext e) :
    Owns cost e.blocks.all (httpClientTaskwork e) fun d R => R = d.blocks.all ∧ TaskSound d := by
  by_cases hs : e.content.state = .disposing
  · refine (owns_taskwork_disposing h hs).mono ?_
    rintro d R ⟨rfl, hstate, hblocks, hhanded⟩
    refine ⟨?_, Or.inr ⟨hstate, hblocks, hhanded⟩⟩
    rw [hblocks]
    exact (all_delivered _).symm
  · have hfits : FitsWhole false e.content.state e := by
      rcases h with hfits | ⟨hdisposing, -⟩
      · exact hfits
      · exact absurd hdisposing hs
    have hticked : FitsWhole false e.content.state ⟨e.content.ticked, e.blocks⟩ := hfits.ticked
    have hwaits : Owns cost e.blocks.all
        (pure ⟨e.content.ticked, e.blocks⟩ : Allocated Exchange) fun d R =>
          R = d.blocks.all ∧ TaskSound d := .pure ⟨rfl, Or.inl hticked⟩
    have hworks : Owns cost e.blocks.all (exchangeStep ⟨e.content.ticked, e.blocks⟩) fun d R =>
        R = d.blocks.all ∧ TaskSound d := by
      refine (owns_exchangeStep (e := ⟨e.content.ticked, e.blocks⟩) hcost hticked hbody).mono ?_
      rintro d R ⟨hR, hd⟩
      exact ⟨hR, Or.inl hd⟩
    rw [httpClientTaskwork]
    simp only
    split
    · exact hwaits
    · have hgone : FitsWhole false .disposing
          ⟨{ e.content.ticked with state := .disposing }, e.blocks⟩ :=
        ⟨hticked.reader.change rfl id rfl rfl nofun nofun, nofun, nofun, nofun⟩
      exact .pure ⟨rfl, Or.inl hgone⟩
    · rename_i hdisposing
      exact absurd hdisposing hs
    · split
      · exact hwaits
      · exact hworks

/-- The block of the decoded body is gone, and the client, which has failed, still points to
it. -/
def Dangles (e : Exchange) (h : Heap Kind) : Prop :=
  (e.content.state = .error ∨ e.content.state = .disposing) ∧ Disposable e.blocks ∧
    ∃ x F, e.blocks.decodedBody = some x ∧ x ∉ h.live ∧
      h.live = { e.blocks with decodedBody := none }.all + F

/-- **The call that ends the block** leaves the client with a pointer to nothing. -/
theorem taskwork_endsBody {start h : Heap Kind} (hsound : TaskSound e) (hbody : EndsBodyNext e)
    (hold : Holds cost start e.blocks.all start.live h) :
    ∃ d h', httpClientTaskwork e h = .ok (d, h') ∧ Dangles d h' := by
  have hs : e.content.state = .readingBodyChunked := hbody.1
  have hfits : FitsWhole false e.content.state e := by
    rcases hsound with hfits | ⟨hdisposing, -⟩
    · exact hfits
    · cases hdisposing.symm.trans hs
  obtain ⟨L, log, hlive, -, -⟩ := hold
  obtain ⟨x, hx⟩ := Option.ne_none_iff_exists'.mp hbody.2.2.2
  have hsplit : h.live =
      x ::ₘ ({ e.blocks with decodedBody := none }.all + (L + start.live)) := by
    rw [hlive, ClientBlocks.all_decodedBody, hx, blockOf_some, ← Multiset.singleton_add]
    abel
  have hxlive : x ∈ h.live := by
    rw [hsplit]
    exact Multiset.mem_cons_self _ _
  refine ⟨⟨{ e.content.ticked with state := .error }, e.blocks⟩, h.release x, ?_, Or.inl rfl,
    hfits.disposable, x, L + start.live, hx, h.nodup.notMem_erase, ?_⟩
  · have hstep := step_endsBody (e := ⟨e.content.ticked, e.blocks⟩) hbody hx hxlive
    rw [httpClientTaskwork, hs]
    simp only [waitsForRetry, Bool.false_eq_true, false_and, if_false]
    exact hstep
  · rw [Heap.release_live, hsplit, Multiset.erase_cons_head]

/-- **The disposal frees the block a second time.** -/
theorem Dangles.disposing {h : Heap Kind} (hd : Dangles e h) (hs : e.content.state = .disposing) :
    httpClientTaskwork e h = .error (.pointer e.blocks.decodedBody) := by
  obtain ⟨-, hdisposable, x, F, hx, hgone, hlive⟩ := hd
  have hmisses : Misses x ({ e.blocks with decodedBody := none }.all + 0)
      (httpClientDispose ⟨e.content.ticked, e.blocks⟩ >>= pure) :=
    misses_dispose (e := ⟨e.content.ticked, e.blocks⟩) hdisposable hx
  rw [bind_pure, add_zero] at hmisses
  rw [httpClientTaskwork, hs, hx]
  exact hmisses h F hlive hgone

/-- A client that has failed is disposed of in the next call but one. -/
theorem Dangles.failed {h : Heap Kind} (hd : Dangles e h) (hs : e.content.state = .error) :
    ∃ d, httpClientTaskwork e h = .ok (d, h) ∧ d.content.state = .disposing ∧ Dangles d h := by
  obtain ⟨-, hdisposable, hblock⟩ := hd
  refine ⟨⟨{ e.content.ticked with state := .disposing }, e.blocks⟩, ?_, rfl, Or.inr rfl,
    hdisposable, hblock⟩
  rw [httpClientTaskwork, hs]
  rfl

/-- **The start of a request** on a client without blocks. What a failure costs is the
`HTTP_Request` when `HTTP_Response` is refused. -/
theorem owns_initiate (hcost : Pricing cost) (hprice : cost .response = 1)
    (prior : MaestroCore.Exchange) (url : Bytes) (onSuccess : Bool) (task : Option ℕ)
    (env : Environment) :
    Owns cost 0 (httpClientInitiate url onSuccess task env ⟨prior, {}⟩) fun p R =>
      R = p.2.blocks.all ∧ (p.1 = .success → TaskSound p.2) ∧
        (p.1 ≠ .success → p.2.blocks = {}) := by
  have hfailed : ∀ (code : ErrorCode) (d : MaestroCore.Exchange), code ≠ .success →
      Owns cost 0 (pure (code, ⟨d, {}⟩) : Allocated (ErrorCode × Exchange)) fun p R =>
        R = p.2.blocks.all ∧ (p.1 = .success → TaskSound p.2) ∧
          (p.1 ≠ .success → p.2.blocks = {}) :=
    fun code d hcode => .pure ⟨(all_delivered []).symm, fun h => absurd h hcode, fun _ => rfl⟩
  refine .malloc_free (hcost.other _ (by simp) (by simp)) (fun req => ?_)
    (hfailed _ _ (by simp))
  refine .malloc (fun resp => ?_) ⟨0, {req}, by simp, by rw [hprice]; rfl, hfailed _ _ (by simp)⟩
  rcases task with _ | i
  · exact .free (.free (hfailed _ _ (by simp)))
  · refine .malloc_free (hcost.other _ (by simp) (by simp)) (fun urlCopy => ?_) ?_
    · refine .pure ⟨?_, fun _ => Or.inl ?_, fun h => absurd rfl h⟩
      · have hnone : ResponseBlocks.blocks {} = 0 := rfl
        simp only [ClientBlocks.all, blockOf_none, blockOf_some, listBlocks, hnone,
          Multiset.coe_nil, ← Multiset.singleton_add]
        abel
      · exact ⟨⟨Option.some_ne_none urlCopy, Option.some_ne_none req, Option.some_ne_none resp,
          fun h => absurd rfl h, fun h => absurd rfl h, fun _ => rfl, fun _ => rfl, rfl, rfl, rfl,
          fun _ => rfl, fun _ => rfl⟩, fun _ h => absurd rfl h, fun _ => rfl,
          fun h => absurd h (by simp [initiated])⟩
    · rw [Multiset.cons_swap]
      exact .free (.free (hfailed _ _ (by simp)))

end Task

/-! ### Whole requests -/

/-- What the refusal of a request for memory costs a scheduled request. -/
def taskLeaked : Kind → ℕ
  | .node => 3
  | .response => 1
  | _ => 0

/-- The costs of a scheduled request agree with the parser's. -/
theorem pricing_taskLeaked : Pricing taskLeaked where
  node := rfl
  other := by rintro (_ | _) <;> simp [taskLeaked]

/-- The refusals of a run cost three blocks for each node and one for each response. -/
theorem sum_taskLeaked (log : List Kind) :
    (log.map taskLeaked).sum = 3 * log.count .node + log.count .response := by
  induction log with
  | nil => rfl
  | cons k log ih =>
      rw [List.map_cons, List.sum_cons, ih, List.count_cons, List.count_cons]
      cases k <;> simp [taskLeaked] <;> omega

/-- The heap `h` is `start` with the blocks `P`, up to what the refusals in between have cost. -/
def Leaves (start : Heap Kind) (P : Multiset Block) (h : Heap Kind) : Prop :=
  ∃ L log, h.live = P + L + start.live ∧ h.refused = start.refused ++ log ∧
    L.card = 3 * log.count .node + log.count .response

/-- The blocks a program holds at the end are the ones it leaves. -/
theorem leaves_of_holds {start h : Heap Kind} {P : Multiset Block}
    (hold : Holds taskLeaked start P start.live h) : Leaves start P h := by
  obtain ⟨L, log, hlive, hlog, hcard⟩ := hold
  exact ⟨L, log, hlive, hlog, hcard.trans (sum_taskLeaked log)⟩

section Runs

variable {e d : Exchange} {start h h' : Heap Kind}

/-- **Between two calls** the client holds exactly its blocks, or the block of its decoded body has
been ended. -/
theorem task_kept (hsound : TaskSound e) (hold : Holds taskLeaked start e.blocks.all start.live h)
    (hrun : Reaches (heapStep httpClientTaskwork) (e, h) (d, h')) :
    (TaskSound d ∧ Holds taskLeaked start d.blocks.all start.live h') ∨
      (Dangles d h' ∧ ∃ c g, Reaches (heapStep httpClientTaskwork) (e, h) (c, g) ∧
        EndsBodyNext c) := by
  have hstep : ∀ p q : Exchange × Heap Kind, heapStep httpClientTaskwork p = .ok q →
      (Reaches (heapStep httpClientTaskwork) (e, h) p ∧
        ((TaskSound p.1 ∧ Holds taskLeaked start p.1.blocks.all start.live p.2) ∨
          (Dangles p.1 p.2 ∧ ∃ c g, Reaches (heapStep httpClientTaskwork) (e, h) (c, g) ∧
            EndsBodyNext c))) →
      (Reaches (heapStep httpClientTaskwork) (e, h) q ∧
        ((TaskSound q.1 ∧ Holds taskLeaked start q.1.blocks.all start.live q.2) ∨
          (Dangles q.1 q.2 ∧ ∃ c g, Reaches (heapStep httpClientTaskwork) (e, h) (c, g) ∧
            EndsBodyNext c))) := by
    rintro ⟨c, g⟩ ⟨c', g'⟩ hpq ⟨hreach, hc⟩
    refine ⟨hreach.tail hpq, ?_⟩
    rcases hc with ⟨hsound, hold⟩ | ⟨hdangles, hended⟩
    · by_cases hbody : EndsBodyNext c
      · obtain ⟨x, k, hx, hdangles⟩ := taskwork_endsBody hsound hbody hold
        obtain ⟨rfl, rfl⟩ := Prod.mk.inj (Except.ok.inj (hpq.symm.trans hx))
        exact Or.inr ⟨hdangles, c, g, hreach, hbody⟩
      · obtain ⟨R, ⟨rfl, hsound'⟩, hold'⟩ :=
          hold.step (owns_taskwork pricing_taskLeaked hsound hbody) hpq
        exact Or.inl ⟨hsound', hold'⟩
    · rcases hdangles.1 with hs | hs
      · obtain ⟨x, hx, -, hdangles'⟩ := hdangles.failed hs
        obtain ⟨rfl, rfl⟩ := Prod.mk.inj (Except.ok.inj (hpq.symm.trans hx))
        exact Or.inr ⟨hdangles', hended⟩
      · cases (hdangles.disposing hs).symm.trans hpq
  exact (hrun.invariant hstep ⟨.refl _, Or.inl ⟨hsound, hold⟩⟩).2

/-- A task that ends the block of its decoded body frees it again. -/
theorem task_freed_twice (hsound : TaskSound e)
    (hold : Holds taskLeaked start e.blocks.all start.live h)
    (hrun : Reaches (heapStep httpClientTaskwork) (e, h) (d, h')) (hbody : EndsBodyNext d) :
    ∃ c g o, Reaches (heapStep httpClientTaskwork) (e, h) (c, g) ∧
      httpClientTaskwork c g = .error (.pointer o) := by
  rcases task_kept hsound hold hrun with ⟨hsound, hold⟩ | ⟨hdangles, -⟩
  · obtain ⟨x, k, hx, hdangles⟩ := taskwork_endsBody hsound hbody hold
    have hreach := hrun.tail hx
    rcases hdangles.1 with hs | hs
    · obtain ⟨y, hy, hs', hdangles'⟩ := hdangles.failed hs
      exact ⟨y, k, _, hreach.tail hy, hdangles'.disposing hs'⟩
    · exact ⟨x, k, _, hreach, hdangles.disposing hs⟩
  · have hs : d.content.state = .readingBodyChunked := hbody.1
    rcases hdangles.1 with hs' | hs' <;> cases hs'.symm.trans hs

end Runs

/-- The executable iteration computes the calls of a task up to the disposal. -/
theorem exists_disposed {prior : MaestroCore.Exchange} {url : Bytes} {onSuccess : Bool}
    {task : Option ℕ} {env : Environment} {start : Heap Kind} {n : ℕ}
    {P : Exchange × Heap Kind → Bool}
    (hany : (httpClientInitiate url onSuccess task env ⟨prior, {}⟩ start).toOption.any fun p =>
      p.1.1 = .success &&
        (run (heapStep httpClientTaskwork) n (p.1.2, p.2)).toOption.any fun q =>
          q.1.content.state = .disposing && (httpClientTaskwork q.1 q.2).toOption.any P) :
    ∃ e h d h' d' h'',
      httpClientInitiate url onSuccess task env ⟨prior, {}⟩ start = .ok ((.success, e), h) ∧
      Reaches (heapStep httpClientTaskwork) (e, h) (d, h') ∧ d.content.state = .disposing ∧
      httpClientTaskwork d h' = .ok (d', h'') ∧ P (d', h'') = true := by
  cases hinitiate : httpClientInitiate url onSuccess task env ⟨prior, {}⟩ start with
  | error e =>
      rw [hinitiate] at hany
      cases hany
  | ok p =>
      obtain ⟨⟨code, e⟩, h⟩ := p
      rw [hinitiate] at hany
      obtain ⟨hcode, hany⟩ := Bool.and_eq_true_iff.mp hany
      obtain rfl : code = .success := of_decide_eq_true hcode
      obtain ⟨⟨d, h'⟩, hrun, hP⟩ := exists_run_of_any hany
      obtain ⟨hs, hP⟩ := Bool.and_eq_true_iff.mp hP
      cases hlast : httpClientTaskwork d h' with
      | error f =>
          simp only [hlast] at hP
          cases hP
      | ok q =>
          simp only [hlast] at hP
          exact ⟨e, h, d, h', q.1, q.2, rfl, reaches_of_run hrun, of_decide_eq_true hs, hlast, hP⟩

end MaestroCore.Allocating
