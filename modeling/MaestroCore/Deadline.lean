import MaestroCore.Timeout
import MaestroCore.WholeCall

/-!
# The Deadline of a Blocking Call

The loop of `http_blocking_work` looks at the clock before every worker call. Between two looks
a worker may call `recv`, `send` or a step of the handshake, on a socket that
`tcp_client_blocking_init` has put into blocking mode and without a timeout: there the call waits
for as long as the peer gives no answer.

So, on a clock on which the check works, the call ends with its deadline whatever the answers of
the transport are, an endless trickle of bytes or writes that accept nothing, but not when there
is no answer.

## Main results

* `ends_or_waits`: a call whose time is up from the `n`th look at the clock on has ended after
  `n + 1` iterations, or waits.
* `call_ends_or_waits`: so it has when the `n`th reading of a clock below `2 ^ 31` lies beyond
  the timeout, and it returns `ERR_TIMEOUT` only when the time has really passed.
-/

open CLang Run

namespace MaestroCore

/-! ### Waiting for the transport -/

/-- The TLS handshake has no end yet: one more answer would complete the connection. -/
def Exchange.awaitsHandshake (e : Exchange) : Bool :=
  let answered := { e with
    connection := { e.connection with handshake := e.connection.handshake ++ [.done] } }
  (httpClientWorktaskConnecting e).1 ≠ .buildingRequest ∧
    (httpClientWorktaskConnecting answered).1 = .buildingRequest

/-- There is something to send, and nothing is said about what becomes of it. -/
def Exchange.awaitsWrite (e : Exchange) : Bool :=
  let remaining := toSize (e.requestLength - e.bytesSent)
  e.connection.writes = [] ∧ 0 < remaining ∧
    remaining ≤ ((e.requestBuffer.getD []).drop e.bytesSent).length

/-- Nothing more arrives, and the worker reads: otherwise it would leave its state. -/
def Exchange.awaitsRead (e : Exchange) : Bool :=
  e.transport.incoming = [] &&
    match httpClientWork e.toHTTPClient with
    | .ok (s, _) => s = e.state
    | .error _ => false

/-- The worker of the state asks the transport for an answer that does not come. -/
def Exchange.awaits (e : Exchange) : Bool :=
  match e.state with
  | .connecting => e.awaitsHandshake
  | .sendingRequest => e.awaitsWrite
  | .readingFirstline | .readingHeaders | .decipherChonkiness | .readingBodyChunked
  | .readingBody => e.awaitsRead
  | _ => false

/-- The call is in its loop, within its time, and waits for the transport. -/
def BlockingCall.Waits (b : BlockingCall) : Prop :=
  b.result = none ∧ b.expired 0 = false ∧ b.exchange.awaits = true

instance (b : BlockingCall) : Decidable b.Waits :=
  inferInstanceAs (Decidable (_ ∧ _ ∧ _))

/-- One iteration of the loop on a socket in blocking mode: a call that waits does not come out of
its worker. -/
def httpBlockingIteration (b : BlockingCall) : Except Fault BlockingCall :=
  if b.Waits then .ok b else httpBlockingStep b

/-- From the `n`th look at the clock on, the time of the call has run out. -/
def BlockingCall.Expires (b : BlockingCall) (n : ℕ) : Prop := ∀ k, n ≤ k → b.expired k = true

section Deadline

variable {b d : BlockingCall} {n : ℕ}

/-- Every iteration that goes on has looked at the clock at least once. -/
theorem BlockingCall.Expires.step (h : b.Expires (n + 1)) (hstep : httpBlockingStep b = .ok d) :
    d.result ≠ none ∨ d.Expires n := by
  cases blockingStep_cases hstep with
  | returned hres => exact Or.inl hres
  | timeout _ _ | success _ _ _ | io _ _ _ _ => exact Or.inl (by simp [BlockingCall.return])
  | @work e _ _ _ he =>
      obtain ⟨j, hj⟩ := reads_step he
      refine Or.inr fun k hk => ?_
      rw [BlockingCall.expired]
      simp only [hj]
      exact h (k + j + 1) (by omega)

/-- A call that waits stays where it is. -/
theorem iteration_of_waits (h : b.Waits) : httpBlockingIteration b = .ok b := if_pos h

/-- A call that has returned stays as it is. -/
theorem iteration_of_returned (hres : b.result ≠ none) : httpBlockingIteration b = .ok b := by
  rw [httpBlockingIteration, if_neg fun h => hres h.1]
  exact blockingStep_returned hres

/-- **A call ends** with the first look at the clock after its time has run out, unless it waits
for the transport. -/
theorem ends_or_waits (h : b.Expires n) (hd : run httpBlockingIteration (n + 1) b = .ok d) :
    d.result ≠ none ∨ d.Waits := by
  induction n generalizing b with
  | zero =>
      by_cases hres : b.result = none
      · have hlate := h 0 le_rfl
        have hgoes : ¬ b.Waits := fun hw => by simp [hw.2.1] at hlate
        rw [run, httpBlockingIteration, if_neg hgoes, blockingStep_timeout hres hlate] at hd
        rw [← Except.ok.inj hd]
        exact Or.inl (by simp [BlockingCall.return])
      · rw [run_of_fixed (iteration_of_returned hres)] at hd
        exact Or.inl (by rwa [← Except.ok.inj hd])
  | succ n ih =>
      by_cases hw : b.Waits
      · rw [run_of_fixed (iteration_of_waits hw)] at hd
        exact Or.inr (by rwa [← Except.ok.inj hd])
      · obtain ⟨c, hstep, hrun⟩ := exists_step_of_run hd
        rw [httpBlockingIteration, if_neg hw] at hstep
        rcases h.step hstep with hres | hexp
        · rw [run_of_fixed (iteration_of_returned hres)] at hrun
          exact Or.inl (by rwa [← Except.ok.inj hrun])
        · exact ih hexp hrun

/-- A call that is still in its loop reads the clock of its environment, and the one that returns
`ERR_TIMEOUT` has found there that its time had run out. -/
structure Clocked (timeoutMs : ℤ) (clock : ℕ → UInt64) (b : BlockingCall) : Prop where
  limit : b.timeoutMs = timeoutMs
  began : b.start = clock 0
  reads : b.result = none → ∃ j, b.exchange.clock = fun k => clock (k + j + 1)
  timeout : b.result = some .timeout → ∃ k, timedOut timeoutMs (clock 0) (clock (k + 1)) = true

/-- One step of the loop reads the clock of the environment. -/
theorem Clocked.step {timeoutMs : ℤ} {clock : ℕ → UInt64} (h : Clocked timeoutMs clock b)
    (hstep : httpBlockingStep b = .ok d) : Clocked timeoutMs clock d := by
  cases blockingStep_cases hstep with
  | returned _ => exact h
  | success _ _ _ | io _ _ _ _ =>
      exact ⟨h.limit, h.began, fun hn => (by cases hn), fun ht => (by cases ht)⟩
  | timeout hres htime =>
      refine ⟨h.limit, h.began, fun hn => (by cases hn), fun _ => ?_⟩
      obtain ⟨j, hj⟩ := h.reads hres
      rw [BlockingCall.expired, h.limit, h.began, hj] at htime
      exact ⟨0 + j, htime⟩
  | @work e hres _ _ he =>
      refine ⟨h.limit, h.began, fun _ => ?_, fun ht => ?_⟩
      · obtain ⟨j, hj⟩ := h.reads hres
        obtain ⟨i, hi⟩ := reads_step he
        refine ⟨j + i + 1, ?_⟩
        rw [hi]
        funext k
        have hshift := congrFun hj (k + i + 1)
        rw [show k + (j + i + 1) + 1 = k + i + 1 + j + 1 by omega]
        exact hshift
      · cases hres.symm.trans ht

/-- One iteration of the loop reads the clock of the environment. -/
theorem Clocked.iteration {timeoutMs : ℤ} {clock : ℕ → UInt64} (h : Clocked timeoutMs clock b)
    (hstep : httpBlockingIteration b = .ok d) : Clocked timeoutMs clock d := by
  rw [httpBlockingIteration] at hstep
  split at hstep
  · exact Except.ok.inj hstep ▸ h
  · exact h.step hstep

end Deadline

/-- The first state of a call reads the clock of its environment. -/
theorem clocked_blockingWork (url : Bytes) (method : HTTPMethod) (input : Option HTTPInput)
    (out : Option HTTPData) (timeoutMs : ℤ) (env : Environment) :
    Clocked timeoutMs env.clock (httpBlockingWork url method input out timeoutMs env) := by
  have hres := (loopStart_blockingWork url method input out timeoutMs env).result
  refine ⟨rfl, ?_, fun _ => ⟨0, ?_⟩, fun ht => by cases hres.symm.trans ht⟩ <;>
    rcases input with _ | ⟨_ | addr, size, fits⟩
  all_goals try rfl
  all_goals
    by_cases hsize : 0 < size <;> simp only [httpBlockingWork, hsize, if_true, if_false] <;> rfl

/-- The check on readings below `2 ^ 31`. -/
theorem timedOut_iff {timeoutMs : ℤ} {start now : UInt64} (hpos : 0 < timeoutMs)
    (hint : timeoutMs ≤ intMax) (hle : start ≤ now) (hlt : now.toNat < 2 ^ 31) :
    timedOut timeoutMs start now = true ↔ start.toNat + timeoutMs < now.toNat := by
  have hle' : start.toNat ≤ now.toNat := hle
  have hreading : toInt now.toNat = now.toNat := toInt_eq_self hlt
  have hsize : (toSize timeoutMs : ℤ) = timeoutMs := by
    rw [toSize]
    rw [intMax] at hint
    omega
  have hdiff : (toSize ((now.toNat : ℤ) - start.toNat) : ℤ) = now.toNat - start.toNat := by
    rw [toSize]
    omega
  rw [timedOut, decide_eq_true_eq, hreading, ← Nat.cast_lt (α := ℤ), hsize, hdiff]
  omega

/-- **A call ends by its deadline, or waits for the transport.** For every call with a timeout,
on a clock that does not run backwards and reads less than `2 ^ 31` milliseconds: when the reading
of the `n`th iteration lies beyond the timeout, the call has ended after it, or it waits in a call
of the transport that gives no answer and does not look at the clock any more, unless a worker has
run into a fault. And when the call returns `ERR_TIMEOUT`, some reading lay beyond the timeout. -/
theorem call_ends_or_waits (r : BlockingRequest) (out : Option HTTPData) (timeoutMs : ℤ)
    (env : Environment) (hpos : 0 < timeoutMs) (hint : timeoutMs ≤ intMax)
    (hmono : ∀ i j, i ≤ j → env.clock i ≤ env.clock j)
    (hlt : ∀ k, (env.clock k).toNat < 2 ^ 31) :
    (∀ n b, (env.clock 0).toNat + timeoutMs < (env.clock (n + 1)).toNat →
      run httpBlockingIteration (n + 1) (r.call out timeoutMs env) = .ok b →
        b.result ≠ none ∨ b.Waits ∧ ∀ m, run httpBlockingIteration m b = .ok b) ∧
    ∀ b, Reaches httpBlockingIteration (r.call out timeoutMs env) b → b.result = some .timeout →
      ∃ k, (env.clock 0).toNat + timeoutMs < (env.clock (k + 1)).toNat := by
  have hcheck : ∀ k, timedOut timeoutMs (env.clock 0) (env.clock (k + 1)) = true ↔
      (env.clock 0).toNat + timeoutMs < (env.clock (k + 1)).toNat := fun k =>
    timedOut_iff hpos hint (hmono 0 (k + 1) (Nat.zero_le _)) (hlt _)
  cases hurl : r.loopUrl out with
  | none =>
      rw [call_of_loopUrl_none timeoutMs env hurl]
      have hfix : httpBlockingIteration (refused out timeoutMs env) =
          .ok (refused out timeoutMs env) := iteration_of_returned (by simp [refused])
      refine ⟨fun n b _ hrun => Or.inl ?_, fun b hrun hres => ?_⟩
      · rw [(reaches_of_run hrun).eq_of_fixed hfix]
        simp [refused]
      · rw [hrun.eq_of_fixed hfix] at hres
        cases hres
  | some url =>
      obtain ⟨method, input, data, heq⟩ := call_of_loopUrl_some timeoutMs env hurl
      rw [heq]
      refine ⟨fun n b hn hrun => ?_, fun b hrun hres => ?_⟩
      · refine (ends_or_waits (fun k hk => ?_) hrun).imp_right
          fun hw => ⟨hw, run_of_fixed (iteration_of_waits hw)⟩
        rw [expired_blockingWork, hcheck]
        have hlater : (env.clock (n + 1)).toNat ≤ (env.clock (k + 1)).toNat :=
          hmono (n + 1) (k + 1) (by omega)
        omega
      · have hclocked := hrun.invariant (fun _ _ hxy hx => Clocked.iteration hx hxy)
          (clocked_blockingWork url method input data timeoutMs env)
        obtain ⟨k, hk⟩ := hclocked.timeout hres
        exact ⟨k, (hcheck k).mp hk⟩

/-- A clock that advances by 10 ms with every reading, up to 1 s. -/
def tickingClock (k : ℕ) : UInt64 := UInt64.ofNat (10 * min k 100)

/-- A server that accepts the request, sends so many bytes one by one, and says nothing more. -/
def tricklingServer (n : ℕ) : Environment :=
  reachableServer (List.replicate n (.data ⟨ascii "H", by decide⟩)) [.wrote 1000] tickingClock

/-- The ticking clock in milliseconds, which stands still after a second. -/
theorem tickingClock_toNat (k : ℕ) : (tickingClock k).toNat = 10 * min k 100 := by
  rw [tickingClock, UInt64.toNat_ofNat']
  omega

/-- The ticking clock does not go back. -/
theorem tickingClock_mono (i j : ℕ) (h : i ≤ j) : tickingClock i ≤ tickingClock j := by
  rw [UInt64.le_iff_toNat_le, tickingClock_toNat, tickingClock_toNat]
  omega

/-- A call with a timeout of 100 ms to a server that sends a byte every 10 ms ends in the eleventh
iteration. When the server falls silent after two bytes the call waits. -/
theorem trickling_call_ends :
    (∃ b, run httpBlockingIteration 11
        (BlockingRequest.call (.get (some (ascii "http://h/"))) (some {}) 100
          (tricklingServer 50)) = .ok b ∧ b.result ≠ none) ∧
      ∃ b, run httpBlockingIteration 11
        (BlockingRequest.call (.get (some (ascii "http://h/"))) (some {}) 100
          (tricklingServer 2)) = .ok b ∧ b.result = none ∧
        ∀ m, run httpBlockingIteration m b = .ok b := by
  have hends := fun n => (call_ends_or_waits (.get (some (ascii "http://h/"))) (some {}) 100
    (tricklingServer n) (by decide) (by decide) tickingClock_mono
    fun k => (tickingClock_toNat k).trans_lt (by omega)).1 10
  have hlate : (tickingClock 0).toNat + (100 : ℤ) < (tickingClock (10 + 1)).toNat := by
    rw [tickingClock_toNat, tickingClock_toNat]
    omega
  constructor
  · obtain ⟨b, hrun, hb⟩ : ∃ b, run httpBlockingIteration 11
        (BlockingRequest.call (.get (some (ascii "http://h/"))) (some {}) 100
          (tricklingServer 50)) = .ok b ∧ (¬ b.Waits : Bool) :=
      exists_run_of_any (by decide +kernel)
    exact ⟨b, hrun, (hends 50 b hlate hrun).resolve_right fun h => of_decide_eq_true hb h.1⟩
  · obtain ⟨b, hrun, hb⟩ : ∃ b, run httpBlockingIteration 11
        (BlockingRequest.call (.get (some (ascii "http://h/"))) (some {}) 100
          (tricklingServer 2)) = .ok b ∧ (b.result = none : Bool) :=
      exists_run_of_any (by decide +kernel)
    have hnone := of_decide_eq_true hb
    exact ⟨b, hrun, hnone, ((hends 2 b hlate hrun).resolve_left fun h => h hnone).2⟩

end MaestroCore
