import MaestroCore.WholeCall
import MaestroCore.Lifecycle

/-!
# The Pacing of a Scheduled Request

A scheduled client that cannot send its whole request at once tries again later, and its loop
may call it as often as it likes in between. After every write that does not finish the request
`http_client_worktask_send_request` puts `next_retry_at` at least 100 milliseconds ahead, and
`http_client_taskwork` does not call it before that.

## Main results

* `writes_paced`: by a given time a client has made at most one write for every 100
  milliseconds since it was started, and one more, whatever becomes of the writes.
-/

open CLang Run

namespace MaestroCore

/-- The next call of `http_client_taskwork` calls `http_client_worktask_send_request`. -/
def writesNow (e : Exchange) : Bool := e.state = .sendingRequest ∧ e.nextRetryAt ≤ e.clock 0

/-- The number of the calls of `http_client_worktask_send_request` among the next `n` calls of
`http_client_taskwork`. -/
def writeCalls : ℕ → Exchange → ℕ
  | 0, _ => 0
  | n + 1, e =>
      (if writesNow e then 1 else 0) +
        match httpClientTaskwork e with
        | .ok d => writeCalls n d
        | .error _ => 0

/-- A clock that does not run backwards, and that is so far from its end that no delay wraps
around. -/
structure Steady (clock : ℕ → UInt64) : Prop where
  monotone : ∀ i j, i ≤ j → clock i ≤ clock j
  bounded : ∀ k, (clock k).toNat + 1000 < 2 ^ 64

section Pacing

variable {e d : Exchange} {n : ℕ}

/-- A steady clock is steady from any reading on. -/
theorem Steady.tail {clock : ℕ → UInt64} (h : Steady clock) (i : ℕ) :
    Steady fun k => clock (k + i) :=
  ⟨fun j k hjk => h.monotone _ _ (by omega), fun k => h.bounded _⟩

/-- Later readings of a steady clock are not smaller. -/
theorem Steady.toNat_le {clock : ℕ → UInt64} (h : Steady clock) {i j : ℕ} (hij : i ≤ j) :
    (clock i).toNat ≤ (clock j).toNat :=
  h.monotone i j hij

/-- The end of a delay. -/
theorem Steady.toNat_add {clock : ℕ → UInt64} (h : Steady clock) (i : ℕ) {delay : UInt64}
    (hdelay : delay ≤ 1000) : (clock i + delay).toNat = (clock i).toNat + delay.toNat := by
  have hbound := h.bounded i
  have hle : delay.toNat ≤ 1000 := hdelay
  rw [UInt64.toNat_add]
  omega

/-- Every call reads the clock, so that later readings are left. -/
theorem reads_taskwork (h : httpClientTaskwork e = .ok d) :
    ∃ j, d.clock = fun k => e.clock (k + (j + 1)) := by
  cases taskwork_cases h with
  | waits _ | fails _ | disposes _ => exact ⟨0, rfl⟩
  | works _ hwork =>
      obtain ⟨j, hj⟩ := reads_step hwork
      exact ⟨j, hj⟩

/-- A call of the work function leaves a steady clock steady, and not earlier. -/
theorem steady_taskwork (hclock : Steady e.clock) (h : httpClientTaskwork e = .ok d) :
    Steady d.clock ∧ (e.clock 0).toNat ≤ (d.clock 0).toNat := by
  obtain ⟨j, hj⟩ := reads_taskwork h
  rw [hj]
  exact ⟨hclock.tail _, hclock.toNat_le (Nat.zero_le _)⟩

/-- The clock does not go back over a run. -/
theorem clock_le_of_run (hclock : Steady e.clock) (h : run httpClientTaskwork n e = .ok d) :
    (e.clock 0).toNat ≤ (d.clock 0).toNat := by
  induction n generalizing e with
  | zero =>
      obtain rfl := Except.ok.inj h
      exact Nat.le_refl _
  | succ n ih =>
      obtain ⟨x, hstep, hrun⟩ := exists_step_of_run h
      obtain ⟨hsteady, hle⟩ := steady_taskwork hclock hstep
      exact Nat.le_trans hle (ih hsteady hrun)

/-- A write that does not finish the request is not repeated for 100 milliseconds. -/
theorem written_delays {w : WriteResult} (h : (httpClientWritten e w).1 = .sendingRequest) :
    ∃ delay : UInt64, 100 ≤ delay ∧ delay ≤ 1000 ∧
      (httpClientWritten e w).2.nextRetryAt = e.clock 0 + delay := by
  match w with
  | .wrote 0 => exact ⟨1000, by decide, UInt64.le_refl _, rfl⟩
  | .wrote (k + 1) =>
      simp only [httpClientWritten] at h ⊢
      split at h
      · cases h
      · rename_i hpart
        rw [if_neg hpart]
        exact ⟨100, UInt64.le_refl _, by decide, rfl⟩
  | .failed errno =>
      simp only [httpClientWritten] at h ⊢
      split at h
      · rename_i htransient
        rw [if_pos htransient]
        exact ⟨100, UInt64.le_refl _, by decide, rfl⟩
      · rename_i hgood
        rw [if_neg hgood]
        split at h
        · rename_i hretry
          rw [if_pos hretry]
          exact ⟨1000, by decide, UInt64.le_refl _, rfl⟩
        · cases h

/-- A step of a client that sends is the end of one write. -/
theorem exists_written (hs : e.state = .sendingRequest) (h : exchangeStep e = .ok d) :
    ∃ c w, d = { (httpClientWritten { e with connection := c } w).2 with
      state := (httpClientWritten { e with connection := c } w).1 } := by
  obtain ⟨s, x, hwork, rfl⟩ := work_of_exchangeStep h
  simp only [exchangeWork, hs, httpClientWorktaskSendRequest] at hwork
  split at hwork
  · cases hwork
  · have hwritten := Except.ok.inj hwork
    exact ⟨_, _, by rw [hwritten]⟩

/-- A send step that stays in the state sets the next try between 100 and 1000 ms ahead. -/
theorem sending_delays (hs : e.state = .sendingRequest) (h : exchangeStep e = .ok d)
    (hd : d.state = .sendingRequest) :
    ∃ delay : UInt64, 100 ≤ delay ∧ delay ≤ 1000 ∧ d.nextRetryAt = e.clock 0 + delay := by
  obtain ⟨c, w, rfl⟩ := exists_written hs h
  exact written_delays (e := { e with connection := c }) hd

/-- Before the request is sent. -/
def unsent : HTTPClientState → Bool
  | .connecting | .waitingConnect | .buildingRequest => true
  | _ => false

/-- A client that is past sending stays past it. -/
theorem past_taskwork (hs : unsent e.state = false) (hs' : e.state ≠ .sendingRequest)
    (h : httpClientTaskwork e = .ok d) :
    unsent d.state = false ∧ d.state ≠ .sendingRequest := by
  cases taskwork_cases h with
  | waits _ | disposes _ => exact ⟨hs, hs'⟩
  | fails _ => exact ⟨rfl, by simp⟩
  | works _ hwork =>
      have hleads : e.state.leadsTo d.state = true := exchangeStep_leadsTo (e := e.ticked) hwork
      revert hs hs' hleads
      cases e.state <;> cases d.state <;>
        simp [unsent, HTTPClientState.leadsTo, HTTPClientState.reading]

/-- A client past its request writes no more. -/
theorem writeCalls_past (hs : unsent e.state = false) (hs' : e.state ≠ .sendingRequest) :
    writeCalls n e = 0 := by
  induction n generalizing e with
  | zero => rfl
  | succ n ih =>
      have hnow : writesNow e = false := by simp [writesNow, hs']
      rw [writeCalls, hnow, if_neg (by simp), Nat.zero_add]
      cases hstep : httpClientTaskwork e with
      | error f => rfl
      | ok d =>
          obtain ⟨hd, hd'⟩ := past_taskwork hs hs' hstep
          exact ih hd hd'

/-- One call while the request is sent: it waits, or it writes and the next write is far
enough away, or it was the last write. -/
theorem sending_taskwork (hclock : Steady e.clock) (hs : e.state = .sendingRequest)
    (h : httpClientTaskwork e = .ok d) :
    writesNow e = false ∧ d.state = .sendingRequest ∧ d.nextRetryAt = e.nextRetryAt ∨
      e.nextRetryAt.toNat ≤ (e.clock 0).toNat ∧
        (d.state = .sendingRequest ∧ (e.clock 0).toNat + 100 ≤ d.nextRetryAt.toNat ∨
          unsent d.state = false ∧ d.state ≠ .sendingRequest) := by
  have hworks : blockingWorks e.state = true := by rw [hs]; rfl
  by_cases hwait : Waiting e
  · rw [taskwork_waiting hworks hwait] at h
    obtain rfl := Except.ok.inj h
    refine Or.inl ⟨?_, hs, rfl⟩
    simp only [writesNow, hs, true_and, decide_eq_false_iff_not]
    exact UInt64.not_le.mpr hwait.2
  · rw [taskwork_awake hworks hwait] at h
    have hdue : e.nextRetryAt ≤ e.clock 0 :=
      UInt64.not_lt.mp fun hlt => hwait ⟨by rw [hs]; rfl, hlt⟩
    refine Or.inr ⟨hdue, ?_⟩
    by_cases hd : d.state = .sendingRequest
    · obtain ⟨delay, hmin, hmax, hnext⟩ := sending_delays (e := e.ticked) hs h hd
      have hmin' : 100 ≤ delay.toNat := hmin
      have hnow : (e.ticked.clock 0 + delay).toNat = (e.clock 1).toNat + delay.toNat :=
        hclock.toNat_add 1 hmax
      have hle := hclock.toNat_le (Nat.zero_le 1)
      rw [hnext, hnow]
      exact Or.inl ⟨hd, by omega⟩
    · have hleads : e.state.leadsTo d.state = true := exchangeStep_leadsTo (e := e.ticked) h
      refine Or.inr ⟨?_, hd⟩
      rw [hs] at hleads
      revert hleads hd
      cases d.state <;> simp [unsent, HTTPClientState.leadsTo]

/-- While the request is sent, with `t` a time before the next write and at most 100
milliseconds ahead. -/
theorem sending_paced {t : ℕ} (hclock : Steady e.clock) (hs : e.state = .sendingRequest)
    (hnext : t ≤ e.nextRetryAt.toNat) (ht : t ≤ (e.clock 0).toNat + 100)
    (h : run httpClientTaskwork n e = .ok d) :
    100 * writeCalls n e + t ≤ (d.clock 0).toNat + 100 := by
  induction n generalizing e t with
  | zero =>
      obtain rfl := Except.ok.inj h
      simpa [writeCalls] using ht
  | succ n ih =>
      obtain ⟨x, hstep, hrun⟩ := exists_step_of_run h
      obtain ⟨hsteady, hle⟩ := steady_taskwork hclock hstep
      have hlast := clock_le_of_run hsteady hrun
      rw [writeCalls, hstep]
      dsimp only
      obtain ⟨hnow, hx, hsame⟩ | ⟨hdue, ⟨hx, hfar⟩ | ⟨hx, hx'⟩⟩ := sending_taskwork hclock hs hstep
      · have hrest := @ih x t hsteady hx (by rw [hsame]; exact hnext) (by omega) hrun
        rw [hnow, if_neg (by simp)]
        omega
      · -- the write takes 100 milliseconds of the time up to the next one
        have hrest := @ih x (t + 100) hsteady hx (by omega) (by omega) hrun
        split <;> omega
      · rw [writeCalls_past hx hx']
        split <;> omega

/-- Before the request is sent, with `t` a time that has passed. -/
theorem unsent_paced {t : ℕ} (hclock : Steady e.clock) (hs : unsent e.state = true)
    (hnext : t ≤ e.nextRetryAt.toNat) (ht : t ≤ (e.clock 0).toNat)
    (h : run httpClientTaskwork n e = .ok d) :
    100 * writeCalls n e + t ≤ (d.clock 0).toNat + 100 := by
  induction n generalizing e with
  | zero =>
      obtain rfl := Except.ok.inj h
      simp only [writeCalls]
      omega
  | succ n ih =>
      obtain ⟨x, hstep, hrun⟩ := exists_step_of_run h
      obtain ⟨hsteady, hle⟩ := steady_taskwork hclock hstep
      have hlast := clock_le_of_run hsteady hrun
      have hnow : writesNow e = false := by
        revert hs
        rw [writesNow]
        cases e.state <;> simp [unsent]
      rw [writeCalls, hstep, hnow, if_neg (by simp), Nat.zero_add]
      dsimp only
      cases taskwork_cases hstep with
      | waits _ => exact ih hsteady hs hnext (by omega) hrun
      | fails hs' | disposes hs' =>
          rw [hs'] at hs
          cases hs
      | works _ hwork =>
          have hnext' : t ≤ x.nextRetryAt.toNat := by
            rcases delays_step hwork with ⟨hsame, -⟩ | ⟨delay, hmax, hnew, -⟩
            · rw [hsame]
              exact hnext
            · have hnow : (e.ticked.clock 0 + delay).toNat = (e.clock 1).toNat + delay.toNat :=
                hclock.toNat_add 1 hmax
              have hfirst := hclock.toNat_le (Nat.zero_le 1)
              rw [hnew]
              omega
          by_cases hx : unsent x.state = true
          · exact ih hsteady hx hnext' (by omega) hrun
          · by_cases hx' : x.state = .sendingRequest
            · exact sending_paced hsteady hx' hnext' (by omega) hrun
            · rw [writeCalls_past (by simpa using hx) hx']
              omega

end Pacing

/-- **Writes are paced.** For every scheduled request, on a clock that does not run backwards, and
whatever the transport makes of its writes: after any number of calls of `http_client_taskwork`
the client has been let write at most once for every 100 milliseconds since it was started, and
once more. -/
theorem writes_paced (prior : Exchange) (url : Bytes) (onSuccess : Bool) (task : ℕ)
    (env : Environment) (n : ℕ) (e : Exchange) (hclock : Steady env.clock)
    (h : run httpClientTaskwork n (initiated prior url onSuccess task env) = .ok e) :
    100 * writeCalls n (initiated prior url onSuccess task env) ≤
      (e.clock 0).toNat - (env.clock 0).toNat + 100 := by
  have hfirst := hclock.toNat_le (Nat.zero_le 1)
  have hpaced := unsent_paced (hclock.tail 1) rfl (Nat.le_refl (env.clock 0).toNat) hfirst h
  have hlast := clock_le_of_run (hclock.tail 1) h
  have hbegan : (env.clock 0).toNat ≤ (e.clock 0).toNat := Nat.le_trans hfirst hlast
  omega

/-- A server that takes one byte at a time, on a clock that jumps once. -/
def slowServer : Environment :=
  reachableServer [] [.wrote 1, .wrote 1] fun k => if k < 6 then 1000 else 1200

/-- The slow server's clock is steady. -/
theorem steady_slowServer : Steady slowServer.clock := by
  refine ⟨fun i j hij => ?_, fun k => ?_⟩ <;> simp only [slowServer, reachableServer]
  · split <;> split <;> first | exact UInt64.le_refl _ | decide | omega
  · split <;> decide

/-- Five calls in which the client writes, waits and writes again. -/
theorem writes_paced_slowServer :
    ∃ e, run httpClientTaskwork 5 (initiated zeroed (ascii "http://h/") true 0 slowServer) = .ok e ∧
      e.clock 0 = 1200 ∧
      100 * writeCalls 5 (initiated zeroed (ascii "http://h/") true 0 slowServer) ≤
        (e.clock 0).toNat - (slowServer.clock 0).toNat + 100 := by
  have hany : (run httpClientTaskwork 5
      (initiated zeroed (ascii "http://h/") true 0 slowServer)).toOption.any
      (fun e => e.clock 0 = 1200) = true := by decide +kernel
  obtain ⟨e, hrun, he⟩ := exists_run_of_any hany
  exact ⟨e, hrun, of_decide_eq_true he, writes_paced _ _ _ _ _ _ _ steady_slowServer hrun⟩

end MaestroCore
