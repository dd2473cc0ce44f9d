import MaestroCore.Clients
import MaestroCore.WholeCall

/-!
# The Main Loop

A program that has started its requests calls `scheduler_work` as long as the scheduler counts
a task. Each sweep calls every client once. A client that waits for the time of its next retry
only looks at the clock; any other call takes it one step along, and a client that is at its end
disposes of itself and gives up its slot.

How many steps there are is known from the blocking call that is given the same answers by the
transport; a socket that is still connecting adds one for each time it is asked. How many calls
are spent waiting is known from the clock: no delay is longer than a second.

## Main results

* `Course.of_run`: the steps of a scheduled client are those of the blocking call.
* `sweep_within`: a sweep takes every client one call along.
* `main_loop_ends`: the loop ends, and every client has delivered what its call returns.
-/

open CLang Run Traces

namespace MaestroCore

/-! ### The steps of a client -/

/-- The client has delivered the responses, has sent the bytes, and disposes of itself when it is
called. -/
structure Ended (responses : List Bytes) (sent : Bytes) (e : Exchange) : Prop where
  state : e.state = .disposing
  responses : e.responses = responses
  sent : e.connection.sent = sent

/-- The client comes to this end within `m` calls in which it does not wait, however its clock
reads. -/
def Course (responses : List Bytes) (sent : Bytes) : ℕ → Exchange → Prop
  | 0, e => Ended responses sent e
  | m + 1, e => Ended responses sent e ∨ e.state ≠ .disposing ∧
      ∀ clock, ¬ Waiting { e with clock := clock } →
        ∃ d, httpClientTaskwork { e with clock := clock } = .ok d ∧ Course responses sent m d

section Course

variable {responses : List Bytes} {sent : Bytes} {m n : ℕ} {e : Exchange} {b d : BlockingCall}

/-- A client at its end needs no more calls. -/
theorem Ended.course (h : Ended responses sent e) : Course responses sent m e := by
  cases m with
  | zero => exact h
  | succ m => exact Or.inl h

/-- The course of a client does not depend on its clock. -/
theorem Course.clock (h : Course responses sent m e) (clock : ℕ → UInt64) :
    Course responses sent m { e with clock := clock } := by
  cases m with
  | zero => exact ⟨h.state, h.responses, h.sent⟩
  | succ m => exact h.imp (fun h => ⟨h.state, h.responses, h.sent⟩) id

/-- More calls do no harm. -/
theorem Course.mono (h : Course responses sent m e) (hle : m ≤ n) :
    Course responses sent n e := by
  induction m generalizing n e with
  | zero => exact Ended.course h
  | succ m ih =>
      obtain ⟨n, rfl⟩ := Nat.exists_eq_add_of_lt hle
      rcases h with hended | ⟨hs, hstep⟩
      · exact hended.course
      · refine Or.inr ⟨hs, fun clock hawake => ?_⟩
        obtain ⟨d, hd, hcourse⟩ := hstep clock hawake
        exact ⟨d, hd, ih hcourse (Nat.le_add_right m n)⟩

/-- The states in which a client waits are states of work. -/
theorem Waiting.works (h : Waiting e) : blockingWorks e.state = true := by
  obtain ⟨hs, -⟩ := h
  cases hcase : e.state <;> first | rfl | simp [hcase, waitsForRetry] at hs

/-- A client on its course is at its end, waits, or takes one of its steps. -/
theorem Course.step (h : Course responses sent m e) :
    Ended responses sent e ∨ e.state ≠ .disposing ∧
      (Waiting e ∧ httpClientTaskwork e = .ok e.ticked ∨
        ∃ k d, m = k + 1 ∧ httpClientTaskwork e = .ok d ∧ ¬ Waiting e ∧
          Course responses sent k d) := by
  cases m with
  | zero => exact Or.inl h
  | succ k =>
      refine h.imp_right fun ⟨hs, hstep⟩ => ⟨hs, ?_⟩
      by_cases hwait : Waiting e
      · exact Or.inl ⟨hwait, taskwork_waiting hwait.works hwait⟩
      · obtain ⟨d, hd, hcourse⟩ := hstep e.clock hwait
        exact Or.inr ⟨k, d, rfl, hd, hwait, hcourse⟩

/-! ### The course of a client beside a blocking call -/

/-- What a call that has returned leaves to its caller. -/
def BlockingCall.delivered (b : BlockingCall) : List Bytes :=
  if b.result = some .success then (b.exchange.blockingOut.bind HTTPData.addr).toList else []

/-- A failed client gets to its end. -/
theorem Course.of_error (hs : e.state = .error) (hresponses : e.responses = responses)
    (hsent : e.connection.sent = sent) : Course responses sent 1 e :=
  Or.inr ⟨by rw [hs]; simp, fun _ _ => ⟨_, taskwork_error hs, rfl, hresponses, hsent⟩⟩

/-- A client at its end agrees with all that the blocking call comes to. -/
theorem Agree.ended {b' : BlockingCall} (h : Agree e b)
    (hs : e.state = .error ∨ e.state = .disposing) (hstep : httpBlockingStep b = .ok b') :
    Agree e b' := by
  cases h with
  | live h =>
      have hworks := h.works
      rcases hs with hs | hs <;> rw [hs] at hworks <;> cases hworks
  | delivered body hdisposing hresponse hsent hout hresult =>
      rcases hresult with ⟨hres, hstate, htime⟩ | hres
      · rw [blockingStep_stop hres (not_expired htime 0) (by rw [hstate]; rfl), if_pos hstate]
          at hstep
        obtain rfl := Except.ok.inj hstep
        exact .delivered body hdisposing hresponse (hsent.trans (dispose_sent _).symm) hout
          (Or.inr rfl)
      · rw [blockingStep_returned (by simp [hres])] at hstep
        obtain rfl := Except.ok.inj hstep
        exact .delivered body hdisposing hresponse hsent hout (Or.inr hres)
  | failed hfailed hresponse hsent hresult =>
      rcases hresult with ⟨hres, hstate, htime⟩ | hres
      · rw [blockingStep_stop hres (not_expired htime 0) (by rw [hstate]; rfl),
          if_neg (by simp [hstate])] at hstep
        obtain rfl := Except.ok.inj hstep
        exact .failed hfailed hresponse (hsent.trans (dispose_sent _).symm) (Or.inr rfl)
      · rw [blockingStep_returned (by simp [hres])] at hstep
        obtain rfl := Except.ok.inj hstep
        exact .failed hfailed hresponse hsent (Or.inr hres)

/-- The end of a client beside a call that has returned. -/
theorem Course.of_ended (h : Agree e d) (hresult : d.result ≠ none) :
    Course d.delivered d.exchange.connection.sent 1 e := by
  cases h with
  | live h => exact absurd h.result hresult
  | delivered body hs hresponse hsent hout hres =>
      have hsuccess : d.result = some .success := hres.resolve_left fun h => hresult h.1
      refine Ended.course ⟨hs, ?_, hsent⟩
      rw [BlockingCall.delivered, if_pos hsuccess, hout]
      exact hresponse
  | failed hs hresponse hsent hres =>
      have hio : d.result = some .io := hres.resolve_left fun h => hresult h.1
      have hnone : e.responses = d.delivered := by
        rw [BlockingCall.delivered, if_neg (by simp [hio])]
        exact hresponse
      rcases hs with hs | hs
      · exact .of_error hs hnone hsent
      · exact Ended.course ⟨hs, hnone, hsent⟩

/-- **The steps of a scheduled client are those of the blocking call.** A client beside a call
that returns within `m` iterations is at its end within `m + 1` steps. -/
theorem Course.of_run (h : Agree e b) (hrun : run httpBlockingStep m b = .ok d)
    (hresult : d.result ≠ none) :
    Course d.delivered d.exchange.connection.sent (m + 1) e := by
  induction m generalizing e b with
  | zero =>
      obtain rfl : b = d := Except.ok.inj hrun
      exact .of_ended h hresult
  | succ m ih =>
      by_cases hs : e.state = .error ∨ e.state = .disposing
      · have hd := (reaches_of_run hrun).invariant (fun _ _ hstep hx => hx.ended hs hstep) h
        exact (Course.of_ended hd hresult).mono (by omega)
      · cases h with
        | delivered _ hdisposing => exact absurd (Or.inr hdisposing) hs
        | failed hfailed => exact absurd hfailed hs
        | live h =>
            refine Or.inr ⟨fun hdisposing => hs (Or.inr hdisposing), fun clock hawake => ?_⟩
            have hlock := (h.clock clock).step
            rw [taskwork_awake (e := { e with clock := clock }) h.works hawake]
            rw [run] at hrun
            generalize httpBlockingStep b = r at hlock hrun
            generalize exchangeStep _ = r' at hlock
            cases hlock with
            | fault f => cases hrun
            | ok hagree => exact ⟨_, rfl, ih hagree hrun⟩

/-! ### Connecting -/

/-- A socket that is still connecting says so `p` times before it is connected. -/
def FinishesIn : ℕ → Connection → Prop
  | 0, c => (transportFinishConnect c).1.1 = .success
  | p + 1, c => (transportFinishConnect c).1.1 ≠ .success ∧
      ((transportFinishConnect c).1.2 = .EINPROGRESS ∨ (transportFinishConnect c).1.2 = .EALREADY ∨
        (transportFinishConnect c).1.2 = .EAGAIN) ∧ FinishesIn p (transportFinishConnect c).2

/-- The client connects at once, or is told `p` times at most that it is still connecting. -/
def ConnectsWithin (p : ℕ) (c : Connection) (parts : URLParts) : Prop :=
  (transportInit c parts false).1 = .success ∨
    (transportInit c parts false).1 = .inProgress ∧
      ∃ q ≤ p, FinishesIn q (transportInit c parts false).2

/-- The client as it goes on when it is connected. -/
def Exchange.connected (e : Exchange) (c : Connection) (clock : ℕ → UInt64) (retryAt : UInt64) :
    Exchange :=
  { e with
    state := .buildingRequest
    retries := 0
    connection := c
    clock := clock
    nextRetryAt := retryAt }

/-- A client whose socket is connecting asks for it whenever it is called. -/
theorem taskwork_waitingConnect (hs : e.state = .waitingConnect) :
    httpClientTaskwork e = .ok { (httpClientWorktaskWaitingConnect e.ticked).2 with
      state := (httpClientWorktaskWaitingConnect e.ticked).1 } := by
  have hstate : e.ticked.state = .waitingConnect := hs
  simp only [httpClientTaskwork, hstate]
  rw [if_neg (by simp [waitsForRetry])]
  exact exchangeStep_of_work (by rw [exchangeWork, hstate])

/-- Once the socket is connected the request is built in the next call. -/
theorem taskwork_connected (hs : e.state = .waitingConnect)
    (h : (transportFinishConnect e.connection).1.1 = .success) :
    httpClientTaskwork e = .ok (e.connected (transportFinishConnect e.connection).2
      (fun k => e.clock (k + 1)) e.nextRetryAt) := by
  have hwork : httpClientWorktaskWaitingConnect e.ticked = (.buildingRequest,
      { e.ticked with
        connection := (transportFinishConnect e.connection).2
        retries := 0 }) := if_pos h
  rw [taskwork_waitingConnect hs, hwork]
  rfl

/-- Until then the client asks again after 50 ms. -/
theorem taskwork_connecting (hs : e.state = .waitingConnect)
    (h : (transportFinishConnect e.connection).1.1 ≠ .success)
    (hagain : (transportFinishConnect e.connection).1.2 = .EINPROGRESS ∨
      (transportFinishConnect e.connection).1.2 = .EALREADY ∨
        (transportFinishConnect e.connection).1.2 = .EAGAIN) :
    httpClientTaskwork e = .ok { e with
      connection := (transportFinishConnect e.connection).2
      clock := fun k => e.clock (k + 1 + 1)
      nextRetryAt := e.clock 1 + 50 } := by
  have hwork : httpClientWorktaskWaitingConnect e.ticked = (.waitingConnect,
      { e.ticked with connection := (transportFinishConnect e.connection).2 }.retryIn 50) :=
    (if_neg h).trans (if_pos hagain)
  rw [taskwork_waitingConnect hs, hwork, ← hs]
  rfl

/-- A client whose socket is still connecting goes on when it is connected. -/
theorem Course.of_waitingConnect {p : ℕ} (hs : e.state = .waitingConnect)
    (hfin : FinishesIn p e.connection)
    (hrest : ∀ c clock retryAt, c.writes = e.connection.writes → c.sent = e.connection.sent →
      Course responses sent m (e.connected c clock retryAt)) :
    Course responses sent (m + p + 1) e := by
  have hne : e.state ≠ .disposing := by rw [hs]; simp
  obtain ⟨-, -, hwrites, hsent⟩ := finishConnect_kept e.connection
  induction p generalizing e with
  | zero =>
      exact Or.inr ⟨hne, fun clock _ =>
        ⟨_, taskwork_connected (e := { e with clock := clock }) hs hfin, hrest _ _ _ hwrites hsent⟩⟩
  | succ p ih =>
      obtain ⟨hnot, hagain, hlater⟩ := hfin
      refine Or.inr ⟨hne, fun clock _ =>
        ⟨_, taskwork_connecting (e := { e with clock := clock }) hs hnot hagain, ?_⟩⟩
      obtain ⟨-, -, hwrites', hsent'⟩ :=
        finishConnect_kept (transportFinishConnect e.connection).2
      refine ih hs hlater (fun c clock retryAt hw hc => ?_) hne hwrites' hsent'
      exact hrest c clock retryAt (hw.trans hwrites) (hc.trans hsent)

/-- A URL that is not parsed ends the request. -/
theorem connecting_bad_url {code : ErrorCode} (h : httpParserUrl e.url = .error code) :
    httpClientWorktaskConnecting e = (.error, e) := by
  rw [httpClientWorktaskConnecting, h]

/-- A socket that is connected at once. -/
theorem connecting_success {parts : URLParts} (hparts : httpParserUrl e.url = .ok parts)
    (h : (transportInit e.connection parts e.blockingMode).1 = .success) :
    httpClientWorktaskConnecting e = (.buildingRequest, { e with
      urlParts := parts
      connection := (transportInit e.connection parts e.blockingMode).2 }) := by
  rw [httpClientWorktaskConnecting, hparts]
  simp only [h, reduceCtorEq, if_false, ne_eq, not_true_eq_false]

/-- A socket that is still connecting. -/
theorem connecting_inProgress {parts : URLParts} (hparts : httpParserUrl e.url = .ok parts)
    (h : (transportInit e.connection parts e.blockingMode).1 = .inProgress) :
    httpClientWorktaskConnecting e = (.waitingConnect, { e with
      urlParts := parts
      connection := (transportInit e.connection parts e.blockingMode).2 }) := by
  rw [httpClientWorktaskConnecting, hparts]
  simp only [h, if_true]

/-- The first call in which the client does not wait. -/
theorem taskwork_first {s : HTTPClientState} {x : Exchange} (hs : e.state = .connecting)
    (hawake : ¬ Waiting e) (h : httpClientWorktaskConnecting e.ticked = (s, x)) :
    httpClientTaskwork e = .ok { x with state := s } := by
  rw [taskwork_awake (by rw [hs]; rfl) hawake, exchangeStep_connecting (e := e.ticked) hs, h]

/-- The first iteration of a call. -/
theorem blockingStep_first {s : HTTPClientState} {x : Exchange} (hres : b.result = none)
    (htime : b.timeoutMs ≤ 0) (hs : b.exchange.state = .connecting)
    (h : httpClientWorktaskConnecting b.exchange.ticked = (s, x)) :
    httpBlockingStep b = .ok { b with exchange := { x with state := s } } := by
  refine blockingStep_work hres (not_expired htime 0) (by rw [hs]; rfl) ?_
  rw [exchangeStep_connecting (e := b.exchange.ticked) hs, h]

end Course

/-! ### A request beside a call -/

/-- A request and a blocking `GET` are given the same answers by the transport. The request is
connected within `p` questions, the call at once, and the call returns within `m` iterations. -/
structure Beside (m p : ℕ) (url : Bytes) (env alone : Environment) (d : BlockingCall) : Prop where
  reads : env.incoming = alone.incoming
  writes : env.writes = alone.writes
  connects : ∀ parts, httpParserUrl url = .ok parts →
    ConnectsWithin p env.connection parts ∧
      (transportInit alone.connection parts true).1 = .success
  returns : run httpBlockingStep m (httpBlockingGet (some url) (some {}) 0 alone) = .ok d
  result : d.result ≠ none

section Beside

variable {m p : ℕ} {url : Bytes} {env alone : Environment} {d : BlockingCall}

/-- Once both are connected they are in step. -/
theorem live_connected (url : Bytes) (task : ℕ) (parts : URLParts) {c c' : Connection}
    (clock : ℕ → UInt64) (retryAt : UInt64) (hread : env.incoming = alone.incoming)
    (hwrites : c.writes = c'.writes) (hsent : c.sent = c'.sent) :
    let b := httpBlockingGet (some url) (some {}) 0 alone
    Live ({ initiated zeroed url true task env with urlParts := parts }.connected c clock retryAt)
      { b with exchange := { b.exchange.ticked with
        urlParts := parts, connection := c', state := .buildingRequest } } := by
  refine ⟨⟨⟨blockingOverlay, 0, fun k => alone.clock (k + 1 + 1), c'⟩, rfl, ?_⟩, rfl,
    le_refl _, rfl, rfl, rfl, rfl, fun hs => by cases hs⟩
  obtain ⟨incoming, _, _, _, _, _, _⟩ := env
  obtain rfl : incoming = alone.incoming := hread
  simp only [Exchange.driven, Exchange.connected, hwrites, hsent]
  rfl

/-- **A request beside a call** is at its end within two steps more than the call takes, and
the times that its socket is still connecting. -/
theorem Beside.course (h : Beside m p url env alone d) (task : ℕ) :
    Course d.delivered d.exchange.connection.sent (m + p + 2)
      (initiated zeroed url true task env) := by
  have hreturns := h.returns
  have hnone : (httpBlockingGet (some url) (some {}) 0 alone).result = none := rfl
  have htime : (httpBlockingGet (some url) (some {}) 0 alone).timeoutMs ≤ 0 := le_refl _
  cases m with
  | zero =>
      obtain rfl := Except.ok.inj hreturns
      exact absurd hnone h.result
  | succ m =>
      rw [run] at hreturns
      refine Or.inr ⟨by simp [initiated], fun clock hawake => ?_⟩
      cases hparse : httpParserUrl url with
      | error code =>
          -- both reject the URL
          rw [blockingStep_first hnone htime rfl (connecting_bad_url hparse)] at hreturns
          refine ⟨_, taskwork_first rfl hawake (connecting_bad_url hparse), ?_⟩
          refine (Course.of_run (m := m) ?_ hreturns h.result).mono (by omega)
          exact .failed (Or.inl rfl) rfl rfl (Or.inl ⟨hnone, rfl, htime⟩)
      | ok parts =>
          obtain ⟨hwithin, halone⟩ := h.connects parts hparse
          rw [blockingStep_first hnone htime rfl (connecting_success hparse halone)] at hreturns
          obtain ⟨hw, hc⟩ := transportInit_writes env.connection parts false
          obtain ⟨hw', hc'⟩ := transportInit_writes alone.connection parts true
          have hconnected : ∀ c clock retryAt,
              c.writes = (transportInit env.connection parts false).2.writes →
              c.sent = (transportInit env.connection parts false).2.sent →
              Course d.delivered d.exchange.connection.sent (m + 1)
                ({ initiated zeroed url true task env with urlParts := parts }.connected
                  c clock retryAt) := by
            intro c clock retryAt hwrites hsent
            have hlive := live_connected url task parts clock retryAt h.reads
              (hwrites.trans (hw.trans (h.writes.trans hw'.symm)))
              (hsent.trans (hc.trans hc'.symm))
            exact .of_run (.live hlive) hreturns h.result
          rcases hwithin with hsuccess | ⟨hprogress, q, hq, hfin⟩
          · refine ⟨_, taskwork_first rfl hawake (connecting_success hparse hsuccess), ?_⟩
            exact (hconnected _ _ (env.clock 0) rfl rfl).mono (by omega)
          · refine ⟨_, taskwork_first rfl hawake (connecting_inProgress hparse hprogress), ?_⟩
            exact (Course.of_waitingConnect rfl hfin hconnected).mono (by omega)

end Beside

/-! ### The clock -/

/-- Up to reading `K`, a second passes within `w` readings. -/
def Paced (w K : ℕ) (clock : ℕ → UInt64) : Prop :=
  ∀ k j, k + w ≤ j → j ≤ K → (clock k).toNat + 1000 ≤ (clock j).toNat

/-- Up to reading `K`, the delay of the client is over after `r` readings. -/
def Wakes (r K : ℕ) (e : Exchange) : Prop :=
  ∀ j, r ≤ j → j ≤ K → e.nextRetryAt ≤ e.clock j

/-- The client disposes of itself within `N` calls on a clock of this pace: `m` steps are left,
each of them after `w` calls at most in which the client waits. -/
structure Within (w N : ℕ) (responses : List Bytes) (sent : Bytes) (e : Exchange) : Prop where
  paced : Paced w (2 * N) e.clock
  course : ∃ m r, Course responses sent m e ∧ Wakes r (2 * N) e ∧ r ≤ w ∧ m * (w + 1) + r < N

section Clock

variable {w K N r m : ℕ} {clock : ℕ → UInt64} {responses : List Bytes} {sent : Bytes}
  {e d : Exchange}

/-- A clock keeps its pace from every reading on. -/
theorem Paced.shift {i L : ℕ} (h : Paced w K clock) (hle : L + i ≤ K) :
    Paced w L fun k => clock (k + i) :=
  fun k j hkj hj => h (k + i) (j + i) (by omega) (by omega)

/-- A delay that is set at a reading is over `w` readings later. -/
theorem Paced.le {k j : ℕ} {delay : UInt64} (h : Paced w K clock) (hdelay : delay ≤ 1000)
    (hkj : k + w ≤ j) (hj : j ≤ K) : clock k + delay ≤ clock j := by
  have hpace := h k j hkj hj
  have hsmall : delay.toNat ≤ 1000 := hdelay
  have hbound := (clock j).toNat_lt
  rw [UInt64.le_iff_toNat_le, UInt64.toNat_add, Nat.mod_eq_of_lt (by omega)]
  omega

/-- A client that waits has not slept long enough. -/
theorem Wakes.pos (h : Wakes r K e) (hwait : Waiting e) : 0 < r := by
  by_contra hzero
  exact absurd (h 0 (not_lt.mp hzero) (Nat.zero_le K)) (UInt64.not_le.mpr hwait.2)

/-- What a call in which the client does not wait makes of its delay. -/
theorem taskwork_delays (hs : e.state ≠ .disposing) (h : httpClientTaskwork e = .ok d) :
    Delays e.ticked d := by
  cases taskwork_cases h with
  | waits _ => exact Or.inl ⟨rfl, rfl⟩
  | fails _ => exact Or.inl ⟨rfl, rfl⟩
  | disposes hd => exact absurd hd hs
  | works _ hwork => exact delays_step hwork

/-- A client that has put off its next call waits for so many readings at most. -/
theorem Wakes.delayed {L : ℕ} (h : Wakes r K e) (hr : r ≤ w) (hpaced : Paced w K e.clock)
    (hK : L + 2 ≤ K) (hd : Delays e.ticked d) : Wakes w L d ∧ Paced w L d.clock := by
  rcases hd with ⟨hretry, hclock⟩ | ⟨delay, hdelay, hretry, hclock⟩
  · rw [Wakes, hretry, hclock]
    exact ⟨fun j hj hL => h (j + 1) (by omega) (by omega), hpaced.shift (i := 1) (by omega)⟩
  · rw [Wakes, hretry, hclock]
    exact ⟨fun j hj hL => hpaced.le hdelay (by omega) (by omega), hpaced.shift (i := 2) (by omega)⟩

/-- **One call** brings a client closer to its end, or disposes of it. -/
theorem Within.step (h : Within w (N + 1) responses sent e) :
    ∃ d, httpClientTaskwork e = .ok d ∧
      (e.state = .disposing ∧ d.responses = responses ∧ d.connection.sent = sent ∨
        e.state ≠ .disposing ∧ Within w N responses sent d) := by
  obtain ⟨m, r, hcourse, hwakes, hr, hlt⟩ := h.course
  rcases hcourse.step with hended | ⟨hs, ⟨hwait, hwork⟩ | ⟨k, d, rfl, hwork, -, hrest⟩⟩
  · exact ⟨_, taskwork_disposing hended.state, Or.inl ⟨hended.state, hended.responses,
      (dispose_sent _).trans hended.sent⟩⟩
  · have hpos := hwakes.pos hwait
    refine ⟨_, hwork, Or.inr ⟨hs, h.paced.shift (i := 1) (by omega), m, r - 1, hcourse.clock _,
      fun j hj hK => hwakes (j + 1) (by omega) (by omega), by omega, by omega⟩⟩
  · obtain ⟨hwakes', hpaced'⟩ := hwakes.delayed (L := 2 * N) hr h.paced (by omega)
      (taskwork_delays hs hwork)
    rw [Nat.succ_mul] at hlt
    exact ⟨d, hwork, Or.inr ⟨hs, hpaced', k, w, hrest, hwakes', le_refl w, by omega⟩⟩

/-- A client that is not at its end needs a call. -/
theorem not_within_zero : ¬ Within w 0 responses sent e := by
  rintro ⟨-, m, r, -, -, -, hlt⟩
  exact absurd hlt (Nat.not_lt_zero _)

end Clock

/-! ### Sweeps -/

section Sweeps

variable {n k : ℕ} {s t : Clients n k} {i : Fin n} {w N : ℕ} {responses : Fin k → List Bytes}
  {sent : Fin k → Bytes}

/-- The scheduler calls the client of a slot. -/
theorem exists_workAt (h : Attended s) (hok : ∀ j, s.scheduler.tasks i = heldBy j →
      ∃ d, httpClientTaskwork (s.clients j) = .ok d) :
    ∃ t, schedulerWorkAt (fun s => s.scheduler.tasks) Clients.call s i = .ok t := by
  rw [schedulerWorkAt]
  rcases h i with hfree | ⟨j, -, hheld⟩
  · rw [hfree]
    exact ⟨s, rfl⟩
  · obtain ⟨d, hd⟩ := hok j hheld
    obtain ⟨v, hwork⟩ : ∃ v, (s.view j).taskwork = .ok v := by
      rw [System.taskwork, show httpClientTaskwork (s.view j).client = .ok d from hd]
      exact ⟨_, rfl⟩
    have hslot : s.scheduler.tasks i = heldBy j := hheld
    have hsome : (heldBy j).callback.isSome = true := rfl
    rw [hslot, if_pos hsome, Clients.call, hslot]
    simp only [heldBy, hwork]
    exact ⟨_, rfl⟩

/-- The slots are called one after the other, if each of the clients in them can be called. -/
theorem exists_foldlM {slots : List (Fin n)} (hnodup : slots.Nodup) (h : Attended s)
    (hok : ∀ i ∈ slots, ∀ j, s.scheduler.tasks i = heldBy j →
      ∃ d, httpClientTaskwork (s.clients j) = .ok d) :
    ∃ t, slots.foldlM (schedulerWorkAt (fun s => s.scheduler.tasks) Clients.call) s = .ok t := by
  induction slots generalizing s with
  | nil => exact ⟨s, rfl⟩
  | cons i rest ih =>
      obtain ⟨hi, hrest⟩ := List.nodup_cons.mp hnodup
      obtain ⟨u, hu⟩ := exists_workAt h (hok i List.mem_cons_self)
      have hcalled := slotsCalled_workAt h hu
      have hsame : ∀ i' ∈ rest, u.scheduler.tasks i' = s.scheduler.tasks i' := fun i' hi' =>
        hcalled.others i' fun hmem => hi (List.mem_singleton.mp hmem ▸ hi')
      obtain ⟨t, ht⟩ := ih hrest hcalled.attended fun i' hi' j hj => by
        rw [hsame i' hi'] at hj
        rw [hcalled.otherClients j fun x hx hheld => ?_]
        · exact hok i' (List.mem_cons_of_mem _ hi') j hj
        · rw [List.mem_singleton.mp hx] at hheld
          obtain rfl := registered_unique (h.registered hheld) (h.registered hj)
          exact hi hi'
      refine ⟨t, ?_⟩
      rw [List.foldlM_cons, hu]
      exact ht

/-- Every client in the table is at its end within `N` calls. -/
def AllWithin (w N : ℕ) (responses : Fin k → List Bytes) (sent : Fin k → Bytes)
    (s : Clients n k) : Prop :=
  ∀ i j, s.scheduler.tasks i = heldBy j → Within w N (responses j) (sent j) (s.clients j)

/-- The client has delivered and sent what it should, and is not in the table any more. -/
def Served (responses : Fin k → List Bytes) (sent : Fin k → Bytes) (s : Clients n k)
    (j : Fin k) : Prop :=
  (∀ i, s.scheduler.tasks i ≠ heldBy j) ∧ (s.clients j).responses = responses j ∧
    (s.clients j).connection.sent = sent j

/-- **A sweep** brings every client in the table one call closer to its end. -/
theorem sweep_within (h : Attended s) (hall : AllWithin w (N + 1) responses sent s) :
    ∃ t, s.sweep = .ok t ∧ Attended t ∧ AllWithin w N responses sent t ∧
      ∀ j, (∃ i, s.scheduler.tasks i = heldBy j) ∨ Served responses sent s j →
        (∃ i, t.scheduler.tasks i = heldBy j) ∨ Served responses sent t j := by
  obtain ⟨t, ht⟩ := exists_foldlM (List.nodup_finRange n) h fun i _ j hj => by
    obtain ⟨d, hd, -⟩ := (hall i j hj).step
    exact ⟨d, hd⟩
  have hcalled := slotsCalled_foldlM (List.nodup_finRange n) h ht
  -- a slot holds after the sweep what it has held before
  have hbefore : ∀ i j, t.scheduler.tasks i = heldBy j → s.scheduler.tasks i = heldBy j := by
    intro i j hj
    rcases h i with hfree | ⟨j', hj'⟩
    · rw [hcalled.free i (List.mem_finRange i) hfree] at hj
      cases hj
    · have hslot := (hcalled.client i (List.mem_finRange i) j' hj'.2).2
      rw [hj] at hslot
      split at hslot
      · cases hslot
      · rw [hslot]
        exact hj'.2
  refine ⟨t, ht, hcalled.attended, fun i j hj => ?_, fun j hj => ?_⟩
  · have hheld := hbefore i j hj
    obtain ⟨hwork, hslot⟩ := hcalled.client i (List.mem_finRange i) j hheld
    obtain ⟨d, hd, ⟨hs, -⟩ | ⟨-, hwithin⟩⟩ := (hall i j hheld).step
    · rw [if_pos hs, hj] at hslot
      cases hslot
    · obtain rfl := Except.ok.inj (hwork.symm.trans hd)
      exact hwithin
  · rcases hj with ⟨i, hheld⟩ | ⟨hfree, hfinished⟩
    · obtain ⟨hwork, hslot⟩ := hcalled.client i (List.mem_finRange i) j hheld
      obtain ⟨d, hd, ⟨hs, hfinished⟩ | ⟨hs, -⟩⟩ := (hall i j hheld).step
      · obtain rfl := Except.ok.inj (hwork.symm.trans hd)
        refine Or.inr ⟨fun i' hi' => ?_, hfinished⟩
        obtain rfl := registered_unique (h.registered hheld) (h.registered (hbefore i' j hi'))
        rw [if_pos hs, hi'] at hslot
        cases hslot
      · exact Or.inl ⟨i, hslot.trans (if_neg hs)⟩
    · refine Or.inr ⟨fun i hi => hfree i (hbefore i j hi), ?_⟩
      rw [hcalled.otherClients j fun i _ => hfree i]
      exact hfinished

/-- **The sweeps** empty the table. -/
theorem sweeps_finish (h : Attended s) (hall : AllWithin w N responses sent s) :
    ∃ t, run Clients.sweep N s = .ok t ∧ (∀ i, t.scheduler.tasks i = {}) ∧
      ∀ j, (∃ i, s.scheduler.tasks i = heldBy j) ∨ Served responses sent s j →
        Served responses sent t j := by
  induction N generalizing s with
  | zero =>
      have hnone : ∀ i j, s.scheduler.tasks i ≠ heldBy j := fun i j hj =>
        not_within_zero (hall i j hj)
      refine ⟨s, rfl, fun i => ?_, fun j hj => hj.resolve_left ?_⟩
      · exact (h i).resolve_right fun ⟨j, hj⟩ => hnone i j hj.2
      · rintro ⟨i, hi⟩
        exact hnone i j hi
  | succ N ih =>
      obtain ⟨u, hu, hattended, hrest, hkept⟩ := sweep_within h hall
      obtain ⟨t, ht, hempty, hfinished⟩ := ih hattended hrest
      refine ⟨t, ?_, hempty, fun j hj => hfinished j (hkept j hj)⟩
      rw [run, hu]
      exact ht

/-- A request that has just been started is at its end within so many calls. -/
theorem Beside.within {m p : ℕ} {url : Bytes} {env alone : Environment} {d : BlockingCall}
    (h : Beside m p url env alone d) (task : ℕ) (hpace : Paced w (2 * N + 1) env.clock)
    (hN : (m + p + 3) * (w + 1) ≤ N) :
    Within w N d.delivered d.exchange.connection.sent (initiated zeroed url true task env) := by
  refine ⟨hpace.shift (i := 1) (le_refl _), m + p + 2, w, h.course task, ?_, le_refl w, ?_⟩
  · intro j hj hK
    have hle := hpace 0 (j + 1) (by omega) (by omega)
    exact UInt64.le_iff_toNat_le.mpr ((Nat.le_add_right _ 1000).trans hle)
  · rw [Nat.succ_mul] at hN
    omega

/-- **The main loop ends**, and every client has delivered what its call returns. In a state of a
run in which the requests in the table have just been started, with blocking calls beside them
that return within `m` iterations, and on clocks on which a second passes within `w` readings,
so many sweeps meet no fault and leave no task. -/
theorem main_loop_ends {clients : Fin k → Exchange} {as : List (ClientsAction k)} {m p : ℕ}
    {url : Fin k → Bytes} {env alone : Fin k → Environment} {d : Fin k → BlockingCall}
    (hs : Trace ClientsStep ⟨schedulerInit, clients⟩ as s)
    (hstarted : ∀ i j, s.scheduler.tasks i = heldBy j →
      s.clients j = initiated zeroed (url j) true i.val (env j) ∧
        Beside m p (url j) (env j) (alone j) (d j) ∧ Paced w (2 * N + 1) (env j).clock)
    (hN : (m + p + 3) * (w + 1) ≤ N) :
    ∃ t, run Clients.sweep N s = .ok t ∧ schedulerGetTaskCount t.scheduler = 0 ∧
      ∀ i j, s.scheduler.tasks i = heldBy j → (t.clients j).responses = (d j).delivered ∧
        (t.clients j).connection.sent = (d j).exchange.connection.sent := by
  have hall : AllWithin w N (fun j => (d j).delivered)
      (fun j => (d j).exchange.connection.sent) s := by
    intro i j hj
    obtain ⟨hclient, hbeside, hpace⟩ := hstarted i j hj
    rw [hclient]
    exact hbeside.within i.val hpace hN
  obtain ⟨t, ht, hempty, hfinished⟩ := sweeps_finish (attended_of_trace hs) hall
  refine ⟨t, ht, ?_, fun i j hj => (hfinished j (Or.inl ⟨i, hj⟩)).2⟩
  rw [schedulerGetTaskCount, List.countP_eq_zero]
  intro i _
  rw [hempty i]
  exact Bool.false_ne_true

end Sweeps

/-! ### A server that is far away -/

/-- A clock on which a second passes with every reading. -/
def secondsClock (k : ℕ) : UInt64 := UInt64.ofNat (1000 * k)

/-- On that clock a second passes with every reading. -/
theorem paced_secondsClock : Paced 1 57 secondsClock := by
  intro k j hkj hj
  rw [secondsClock, secondsClock, UInt64.toNat_ofNat', UInt64.toNat_ofNat',
    Nat.mod_eq_of_lt (by omega), Nat.mod_eq_of_lt (by omega)]
  omega

/-- The server that says `hello`, with a socket that is not connected at once. -/
def distantServer : Environment :=
  { helloServer with
    addresses := some [{ connects with connect := .failed .EINPROGRESS }]
    finishes := [⟨some .EINPROGRESS, true, .done, .EAGAIN⟩, ⟨none, true, .done, .EAGAIN⟩]
    clock := secondsClock }

/-- A client that has been started with its URL. -/
def distantClient : Clients 1 1 :=
  let s : Clients 1 1 := ⟨schedulerInit, fun _ => zeroed⟩
  let j : Fin 1 := ⟨0, Nat.one_pos⟩
  s.put j (httpClientInitiate (some j) () (ascii "http://h/") .get true ⟨true, true, true⟩
    distantServer (s.view j)).2

/-- The blocking call returns within ten iterations. -/
theorem hello_returns : ∃ d, run httpBlockingStep 10
    (httpBlockingGet (some (ascii "http://h/")) (some {}) 0 helloServer) = .ok d ∧
      d.result ≠ none ∧ d.delivered = [ascii "hello" ++ [0]] := by
  have hany : (run httpBlockingStep 10
      (httpBlockingGet (some (ascii "http://h/")) (some {}) 0 helloServer)).toOption.any
        (fun d => d.result ≠ none ∧ d.delivered = [ascii "hello" ++ [0]]) = true := by
    decide +kernel
  obtain ⟨d, hd, hres⟩ := exists_run_of_any hany
  exact ⟨d, hd, by simpa using hres⟩

/-- It is a call beside the request to the distant server. -/
theorem beside_distantServer {d : BlockingCall}
    (hd : run httpBlockingStep 10
      (httpBlockingGet (some (ascii "http://h/")) (some {}) 0 helloServer) = .ok d)
    (hres : d.result ≠ none) : Beside 10 1 (ascii "http://h/") distantServer helloServer d := by
  refine ⟨rfl, rfl, fun parts hparts => ?_, hd, hres⟩
  obtain rfl := Except.ok.inj (hparts.symm.trans
    (show _ = Except.ok (parsedClient (ascii "http://h/")).urlParts by decide))
  refine ⟨Or.inr ⟨by decide, 1, le_refl 1, by decide, by decide, ?_⟩, helloServer_connects⟩
  show (transportFinishConnect _).1.1 = .success
  decide

/-- The loop ends after 28 sweeps at the latest, with the response. -/
theorem distant_loop_ends :
    ∃ t, run Clients.sweep 28 distantClient = .ok t ∧ schedulerGetTaskCount t.scheduler = 0 ∧
      (t.clients 0).responses = [ascii "hello" ++ [0]] := by
  obtain ⟨d, hd, hres, hdelivered⟩ := hello_returns
  have hrun : Trace ClientsStep ⟨schedulerInit, fun _ => zeroed⟩ [.initiate 0] distantClient :=
    .cons (.initiate (by decide)) (.nil _)
  have hstarted : ∀ i j, distantClient.scheduler.tasks i = heldBy j →
      distantClient.clients j = initiated zeroed (ascii "http://h/") true i.val distantServer ∧
        Beside 10 1 (ascii "http://h/") distantServer helloServer d ∧
          Paced 1 (2 * 28 + 1) distantServer.clock := by
    intro i j _
    obtain rfl := Subsingleton.elim i 0
    obtain rfl := Subsingleton.elim j 0
    exact ⟨rfl, beside_distantServer hd hres, paced_secondsClock⟩
  obtain ⟨t, ht, hcount, hall⟩ := main_loop_ends hrun hstarted (le_refl _)
  exact ⟨t, ht, hcount, (hall 0 0 rfl).1.trans hdelivered⟩

end MaestroCore
