import MaestroCore.Exchange
import MaestroCore.TcpClient

/-!
# The Errno of a Failed Connect

`http_client_worktask_waiting_connect` looks at `errno`, and not at the result of
`transport_finish_connect`, to tell a connect that is in progress from one that has failed.
The value is the one that was set last, by a call of this attempt or by one that was made
before it: `tls_client_init` and `tls_client_handshake_step` fail without setting it.

The library calls are given with the values to which they set `errno`, and the functions pass
`errno` on from call to call. `transportFinishConnect_outcome` connects this with the model of
`transport_finish_connect` that has the value in its outcome.

## Main results

* `transportFinishConnectErrno_of_failed`: an attempt fails with the value that was set last
  before its first failing call was over.
* `connect_reported_iff`: the result is reported as it is iff this value is not one of the
  three that stand for a connect in progress.
-/

open CLang

namespace MaestroCore

/-! ### Calls that set errno -/

/-- A call of a library, with the message that is printed when it fails: whether it succeeds,
and the value to which it sets `errno`, if it does. -/
structure LibCall where
  ok : Bool
  errno : Option Errno
  deriving DecidableEq, Repr

/-- A call and what is done after its success, or `ERR_IO` after its failure. -/
def LibCall.orIo (call : LibCall) (errno : Errno) (next : Errno → ErrorCode × Errno) :
    ErrorCode × Errno :=
  if call.ok then next (call.errno.getD errno) else (.io, call.errno.getD errno)

/-- The value of `errno` after calls that were made one after the other. -/
def errnoAfter (errno : Errno) (calls : List LibCall) : Errno :=
  calls.foldl (fun errno call => call.errno.getD errno) errno

/-- The calls made by one `transport_finish_connect`. -/
structure FinishCalls where
  /-- The error that `tcp_client_finish_connect` finds. -/
  soError : Option Errno
  /-- `mbedtls_ctr_drbg_seed`. -/
  seed : LibCall
  /-- `mbedtls_ssl_config_defaults`. -/
  configDefaults : LibCall
  /-- `global_tls_ca_get`, which fails when no global CA was loaded. -/
  globalCa : LibCall
  /-- `mbedtls_ssl_setup`. -/
  setup : LibCall
  /-- `mbedtls_ssl_set_hostname`. -/
  setHostname : LibCall
  /-- The handshake was finished by an earlier call. -/
  handshakeDone : Bool
  /-- What `mbedtls_ssl_handshake` comes to. -/
  handshake : HandshakeStep
  /-- The value to which the handshake sets `errno`, if it does. -/
  handshakeErrno : Option Errno
  deriving DecidableEq, Repr

/-- `tcp_client_finish_connect`. -/
def tcpClientFinishConnect (k : FinishCalls) (errno : Errno) : ErrorCode × Errno :=
  match k.soError with
  | some e => (.io, e)
  | none => (.success, errno)

/-- `tls_client_init`. -/
def tlsClientInit (k : FinishCalls) (errno : Errno) : ErrorCode × Errno :=
  k.seed.orIo errno fun errno =>
  k.configDefaults.orIo errno fun errno =>
  k.globalCa.orIo errno fun errno =>
  k.setup.orIo errno fun errno =>
  k.setHostname.orIo errno fun errno =>
  (.success, errno)

/-- `tls_client_handshake_step`. -/
def tlsClientHandshakeStep (k : FinishCalls) (errno : Errno) : ErrorCode × Errno :=
  if k.handshakeDone then (.success, errno)
  else
    match k.handshake with
    | .done => (.success, k.handshakeErrno.getD errno)
    | .inProgress => (.inProgress, .EAGAIN)
    | .failed => (.io, k.handshakeErrno.getD errno)

/-- `transport_finish_connect`, which finds `errno` with a value and leaves it with another. -/
def transportFinishConnectErrno (c : Connection) (k : FinishCalls) (errno : Errno) :
    (ErrorCode × Errno) × Connection :=
  if c.useTls = false then
    if c.useBlocking then ((.success, errno), c) else (tcpClientFinishConnect k errno, c)
  else if c.useBlocking then (tlsClientHandshakeStep k errno, c)
  else
    match tcpClientFinishConnect k errno with
    | (.success, errno) =>
        if c.tlsInitiated then (tlsClientHandshakeStep k errno, c)
        else
          match tlsClientInit k errno with
          | (.success, errno) => (tlsClientHandshakeStep k errno, { c with tlsInitiated := true })
          | (_, errno) => ((.io, errno), c)
    | failed => (failed, c)

/-- The outcome of the calls, as the connection is given it. -/
def FinishCalls.outcome (k : FinishCalls) (c : Connection) (errno : Errno) : FinishOutcome where
  soError := k.soError
  tlsInit := (tlsClientInit k errno).1 = .success
  handshake := if k.handshakeDone then .done else k.handshake
  errno := (transportFinishConnectErrno c k errno).1.2

/-- The calls that an attempt makes when none of them fails, in their order. -/
def FinishCalls.calls (k : FinishCalls) (c : Connection) : List LibCall :=
  (if c.useBlocking then [] else [⟨k.soError.isNone, k.soError⟩]) ++
  if c.useTls then
    (if !c.useBlocking && !c.tlsInitiated then
      [k.seed, k.configDefaults, k.globalCa, k.setup, k.setHostname]
    else []) ++
    if k.handshakeDone then [] else [⟨k.handshake ≠ .failed, k.handshakeErrno⟩]
  else []

/-! ### The value that was set last -/

section Calls

variable {calls pre : List LibCall} {call : LibCall} {errno : Errno}

/-- Calls that are made one after the other until one fails. -/
def runCalls : List LibCall → Errno → ErrorCode × Errno
  | [], errno => (.success, errno)
  | call :: later, errno => call.orIo errno (runCalls later)

/-- Calls that all succeed are all made, and the result is success. -/
theorem runCalls_of_ok (h : ∀ x ∈ calls, x.ok = true) :
    runCalls calls errno = (.success, errnoAfter errno calls) := by
  induction calls generalizing errno with
  | nil => rfl
  | cons call later ih =>
      rw [runCalls, LibCall.orIo, if_pos (h call List.mem_cons_self),
        ih fun x hx => h x (List.mem_cons_of_mem call hx)]
      rfl

/-- The first call that fails ends the attempt, with the value that was set last. -/
theorem runCalls_of_failed (post : List LibCall) (h : ∀ x ∈ pre, x.ok = true)
    (hcall : call.ok = false) :
    runCalls (pre ++ call :: post) errno = (.io, errnoAfter errno (pre ++ [call])) := by
  induction pre generalizing errno with
  | nil =>
      rw [List.nil_append, runCalls, LibCall.orIo, hcall]
      rfl
  | cons x pre ih =>
      rw [List.cons_append, runCalls, LibCall.orIo, if_pos (h x List.mem_cons_self),
        ih fun y hy => h y (List.mem_cons_of_mem x hy)]
      rfl

/-- The second list of calls is made when the first succeeds. -/
theorem runCalls_append (xs ys : List LibCall) (errno : Errno) :
    runCalls (xs ++ ys) errno =
      if (runCalls xs errno).1 = .success then runCalls ys (runCalls xs errno).2
      else runCalls xs errno := by
  induction xs generalizing errno with
  | nil => rfl
  | cons x xs ih =>
      rw [List.cons_append, runCalls, runCalls, LibCall.orIo, LibCall.orIo]
      split
      · exact ih _
      · rfl

/-- Calls in a row end in success or in `ERR_IO`. -/
theorem runCalls_code (calls : List LibCall) (errno : Errno) :
    (runCalls calls errno).1 = .success ∨ (runCalls calls errno).1 = .io := by
  induction calls generalizing errno with
  | nil => exact Or.inl rfl
  | cons call later ih =>
      rw [runCalls, LibCall.orIo]
      split
      · exact ih _
      · exact Or.inr rfl

end Calls

/-- The handshake of the attempt does not come to an end. -/
def FinishCalls.unfinished (k : FinishCalls) (c : Connection) : Bool :=
  c.useTls && !k.handshakeDone && k.handshake = .inProgress

/-- The call of the handshake that is made, if it is. -/
def FinishCalls.handshakeCalls (k : FinishCalls) : List LibCall :=
  if k.handshakeDone then [] else [⟨k.handshake ≠ .failed, k.handshakeErrno⟩]

/-- A handshake step waits with `EAGAIN`, or is its library calls in a row. -/
theorem tlsClientHandshakeStep_eq (k : FinishCalls) (errno : Errno) :
    tlsClientHandshakeStep k errno =
      if k.handshakeDone = false ∧ k.handshake = .inProgress then (.inProgress, .EAGAIN)
      else runCalls k.handshakeCalls errno := by
  rw [tlsClientHandshakeStep, FinishCalls.handshakeCalls]
  cases k.handshakeDone with
  | true => rfl
  | false => cases k.handshake <;> rfl

/-- The end of the connect is its one library call. -/
theorem tcpClientFinishConnect_eq (k : FinishCalls) (errno : Errno) :
    tcpClientFinishConnect k errno = runCalls [⟨k.soError.isNone, k.soError⟩] errno := by
  rw [tcpClientFinishConnect]
  cases k.soError <;> rfl

/-- Calls that end with the handshake. -/
theorem runCalls_handshake (k : FinishCalls) (xs : List LibCall) (errno : Errno) :
    (if (runCalls xs errno).1 = .success then tlsClientHandshakeStep k (runCalls xs errno).2
      else runCalls xs errno) =
    if (runCalls (xs ++ k.handshakeCalls) errno).1 = .success ∧
        (k.handshakeDone = false ∧ k.handshake = .inProgress) then (.inProgress, .EAGAIN)
    else runCalls (xs ++ k.handshakeCalls) errno := by
  rw [tlsClientHandshakeStep_eq, runCalls_append]
  by_cases hok : (runCalls xs errno).1 = .success
  · simp only [if_pos hok]
    by_cases hrun : k.handshakeDone = false ∧ k.handshake = .inProgress
    · have hcalls : (runCalls k.handshakeCalls (runCalls xs errno).2).1 = .success := by
        rw [FinishCalls.handshakeCalls, hrun.1, hrun.2]
        rfl
      rw [if_pos hrun, if_pos ⟨hcalls, hrun⟩]
    · rw [if_neg hrun, if_neg fun h => hrun h.2]
  · simp only [if_neg hok]
    rw [if_neg fun h => hok h.1]

/-- **What an attempt comes to**: its calls, or a handshake in progress after them. -/
theorem transportFinishConnectErrno_eq (c : Connection) (k : FinishCalls) (errno : Errno) :
    (transportFinishConnectErrno c k errno).1 =
      if (runCalls (k.calls c) errno).1 = .success ∧ k.unfinished c = true then
        (.inProgress, .EAGAIN)
      else runCalls (k.calls c) errno := by
  have hinit : ∀ errno, tlsClientInit k errno =
      runCalls [k.seed, k.configDefaults, k.globalCa, k.setup, k.setHostname] errno :=
    fun _ => rfl
  have hshake := runCalls_handshake k
  rw [transportFinishConnectErrno, FinishCalls.calls, FinishCalls.unfinished,
    ← FinishCalls.handshakeCalls]
  simp only [tcpClientFinishConnect_eq, hinit]
  cases c.useTls with
  | false => cases c.useBlocking <;> simp [runCalls]
  | true =>
      simp only [Bool.true_eq_false, if_false, if_true, Bool.true_and, Bool.and_eq_true,
        Bool.not_eq_true', decide_eq_true_eq]
      cases c.useBlocking with
      | true => exact runCalls_handshake k [] errno
      | false =>
          rw [if_neg Bool.false_ne_true]
          cases c.tlsInitiated with
          | true =>
              refine Eq.trans ?_ (runCalls_handshake k [⟨k.soError.isNone, k.soError⟩] errno)
              rcases runCalls [⟨k.soError.isNone, k.soError⟩] errno with ⟨code, e⟩
              cases code <;> rfl
          | false =>
              refine Eq.trans ?_ (runCalls_handshake k ([⟨k.soError.isNone, k.soError⟩] ++
                [k.seed, k.configDefaults, k.globalCa, k.setup, k.setHostname]) errno)
              rw [runCalls_append]
              rcases runCalls [⟨k.soError.isNone, k.soError⟩] errno with ⟨code, e⟩
              have hcode := runCalls_code
                [k.seed, k.configDefaults, k.globalCa, k.setup, k.setHostname] e
              cases code with
              | success =>
                  rcases hrun : runCalls
                    [k.seed, k.configDefaults, k.globalCa, k.setup, k.setHostname] e with ⟨code, e'⟩
                  rw [hrun] at hcode
                  rcases hcode with rfl | rfl <;> simp [hrun]
              | _ => rfl

section Attempt

variable {c : Connection} {k : FinishCalls} {errno : Errno}

/-- **An attempt that fails leaves the value that was set last** before its first failing call
was over. -/
theorem transportFinishConnectErrno_of_failed {pre post : List LibCall} {call : LibCall}
    (hcalls : k.calls c = pre ++ call :: post) (hpre : ∀ x ∈ pre, x.ok = true)
    (hcall : call.ok = false) :
    (transportFinishConnectErrno c k errno).1 = (.io, errnoAfter errno (pre ++ [call])) := by
  rw [transportFinishConnectErrno_eq, hcalls, runCalls_of_failed post hpre hcall]
  simp

/-- An attempt without a failing call is finished, or in progress. -/
theorem transportFinishConnectErrno_of_ok (errno : Errno) (h : ∀ x ∈ k.calls c, x.ok = true) :
    (transportFinishConnectErrno c k errno).1.1 = .success ∨
      (transportFinishConnectErrno c k errno).1 = (.inProgress, .EAGAIN) := by
  rw [transportFinishConnectErrno_eq, runCalls_of_ok h]
  split
  · exact Or.inr rfl
  · exact Or.inl rfl

/-- **The two models of `transport_finish_connect` agree** on the outcome of the calls. -/
theorem transportFinishConnect_outcome (c : Connection) (k : FinishCalls) (errno : Errno)
    (later : List FinishOutcome) :
    transportFinishConnect { c with finishes := k.outcome c errno :: later } =
      ((transportFinishConnectErrno c k errno).1,
        { (transportFinishConnectErrno c k errno).2 with finishes := later }) := by
  obtain ⟨fd, useTls, useBlocking, tlsInitiated, addresses, tlsInit, handshake, -, writes, sent,
    events⟩ := c
  simp only [transportFinishConnect, FinishCalls.outcome, transportFinishConnectErrno,
    tcpClientFinishConnect]
  cases useTls with
  | false =>
      cases useBlocking with
      | true => rfl
      | false => cases k.soError <;> rfl
  | true =>
      cases useBlocking with
      | true =>
          simp only [tlsClientHandshakeStep]
          cases k.handshakeDone <;> cases k.handshake <;> rfl
      | false =>
          cases k.soError with
          | some e => rfl
          | none =>
              cases tlsInitiated with
              | true =>
                  simp only [tlsClientHandshakeStep]
                  cases k.handshakeDone <;> cases k.handshake <;> rfl
              | false =>
                  dsimp only
                  generalize tlsClientInit k errno = r
                  obtain ⟨code, e⟩ := r
                  cases code with
                  | success =>
                      simp only [tlsClientHandshakeStep]
                      cases k.handshakeDone <;> cases k.handshake <;> rfl
                  | _ => rfl

end Attempt

/-! ### What is reported -/

/-- The state that follows from the result of `transport_finish_connect`. -/
structure ReportsConnect (s : HTTPClientState) (res : ErrorCode) : Prop where
  finished : s = .buildingRequest ↔ res = .success
  waiting : s = .waitingConnect ↔ res = .inProgress
  failed : res ≠ .success → res ≠ .inProgress → s = .error

/-- The values of `errno` that stand for a connect in progress. -/
def Errno.isPending (errno : Errno) : Bool :=
  errno = .EINPROGRESS || errno = .EALREADY || errno = .EAGAIN

/-- The client before `http_client_worktask_waiting_connect`, with the calls that it will
make and the value that earlier calls have left in `errno`. -/
def Exchange.attempting (e : Exchange) (k : FinishCalls) (errno : Errno)
    (later : List FinishOutcome) : Exchange :=
  { e with connection :=
    { e.connection with finishes := k.outcome e.connection errno :: later } }

/-- **When the result of a connect is reported.** For every client, all calls and every value
that earlier calls have left in `errno`, the state follows from the result of
`transport_finish_connect` iff no call fails, or `errno` was not last set, before the first
failing call was over, to a value that stands for a connect in progress. -/
theorem connect_reported_iff (e : Exchange) (k : FinishCalls) (errno : Errno)
    (later : List FinishOutcome) :
    ReportsConnect (httpClientWorktaskWaitingConnect (e.attempting k errno later)).1
        (transportFinishConnectErrno e.connection k errno).1.1 ↔
      ∀ pre call post, k.calls e.connection = pre ++ call :: post → (∀ x ∈ pre, x.ok = true) →
        call.ok = false → (errnoAfter errno (pre ++ [call])).isPending = false := by
  have hnext : (httpClientWorktaskWaitingConnect (e.attempting k errno later)).1 =
      if (transportFinishConnectErrno e.connection k errno).1.1 = .success then .buildingRequest
      else if (transportFinishConnectErrno e.connection k errno).1.2.isPending then .waitingConnect
      else .error := by
    rw [httpClientWorktaskWaitingConnect, Exchange.attempting]
    simp only [transportFinishConnect_outcome, Errno.isPending, Bool.or_eq_true,
      decide_eq_true_eq, or_assoc]
    split
    · rfl
    · split <;> rfl
  rw [hnext]
  constructor
  · intro hreports pre call post hcalls hpre hcall
    rw [transportFinishConnectErrno_of_failed hcalls hpre hcall] at hreports
    have herror := hreports.failed (by simp) (by simp)
    simpa using herror
  · intro hclear
    rcases List.exists_first_or_none (fun call => !call.ok) (k.calls e.connection) with
      ⟨pre, call, post, hcalls, hpre, hcall⟩ | hall
    · simp only [Bool.not_eq_eq_eq_not, Bool.not_false, Bool.not_true] at hpre hcall
      have hpending := hclear pre call post hcalls hpre hcall
      rw [transportFinishConnectErrno_of_failed hcalls hpre hcall]
      exact ⟨by simp [hpending], by simp [hpending], by simp [hpending]⟩
    · simp only [Bool.not_eq_eq_eq_not, Bool.not_false] at hall
      rcases transportFinishConnectErrno_of_ok errno hall with hres | hres
      · rw [hres]
        exact ⟨by simp, by simp, by simp⟩
      · have hpending : Errno.EAGAIN.isPending = true := rfl
        rw [hres]
        exact ⟨by simp [hpending], by simp [hpending], by simp⟩

/-- A call that succeeds and leaves `errno` alone. -/
def LibCall.quiet : LibCall := ⟨true, none⟩

/-- An attempt that finds the TCP connection made, but no global CA. -/
def noGlobalCa : FinishCalls where
  soError := none
  seed := .quiet
  configDefaults := .quiet
  globalCa := ⟨false, none⟩
  setup := .quiet
  setHostname := .quiet
  handshakeDone := false
  handshake := .done
  handshakeErrno := none

/-- A client that opens a connection to an `https` server without blocking, where `connect`
fails with `EINPROGRESS`. -/
def httpsClient : Exchange :=
  { zeroed with state := .connecting, url := ascii "https://h/", connection := inProgressHost }

/-- **A failed connect is taken for one in progress**: the client waits for the connection, the
value that `connect` has set is still there, no global CA was loaded, and the client waits
again. -/
theorem missing_ca_keeps_waiting :
    ∃ e, exchangeStep httpsClient = .ok e ∧ e.state = .waitingConnect ∧
      (transportFinishConnectErrno e.connection noGlobalCa .EINPROGRESS).1.1 = .io ∧
      (httpClientWorktaskWaitingConnect (e.attempting noGlobalCa .EINPROGRESS [])).1 =
        .waitingConnect ∧
      ¬ ReportsConnect
        (httpClientWorktaskWaitingConnect (e.attempting noGlobalCa .EINPROGRESS [])).1
        (transportFinishConnectErrno e.connection noGlobalCa .EINPROGRESS).1.1 := by
  have hstep : exchangeStep httpsClient =
      .ok { (httpClientWorktaskConnecting httpsClient).2 with state := .waitingConnect } := by
    rfl
  refine ⟨_, hstep, rfl, ?_, ?_, fun h => ?_⟩
  · rfl
  · rfl
  · cases h.waiting.mp rfl

end MaestroCore
