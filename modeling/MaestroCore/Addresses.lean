import MaestroCore.Connection

/-!
# The Addresses of a Host

`tcp_client_blocking_init` and `tcp_client_init` go through the addresses that `getaddrinfo`
has found and keep the socket of the first one that they can connect to. Every way to give up
an address has to close its socket, and the error of an address is carried over to the next
one in a variable that is not always written.

## Main results

* `blockingLoop_skip` and `initLoop_skip`: the addresses that cannot be used are tried and
  closed, one after the other.
* `first_usable_address_kept`: both functions keep the socket of the first address that can be
  used and close every other one that they have opened, once.
-/

open CLang

namespace MaestroCore

/-! ### Which addresses can be used -/

/-- The address is connected at once, or after a wait that ends well. -/
def Attempt.isConnected (a : Attempt) : Bool :=
  match a.connect with
  | .connected => true
  | .failed .EINPROGRESS | .failed .EALREADY => a.poll = .ready && a.soError = none
  | .failed .EISCONN => true
  | .failed _ => false

/-- The address is connected, and its socket is switched back to blocking mode. -/
def Attempt.usableBlocking (a : Attempt) : Bool :=
  a.socket.isSome && a.setNonblocking && a.isConnected && a.setBlocking

/-- The address is connected at once, or its connect is in progress. -/
def Attempt.usableNonblocking (a : Attempt) : Bool :=
  a.socket.isSome && a.setNonblocking &&
    (a.connect = .connected || a.connect = .failed .EINPROGRESS)

/-- The sockets of addresses that are given up: each is opened and closed. -/
def closedSockets (attempts : List Attempt) : List FdEvent :=
  attempts.flatMap fun a =>
    match a.socket with
    | none => []
    | some fd => [.opened fd, .closed fd]

/-- The connection after addresses that were given up. -/
def Connection.skipped (c : Connection) (attempts : List Attempt) : Connection :=
  { c with events := c.events ++ closedSockets attempts }

/-- The connection after an address whose socket it keeps. -/
def Connection.kept (c : Connection) (fd : ℕ) : Connection :=
  { c with events := c.events ++ [.opened fd], fd := fd }

section Loops

variable {a : Attempt} {pre : List Attempt} {c : Connection} {lastErr : ErrorCode}

/-- Skipping no address changes nothing. -/
theorem Connection.skipped_nil (c : Connection) : c.skipped [] = c := by
  simp [Connection.skipped, closedSockets]

/-- Skipping one address and then the others is skipping them all. -/
theorem Connection.skipped_cons (c : Connection) (a : Attempt) (attempts : List Attempt) :
    (c.skipped [a]).skipped attempts = c.skipped (a :: attempts) := by
  simp [Connection.skipped, closedSockets]

/-- What `last_err` holds between two addresses. -/
def IsConnectError (code : ErrorCode) : Prop := code = .io ∨ code = .timeout

/-- An address that is connected sets `last_err` to success. -/
theorem attemptResult_of_connected (h : a.isConnected = true) :
    attemptResult a lastErr = .success := by
  rw [Attempt.isConnected] at h
  rw [attemptResult]
  split at h <;> simp_all

/-- An address that is not connected leaves an error, its own or that of an earlier one. -/
theorem attemptResult_of_not_connected (h : a.isConnected = false)
    (herr : IsConnectError lastErr) : IsConnectError (attemptResult a lastErr) := by
  rw [Attempt.isConnected] at h
  rw [attemptResult]
  cases hconnect : a.connect with
  | connected =>
      rw [hconnect] at h
      cases h
  | failed errno =>
      rw [hconnect] at h
      cases errno with
      | EAGAIN | EWOULDBLOCK | EINTR | other _ => exact herr
      | EISCONN => cases h
      | EINPROGRESS | EALREADY =>
          cases hpoll : a.poll with
          | timeout => exact Or.inr rfl
          | failed => exact Or.inl rfl
          | ready =>
              have hso : a.soError ≠ none := by simpa [hpoll] using h
              simp only [if_neg hso]
              exact Or.inl rfl

/-! ### The loops -/

/-- An address that cannot be used is given up. -/
theorem blockingLoop_cons_skip (attempts : List Attempt) (h : a.usableBlocking = false)
    (herr : IsConnectError lastErr) :
    ∃ lastErr', IsConnectError lastErr' ∧
      tcpClientBlockingLoop (a :: attempts) lastErr c =
        tcpClientBlockingLoop attempts lastErr' (c.skipped [a]) := by
  rw [tcpClientBlockingLoop]
  cases hsocket : a.socket with
  | none =>
      refine ⟨lastErr, herr, ?_⟩
      simp [Connection.skipped, closedSockets, hsocket]
  | some fd =>
      have hskipped : (c.socket fd).close fd = c.skipped [a] := by
        simp [Connection.skipped, closedSockets, hsocket, Connection.socket, Connection.close]
      simp only [hskipped]
      cases hmode : a.setNonblocking with
      | false => exact ⟨lastErr, herr, rfl⟩
      | true =>
          simp only [if_true]
          cases hconnected : a.isConnected with
          | false =>
              have hresult := attemptResult_of_not_connected hconnected herr
              have hne : attemptResult a lastErr ≠ .success := by
                rcases hresult with hresult | hresult <;> simp [hresult]
              exact ⟨_, hresult, if_neg hne⟩
          | true =>
              have hback : a.setBlocking = false := by
                simpa [Attempt.usableBlocking, hsocket, hmode, hconnected] using h
              simp only [attemptResult_of_connected hconnected, hback, if_true, Bool.false_eq_true,
                if_false]
              exact ⟨.io, Or.inl rfl, rfl⟩

/-- An address that can be used is kept. -/
theorem blockingLoop_cons_kept (attempts : List Attempt) (lastErr : ErrorCode)
    (h : a.usableBlocking = true) : ∃ fd, a.socket = some fd ∧
      tcpClientBlockingLoop (a :: attempts) lastErr c = (.success, c.kept fd) := by
  simp only [Attempt.usableBlocking, Bool.and_eq_true] at h
  obtain ⟨⟨⟨hsocket, hmode⟩, hconnected⟩, hback⟩ := h
  obtain ⟨fd, hfd⟩ := Option.isSome_iff_exists.mp hsocket
  refine ⟨fd, hfd, ?_⟩
  rw [tcpClientBlockingLoop, hfd]
  simp only [hmode, attemptResult_of_connected hconnected, hback, if_true]
  rfl

/-- **The addresses that cannot be used are given up one after the other.** -/
theorem blockingLoop_skip (post : List Attempt) (h : ∀ x ∈ pre, x.usableBlocking = false)
    (herr : IsConnectError lastErr) :
    ∃ lastErr', IsConnectError lastErr' ∧
      tcpClientBlockingLoop (pre ++ post) lastErr c =
        tcpClientBlockingLoop post lastErr' (c.skipped pre) := by
  induction pre generalizing lastErr c with
  | nil => exact ⟨lastErr, herr, by rw [Connection.skipped_nil]; rfl⟩
  | cons a pre ih =>
      obtain ⟨lastErr₁, herr₁, heq₁⟩ :=
        blockingLoop_cons_skip (c := c) (pre ++ post) (h a List.mem_cons_self) herr
      obtain ⟨lastErr₂, herr₂, heq₂⟩ := ih (c := c.skipped [a])
        (fun x hx => h x (List.mem_cons_of_mem a hx)) herr₁
      refine ⟨lastErr₂, herr₂, ?_⟩
      rw [List.cons_append, heq₁, heq₂, Connection.skipped_cons]

/-- An unusable address is skipped. -/
theorem initLoop_cons_skip (attempts : List Attempt) (h : a.usableNonblocking = false) :
    tcpClientInitLoop (a :: attempts) c = tcpClientInitLoop attempts (c.skipped [a]) := by
  rw [tcpClientInitLoop]
  cases hsocket : a.socket with
  | none => simp [Connection.skipped, closedSockets, hsocket]
  | some fd =>
      have hskipped : (c.socket fd).close fd = c.skipped [a] := by
        simp [Connection.skipped, closedSockets, hsocket, Connection.socket, Connection.close]
      simp only [hskipped]
      cases hmode : a.setNonblocking with
      | false => rfl
      | true =>
          simp only [Attempt.usableNonblocking, hsocket, hmode, Option.isSome_some, Bool.and_true,
            Bool.true_and, Bool.or_eq_false_iff, decide_eq_false_iff_not] at h
          cases hconnect : a.connect with
          | connected => exact absurd hconnect h.1
          | failed errno =>
              cases errno with
              | EINPROGRESS => exact absurd hconnect h.2
              | EAGAIN | EWOULDBLOCK | EINTR | EALREADY | EISCONN | other _ => rfl

/-- At a usable address the loop ends with its socket. -/
theorem initLoop_cons_kept (attempts : List Attempt) (h : a.usableNonblocking = true) :
    ∃ fd, a.socket = some fd ∧ tcpClientInitLoop (a :: attempts) c =
      (if a.connect = .connected then .success else .inProgress, c.kept fd) := by
  simp only [Attempt.usableNonblocking, Bool.and_eq_true, Bool.or_eq_true,
    decide_eq_true_eq] at h
  obtain ⟨⟨hsocket, hmode⟩, hconnect⟩ := h
  obtain ⟨fd, hfd⟩ := Option.isSome_iff_exists.mp hsocket
  refine ⟨fd, hfd, ?_⟩
  rw [tcpClientInitLoop, hfd]
  rcases hconnect with hconnect | hconnect
  · simp only [hmode, hconnect, if_true]
    rfl
  · simp only [hmode, hconnect, if_true]
    rfl

/-- All the unusable addresses in front are skipped. -/
theorem initLoop_skip (post : List Attempt) (h : ∀ x ∈ pre, x.usableNonblocking = false) :
    tcpClientInitLoop (pre ++ post) c = tcpClientInitLoop post (c.skipped pre) := by
  induction pre generalizing c with
  | nil =>
      rw [Connection.skipped_nil]
      rfl
  | cons a pre ih =>
      rw [List.cons_append, initLoop_cons_skip _ (h a List.mem_cons_self),
        ih fun x hx => h x (List.mem_cons_of_mem a hx), Connection.skipped_cons]

end Loops

/-! ### The first address that can be used -/

/-- A function that goes through the addresses and ends well with `connected`: it does so iff
some address can be used, and then the connection has the socket of the first one, and every
other socket that was opened was closed once. Otherwise there is no socket, and all that were
opened were closed once. -/
structure KeepsFirst (usable : Attempt → Bool) (attempts : List Attempt) (c c' : Connection)
    (connected : Prop) : Prop where
  connected_iff : connected ↔ ∃ a ∈ attempts, usable a = true
  kept : ∀ pre a post, attempts = pre ++ a :: post → (∀ x ∈ pre, usable x = false) →
    usable a = true → ∃ fd, a.socket = some fd ∧ c'.fd = fd ∧
      c'.events = c.events ++ closedSockets pre ++ [.opened fd]
  unconnected : (∀ a ∈ attempts, usable a = false) →
    c'.fd = -1 ∧ c'.events = c.events ++ closedSockets attempts

/-- It is enough to look at the first address that can be used, or at none. -/
theorem keepsFirst_of_cases {usable : Attempt → Bool} {attempts : List Attempt}
    {c c' : Connection} {connected : Prop}
    (hkept : ∀ pre a post, attempts = pre ++ a :: post → (∀ x ∈ pre, usable x = false) →
      usable a = true → connected ∧ ∃ fd, a.socket = some fd ∧
        c' = ({ c with fd := -1 }.skipped pre).kept fd)
    (hnone : (∀ a ∈ attempts, usable a = false) →
      ¬ connected ∧ c' = { c with fd := -1 }.skipped attempts) :
    KeepsFirst usable attempts c c' connected where
  connected_iff := by
    rcases List.exists_first_or_none usable attempts with ⟨pre, a, post, heq, hpre, ha⟩ | hall
    · exact iff_of_true (hkept pre a post heq hpre ha).1 ⟨a, by simp [heq], ha⟩
    · refine iff_of_false (hnone hall).1 ?_
      rintro ⟨a, hmem, ha⟩
      cases (hall a hmem).symm.trans ha
  kept := by
    intro pre a post heq hpre ha
    obtain ⟨-, fd, hfd, rfl⟩ := hkept pre a post heq hpre ha
    exact ⟨fd, hfd, rfl, rfl⟩
  unconnected := by
    intro hall
    obtain ⟨-, rfl⟩ := hnone hall
    exact ⟨rfl, rfl⟩

/-- With the addresses looked up the blocking start is its loop over them. -/
theorem tcpClientBlockingInit_eq {attempts : List Attempt} {c : Connection}
    (h : c.addresses = some attempts) :
    tcpClientBlockingInit c = tcpClientBlockingLoop attempts .io { c with fd := -1 } := by
  simp only [tcpClientBlockingInit, h]

/-- The result of `tcp_client_blocking_init` with the first address that can be used. -/
theorem tcpClientBlockingInit_of_first {pre post : List Attempt} {a : Attempt} {c : Connection}
    (h : c.addresses = some (pre ++ a :: post)) (hpre : ∀ x ∈ pre, x.usableBlocking = false)
    (ha : a.usableBlocking = true) :
    ∃ fd, a.socket = some fd ∧ tcpClientBlockingInit c =
      (.success, ({ c with fd := -1 }.skipped pre).kept fd) := by
  obtain ⟨lastErr, -, hskip⟩ :=
    blockingLoop_skip (c := { c with fd := -1 }) (a :: post) hpre (Or.inl rfl)
  obtain ⟨fd, hfd, hkept⟩ :=
    blockingLoop_cons_kept (c := { c with fd := -1 }.skipped pre) post lastErr ha
  refine ⟨fd, hfd, ?_⟩
  rw [tcpClientBlockingInit_eq h, hskip, hkept]

/-- The result of `tcp_client_blocking_init` without such an address. -/
theorem tcpClientBlockingInit_of_none {attempts : List Attempt} {c : Connection}
    (h : c.addresses = some attempts) (hall : ∀ a ∈ attempts, a.usableBlocking = false) :
    ∃ code, IsConnectError code ∧
      tcpClientBlockingInit c = (code, { c with fd := -1 }.skipped attempts) := by
  obtain ⟨lastErr, herr, hskip⟩ :=
    blockingLoop_skip (c := { c with fd := -1 }) [] hall (Or.inl rfl)
  rw [List.append_nil] at hskip
  refine ⟨lastErr, herr, ?_⟩
  rw [tcpClientBlockingInit_eq h, hskip, tcpClientBlockingLoop]

/-- The blocking start keeps the first address that is usable to it, and succeeds exactly when there
is one. -/
theorem blockingInit_keepsFirst {attempts : List Attempt} {c : Connection}
    (h : c.addresses = some attempts) :
    KeepsFirst Attempt.usableBlocking attempts c (tcpClientBlockingInit c).2
      ((tcpClientBlockingInit c).1 = .success) := by
  refine keepsFirst_of_cases (fun pre a post heq hpre ha => ?_) fun hall => ?_
  · obtain ⟨fd, hfd, hinit⟩ := tcpClientBlockingInit_of_first (heq ▸ h) hpre ha
    rw [hinit]
    exact ⟨rfl, fd, hfd, rfl⟩
  · obtain ⟨code, herr, hinit⟩ := tcpClientBlockingInit_of_none h hall
    rw [hinit]
    refine ⟨?_, rfl⟩
    rcases herr with rfl | rfl <;> simp

/-- With the addresses looked up the non-blocking start is its loop over them. -/
theorem tcpClientInit_eq {attempts : List Attempt} {c : Connection}
    (h : c.addresses = some attempts) :
    tcpClientInit c = tcpClientInitLoop attempts { c with fd := -1 } := by
  simp only [tcpClientInit, h]

/-- The result of `tcp_client_init` with the first address that can be used. -/
theorem tcpClientInit_of_first {pre post : List Attempt} {a : Attempt} {c : Connection}
    (h : c.addresses = some (pre ++ a :: post)) (hpre : ∀ x ∈ pre, x.usableNonblocking = false)
    (ha : a.usableNonblocking = true) :
    ∃ fd, a.socket = some fd ∧ tcpClientInit c =
      (if a.connect = .connected then .success else .inProgress,
        ({ c with fd := -1 }.skipped pre).kept fd) := by
  obtain ⟨fd, hfd, hkept⟩ := initLoop_cons_kept (c := { c with fd := -1 }.skipped pre) post ha
  refine ⟨fd, hfd, ?_⟩
  rw [tcpClientInit_eq h, initLoop_skip _ hpre, hkept]

/-- The result of `tcp_client_init` without such an address. -/
theorem tcpClientInit_of_none {attempts : List Attempt} {c : Connection}
    (h : c.addresses = some attempts) (hall : ∀ a ∈ attempts, a.usableNonblocking = false) :
    tcpClientInit c = (.io, { c with fd := -1 }.skipped attempts) := by
  have hskip := initLoop_skip (c := { c with fd := -1 }) [] hall
  rw [List.append_nil] at hskip
  rw [tcpClientInit_eq h, hskip, tcpClientInitLoop]

/-- The non-blocking start keeps the first address that is usable to it, and reports success or a
connect in progress exactly when there is one. -/
theorem init_keepsFirst {attempts : List Attempt} {c : Connection}
    (h : c.addresses = some attempts) :
    KeepsFirst Attempt.usableNonblocking attempts c (tcpClientInit c).2
      ((tcpClientInit c).1 = .success ∨ (tcpClientInit c).1 = .inProgress) := by
  refine keepsFirst_of_cases (fun pre a post heq hpre ha => ?_) fun hall => ?_
  · obtain ⟨fd, hfd, hinit⟩ := tcpClientInit_of_first (heq ▸ h) hpre ha
    rw [hinit]
    refine ⟨?_, fd, hfd, rfl⟩
    split
    · exact Or.inl rfl
    · exact Or.inr rfl
  · rw [tcpClientInit_of_none h hall]
    exact ⟨by simp, rfl⟩

/-- **The first address that can be used is kept, and every other socket is closed**, for every
list of addresses and whatever the calls for each of them return. -/
theorem first_usable_address_kept (attempts : List Attempt) (c : Connection) :
    KeepsFirst Attempt.usableBlocking attempts c
      (tcpClientBlockingInit { c with addresses := some attempts }).2
      ((tcpClientBlockingInit { c with addresses := some attempts }).1 = .success) ∧
    KeepsFirst Attempt.usableNonblocking attempts c
      (tcpClientInit { c with addresses := some attempts }).2
      ((tcpClientInit { c with addresses := some attempts }).1 = .success ∨
        (tcpClientInit { c with addresses := some attempts }).1 = .inProgress) := by
  obtain ⟨hiff, hkept, hnone⟩ :=
    blockingInit_keepsFirst (c := { c with addresses := some attempts }) rfl
  obtain ⟨hiff', hkept', hnone'⟩ :=
    init_keepsFirst (c := { c with addresses := some attempts }) rfl
  exact ⟨⟨hiff, hkept, hnone⟩, ⟨hiff', hkept', hnone'⟩⟩

end MaestroCore
