import MaestroCore.HttpRequest
import MaestroCore.Transport

/-!
# Sockets, TLS and the Sending Side of the Transport

The rest of `transport.c` with the functions of `tcp_client.c` under it: opening a
connection, finishing it, writing, and disposing of it. What the operating system and the TLS
library answer is given in advance, call by call: the addresses of the host with the outcome
of every call made for each of them, the steps of the handshake, and the results of the
writes. A `do`-`while` around a call that was interrupted is left out, since its last result
decides.

The model keeps a record of the descriptors that were opened and closed, and of the bytes
that the transport has accepted.
-/

open CLang

namespace MaestroCore

/-- A call that concerns a descriptor. -/
inductive FdEvent
  /-- `socket` returned the descriptor. -/
  | opened (fd : ℤ)
  /-- The descriptor was passed to `close`. -/
  | closed (fd : ℤ)
  deriving DecidableEq, Repr

/-- What `connect` returns. -/
inductive ConnectResult
  | connected
  | failed (errno : Errno)
  deriving DecidableEq, Repr

/-- What `poll` reports about a socket that is connecting. -/
inductive PollResult
  | ready
  | timeout
  | failed
  deriving DecidableEq, Repr

/-- The outcomes of the calls made for one address of a host, in their order. -/
structure Attempt where
  /-- The descriptor that `socket` returns, `none` for a failure. -/
  socket : Option ℕ
  /-- `tcp_client_set_nonblocking(fd, 1)` succeeds. -/
  setNonblocking : Bool
  connect : ConnectResult
  poll : PollResult
  /-- The error that `tcp_client_finish_connect` finds, `none` for success. -/
  soError : Option Errno
  /-- `tcp_client_set_nonblocking(fd, 0)` succeeds. -/
  setBlocking : Bool
  deriving DecidableEq, Repr

/-- What one `tls_client_handshake_step` returns. -/
inductive HandshakeStep
  | done
  | inProgress
  | failed
  deriving DecidableEq, Repr

/-- The outcomes of the calls made by one `transport_finish_connect`. -/
structure FinishOutcome where
  soError : Option Errno
  tlsInit : Bool
  handshake : HandshakeStep
  /-- The value of `errno` after a failure of the TLS library. -/
  errno : Errno
  deriving DecidableEq, Repr

/-- What a write returns: the number of bytes it would accept at most, or a failure. -/
inductive WriteResult
  | wrote (n : ℕ)
  | failed (errno : Errno)
  deriving DecidableEq, Repr

/-- The fields of `Transport` that say how it is connected, what the calls to come answer,
and the record of what has been done. `calloc` and `memset` set the descriptor to 0. -/
structure Connection where
  fd : ℤ := 0
  useTls : Bool := false
  useBlocking : Bool := false
  tlsInitiated : Bool := false
  /-- The addresses that `getaddrinfo` finds, `none` when it fails. -/
  addresses : Option (List Attempt)
  /-- `tls_client_init` succeeds. -/
  tlsInit : Bool
  handshake : List HandshakeStep
  finishes : List FinishOutcome
  writes : List WriteResult
  sent : Bytes := []
  events : List FdEvent := []
  deriving DecidableEq, Repr

/-! ### TCP -/

/-- A `socket` call that returned the descriptor. -/
def Connection.socket (c : Connection) (fd : ℤ) : Connection :=
  { c with events := c.events ++ [.opened fd] }

/-- `close`. -/
def Connection.close (c : Connection) (fd : ℤ) : Connection :=
  { c with events := c.events ++ [.closed fd] }

/-- `tcp_client_dispose`. -/
def tcpClientDispose (c : Connection) : Connection :=
  if 0 ≤ c.fd then { c.close c.fd with fd := -1 } else c

/-- The `last_err` after the connect of one address: it keeps its value when `connect` fails
for good. -/
def attemptResult (a : Attempt) (lastErr : ErrorCode) : ErrorCode :=
  match a.connect with
  | .connected => .success
  | .failed .EINPROGRESS | .failed .EALREADY =>
      match a.poll with
      | .timeout => .timeout
      | .failed => .io
      | .ready => if a.soError = none then .success else .io
  | .failed .EISCONN => .success
  | .failed _ => lastErr

/-- The loop of `tcp_client_blocking_init` over the addresses. -/
def tcpClientBlockingLoop : List Attempt → ErrorCode → Connection → ErrorCode × Connection
  | [], lastErr, c => (lastErr, c)
  | a :: rest, lastErr, c =>
      match a.socket with
      | none => tcpClientBlockingLoop rest lastErr c
      | some fd =>
          let c := c.socket fd
          if a.setNonblocking then
            let lastErr := attemptResult a lastErr
            if lastErr = .success then
              if a.setBlocking then (.success, { c with fd := fd })
              else tcpClientBlockingLoop rest .io (c.close fd)
            else tcpClientBlockingLoop rest lastErr (c.close fd)
          else tcpClientBlockingLoop rest lastErr (c.close fd)

/-- `tcp_client_blocking_init`. -/
def tcpClientBlockingInit (c : Connection) : ErrorCode × Connection :=
  let c := { c with fd := -1 }
  match c.addresses with
  | none => (.io, c)
  | some attempts => tcpClientBlockingLoop attempts .io c

/-- The loop of `tcp_client_init` over the addresses. -/
def tcpClientInitLoop : List Attempt → Connection → ErrorCode × Connection
  | [], c => (.io, c)
  | a :: rest, c =>
      match a.socket with
      | none => tcpClientInitLoop rest c
      | some fd =>
          let c := c.socket fd
          if a.setNonblocking then
            match a.connect with
            | .connected => (.success, { c with fd := fd })
            | .failed .EINPROGRESS => (.inProgress, { c with fd := fd })
            | .failed _ => tcpClientInitLoop rest (c.close fd)
          else tcpClientInitLoop rest (c.close fd)

/-- `tcp_client_init`. -/
def tcpClientInit (c : Connection) : ErrorCode × Connection :=
  let c := { c with fd := -1 }
  match c.addresses with
  | none => (.io, c)
  | some attempts => tcpClientInitLoop attempts c

/-! ### The transport -/

/-- The handshake loop of `transport_init`. A handshake that the peer leaves unanswered
fails. -/
def handshakeLoop : List HandshakeStep → ErrorCode × List HandshakeStep
  | [] => (.io, [])
  | .done :: later => (.success, later)
  | .inProgress :: later => handshakeLoop later
  | .failed :: later => (.io, later)

/-- The schemes that `transport_init` knows, with the letters in any case. -/
def isHttp (scheme : Bytes) : Bool :=
  scheme.map tolower = ascii "https" || scheme.map tolower = ascii "http"

/-- `transport_init`. -/
def transportInit (c : Connection) (parts : URLParts) (useBlocking : Bool) :
    ErrorCode × Connection :=
  if parts.host.bytes = [] ∨ parts.port.bytes = [] ∨ parts.scheme.bytes = [] then (.invalidArg, c)
  else
    let scheme := parts.scheme.bytes
    let c := { c with fd := 0, useTls := false, useBlocking := useBlocking, tlsInitiated := false }
    if isHttp scheme then
      let c := { c with useTls := scheme.map tolower = ascii "https" }
      let (res, c) := if useBlocking then tcpClientBlockingInit c else tcpClientInit c
      if res ≠ .success ∧ res ≠ .inProgress then (res, c)
      else if c.useTls ∧ useBlocking then
        if c.tlsInit then
          let (res, later) := handshakeLoop c.handshake
          (res, { c with tlsInitiated := true, handshake := later })
        else (.io, tcpClientDispose c)
      else (res, c)
    else (.badFormat, c)

/-- `transport_finish_connect`, with the value that `errno` has after a failure. A connect
of which nothing more is known would block. -/
def transportFinishConnect (c : Connection) : (ErrorCode × Errno) × Connection :=
  match c.finishes with
  | [] => ((.io, .EAGAIN), c)
  | o :: later =>
      let c := { c with finishes := later }
      match c.useBlocking, o.soError with
      | false, some e => ((.io, e), c)
      | blocking, _ =>
          if c.useTls then
            if !blocking && !c.tlsInitiated && !o.tlsInit then ((.io, o.errno), c)
            else
              let c := if blocking then c else { c with tlsInitiated := true }
              match o.handshake with
              | .done => ((.success, o.errno), c)
              | .inProgress => ((.inProgress, .EAGAIN), c)
              | .failed => ((.io, o.errno), c)
          else ((.success, o.errno), c)

/-- `transport_write` of the given bytes. It accepts at most the bytes it is given; a
transport that says nothing more would block. -/
def transportWrite (c : Connection) (buf : Bytes) : WriteResult × Connection :=
  match c.writes with
  | [] => (.failed .EAGAIN, c)
  | .failed e :: later => (.failed e, { c with writes := later })
  | .wrote n :: later =>
      (.wrote (min n buf.length), { c with writes := later, sent := c.sent ++ buf.take n })

/-- `transport_dispose`. -/
def transportDispose (c : Connection) : Connection := tcpClientDispose c

end MaestroCore
