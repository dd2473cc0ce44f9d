import MaestroCore.Connection
import MaestroCore.HttpClient

/-!
# The Whole Exchange and Its Two Drivers

`HTTP_Client` with the fields of its request half, and the workers that connect, build the
request and send it. Together with the reading workers they are the machine that two drivers
run: `http_blocking_work`, a loop with a clock check before every worker call, and
`http_client_taskwork`, one call of which the scheduler makes at a time and which waits for
`next_retry_at` in some of the states.

The clock is read where the code reads it. `clock k` is the reading after `k` further
readings.
-/

open CLang Run

namespace MaestroCore

/-- What the rest of the world answers during a request. -/
structure Environment where
  incoming : List Arrival
  addresses : Option (List Attempt)
  tlsInit : Bool := true
  handshake : List HandshakeStep := []
  finishes : List FinishOutcome := []
  writes : List WriteResult
  clock : ℕ → UInt64

/-- The connection before anything is done with it, in a `Transport` full of zeros. -/
def Environment.connection (env : Environment) : Connection where
  addresses := env.addresses
  tlsInit := env.tlsInit
  handshake := env.handshake
  finishes := env.finishes
  writes := env.writes

/-- `HTTP_Client`, with the clock that it reads. `reqBody` and `reqBodyLen` are `req->body`
and `req->body_len`; `task` is the index of its slot in the scheduler. -/
structure Exchange extends HTTPClient where
  url : Bytes
  urlParts : URLParts := {}
  method : HTTPMethod
  reqBody : Option Bytes := none
  reqBodyLen : ℤ := 0
  requestBuffer : Option Bytes := none
  requestLength : ℤ := 0
  bytesSent : ℕ := 0
  nextRetryAt : UInt64 := 0
  task : Option ℕ := none
  connection : Connection
  clock : ℕ → UInt64

/-- What a worker returns. -/
abbrev Exchanged := Except Fault (HTTPClientState × Exchange)

/-- The clock after a reading of `SystemMonotonicMS`. -/
def Exchange.ticked (e : Exchange) : Exchange := { e with clock := fun k => e.clock (k + 1) }

/-- `_Client->next_retry_at = SystemMonotonicMS() + delay`. -/
def Exchange.retryIn (e : Exchange) (delay : UInt64) : Exchange :=
  { e.ticked with nextRetryAt := e.clock 0 + delay }

@[simp] theorem Exchange.retryIn_toHTTPClient (e : Exchange) (delay : UInt64) :
    (e.retryIn delay).toHTTPClient = e.toHTTPClient := rfl

@[simp] theorem Exchange.retryIn_bytesSent (e : Exchange) (delay : UInt64) :
    (e.retryIn delay).bytesSent = e.bytesSent := rfl

/-! ### Connecting -/

/-- `http_client_worktask_connecting`. -/
def httpClientWorktaskConnecting (e : Exchange) : HTTPClientState × Exchange :=
  match httpParserUrl e.url with
  | .error _ => (.error, e)
  | .ok parts =>
      let (result, connection) := transportInit e.connection parts e.blockingMode
      let e := { e with urlParts := parts, connection := connection }
      if result = .inProgress then (.waitingConnect, e)
      else if result ≠ .success then (.error, e)
      else (.buildingRequest, e)

/-- `http_client_worktask_waiting_connect`. -/
def httpClientWorktaskWaitingConnect (e : Exchange) : HTTPClientState × Exchange :=
  let ((res, errno), connection) := transportFinishConnect e.connection
  let e := { e with connection := connection }
  if res = .success then (.buildingRequest, { e with retries := 0 })
  else if errno = .EINPROGRESS ∨ errno = .EALREADY ∨ errno = .EAGAIN then
    (.waitingConnect, e.retryIn 50)
  else (.error, e)

/-! ### The request -/

/-- The path that the request names. -/
def Exchange.path (e : Exchange) : Bytes :=
  if e.urlParts.path.bytes = [] then ascii "/" else e.urlParts.path.bytes

/-- The length of the body that the request carries. -/
def Exchange.bodyLen (e : Exchange) : ℕ :=
  if e.reqBody ≠ none ∧ 0 < e.reqBodyLen then e.reqBodyLen.toNat else 0

/-- `http_client_worktask_build_request`. -/
def httpClientWorktaskBuildRequest (e : Exchange) : HTTPClientState × Exchange :=
  let host := e.urlParts.host.bytes
  let maxLen := requestMaxLen e.path host e.bodyLen
  let text := requestText e.method e.path host e.bodyLen
  if snprintfLen text < 0 then (.error, { e with requestBuffer := none })
  else if maxLen < text.length + e.bodyLen then (.error, { e with requestBuffer := none })
  else
    (.sendingRequest, { e with
      requestBuffer := some (snprintf maxLen text ++ (e.reqBody.getD []).take e.bodyLen)
      requestLength := toInt (text.length + e.bodyLen)
      bytesSent := 0 })

/-- The part of `http_client_worktask_send_request` that runs after the write. The `int`
counter of the retries wraps around. -/
def httpClientWritten (e : Exchange) : WriteResult → HTTPClientState × Exchange
  | .wrote 0 => (.sendingRequest, { e with retries := toInt (e.retries + 1) }.retryIn 1000)
  | .wrote n =>
      let e := { e with bytesSent := e.bytesSent + n }
      if toSize e.requestLength ≤ e.bytesSent then (.readingFirstline, { e with retries := 0 })
      else (.sendingRequest, e.retryIn 100)
  | .failed errno =>
      if errno.transient then (.sendingRequest, e.retryIn 100)
      else if e.retries < 3 then
        (.sendingRequest, { e with retries := e.retries + 1 }.retryIn 1000)
      else (.error, e)

/-- `http_client_worktask_send_request`. -/
def httpClientWorktaskSendRequest (e : Exchange) : Exchanged :=
  let remaining := toSize (e.requestLength - e.bytesSent)
  let buffer := (e.requestBuffer.getD []).drop e.bytesSent
  if buffer.length < remaining then .error .requestOverread
  else
    let (written, connection) := transportWrite e.connection (buffer.take remaining)
    .ok (httpClientWritten { e with connection := connection } written)

/-! ### The dispatch -/

/-- A reading worker, called on the whole client. -/
def Exchange.read (e : Exchange) (worker : HTTPClient → Worked) : Exchanged := do
  let (s, c) ← worker e.toHTTPClient
  .ok (s, { e with toHTTPClient := c })

/-- The worker of a state, as both drivers call it; the other states have none. -/
def exchangeWork (e : Exchange) : Exchanged :=
  match e.state with
  | .connecting => .ok (httpClientWorktaskConnecting e)
  | .waitingConnect => .ok (httpClientWorktaskWaitingConnect e)
  | .buildingRequest => .ok (httpClientWorktaskBuildRequest e)
  | .sendingRequest => httpClientWorktaskSendRequest e
  | _ => e.read httpClientWork

/-- `c->state = worker(c)`. -/
def exchangeStep (e : Exchange) : Except Fault Exchange := do
  let (s, e) ← exchangeWork e
  .ok { e with state := s }

/-- `http_client_dispose`, without the slot of the scheduler that it frees. -/
def httpClientDispose (e : Exchange) : Exchange :=
  { e with
    task := none
    connection := transportDispose e.connection
    reqBody := none
    headers := none
    resp := {}
    requestBuffer := none
    decodedBody := none
    recvBuf := [] }

/-! ### The blocking driver -/

/-- A blocking call: the client, the clock reading at its start, and the code that it has
returned. The caller's `http_data` is the client's `blockingOut`. -/
structure BlockingCall where
  exchange : Exchange
  timeoutMs : ℤ
  start : UInt64
  result : Option ErrorCode := none

/-- `_timeout_ms > 0 && ((int)now - start) > (uint64_t)_timeout_ms`, where the difference is
one of `uint64_t`. -/
def timedOut (timeoutMs : ℤ) (start now : UInt64) : Bool :=
  0 < timeoutMs ∧ toSize timeoutMs < toSize (toInt now.toNat - start.toNat)

/-- The call destroys its client and returns. -/
def BlockingCall.return (b : BlockingCall) (e : Exchange) (code : ErrorCode) : BlockingCall :=
  { b with exchange := httpClientDispose e, result := some code }

/-- The states for which `http_blocking_work` has a worker. -/
def blockingWorks : HTTPClientState → Bool
  | .connecting | .buildingRequest | .sendingRequest | .readingFirstline | .readingHeaders
  | .decipherChonkiness | .readingBodyChunked | .readingBody | .returning => true
  | _ => false

/-- One iteration of the loop of `http_blocking_work`. -/
def httpBlockingStep (b : BlockingCall) : Except Fault BlockingCall :=
  if b.result ≠ none then .ok b
  else
    let now := b.exchange.clock 0
    let e := b.exchange.ticked
    if timedOut b.timeoutMs b.start now then .ok (b.return e .timeout)
    else if blockingWorks e.state then do
      let e ← exchangeStep e
      .ok { b with exchange := e }
    else if e.state = .disposing then .ok (b.return e .success)
    else .ok (b.return e .io)

/-- The `http_data` that a caller passes in: its buffer, if there is one, holds at least
`size` bytes. -/
structure HTTPInput where
  addr : Option Bytes
  size : ℤ
  fits : ∀ b ∈ addr, size ≤ b.length

/-- The client that `calloc` makes, with the URL and the output of the caller. -/
def blockingClient (url : Bytes) (method : HTTPMethod) (out : Option HTTPData)
    (env : Environment) : Exchange where
  state := .initializing
  transport := ⟨env.incoming⟩
  blockingMode := true
  blockingOut := out
  onSuccess := false
  url := url
  method := method
  connection := env.connection
  clock := env.clock

/-- An `HTTP_Client` of zero bytes; the method with the value 0 is `HTTP_OPTIONS`. -/
def zeroed : Exchange where
  state := .initializing
  transport := ⟨[]⟩
  blockingMode := false
  blockingOut := none
  onSuccess := false
  url := []
  method := .options
  connection :=
    { addresses := none, tlsInit := false, handshake := [], finishes := [], writes := [] }
  clock := fun _ => 0

/-- `http_blocking_work`, up to its loop. -/
def httpBlockingWork (url : Bytes) (method : HTTPMethod) (input : Option HTTPInput)
    (out : Option HTTPData) (timeoutMs : ℤ) (env : Environment) : BlockingCall :=
  let e := blockingClient url method out env
  let e :=
    match input with
    | some ⟨some addr, size, _⟩ =>
        if 0 < size then
          { e with reqBody := some (addr.take size.toNat), reqBodyLen := toInt size }
        else e
    | _ => e
  { exchange := { e.ticked with state := .connecting }
    timeoutMs := timeoutMs
    start := e.clock 0 }

/-- A call that returns `ERR_INVALID_ARG` before it does anything. -/
def refused (out : Option HTTPData) (timeoutMs : ℤ) (env : Environment) : BlockingCall where
  exchange := blockingClient [] .get out env
  timeoutMs := timeoutMs
  start := 0
  result := some .invalidArg

/-- `http_blocking_get`. -/
def httpBlockingGet (url : Option Bytes) (out : Option HTTPData) (timeoutMs : ℤ)
    (env : Environment) : BlockingCall :=
  match url, out with
  | some url, some _ => httpBlockingWork url .get none (some {}) timeoutMs env
  | _, _ => refused out timeoutMs env

/-- `http_blocking_post`. -/
def httpBlockingPost (url : Option Bytes) (input : Option HTTPInput) (out : Option HTTPData)
    (timeoutMs : ℤ) (env : Environment) : BlockingCall :=
  match url, input with
  | some url, some input =>
      if input.size < 0 then refused out timeoutMs env
      else
        httpBlockingWork url .post (some input) (out.map fun _ => {}) timeoutMs env
  | _, _ => refused out timeoutMs env

/-- The call returns the code, with the caller's `http_data` as given. -/
def Returns (b : BlockingCall) (code : ErrorCode) (out : Option HTTPData) : Prop :=
  ∃ b', Reaches httpBlockingStep b b' ∧ b'.result = some code ∧ b'.exchange.blockingOut = out

/-! ### The scheduled driver -/

/-- The states in which `http_client_taskwork` waits for `next_retry_at`. -/
def waitsForRetry : HTTPClientState → Bool
  | .connecting | .sendingRequest | .readingFirstline | .readingHeaders | .readingBody => true
  | _ => false

/-- `http_client_taskwork`. -/
def httpClientTaskwork (e : Exchange) : Except Fault Exchange :=
  let now := e.clock 0
  let e := e.ticked
  match e.state with
  | .initializing => .ok e
  | .error => .ok { e with state := .disposing }
  | .disposing => .ok (httpClientDispose e)
  | s => if waitsForRetry s ∧ now < e.nextRetryAt then .ok e else exchangeStep e

/-- The client after `http_client_initiate` has succeeded on a struct with the contents
`prior`: it keeps what the function does not set. -/
def initiated (prior : Exchange) (url : Bytes) (onSuccess : Bool) (task : ℕ)
    (env : Environment) : Exchange where
  -- what the function sets
  task := some task
  onSuccess := onSuccess
  url := url
  state := .connecting
  nextRetryAt := env.clock 0
  blockingOut := none
  blockingMode := false
  -- what it leaves alone
  method := prior.method
  requestBuffer := prior.requestBuffer
  -- the world outside
  transport := ⟨env.incoming⟩
  connection := { env.connection with
    fd := prior.connection.fd
    useTls := prior.connection.useTls
    useBlocking := prior.connection.useBlocking
    tlsInitiated := prior.connection.tlsInitiated }
  clock := fun k => env.clock (k + 1)

/-! ### A server that can be reached -/

/-- An address to which the client connects at once, with the descriptor 3. -/
def connects : Attempt where
  socket := some 3
  setNonblocking := true
  connect := .connected
  poll := .ready
  soError := none
  setBlocking := true

/-- A server at this address that takes the writes and sends the arrivals. -/
def reachableServer (incoming : List Arrival) (writes : List WriteResult) (clock : ℕ → UInt64) :
    Environment where
  incoming := incoming
  addresses := some [connects]
  handshake := [.done]
  writes := writes
  clock := clock

end MaestroCore
