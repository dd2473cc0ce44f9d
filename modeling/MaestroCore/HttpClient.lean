import MaestroCore.Lib.Run
import MaestroCore.HttpParser
import MaestroCore.Transport

/-!
# The Reading Half of the HTTP Client

The workers of `http_client.c` from `HTTP_CLIENT_READING_FIRSTLINE` to
`HTTP_CLIENT_RETURNING`, which turn the bytes of a response into the body that the caller
receives. They share one receive buffer: each appends what it reads and removes what it
has used.

A worker returns the next state together with the client. `httpClientReadStep` is the
dispatch of one worker call, as it stands in `http_blocking_work` and in
`http_client_taskwork`; a state without an arm here is left alone. `start` is the client
when the request has been sent: the state `HTTP_CLIENT_READING_FIRSTLINE` with an empty
receive buffer.

The buffers are lists of bytes, so `recv_buf->size` and `decoded_body_len` are their
lengths. A copy of more bytes than a buffer holds stops with a `Fault`.
-/

open CLang Run

namespace MaestroCore

/-- `HTTPClientState`. -/
inductive HTTPClientState
  | initializing
  | connecting
  | waitingConnect
  | buildingRequest
  | sendingRequest
  | readingFirstline
  | readingHeaders
  | decipherChonkiness
  | readingBodyChunked
  | readingBody
  | returning
  | disposing
  | error
  deriving DecidableEq, Repr

/-- The states of the reading phase. -/
def HTTPClientState.reading : HTTPClientState → Bool
  | .readingFirstline | .readingHeaders | .decipherChonkiness | .readingBodyChunked
  | .readingBody | .returning => true
  | _ => false

/-- `http_data`: an allocated buffer or `NULL`, and its size. -/
structure HTTPData where
  addr : Option Bytes := none
  size : ℤ := 0
  deriving DecidableEq, Repr

/-- `HTTP_Client`, with the fields that the reading workers use. `headers` is
`req->headers`; `onSuccess` says that the callback is set, and `responses` lists the
buffers it has been called with. -/
structure HTTPClient where
  state : HTTPClientState
  transport : Transport
  recvBuf : Bytes := []
  decodedBody : Option Bytes := none
  chunkRemaining : ℕ := 0
  contentLength : ℤ := 0
  retries : ℤ := 0
  headers : Option (List HTTPKeyValue) := none
  resp : HTTPResponse := {}
  blockingMode : Bool
  blockingOut : Option HTTPData
  onSuccess : Bool
  responses : List Bytes := []
  deriving DecidableEq, Repr

/-- What a worker returns. -/
abbrev Worked := Except Fault (HTTPClientState × HTTPClient)

/-- One `transport_read` into a local `read_buf`, the way every reading worker makes it: a
transient failure keeps the state `again`, any other failure is an error, and what was
read is appended to `recv_buf`. The workers differ in what they do after the peer has
closed and after bytes have come. -/
def receive (c : HTTPClient) (len : ℕ) (again : HTTPClientState)
    (onClosed onBytes : HTTPClient → Worked) : Worked :=
  match transportRead c.transport len with
  | (.failed e, t) => .ok (if e.transient then again else .error, { c with transport := t })
  | (.zero, t) => onClosed { c with transport := t }
  | (.bytes b, t) =>
      onBytes { c with transport := t, recvBuf := bufferAppend c.recvBuf b }

/-- The worker goes to the given state. -/
def goto (s : HTTPClientState) (c : HTTPClient) : Worked := .ok (s, c)

/-! ### The status line -/

/-- The part of `http_client_worktask_read_firstline` that runs after bytes have come: the
status line is parsed and removed from the buffer once its end has been found. -/
def httpClientFirstline (c : HTTPClient) : Worked :=
  if c.recvBuf = [] then goto .readingFirstline c
  else
    let lineEnd := httpParserFindLineEnd c.recvBuf
    if lineEnd < 0 then
      -- No line end yet: wait for more, unless the line is already too long.
      if 1024 ≤ c.recvBuf.length then goto .error c else goto .readingFirstline c
    else
      let lineLen := lineEnd.toNat
      if lineLen = 0 ∨ 1024 ≤ lineLen then goto .error c
      else do
        let (code, resp) ← httpParserResponseFirstline (c.recvBuf.take lineLen) c.resp
        if code ≠ .success then goto .error { c with resp := resp }
        else
          goto .readingHeaders
            { c with resp := resp, recvBuf := c.recvBuf.drop (lineLen + 2) }

/-- `http_client_worktask_read_firstline`. -/
def httpClientWorktaskReadFirstline (c : HTTPClient) : Worked :=
  receive c 8095 .readingFirstline (goto .error) httpClientFirstline

/-! ### The header block -/

/-- The value of `Transfer-Encoding` mentions `chunked`. -/
def transferEncodingChunked (headers : List HTTPKeyValue) : Bool :=
  match httpParserGetHeaderValue headers (ascii "Transfer-Encoding") with
  | .ok value => (List.firstOcc (ascii "chunked") value).isSome
  | .error _ => false

/-- The part of `http_client_worktask_read_headers` that runs once the end of the header
block has been found: the headers are parsed and decide how the body is framed. -/
def httpClientHeadersComplete (c : HTTPClient) (headersEnd : ℕ) : Worked := do
  let parsedLen := headersEnd + 4
  match ← httpParserHeaders (c.recvBuf.take parsedLen) with
  | .error _ => goto .error { c with headers := none }
  | .ok headers =>
      let c := { c with
        headers := some headers, recvBuf := c.recvBuf.drop parsedLen, retries := 0 }
      if transferEncodingChunked headers then goto .decipherChonkiness c
      else
        match httpParserGetHeaderValue headers (ascii "Content-Length") with
        | .error _ => goto .returning c
        | .ok value => do
            -- A value that does not parse leaves the default `0`.
            let cl := (← parseStringToInt value).getD 0
            if 0 < cl then
              let c := { c with contentLength := cl }
              if cl ≤ c.recvBuf.length then goto .returning c else goto .readingBody c
            else goto .returning c

/-- `http_client_worktask_read_headers`. Its recursive call after the peer has closed is
made only when the end of the block is in the buffer, and then runs the part above. -/
def httpClientWorktaskReadHeaders (c : HTTPClient) : Worked :=
  let headersEnd := httpParserFindHeadersEnd c.recvBuf
  if c.recvBuf ≠ [] ∧ 0 ≤ headersEnd then httpClientHeadersComplete c headersEnd.toNat
  else
    receive c 1023 .readingHeaders
      (fun c =>
        let headersEnd := httpParserFindHeadersEnd c.recvBuf
        if 0 ≤ headersEnd then httpClientHeadersComplete c headersEnd.toNat
        else goto .error c)
      (goto .readingHeaders)

/-! ### Chunked bodies -/

/-- The bytes that end the size token of a chunk-size line. -/
def isSizeDelimiter (b : UInt8) : Bool := b = 59 || b = 32 || b = 9

/-- The size token of a chunk-size line: its first `parse_len` bytes. -/
def sizeToken (line : Bytes) : Bytes := line.takeWhile fun b => !isSizeDelimiter b

/-- The size of the local array `line`, which takes the token and a NUL. -/
def lineSize : ℕ := 48

/-- The `chunk_size` that a chunk-size line denotes, `none` for a line without a number.
The value of `strtoull` is converted to `ssize_t`. -/
def chunkSize (line : Bytes) : Except Fault (Option ℤ) :=
  let token := sizeToken line
  if token = [] then .ok none
  else if lineSize < token.length + 1 then .error .chunkLineBuffer
  else
    match strtoull 16 (cstr token) with
    | none => .ok none
    | some (val, _) => .ok (some (toLong val))

/-- The part of `http_client_worktask_decipher_chonkiness` that runs after a chunk-size
line of value zero has been removed from the buffer: the rest of the message is an empty
line, or trailer fields up to an empty line. When it is incomplete the worker reads once
and is called again in the same state. -/
def httpClientTrailers (c : HTTPClient) : Worked :=
  if crlf <+: c.recvBuf then goto .returning { c with recvBuf := c.recvBuf.drop 2 }
  else
    let trailingEnd := httpParserFindHeadersEnd c.recvBuf
    if 0 ≤ trailingEnd then
      goto .returning { c with recvBuf := c.recvBuf.drop (trailingEnd.toNat + 4) }
    else receive c 1023 .decipherChonkiness (goto .error) (goto .decipherChonkiness)

/-- `http_client_worktask_decipher_chonkiness`. The size passes through `int` into the
`size_t` field `chunk_remaining`. -/
def httpClientWorktaskDecipherChonkiness (c : HTTPClient) : Worked :=
  let lineEnd := httpParserFindLineEnd c.recvBuf
  if lineEnd < 0 then
    receive c 1023 .decipherChonkiness (goto .error) (goto .decipherChonkiness)
  else do
    match ← chunkSize (c.recvBuf.take lineEnd.toNat) with
    | none => goto .error c
    | some size =>
        let c := { c with recvBuf := c.recvBuf.drop (lineEnd.toNat + 2) }
        if size = 0 then httpClientTrailers c
        else goto .readingBodyChunked { c with chunkRemaining := toSize (toInt size) }

/-- The part of `http_client_worktask_read_body_chunked` that runs once the chunk has been
copied: the line end after it is awaited and removed. -/
def httpClientChunkEnd (c : HTTPClient) : Worked :=
  if c.recvBuf.length < 2 then
    receive c 1024 .readingBodyChunked (goto .error) (goto .readingBodyChunked)
  else if crlf <+: c.recvBuf then
    goto .decipherChonkiness { c with recvBuf := c.recvBuf.drop 2 }
  else goto .error c

/-- `http_client_worktask_read_body_chunked`. `chunk_remaining` is compared as an
`ssize_t` and used as a `size_t`. -/
def httpClientWorktaskReadBodyChunked (c : HTTPClient) : Worked :=
  if (c.recvBuf.length : ℤ) < toLong c.chunkRemaining then
    receive c 1023 .readingBodyChunked (goto .error) (goto .readingBodyChunked)
  else if c.recvBuf.length < c.chunkRemaining then .error .recvBufOverread
  else
    httpClientChunkEnd { c with
      decodedBody := some (c.decodedBody.getD [] ++ c.recvBuf.take c.chunkRemaining)
      recvBuf := c.recvBuf.drop c.chunkRemaining
      chunkRemaining := 0 }

/-! ### Bodies of a given length, and the delivery -/

/-- `http_client_worktask_read_body`. -/
def httpClientWorktaskReadBody (c : HTTPClient) : Worked :=
  receive c 1023 .readingBody
    (fun c =>
      if (c.recvBuf.length : ℤ) < c.contentLength then goto .error c
      else goto .returning { c with retries := 0 })
    (fun c =>
      if (c.recvBuf.length : ℤ) < c.contentLength then goto .readingBody c
      else goto .returning { c with retries := 0 })

/-- The bytes that `http_client_worktask_returning` copies: the decoded body if there is a
non-empty one, and the receive buffer otherwise. -/
def deliverySource (c : HTTPClient) : Bytes :=
  match c.decodedBody with
  | some body => if 0 < body.length then body else c.recvBuf
  | none => c.recvBuf

/-- `http_client_worktask_returning`: a copy of the source with a NUL after it goes to the
caller's `http_data`, or to the callback. -/
def httpClientWorktaskReturning (c : HTTPClient) : Worked :=
  let src := deliverySource c
  if c.blockingMode then
    match c.blockingOut with
    | none => goto .error c
    | some _ =>
        goto .disposing { c with blockingOut := some ⟨some (src ++ [0]), src.length⟩ }
  else if c.onSuccess then
    goto .disposing { c with responses := c.responses ++ [src ++ [0]] }
  else goto .error c

/-! ### The machine -/

/-- The dispatch on the state. -/
def httpClientWork (c : HTTPClient) : Worked :=
  match c.state with
  | .readingFirstline => httpClientWorktaskReadFirstline c
  | .readingHeaders => httpClientWorktaskReadHeaders c
  | .decipherChonkiness => httpClientWorktaskDecipherChonkiness c
  | .readingBodyChunked => httpClientWorktaskReadBodyChunked c
  | .readingBody => httpClientWorktaskReadBody c
  | .returning => httpClientWorktaskReturning c
  | s => goto s c

/-- One worker call, `c->state = worker(c)`. -/
def httpClientReadStep (c : HTTPClient) : Except Fault HTTPClient := do
  let (s, c) ← httpClientWork c
  .ok { c with state := s }

/-- Where a client delivers the body: the caller's `http_data` of a blocking call, which
`http_blocking_get` has set to `{NULL, 0}`, or the callback of a scheduled client. -/
inductive Sink
  | blocking
  | callback
  deriving DecidableEq, Repr

/-- The client when the request has been sent. -/
def start (sink : Sink) (incoming : List Arrival) : HTTPClient where
  state := .readingFirstline
  transport := ⟨incoming⟩
  blockingMode := sink = .blocking
  blockingOut := if sink = .blocking then some {} else none
  onSuccess := sink = .callback

/-- The client has finished and its caller holds exactly this body, followed by a NUL. -/
def Delivered (sink : Sink) (c : HTTPClient) (body : Bytes) : Prop :=
  c.state = .disposing ∧
    match sink with
    | .blocking => c.blockingOut = some ⟨some (body ++ [0]), body.length⟩
    | .callback => c.responses = [body ++ [0]]

end MaestroCore
