import MaestroCore.Lib.Memory
import MaestroCore.Conservation

/-!
# The Buffers of the HTTP Client in Memory

The reading workers of `http_client.c` once more, now on the memory that they work on: the
receive buffer and the decoded body are blocks that grow by `realloc` and that `memmove`
shortens from the front, `read_buf` and `line` are arrays of fixed size on the stack, and what
is handed to the caller is a new block. An access outside of a block, or to a cell that has
never been written, stops the client. A request for memory is granted unless its size, in
`size_t`, is one that no block has.

## Main results

* `client_in_memory`: the client on its memory does what the client on lists of bytes does, and
  what it does where that one stops.
-/

open CLang Memory Run

namespace MaestroCore

namespace InMemory

/-- What stops the client: an access that is not allowed, or a fault of a function that is
called. -/
inductive MemoryFault
  | outOfBounds
  | fault (f : Fault)
  deriving DecidableEq, Repr

/-- An access, which fails outside of its block. -/
def access {α : Type} (x : Option α) : Except MemoryFault α :=
  match x with
  | some a => .ok a
  | none => .error .outOfBounds

/-- A fault of the client on lists: that of its array `line` is an access. -/
def MemoryFault.of : Fault → MemoryFault
  | .chunkLineBuffer => .outOfBounds
  | f => .fault f

/-- A called function that works on lists of bytes. -/
def lift {α : Type} (x : Except Fault α) : Except MemoryFault α := x.mapError .of

/-- `http_data`: `NULL` or a block, and its size. -/
structure HTTPData where
  addr : Option (Block UInt8) := none
  size : ℤ := 0
  deriving DecidableEq, Repr

/-- `HTTP_Client`, with the fields that the reading workers use. -/
structure HTTPClient where
  state : HTTPClientState
  transport : Transport
  recvBuf : HTTPData := {}
  decodedBody : Option (Block UInt8) := none
  decodedBodyLen : ℕ := 0
  /-- Whether `decoded_body` is left with the address of a block that `realloc` has freed. -/
  bodyFreed : Bool := false
  chunkRemaining : ℕ := 0
  contentLength : ℤ := 0
  retries : ℤ := 0
  headers : Option (List HTTPKeyValue) := none
  resp : HTTPResponse := {}
  blockingMode : Bool
  blockingOut : Option HTTPData
  onSuccess : Bool
  responses : List (Block UInt8) := []
  deriving DecidableEq, Repr

/-- What a worker returns. -/
abbrev Worked := Except MemoryFault (HTTPClientState × HTTPClient)

/-- The worker goes to the given state. -/
def goto (s : HTTPClientState) (c : HTTPClient) : Worked := .ok (s, c)

/-! ### Reading and writing memory -/

/-- `buffer_append`, `none` where it fails. -/
def bufferAppend (d : HTTPData) (input : Bytes) : Except MemoryFault (Option HTTPData) :=
  if input = [] then .ok none
  else
    let total := d.size.toNat + input.length
    match reallocTo d.addr (total + 1) with
    | .refused | .freed => .ok none
    | .block block => do
        let block ← access (store block d.size.toNat input)
        let block ← access (store block total [0])
        .ok (some ⟨some block, total⟩)

/-- The first `n` bytes at an address. -/
def bytesAt (addr : Option (Block UInt8)) (n : ℕ) : Except MemoryFault Bytes :=
  access (fetch (addr.getD []) n)

/-- `memmove(addr, addr + src, n)`. -/
def moveToFront (addr : Option (Block UInt8)) (src n : ℕ) :
    Except MemoryFault (Option (Block UInt8)) :=
  match addr with
  | none => .error .outOfBounds
  | some block => do
      let block ← access (memmove block 0 src n)
      .ok (some block)

/-- The removal of the first `n` bytes: what comes after them is moved to the front. -/
def HTTPData.remove (d : HTTPData) (n : ℤ) : Except MemoryFault HTTPData :=
  if n < d.size then do
    let addr ← moveToFront d.addr n.toNat (d.size - n).toNat
    .ok ⟨addr, d.size - n⟩
  else .ok { d with size := d.size - n }

/-- An array on the stack, before anything is written to it. -/
def localArray (size : ℕ) : Block UInt8 := List.replicate size none

/-- The bytes of a read that were stored in an array, with a NUL after them or without. -/
def readBuf (size : ℕ) (nul : Bool) (b : Bytes) : Except MemoryFault Bytes := do
  let buf ← access (store (localArray size) 0 b)
  let buf ← if nul then access (store buf b.length [0]) else .ok buf
  access (fetch buf b.length)

/-- One `transport_read` of at most `len` bytes into a `read_buf` of the given size. -/
def receive (c : HTTPClient) (size len : ℕ) (nul : Bool) (again : HTTPClientState)
    (onClosed onBytes : HTTPClient → Worked) : Worked :=
  match transportRead c.transport len with
  | (.failed e, t) => .ok (if e.transient then again else .error, { c with transport := t })
  | (.zero, t) => onClosed { c with transport := t }
  | (.bytes b, t) => do
      let b ← readBuf size nul b
      match ← bufferAppend c.recvBuf b with
      | none => goto .error { c with transport := t }
      | some d => onBytes { c with transport := t, recvBuf := d }

/-! ### The head of the response -/

/-- The part of `http_client_worktask_read_firstline` that runs after bytes have come. -/
def httpClientFirstline (c : HTTPClient) : Worked :=
  if c.recvBuf.size = 0 then goto .readingFirstline c
  else do
    let lineEnd := httpParserFindLineEnd (← bytesAt c.recvBuf.addr c.recvBuf.size.toNat)
    if lineEnd < 0 then
      if 1024 ≤ c.recvBuf.size then goto .error c else goto .readingFirstline c
    else
      let lineLen := lineEnd.toNat
      if lineLen = 0 ∨ 1024 ≤ lineLen then goto .error c
      else do
        let (code, resp) ←
          lift (httpParserResponseFirstline (← bytesAt c.recvBuf.addr lineLen) c.resp)
        if code ≠ .success then goto .error { c with resp := resp }
        else do
          let d ← c.recvBuf.remove (lineLen + 2)
          goto .readingHeaders { c with resp := resp, recvBuf := d }

/-- `http_client_worktask_read_firstline`. -/
def httpClientWorktaskReadFirstline (c : HTTPClient) : Worked :=
  receive c 8096 8095 false .readingFirstline (goto .error) httpClientFirstline

/-- The removal of the header block. -/
def HTTPData.removeHeaders (d : HTTPData) (parsedLen : ℕ) : Except MemoryFault HTTPData :=
  if parsedLen < d.size.toNat then do
    let addr ← moveToFront d.addr parsedLen (d.size.toNat - parsedLen)
    .ok ⟨addr, (d.size.toNat - parsedLen : ℕ)⟩
  else .ok { d with size := 0 }

/-- The part of `http_client_worktask_read_headers` that runs once the end of the header
block has been found. -/
def httpClientHeadersComplete (c : HTTPClient) (headersEnd : ℕ) : Worked := do
  let parsedLen := headersEnd + 4
  match ← lift (httpParserHeaders (← bytesAt c.recvBuf.addr parsedLen)) with
  | .error _ => goto .error { c with headers := none }
  | .ok headers => do
      let d ← c.recvBuf.removeHeaders parsedLen
      let c := { c with headers := some headers, recvBuf := d, retries := 0 }
      if transferEncodingChunked headers then goto .decipherChonkiness c
      else
        match httpParserGetHeaderValue headers (ascii "Content-Length") with
        | .error _ => goto .returning c
        | .ok value => do
            let cl := (← lift (parseStringToInt value)).getD 0
            if 0 < cl then
              let c := { c with contentLength := cl }
              if cl ≤ c.recvBuf.size then goto .returning c else goto .readingBody c
            else goto .returning c

/-- `http_client_worktask_read_headers`. -/
def httpClientWorktaskReadHeaders (c : HTTPClient) : Worked := do
  let headersEnd := httpParserFindHeadersEnd (← bytesAt c.recvBuf.addr c.recvBuf.size.toNat)
  if 0 < c.recvBuf.size ∧ 0 ≤ headersEnd then httpClientHeadersComplete c headersEnd.toNat
  else
    receive c 1024 1023 true .readingHeaders
      (fun c => do
        let headersEnd := httpParserFindHeadersEnd (← bytesAt c.recvBuf.addr c.recvBuf.size.toNat)
        if 0 ≤ headersEnd then httpClientHeadersComplete c headersEnd.toNat
        else goto .error c)
      (goto .readingHeaders)

/-! ### The body -/

/-- The `chunk_size` that a chunk-size line denotes, with its token copied to `line`. -/
def chunkSize (line : Bytes) : Except MemoryFault (Option ℤ) :=
  let token := sizeToken line
  if token = [] then .ok none
  else do
    let buf ← access (store (localArray lineSize) 0 token)
    let buf ← access (store buf token.length [0])
    match strtoull 16 (cstr (← access (fetch buf (token.length + 1)))) with
    | none => .ok none
    | some (val, _) => .ok (some (toLong val))

/-- The part of `http_client_worktask_decipher_chonkiness` after a chunk-size line of value
zero. -/
def httpClientTrailers (c : HTTPClient) : Worked := do
  let bytes ← bytesAt c.recvBuf.addr c.recvBuf.size.toNat
  if crlf <+: bytes then do
    let d ← c.recvBuf.remove 2
    goto .returning { c with recvBuf := d }
  else
    let trailingEnd := httpParserFindHeadersEnd bytes
    if 0 ≤ trailingEnd then do
      let d ← c.recvBuf.remove (trailingEnd + 4)
      goto .returning { c with recvBuf := d }
    else receive c 1024 1023 false .decipherChonkiness (goto .error) (goto .decipherChonkiness)

/-- `http_client_worktask_decipher_chonkiness`. -/
def httpClientWorktaskDecipherChonkiness (c : HTTPClient) : Worked := do
  let lineEnd := httpParserFindLineEnd (← bytesAt c.recvBuf.addr c.recvBuf.size.toNat)
  if lineEnd < 0 then
    receive c 1024 1023 false .decipherChonkiness (goto .error) (goto .decipherChonkiness)
  else do
    match ← chunkSize (← bytesAt c.recvBuf.addr lineEnd.toNat) with
    | none => goto .error c
    | some size => do
        let d ← c.recvBuf.remove (lineEnd + 2)
        let c := { c with recvBuf := d }
        if size = 0 then httpClientTrailers c
        else goto .readingBodyChunked { c with chunkRemaining := toSize (toInt size) }

/-- The part of `http_client_worktask_read_body_chunked` that runs once the chunk has been
copied. -/
def httpClientChunkEnd (c : HTTPClient) : Worked :=
  if c.recvBuf.size < 2 then
    receive c 1024 1024 false .readingBodyChunked (goto .error) (goto .readingBodyChunked)
  else do
    if (← bytesAt c.recvBuf.addr 2) = crlf then do
      -- the only `memmove` that is also made when nothing is left to move
      let addr ← moveToFront c.recvBuf.addr 2 (c.recvBuf.size - 2).toNat
      goto .decipherChonkiness { c with recvBuf := ⟨addr, c.recvBuf.size - 2⟩ }
    else goto .error c

/-- What `realloc` makes of `decoded_body` for one more chunk and a NUL. The lengths are of the
type `size_t`. -/
def bodyBlock (c : HTTPClient) : Resized UInt8 :=
  reallocTo c.decodedBody (toSize (toSize (c.decodedBodyLen + c.chunkRemaining : ℕ) + 1 : ℕ))

/-- The copy of a chunk into the block. -/
def httpClientCopyChunk (c : HTTPClient) (block : Block UInt8) : Worked := do
  let newLen := toSize (c.decodedBodyLen + c.chunkRemaining : ℕ)
  let chunk ← bytesAt c.recvBuf.addr c.chunkRemaining
  let block ← access (store block c.decodedBodyLen chunk)
  let block ← access (store block newLen [0])
  let d ← c.recvBuf.remove (toLong c.chunkRemaining)
  httpClientChunkEnd { c with
    decodedBody := some block
    decodedBodyLen := newLen
    recvBuf := d
    chunkRemaining := 0 }

/-- `http_client_worktask_read_body_chunked`. No cell of a block that has been freed can be
accessed. -/
def httpClientWorktaskReadBodyChunked (c : HTTPClient) : Worked :=
  if c.recvBuf.size < toLong c.chunkRemaining then
    receive c 1024 1023 false .readingBodyChunked (goto .error) (goto .readingBodyChunked)
  else
    match bodyBlock c with
    | .refused => goto .error c
    | .freed => goto .error { c with decodedBody := some [], bodyFreed := true }
    | .block block => httpClientCopyChunk c block

/-- `http_client_worktask_read_body`. -/
def httpClientWorktaskReadBody (c : HTTPClient) : Worked :=
  receive c 1024 1023 true .readingBody
    (fun c =>
      if c.recvBuf.size < c.contentLength then goto .error c
      else goto .returning { c with retries := 0 })
    (fun c =>
      if c.recvBuf.size < c.contentLength then goto .readingBody c
      else goto .returning { c with retries := 0 })

/-- The address and the length of what `http_client_worktask_returning` copies. -/
def deliverySource (c : HTTPClient) : Option (Block UInt8) × ℕ :=
  if c.decodedBody.isSome ∧ 0 < c.decodedBodyLen then (c.decodedBody, c.decodedBodyLen)
  else (c.recvBuf.addr, c.recvBuf.size.toNat)

/-- A new block with the source and a NUL, `none` where there is no memory for it. -/
def copySource (c : HTTPClient) : Except MemoryFault (Option (Block UInt8)) :=
  let (src, srcLen) := deliverySource c
  match reallocTo none (srcLen + 1) with
  | .refused | .freed => .ok none
  | .block buf => do
      let buf ← access (store buf 0 (← bytesAt src srcLen))
      let buf ← access (store buf srcLen [0])
      .ok (some buf)

/-- `http_client_worktask_returning`. -/
def httpClientWorktaskReturning (c : HTTPClient) : Worked :=
  if c.blockingMode then
    match c.blockingOut with
    | none => goto .error c
    | some _ => do
        match ← copySource c with
        | none => goto .error { c with blockingOut := some {} }
        | some buf =>
            goto .disposing { c with blockingOut := some ⟨some buf, (deliverySource c).2⟩ }
  else if c.onSuccess then do
    match ← copySource c with
    | none => goto .error c
    | some buf => goto .disposing { c with responses := c.responses ++ [buf] }
  else goto .error c

/-- The dispatch on the state. -/
def httpClientWork (c : HTTPClient) : Worked :=
  match c.state with
  | .readingFirstline => httpClientWorktaskReadFirstline c
  | .readingHeaders => httpClientWorktaskReadHeaders c
  | .decipherChonkiness => httpClientWorktaskDecipherChonkiness c
  | .readingBodyChunked => httpClientWorktaskReadBodyChunked c
  | .readingBody => httpClientWorktaskReadBody c
  | .returning => httpClientWorktaskReturning c
  | s => goto s c

/-- One worker call, `c->state = worker(c)`. -/
def httpClientReadStep (c : HTTPClient) : Except MemoryFault HTTPClient := do
  let (s, c) ← httpClientWork c
  .ok { c with state := s }

/-- The client when the request has been sent. -/
def start (sink : Sink) (incoming : List Arrival) : HTTPClient where
  state := .readingFirstline
  transport := ⟨incoming⟩
  blockingMode := sink = .blocking
  blockingOut := if sink = .blocking then some {} else none
  onSuccess := sink = .callback

/-- A result is handed on. -/
@[simp] theorem ok_bind {α β : Type} (a : α) (f : α → Except MemoryFault β) :
    Except.ok a >>= f = f a := rfl

/-- An access within its block has a result. -/
@[simp] theorem access_some {α : Type} (a : α) : access (some a) = .ok a := rfl

/-! ### What the memory holds -/

/-- The buffer starts with these bytes, and its size is their number. -/
structure Holds (d : HTTPData) (contents : Bytes) : Prop where
  size : d.size = contents.length
  starts : contents.map some <+: d.addr.getD []
  capacity : (d.addr.getD []).length < 2 ^ 63

section Holds

variable {d : HTTPData} {contents b : Bytes} {n : ℕ}

/-- The first bytes at the address are the first of the contents. -/
theorem Holds.bytesAt (h : Holds d contents) (hn : n ≤ contents.length) :
    bytesAt d.addr n = .ok (contents.take n) := by
  have htake : (contents.take n).map some <+: d.addr.getD [] :=
    ((List.take_prefix n contents).map some).trans h.starts
  have hfetch := fetch_contents htake
  rw [List.length_take, Nat.min_eq_left hn] at hfetch
  rw [InMemory.bytesAt, hfetch]
  rfl

/-- As many bytes as its size says are the contents. -/
theorem Holds.bytes (h : Holds d contents) :
    InMemory.bytesAt d.addr d.size.toNat = .ok contents := by
  rw [h.size, Int.toNat_natCast, h.bytesAt (Nat.le_refl _), List.take_length]

/-- What is appended comes behind the contents, where a block can hold it all. -/
theorem Holds.append (h : Holds d contents) (hb : b ≠ [])
    (hroom : contents.length + b.length + 1 < 2 ^ 63) :
    ∃ d', bufferAppend d b = .ok (some d') ∧ Holds d' (contents ++ b) := by
  obtain ⟨block, hblock, hlast⟩ := store_realloc
    (by simpa using (List.prefix_iff_eq_take.mp h.starts).symm) b (0 : UInt8)
  refine ⟨⟨some ((contents ++ b ++ [0]).map some), (contents.length + b.length : ℕ)⟩, ?_, ?_, ?_,
    ?_⟩
  · have hgrant : reallocTo d.addr (contents.length + b.length + 1) =
        .block (realloc d.addr (contents.length + b.length + 1)) :=
      reallocTo_block (Nat.succ_pos _) (by rw [ptrdiffMax]; omega)
    simp only [bufferAppend, if_neg hb, h.size, Int.toNat_natCast, hgrant, hblock, hlast,
      access_some, ok_bind]
  · rw [List.length_append]
  · exact ⟨[some 0], by simp⟩
  · simpa [Nat.add_assoc] using hroom

/-- A move to the front leaves what came after the first bytes. -/
theorem Holds.moveToFront (h : Holds d contents) (hn : n ≤ contents.length)
    (hne : contents ≠ []) :
    ∃ addr, moveToFront d.addr n (contents.length - n) = .ok addr ∧
      Holds ⟨addr, (contents.length - n : ℕ)⟩ (contents.drop n) := by
  obtain ⟨block, hmove, hstarts, hlength⟩ := memmove_contents h.starts hn
  cases haddr : d.addr with
  | none =>
      have hstarts := h.starts
      simp [haddr, hne] at hstarts
  | some old =>
      have hcap := h.capacity
      rw [haddr, Option.getD_some] at hmove hlength hcap
      refine ⟨some block, ?_, (List.length_drop ..).symm ▸ rfl, hstarts, by simpa [hlength]⟩
      rw [InMemory.moveToFront, hmove]
      rfl

/-- What is removed from the front is removed from the contents. -/
theorem Holds.remove (h : Holds d contents) (hn : n ≤ contents.length) :
    ∃ d', d.remove n = .ok d' ∧ Holds d' (contents.drop n) := by
  rw [HTTPData.remove, h.size]
  split
  · rename_i hlt
    have hne : contents ≠ [] := List.ne_nil_of_length_pos (by omega)
    obtain ⟨addr, hmove, hholds⟩ := h.moveToFront hn hne
    have hsize : ((contents.length : ℤ) - n).toNat = contents.length - n := by omega
    rw [Int.toNat_natCast, hsize, hmove]
    exact ⟨_, rfl, by simpa [Int.ofNat_sub hn] using hholds⟩
  · rename_i hlt
    have hall : contents.drop n = [] := List.drop_eq_nil_of_le (by omega)
    exact ⟨_, rfl, by rw [hall]; simp; omega, by rw [hall]; exact List.nil_prefix, h.capacity⟩

end Holds

/-- An array on the stack takes what fits into it. -/
theorem store_localArray {size : ℕ} {b : Bytes} (h : b.length ≤ size) :
    ∃ buf, store (localArray size) 0 b = some buf ∧ b.map some <+: buf ∧ buf.length = size := by
  have hlocal : (localArray size).length = size := List.length_replicate
  have hnil : ([] : Bytes).map some <+: localArray size := List.nil_prefix
  obtain ⟨buf, hbuf, hstarts, hlength⟩ := store_contents hnil (by simpa [hlocal] using h)
  exact ⟨buf, hbuf, hstarts, hlength.trans hlocal⟩

/-- A NUL is stored behind the contents. -/
theorem store_nul {buf : Block UInt8} {b : Bytes} (h : b.map some <+: buf)
    (hfit : b.length < buf.length) :
    ∃ buf', store buf b.length [0] = some buf' ∧ (b ++ [0]).map some <+: buf' := by
  have hle : b.length + [(0 : UInt8)].length ≤ buf.length := hfit
  obtain ⟨buf', hbuf', hstarts, -⟩ := store_contents h hle
  exact ⟨buf', hbuf', hstarts⟩

/-- What is stored in an array is what is read from it. -/
theorem readBuf_eq {size : ℕ} {nul : Bool} {b : Bytes}
    (h : b.length + (if nul then 1 else 0) ≤ size) : readBuf size nul b = .ok b := by
  have hfit : b.length ≤ size := Nat.le_trans (Nat.le_add_right _ _) h
  obtain ⟨buf, hbuf, hstarts, hlength⟩ := store_localArray hfit
  rw [readBuf, hbuf, access_some, ok_bind]
  cases nul with
  | false => exact congrArg access (fetch_contents hstarts)
  | true =>
      obtain ⟨buf', hbuf', hstarts'⟩ := store_nul hstarts (by rw [hlength]; exact h)
      have hb : b.map some <+: buf' := by
        refine List.IsPrefix.trans ?_ hstarts'
        rw [List.map_append]
        exact List.prefix_append _ _
      rw [if_pos rfl, hbuf', access_some, ok_bind]
      exact congrArg access (fetch_contents hb)

/-- The number of the bytes in all arrivals. -/
def volumeOf : List Arrival → ℕ
  | [] => 0
  | .data s :: later => s.bytes.length + volumeOf later
  | _ :: later => volumeOf later

/-- A read takes away as many bytes as it returns. -/
theorem volumeOf_leftover (b : Bytes) (len : ℕ) (later : List Arrival) :
    (b.take len).length + volumeOf (leftover b len later) = b.length + volumeOf later := by
  have hb := congrArg List.length (List.take_append_drop len b)
  rw [List.length_append] at hb
  rw [leftover]
  split
  · rename_i h
    rw [h, List.length_nil] at hb
    rw [← hb, Nat.add_zero]
  · rw [volumeOf, ← hb, Nat.add_assoc]

/-- A list of bytes as the contents of a block. -/
def cells (b : Bytes) : Block UInt8 := b.map some

/-- The memory of a client holds the lists of another one, which has room for what is to come. -/
structure Represents (c : MaestroCore.HTTPClient) (r : HTTPClient) : Prop where
  state : r.state = c.state
  transport : r.transport = c.transport
  recvBuf : Holds r.recvBuf c.recvBuf
  decodedBody : r.decodedBody = c.decodedBody.map fun body => cells (body ++ [0])
  decodedBodyLen : r.decodedBodyLen = (c.decodedBody.getD []).length
  bodyFreed : r.bodyFreed = false
  chunkRemaining : r.chunkRemaining = c.chunkRemaining
  contentLength : r.contentLength = c.contentLength
  retries : r.retries = c.retries
  headers : r.headers = c.headers
  resp : r.resp = c.resp
  blockingMode : r.blockingMode = c.blockingMode
  blockingOut : r.blockingOut = c.blockingOut.map fun d => ⟨d.addr.map cells, d.size⟩
  onSuccess : r.onSuccess = c.onSuccess
  responses : r.responses = c.responses.map cells
  room : (c.decodedBody.getD []).length + c.recvBuf.length + volumeOf c.transport.incoming + 1 <
    2 ^ 63

/-- The results of two workers: the same state, and memory that holds the lists. -/
def RepresentsTo (p : HTTPClientState × MaestroCore.HTTPClient)
    (q : HTTPClientState × HTTPClient) : Prop :=
  p.1 = q.1 ∧ Represents p.2 q.2

/-- The two workers take the same step. -/
abbrev Together (x : MaestroCore.Worked) (y : Worked) : Prop :=
  Lockstep RepresentsTo (x.mapError .of) y

section Workers

variable {c : MaestroCore.HTTPClient} {r : HTTPClient}

/-- A change of the state is the same in both. -/
theorem together_goto (h : Represents c r) (s : HTTPClientState) :
    Together (MaestroCore.goto s c) (goto s r) :=
  .ok ⟨rfl, h⟩

/-- A read comes to the same in both. -/
theorem together_receive (h : Represents c r) {size len : ℕ} {nul : Bool}
    {again : HTTPClientState} {closed onBytes : MaestroCore.HTTPClient → MaestroCore.Worked}
    {closed' onBytes' : HTTPClient → Worked} (hlen : 0 < len)
    (hsize : len + (if nul then 1 else 0) ≤ size)
    (hclosed : ∀ {c r}, Represents c r → Together (closed c) (closed' r))
    (hbytes : ∀ {c r}, Represents c r → Together (onBytes c) (onBytes' r)) :
    Together (MaestroCore.receive c len again closed onBytes)
      (receive r size len nul again closed' onBytes') := by
  have hroom := h.room
  rw [MaestroCore.receive, receive, h.transport]
  obtain ⟨⟨incoming⟩, hincoming⟩ : ∃ t, c.transport = t := ⟨_, rfl⟩
  rw [hincoming] at hroom ⊢
  cases incoming with
  | nil => exact .ok ⟨rfl, { h with transport := rfl, room := hroom }⟩
  | cons arrival later =>
      cases arrival with
      | closed => exact hclosed { h with transport := rfl, room := hroom }
      | failure e => exact .ok ⟨rfl, { h with transport := rfl, room := hroom }⟩
      | data s =>
          have hb : s.bytes.take len ≠ [] := by
            simp only [ne_eq, List.take_eq_nil_iff, s.nonempty, or_false]
            omega
          have hle : (s.bytes.take len).length ≤ len := List.length_take_le _ _
          have hvolume := volumeOf_leftover s.bytes len later
          simp only [volumeOf] at hroom
          obtain ⟨d, hd, hholds⟩ := h.recvBuf.append hb (by omega)
          have hread : readBuf size nul (s.bytes.take len) = .ok (s.bytes.take len) :=
            readBuf_eq (by omega)
          simp only [transportRead, hread, ok_bind, hd]
          refine hbytes { h with transport := rfl, recvBuf := hholds, room := ?_ }
          simp only [MaestroCore.bufferAppend, List.length_append]
          omega

/-- A worker that reads and stays in its state, or fails when the peer has closed. -/
theorem together_readMore (h : Represents c r) {size len : ℕ} {again : HTTPClientState}
    (hlen : 0 < len) (hsize : len ≤ size) :
    Together (MaestroCore.receive c len again (MaestroCore.goto .error) (MaestroCore.goto again))
      (receive r size len false again (goto .error) (goto again)) :=
  together_receive h hlen hsize (fun h => together_goto h _) fun h => together_goto h _

/-- Bytes are removed from the front of both buffers. -/
theorem Represents.remove (h : Represents c r) {n : ℕ} (hn : n ≤ c.recvBuf.length) :
    ∃ d, r.recvBuf.remove n = .ok d ∧
      Represents { c with recvBuf := c.recvBuf.drop n } { r with recvBuf := d } := by
  obtain ⟨d, hd, hholds⟩ := h.recvBuf.remove hn
  have hroom := h.room
  refine ⟨d, hd, { h with recvBuf := hholds, room := ?_ }⟩
  simp only [List.length_drop]
  omega

/-- Bytes are removed up to an index that was found, and some more. -/
theorem Represents.removeFound (h : Represents c r) {i : ℤ} {k : ℕ} (hi : 0 ≤ i)
    (hk : i.toNat + k ≤ c.recvBuf.length) :
    ∃ d, r.recvBuf.remove (i + k) = .ok d ∧
      Represents { c with recvBuf := c.recvBuf.drop (i.toNat + k) } { r with recvBuf := d } := by
  obtain ⟨d, hd, hrep⟩ := h.remove hk
  rw [Nat.cast_add, Int.toNat_of_nonneg hi] at hd
  exact ⟨d, hd, hrep⟩

/-- Both branch in the same way. -/
theorem together_ite {p q : Prop} [Decidable p] [Decidable q] {x x' : MaestroCore.Worked}
    {y y' : Worked} (hiff : q ↔ p) (hthen : p → Together x y) (helse : ¬p → Together x' y') :
    Together (if p then x else x') (if q then y else y') := by
  by_cases hp : p
  · rw [if_pos hp, if_pos (hiff.mpr hp)]
    exact hthen hp
  · rw [if_neg hp, if_neg fun hq => hp (hiff.mp hq)]
    exact helse hp

/-- A function that both call. -/
theorem together_lift {α : Type} {x : Except Fault α} {f : α → MaestroCore.Worked}
    {g : α → Worked} (h : ∀ a, Together (f a) (g a)) : Together (x >>= f) (lift x >>= g) := by
  cases x with
  | error e => exact .fault _
  | ok a => exact h a

/-- The status line is parsed from the same bytes. -/
theorem together_firstline (h : Represents c r) :
    Together (MaestroCore.httpClientFirstline c) (httpClientFirstline r) := by
  have hsize := h.recvBuf.size
  rw [MaestroCore.httpClientFirstline, httpClientFirstline, h.recvBuf.bytes, ok_bind]
  refine together_ite (by simp [hsize]) (fun _ => together_goto h _) fun _ => ?_
  refine together_ite Iff.rfl (fun _ => ?_) fun hend => ?_
  · exact together_ite (by omega) (fun _ => together_goto h _) fun _ => together_goto h _
  have hline := removes_line (Int.not_lt.mp hend)
  refine together_ite Iff.rfl (fun _ => together_goto h _) fun _ => ?_
  rw [h.recvBuf.bytesAt (by omega), ok_bind, h.resp]
  refine together_lift fun parsed => ?_
  obtain ⟨code, resp⟩ := parsed
  refine together_ite Iff.rfl (fun _ => .ok ⟨rfl, { h with resp := rfl }⟩) fun _ => ?_
  obtain ⟨d, hd, hrep⟩ := h.remove hline
  have hd' : r.recvBuf.remove ((httpParserFindLineEnd c.recvBuf).toNat + 2) = .ok d := hd
  simp only [hd', ok_bind]
  exact .ok ⟨rfl, { hrep with resp := rfl }⟩

/-- Both read the status line. -/
theorem together_readFirstline (h : Represents c r) :
    Together (MaestroCore.httpClientWorktaskReadFirstline c) (httpClientWorktaskReadFirstline r) :=
  together_receive h (by omega) (by simp) (fun h => together_goto h _) together_firstline

/-- The header block is removed from both buffers. -/
theorem Represents.removeHeaders (h : Represents c r) {n : ℕ} (hn : n ≤ c.recvBuf.length) :
    ∃ d, r.recvBuf.removeHeaders n = .ok d ∧
      Represents { c with recvBuf := c.recvBuf.drop n } { r with recvBuf := d } := by
  have hsize := h.recvBuf.size
  obtain ⟨d, hd, hrep⟩ := h.remove hn
  refine ⟨d, ?_, hrep⟩
  rw [← hd, HTTPData.removeHeaders, HTTPData.remove, hsize]
  simp only [Int.toNat_natCast, Nat.cast_lt]
  split
  · rw [← Int.ofNat_sub hn, Int.toNat_natCast]
  · rw [show (c.recvBuf.length : ℤ) - n = 0 by omega]

/-- The header block is parsed from the same bytes. -/
theorem together_headersComplete (h : Represents c r) {n : ℕ} (hn : n + 4 ≤ c.recvBuf.length) :
    Together (MaestroCore.httpClientHeadersComplete c n) (httpClientHeadersComplete r n) := by
  rw [MaestroCore.httpClientHeadersComplete, httpClientHeadersComplete, h.recvBuf.bytesAt hn,
    ok_bind]
  refine together_lift fun parsed => ?_
  cases parsed with
  | error code => exact .ok ⟨rfl, { h with headers := rfl }⟩
  | ok headers =>
      obtain ⟨d, hd, hrep⟩ := h.removeHeaders hn
      have hsize := hrep.recvBuf.size
      have hread : Represents { c with
            headers := some headers, recvBuf := c.recvBuf.drop (n + 4), retries := 0 }
          { r with headers := some headers, recvBuf := d, retries := 0 } :=
        { hrep with headers := rfl, retries := rfl }
      simp only [hd, ok_bind]
      refine together_ite Iff.rfl (fun _ => together_goto hread _) fun _ => ?_
      cases httpParserGetHeaderValue headers (ascii "Content-Length") with
      | error code => exact together_goto hread _
      | ok value =>
          refine together_lift fun cl => ?_
          refine together_ite Iff.rfl (fun _ => ?_) fun _ => together_goto hread _
          have hlength : Represents
              { c with
                headers := some headers, recvBuf := c.recvBuf.drop (n + 4), retries := 0,
                contentLength := cl.getD 0 }
              { r with
                headers := some headers, recvBuf := d, retries := 0, contentLength := cl.getD 0 } :=
            { hread with contentLength := rfl }
          exact together_ite (by rw [hsize]) (fun _ => together_goto hlength _)
            fun _ => together_goto hlength _

/-- Both read the headers. -/
theorem together_readHeaders (h : Represents c r) :
    Together (MaestroCore.httpClientWorktaskReadHeaders c) (httpClientWorktaskReadHeaders r) := by
  have hsize := h.recvBuf.size
  rw [MaestroCore.httpClientWorktaskReadHeaders, httpClientWorktaskReadHeaders, h.recvBuf.bytes,
    ok_bind]
  refine together_ite ?_ (fun hend => ?_) fun _ => ?_
  · rw [hsize, ← List.length_pos_iff, Int.natCast_pos]
  · exact together_headersComplete h (removes_block hend.2)
  · refine together_receive h (by omega) (by simp) ?_ fun h => together_goto h _
    intro c r h
    rw [h.recvBuf.bytes, ok_bind]
    exact together_ite Iff.rfl (fun hend => together_headersComplete h (removes_block hend))
      fun _ => together_goto h _

/-- Both read what comes after the last size line. -/
theorem together_trailers (h : Represents c r) :
    Together (MaestroCore.httpClientTrailers c) (httpClientTrailers r) := by
  rw [MaestroCore.httpClientTrailers, httpClientTrailers, h.recvBuf.bytes, ok_bind]
  refine together_ite Iff.rfl (fun hcrlf => ?_) fun _ => ?_
  · obtain ⟨d, hd, hrep⟩ := h.remove (n := 2) hcrlf.length_le
    have hd' : r.recvBuf.remove 2 = .ok d := hd
    simp only [hd', ok_bind]
    exact together_goto hrep _
  · refine together_ite Iff.rfl (fun hend => ?_) fun _ => ?_
    · obtain ⟨d, hd, hrep⟩ := h.removeFound hend (removes_block hend)
      have hd' : r.recvBuf.remove (httpParserFindHeadersEnd c.recvBuf + 4) = .ok d := hd
      simp only [hd', ok_bind]
      exact together_goto hrep _
    · exact together_readMore h (by omega) (by omega)

/-- The token fits `line` iff the copy of the client on lists succeeds. -/
theorem chunkSize_eq (line : Bytes) : chunkSize line = lift (MaestroCore.chunkSize line) := by
  rw [chunkSize, MaestroCore.chunkSize]
  generalize sizeToken line = token
  by_cases hnil : token = []
  · rw [if_pos hnil, if_pos hnil]
    rfl
  rw [if_neg hnil, if_neg hnil]
  by_cases hfit : token.length ≤ lineSize
  · obtain ⟨buf, hbuf, hstarts, hlength⟩ := store_localArray hfit
    rw [hbuf, access_some, ok_bind]
    by_cases hnul : lineSize < token.length + 1
    · have hfull : store buf token.length [0] = none := if_neg (by simpa [hlength] using hnul)
      rw [if_pos hnul, hfull]
      rfl
    · obtain ⟨buf', hbuf', hstarts'⟩ := store_nul hstarts (by omega)
      have hfetch := fetch_contents hstarts'
      rw [List.length_append, List.length_singleton] at hfetch
      rw [if_neg hnul, hbuf', access_some, ok_bind, hfetch, access_some, ok_bind, cstr_nul]
      cases strtoull 16 (cstr token) <;> rfl
  · have hfull : store (localArray lineSize) 0 token = none :=
      if_neg (by simpa [localArray] using hfit)
    rw [if_pos (by omega), hfull]
    rfl

/-- Both read a size line. -/
theorem together_decipherChonkiness (h : Represents c r) :
    Together (MaestroCore.httpClientWorktaskDecipherChonkiness c)
      (httpClientWorktaskDecipherChonkiness r) := by
  rw [MaestroCore.httpClientWorktaskDecipherChonkiness, httpClientWorktaskDecipherChonkiness,
    h.recvBuf.bytes, ok_bind]
  refine together_ite Iff.rfl (fun _ => together_readMore h (by omega) (by omega)) fun hend => ?_
  have hend := Int.not_lt.mp hend
  have hline := removes_line hend
  rw [h.recvBuf.bytesAt (by omega), ok_bind, chunkSize_eq]
  refine together_lift fun size => ?_
  cases size with
  | none => exact together_goto h _
  | some size =>
      obtain ⟨d, hd, hrep⟩ := h.removeFound hend hline
      have hd' : r.recvBuf.remove (httpParserFindLineEnd c.recvBuf + 2) = .ok d := hd
      simp only [hd', ok_bind]
      exact together_ite Iff.rfl (fun _ => together_trailers hrep)
        fun _ => .ok ⟨rfl, { hrep with chunkRemaining := rfl }⟩

/-- Both read the line end of a chunk. -/
theorem together_chunkEnd (h : Represents c r) :
    Together (MaestroCore.httpClientChunkEnd c) (httpClientChunkEnd r) := by
  have hsize := h.recvBuf.size
  rw [MaestroCore.httpClientChunkEnd, httpClientChunkEnd]
  refine together_ite (by omega) (fun _ => together_readMore h (by omega) (by omega)) fun htwo => ?_
  have htwo := Nat.not_lt.mp htwo
  rw [h.recvBuf.bytesAt htwo, ok_bind]
  have hcrlf : c.recvBuf.take 2 = crlf ↔ crlf <+: c.recvBuf := by
    rw [List.prefix_iff_eq_take]
    exact eq_comm
  refine together_ite hcrlf (fun _ => ?_) fun _ => together_goto h _
  obtain ⟨addr, hmove, hholds⟩ :=
    h.recvBuf.moveToFront htwo (List.ne_nil_of_length_pos (by omega))
  have hleft : (r.recvBuf.size - 2).toNat = c.recvBuf.length - 2 := by omega
  have hleft' : r.recvBuf.size - 2 = (c.recvBuf.length - 2 : ℕ) := by omega
  have hroom := h.room
  rw [hleft, hmove, ok_bind, hleft']
  refine .ok ⟨rfl, { h with recvBuf := hholds, room := ?_ }⟩
  simp only [List.length_drop]
  omega

/-- The decoded body starts with its bytes. -/
theorem Represents.body_starts (h : Represents c r) :
    ((r.decodedBody.getD []).take (c.decodedBody.getD []).length) =
      (c.decodedBody.getD []).map some := by
  rw [h.decodedBody]
  cases c.decodedBody with
  | none => rfl
  | some body => simp [cells]

/-- A chunk that is taken for complete is longer than what has arrived: its size is negative as
an `ssize_t`. -/
def Overreads (c : MaestroCore.HTTPClient) : Prop :=
  c.state = .readingBodyChunked ∧ toLong c.chunkRemaining ≤ c.recvBuf.length ∧
    c.recvBuf.length < c.chunkRemaining

instance (c : MaestroCore.HTTPClient) : Decidable (Overreads c) :=
  inferInstanceAs (Decidable (_ ∧ _ ∧ _))

/-- What becomes of the client then: `realloc` decides. It refuses, and the client has failed
with its body; it frees the body, and the client has failed with an address of no block; or it
returns a block, and the copy reads past the end of the buffer. -/
def afterRealloc (r : HTTPClient) : Except MemoryFault HTTPClient :=
  match bodyBlock r with
  | .refused => .ok { r with state := .error }
  | .freed => .ok { r with state := .error, decodedBody := some [], bodyFreed := true }
  | .block _ => .error .outOfBounds

/-- The client on lists stops there. -/
theorem Overreads.stops (h : Overreads c) :
    MaestroCore.httpClientReadStep c = .error .recvBufOverread := by
  obtain ⟨hs, hcomplete, hover⟩ := h
  rw [MaestroCore.httpClientReadStep, MaestroCore.httpClientWork, hs,
    MaestroCore.httpClientWorktaskReadBodyChunked, if_neg (Int.not_lt.mpr hcomplete),
    if_pos hover]
  rfl

/-- The chunk is longer than any block. -/
theorem Overreads.large (h : Overreads c) : 2 ^ 63 ≤ c.chunkRemaining := by
  obtain ⟨-, hcomplete, hover⟩ := h
  by_contra hlt
  rw [toLong_eq_self (by omega)] at hcomplete
  omega

/-- The client on its memory goes on as `realloc` decides. -/
theorem Overreads.next (h : Overreads c) (hrep : Represents c r) :
    httpClientReadStep r = afterRealloc r := by
  have hcap := hrep.recvBuf.capacity
  have hlarge := h.large
  obtain ⟨hs, hcomplete, -⟩ := h
  have hcomplete' : ¬ r.recvBuf.size < toLong r.chunkRemaining := by
    rw [hrep.recvBuf.size, hrep.chunkRemaining]
    exact Int.not_lt.mpr hcomplete
  rw [httpClientReadStep, httpClientWork, hrep.state, hs]
  dsimp only
  rw [httpClientWorktaskReadBodyChunked, if_neg hcomplete', afterRealloc]
  cases bodyBlock r with
  | refused => rfl
  | freed => rfl
  | block block =>
      have hfetch : bytesAt r.recvBuf.addr r.chunkRemaining = .error .outOfBounds := by
        rw [bytesAt, hrep.chunkRemaining, fetch_of_length_lt (by omega)]
        rfl
      dsimp only
      rw [httpClientCopyChunk, hfetch]
      rfl

/-- Where the client has gone on it has failed, and stays so. -/
theorem afterRealloc_stays {r' : HTTPClient} (h : afterRealloc r = .ok r') :
    httpClientReadStep r' = .ok r' := by
  rw [afterRealloc] at h
  cases hblock : bodyBlock r with
  | refused =>
      rw [hblock] at h
      obtain rfl := Except.ok.inj h
      rfl
  | freed =>
      rw [hblock] at h
      obtain rfl := Except.ok.inj h
      rfl
  | block block =>
      rw [hblock] at h
      cases h

/-- There is memory for a chunk that has arrived. -/
theorem together_copyChunk (h : Represents c r) (hle : c.chunkRemaining ≤ c.recvBuf.length) :
    ∃ block, bodyBlock r = .block block ∧
      Together (MaestroCore.httpClientChunkEnd { c with
          decodedBody := some (c.decodedBody.getD [] ++ c.recvBuf.take c.chunkRemaining)
          recvBuf := c.recvBuf.drop c.chunkRemaining
          chunkRemaining := 0 })
        (httpClientCopyChunk r block) := by
  have hroom := h.room
  obtain ⟨block, hblock, hlast⟩ := store_realloc h.body_starts
    (c.recvBuf.take c.chunkRemaining) (0 : UInt8)
  obtain ⟨d, hd, hrep⟩ := h.remove hle
  have hlong : toLong r.chunkRemaining = c.chunkRemaining := by
    rw [h.chunkRemaining]
    exact toLong_eq_self (by omega)
  have htake : (c.recvBuf.take c.chunkRemaining).length = c.chunkRemaining := by
    rw [List.length_take]
    omega
  have hnew : toSize (r.decodedBodyLen + r.chunkRemaining : ℕ) =
      (c.decodedBody.getD []).length + c.chunkRemaining := by
    rw [h.decodedBodyLen, h.chunkRemaining]
    exact toSize_eq_self (by omega)
  have hsucc : toSize ((c.decodedBody.getD []).length + c.chunkRemaining + 1 : ℕ) =
      (c.decodedBody.getD []).length + c.chunkRemaining + 1 := toSize_eq_self (by omega)
  rw [htake] at hblock hlast
  refine ⟨realloc r.decodedBody ((c.decodedBody.getD []).length + c.chunkRemaining + 1), ?_, ?_⟩
  · rw [bodyBlock, hnew, hsucc]
    exact reallocTo_block (Nat.succ_pos _) (by rw [ptrdiffMax]; omega)
  · rw [httpClientCopyChunk, hnew, hlong]
    simp only [h.chunkRemaining, h.recvBuf.bytesAt hle, h.decodedBodyLen, hblock, access_some,
      ok_bind, hlast, hd]
    refine together_chunkEnd
      { hrep with
        decodedBody := rfl
        decodedBodyLen := ?_
        chunkRemaining := rfl
        room := ?_ }
    · simp [htake]
    · simp only [Option.getD_some, List.length_append, htake, List.length_drop]
      omega

/-- Both read a chunk that is there when it is taken for complete. -/
theorem together_readBodyChunked (h : Represents c r)
    (hfits : toLong c.chunkRemaining ≤ c.recvBuf.length → c.chunkRemaining ≤ c.recvBuf.length) :
    Together (MaestroCore.httpClientWorktaskReadBodyChunked c)
      (httpClientWorktaskReadBodyChunked r) := by
  rw [MaestroCore.httpClientWorktaskReadBodyChunked, httpClientWorktaskReadBodyChunked]
  refine together_ite (by rw [h.recvBuf.size, h.chunkRemaining])
    (fun _ => together_readMore h (by omega) (by omega)) fun hcomplete => ?_
  have hle := hfits (Int.not_lt.mp hcomplete)
  obtain ⟨block, hblock, htogether⟩ := together_copyChunk h hle
  rw [if_neg (Nat.not_lt.mpr hle), hblock]
  exact htogether

/-- Both read a body of a declared length. -/
theorem together_readBody (h : Represents c r) :
    Together (MaestroCore.httpClientWorktaskReadBody c) (httpClientWorktaskReadBody r) := by
  refine together_receive h (by omega) (by simp) ?_ ?_
  · intro c r h
    exact together_ite (by rw [h.recvBuf.size, h.contentLength]) (fun _ => together_goto h _)
      fun _ => .ok ⟨rfl, { h with retries := rfl }⟩
  · intro c r h
    exact together_ite (by rw [h.recvBuf.size, h.contentLength]) (fun _ => together_goto h _)
      fun _ => .ok ⟨rfl, { h with retries := rfl }⟩

/-- Both copy the same bytes. -/
theorem Represents.source (h : Represents c r) :
    bytesAt (deliverySource r).1 (deliverySource r).2 = .ok (MaestroCore.deliverySource c) ∧
      (deliverySource r).2 = (MaestroCore.deliverySource c).length := by
  have hrecv : r.recvBuf.size.toNat = c.recvBuf.length := by
    rw [h.recvBuf.size, Int.toNat_natCast]
  rw [deliverySource, MaestroCore.deliverySource, h.decodedBody, h.decodedBodyLen]
  cases c.decodedBody with
  | none => exact ⟨h.recvBuf.bytes, hrecv⟩
  | some body =>
      by_cases hbody : 0 < body.length
      · have hstarts : body.map some <+: cells (body ++ [0]) :=
          ⟨[some 0], by simp [cells]⟩
        simp only [Option.map_some, Option.isSome_some, Option.getD_some, hbody, and_self,
          if_true]
        exact ⟨congrArg access (fetch_contents hstarts), trivial⟩
      · simp only [Option.getD_some, hbody, and_false, if_false]
        exact ⟨h.recvBuf.bytes, hrecv⟩

/-- The new block holds the bytes that are delivered, and a NUL. -/
theorem Represents.copySource (h : Represents c r) :
    copySource r = .ok (some (cells (MaestroCore.deliverySource c ++ [0]))) := by
  have hsize : (MaestroCore.deliverySource c).length + 1 ≤ ptrdiffMax := by
    have hroom := h.room
    rw [MaestroCore.deliverySource, ptrdiffMax]
    cases hbody : c.decodedBody with
    | none =>
        dsimp only
        omega
    | some body =>
        rw [hbody, Option.getD_some] at hroom
        dsimp only
        split <;> omega
  obtain ⟨hbytes, hlength⟩ := h.source
  have hnew : ((none : Option (Block UInt8)).getD []).take ([] : Bytes).length =
      ([] : Bytes).map some := rfl
  obtain ⟨block, hblock, hlast⟩ :=
    store_realloc hnew (MaestroCore.deliverySource c) (0 : UInt8)
  simp only [List.length_nil, Nat.zero_add, List.nil_append] at hblock hlast
  rw [hlength] at hbytes
  simp only [InMemory.copySource, hlength, hbytes, ok_bind,
    reallocTo_block (Nat.succ_pos _) hsize, hblock, access_some, hlast]
  rfl

/-- Both deliver. -/
theorem together_returning (h : Represents c r) :
    Together (MaestroCore.httpClientWorktaskReturning c) (httpClientWorktaskReturning r) := by
  rw [MaestroCore.httpClientWorktaskReturning, httpClientWorktaskReturning]
  refine together_ite (by rw [h.blockingMode]) (fun _ => ?_) fun _ => ?_
  · rw [h.blockingOut]
    cases c.blockingOut with
    | none => exact together_goto h _
    | some out =>
        simp only [Option.map_some, h.copySource, ok_bind]
        exact .ok ⟨rfl, { h with blockingOut := by rw [h.source.2]; rfl }⟩
  · refine together_ite (by rw [h.onSuccess]) (fun _ => ?_) fun _ => together_goto h _
    rw [h.copySource, ok_bind]
    exact .ok ⟨rfl, { h with responses := by rw [h.responses, List.map_append]; rfl }⟩

/-- The two clients take the same step. -/
theorem lockstep_readStep (h : Represents c r) (hover : ¬ Overreads c) :
    Lockstep Represents ((MaestroCore.httpClientReadStep c).mapError .of)
      (httpClientReadStep r) := by
  have hwork : Together (MaestroCore.httpClientWork c) (httpClientWork r) := by
    rw [MaestroCore.httpClientWork, httpClientWork, h.state]
    cases hs : c.state with
    | readingFirstline => exact together_readFirstline h
    | readingHeaders => exact together_readHeaders h
    | decipherChonkiness => exact together_decipherChonkiness h
    | readingBodyChunked =>
        exact together_readBodyChunked h fun hcomplete =>
          Nat.not_lt.mp fun hlt => hover ⟨hs, hcomplete, hlt⟩
    | readingBody => exact together_readBody h
    | returning => exact together_returning h
    | _ => exact together_goto h _
  rw [MaestroCore.httpClientReadStep, httpClientReadStep]
  generalize MaestroCore.httpClientWork c = x at hwork
  generalize httpClientWork r = y at hwork
  cases x with
  | error f =>
      cases hwork with
      | fault e => exact .fault _
  | ok p =>
      cases hwork with
      | ok hto =>
          rename_i q
          obtain ⟨s, c'⟩ := p
          obtain ⟨s', r'⟩ := q
          obtain ⟨rfl, hrep⟩ := hto
          exact .ok { hrep with state := rfl }

/-- As long as the client on lists runs the other one answers its steps. -/
theorem simulates_readStep {c' : MaestroCore.HTTPClient} (h : Represents c r)
    (hstep : MaestroCore.httpClientReadStep c = .ok c') :
    ∃ r', httpClientReadStep r = .ok r' ∧ Represents c' r' := by
  have hover : ¬ Overreads c := by
    intro hover
    rw [hover.stops] at hstep
    cases hstep
  have hlock := lockstep_readStep h hover
  rw [hstep] at hlock
  generalize httpClientReadStep r = y at hlock ⊢
  cases hlock with
  | ok hrep => exact ⟨_, rfl, hrep⟩

/-- When the client on lists has stopped, the other one has too, or it has failed. -/
theorem stays_of_fault {f : Fault} {r' : HTTPClient} (h : Represents c r)
    (hstep : MaestroCore.httpClientReadStep c = .error f) (hr : httpClientReadStep r = .ok r') :
    httpClientReadStep r' = .ok r' := by
  by_cases hover : Overreads c
  · rw [hover.next h] at hr
    exact afterRealloc_stays hr
  · have hlock := lockstep_readStep h hover
    rw [hstep, hr] at hlock
    cases hlock

/-- Where the next access is not allowed. -/
theorem outOfBounds_iff (h : Represents c r) :
    httpClientReadStep r = .error .outOfBounds ↔
      MaestroCore.httpClientReadStep c = .error .chunkLineBuffer ∨
        Overreads c ∧ afterRealloc r = .error .outOfBounds := by
  by_cases hover : Overreads c
  · rw [hover.next h, hover.stops]
    simp [hover]
  · have hlock := lockstep_readStep h hover
    generalize MaestroCore.httpClientReadStep c = x at hlock ⊢
    generalize httpClientReadStep r = y at hlock ⊢
    cases x with
    | ok c' =>
        cases hlock with
        | ok hrep => simp [hover]
    | error f =>
        cases hlock with
        | fault e => cases f <;> simp [MemoryFault.of, hover]

end Workers

/-- At the start the buffer is empty and there is room for all that arrives. -/
theorem represents_start (sink : Sink) {incoming : List Arrival}
    (hvolume : volumeOf incoming + 1 < 2 ^ 63) :
    Represents (MaestroCore.start sink incoming) (start sink incoming) where
  state := rfl
  transport := rfl
  recvBuf := ⟨rfl, List.nil_prefix, by simp [start]⟩
  decodedBody := rfl
  decodedBodyLen := rfl
  bodyFreed := rfl
  chunkRemaining := rfl
  contentLength := rfl
  retries := rfl
  headers := rfl
  resp := rfl
  blockingMode := rfl
  blockingOut := by cases sink <;> rfl
  onSuccess := rfl
  responses := rfl
  room := by simpa [MaestroCore.start] using hvolume

/-- A chunked response whose second segment starts within the first chunk. -/
def chunkedArrivals : List Arrival :=
  [.data ⟨ascii "HTTP/1.1 200 OK\r\nTransfer-Encoding: chunked\r\n\r\n3;x\r\nh", by decide⟩,
    .data ⟨ascii "el\r\n2\r\nlo\r\n0\r\n\r\n", by decide⟩]

/-- A chunk of five bytes, and a size line whose value is -6 as an `int`. -/
def wrappedArrivals : List Arrival :=
  [.data ⟨ascii "HTTP/1.1 200 OK\r\nTransfer-Encoding: chunked\r\n\r\n", by decide⟩,
    .data ⟨ascii "5\r\nhello\r\nFFFFFFFA\r\n", by decide⟩]

end InMemory

end MaestroCore
