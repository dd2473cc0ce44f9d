import MaestroCore.HeapParser
import MaestroCore.Transitions

/-!
# The Reading Workers and the Heap

The reading workers of `http_client.c` once more, with the memory that they ask for, use and
give back.
Beside the client of the plain model stand the blocks that its pointers point to. A request for
memory may be refused at any point, and the worker then goes to `HTTP_CLIENT_ERROR`, where
nothing but `http_client_dispose` is left to run.

## Main results

* `owns_work`: a reading worker keeps exactly the blocks of the client, and follows no bad
  pointer, unless `realloc` ends the block of the decoded body.
* `work_endsBody`: what happens then.
* `refines_work`: on a heap that refuses nothing, and with chunks that fit a block, the workers
  are those of the plain model.
-/

open CLang Ownership

namespace MaestroCore.Allocating

/-- The blocks that the pointers of an `HTTP_Client` point to. `output` is what the caller's
`http_data` points to, and `delivered` lists the buffers that the callback has been given. -/
structure ClientBlocks where
  url : Option Block := none
  req : Option Block := none
  resp : Option Block := none
  reqBody : Option Block := none
  headers : Option HeaderList := none
  strings : ResponseBlocks := {}
  requestBuffer : Option Block := none
  decodedBody : Option Block := none
  recvBuf : Option Block := none
  output : Option Block := none
  delivered : List Block := []
  deriving DecidableEq, Repr

/-- A value of the plain model with the blocks under it. -/
structure Held (σ : Type) where
  content : σ
  blocks : ClientBlocks

/-- A client with its blocks. -/
abbrev HTTPClient := Held MaestroCore.HTTPClient

/-- What a reading worker does. -/
abbrev Worked := Allocated (HTTPClientState × HTTPClient)

/-- The worker goes to the given state. -/
def goto (s : HTTPClientState) (c : HTTPClient) : Worked := pure (s, c)

/-- A look at the bytes of `recv_buf`, if there are any. -/
def readRecvBuf (c : HTTPClient) : Allocated Unit :=
  if c.content.recvBuf = [] then pure () else deref c.blocks.recvBuf

/-- One `transport_read`, with the `buffer_append` after it. -/
def receive (c : HTTPClient) (len : ℕ) (again : HTTPClientState)
    (onClosed onBytes : HTTPClient → Worked) : Worked :=
  match transportRead c.content.transport len with
  | (.failed e, t) =>
      goto (if e.transient then again else .error)
        { c with content := { c.content with transport := t } }
  | (.zero, t) => onClosed { c with content := { c.content with transport := t } }
  | (.bytes b, t) => do
      match ← realloc c.blocks.recvBuf .recvBuf with
      | none => goto .error { c with content := { c.content with transport := t } }
      | some addr =>
          onBytes {
            content := { c.content with
              transport := t, recvBuf := bufferAppend c.content.recvBuf b }
            blocks := { c.blocks with recvBuf := some addr } }

/-! ### The head of the response -/

/-- The part of `http_client_worktask_read_firstline` that runs after bytes have come. -/
def httpClientFirstline (c : HTTPClient) : Worked := do
  readRecvBuf c
  if c.content.recvBuf = [] then goto .readingFirstline c
  else
    let lineEnd := httpParserFindLineEnd c.content.recvBuf
    if lineEnd < 0 then
      if 1024 ≤ c.content.recvBuf.length then goto .error c else goto .readingFirstline c
    else
      let lineLen := lineEnd.toNat
      if lineLen = 0 ∨ 1024 ≤ lineLen then goto .error c
      else do
        deref c.blocks.resp
        let (code, resp, strings) ← httpParserResponseFirstline (c.content.recvBuf.take lineLen)
          c.content.resp c.blocks.strings
        let c : HTTPClient :=
          ⟨{ c.content with resp := resp }, { c.blocks with strings := strings }⟩
        if code ≠ .success then goto .error c
        else
          goto .readingHeaders
            { c with content := { c.content with
              recvBuf := c.content.recvBuf.drop (lineLen + 2) } }

/-- `http_client_worktask_read_firstline`. -/
def httpClientWorktaskReadFirstline (c : HTTPClient) : Worked :=
  receive c 8095 .readingFirstline (goto .error) httpClientFirstline

/-- The nodes, keys and values that `http_parser_get_header_value` looks at. -/
def readHeaderItems : List HeaderItem → Allocated Unit
  | [] => pure ()
  | x :: items => do
      use x.node
      use x.keyValue
      use x.key
      use x.value
      readHeaderItems items

/-- The part of `http_client_worktask_read_headers` that runs once the end of the header block
has been found. -/
def httpClientHeadersComplete (c : HTTPClient) (headersEnd : ℕ) : Worked := do
  let parsedLen := headersEnd + 4
  readRecvBuf c
  deref c.blocks.req
  match ← httpParserHeaders (c.content.recvBuf.take parsedLen) with
  | (.success, some l) => do
      let c : HTTPClient :=
        ⟨{ c.content with
            headers := some l.headers
            recvBuf := c.content.recvBuf.drop parsedLen
            retries := 0 },
          { c.blocks with headers := some l }⟩
      use l.list
      readHeaderItems l.items
      if transferEncodingChunked l.headers then goto .decipherChonkiness c
      else
        match httpParserGetHeaderValue l.headers (ascii "Content-Length") with
        | .error _ => goto .returning c
        | .ok value => do
            let cl := (← lift (parseStringToInt value)).getD 0
            if 0 < cl then
              let c : HTTPClient := { c with content := { c.content with contentLength := cl } }
              if cl ≤ c.content.recvBuf.length then goto .returning c else goto .readingBody c
            else goto .returning c
  | (_, headers) =>
      goto .error
        ⟨{ c.content with headers := none }, { c.blocks with headers := headers }⟩

/-- `http_client_worktask_read_headers`. -/
def httpClientWorktaskReadHeaders (c : HTTPClient) : Worked := do
  readRecvBuf c
  let headersEnd := httpParserFindHeadersEnd c.content.recvBuf
  if c.content.recvBuf ≠ [] ∧ 0 ≤ headersEnd then httpClientHeadersComplete c headersEnd.toNat
  else
    receive c 1023 .readingHeaders
      (fun c =>
        let headersEnd := httpParserFindHeadersEnd c.content.recvBuf
        if 0 ≤ headersEnd then httpClientHeadersComplete c headersEnd.toNat
        else goto .error c)
      (goto .readingHeaders)

/-! ### The body -/

/-- The part of `http_client_worktask_decipher_chonkiness` after a chunk-size line of value
zero. -/
def httpClientTrailers (c : HTTPClient) : Worked := do
  readRecvBuf c
  if crlf <+: c.content.recvBuf then
    goto .returning { c with content := { c.content with recvBuf := c.content.recvBuf.drop 2 } }
  else
    let trailingEnd := httpParserFindHeadersEnd c.content.recvBuf
    if 0 ≤ trailingEnd then
      goto .returning { c with content := { c.content with
        recvBuf := c.content.recvBuf.drop (trailingEnd.toNat + 4) } }
    else receive c 1023 .decipherChonkiness (goto .error) (goto .decipherChonkiness)

/-- `http_client_worktask_decipher_chonkiness`. -/
def httpClientWorktaskDecipherChonkiness (c : HTTPClient) : Worked := do
  readRecvBuf c
  let lineEnd := httpParserFindLineEnd c.content.recvBuf
  if lineEnd < 0 then
    receive c 1023 .decipherChonkiness (goto .error) (goto .decipherChonkiness)
  else do
    match ← lift (chunkSize (c.content.recvBuf.take lineEnd.toNat)) with
    | none => goto .error c
    | some size =>
        let c : HTTPClient := { c with content := { c.content with
          recvBuf := c.content.recvBuf.drop (lineEnd.toNat + 2) } }
        if size = 0 then httpClientTrailers c
        else
          goto .readingBodyChunked
            { c with content := { c.content with chunkRemaining := toSize (toInt size) } }

/-- The part of `http_client_worktask_read_body_chunked` that runs once the chunk has been
copied. -/
def httpClientChunkEnd (c : HTTPClient) : Worked := do
  if c.content.recvBuf.length < 2 then
    receive c 1024 .readingBodyChunked (goto .error) (goto .readingBodyChunked)
  else do
    readRecvBuf c
    if crlf <+: c.content.recvBuf then
      goto .decipherChonkiness
        { c with content := { c.content with recvBuf := c.content.recvBuf.drop 2 } }
    else goto .error c

/-- The size that `realloc` is asked for: the body with the chunk and a NUL behind it, in
`size_t`. -/
def decodedSize (c : MaestroCore.HTTPClient) : ℕ :=
  ((c.decodedBody.getD []).length + c.chunkRemaining + 1) % 2 ^ 64

/-- `http_client_worktask_read_body_chunked`. The block of `decoded_body` gets its new size before
the chunk is copied. When that size is zero the block is gone, and `decoded_body` still points
to it. -/
def httpClientWorktaskReadBodyChunked (c : HTTPClient) : Worked := do
  if (c.content.recvBuf.length : ℤ) < toLong c.content.chunkRemaining then
    receive c 1023 .readingBodyChunked (goto .error) (goto .readingBodyChunked)
  else do
    match ← reallocTo c.blocks.decodedBody .decodedBody (decodedSize c.content) with
    | none => goto .error c
    | some addr =>
        if c.content.recvBuf.length < c.content.chunkRemaining then fail .recvBufOverread
        else do
          readRecvBuf c
          httpClientChunkEnd
            ⟨{ c.content with
                decodedBody := some (c.content.decodedBody.getD [] ++
                  c.content.recvBuf.take c.content.chunkRemaining)
                recvBuf := c.content.recvBuf.drop c.content.chunkRemaining
                chunkRemaining := 0 },
              { c.blocks with decodedBody := some addr }⟩

/-- `http_client_worktask_read_body`. -/
def httpClientWorktaskReadBody (c : HTTPClient) : Worked :=
  receive c 1023 .readingBody
    (fun c =>
      if (c.content.recvBuf.length : ℤ) < c.content.contentLength then goto .error c
      else goto .returning { c with content := { c.content with retries := 0 } })
    (fun c =>
      if (c.content.recvBuf.length : ℤ) < c.content.contentLength then goto .readingBody c
      else goto .returning { c with content := { c.content with retries := 0 } })

/-- The `memcpy` of `http_client_worktask_returning` from its source. -/
def readSource (c : HTTPClient) : Allocated Unit :=
  match c.content.decodedBody with
  | some body => if 0 < body.length then deref c.blocks.decodedBody else readRecvBuf c
  | none => readRecvBuf c

/-- `http_client_worktask_returning`. -/
def httpClientWorktaskReturning (c : HTTPClient) : Worked :=
  let src := deliverySource c.content
  if c.content.blockingMode then
    match c.content.blockingOut with
    | none => goto .error c
    | some _ => do
        freeOpt c.blocks.output
        match ← malloc .output with
        | none =>
            goto .error
              ⟨{ c.content with blockingOut := some {} }, { c.blocks with output := none }⟩
        | some buf => do
            readSource c
            goto .disposing
              ⟨{ c.content with blockingOut := some ⟨some (src ++ [0]), src.length⟩ },
                { c.blocks with output := some buf }⟩
  else if c.content.onSuccess then do
    match ← malloc .output with
    | none => goto .error c
    | some buf => do
        readSource c
        -- the buffer is the callback's from here on
        goto .disposing
          ⟨{ c.content with responses := c.content.responses ++ [src ++ [0]] },
            { c.blocks with delivered := c.blocks.delivered ++ [buf] }⟩
  else goto .error c

/-- The dispatch of the reading workers. -/
def httpClientWork (c : HTTPClient) : Worked :=
  match c.content.state with
  | .readingFirstline => httpClientWorktaskReadFirstline c
  | .readingHeaders => httpClientWorktaskReadHeaders c
  | .decipherChonkiness => httpClientWorktaskDecipherChonkiness c
  | .readingBodyChunked => httpClientWorktaskReadBodyChunked c
  | .readingBody => httpClientWorktaskReadBody c
  | .returning => httpClientWorktaskReturning c
  | s => goto s c

/-! ### The blocks of a client -/

/-- The blocks of a client, with those that it has handed out. -/
def ClientBlocks.all (b : ClientBlocks) : Multiset Block :=
  blockOf b.url + blockOf b.req + blockOf b.resp + blockOf b.reqBody + listBlocks b.headers +
    b.strings.blocks + blockOf b.requestBuffer + blockOf b.decodedBody + blockOf b.recvBuf +
    blockOf b.output + (b.delivered : Multiset Block)

section Blocks

variable (b : ClientBlocks)

/-- The blocks of a client, with that of `recv_buf` apart. -/
theorem ClientBlocks.all_recvBuf :
    b.all = blockOf b.recvBuf + { b with recvBuf := none }.all := by
  simp only [ClientBlocks.all, blockOf_none]
  abel

/-- The blocks of a client, with that of `decoded_body` apart. -/
theorem ClientBlocks.all_decodedBody :
    b.all = blockOf b.decodedBody + { b with decodedBody := none }.all := by
  simp only [ClientBlocks.all, blockOf_none]
  abel

/-- The blocks of a client, with the buffer of the output apart. -/
theorem ClientBlocks.all_output : b.all = blockOf b.output + { b with output := none }.all := by
  simp only [ClientBlocks.all, blockOf_none]
  abel

/-- The blocks of a client, with that of `request_buffer` apart. -/
theorem ClientBlocks.all_requestBuffer :
    b.all = blockOf b.requestBuffer + { b with requestBuffer := none }.all := by
  simp only [ClientBlocks.all, blockOf_none]
  abel

/-- The blocks of a client, with the `HTTP_Request` apart. -/
theorem ClientBlocks.all_req : b.all = blockOf b.req + { b with req := none }.all := by
  simp only [ClientBlocks.all, blockOf_none]
  abel

/-- The blocks of a client, with the `HTTP_Response` apart. -/
theorem ClientBlocks.all_resp : b.all = blockOf b.resp + { b with resp := none }.all := by
  simp only [ClientBlocks.all, blockOf_none]
  abel

/-- The blocks of a client, with the copy of the URL apart. -/
theorem ClientBlocks.all_url : b.all = blockOf b.url + { b with url := none }.all := by
  simp only [ClientBlocks.all, blockOf_none]
  abel

/-- The blocks of a client, with the copy of the body apart. -/
theorem ClientBlocks.all_reqBody : b.all = blockOf b.reqBody + { b with reqBody := none }.all := by
  simp only [ClientBlocks.all, blockOf_none]
  abel

/-- The blocks of a client, with the list of the headers apart. -/
theorem ClientBlocks.all_headers :
    b.all = listBlocks b.headers + { b with headers := none }.all := by
  simp only [ClientBlocks.all, listBlocks]
  abel

/-- The blocks of a client, with the strings of the status line apart. -/
theorem ClientBlocks.all_strings : b.all = b.strings.blocks + { b with strings := {} }.all := by
  have hnone : ResponseBlocks.blocks {} = 0 := rfl
  simp only [ClientBlocks.all, hnone]
  abel

/-- A buffer that is handed over is one block more. -/
theorem ClientBlocks.all_deliver (buf : Block) :
    { b with delivered := b.delivered ++ [buf] }.all = buf ::ₘ b.all := by
  simp only [ClientBlocks.all, ← Multiset.coe_add, Multiset.coe_singleton, ← Multiset.singleton_add]
  abel

/-- The block of `recv_buf` is one of the client. -/
theorem ClientBlocks.mem_all_recvBuf {x : Block} (h : x ∈ blockOf b.recvBuf) : x ∈ b.all := by
  rw [ClientBlocks.all_recvBuf]
  exact Multiset.mem_add.mpr (Or.inl h)

/-- The block of `decoded_body` is one of the client. -/
theorem ClientBlocks.mem_all_decodedBody {x : Block} (h : x ∈ blockOf b.decodedBody) :
    x ∈ b.all := by
  rw [ClientBlocks.all_decodedBody]
  exact Multiset.mem_add.mpr (Or.inl h)

/-- A pointer that is not null points to a block that is there. -/
theorem mem_of_eq_blockOf {P Q : Multiset Block} {o : Option Block} (h : P = blockOf o + Q)
    (ho : o ≠ none) : ∃ x ∈ P, o = some x := by
  obtain ⟨x, rfl⟩ := Option.ne_none_iff_exists'.mp ho
  exact ⟨x, by simp [h], rfl⟩

end Blocks

/-! ### What a worker may rely on -/

/-- The states up to the status line. -/
def beforeStrings : HTTPClientState → Bool
  | .connecting | .waitingConnect | .buildingRequest | .sendingRequest | .readingFirstline => true
  | _ => false

/-- The states up to the header block. -/
def beforeHeaders : HTTPClientState → Bool
  | .readingHeaders => true
  | s => beforeStrings s

/-- The status line is read before the headers. -/
theorem beforeHeaders_of_beforeStrings {s : HTTPClientState} (h : beforeStrings s = true) :
    beforeHeaders s = true := by
  cases s <;> first | rfl | cases h

/-- The states of the request. -/
def requesting : HTTPClientState → Bool
  | .connecting | .waitingConnect | .buildingRequest | .sendingRequest => true
  | _ => false

/-- The blocks that a client has handed out are those of its receiver: an output block exactly
under a filled `http_data`, and a block for each call of the callback. A blocking client hands
out none of the latter, and a scheduled client none of the former. -/
structure Receives (m : Bool) (r : Receiver) (output : Option Block) (delivered : List Block) :
    Prop where
  mode : r.blockingMode = m
  filled : (r.blockingOut.bind HTTPData.addr).isSome = output.isSome
  handed : delivered.length = r.responses.length
  undelivered : m = true → delivered = []
  unfilled : m = false → output = none

/-- The pointers of a client in the given state. What a worker follows is not null, and what it
is about to set is not set yet. -/
structure Fits (m : Bool) (s : HTTPClientState) (c : HTTPClient) : Prop where
  url : c.blocks.url ≠ none
  req : c.blocks.req ≠ none
  resp : c.blocks.resp ≠ none
  recvBuf : c.content.recvBuf ≠ [] → c.blocks.recvBuf ≠ none
  decodedBody : c.content.decodedBody ≠ none → c.blocks.decodedBody ≠ none
  strings : beforeStrings s = true → c.blocks.strings = {}
  headers : beforeHeaders s = true → c.blocks.headers = none
  receiver : Receives m c.content.receiver c.blocks.output c.blocks.delivered

/-- The next call of the worker ends the block of `decoded_body`: a chunk is taken for complete
whose size, with the body and the NUL, is zero in `size_t`. -/
def EndsBody (c : MaestroCore.HTTPClient) (decodedBody : Option Block) : Prop :=
  c.state = .readingBodyChunked ∧ toLong c.chunkRemaining ≤ c.recvBuf.length ∧
    decodedSize c = 0 ∧ decodedBody ≠ none

instance (c : MaestroCore.HTTPClient) (o : Option Block) : Decidable (EndsBody c o) :=
  inferInstanceAs (Decidable (_ ∧ _ ∧ _ ∧ _))

/-- A reading worker has kept the blocks of the client. -/
def Keeps (m : Bool) (p : HTTPClientState × HTTPClient) (R : Multiset Block) : Prop :=
  R = p.2.blocks.all ∧ Fits m p.1 p.2 ∧ requesting p.1 = false

section Workers

variable {cost : Kind → ℕ} {β : Type} {S : β → Multiset Block → Prop} {m : Bool}
  {s s' : HTTPClientState} {c d : HTTPClient}

/-- Another state, and other contents of the buffers. -/
theorem Fits.change (h : Fits m s c) (hblocks : d.blocks = c.blocks)
    (hrecv : d.content.recvBuf ≠ [] → c.content.recvBuf ≠ [])
    (hdecoded : d.content.decodedBody = c.content.decodedBody)
    (hreceiver : d.content.receiver = c.content.receiver)
    (hstrings : beforeStrings s' = true → beforeStrings s = true)
    (hheaders : beforeHeaders s' = true → beforeHeaders s = true) : Fits m s' d where
  url := hblocks ▸ h.url
  req := hblocks ▸ h.req
  resp := hblocks ▸ h.resp
  recvBuf := fun hne => hblocks ▸ h.recvBuf (hrecv hne)
  decodedBody := fun hne => hblocks ▸ h.decodedBody (hdecoded ▸ hne)
  strings := fun hs => hblocks ▸ h.strings (hstrings hs)
  headers := fun hs => hblocks ▸ h.headers (hheaders hs)
  receiver := by rw [hblocks, hreceiver]; exact h.receiver

/-- A later state. -/
theorem Fits.later (h : Fits m s c) (hstrings : beforeStrings s' = true → beforeStrings s = true)
    (hheaders : beforeHeaders s' = true → beforeHeaders s = true) : Fits m s' c :=
  h.change rfl id rfl rfl hstrings hheaders

/-- A change of the state keeps the blocks. -/
theorem owns_goto {P : Multiset Block} (h : Fits m s c) (hs : requesting s = false)
    (hP : P = c.blocks.all) : Owns cost P (goto s c) (Keeps m) := .pure ⟨hP, h, hs⟩

/-- A failure keeps the blocks, whatever the state was. -/
theorem owns_error {P : Multiset Block} (h : Fits m s c) (hP : P = c.blocks.all) :
    Owns cost P (goto .error c) (Keeps m) := owns_goto (h.later nofun nofun) rfl hP

/-- `recv_buf` is read where its block is there. -/
theorem owns_readRecvBuf_of_mem {P : Multiset Block} {f : Unit → Allocated β} (h : Fits m s c)
    (hrecv : ∀ b ∈ blockOf c.blocks.recvBuf, b ∈ P) (hf : Owns cost P (f ()) S) :
    Owns cost P (readRecvBuf c >>= f) S := by
  rw [readRecvBuf]
  split
  · exact hf
  · rename_i hne
    obtain ⟨b, hb⟩ := Option.ne_none_iff_exists'.mp (h.recvBuf hne)
    exact .deref ⟨b, hrecv b (by simp [hb]), hb⟩ hf

/-- `recv_buf` is read in a client whose pointers fit its state. -/
theorem owns_readRecvBuf {f : Unit → Allocated β} (h : Fits m s c)
    (hf : Owns cost c.blocks.all (f ()) S) :
    Owns cost c.blocks.all (readRecvBuf c >>= f) S :=
  owns_readRecvBuf_of_mem h (fun _ => c.blocks.mem_all_recvBuf) hf

/-- **A read from the transport**, with the `buffer_append` after it. -/
theorem owns_receive (hcost : Pricing cost) {len : ℕ} {onClosed onBytes : HTTPClient → Worked}
    (h : Fits m s c) (hs : requesting s = false)
    (hclosed : ∀ d, Fits m s d → Owns cost d.blocks.all (onClosed d) (Keeps m))
    (hbytes : ∀ d, Fits m s d → Owns cost d.blocks.all (onBytes d) (Keeps m)) :
    Owns cost c.blocks.all (receive c len s onClosed onBytes) (Keeps m) := by
  have hread : ∀ t, Fits m s { c with content := { c.content with transport := t } } :=
    fun t => h.change rfl id rfl rfl id id
  rw [receive]
  obtain ⟨r, t⟩ := transportRead c.content.transport len
  cases r with
  | failed e =>
      simp only
      split
      · exact owns_goto (hread t) hs rfl
      · exact owns_error (hread t) rfl
  | zero => exact hclosed _ (hread t)
  | bytes b =>
      refine (Owns.realloc (hcost.other _ (by simp) (by simp)) (fun addr => ?_) ?_).congr
        c.blocks.all_recvBuf
      · have hgrown : Fits m s {
            content := { c.content with
              transport := t, recvBuf := bufferAppend c.content.recvBuf b }
            blocks := { c.blocks with recvBuf := some addr } } :=
          ⟨h.url, h.req, h.resp, fun _ => Option.some_ne_none addr, h.decodedBody, h.strings,
            h.headers, h.receiver⟩
        refine (hbytes _ hgrown).congr ?_
        rw [← Multiset.singleton_add, ← blockOf_some]
        exact (ClientBlocks.all_recvBuf { c.blocks with recvBuf := some addr }).symm
      · exact owns_error (hread t) c.blocks.all_recvBuf.symm

/-- Bytes are removed from the front of the buffer. -/
theorem Fits.drop (h : Fits m s c) (n : ℕ) :
    Fits m s { c with content := { c.content with recvBuf := c.content.recvBuf.drop n } } :=
  h.change rfl (fun hne heq => hne (by simp [heq])) rfl rfl id id

/-- Reading the status line keeps the blocks and adds its strings. -/
theorem owns_firstline (hcost : Pricing cost) (h : Fits m .readingFirstline c) :
    Owns cost c.blocks.all (httpClientFirstline c) (Keeps m) := by
  refine owns_readRecvBuf h ?_
  generalize httpParserFindLineEnd c.content.recvBuf = lineEnd
  split
  · exact owns_goto h rfl rfl
  · simp only
    split
    · split
      · exact owns_error h rfl
      · exact owns_goto h rfl rfl
    · split
      · exact owns_error h rfl
      · refine .deref (mem_of_eq_blockOf c.blocks.all_resp h.resp) ?_
        have hparsed := (owns_responseFirstline hcost (c.content.recvBuf.take lineEnd.toNat)
          c.content.resp).frame c.blocks.all
        rw [h.strings rfl]
        refine (hparsed.congr (zero_add _).symm).bind ?_
        rintro ⟨code, resp, strings⟩ R ⟨R', rfl, rfl, -⟩
        have hblocks : strings.blocks + c.blocks.all =
            { c.blocks with strings := strings }.all := by
          rw [ClientBlocks.all_strings { c.blocks with strings := strings }, ← h.strings rfl]
        have hnew : Fits m .readingHeaders
            ⟨{ c.content with resp := resp }, { c.blocks with strings := strings }⟩ :=
          ⟨h.url, h.req, h.resp, h.recvBuf, h.decodedBody, nofun, fun _ => h.headers rfl,
            h.receiver⟩
        simp only
        split
        · exact owns_error hnew hblocks
        · exact owns_goto (hnew.drop (lineEnd.toNat + 2)) rfl hblocks

/-- A list of headers is walked where its nodes and its headers are there. -/
theorem owns_readHeaderItems {P : Multiset Block} {f : Unit → Allocated β}
    {items : List HeaderItem} (hheaders : ∀ b ∈ headerBlocks items, b ∈ P)
    (hnodes : ∀ b ∈ nodeBlocks items, b ∈ P) (hf : Owns cost P (f ()) S) :
    Owns cost P (readHeaderItems items >>= f) S := by
  induction items with
  | nil => exact hf
  | cons x items ih =>
      simp only [headerBlocks, nodeBlocks, Multiset.mem_cons, forall_eq_or_imp] at hheaders hnodes
      obtain ⟨hkey, hvalue, hkeyValue, hheaders⟩ := hheaders
      obtain ⟨hnode, hnodes⟩ := hnodes
      simp only [readHeaderItems, bind_assoc]
      exact .use hnode (.use hkeyValue (.use hkey (.use hvalue (ih hheaders hnodes))))

/-- The headers have been parsed. -/
theorem Fits.parsed (h : Fits m s c) (l : Option HeaderList) (hs : beforeHeaders s' = false) :
    Fits m s' { c with blocks := { c.blocks with headers := l } } where
  url := h.url
  req := h.req
  resp := h.resp
  recvBuf := h.recvBuf
  decodedBody := h.decodedBody
  strings := fun hbefore => by cases hs.symm.trans (beforeHeaders_of_beforeStrings hbefore)
  headers := fun hbefore => by cases hs.symm.trans hbefore
  receiver := h.receiver

/-- The end of the header block adds the list of the headers. -/
theorem owns_headersComplete (hcost : Pricing cost) (h : Fits m .readingHeaders c) (n : ℕ) :
    Owns cost c.blocks.all (httpClientHeadersComplete c n) (Keeps m) := by
  have hblocks : ∀ l, listBlocks l + c.blocks.all = { c.blocks with headers := l }.all := by
    intro l
    rw [ClientBlocks.all_headers { c.blocks with headers := l }, ← h.headers rfl]
  refine owns_readRecvBuf h (.deref (mem_of_eq_blockOf c.blocks.all_req h.req) ?_)
  have hparsed := (owns_headers hcost (c.content.recvBuf.take (n + 4))).frame c.blocks.all
  refine (hparsed.congr (zero_add _).symm).bind ?_
  rintro ⟨code, headers⟩ R ⟨R', rfl, rfl, hcode⟩
  split
  · rename_i l heq
    obtain ⟨rfl, rfl⟩ := Prod.mk.inj heq
    have hl : ∀ b ∈ l.blocks, b ∈ listBlocks (some l) + c.blocks.all :=
      fun b hb => Multiset.mem_add.mpr (Or.inl hb)
    refine .use (hl _ (by simp [HeaderList.blocks])) ?_
    refine owns_readHeaderItems (fun b hb => hl b (by simp [HeaderList.blocks, hb]))
      (fun b hb => hl b (by simp [HeaderList.blocks, hb])) ?_
    have hnew : ∀ s', beforeHeaders s' = false → ∀ cl, Fits m s'
        ⟨{ c.content with
            headers := some l.headers
            recvBuf := c.content.recvBuf.drop (n + 4)
            retries := 0
            contentLength := cl },
          { c.blocks with headers := some l }⟩ :=
      fun s' hs cl => ((h.drop (n + 4)).parsed (some l) hs).change rfl id rfl rfl id id
    simp only
    split
    · exact owns_goto (hnew .decipherChonkiness rfl _) rfl (hblocks _)
    · split
      · exact owns_goto (hnew .returning rfl _) rfl (hblocks _)
      · refine .bind (.lift (Q := fun _ R => R = _) fun _ _ => rfl) ?_
        rintro cl R rfl
        split
        · split
          · exact owns_goto (hnew .returning rfl _) rfl (hblocks _)
          · exact owns_goto (hnew .readingBody rfl _) rfl (hblocks _)
        · exact owns_goto (hnew .returning rfl _) rfl (hblocks _)
  · rename_i code' headers' hne heq
    obtain ⟨rfl, rfl⟩ := Prod.mk.inj heq
    have hfailed : Fits m .error
        ⟨{ c.content with headers := none }, { c.blocks with headers := headers }⟩ :=
      (h.parsed headers rfl).change rfl id rfl rfl id id
    exact owns_goto hfailed rfl (hblocks headers)

/-- Reading the headers keeps the blocks and adds the list at their end. -/
theorem owns_readHeaders (hcost : Pricing cost) (h : Fits m .readingHeaders c) :
    Owns cost c.blocks.all (httpClientWorktaskReadHeaders c) (Keeps m) := by
  refine owns_readRecvBuf h ?_
  simp only
  split
  · exact owns_headersComplete hcost h _
  · refine owns_receive hcost h rfl (fun d hd => ?_) fun d hd => owns_goto hd rfl rfl
    split
    · exact owns_headersComplete hcost hd _
    · exact owns_error hd rfl

/-- What comes after the last size line is read with the blocks kept. -/
theorem owns_trailers (hcost : Pricing cost) (h : Fits m .decipherChonkiness c) :
    Owns cost c.blocks.all (httpClientTrailers c) (Keeps m) := by
  refine owns_readRecvBuf h ?_
  split
  · exact owns_goto ((h.drop 2).later nofun nofun) rfl rfl
  · simp only
    split
    · exact owns_goto ((h.drop _).later nofun nofun) rfl rfl
    · exact owns_receive hcost h rfl (fun d hd => owns_error hd rfl)
        fun d hd => owns_goto hd rfl rfl

/-- A size line is read with the blocks kept. -/
theorem owns_decipherChonkiness (hcost : Pricing cost) (h : Fits m .decipherChonkiness c) :
    Owns cost c.blocks.all (httpClientWorktaskDecipherChonkiness c) (Keeps m) := by
  refine owns_readRecvBuf h ?_
  simp only
  split
  · exact owns_receive hcost h rfl (fun d hd => owns_error hd rfl)
      fun d hd => owns_goto hd rfl rfl
  · refine .bind (.lift (Q := fun _ R => R = _) fun _ _ => rfl) ?_
    rintro size R rfl
    split
    · exact owns_error h rfl
    · split
      · exact owns_trailers hcost (h.drop _)
      · exact owns_goto ((h.drop _).change rfl id rfl rfl nofun nofun) rfl rfl

/-- The line end of a chunk is read with the blocks kept. -/
theorem owns_chunkEnd (hcost : Pricing cost) (h : Fits m .readingBodyChunked c) :
    Owns cost c.blocks.all (httpClientChunkEnd c) (Keeps m) := by
  rw [httpClientChunkEnd]
  split
  · exact owns_receive hcost h rfl (fun d hd => owns_error hd rfl)
      fun d hd => owns_goto hd rfl rfl
  · refine owns_readRecvBuf h ?_
    split
    · exact owns_goto ((h.drop 2).later nofun nofun) rfl rfl
    · exact owns_error h rfl

/-- A chunk is read with the blocks kept, unless `realloc` ends that of the body. -/
theorem owns_readBodyChunked (hcost : Pricing cost) (h : Fits m .readingBodyChunked c)
    (hs : c.content.state = .readingBodyChunked)
    (hbody : ¬ EndsBody c.content c.blocks.decodedBody) :
    Owns cost c.blocks.all (httpClientWorktaskReadBodyChunked c) (Keeps m) := by
  rw [httpClientWorktaskReadBodyChunked]
  split
  · exact owns_receive hcost h rfl (fun d hd => owns_error hd rfl)
      fun d hd => owns_goto hd rfl rfl
  · rename_i hcomplete
    have hkept : decodedSize c.content = 0 → c.blocks.decodedBody = none := by
      intro hzero
      by_contra hne
      exact hbody ⟨hs, not_lt.mp hcomplete, hzero, hne⟩
    refine (Owns.reallocTo (hcost.other _ (by simp) (by simp)) hkept (fun addr => ?_) ?_).congr
      c.blocks.all_decodedBody
    · simp only
      split
      · exact .fail
      · have hgrown : Fits m .readingBodyChunked {
            content := { c.content with
              decodedBody := some (c.content.decodedBody.getD [] ++
                c.content.recvBuf.take c.content.chunkRemaining)
              recvBuf := c.content.recvBuf.drop c.content.chunkRemaining
              chunkRemaining := 0 }
            blocks := { c.blocks with decodedBody := some addr } } :=
          ⟨h.url, h.req, h.resp, (h.drop _).recvBuf, fun _ => Option.some_ne_none addr, nofun,
            nofun, h.receiver⟩
        have hend := owns_chunkEnd hcost hgrown
        have hblocks : addr ::ₘ { c.blocks with decodedBody := none }.all =
            { c.blocks with decodedBody := some addr }.all := by
          rw [← Multiset.singleton_add, ← blockOf_some]
          exact (ClientBlocks.all_decodedBody { c.blocks with decodedBody := some addr }).symm
        rw [hblocks]
        exact owns_readRecvBuf_of_mem h
          (fun _ => ClientBlocks.mem_all_recvBuf { c.blocks with decodedBody := some addr }) hend
    · exact owns_error h c.blocks.all_decodedBody.symm

/-- A body of a declared length is read with the blocks kept. -/
theorem owns_readBody (hcost : Pricing cost) (h : Fits m .readingBody c) :
    Owns cost c.blocks.all (httpClientWorktaskReadBody c) (Keeps m) := by
  have hdone : ∀ d : HTTPClient, Fits m .readingBody d → Owns cost d.blocks.all
      (goto .returning { d with content := { d.content with retries := 0 } }) (Keeps m) :=
    fun d hd => owns_goto (hd.change rfl id rfl rfl nofun nofun) rfl rfl
  refine owns_receive hcost h rfl (fun d hd => ?_) fun d hd => ?_
  · split
    · exact owns_error hd rfl
    · exact hdone d hd
  · split
    · exact owns_goto hd rfl rfl
    · exact hdone d hd

/-- What is delivered is read where its block is there. -/
theorem owns_readSource {P : Multiset Block} {f : Unit → Allocated β} (h : Fits m s c)
    (hrecv : ∀ b ∈ blockOf c.blocks.recvBuf, b ∈ P)
    (hdecoded : ∀ b ∈ blockOf c.blocks.decodedBody, b ∈ P) (hf : Owns cost P (f ()) S) :
    Owns cost P (readSource c >>= f) S := by
  have hbuf : Owns cost P (readRecvBuf c >>= f) S := owns_readRecvBuf_of_mem h hrecv hf
  rw [readSource]
  split
  · rename_i body heq
    split
    · obtain ⟨b, hb⟩ := Option.ne_none_iff_exists'.mp (h.decodedBody (by simp [heq]))
      exact .deref ⟨b, hdecoded b (by simp [hb]), hb⟩ hf
    · exact hbuf
  · exact hbuf

/-- **The delivery.** The old output of a blocking call is freed, and the new one is its own. -/
theorem owns_returning (hcost : Pricing cost) (h : Fits m .returning c) :
    Owns cost c.blocks.all (httpClientWorktaskReturning c) (Keeps m) := by
  rw [httpClientWorktaskReturning]
  simp only
  split
  · rename_i hmode
    have htrue : m = true := h.receiver.mode.symm.trans hmode
    split
    · exact owns_error h rfl
    · refine (Owns.freeOpt (.malloc_free (hcost.other _ (by simp) (by simp)) (fun buf => ?_)
        ?_)).congr c.blocks.all_output
      · have hblocks : buf ::ₘ { c.blocks with output := none }.all =
            { c.blocks with output := some buf }.all := by
          rw [← Multiset.singleton_add, ← blockOf_some]
          exact (ClientBlocks.all_output { c.blocks with output := some buf }).symm
        have hdelivered : Fits m .disposing {
            content := { c.content with
              blockingOut := some ⟨some (deliverySource c.content ++ [0]),
                (deliverySource c.content).length⟩ }
            blocks := { c.blocks with output := some buf } } :=
          ⟨h.url, h.req, h.resp, h.recvBuf, h.decodedBody, nofun, nofun,
            h.receiver.mode, rfl, h.receiver.handed, h.receiver.undelivered,
            fun hm => absurd (htrue.symm.trans hm) nofun⟩
        rw [hblocks]
        exact owns_readSource h
          (fun _ => ClientBlocks.mem_all_recvBuf { c.blocks with output := some buf })
          (fun _ => ClientBlocks.mem_all_decodedBody { c.blocks with output := some buf })
          (owns_goto hdelivered rfl rfl)
      · have hemptied : Fits m .error
            ⟨{ c.content with blockingOut := some {} }, { c.blocks with output := none }⟩ :=
          ⟨h.url, h.req, h.resp, h.recvBuf, h.decodedBody, nofun, nofun,
            h.receiver.mode, rfl, h.receiver.handed, h.receiver.undelivered,
            fun hm => absurd (htrue.symm.trans hm) nofun⟩
        exact owns_goto hemptied rfl rfl
  · rename_i hmode
    split
    · refine .malloc_free (hcost.other _ (by simp) (by simp)) (fun buf => ?_) (owns_error h rfl)
      have hhanded : (c.blocks.delivered ++ [buf]).length =
          (c.content.responses ++ [deliverySource c.content ++ [0]]).length := by
        rw [List.length_append, List.length_append, h.receiver.handed]
        rfl
      have hdelivered : Fits m .disposing {
          content := { c.content with
            responses := c.content.responses ++ [deliverySource c.content ++ [0]] }
          blocks := { c.blocks with delivered := c.blocks.delivered ++ [buf] } } :=
        ⟨h.url, h.req, h.resp, h.recvBuf, h.decodedBody, nofun, nofun,
          h.receiver.mode, h.receiver.filled, hhanded,
          fun hm => absurd (h.receiver.mode.trans hm) hmode, h.receiver.unfilled⟩
      exact owns_readSource h (fun _ hb => Multiset.mem_cons_of_mem (c.blocks.mem_all_recvBuf hb))
        (fun _ hb => Multiset.mem_cons_of_mem (c.blocks.mem_all_decodedBody hb))
        (owns_goto hdelivered rfl (c.blocks.all_deliver buf).symm)
    · exact owns_error h rfl

/-- **A worker keeps exactly the blocks of the client**, and follows no bad pointer, whatever
the heap refuses, unless it ends the block of the decoded body. -/
theorem owns_work (hcost : Pricing cost) (h : Fits m c.content.state c)
    (hs : requesting c.content.state = false)
    (hbody : ¬ EndsBody c.content c.blocks.decodedBody) :
    Owns cost c.blocks.all (httpClientWork c) (Keeps m) := by
  rw [httpClientWork]
  split
  · rename_i heq
    have hc : Fits m .readingFirstline c := heq ▸ h
    exact owns_receive hcost hc rfl (fun d hd => owns_error hd rfl)
      fun d hd => owns_firstline hcost hd
  · rename_i heq
    exact owns_readHeaders hcost (heq ▸ h)
  · rename_i heq
    exact owns_decipherChonkiness hcost (heq ▸ h)
  · rename_i heq
    exact owns_readBodyChunked hcost (heq ▸ h) heq hbody
  · rename_i heq
    exact owns_readBody hcost (heq ▸ h)
  · rename_i heq
    exact owns_returning hcost (heq ▸ h)
  · exact owns_goto h hs rfl

/-- **The block of the decoded body is ended** and the client fails, with the pointer to it. -/
theorem work_endsBody {x : Block} {h : Heap Kind} (hbody : EndsBody c.content (some x))
    (hx : c.blocks.decodedBody = some x) (hlive : x ∈ h.live) :
    httpClientWork c h = .ok ((.error, c), h.release x) := by
  obtain ⟨hs, hcomplete, hzero, -⟩ := hbody
  rw [httpClientWork, hs]
  simp only [httpClientWorktaskReadBodyChunked]
  rw [if_neg (not_lt.mpr hcomplete), hx, hzero, reallocTo, if_neg (Nat.not_lt_zero _), if_pos rfl]
  simp only [bind_assoc, pure_bind]
  rw [bind_ok (if_pos hlive)]
  rfl

end Workers

/-! ### Heaps that refuse nothing -/

/-- A chunk that is taken for complete fits a block, with the body before it and a NUL. -/
def ChunkFits (c : MaestroCore.HTTPClient) : Prop :=
  c.state = .readingBodyChunked → toLong c.chunkRemaining ≤ c.recvBuf.length →
    (c.decodedBody.getD []).length + c.chunkRemaining + 1 ≤ ptrdiffMax

instance (c : MaestroCore.HTTPClient) : Decidable (ChunkFits c) :=
  inferInstanceAs (Decidable (_ → _ → _))

/-- A chunk that fits a block does not end the block. -/
theorem ChunkFits.not_endsBody {c : MaestroCore.HTTPClient} {o : Option Block}
    (h : ChunkFits c) : ¬ EndsBody c o := by
  rintro ⟨hs, hcomplete, hzero, -⟩
  have hsum := h hs hcomplete
  rw [decodedSize, Nat.mod_eq_of_lt (by rw [ptrdiffMax] at hsum; omega)] at hzero
  omega

/-- A worker has done what the one without a heap does. -/
def Same (p : HTTPClientState × HTTPClient) (q : HTTPClientState × MaestroCore.HTTPClient) :
    Prop := p.1 = q.1 ∧ p.2.content = q.2

section Refines

variable {β γ : Type} {T : β → γ → Prop} {r : Except Fault γ} {s : HTTPClientState}
  {c : HTTPClient}

/-- A change of the state is the one without a heap. -/
theorem refines_goto : Refines (goto s c) (MaestroCore.goto s c.content) Same := .pure ⟨rfl, rfl⟩

/-- A look at `recv_buf` changes nothing. -/
theorem refines_readRecvBuf {f : Unit → Allocated β} (hf : Refines (f ()) r T) :
    Refines (readRecvBuf c >>= f) r T := by
  rw [readRecvBuf]
  split
  · exact hf
  · exact .deref hf

/-- A read is the one without a heap when what comes after it is. -/
theorem refines_receive {len : ℕ} {onClosed onBytes : HTTPClient → Worked}
    {onClosed' onBytes' : MaestroCore.HTTPClient → MaestroCore.Worked}
    (hclosed : ∀ d, Refines (onClosed d) (onClosed' d.content) Same)
    (hbytes : ∀ d, Refines (onBytes d) (onBytes' d.content) Same) :
    Refines (receive c len s onClosed onBytes)
      (MaestroCore.receive c.content len s onClosed' onBytes') Same := by
  rw [receive, MaestroCore.receive]
  obtain ⟨res, t⟩ := transportRead c.content.transport len
  cases res with
  | failed e => exact refines_goto
  | zero => exact hclosed _
  | bytes b => exact .realloc fun addr => hbytes _

/-- The status line is read as without a heap. -/
theorem refines_firstline :
    Refines (httpClientFirstline c) (MaestroCore.httpClientFirstline c.content) Same := by
  rw [httpClientFirstline, MaestroCore.httpClientFirstline]
  refine refines_readRecvBuf ?_
  split
  · exact refines_goto
  · simp only
    split
    · split
      · exact refines_goto
      · exact refines_goto
    · split
      · exact refines_goto
      · refine .deref (.bind (refines_responseFirstline _ _ _) ?_)
        rintro ⟨code, resp, strings⟩ ⟨code', resp'⟩ ⟨rfl, rfl⟩
        simp only
        split
        · exact .pure ⟨rfl, rfl⟩
        · exact .pure ⟨rfl, rfl⟩

/-- A walk along the headers changes nothing. -/
theorem refines_readHeaderItems {f : Unit → Allocated β} (items : List HeaderItem)
    (hf : Refines (f ()) r T) : Refines (readHeaderItems items >>= f) r T := by
  induction items with
  | nil => exact hf
  | cons x items ih =>
      simp only [readHeaderItems, bind_assoc]
      exact .use (.use (.use (.use ih)))

/-- The end of the header block is the one without a heap. -/
theorem refines_headersComplete (n : ℕ) :
    Refines (httpClientHeadersComplete c n) (MaestroCore.httpClientHeadersComplete c.content n)
      Same := by
  refine refines_readRecvBuf (.deref (.bind (refines_headers _) ?_))
  rintro ⟨code, headers⟩ (code' | headers') hsame
  · obtain ⟨rfl, hcode, rfl⟩ := hsame
    split
    · rename_i heq
      cases heq
    · exact .pure ⟨rfl, rfl⟩
  · obtain ⟨rfl, hheaders⟩ := hsame
    obtain ⟨l, rfl, rfl⟩ := Option.map_eq_some_iff.mp hheaders
    refine .use (refines_readHeaderItems _ ?_)
    simp only
    split
    · exact .pure ⟨rfl, rfl⟩
    · cases httpParserGetHeaderValue l.headers (ascii "Content-Length") with
      | error e => exact .pure ⟨rfl, rfl⟩
      | ok value =>
          refine .bind .lift ?_
          rintro cl _ rfl
          split
          · split
            · exact .pure ⟨rfl, rfl⟩
            · exact .pure ⟨rfl, rfl⟩
          · exact .pure ⟨rfl, rfl⟩

/-- The headers are read as without a heap. -/
theorem refines_readHeaders :
    Refines (httpClientWorktaskReadHeaders c)
      (MaestroCore.httpClientWorktaskReadHeaders c.content) Same := by
  rw [MaestroCore.httpClientWorktaskReadHeaders]
  refine refines_readRecvBuf ?_
  simp only
  split
  · exact refines_headersComplete _
  · refine refines_receive (fun d => ?_) fun d => refines_goto
    split
    · exact refines_headersComplete _
    · exact refines_goto

/-- What comes after the last size line is read as without a heap. -/
theorem refines_trailers :
    Refines (httpClientTrailers c) (MaestroCore.httpClientTrailers c.content) Same := by
  rw [MaestroCore.httpClientTrailers]
  refine refines_readRecvBuf ?_
  split
  · exact .pure ⟨rfl, rfl⟩
  · simp only
    split
    · exact .pure ⟨rfl, rfl⟩
    · exact refines_receive (fun d => refines_goto) fun d => refines_goto

/-- A size line is read as without a heap. -/
theorem refines_decipherChonkiness :
    Refines (httpClientWorktaskDecipherChonkiness c)
      (MaestroCore.httpClientWorktaskDecipherChonkiness c.content) Same := by
  rw [MaestroCore.httpClientWorktaskDecipherChonkiness]
  refine refines_readRecvBuf ?_
  simp only
  split
  · exact refines_receive (fun d => refines_goto) fun d => refines_goto
  · refine .bind .lift ?_
    rintro size _ rfl
    cases size with
    | none => exact refines_goto
    | some size =>
        simp only
        split
        · exact refines_trailers
        · exact .pure ⟨rfl, rfl⟩

/-- The line end of a chunk is read as without a heap. -/
theorem refines_chunkEnd :
    Refines (httpClientChunkEnd c) (MaestroCore.httpClientChunkEnd c.content) Same := by
  rw [httpClientChunkEnd, MaestroCore.httpClientChunkEnd]
  split
  · exact refines_receive (fun d => refines_goto) fun d => refines_goto
  · refine refines_readRecvBuf ?_
    split
    · exact .pure ⟨rfl, rfl⟩
    · exact refines_goto

/-- A chunk that fits a block is read as without a heap. -/
theorem refines_readBodyChunked (hs : c.content.state = .readingBodyChunked)
    (hfits : ChunkFits c.content) :
    Refines (httpClientWorktaskReadBodyChunked c)
      (MaestroCore.httpClientWorktaskReadBodyChunked c.content) Same := by
  rw [httpClientWorktaskReadBodyChunked, MaestroCore.httpClientWorktaskReadBodyChunked]
  split
  · exact refines_receive (fun d => refines_goto) fun d => refines_goto
  · rename_i hcomplete
    have hsum := hfits hs (not_lt.mp hcomplete)
    have hsize : decodedSize c.content =
        (c.content.decodedBody.getD []).length + c.content.chunkRemaining + 1 :=
      Nat.mod_eq_of_lt (by rw [ptrdiffMax] at hsum; omega)
    refine .reallocTo (by omega) (by omega) fun addr => ?_
    simp only
    split
    · exact .fail
    · exact refines_readRecvBuf refines_chunkEnd

/-- A body of a declared length is read as without a heap. -/
theorem refines_readBody :
    Refines (httpClientWorktaskReadBody c) (MaestroCore.httpClientWorktaskReadBody c.content)
      Same := by
  refine refines_receive (fun d => ?_) fun d => ?_
  · split
    · exact refines_goto
    · exact .pure ⟨rfl, rfl⟩
  · split
    · exact refines_goto
    · exact .pure ⟨rfl, rfl⟩

/-- A look at what is delivered changes nothing. -/
theorem refines_readSource {f : Unit → Allocated β} (hf : Refines (f ()) r T) :
    Refines (readSource c >>= f) r T := by
  rw [readSource]
  split
  · split
    · exact .deref hf
    · exact refines_readRecvBuf hf
  · exact refines_readRecvBuf hf

/-- The delivery is the one without a heap. -/
theorem refines_returning :
    Refines (httpClientWorktaskReturning c) (MaestroCore.httpClientWorktaskReturning c.content)
      Same := by
  rw [httpClientWorktaskReturning, MaestroCore.httpClientWorktaskReturning]
  simp only
  split
  · cases c.content.blockingOut with
    | none => exact refines_goto
    | some out => exact .freeOpt (.malloc fun buf => refines_readSource (.pure ⟨rfl, rfl⟩))
  · split
    · exact .malloc fun buf => refines_readSource (.pure ⟨rfl, rfl⟩)
    · exact refines_goto

/-- **The workers on a heap that refuses nothing** are those without a heap, as long as the
chunks fit. -/
theorem refines_work (hfits : ChunkFits c.content) :
    Refines (httpClientWork c) (MaestroCore.httpClientWork c.content) Same := by
  rw [httpClientWork, MaestroCore.httpClientWork]
  cases hs : c.content.state with
  | readingFirstline =>
      exact refines_receive (fun d => refines_goto) fun d => refines_firstline
  | readingHeaders => exact refines_readHeaders
  | decipherChonkiness => exact refines_decipherChonkiness
  | readingBodyChunked => exact refines_readBodyChunked hs hfits
  | readingBody => exact refines_readBody
  | returning => exact refines_returning
  | _ => exact refines_goto

end Refines

end MaestroCore.Allocating
