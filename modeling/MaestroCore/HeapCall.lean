import MaestroCore.BlockingOutput
import MaestroCore.HeapClient

/-!
# Blocking Calls and the Heap

The rest of `http_client.c` with the memory that it asks for: the workers of the request, the
end of a client, and `http_blocking_work` around them. A blocking call frees what it has
allocated on every path, and what it leaves behind is the buffer that it hands to its caller.

## Main results

* `blocking_no_leak`: whatever the heap refuses, a blocking call follows no bad pointer and
  frees no block twice exactly when it never lets `realloc` end the block of its decoded body;
  when it has returned, the heap is as it was, up to the output and to three blocks for each
  list node that was refused.
* `blocking_agrees`: on a heap that refuses nothing, and with chunks that fit a block, the call
  is the one of the plain model.
* `wrapped_size_freed_twice`: a response that makes a call free a block twice.
-/

open CLang Ownership Run

namespace MaestroCore.Allocating

/-- The whole client with its blocks. -/
abbrev Exchange := Held MaestroCore.Exchange

/-! ### The request -/

/-- `http_client_worktask_connecting`. -/
def httpClientWorktaskConnecting (e : Exchange) : Allocated (HTTPClientState × Exchange) := do
  deref e.blocks.url
  let (s, d) := MaestroCore.httpClientWorktaskConnecting e.content
  pure (s, { e with content := d })

/-- `http_client_worktask_waiting_connect`. -/
def httpClientWorktaskWaitingConnect (e : Exchange) :
    Allocated (HTTPClientState × Exchange) :=
  let (s, d) := MaestroCore.httpClientWorktaskWaitingConnect e.content
  pure (s, { e with content := d })

/-- `http_client_worktask_build_request`. -/
def httpClientWorktaskBuildRequest (e : Exchange) : Allocated (HTTPClientState × Exchange) := do
  let host := e.content.urlParts.host.bytes
  let maxLen := requestMaxLen e.content.path host e.content.bodyLen
  let text := requestText e.content.method e.content.path host e.content.bodyLen
  deref e.blocks.req
  match ← malloc .requestBuffer with
  | none =>
      pure (.error,
        ⟨{ e.content with requestBuffer := none }, { e.blocks with requestBuffer := none }⟩)
  | some buf =>
      if snprintfLen text < 0 then do
        free buf
        pure (.error,
          ⟨{ e.content with requestBuffer := none }, { e.blocks with requestBuffer := none }⟩)
      else if maxLen < text.length + e.content.bodyLen then do
        free buf
        pure (.error,
          ⟨{ e.content with requestBuffer := none }, { e.blocks with requestBuffer := none }⟩)
      else do
        if 0 < e.content.bodyLen then deref e.blocks.reqBody
        pure (.sendingRequest,
          ⟨{ e.content with
              requestBuffer := some
                (snprintf maxLen text ++ (e.content.reqBody.getD []).take e.content.bodyLen)
              requestLength := toInt (text.length + e.content.bodyLen)
              bytesSent := 0 },
            { e.blocks with requestBuffer := some buf }⟩)

/-- `http_client_worktask_send_request`. -/
def httpClientWorktaskSendRequest (e : Exchange) : Allocated (HTTPClientState × Exchange) := do
  deref e.blocks.requestBuffer
  let (s, d) ← lift (MaestroCore.httpClientWorktaskSendRequest e.content)
  pure (s, { e with content := d })

/-- A reading worker, called on the whole client. -/
def readWork (e : Exchange) : Allocated (HTTPClientState × Exchange) := do
  let (s, c) ← httpClientWork ⟨e.content.toHTTPClient, e.blocks⟩
  pure (s, ⟨{ e.content with toHTTPClient := c.content }, c.blocks⟩)

/-- The worker of a state. -/
def exchangeWork (e : Exchange) : Allocated (HTTPClientState × Exchange) :=
  match e.content.state with
  | .connecting => httpClientWorktaskConnecting e
  | .waitingConnect => httpClientWorktaskWaitingConnect e
  | .buildingRequest => httpClientWorktaskBuildRequest e
  | .sendingRequest => httpClientWorktaskSendRequest e
  | _ => readWork e

/-- `c->state = worker(c)`. -/
def exchangeStep (e : Exchange) : Allocated Exchange := do
  let (s, e) ← exchangeWork e
  pure { e with content := { e.content with state := s } }

/-! ### The end of a client -/

/-- `http_parser_dispose` of the request. The other strings of the request are never set. -/
def httpParserDisposeRequest (b : ClientBlocks) : Allocated Unit :=
  match b.req with
  | none => pure ()
  | some req => do
      use req
      freeOpt b.reqBody
      httpParserDisposeLinkedList b.headers

/-- `http_parser_dispose`. -/
def httpParserDispose (b : ClientBlocks) : Allocated Unit := do
  httpParserDisposeRequest b
  match b.resp with
  | none => pure ()
  | some resp => do
      use resp
      let _ ← httpParserDisposeResponse b.strings

/-- `http_client_dispose`, without the slot of the scheduler that it frees. What the caller or
the callback has received is not the client's any more. -/
def httpClientDispose (e : Exchange) : Allocated Exchange := do
  let b := e.blocks
  freeOpt b.url
  httpParserDispose b
  freeOpt b.req
  freeOpt b.resp
  freeOpt b.requestBuffer
  freeOpt b.decodedBody
  freeOpt b.recvBuf
  pure ⟨MaestroCore.httpClientDispose e.content,
    { output := b.output, delivered := b.delivered }⟩

/-! ### The blocking driver -/

/-- A blocking call with its blocks. `client` is the block of its `HTTP_Client`. -/
structure BlockingCall where
  call : MaestroCore.BlockingCall
  blocks : ClientBlocks := {}
  client : Option Block := none

/-- The call destroys its client and returns. -/
def BlockingCall.return (b : BlockingCall) (e : MaestroCore.Exchange) (code : ErrorCode) :
    Allocated BlockingCall := do
  deref b.client
  let e ← httpClientDispose ⟨e, b.blocks⟩
  freeOpt b.client
  pure ⟨{ b.call with exchange := e.content, result := some code }, e.blocks, none⟩

/-- The part of `http_blocking_work` that copies the body, before its loop starts with the call
`started`. -/
def copyBody (b : BlockingCall) (input : Option HTTPInput) (started : MaestroCore.BlockingCall) :
    Allocated BlockingCall :=
  match input with
  | some ⟨some _, size, _⟩ =>
      if 0 < size then do
        deref b.blocks.req
        match ← malloc .body with
        | none => b.return b.call.exchange .noMemory
        | some body =>
            pure { b with call := started, blocks := { b.blocks with reqBody := some body } }
      else pure { b with call := started }
  | _ => pure { b with call := started }

/-- `http_blocking_work`, up to its loop. -/
def httpBlockingWork (url : Bytes) (method : HTTPMethod) (input : Option HTTPInput)
    (out : Option HTTPData) (timeoutMs : ℤ) (env : Environment) : Allocated BlockingCall := do
  let e := blockingClient url method out env
  let call : MaestroCore.BlockingCall := { exchange := e, timeoutMs := timeoutMs, start := 0 }
  match ← malloc .client with
  | none => pure { call := { call with result := some .noMemory } }
  | some client => do
      let urlCopy ← malloc .url
      let req ← malloc .request
      let resp ← malloc .response
      let b : BlockingCall :=
        ⟨call, { url := urlCopy, req := req, resp := resp }, some client⟩
      if urlCopy = none ∨ req = none ∨ resp = none then b.return e .noMemory
      else copyBody b input (MaestroCore.httpBlockingWork url method input out timeoutMs env)

/-- A call that returns `ERR_INVALID_ARG` before it does anything. -/
def refused (out : Option HTTPData) (timeoutMs : ℤ) (env : Environment) :
    Allocated BlockingCall :=
  pure { call := MaestroCore.refused out timeoutMs env }

/-- `http_blocking_get`. -/
def httpBlockingGet (url : Option Bytes) (out : Option HTTPData) (timeoutMs : ℤ)
    (env : Environment) : Allocated BlockingCall :=
  match url, out with
  | some url, some _ => httpBlockingWork url .get none (some {}) timeoutMs env
  | _, _ => refused out timeoutMs env

/-- `http_blocking_post`. -/
def httpBlockingPost (url : Option Bytes) (input : Option HTTPInput) (out : Option HTTPData)
    (timeoutMs : ℤ) (env : Environment) : Allocated BlockingCall :=
  match url, input with
  | some url, some input =>
      if input.size < 0 then refused out timeoutMs env
      else httpBlockingWork url .post (some input) (out.map fun _ => {}) timeoutMs env
  | _, _ => refused out timeoutMs env

/-- The call of a request. -/
def call (r : BlockingRequest) (out : Option HTTPData) (timeoutMs : ℤ) (env : Environment) :
    Allocated BlockingCall :=
  match r with
  | .get url => httpBlockingGet url out timeoutMs env
  | .post url input => httpBlockingPost url input out timeoutMs env

/-- One iteration of the loop of `http_blocking_work`. -/
def httpBlockingStep (b : BlockingCall) : Allocated BlockingCall :=
  if b.call.result ≠ none then pure b
  else
    let now := b.call.exchange.clock 0
    let e := b.call.exchange.ticked
    if timedOut b.call.timeoutMs b.call.start now then b.return e .timeout
    else if blockingWorks e.state then do
      deref b.client
      let e ← exchangeStep ⟨e, b.blocks⟩
      pure ⟨{ b.call with exchange := e.content }, e.blocks, b.client⟩
    else if e.state = .disposing then b.return e .success
    else b.return e .io

/-! ### What a worker may rely on -/

/-- The states before the request has been built. -/
def beforeRequest : HTTPClientState → Bool
  | .connecting | .waitingConnect | .buildingRequest => true
  | _ => false

/-- A state before the request is reached from such a state only. -/
theorem beforeRequest_of_leadsTo {s s' : HTTPClientState} (hs : requesting s = true)
    (h : s.leadsTo s' = true) (hnext : beforeRequest s' = true) : beforeRequest s = true := by
  cases s with
  | connecting | waitingConnect | buildingRequest => rfl
  | sendingRequest => cases s' <;> simp_all [HTTPClientState.leadsTo, beforeRequest]
  | _ => cases hs

/-- The request is sent once it has been built, and until it has been sent. -/
theorem sendingRequest_of_leadsTo {s : HTTPClientState} (h : s.leadsTo .sendingRequest = true)
    (hbuild : s ≠ .buildingRequest) : s = .sendingRequest := by
  cases s with
  | sendingRequest => rfl
  | buildingRequest => exact absurd rfl hbuild
  | _ => cases h

/-- The request comes before the status line. -/
theorem beforeStrings_of_requesting {s : HTTPClientState} (h : requesting s = true) :
    beforeStrings s = true := by
  cases s with
  | connecting | waitingConnect | buildingRequest | sendingRequest => rfl
  | _ => cases h

/-- The pointers of a whole client in the given state. -/
structure FitsWhole (m : Bool) (s : HTTPClientState) (e : Exchange) : Prop where
  reader : Fits m s ⟨e.content.toHTTPClient, e.blocks⟩
  reqBody : beforeRequest s = true → e.content.reqBody ≠ none → e.blocks.reqBody ≠ none
  unbuilt : beforeRequest s = true → e.blocks.requestBuffer = none
  built : s = .sendingRequest → e.blocks.requestBuffer ≠ none

/-- A worker has kept the blocks of the whole client. -/
def KeepsWhole (m : Bool) (p : HTTPClientState × Exchange) (R : Multiset Block) : Prop :=
  R = p.2.blocks.all ∧ FitsWhole m p.1 p.2

section Workers

variable {cost : Kind → ℕ} {β : Type} {S : β → Multiset Block → Prop} {m : Bool}
  {s s' : HTTPClientState} {e : Exchange}

/-- The workers of the request leave the buffers of the response alone. -/
theorem request_buffers {e : MaestroCore.Exchange} {r : HTTPClientState × MaestroCore.Exchange}
    (hs : requesting e.state = true) (h : MaestroCore.exchangeWork e = .ok r) :
    r.2.recvBuf = e.recvBuf ∧ r.2.decodedBody = e.decodedBody := by
  rw [MaestroCore.exchangeWork] at h
  cases hcase : e.state with
  | connecting =>
      rw [hcase] at h
      obtain rfl := Except.ok.inj h
      obtain ⟨_, _, heq⟩ | ⟨_, _, _, heq, _⟩ := connecting_cases e <;> rw [heq] <;> exact ⟨rfl, rfl⟩
  | waitingConnect =>
      rw [hcase] at h
      obtain rfl := Except.ok.inj h
      rw [MaestroCore.httpClientWorktaskWaitingConnect]
      simp only
      split
      · exact ⟨rfl, rfl⟩
      · split <;> exact ⟨rfl, rfl⟩
  | buildingRequest =>
      rw [hcase] at h
      obtain rfl := Except.ok.inj h
      rw [MaestroCore.httpClientWorktaskBuildRequest]
      split
      · exact ⟨rfl, rfl⟩
      · split <;> exact ⟨rfl, rfl⟩
  | sendingRequest =>
      rw [hcase] at h
      simp only [MaestroCore.httpClientWorktaskSendRequest] at h
      split at h
      · cases h
      · obtain rfl := Except.ok.inj h
        rw [httpClientWritten.eq_def]
        split
        · exact ⟨rfl, rfl⟩
        · simp only
          split <;> exact ⟨rfl, rfl⟩
        · split
          · exact ⟨rfl, rfl⟩
          · split <;> exact ⟨rfl, rfl⟩
  | _ => simp [hcase, requesting] at hs

/-- A worker of the request that allocates nothing. -/
theorem FitsWhole.request {d : MaestroCore.Exchange} (h : FitsWhole m e.content.state e)
    (hs : requesting e.content.state = true) (hbuild : e.content.state ≠ .buildingRequest)
    (hwork : MaestroCore.exchangeWork e.content = .ok (s, d)) :
    FitsWhole m s { e with content := d } := by
  obtain ⟨hgoes, hkept⟩ := exchangeWork_transition hwork
  obtain ⟨hrecv, hdecoded⟩ := request_buffers hs hwork
  have hreturning : e.content.state ≠ .returning := fun heq => by simp [heq, requesting] at hs
  have hstrings := beforeStrings_of_requesting hs
  refine ⟨h.reader.change rfl (fun hne => hrecv ▸ hne) hdecoded (hkept.receiver hreturning)
    (fun _ => hstrings) fun _ => beforeHeaders_of_beforeStrings hstrings,
    fun hnext hne => h.reqBody (beforeRequest_of_leadsTo hs hgoes hnext) (hkept.reqBody ▸ hne),
    fun hnext => h.unbuilt (beforeRequest_of_leadsTo hs hgoes hnext), fun hsend => h.built ?_⟩
  rw [hsend] at hgoes
  exact sendingRequest_of_leadsTo hgoes hbuild

/-- Connecting keeps the blocks. -/
theorem owns_connecting (h : FitsWhole m .connecting e) (hs : e.content.state = .connecting) :
    Owns cost e.blocks.all (httpClientWorktaskConnecting e) (KeepsWhole m) := by
  obtain ⟨⟨s, d⟩, hwork⟩ : ∃ r, MaestroCore.httpClientWorktaskConnecting e.content = r := ⟨_, rfl⟩
  have hfits : FitsWhole m s { e with content := d } := by
    refine FitsWhole.request (hs ▸ h) (by rw [hs]; rfl) (by simp [hs]) ?_
    rw [MaestroCore.exchangeWork, hs]
    exact congrArg Except.ok hwork
  refine .deref (mem_of_eq_blockOf e.blocks.all_url h.reader.url) ?_
  rw [hwork]
  exact .pure ⟨rfl, hfits⟩

/-- Waiting for the connect keeps the blocks. -/
theorem owns_waitingConnect (h : FitsWhole m .waitingConnect e)
    (hs : e.content.state = .waitingConnect) :
    Owns cost e.blocks.all (httpClientWorktaskWaitingConnect e) (KeepsWhole m) := by
  obtain ⟨⟨s, d⟩, hwork⟩ : ∃ r, MaestroCore.httpClientWorktaskWaitingConnect e.content = r :=
    ⟨_, rfl⟩
  have hfits : FitsWhole m s { e with content := d } := by
    refine FitsWhole.request (hs ▸ h) (by rw [hs]; rfl) (by simp [hs]) ?_
    rw [MaestroCore.exchangeWork, hs]
    exact congrArg Except.ok hwork
  rw [httpClientWorktaskWaitingConnect, hwork]
  exact .pure ⟨rfl, hfits⟩

/-- Sending the request keeps the blocks. -/
theorem owns_sendRequest (h : FitsWhole m .sendingRequest e)
    (hs : e.content.state = .sendingRequest) :
    Owns cost e.blocks.all (httpClientWorktaskSendRequest e) (KeepsWhole m) := by
  refine .deref (mem_of_eq_blockOf e.blocks.all_requestBuffer (h.built rfl)) ?_
  refine .bind (.lift (Q := fun r R => R = e.blocks.all ∧
    MaestroCore.httpClientWorktaskSendRequest e.content = .ok r) fun _ hr => ⟨rfl, hr⟩) ?_
  rintro ⟨s, d⟩ R ⟨rfl, hr⟩
  refine .pure ⟨rfl, ?_⟩
  have hfits : FitsWhole m e.content.state e := hs ▸ h
  refine hfits.request (by rw [hs]; rfl) (by simp [hs]) ?_
  rw [MaestroCore.exchangeWork, hs, hr]

/-- The client with its request, or without one after a failure. -/
theorem FitsWhole.build {o : Option Block} {requestBuffer : Option Bytes} {requestLength : ℤ}
    {bytesSent : ℕ} (h : FitsWhole m .buildingRequest e)
    (hs : s = .error ∨ s = .sendingRequest ∧ o ≠ none) :
    FitsWhole m s
      ⟨{ e.content with
          requestBuffer := requestBuffer
          requestLength := requestLength
          bytesSent := bytesSent },
        { e.blocks with requestBuffer := o }⟩ := by
  obtain ⟨⟨hurl, hreq, hresp, hrecv, hdecoded, hstrings, hheaders, hreceiver⟩, -, -, -⟩ := h
  refine ⟨⟨hurl, hreq, hresp, hrecv, hdecoded, fun _ => hstrings rfl, fun _ => hheaders rfl,
    hreceiver⟩, ?_, ?_, ?_⟩ <;> rcases hs with rfl | ⟨rfl, ho⟩
  · exact nofun
  · exact nofun
  · exact nofun
  · exact nofun
  · exact nofun
  · exact fun _ => ho

/-- Building the request adds the block of its buffer. -/
theorem owns_buildRequest (hcost : Pricing cost) (h : FitsWhole m .buildingRequest e) :
    Owns cost e.blocks.all (httpClientWorktaskBuildRequest e) (KeepsWhole m) := by
  have hnone : { e.blocks with requestBuffer := none } = e.blocks := by
    rw [← h.unbuilt rfl]
  have hfailed : Owns cost e.blocks.all (pure (.error,
      ⟨{ e.content with requestBuffer := none }, { e.blocks with requestBuffer := none }⟩) :
      Allocated (HTTPClientState × Exchange)) (KeepsWhole m) :=
    .pure ⟨by rw [hnone], h.build (Or.inl rfl)⟩
  refine .deref (mem_of_eq_blockOf e.blocks.all_req h.reader.req) ?_
  refine .malloc_free (hcost.other _ (by simp) (by simp)) (fun buf => ?_) hfailed
  simp only
  split
  · exact .free hfailed
  · split
    · exact .free hfailed
    · have hblocks : buf ::ₘ e.blocks.all = { e.blocks with requestBuffer := some buf }.all := by
        rw [ClientBlocks.all_requestBuffer { e.blocks with requestBuffer := some buf }, hnone,
          blockOf_some, Multiset.singleton_add]
      split
      · rename_i hbody
        have hne : e.content.reqBody ≠ none := by
          intro hnil
          simp [MaestroCore.Exchange.bodyLen, hnil] at hbody
        obtain ⟨b, hb, hsome⟩ := mem_of_eq_blockOf e.blocks.all_reqBody (h.reqBody rfl hne)
        refine .deref ⟨b, Multiset.mem_cons_of_mem hb, hsome⟩ ?_
        exact .pure ⟨hblocks, h.build (Or.inr ⟨rfl, Option.some_ne_none buf⟩)⟩
      · exact .pure ⟨hblocks, h.build (Or.inr ⟨rfl, Option.some_ne_none buf⟩)⟩

/-- The next step of the client ends the block of its decoded body. -/
def EndsBodyNext (e : Exchange) : Prop :=
  EndsBody e.content.toHTTPClient e.blocks.decodedBody

instance (e : Exchange) : Decidable (EndsBodyNext e) :=
  inferInstanceAs (Decidable (EndsBody _ _))

/-- A reading worker keeps the blocks, unless `realloc` ends that of the body. -/
theorem owns_readWork (hcost : Pricing cost) (h : FitsWhole m e.content.state e)
    (hs : requesting e.content.state = false) (hbody : ¬ EndsBodyNext e) :
    Owns cost e.blocks.all (readWork e) (KeepsWhole m) := by
  have hwork := owns_work hcost (c := ⟨e.content.toHTTPClient, e.blocks⟩) h.reader hs hbody
  refine hwork.bind ?_
  rintro ⟨s, c⟩ R ⟨rfl, hfits, hs⟩
  have hlate : beforeRequest s = true → False := by
    cases s <;> simp_all [requesting, beforeRequest]
  refine .pure ⟨rfl, hfits, fun hnext => (hlate hnext).elim, fun hnext => (hlate hnext).elim, ?_⟩
  rintro rfl
  cases hs

/-- **One step of the whole client** keeps its blocks. -/
theorem owns_exchangeStep (hcost : Pricing cost) (h : FitsWhole m e.content.state e)
    (hbody : ¬ EndsBodyNext e) :
    Owns cost e.blocks.all (exchangeStep e) fun d R =>
      R = d.blocks.all ∧ FitsWhole m d.content.state d := by
  have hwork : Owns cost e.blocks.all (exchangeWork e) (KeepsWhole m) := by
    rw [exchangeWork]
    split
    · rename_i hs
      exact owns_connecting (hs ▸ h) hs
    · rename_i hs
      exact owns_waitingConnect (hs ▸ h) hs
    · rename_i hs
      exact owns_buildRequest hcost (hs ▸ h)
    · rename_i hs
      exact owns_sendRequest (hs ▸ h) hs
    · refine owns_readWork hcost h ?_ hbody
      cases hs : e.content.state <;> first | rfl | contradiction
  refine hwork.bind ?_
  rintro ⟨s, d⟩ R ⟨rfl, hfits⟩
  exact .pure ⟨rfl, hfits.reader.change rfl id rfl rfl id id, hfits.reqBody, hfits.unbuilt,
    hfits.built⟩

/-- A step that ends the block of the decoded body leaves the client in
`HTTP_CLIENT_ERROR`. -/
theorem step_endsBody {x : Block} {h : Heap Kind} (hbody : EndsBodyNext e)
    (hx : e.blocks.decodedBody = some x) (hlive : x ∈ h.live) :
    exchangeStep e h =
      .ok ({ e with content := { e.content with state := .error } }, h.release x) := by
  have hwork : exchangeWork e h = .ok ((.error, e), h.release x) := by
    have hread := work_endsBody (c := ⟨e.content.toHTTPClient, e.blocks⟩)
      (hx ▸ hbody : EndsBody e.content.toHTTPClient (some x)) hx hlive
    rw [exchangeWork, hbody.1]
    simp only [readWork]
    rw [bind_ok hread]
    rfl
  rw [exchangeStep, bind_ok hwork]
  rfl

/-- What `http_client_dispose` relies on: the pointers inside of a structure that is missing are
null. -/
structure Disposable (b : ClientBlocks) : Prop where
  req : b.req = none → b.reqBody = none ∧ b.headers = none
  resp : b.resp = none → b.strings = {}

/-- `http_parser_dispose` ends the blocks of the request and of the response. -/
theorem disposal_parserDispose {J : Multiset Block → Allocated β → Prop} (hJ : Disposal J)
    {P : Multiset Block} {f : Unit → Allocated β} {b : ClientBlocks}
    (h : Disposable b) (hreq : ∀ x ∈ blockOf b.req, x ∈ P) (hresp : ∀ x ∈ blockOf b.resp, x ∈ P)
    (hf : J P (f ())) :
    J (blockOf b.reqBody + (listBlocks b.headers + (b.strings.blocks + P)))
      (httpParserDispose b >>= f) := by
  have hresponse : J (b.strings.blocks + P)
      ((match b.resp with
        | none => pure ()
        | some resp => do
            use resp
            let _ ← httpParserDisposeResponse b.strings) >>= f) := by
    cases heq : b.resp with
    | none =>
        have hnone : ResponseBlocks.blocks {} = 0 := rfl
        rw [h.resp heq, hnone, zero_add]
        exact hf
    | some resp =>
        simp only [bind_assoc, pure_bind]
        refine hJ.use (Multiset.mem_add.mpr (Or.inr (hresp resp ?_))) (disposal_response hJ _ hf)
        rw [heq]
        exact Multiset.mem_singleton_self resp
  simp only [httpParserDispose, bind_assoc]
  rw [httpParserDisposeRequest]
  cases heq : b.req with
  | none =>
      obtain ⟨hbody, hheaders⟩ := h.req heq
      rw [hbody, hheaders, blockOf_none, listBlocks, zero_add, zero_add]
      exact hresponse
  | some req =>
      simp only [bind_assoc]
      refine hJ.use ?_ (hJ.freeOpt (disposal_linkedList hJ _ hresponse))
      have hmem := hreq req (by rw [heq]; exact Multiset.mem_singleton_self req)
      simp [hmem]

/-- **A client is disposed of** with all its blocks, but for those that it has handed out. -/
theorem owns_dispose {P : Multiset Block} {f : Exchange → Allocated β} (h : Disposable e.blocks)
    (hf : Owns cost
      ({ output := e.blocks.output, delivered := e.blocks.delivered : ClientBlocks }.all + P)
      (f ⟨MaestroCore.httpClientDispose e.content,
        { output := e.blocks.output, delivered := e.blocks.delivered }⟩) S) :
    Owns cost (e.blocks.all + P) (httpClientDispose e >>= f) S := by
  obtain ⟨d, b⟩ := e
  have hblocks : b.all + P = blockOf b.url + (blockOf b.reqBody + (listBlocks b.headers +
      (b.strings.blocks + (blockOf b.req + (blockOf b.resp + (blockOf b.requestBuffer +
        (blockOf b.decodedBody + (blockOf b.recvBuf +
          ({ output := b.output, delivered := b.delivered : ClientBlocks }.all + P))))))))) := by
    have hnone : ResponseBlocks.blocks {} = 0 := rfl
    simp only [ClientBlocks.all, blockOf_none, listBlocks, hnone]
    abel
  simp only [httpClientDispose, bind_assoc, pure_bind]
  refine (Owns.freeOpt (disposal_parserDispose Owns.disposal h (fun x hx => ?_) (fun x hx => ?_)
    (.freeOpt (.freeOpt (.freeOpt (.freeOpt (.freeOpt hf))))))).congr hblocks
  · simp [hx]
  · simp [hx]

/-- **A client whose decoded body is gone** frees it a second time when it is disposed of. -/
theorem misses_dispose {P : Multiset Block} {f : Exchange → Allocated β} {x : Block}
    (h : Disposable e.blocks) (hx : e.blocks.decodedBody = some x) :
    Misses x ({ e.blocks with decodedBody := none }.all + P) (httpClientDispose e >>= f) := by
  obtain ⟨d, b⟩ := e
  simp only at h hx
  have hblocks : { b with decodedBody := none }.all + P = blockOf b.url + (blockOf b.reqBody +
      (listBlocks b.headers + (b.strings.blocks + (blockOf b.req + (blockOf b.resp +
        (blockOf b.requestBuffer + (blockOf b.recvBuf + blockOf b.output +
          (b.delivered : Multiset Block) + P))))))) := by
    simp only [ClientBlocks.all, blockOf_none]
    abel
  have hJ : Disposal fun Q (m : Allocated β) => Misses x Q m := Misses.disposal x
  rw [hblocks]
  simp only [httpClientDispose, bind_assoc, pure_bind, hx]
  refine hJ.freeOpt (disposal_parserDispose hJ h (fun y hy => ?_) (fun y hy => ?_)
    (hJ.freeOpt (hJ.freeOpt (hJ.freeOpt .here))))
  · simp [hy]
  · simp [hy]

/-- The pointers do not depend on the clock. -/
theorem FitsWhole.ticked {e : MaestroCore.Exchange} {b : ClientBlocks}
    (h : FitsWhole m s ⟨e, b⟩) : FitsWhole m s ⟨e.ticked, b⟩ :=
  ⟨h.reader, h.reqBody, h.unbuilt, h.built⟩

/-- A client whose pointers fit its state can be disposed of. -/
theorem FitsWhole.disposable (h : FitsWhole m s e) : Disposable e.blocks where
  req := fun hnone => absurd hnone h.reader.req
  resp := fun hnone => absurd hnone h.reader.resp

end Workers

/-! ### Blocking calls -/

/-- The blocks of a call. -/
def BlockingCall.all (b : BlockingCall) : Multiset Block := b.blocks.all + blockOf b.client

/-- The block of the client is one of the call. -/
theorem BlockingCall.client_mem (b : BlockingCall) (h : b.client ≠ none) :
    ∃ x ∈ b.all, b.client = some x :=
  mem_of_eq_blockOf (add_comm b.blocks.all (blockOf b.client)) h

/-- What holds of a call between two iterations. A call that has returned has nothing left but
its output. -/
structure Sound (b : BlockingCall) : Prop where
  running : b.call.result = none → b.client ≠ none ∧
    FitsWhole true b.call.exchange.state ⟨b.call.exchange, b.blocks⟩
  returned : b.call.result ≠ none → b.client = none ∧ b.blocks = { output := b.blocks.output }
  refused : b.call.result = some .invalidArg → b.blocks.output = none
  filled : b.call.result ≠ some .invalidArg →
    (b.call.exchange.blockingOut.bind HTTPData.addr).isSome = b.blocks.output.isSome

/-- The next iteration ends the block of the decoded body: the time has not run out, and the
worker does. -/
def BlockingCall.EndsBody (b : BlockingCall) : Prop :=
  b.call.result = none ∧
    timedOut b.call.timeoutMs b.call.start (b.call.exchange.clock 0) = false ∧
    EndsBodyNext ⟨b.call.exchange, b.blocks⟩

instance (b : BlockingCall) : Decidable b.EndsBody :=
  inferInstanceAs (Decidable (_ ∧ _ ∧ _))

/-- The block of the decoded body is gone, and the client still points to it. -/
def BlockingCall.Dangles (b : BlockingCall) (h : Heap Kind) : Prop :=
  b.call.result = none ∧ b.call.exchange.state = .error ∧ b.client ≠ none ∧
    Disposable b.blocks ∧ ∃ x F, b.blocks.decodedBody = some x ∧ x ∉ h.live ∧
      h.live = { b.blocks with decodedBody := none }.all + blockOf b.client + F

/-- The call has kept its blocks. -/
def KeepsCall (b : BlockingCall) (R : Multiset Block) : Prop := R = b.all ∧ Sound b

section Calls

variable {cost : Kind → ℕ} {b : BlockingCall}

/-- A call that returns ends all blocks but that of the output. -/
theorem owns_return {e : MaestroCore.Exchange} {code : ErrorCode} (hcode : code ≠ .invalidArg)
    (hclient : b.client ≠ none)
    (hdisposable : Disposable b.blocks) (hundelivered : b.blocks.delivered = [])
    (hfilled : (e.blockingOut.bind HTTPData.addr).isSome = b.blocks.output.isSome) :
    Owns cost b.all (b.return e code) KeepsCall := by
  refine .deref (b.client_mem hclient) ?_
  refine owns_dispose (e := ⟨e, b.blocks⟩) hdisposable ?_
  rw [add_comm]
  refine .freeOpt (.pure ⟨?_, nofun, fun _ => ⟨rfl, ?_⟩, fun hres => ?_, fun _ => hfilled⟩)
  · exact (add_zero _).symm
  · simp only [hundelivered]
  · exact absurd (Option.some.inj hres) hcode

/-- **One iteration of the loop** keeps the blocks of the call, unless it ends that of the
decoded body. -/
theorem owns_blockingStep (hcost : Pricing cost) (h : Sound b) (hbody : ¬ b.EndsBody) :
    Owns cost b.all (httpBlockingStep b) KeepsCall := by
  rw [httpBlockingStep]
  split
  · exact .pure ⟨rfl, h⟩
  · rename_i hres
    rw [not_not] at hres
    obtain ⟨hclient, hfits⟩ := h.running hres
    have hticked : FitsWhole true b.call.exchange.ticked.state
        ⟨b.call.exchange.ticked, b.blocks⟩ := hfits.ticked
    have hreturn : ∀ code, code ≠ .invalidArg →
        Owns cost b.all (b.return b.call.exchange.ticked code) KeepsCall :=
      fun code hcode => owns_return hcode hclient hfits.disposable
        (hfits.reader.receiver.undelivered rfl) hfits.reader.receiver.filled
    simp only
    split
    · exact hreturn .timeout nofun
    · rename_i hintime
      split
      · refine .deref (b.client_mem hclient) ?_
        have hstep := owns_exchangeStep (e := ⟨b.call.exchange.ticked, b.blocks⟩) hcost hticked
          fun hnext => hbody ⟨hres, Bool.eq_false_iff.mpr hintime, hnext⟩
        refine (hstep.frame (blockOf b.client)).bind ?_
        rintro d R ⟨R', rfl, rfl, hd⟩
        exact .pure ⟨rfl, fun _ => ⟨hclient, hd⟩, fun hne => absurd hres hne,
          fun hcode => absurd (hres.symm.trans hcode) nofun, fun _ => hd.reader.receiver.filled⟩
      · split
        · exact hreturn .success nofun
        · exact hreturn .io nofun

/-- **The iteration that ends the block** leaves the call with a pointer to nothing. -/
theorem dangles_of_endsBody {start h : Heap Kind} (hsound : Sound b) (hbody : b.EndsBody)
    (hold : Holds cost start b.all start.live h) :
    ∃ b' h', httpBlockingStep b h = .ok (b', h') ∧ b'.Dangles h' := by
  obtain ⟨hres, hintime, hnext⟩ := hbody
  obtain ⟨hclient, hfits⟩ := hsound.running hres
  obtain ⟨L, log, hlive, -, -⟩ := hold
  obtain ⟨x, hx⟩ := Option.ne_none_iff_exists'.mp hnext.2.2.2
  obtain ⟨y, hy⟩ := Option.ne_none_iff_exists'.mp hclient
  have hsplit : h.live =
      x ::ₘ ({ b.blocks with decodedBody := none }.all + blockOf b.client + (L + start.live)) := by
    rw [hlive, BlockingCall.all, ClientBlocks.all_decodedBody]
    simp only at hx
    rw [hx, blockOf_some, ← Multiset.singleton_add]
    abel
  have hxlive : x ∈ h.live := by
    rw [hsplit]
    exact Multiset.mem_cons_self _ _
  have hylive : y ∈ h.live := by
    rw [hsplit, hy]
    simp
  refine ⟨⟨{ b.call with exchange := { b.call.exchange.ticked with state := .error } },
    b.blocks, b.client⟩, h.release x, ?_, hres, rfl, hclient, hfits.disposable, x,
    L + start.live, hx, h.nodup.notMem_erase, ?_⟩
  · have hstep := step_endsBody (e := ⟨b.call.exchange.ticked, b.blocks⟩) hnext hx hxlive
    have hworks : blockingWorks b.call.exchange.ticked.state = true := by
      have hs : b.call.exchange.ticked.state = .readingBodyChunked := hnext.1
      rw [hs]
      rfl
    rw [httpBlockingStep, if_neg (not_not.mpr hres)]
    simp only [hintime, Bool.false_eq_true, if_false, hworks, if_true]
    rw [hy, deref, bind_ok (if_pos hylive), bind_ok hstep]
    rfl
  · rw [Heap.release_live, hsplit, Multiset.erase_cons_head]

/-- **The next iteration frees the block a second time.** -/
theorem BlockingCall.Dangles.step {h : Heap Kind} (hb : b.Dangles h) :
    httpBlockingStep b h = .error (.pointer b.blocks.decodedBody) := by
  obtain ⟨hres, hs, hclient, hdisposable, x, F, hx, hgone, hlive⟩ := hb
  have hreturn : ∀ code,
      b.return b.call.exchange.ticked code h = .error (.pointer b.blocks.decodedBody) := by
    intro code
    have hJ : Disposal fun P (m : Allocated BlockingCall) => Misses x P m := Misses.disposal x
    have hmisses : Misses x ({ b.blocks with decodedBody := none }.all + blockOf b.client)
        (b.return b.call.exchange.ticked code) :=
      hJ.deref (mem_of_eq_blockOf (add_comm _ _) hclient)
        (misses_dispose (e := ⟨b.call.exchange.ticked, b.blocks⟩) hdisposable hx)
    rw [hx]
    exact hmisses h F hlive hgone
  have hstate : b.call.exchange.ticked.state = .error := hs
  rw [httpBlockingStep, if_neg (not_not.mpr hres)]
  simp only [hstate]
  split
  · exact hreturn .timeout
  · exact hreturn .io

/-- The call that has been started, with a copy of the body if there is one. -/
theorem started_blockingWork (url : Bytes) (method : HTTPMethod) (input : Option HTTPInput)
    (out : Option HTTPData) (timeoutMs : ℤ) (env : Environment) :
    let b := MaestroCore.httpBlockingWork url method input out timeoutMs env
    b.result = none ∧ b.exchange.toHTTPClient =
      { blockingClient url method out env with state := .connecting }.toHTTPClient ∧
      (b.exchange.reqBody ≠ none →
        ∃ addr size hfits, input = some ⟨some addr, size, hfits⟩ ∧ 0 < size) := by
  rcases input with _ | ⟨_ | addr, size, hfits⟩
  · exact ⟨rfl, rfl, fun h => absurd rfl h⟩
  · exact ⟨rfl, rfl, fun h => absurd rfl h⟩
  · by_cases hsize : 0 < size
    · simp only [MaestroCore.httpBlockingWork, hsize, if_true]
      exact ⟨trivial, rfl, fun _ => ⟨addr, size, hfits, rfl, hsize⟩⟩
    · simp only [MaestroCore.httpBlockingWork, hsize, if_false]
      exact ⟨trivial, rfl, fun h => absurd rfl h⟩

/-- The loop starts with the copies that have been made. -/
theorem owns_started {url : Bytes} {method : HTTPMethod} {input : Option HTTPInput}
    {out : Option HTTPData} {timeoutMs : ℤ} {env : Environment}
    {urlCopy req resp body : Option Block} {client : Block} {P : Multiset Block}
    (hout : out.bind HTTPData.addr = none) (hurl : urlCopy ≠ none) (hreq : req ≠ none)
    (hresp : resp ≠ none)
    (hbody : ∀ addr size hfits, input = some ⟨some addr, size, hfits⟩ → 0 < size → body ≠ none)
    (hP : P = BlockingCall.all
      ⟨MaestroCore.httpBlockingWork url method input out timeoutMs env,
        { url := urlCopy, req := req, resp := resp, reqBody := body }, some client⟩) :
    Owns cost P (pure ⟨MaestroCore.httpBlockingWork url method input out timeoutMs env,
      { url := urlCopy, req := req, resp := resp, reqBody := body }, some client⟩ :
        Allocated BlockingCall) KeepsCall := by
  obtain ⟨hres, hclient, hcopied⟩ := started_blockingWork url method input out timeoutMs env
  generalize MaestroCore.httpBlockingWork url method input out timeoutMs env = started at *
  have hstate : started.exchange.state = .connecting := by rw [hclient]
  have hrecv : started.exchange.recvBuf = [] := by rw [hclient]; rfl
  have hdecoded : started.exchange.decodedBody = none := by rw [hclient]; rfl
  have hreceiver : started.exchange.receiver = ⟨true, out, false, []⟩ := by rw [hclient]; rfl
  have hfilled : (out.bind HTTPData.addr).isSome = false := by
    rw [hout]
    rfl
  refine .pure ⟨hP, fun _ => ⟨nofun, ?_⟩, fun hne => absurd hres hne,
    fun hcode => absurd (hres.symm.trans hcode) nofun, fun _ => ?_⟩
  · rw [hstate]
    refine ⟨⟨hurl, hreq, hresp, fun hne => absurd hrecv hne, fun hne => absurd hdecoded hne,
      fun _ => rfl, fun _ => rfl, ?_⟩, fun _ hne => ?_, fun _ => rfl, nofun⟩
    · rw [hreceiver]
      exact ⟨rfl, hfilled, rfl, fun _ => rfl, nofun⟩
    · obtain ⟨addr, size, hfits, rfl, hsize⟩ := hcopied hne
      exact hbody addr size hfits rfl hsize
  · have hblockingOut : started.exchange.blockingOut = out :=
      congrArg Receiver.blockingOut hreceiver
    rw [hblockingOut]
    exact hfilled

/-- The start of a call has the blocks of its client, or none when it fails. -/
theorem owns_blockingWork (hcost : Pricing cost) (hprice : cost .response = 0) {url : Bytes}
    {method : HTTPMethod} {input : Option HTTPInput} {out : Option HTTPData} {timeoutMs : ℤ}
    {env : Environment} (hout : out.bind HTTPData.addr = none) :
    Owns cost 0 (httpBlockingWork url method input out timeoutMs env) KeepsCall := by
  have hfilled : (out.bind HTTPData.addr).isSome = false := by
    rw [hout]
    rfl
  refine .malloc_free (hcost.other _ (by simp) (by simp)) (fun client => ?_) ?_
  · refine .malloc_any (hcost.other _ (by simp) (by simp)) fun urlCopy => ?_
    refine .malloc_any (hcost.other _ (by simp) (by simp)) fun req => ?_
    refine .malloc_any hprice fun resp => ?_
    have hall : ∀ call body, blockOf body +
        (blockOf resp + (blockOf req + (blockOf urlCopy + client ::ₘ 0))) =
        BlockingCall.all
          ⟨call, { url := urlCopy, req := req, resp := resp, reqBody := body }, some client⟩ := by
      intro call body
      have hnone : ResponseBlocks.blocks {} = 0 := rfl
      simp only [BlockingCall.all, ClientBlocks.all, blockOf_none, blockOf_some, listBlocks,
        hnone, Multiset.coe_nil, ← Multiset.singleton_add]
      abel
    have hstart := fun call => hall call none
    simp only [blockOf_none, zero_add] at hstart
    have hfailed : ∀ call, call.exchange.blockingOut = out → Owns cost
        (blockOf resp + (blockOf req + (blockOf urlCopy + client ::ₘ 0)))
        (BlockingCall.return ⟨call, { url := urlCopy, req := req, resp := resp }, some client⟩
          call.exchange .noMemory) KeepsCall := by
      intro call hcall
      rw [hstart call]
      refine owns_return (by simp) (Option.some_ne_none client)
        ⟨fun _ => ⟨rfl, rfl⟩, fun _ => rfl⟩ rfl ?_
      rw [hcall]
      exact hfilled
    simp only
    split
    · exact hfailed _ rfl
    · rename_i hne
      obtain ⟨hurl, hreq, hresp⟩ : urlCopy ≠ none ∧ req ≠ none ∧ resp ≠ none := by simpa using hne
      have hnocopy : (∀ addr size hfits, input = some ⟨some addr, size, hfits⟩ → ¬ 0 < size) →
          Owns cost (blockOf resp + (blockOf req + (blockOf urlCopy + client ::ₘ 0)))
            (pure ⟨MaestroCore.httpBlockingWork url method input out timeoutMs env,
              { url := urlCopy, req := req, resp := resp }, some client⟩ :
                Allocated BlockingCall) KeepsCall := fun hno =>
        owns_started hout hurl hreq hresp
          (fun addr size hfits heq hpos => absurd hpos (hno addr size hfits heq)) (hstart _)
      rcases input with _ | ⟨_ | addr, size, hfits⟩
      · exact hnocopy (by simp)
      · exact hnocopy (by simp)
      · rw [copyBody]
        split
        · obtain ⟨x, rfl⟩ := Option.ne_none_iff_exists'.mp hreq
          refine .deref ⟨x, by simp, rfl⟩ ?_
          refine .malloc_free (hcost.other _ (by simp) (by simp)) (fun body => ?_) (hfailed _ rfl)
          exact owns_started hout hurl hreq hresp (fun _ _ _ _ _ => Option.some_ne_none body)
            (hall _ (some body))
        · rename_i hsize
          refine hnocopy fun addr' size' hfits' heq => ?_
          obtain rfl : size = size' := congrArg HTTPInput.size (Option.some.inj heq)
          exact hsize
  · exact .pure ⟨rfl, fun h => absurd h (by simp), fun _ => ⟨rfl, rfl⟩, fun h => absurd h (by simp),
      fun _ => hfilled⟩

/-- A call that is refused at once has no blocks. -/
theorem owns_refused (out : Option HTTPData) (timeoutMs : ℤ) (env : Environment) :
    Owns cost 0 (refused out timeoutMs env) KeepsCall :=
  .pure ⟨rfl, nofun, fun _ => ⟨rfl, rfl⟩, fun _ => rfl, fun hne => absurd rfl hne⟩

/-- **The start of a call** owns what it allocates. -/
theorem owns_call (hcost : Pricing cost) (hprice : cost .response = 0) (r : BlockingRequest)
    (out : Option HTTPData) (timeoutMs : ℤ) (env : Environment) :
    Owns cost 0 (call r out timeoutMs env) KeepsCall := by
  rcases r with url | ⟨url, input⟩
  · rw [call, httpBlockingGet.eq_def]
    split
    · exact owns_blockingWork hcost hprice rfl
    · exact owns_refused _ _ _
  · rw [call, httpBlockingPost.eq_def]
    split
    · split
      · exact owns_refused _ _ _
      · refine owns_blockingWork hcost hprice ?_
        cases out <;> rfl
    · exact owns_refused _ _ _

end Calls

/-! ### Heaps that refuse nothing -/

section Refines

variable {β γ : Type} {T : β → γ → Prop} {r : Except Fault γ} {e : Exchange} {b : BlockingCall}

/-- A worker has done what the one without a heap does. -/
def SameWhole (p : HTTPClientState × Exchange) (q : HTTPClientState × MaestroCore.Exchange) :
    Prop := p.1 = q.1 ∧ p.2.content = q.2

/-- The request is built as without a heap. -/
theorem refines_buildRequest :
    Refines (httpClientWorktaskBuildRequest e)
      (.ok (MaestroCore.httpClientWorktaskBuildRequest e.content)) SameWhole := by
  rw [MaestroCore.httpClientWorktaskBuildRequest]
  refine .deref (.malloc fun buf => ?_)
  simp only
  split
  · exact .free (.pure ⟨rfl, rfl⟩)
  · split
    · exact .free (.pure ⟨rfl, rfl⟩)
    · split
      · exact .deref (.pure ⟨rfl, rfl⟩)
      · exact .pure ⟨rfl, rfl⟩

/-- A reading worker is the one without a heap while the chunks fit a block. -/
theorem refines_readWork (hfits : ChunkFits e.content.toHTTPClient) :
    Refines (readWork e) (e.content.read MaestroCore.httpClientWork) SameWhole := by
  refine .bind (refines_work (c := ⟨e.content.toHTTPClient, e.blocks⟩) hfits) ?_
  rintro ⟨s, c⟩ ⟨s', c'⟩ ⟨rfl, rfl⟩
  exact .pure ⟨rfl, rfl⟩

/-- A worker call is the one without a heap while the chunks fit a block. -/
theorem refines_exchangeStep (hfits : ChunkFits e.content.toHTTPClient) :
    Refines (exchangeStep e) (MaestroCore.exchangeStep e.content)
      (fun d d' => d.content = d') := by
  have hwork : Refines (exchangeWork e) (MaestroCore.exchangeWork e.content) SameWhole := by
    rw [exchangeWork, MaestroCore.exchangeWork]
    cases e.content.state with
    | connecting => exact .deref (.pure ⟨rfl, rfl⟩)
    | waitingConnect => exact .pure ⟨rfl, rfl⟩
    | buildingRequest => exact refines_buildRequest
    | sendingRequest =>
        refine .deref (.andThen .lift ?_)
        rintro ⟨s, d⟩ _ rfl
        exact .pure ⟨rfl, rfl⟩
    | _ => exact refines_readWork hfits
  refine .bind hwork ?_
  rintro ⟨s, d⟩ ⟨s', d'⟩ ⟨rfl, rfl⟩
  exact .pure rfl

/-- The end of what the parser has made has no part in the plain client. -/
theorem refines_parserDispose {f : Unit → Allocated β} (b : ClientBlocks)
    (hf : Refines (f ()) r T) : Refines (httpParserDispose b >>= f) r T := by
  have hresponse : Refines ((match b.resp with
      | none => pure ()
      | some resp => do
          use resp
          let _ ← httpParserDisposeResponse b.strings) >>= f) r T := by
    cases b.resp with
    | none => exact hf
    | some resp =>
        simp only [bind_assoc, pure_bind]
        exact .use (refines_disposeResponse _ hf)
  simp only [httpParserDispose, bind_assoc]
  rw [httpParserDisposeRequest]
  cases b.req with
  | none => exact hresponse
  | some req =>
      simp only [bind_assoc]
      exact .use (.freeOpt (refines_disposeLinkedList _ hresponse))

/-- A client is disposed of as without a heap, and keeps what it has handed over. -/
theorem refines_dispose {f : Exchange → Allocated β}
    (hf : Refines (f ⟨MaestroCore.httpClientDispose e.content,
      { output := e.blocks.output, delivered := e.blocks.delivered }⟩) r T) :
    Refines (httpClientDispose e >>= f) r T := by
  simp only [httpClientDispose, bind_assoc, pure_bind]
  exact .freeOpt (refines_parserDispose _
    (.freeOpt (.freeOpt (.freeOpt (.freeOpt (.freeOpt hf))))))

/-- The call has done what the one without a heap does. -/
def SameCall (b : BlockingCall) (b' : MaestroCore.BlockingCall) : Prop := b.call = b'

/-- A call returns as without a heap. -/
theorem refines_return {e : MaestroCore.Exchange} {code : ErrorCode} :
    Refines (b.return e code) (.ok (b.call.return e code)) SameCall :=
  .deref (refines_dispose (.freeOpt (.pure rfl)))

/-- **One iteration** on a heap that refuses nothing. -/
theorem refines_blockingStep (hfits : ChunkFits b.call.exchange.toHTTPClient) :
    Refines (httpBlockingStep b) (MaestroCore.httpBlockingStep b.call) SameCall := by
  rw [httpBlockingStep, MaestroCore.httpBlockingStep]
  split
  · exact .pure rfl
  · simp only
    split
    · exact refines_return
    · split
      · refine .deref (.bind (refines_exchangeStep hfits) ?_)
        rintro d _ rfl
        exact .pure rfl
      · split
        · exact refines_return
        · exact refines_return

/-- A call starts as without a heap. -/
theorem refines_blockingWork {url : Bytes} {method : HTTPMethod} {input : Option HTTPInput}
    {out : Option HTTPData} {timeoutMs : ℤ} {env : Environment} :
    Refines (httpBlockingWork url method input out timeoutMs env)
      (.ok (MaestroCore.httpBlockingWork url method input out timeoutMs env)) SameCall := by
  refine .malloc fun client => .malloc fun urlCopy => .malloc fun req => .malloc fun resp => ?_
  simp only [reduceCtorEq, or_self, if_false]
  rcases input with _ | ⟨_ | addr, size, hfits⟩
  · exact .pure rfl
  · exact .pure rfl
  · rw [copyBody]
    split
    · exact .deref (.malloc fun body => .pure rfl)
    · exact .pure rfl

/-- **The start of a call** on a heap that refuses nothing. -/
theorem refines_call (r : BlockingRequest) (out : Option HTTPData) (timeoutMs : ℤ)
    (env : Environment) :
    Refines (call r out timeoutMs env) (.ok (r.call out timeoutMs env)) SameCall := by
  rcases r with url | ⟨url, input⟩
  · rw [call, BlockingRequest.call, httpBlockingGet.eq_def, MaestroCore.httpBlockingGet.eq_def]
    rcases url with _ | url
    · exact .pure rfl
    · rcases out with _ | out
      · exact .pure rfl
      · exact refines_blockingWork
  · rw [call, BlockingRequest.call, httpBlockingPost.eq_def, MaestroCore.httpBlockingPost.eq_def]
    rcases url with _ | url
    · exact .pure rfl
    · rcases input with _ | input
      · exact .pure rfl
      · simp only
        split
        · exact .pure rfl
        · exact refines_blockingWork

end Refines

/-! ### Whole calls -/

/-- The call on the heap `start` passes through the state `b` with the heap `h`. -/
def CallReaches (r : BlockingRequest) (out : Option HTTPData) (timeoutMs : ℤ) (env : Environment)
    (start : Heap Kind) (b : BlockingCall) (h : Heap Kind) : Prop :=
  ∃ b₀ h₀, call r out timeoutMs env start = .ok (b₀, h₀) ∧
    Reaches (heapStep httpBlockingStep) (b₀, h₀) (b, h)

/-- What the refusal of a request costs a blocking call. -/
def leaked : Kind → ℕ
  | .node => 3
  | _ => 0

/-- The costs of a call are those of the headers alone. -/
theorem pricing_leaked : Pricing leaked where
  node := rfl
  other := by rintro (_ | _) <;> simp [leaked]

/-- Three blocks are lost for each node that is refused. -/
theorem sum_leaked (log : List Kind) : (log.map leaked).sum = 3 * log.count .node := by
  induction log with
  | nil => rfl
  | cons k log ih =>
      rw [List.map_cons, List.sum_cons, ih, List.count_cons]
      cases k <;> simp [leaked]
      omega

section Whole

variable {r : BlockingRequest} {out : Option HTTPData} {timeoutMs : ℤ} {env : Environment}
  {start h : Heap Kind} {b : BlockingCall}

/-- **Every state of a call** holds exactly the blocks of the call, or comes after the end of the
block of the decoded body. -/
theorem CallReaches.kept (hrun : CallReaches r out timeoutMs env start b h) :
    (Sound b ∧ Holds leaked start b.all start.live h) ∨
      (b.Dangles h ∧ ∃ b' h', CallReaches r out timeoutMs env start b' h' ∧ b'.EndsBody) := by
  obtain ⟨b₀, h₀, hcall, hreaches⟩ := hrun
  have hstart : Holds leaked start 0 start.live start := holds_start (zero_add _).symm
  obtain ⟨R, ⟨rfl, hsound⟩, hold⟩ :=
    hstart.step (owns_call pricing_leaked rfl r out timeoutMs env) hcall
  have hstep : ∀ p q : BlockingCall × Heap Kind, heapStep httpBlockingStep p = .ok q →
      (CallReaches r out timeoutMs env start p.1 p.2 ∧
        ((Sound p.1 ∧ Holds leaked start p.1.all start.live p.2) ∨ (p.1.Dangles p.2 ∧
          ∃ b' h', CallReaches r out timeoutMs env start b' h' ∧ b'.EndsBody))) →
      (CallReaches r out timeoutMs env start q.1 q.2 ∧
        ((Sound q.1 ∧ Holds leaked start q.1.all start.live q.2) ∨ (q.1.Dangles q.2 ∧
          ∃ b' h', CallReaches r out timeoutMs env start b' h' ∧ b'.EndsBody))) := by
    rintro ⟨b, h⟩ ⟨b', h'⟩ hpq ⟨⟨b₁, h₁, hcall₁, hreaches₁⟩, hb⟩
    refine ⟨⟨b₁, h₁, hcall₁, hreaches₁.tail hpq⟩, ?_⟩
    rcases hb with ⟨hsound, hold⟩ | ⟨hdangles, -⟩
    · by_cases hbody : b.EndsBody
      · obtain ⟨d, g, hd, hdangles⟩ := dangles_of_endsBody hsound hbody hold
        obtain ⟨rfl, rfl⟩ := Prod.mk.inj (Except.ok.inj (hpq.symm.trans hd))
        exact Or.inr ⟨hdangles, b, h, ⟨b₁, h₁, hcall₁, hreaches₁⟩, hbody⟩
      · obtain ⟨R, ⟨rfl, hsound'⟩, hold'⟩ :=
          hold.step (owns_blockingStep pricing_leaked hsound hbody) hpq
        exact Or.inl ⟨hsound', hold'⟩
    · cases hdangles.step.symm.trans hpq
  exact (hreaches.invariant hstep ⟨⟨b₀, h₀, hcall, .refl _⟩, Or.inl ⟨hsound, hold⟩⟩).2

/-- The start of a call follows no bad pointer. -/
theorem call_no_fault (r : BlockingRequest) (out : Option HTTPData) (timeoutMs : ℤ)
    (env : Environment) (start : Heap Kind) (o : Option Block) :
    call r out timeoutMs env start ≠ .error (.pointer o) :=
  (holds_start (zero_add start.live).symm).no_fault
    (owns_call pricing_leaked rfl r out timeoutMs env) o

/-- A call that never ends the block of its decoded body follows no bad pointer. -/
theorem CallReaches.no_fault
    (hnever : ∀ b h, CallReaches r out timeoutMs env start b h → ¬ b.EndsBody)
    (hrun : CallReaches r out timeoutMs env start b h) (o : Option Block) :
    httpBlockingStep b h ≠ .error (.pointer o) := by
  rcases hrun.kept with ⟨hsound, hold⟩ | ⟨-, b', h', hrun', hbody⟩
  · exact hold.no_fault (owns_blockingStep pricing_leaked hsound (hnever b h hrun)) o
  · exact absurd hbody (hnever b' h' hrun')

/-- A call that ends the block of its decoded body frees it again in its next iteration. -/
theorem CallReaches.freed_twice (hrun : CallReaches r out timeoutMs env start b h)
    (hbody : b.EndsBody) :
    ∃ b' h' o, CallReaches r out timeoutMs env start b' h' ∧
      httpBlockingStep b' h' = .error (.pointer o) := by
  rcases hrun.kept with ⟨hsound, hold⟩ | ⟨hdangles, -⟩
  · obtain ⟨b', h', hstep, hdangles⟩ := dangles_of_endsBody hsound hbody hold
    obtain ⟨b₀, h₀, hcall, hreaches⟩ := hrun
    exact ⟨b', h', _, ⟨b₀, h₀, hcall, hreaches.tail hstep⟩, hdangles.step⟩
  · cases hdangles.2.1.symm.trans hbody.2.2.1

/-- What is left of a call that has returned. -/
theorem CallReaches.returned (hrun : CallReaches r out timeoutMs env start b h) {code : ErrorCode}
    (hcode : b.call.result = some code) :
    ∃ L log, h.live = blockOf b.blocks.output + L + start.live ∧
      h.refused = start.refused ++ log ∧ L.card = 3 * log.count .node ∧
      (b.blocks.output.isSome = true ↔ code ≠ .invalidArg ∧
        (b.call.exchange.blockingOut.bind HTTPData.addr).isSome = true) := by
  rcases hrun.kept with ⟨hsound, L, log, hlive, hlog, hcard⟩ | ⟨hdangles, -⟩
  swap
  · cases hdangles.1.symm.trans hcode
  refine ⟨L, log, ?_, hlog, by rw [hcard, sum_leaked], ?_⟩
  · obtain ⟨hclient, hblocks⟩ := hsound.returned (by rw [hcode]; nofun)
    have hall : b.all = blockOf b.blocks.output := by
      have hnone : ResponseBlocks.blocks {} = 0 := rfl
      rw [BlockingCall.all, hclient, hblocks]
      simp [ClientBlocks.all, listBlocks, hnone]
    rw [hlive, hall]
  · by_cases hrefused : code = .invalidArg
    · subst hrefused
      rw [hsound.refused hcode]
      simp
    · rw [hsound.filled (by rw [hcode]; simpa using hrefused)]
      simp [hrefused]

/-- The executable iteration computes the states of a call. -/
theorem exists_reached {n : ℕ} {P : BlockingCall × Heap Kind → Bool}
    (hany : (call r out timeoutMs env start).toOption.any fun p =>
      (run (heapStep httpBlockingStep) n p).toOption.any P) :
    ∃ b h, CallReaches r out timeoutMs env start b h ∧ P (b, h) = true := by
  cases hcall : call r out timeoutMs env start with
  | error e =>
      rw [hcall] at hany
      cases hany
  | ok p =>
      rw [hcall] at hany
      obtain ⟨⟨b, h⟩, hrun, hP⟩ := exists_run_of_any hany
      exact ⟨b, h, ⟨p.1, p.2, hcall, reaches_of_run hrun⟩, hP⟩

end Whole

/-! ### One header -/

/-- A server that answers with one header and no body. -/
def headerServer : Environment :=
  reachableServer [.data ⟨ascii "HTTP/1.1 200 OK\r\nA:b\r\n\r\n", by decide⟩] [.wrote 1000]
    fun _ => 0

/-- A request to this server. -/
def headerRequest : BlockingRequest := .get (some (ascii "http://h/"))

/-- A server that answers with the chunk `hello` and then with this text. -/
def chunkServer (text : Bytes) : Environment :=
  reachableServer [.data ⟨ascii "HTTP/1.1 200 OK\r\nTransfer-Encoding: chunked\r\n\r\n" ++
    (ascii "5\r\nhello\r\n" ++ text), List.append_ne_nil_of_left_ne_nil (by decide) _⟩]
    [.wrote 1000] fun _ => 0

/-- After `hello` a chunk of the size `FFFFFFFA` makes `realloc` end the block of the body, and
the client frees that block again when the call returns. -/
theorem wrapped_size_freed_twice :
    ∃ b h o, CallReaches headerRequest (some {}) 0 (chunkServer (ascii "FFFFFFFA\r\n"))
        (emptyHeap Kind fun _ => true) b h ∧
      httpBlockingStep b h = .error (.pointer o) := by
  have hany : (call headerRequest (some {}) 0 (chunkServer (ascii "FFFFFFFA\r\n"))
      (emptyHeap Kind fun _ => true)).toOption.any fun p =>
        (run (heapStep httpBlockingStep) 8 p).toOption.any fun q => decide q.1.EndsBody := by
    decide +kernel
  obtain ⟨b, h, hrun, hP⟩ := exists_reached hany
  exact hrun.freed_twice (of_decide_eq_true hP)

end MaestroCore.Allocating
