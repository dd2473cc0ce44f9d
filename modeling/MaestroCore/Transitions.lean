import MaestroCore.Exchange
import MaestroCore.Reading

/-!
# What One Worker Call Can Do

The thirteen states of the client form a graph, and a worker call goes along one of its
edges. Only `http_client_worktask_returning` looks at the fields that say where the body
goes: every other reading worker commutes with a change of these fields, so two clients that
differ only in their receiver run in lockstep until the body is complete.

## Main results

* `httpClientWork_withReceiver`: a worker call commutes with a change of the receiver.
* `exchangeStep_leadsTo`: a worker call goes along an edge of the state graph.
* `exchangeStep_kept`: it leaves the receiver, the descriptors and the slot alone, where it
  does not deliver or connect.
* `exchangeStep_overlay`: it commutes with a change of the receiver, the method and the slot,
  where it does not look at them.
-/

open CLang Run

namespace MaestroCore

/-- Where a client delivers the body, and what it has delivered to its callback. -/
structure Receiver where
  blockingMode : Bool
  blockingOut : Option HTTPData
  onSuccess : Bool
  responses : List Bytes

/-- The receiver of a client. -/
def HTTPClient.receiver (c : HTTPClient) : Receiver :=
  ⟨c.blockingMode, c.blockingOut, c.onSuccess, c.responses⟩

/-- The client with another receiver. -/
def HTTPClient.withReceiver (c : HTTPClient) (r : Receiver) : HTTPClient :=
  { c with
    blockingMode := r.blockingMode
    blockingOut := r.blockingOut
    onSuccess := r.onSuccess
    responses := r.responses }

/-- A client that is given its own receiver is the same. -/
@[simp] theorem HTTPClient.withReceiver_self (c : HTTPClient) :
    c.withReceiver c.receiver = c := rfl

/-- A client has the receiver that it is given. -/
@[simp] theorem HTTPClient.receiver_withReceiver (c : HTTPClient) (r : Receiver) :
    (c.withReceiver r).receiver = r := rfl

/-- The state does not depend on the receiver. -/
@[simp] theorem HTTPClient.withReceiver_state (c : HTTPClient) (r : Receiver) :
    (c.withReceiver r).state = c.state := rfl

/-- What has been received does not depend on the receiver. -/
@[simp] theorem HTTPClient.withReceiver_recvBuf (c : HTTPClient) (r : Receiver) :
    (c.withReceiver r).recvBuf = c.recvBuf := rfl

/-- The rest of a chunk does not depend on the receiver. -/
@[simp] theorem HTTPClient.withReceiver_chunkRemaining (c : HTTPClient) (r : Receiver) :
    (c.withReceiver r).chunkRemaining = c.chunkRemaining := rfl

/-- The declared length does not depend on the receiver. -/
@[simp] theorem HTTPClient.withReceiver_contentLength (c : HTTPClient) (r : Receiver) :
    (c.withReceiver r).contentLength = c.contentLength := rfl

section Worked

variable {r : Receiver} {c : HTTPClient}

/-- What a worker returns, with another receiver. -/
def withReceiver (r : Receiver) (w : Worked) : Worked :=
  w.map fun p => (p.1, p.2.withReceiver r)

/-- The worker commutes with a change of the receiver. -/
def Blind (worker : HTTPClient → Worked) : Prop :=
  ∀ c r, worker (c.withReceiver r) = withReceiver r (worker c)

/-- A change of the state does not look at the receiver. -/
theorem blind_goto (s : HTTPClientState) : Blind (goto s) := fun _ _ => rfl

/-- The receiver can be set before a change of the state or after it. -/
@[simp] theorem withReceiver_goto (s : HTTPClientState) (c : HTTPClient) :
    withReceiver r (goto s c) = goto s (c.withReceiver r) := rfl

/-- The receiver is set in what comes last. -/
@[simp] theorem withReceiver_bind {α : Type} (x : Except Fault α) (f : α → Worked) :
    withReceiver r (x >>= f) = x >>= fun a => withReceiver r (f a) := by
  cases x <;> rfl

/-- The receiver is set in both branches. -/
@[simp] theorem withReceiver_ite (p : Prop) [Decidable p] (x y : Worked) :
    withReceiver r (if p then x else y) = if p then withReceiver r x else withReceiver r y :=
  apply_ite _ _ _ _

/-- A read does not look at the receiver when what comes after it does not. -/
theorem receive_withReceiver {len : ℕ} {again : HTTPClientState}
    {onClosed onBytes : HTTPClient → Worked} (hclosed : Blind onClosed) (hbytes : Blind onBytes) :
    receive (c.withReceiver r) len again onClosed onBytes =
      withReceiver r (receive c len again onClosed onBytes) := by
  rw [receive, receive]
  rcases hread : transportRead c.transport len with ⟨res, t⟩
  have hread' : transportRead (c.withReceiver r).transport len = (res, t) := hread
  rw [hread']
  cases res with
  | failed e => rfl
  | zero => exact hclosed { c with transport := t } r
  | bytes b =>
      exact hbytes { c with transport := t, recvBuf := bufferAppend c.recvBuf b } r

/-- Reading the status line does not look at the receiver. -/
theorem blind_firstline : Blind httpClientFirstline := by
  intro c r
  simp only [httpClientFirstline, withReceiver_ite, withReceiver_goto, withReceiver_bind]
  rfl

/-- The end of the header block does not look at the receiver. -/
theorem headersComplete_withReceiver (n : ℕ) :
    httpClientHeadersComplete (c.withReceiver r) n =
      withReceiver r (httpClientHeadersComplete c n) := by
  simp only [httpClientHeadersComplete, withReceiver_bind]
  refine congrArg _ (funext fun parsed => ?_)
  cases parsed with
  | error e => rfl
  | ok headers =>
      simp only [withReceiver_ite, withReceiver_goto]
      congr 1
      cases httpParserGetHeaderValue headers (ascii "Content-Length") with
      | error e => rfl
      | ok value =>
          simp only [withReceiver_bind, withReceiver_ite, withReceiver_goto]
          rfl

/-- Reading the headers does not look at the receiver. -/
theorem blind_readHeaders : Blind httpClientWorktaskReadHeaders := by
  intro c r
  simp only [httpClientWorktaskReadHeaders, HTTPClient.withReceiver_recvBuf, withReceiver_ite]
  congr 1
  · exact headersComplete_withReceiver _
  · refine receive_withReceiver ?_ (blind_goto _)
    intro c r
    simp only [HTTPClient.withReceiver_recvBuf, withReceiver_ite, headersComplete_withReceiver,
      withReceiver_goto]

/-- What comes after the last size line is read without a look at the receiver. -/
theorem blind_trailers : Blind httpClientTrailers := by
  intro c r
  simp only [httpClientTrailers, HTTPClient.withReceiver_recvBuf, withReceiver_ite,
    receive_withReceiver (blind_goto _) (blind_goto _)]
  rfl

/-- A size line is read without a look at the receiver. -/
theorem blind_decipherChonkiness : Blind httpClientWorktaskDecipherChonkiness := by
  intro c r
  simp only [httpClientWorktaskDecipherChonkiness, HTTPClient.withReceiver_recvBuf,
    withReceiver_ite, withReceiver_bind, receive_withReceiver (blind_goto _) (blind_goto _)]
  congr 2
  funext size
  cases size with
  | none => rfl
  | some size =>
      simp only [withReceiver_ite, ← blind_trailers _ r]
      rfl

/-- The line end of a chunk is read without a look at the receiver. -/
theorem blind_chunkEnd : Blind httpClientChunkEnd := by
  intro c r
  simp only [httpClientChunkEnd, HTTPClient.withReceiver_recvBuf, withReceiver_ite,
    receive_withReceiver (blind_goto _) (blind_goto _)]
  rfl

/-- A chunk is read without a look at the receiver. -/
theorem blind_readBodyChunked : Blind httpClientWorktaskReadBodyChunked := by
  intro c r
  simp only [httpClientWorktaskReadBodyChunked, HTTPClient.withReceiver_recvBuf,
    HTTPClient.withReceiver_chunkRemaining, withReceiver_ite, ← blind_chunkEnd _ r,
    receive_withReceiver (blind_goto _) (blind_goto _)]
  rfl

/-- A body of a declared length is read without a look at the receiver. -/
theorem blind_readBody : Blind httpClientWorktaskReadBody := by
  intro c r
  refine receive_withReceiver ?_ ?_ <;> intro c r <;>
    simp only [HTTPClient.withReceiver_recvBuf, HTTPClient.withReceiver_contentLength,
      withReceiver_ite] <;> rfl

/-- **A worker call commutes with a change of the receiver**, except the delivery. -/
theorem httpClientWork_withReceiver (h : c.state ≠ .returning) :
    httpClientWork (c.withReceiver r) = withReceiver r (httpClientWork c) := by
  rw [httpClientWork, httpClientWork, HTTPClient.withReceiver_state]
  cases hs : c.state with
  | readingFirstline => exact receive_withReceiver (blind_goto _) blind_firstline
  | readingHeaders => exact blind_readHeaders c r
  | decipherChonkiness => exact blind_decipherChonkiness c r
  | readingBodyChunked => exact blind_readBodyChunked c r
  | readingBody => exact blind_readBody c r
  | returning => exact absurd hs h
  | _ => rfl

/-- So it leaves the receiver alone. -/
theorem receiver_of_work {s : HTTPClientState} {d : HTTPClient} (h : c.state ≠ .returning)
    (hwork : httpClientWork c = .ok (s, d)) : d.receiver = c.receiver := by
  have hself := httpClientWork_withReceiver (r := c.receiver) h
  rw [HTTPClient.withReceiver_self, hwork] at hself
  obtain ⟨-, heq⟩ := Prod.mk.injEq .. ▸ Except.ok.inj hself
  rw [heq, HTTPClient.receiver_withReceiver]

end Worked

/-! ### Where the workers lead -/

/-- The worker stays in the reading phase or fails. -/
def Goes (s : HTTPClientState) (_ : HTTPClient) : Prop := s.reading = true ∨ s = .error

section Goes

variable {c : HTTPClient}

/-- A change of the state to a reading one, or to `ERROR`. -/
theorem goes_goto {s : HTTPClientState} (h : s.reading = true ∨ s = .error := by decide)
    (c : HTTPClient) : Outcome Goes (goto s c) := .goto h

/-- A read stays in the reading phase or fails when what comes after it does. -/
theorem goes_receive {len : ℕ} {again : HTTPClientState} {onClosed onBytes : HTTPClient → Worked}
    (hagain : again.reading = true) (hclosed : ∀ d, Outcome Goes (onClosed d))
    (hbytes : ∀ d, Outcome Goes (onBytes d)) :
    Outcome Goes (receive c len again onClosed onBytes) :=
  .receive (Or.inl hagain) (Or.inr rfl) (hclosed _) fun _ => hbytes _

/-- A worker that waits for more stays in its state, or fails when there is no more. -/
theorem goes_wait {len : ℕ} {again : HTTPClientState} (hagain : again.reading = true) :
    Outcome Goes (receive c len again (goto .error) (goto again)) :=
  goes_receive hagain (goes_goto (Or.inr rfl)) (goes_goto (Or.inl hagain))

/-- The status line leads on in the reading phase or to `ERROR`. -/
theorem goes_firstline (c : HTTPClient) : Outcome Goes (httpClientFirstline c) := by
  rw [httpClientFirstline]
  split
  · exact goes_goto (c := c)
  · simp only
    split
    · split <;> exact goes_goto (c := c)
    · split
      · exact goes_goto (c := c)
      · refine .bind fun p _ => ?_
        split <;> exact goes_goto (c := _)

/-- The end of the header block leads to one of the workers of the body. -/
theorem goes_headersComplete (n : ℕ) : Outcome Goes (httpClientHeadersComplete c n) := by
  refine .bind fun parsed _ => ?_
  cases parsed with
  | error e => exact goes_goto (c := _)
  | ok headers =>
      simp only
      split
      · exact goes_goto (c := _)
      · split
        · exact goes_goto (c := _)
        · refine .bind fun v _ => ?_
          split
          · split <;> exact goes_goto (c := _)
          · exact goes_goto (c := _)

/-- Reading the headers leads on in the reading phase or to `ERROR`. -/
theorem goes_readHeaders (c : HTTPClient) : Outcome Goes (httpClientWorktaskReadHeaders c) := by
  rw [httpClientWorktaskReadHeaders]
  simp only
  split
  · exact goes_headersComplete _
  · refine goes_receive rfl ?_ (goes_goto (Or.inl rfl))
    intro d
    split
    · exact goes_headersComplete _
    · exact goes_goto (c := d)

/-- What comes after the last size line leads to the delivery or to `ERROR`. -/
theorem goes_trailers (c : HTTPClient) : Outcome Goes (httpClientTrailers c) := by
  rw [httpClientTrailers]
  split
  · exact goes_goto (c := _)
  · simp only
    split
    · exact goes_goto (c := _)
    · exact goes_wait rfl

/-- A size line leads to its chunk or to the end of the body. -/
theorem goes_decipherChonkiness (c : HTTPClient) :
    Outcome Goes (httpClientWorktaskDecipherChonkiness c) := by
  rw [httpClientWorktaskDecipherChonkiness]
  simp only
  split
  · exact goes_wait rfl
  · refine .bind fun size _ => ?_
    cases size with
    | none => exact goes_goto (c := _)
    | some size =>
        simp only
        split
        · exact goes_trailers _
        · exact goes_goto (c := _)

/-- A chunk leads to the next size line or to `ERROR`. -/
theorem goes_readBodyChunked (c : HTTPClient) :
    Outcome Goes (httpClientWorktaskReadBodyChunked c) := by
  rw [httpClientWorktaskReadBodyChunked]
  split
  · exact goes_wait rfl
  · split
    · exact .error
    · rw [httpClientChunkEnd]
      split
      · exact goes_wait rfl
      · split <;> exact goes_goto (c := _)

/-- A body of a declared length leads to the delivery or to `ERROR`. -/
theorem goes_readBody (c : HTTPClient) : Outcome Goes (httpClientWorktaskReadBody c) := by
  refine goes_receive rfl ?_ ?_ <;> intro d <;> split <;> exact goes_goto (c := _)

/-- **A reading worker stays in the reading phase or fails**, except the delivery. -/
theorem goes_work (hs : c.state.reading = true) (h : c.state ≠ .returning) :
    Outcome Goes (httpClientWork c) := by
  rw [httpClientWork]
  cases hstate : c.state with
  | readingFirstline =>
      exact goes_receive rfl (goes_goto (Or.inr rfl)) goes_firstline
  | readingHeaders => exact goes_readHeaders c
  | decipherChonkiness => exact goes_decipherChonkiness c
  | readingBodyChunked => exact goes_readBodyChunked c
  | readingBody => exact goes_readBody c
  | returning => exact absurd hstate h
  | _ => simp [hstate, HTTPClientState.reading] at hs

end Goes

/-! ### The exchange -/

/-- The edges of the state graph. -/
def HTTPClientState.leadsTo : HTTPClientState → HTTPClientState → Bool
  | .connecting, s | .waitingConnect, s => s = .waitingConnect || s = .buildingRequest || s = .error
  | .buildingRequest, s => s = .sendingRequest || s = .error
  | .sendingRequest, s => s = .sendingRequest || s = .readingFirstline || s = .error
  | .returning, s => s = .disposing || s = .error
  | .initializing, s => s = .initializing
  | .disposing, s => s = .disposing
  | .error, s => s = .error
  | _, s => s.reading || s = .error

section Exchange

variable {e d : Exchange} {s : HTTPClientState}

/-- Every step comes from the dispatch. -/
theorem work_of_exchangeStep (h : exchangeStep e = .ok d) :
    ∃ s x, exchangeWork e = .ok (s, x) ∧ d = { x with state := s } := by
  rw [exchangeStep] at h
  cases hwork : exchangeWork e with
  | error f => simp [hwork, bind, Except.bind] at h
  | ok r =>
      simp only [hwork, bind, Except.bind, Except.ok.injEq] at h
      exact ⟨r.1, r.2, rfl, h.symm⟩

/-- A call runs the worker of the state and stores the state it returns. -/
theorem exchangeStep_of_work {x : Exchange} (h : exchangeWork e = .ok (s, x)) :
    exchangeStep e = .ok { x with state := s } := by
  simp [exchangeStep, h, bind, Except.bind]

/-- A reading worker of the whole client. -/
theorem work_of_read {worker : HTTPClient → Worked} {x : Exchange}
    (h : e.read worker = .ok (s, x)) :
    ∃ c, worker e.toHTTPClient = .ok (s, c) ∧ x = { e with toHTTPClient := c } := by
  rw [Exchange.read] at h
  cases hwork : worker e.toHTTPClient with
  | error f => simp [hwork, bind, Except.bind] at h
  | ok r =>
      simp only [hwork, bind, Except.bind, Except.ok.injEq, Prod.mk.injEq] at h
      obtain ⟨rfl, rfl⟩ := h
      exact ⟨r.2, rfl, rfl⟩

/-- A step of the delivering worker. -/
theorem exchangeStep_of_returning {c : HTTPClient} (hs : e.state = .returning)
    (h : httpClientWorktaskReturning e.toHTTPClient = .ok (s, c)) :
    exchangeStep e = .ok { e with toHTTPClient := { c with state := s } } := by
  refine exchangeStep_of_work (x := { e with toHTTPClient := c }) ?_
  simp only [exchangeWork, hs, Exchange.read, httpClientWork, h]
  rfl

/-- The connecting worker, case by case. -/
theorem connecting_cases (e : Exchange) :
    (∃ code, httpParserUrl e.url = .error code ∧ httpClientWorktaskConnecting e = (.error, e)) ∨
    ∃ parts s, httpParserUrl e.url = .ok parts ∧ httpClientWorktaskConnecting e =
        (s, { e with
          urlParts := parts
          connection := (transportInit e.connection parts e.blockingMode).2 }) ∧
      (s = .waitingConnect ∧
          (transportInit e.connection parts e.blockingMode).1 = .inProgress ∨
        s = .buildingRequest ∧ (transportInit e.connection parts e.blockingMode).1 = .success ∨
        s = .error ∧ (transportInit e.connection parts e.blockingMode).1 ≠ .success) := by
  rw [httpClientWorktaskConnecting]
  cases hurl : httpParserUrl e.url with
  | error code => exact Or.inl ⟨code, rfl, rfl⟩
  | ok parts =>
      refine Or.inr ⟨parts, ?_⟩
      simp only
      by_cases hprogress : (transportInit e.connection parts e.blockingMode).1 = .inProgress
      · rw [if_pos hprogress]
        exact ⟨_, trivial, rfl, Or.inl ⟨rfl, hprogress⟩⟩
      · rw [if_neg hprogress]
        by_cases hok : (transportInit e.connection parts e.blockingMode).1 = .success
        · rw [if_neg (not_not.mpr hok)]
          exact ⟨_, trivial, rfl, Or.inr (Or.inl ⟨rfl, hok⟩)⟩
        · rw [if_pos hok]
          exact ⟨_, trivial, rfl, Or.inr (Or.inr ⟨rfl, hok⟩)⟩

/-- A call in the state `CONNECTING` has no fault. -/
theorem exchangeStep_connecting (hs : e.state = .connecting) :
    exchangeStep e = .ok { (httpClientWorktaskConnecting e).2 with
      state := (httpClientWorktaskConnecting e).1 } := by
  refine exchangeStep_of_work ?_
  rw [exchangeWork, hs]

/-- What a worker call leaves alone: the receiver unless it delivers, the descriptor and the
record of the descriptors unless it connects, the slot of the scheduler, the method and the
body of the request. -/
structure Kept (e d : Exchange) : Prop where
  receiver : e.state ≠ .returning → d.receiver = e.receiver
  fd : e.state ≠ .connecting → d.connection.fd = e.connection.fd
  events : e.state ≠ .connecting → d.connection.events = e.connection.events
  task : d.task = e.task
  method : d.method = e.method
  reqBody : d.reqBody = e.reqBody

/-- What a worker call does: it goes along an edge and keeps what it does not touch. -/
def Transition (e : Exchange) (r : HTTPClientState × Exchange) : Prop :=
  e.state.leadsTo r.1 = true ∧ Kept e r.2

/-- Connecting leads to the request, to waiting, or to `ERROR`. -/
theorem connecting_transition (hs : e.state = .connecting) :
    Transition e (httpClientWorktaskConnecting e) := by
  obtain ⟨_, _, h⟩ | ⟨parts, s, _, h, hres⟩ := connecting_cases e
  · rw [h, Transition, hs]
    exact ⟨rfl, fun _ => rfl, fun _ => rfl, fun _ => rfl, rfl, rfl, rfl⟩
  · rw [h, Transition, hs]
    refine ⟨?_, fun _ => rfl, fun hne => absurd hs hne, fun hne => absurd hs hne, rfl, rfl, rfl⟩
    rcases hres with ⟨rfl, -⟩ | ⟨rfl, -⟩ | ⟨rfl, -⟩ <;> rfl

/-- What the end of a connect leaves alone: the descriptor, and what is written. -/
structure FinishKeeps (c d : Connection) : Prop where
  fd : d.fd = c.fd
  events : d.events = c.events
  writes : d.writes = c.writes
  sent : d.sent = c.sent

/-- `transport_finish_connect` changes nothing else of the connection. -/
theorem finishConnect_kept (c : Connection) : FinishKeeps c (transportFinishConnect c).2 := by
  rw [transportFinishConnect]
  split
  · exact ⟨rfl, rfl, rfl, rfl⟩
  · simp only
    split
    · exact ⟨rfl, rfl, rfl, rfl⟩
    · split
      · split
        · exact ⟨rfl, rfl, rfl, rfl⟩
        · split <;> split <;> exact ⟨rfl, rfl, rfl, rfl⟩
      · exact ⟨rfl, rfl, rfl, rfl⟩

/-- Waiting for the connect leads to the request, or stays, or fails. -/
theorem waitingConnect_transition (hs : e.state = .waitingConnect) :
    Transition e (httpClientWorktaskWaitingConnect e) := by
  obtain ⟨hfd, hevents, -, -⟩ := finishConnect_kept e.connection
  rw [httpClientWorktaskWaitingConnect, Transition, hs]
  simp only
  split
  · exact ⟨rfl, fun _ => rfl, fun _ => hfd, fun _ => hevents, rfl, rfl, rfl⟩
  · split
    · exact ⟨rfl, fun _ => rfl, fun _ => hfd, fun _ => hevents, rfl, rfl, rfl⟩
    · exact ⟨rfl, fun _ => rfl, fun _ => hfd, fun _ => hevents, rfl, rfl, rfl⟩

/-- Building the request leads to sending it, or to `ERROR`. -/
theorem buildRequest_transition (hs : e.state = .buildingRequest) :
    Transition e (httpClientWorktaskBuildRequest e) := by
  rw [httpClientWorktaskBuildRequest, Transition, hs]
  split
  · exact ⟨rfl, fun _ => rfl, fun _ => rfl, fun _ => rfl, rfl, rfl, rfl⟩
  · split <;> exact ⟨rfl, fun _ => rfl, fun _ => rfl, fun _ => rfl, rfl, rfl, rfl⟩

/-- A write leaves the descriptor alone. -/
theorem write_descriptor (c : Connection) (buf : Bytes) :
    (transportWrite c buf).2.fd = c.fd ∧ (transportWrite c buf).2.events = c.events := by
  rw [transportWrite]
  split <;> exact ⟨rfl, rfl⟩

/-- What is done after a write leads on to reading, or stays, or fails. -/
theorem written_transition {x : Exchange} (hs : e.state = .sendingRequest) (hx : Kept e x)
    (w : WriteResult) : Transition e (httpClientWritten x w) := by
  obtain ⟨hreceiver, hfd, hevents, htask, hmethod, hbody⟩ := hx
  rw [httpClientWritten.eq_def, Transition, hs]
  split
  · exact ⟨rfl, hreceiver, hfd, hevents, htask, hmethod, hbody⟩
  · simp only
    split <;> exact ⟨rfl, hreceiver, hfd, hevents, htask, hmethod, hbody⟩
  · split
    · exact ⟨rfl, hreceiver, hfd, hevents, htask, hmethod, hbody⟩
    · split <;> exact ⟨rfl, hreceiver, hfd, hevents, htask, hmethod, hbody⟩

/-- Sending the request leads on to reading, or stays, or fails. -/
theorem sendRequest_transition {r : HTTPClientState × Exchange} (hs : e.state = .sendingRequest)
    (h : httpClientWorktaskSendRequest e = .ok r) : Transition e r := by
  rw [httpClientWorktaskSendRequest] at h
  simp only at h
  split at h
  · cases h
  · obtain rfl := Except.ok.inj h
    refine written_transition hs ?_ _
    obtain ⟨hfd, hevents⟩ := write_descriptor e.connection
      (((e.requestBuffer.getD []).drop e.bytesSent).take
        (toSize (e.requestLength - e.bytesSent)))
    exact ⟨fun _ => rfl, fun _ => hfd, fun _ => hevents, rfl, rfl, rfl⟩

/-- The delivery ends the exchange. -/
theorem returning_goes {c d : HTTPClient} (h : httpClientWorktaskReturning c = .ok (s, d)) :
    s = .disposing ∨ s = .error := by
  rw [httpClientWorktaskReturning] at h
  split at h
  · split at h <;> obtain ⟨rfl, -⟩ := Prod.mk.injEq .. ▸ Except.ok.inj h <;> simp
  · split at h <;> obtain ⟨rfl, -⟩ := Prod.mk.injEq .. ▸ Except.ok.inj h <;> simp

/-- **One worker call** goes along an edge and keeps what it does not touch. -/
theorem exchangeWork_transition {r : HTTPClientState × Exchange} (h : exchangeWork e = .ok r) :
    Transition e r := by
  have hread : ∀ {s x}, e.state.leadsTo s = true → e.read httpClientWork = .ok (s, x) →
      Transition e (s, x) := by
    intro s x hs hx
    obtain ⟨c, hc, rfl⟩ := work_of_read hx
    exact ⟨hs, fun hne => receiver_of_work hne hc, fun _ => rfl, fun _ => rfl, rfl, rfl, rfl⟩
  rw [exchangeWork] at h
  cases hs : e.state with
  | connecting =>
      rw [hs] at h
      exact Except.ok.inj h ▸ connecting_transition hs
  | waitingConnect =>
      rw [hs] at h
      exact Except.ok.inj h ▸ waitingConnect_transition hs
  | buildingRequest =>
      rw [hs] at h
      exact Except.ok.inj h ▸ buildRequest_transition hs
  | sendingRequest =>
      rw [hs] at h
      exact sendRequest_transition hs h
  | returning =>
      rw [hs] at h
      obtain ⟨c, hc, -⟩ := work_of_read h
      rw [httpClientWork, hs] at hc
      refine hread ?_ h
      rcases returning_goes hc with hr | hr <;> rw [hs, hr] <;> rfl
  | readingFirstline | readingHeaders | decipherChonkiness | readingBodyChunked | readingBody =>
      rw [hs] at h
      obtain ⟨c, hc, -⟩ := work_of_read h
      have hgoes := goes_work (c := e.toHTTPClient) (by rw [hs]; rfl) (by simp [hs]) _ _ hc
      refine hread ?_ h
      rw [hs]
      rcases hgoes with hr | hr <;> simp [HTTPClientState.leadsTo, hr]
  | initializing | disposing | error =>
      rw [hs] at h
      obtain ⟨c, hc, -⟩ := work_of_read h
      rw [httpClientWork, hs] at hc
      obtain ⟨hr, -⟩ := Prod.mk.injEq .. ▸ Except.ok.inj hc
      refine hread ?_ h
      rw [hs, ← hr]
      rfl

/-- Every call follows an arrow of the state machine. -/
theorem exchangeStep_leadsTo (h : exchangeStep e = .ok d) :
    e.state.leadsTo d.state = true := by
  obtain ⟨s, x, hwork, rfl⟩ := work_of_exchangeStep h
  exact (exchangeWork_transition hwork).1

/-- Every call keeps what its worker has no business with. -/
theorem exchangeStep_kept (h : exchangeStep e = .ok d) : Kept e d := by
  obtain ⟨s, x, hwork, rfl⟩ := work_of_exchangeStep h
  obtain ⟨hreceiver, hfd, hevents, htask, hmethod, hbody⟩ := (exchangeWork_transition hwork).2
  exact ⟨hreceiver, hfd, hevents, htask, hmethod, hbody⟩

end Exchange

/-! ### Fields that most workers do not look at -/

/-- The fields that no worker changes and that only some workers look at. -/
structure Overlay extends Receiver where
  method : HTTPMethod
  task : Option ℕ

/-- The client with other values of these fields. -/
def Exchange.overlay (e : Exchange) (o : Overlay) : Exchange :=
  { e with
    toHTTPClient := e.toHTTPClient.withReceiver o.toReceiver
    method := o.method
    task := o.task }

/-- What a worker returns, with other values of these fields. -/
def overlaid (o : Overlay) (p : HTTPClientState × Exchange) : HTTPClientState × Exchange :=
  (p.1, p.2.overlay o)

section Overlay

variable {e : Exchange} {o : Overlay}

/-- The overlay is put on both branches. -/
theorem overlaid_ite (p : Prop) [Decidable p] (x y : HTTPClientState × Exchange) :
    overlaid o (if p then x else y) = if p then overlaid o x else overlaid o y :=
  apply_ite _ _ _ _

/-- Connecting looks at the blocking mode, and at nothing else of the overlay. -/
theorem connecting_overlay (h : o.blockingMode = e.blockingMode) :
    httpClientWorktaskConnecting (e.overlay o) = overlaid o (httpClientWorktaskConnecting e) := by
  have hmode : (e.overlay o).blockingMode = e.blockingMode := h
  have hurl : (e.overlay o).url = e.url := rfl
  rw [httpClientWorktaskConnecting, httpClientWorktaskConnecting, hmode, hurl]
  cases httpParserUrl e.url with
  | error code => rfl
  | ok parts =>
      simp only [overlaid_ite]
      rfl

/-- Waiting for the connect does not look at the overlay. -/
theorem waitingConnect_overlay :
    httpClientWorktaskWaitingConnect (e.overlay o) =
      overlaid o (httpClientWorktaskWaitingConnect e) := by
  simp only [httpClientWorktaskWaitingConnect, overlaid_ite]
  rfl

/-- Building the request looks at the method as far as the text depends on it. -/
theorem buildRequest_overlay
    (h : requestText o.method e.path e.urlParts.host.bytes e.bodyLen =
      requestText e.method e.path e.urlParts.host.bytes e.bodyLen) :
    httpClientWorktaskBuildRequest (e.overlay o) =
      overlaid o (httpClientWorktaskBuildRequest e) := by
  have htext : requestText (e.overlay o).method (e.overlay o).path
      (e.overlay o).urlParts.host.bytes (e.overlay o).bodyLen =
      requestText e.method e.path e.urlParts.host.bytes e.bodyLen := h
  simp only [httpClientWorktaskBuildRequest, htext, overlaid_ite]
  rfl

/-- What is done after a write does not look at the overlay. -/
theorem written_overlay (w : WriteResult) :
    httpClientWritten (e.overlay o) w = overlaid o (httpClientWritten e w) := by
  match w with
  | .wrote 0 => rfl
  | .wrote (n + 1) =>
      simp only [httpClientWritten, overlaid_ite]
      rfl
  | .failed errno =>
      simp only [httpClientWritten, overlaid_ite]
      rfl

/-- Sending the request does not look at the overlay. -/
theorem sendRequest_overlay :
    httpClientWorktaskSendRequest (e.overlay o) =
      (httpClientWorktaskSendRequest e).map (overlaid o) := by
  simp only [httpClientWorktaskSendRequest]
  rw [apply_ite (Except.map (overlaid o))]
  refine ite_congr rfl (fun _ => rfl) fun _ => ?_
  exact congrArg Except.ok (written_overlay (e := { e with
    connection := (transportWrite e.connection (((e.requestBuffer.getD []).drop e.bytesSent).take
      (toSize (e.requestLength - e.bytesSent)))).2 }) _)

/-- No reading worker but the last one looks at the overlay. -/
theorem read_overlay (h : e.state ≠ .returning) :
    (e.overlay o).read httpClientWork = (e.read httpClientWork).map (overlaid o) := by
  have hwork := httpClientWork_withReceiver (c := e.toHTTPClient) (r := o.toReceiver) h
  have hsame : (e.overlay o).toHTTPClient = e.toHTTPClient.withReceiver o.toReceiver := rfl
  rw [Exchange.read, Exchange.read, hsame, hwork]
  cases httpClientWork e.toHTTPClient <;> rfl

/-- **A worker call commutes with a change of these fields**, where it does not look at
them. -/
theorem exchangeStep_overlay (hmode : e.state = .connecting → o.blockingMode = e.blockingMode)
    (htext : e.state = .buildingRequest →
      requestText o.method e.path e.urlParts.host.bytes e.bodyLen =
        requestText e.method e.path e.urlParts.host.bytes e.bodyLen)
    (hs : e.state ≠ .returning) :
    exchangeStep (e.overlay o) = (exchangeStep e).map fun d => d.overlay o := by
  have hstate : (e.overlay o).state = e.state := rfl
  have hwork : exchangeWork (e.overlay o) = (exchangeWork e).map (overlaid o) := by
    rw [exchangeWork, exchangeWork, hstate]
    cases hcase : e.state with
    | connecting => exact congrArg Except.ok (connecting_overlay (hmode hcase))
    | waitingConnect => exact congrArg Except.ok waitingConnect_overlay
    | buildingRequest => exact congrArg Except.ok (buildRequest_overlay (htext hcase))
    | sendingRequest => exact sendRequest_overlay
    | _ => exact read_overlay hs
  rw [exchangeStep, exchangeStep, hwork]
  cases exchangeWork e <;> rfl

end Overlay

end MaestroCore
