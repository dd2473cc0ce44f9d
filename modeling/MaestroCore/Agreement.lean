import MaestroCore.BlockingOutput
import MaestroCore.RequestText

/-!
# The Two Drivers Agree

`http_blocking_work` and `http_client_taskwork` run the same workers. They differ in when they
look at the clock, in the states they know and in what they do at the end: the blocking loop
stops at a timeout and returns, the scheduled client waits for `next_retry_at` in some of its
states, and disposes of itself.

Everything that a driver adds to the client is collected in a `Driver`. The workers between
the connect and the delivery do not look at it, so a scheduled client and a blocking call that
are given the same answers by the transport stay in step, up to the waiting.

## Main results

* `exchangeStep_driven`: two clients that differ only in their driver take the same step.
* `Live.step`: so do a scheduled client and a blocking call, up to the end of both.
* `drivers_agree`: they write the same bytes, and deliver the same body.
-/

open CLang Run

namespace MaestroCore

/-! ### Drivers -/

/-- What a driver adds to the client: where the body goes, the method and the slot, the clock
and the time of the next retry, and the connection except for what is written to it. -/
structure Driver extends Overlay where
  nextRetryAt : UInt64
  clock : ℕ → UInt64
  connection : Connection

/-- The client with another driver. -/
def Exchange.driven (e : Exchange) (d : Driver) : Exchange :=
  { e.overlay d.toOverlay with
    nextRetryAt := d.nextRetryAt
    clock := d.clock
    connection := { d.connection with writes := e.connection.writes, sent := e.connection.sent } }

/-- The second client is the first one with another driver, of which the overlay is known. -/
def Follows (o : Overlay) (e x : Exchange) : Prop :=
  ∃ d : Driver, d.toOverlay = o ∧ x = e.driven d

section Driven

variable {e x : Exchange} {d : Driver} {o : Overlay}

/-- A reading of the clock does not matter. -/
theorem Follows.ticked (h : Follows o e x) : Follows o e.ticked x.ticked := by
  obtain ⟨d, rfl, rfl⟩ := h
  exact ⟨{ d with clock := fun k => d.clock (k + 1) }, rfl, rfl⟩

/-- The clock does not matter. -/
theorem Follows.clock (h : Follows o e x) (clock : ℕ → UInt64) :
    Follows o { e with clock := clock } x := by
  obtain ⟨d, rfl, rfl⟩ := h
  exact ⟨d, rfl, rfl⟩

/-- The states can change together. -/
theorem Follows.state (h : Follows o e x) (s : HTTPClientState) :
    Follows o { e with state := s } { x with state := s } := by
  obtain ⟨d, rfl, rfl⟩ := h
  exact ⟨d, rfl, rfl⟩

/-- Two results of a worker that differ only in their driver. -/
def FollowsTo (o : Overlay) (p q : HTTPClientState × Exchange) : Prop :=
  q.1 = p.1 ∧ Follows o p.2 q.2

/-- The requests are the same when neither has a body and the methods print the same name. -/
theorem buildRequest_follows (h : Follows o e x) (hbody : e.reqBody = none)
    (hmethod : methodStr o.method = methodStr e.method) :
    FollowsTo o (httpClientWorktaskBuildRequest e) (httpClientWorktaskBuildRequest x) := by
  obtain ⟨d, rfl, rfl⟩ := h
  have hlen := bodyLen_of_none hbody
  have hlen' : (e.driven d).bodyLen = 0 := hlen
  have htext : requestText (e.driven d).method (e.driven d).path
      (e.driven d).urlParts.host.bytes 0 =
      requestText e.method e.path e.urlParts.host.bytes 0 :=
    requestText_congr hmethod e.path e.urlParts.host.bytes
  rw [buildRequest_eq (by rw [hlen]; decide), buildRequest_eq (by rw [hlen']; decide), hlen, hlen',
    htext]
  generalize requestText e.method e.path e.urlParts.host.bytes 0 = text
  exact ⟨rfl, d, rfl, rfl⟩

/-- After a write only the time of the next retry depends on the driver. -/
theorem written_follows (h : Follows o e x) (w : WriteResult) :
    FollowsTo o (httpClientWritten e w) (httpClientWritten x w) := by
  obtain ⟨d, rfl, rfl⟩ := h
  have hlength : (e.driven d).requestLength = e.requestLength := rfl
  have hsent : (e.driven d).bytesSent = e.bytesSent := rfl
  have hretries : (e.driven d).retries = e.retries := rfl
  match w with
  | .wrote 0 =>
      exact ⟨rfl, { d with nextRetryAt := d.clock 0 + 1000, clock := fun k => d.clock (k + 1) },
        rfl, rfl⟩
  | .wrote (n + 1) =>
      simp only [httpClientWritten, hlength, hsent]
      by_cases hdone : toSize e.requestLength ≤ e.bytesSent + (n + 1)
      · rw [if_pos hdone, if_pos hdone]
        exact ⟨rfl, d, rfl, rfl⟩
      · rw [if_neg hdone, if_neg hdone]
        exact ⟨rfl, { d with nextRetryAt := d.clock 0 + 100, clock := fun k => d.clock (k + 1) },
          rfl, rfl⟩
  | .failed errno =>
      simp only [httpClientWritten, hretries]
      by_cases htransient : errno.transient = true
      · rw [if_pos htransient, if_pos htransient]
        exact ⟨rfl, { d with nextRetryAt := d.clock 0 + 100, clock := fun k => d.clock (k + 1) },
          rfl, rfl⟩
      · rw [if_neg htransient, if_neg htransient]
        by_cases hretry : e.retries < 3
        · rw [if_pos hretry, if_pos hretry]
          exact ⟨rfl, { d with nextRetryAt := d.clock 0 + 1000, clock := fun k => d.clock (k + 1) },
            rfl, rfl⟩
        · rw [if_neg hretry, if_neg hretry]
          exact ⟨rfl, d, rfl, rfl⟩

/-- A write looks only at what the transport answers to writes. -/
theorem transportWrite_other (c c' : Connection) (buf : Bytes) :
    transportWrite { c' with writes := c.writes, sent := c.sent } buf =
      ((transportWrite c buf).1, { c' with
        writes := (transportWrite c buf).2.writes
        sent := (transportWrite c buf).2.sent }) := by
  rw [transportWrite, transportWrite]
  cases hw : c.writes with
  | nil => simp only [hw]
  | cons w later => cases w <;> rfl

/-- The writes accept the same bytes. -/
theorem sendRequest_follows (h : Follows o e x) :
    Lockstep (FollowsTo o) (httpClientWorktaskSendRequest e) (httpClientWorktaskSendRequest x) := by
  obtain ⟨d, rfl, rfl⟩ := h
  have hlength : (e.driven d).requestLength = e.requestLength := rfl
  have hsent : (e.driven d).bytesSent = e.bytesSent := rfl
  have hbuffer : (e.driven d).requestBuffer = e.requestBuffer := rfl
  have hconn : (e.driven d).connection =
    { d.connection with writes := e.connection.writes, sent := e.connection.sent } := rfl
  simp only [httpClientWorktaskSendRequest, hlength, hsent, hbuffer, hconn, transportWrite_other]
  split
  · exact .fault _
  · exact .ok (written_follows ⟨d, rfl, rfl⟩ _)

/-- The reading workers do not look at the driver. -/
theorem read_follows (h : Follows o e x) (hs : e.state ≠ .returning) :
    Lockstep (FollowsTo o) (e.read httpClientWork) (x.read httpClientWork) := by
  obtain ⟨d, rfl, rfl⟩ := h
  have hwork := httpClientWork_withReceiver (c := e.toHTTPClient) (r := d.toReceiver) hs
  have hsame : (e.driven d).toHTTPClient = e.toHTTPClient.withReceiver d.toReceiver := rfl
  rw [Exchange.read, Exchange.read, hsame, hwork]
  cases httpClientWork e.toHTTPClient with
  | error f => exact .fault f
  | ok p => exact .ok ⟨rfl, d, rfl, rfl⟩

/-- **Two clients that differ only in their driver take the same step**, between the connect
and the delivery. -/
theorem exchangeStep_driven (h : Follows o e x) (hworks : blockingWorks e.state = true)
    (hconnecting : e.state ≠ .connecting) (hreturning : e.state ≠ .returning)
    (hbody : e.reqBody = none) (hmethod : methodStr o.method = methodStr e.method) :
    Lockstep (Follows o) (exchangeStep e) (exchangeStep x) := by
  have hstate : x.state = e.state := by
    obtain ⟨d, -, rfl⟩ := h
    rfl
  have hwork : Lockstep (FollowsTo o) (exchangeWork e) (exchangeWork x) := by
    rw [exchangeWork, exchangeWork, hstate]
    cases hs : e.state with
    | connecting => exact absurd hs hconnecting
    | waitingConnect =>
        rw [hs] at hworks
        cases hworks
    | buildingRequest => exact .ok (buildRequest_follows h hbody hmethod)
    | sendingRequest => exact sendRequest_follows h
    | _ => exact read_follows h hreturning
  rw [exchangeStep, exchangeStep]
  generalize exchangeWork e = r, exchangeWork x = r' at hwork
  cases hwork with
  | fault f => exact .fault f
  | @ok p q hpq =>
      obtain ⟨hfst, hsnd⟩ := hpq
      refine .ok ?_
      simp only [hfst]
      exact hsnd.state p.1

end Driven

/-! ### The connect -/

/-- The end of a connection writes nothing of the request. -/
theorem dispose_writes (c : Connection) :
    (tcpClientDispose c).writes = c.writes ∧ (tcpClientDispose c).sent = c.sent := by
  rw [tcpClientDispose]
  split <;> exact ⟨rfl, rfl⟩

/-- The loop over the addresses in blocking mode writes nothing of the request. -/
theorem blockingLoop_writes (attempts : List Attempt) (lastErr : ErrorCode) (c : Connection) :
    (tcpClientBlockingLoop attempts lastErr c).2.writes = c.writes ∧
      (tcpClientBlockingLoop attempts lastErr c).2.sent = c.sent := by
  induction attempts generalizing lastErr c with
  | nil => exact ⟨rfl, rfl⟩
  | cons a rest ih =>
      rw [tcpClientBlockingLoop]
      cases a.socket with
      | none => exact ih lastErr c
      | some fd =>
          simp only
          split
          · split
            · split
              · exact ⟨rfl, rfl⟩
              · exact ih _ ((c.socket fd).close fd)
            · exact ih _ ((c.socket fd).close fd)
          · exact ih _ ((c.socket fd).close fd)

/-- The loop over the addresses writes nothing of the request. -/
theorem initLoop_writes (attempts : List Attempt) (c : Connection) :
    (tcpClientInitLoop attempts c).2.writes = c.writes ∧
      (tcpClientInitLoop attempts c).2.sent = c.sent := by
  induction attempts generalizing c with
  | nil => exact ⟨rfl, rfl⟩
  | cons a rest ih =>
      rw [tcpClientInitLoop]
      cases a.socket with
      | none => exact ih c
      | some fd =>
          simp only
          split
          · split
            · exact ⟨rfl, rfl⟩
            · exact ⟨rfl, rfl⟩
            · exact ih ((c.socket fd).close fd)
          · exact ih ((c.socket fd).close fd)

/-- A connect in blocking mode writes nothing of the request. -/
theorem blockingInit_writes (c : Connection) :
    (tcpClientBlockingInit c).2.writes = c.writes ∧ (tcpClientBlockingInit c).2.sent = c.sent := by
  rw [tcpClientBlockingInit]
  simp only
  split
  · exact ⟨rfl, rfl⟩
  · exact blockingLoop_writes _ _ { c with fd := -1 }

/-- A connect writes nothing of the request. -/
theorem init_writes (c : Connection) :
    (tcpClientInit c).2.writes = c.writes ∧ (tcpClientInit c).2.sent = c.sent := by
  rw [tcpClientInit]
  simp only
  split
  · exact ⟨rfl, rfl⟩
  · exact initLoop_writes _ { c with fd := -1 }

/-- The connect writes nothing of the request. -/
theorem transportInit_writes (c : Connection) (parts : URLParts) (mode : Bool) :
    (transportInit c parts mode).2.writes = c.writes ∧
      (transportInit c parts mode).2.sent = c.sent := by
  rw [transportInit]
  split
  · exact ⟨rfl, rfl⟩
  · simp only
    split
    · generalize hr : (if mode = true then tcpClientBlockingInit _ else tcpClientInit _) = r
      have hwrites : r.2.writes = c.writes ∧ r.2.sent = c.sent := by
        rw [← hr]
        split
        · exact blockingInit_writes _
        · exact init_writes _
      split
      · exact hwrites
      · split
        · split
          · exact hwrites
          · exact ⟨(dispose_writes r.2).1.trans hwrites.1, (dispose_writes r.2).2.trans hwrites.2⟩
        · exact hwrites
    · exact ⟨rfl, rfl⟩

/-! ### The two clients -/

/-- The fields of a blocking `GET` before the delivery. -/
def blockingOverlay : Overlay where
  blockingMode := true
  blockingOut := some {}
  onSuccess := false
  responses := []
  method := .get
  task := none

/-- A scheduled client and a blocking call before the delivery. -/
structure Live (e : Exchange) (b : BlockingCall) : Prop where
  follows : Follows blockingOverlay e b.exchange
  result : b.result = none
  time : b.timeoutMs ≤ 0
  works : blockingWorks e.state = true
  receiver : e.receiver = ⟨false, none, true, []⟩
  method : e.method = .options
  body : e.reqBody = none
  connects : e.state = .connecting → ∀ parts, httpParserUrl e.url = .ok parts →
    (transportInit e.connection parts false).1 = .success ∧
      (transportInit b.exchange.connection parts true).1 = .success

/-- A scheduled client and a blocking call that have written the same bytes and are not
further apart than their ends. -/
inductive Agree (e : Exchange) (b : BlockingCall) : Prop
  | live (h : Live e b)
  | delivered (body : Bytes) (hstate : e.state = .disposing)
      (hresponse : e.responses = [body ++ [0]])
      (hsent : e.connection.sent = b.exchange.connection.sent)
      (hout : b.exchange.blockingOut = some ⟨some (body ++ [0]), body.length⟩)
      (hresult : b.result = none ∧ b.exchange.state = .disposing ∧ b.timeoutMs ≤ 0 ∨
        b.result = some .success)
  | failed (hstate : e.state = .error ∨ e.state = .disposing) (hresponse : e.responses = [])
      (hsent : e.connection.sent = b.exchange.connection.sent)
      (hresult : b.result = none ∧ b.exchange.state = .error ∧ b.timeoutMs ≤ 0 ∨
        b.result = some .io)

/-- Both have sent the same bytes. -/
theorem Follows.sent {o : Overlay} {e x : Exchange} (h : Follows o e x) :
    e.connection.sent = x.connection.sent := by
  obtain ⟨d, -, rfl⟩ := h
  rfl

/-- The client and the call have sent the same bytes. -/
theorem Agree.sent {e : Exchange} {b : BlockingCall} (h : Agree e b) :
    e.connection.sent = b.exchange.connection.sent := by
  cases h with
  | live h => exact h.follows.sent
  | delivered _ _ _ hsent _ _ => exact hsent
  | failed _ _ hsent _ => exact hsent

/-- A call without a timeout never expires. -/
theorem not_expired {b : BlockingCall} (h : b.timeoutMs ≤ 0) (k : ℕ) : b.expired k = false := by
  rw [BlockingCall.expired, timedOut]
  simp [not_lt.mpr h]

section Live

variable {e : Exchange} {b : BlockingCall}

/-- The clock of the scheduled client does not matter. -/
theorem Live.clock (h : Live e b) (clock : ℕ → UInt64) : Live { e with clock := clock } b :=
  ⟨h.follows.clock clock, h.result, h.time, h.works, h.receiver, h.method, h.body, h.connects⟩

/-- One iteration of the blocking call is one worker call. -/
theorem Live.blockingStep (h : Live e b) :
    httpBlockingStep b =
      (exchangeStep b.exchange.ticked).map fun x => { b with exchange := x } := by
  refine blockingStep_eq_work h.result (not_expired h.time 0) ?_
  obtain ⟨d, -, hd⟩ := h.follows
  rw [hd]
  exact h.works

/-- The delivery to the callback. -/
theorem exchangeStep_callback {e : Exchange} (hs : e.state = .returning)
    (hmode : e.blockingMode = false) (hcallback : e.onSuccess = true) :
    exchangeStep e = .ok { e with
      state := .disposing
      responses := e.responses ++ [deliverySource e.toHTTPClient ++ [0]] } := by
  have hwork : httpClientWorktaskReturning e.toHTTPClient = .ok (.disposing,
      { e.toHTTPClient with
        responses := e.responses ++ [deliverySource e.toHTTPClient ++ [0]] }) := by
    rw [httpClientWorktaskReturning, if_neg (by simp [hmode]), if_pos hcallback]
    rfl
  exact exchangeStep_of_returning hs hwork

/-- Both clients deliver the same bytes. -/
theorem Live.step_returning (h : Live e b) (hs : e.state = .returning) :
    Lockstep Agree (exchangeStep e.ticked) (httpBlockingStep b) := by
  have hmode : e.blockingMode = false := congrArg Receiver.blockingMode h.receiver
  have hcallback : e.onSuccess = true := congrArg Receiver.onSuccess h.receiver
  have hnone : e.responses = [] := congrArg Receiver.responses h.receiver
  obtain ⟨d, hd, hx⟩ := h.follows
  have hx' : b.exchange.ticked = e.driven { d with clock := fun k => d.clock (k + 1) } := by
    rw [hx]
    rfl
  have hmode' : d.blockingMode = true := by rw [hd]; rfl
  have hout' : d.blockingOut = some {} := by rw [hd]; rfl
  rw [h.blockingStep, exchangeStep_callback (e := e.ticked) hs hmode hcallback,
    exchangeStep_deliver (e := b.exchange.ticked) (by rw [hx']; exact hs)
      (by rw [hx']; exact hmode') (by rw [hx']; exact hout')]
  refine .ok (.delivered (deliverySource e.toHTTPClient) rfl ?_ h.follows.sent ?_
    (Or.inl ⟨h.result, rfl, h.time⟩))
  · exact congrArg (· ++ _) hnone
  · rw [hx']
    rfl

/-- Both clients reject the URL, or connect. -/
theorem Live.step_connecting (h : Live e b) (hs : e.state = .connecting) :
    Lockstep Agree (exchangeStep e.ticked) (httpBlockingStep b) := by
  have hmode : e.ticked.blockingMode = false := congrArg Receiver.blockingMode h.receiver
  have hnone : e.responses = [] := congrArg Receiver.responses h.receiver
  have hconnects := h.connects hs
  obtain ⟨d, hd, hx⟩ := h.follows
  have hx' : b.exchange.ticked = e.driven { d with clock := fun k => d.clock (k + 1) } := by
    rw [hx]
    rfl
  have hs' : b.exchange.ticked.state = .connecting := by rw [hx']; exact hs
  have hmode' : b.exchange.ticked.blockingMode = true := by
    rw [hx']
    exact congrArg (fun o : Overlay => o.blockingMode) hd
  have hurl : b.exchange.ticked.url = e.ticked.url := by rw [hx']; rfl
  rw [h.blockingStep, exchangeStep_connecting (e := e.ticked) hs,
    exchangeStep_connecting (e := b.exchange.ticked) hs', httpClientWorktaskConnecting,
    httpClientWorktaskConnecting, hurl, hmode, hmode']
  refine .ok ?_
  cases hparse : httpParserUrl e.ticked.url with
  | error code =>
      exact .failed (Or.inl rfl) hnone h.follows.sent (Or.inl ⟨h.result, rfl, h.time⟩)
  | ok parts =>
      obtain ⟨hinit, hinit'⟩ := hconnects parts hparse
      have hinit₁ : (transportInit e.ticked.connection parts false).1 = .success := hinit
      have hinit₂ : (transportInit b.exchange.ticked.connection parts true).1 = .success := hinit'
      obtain ⟨hw, hsent⟩ := transportInit_writes e.ticked.connection parts false
      obtain ⟨hw', hsent'⟩ := transportInit_writes b.exchange.ticked.connection parts true
      have hwx : b.exchange.ticked.connection.writes = e.ticked.connection.writes := by
        rw [hx']
        rfl
      have hsx : b.exchange.ticked.connection.sent = e.ticked.connection.sent := by
        rw [hx']
        rfl
      simp only [hinit₁, hinit₂, reduceCtorEq, if_false, ne_eq, not_true_eq_false]
      refine .live ⟨⟨{ d with
          clock := fun k => d.clock (k + 1)
          connection := (transportInit b.exchange.ticked.connection parts true).2 }, hd, ?_⟩,
        h.result, h.time, rfl, h.receiver, h.method, h.body, fun hne => by cases hne⟩
      have hwrites := hw.trans (hwx.symm.trans hw'.symm)
      have hsents := hsent.trans (hsx.symm.trans hsent'.symm)
      simp only [Exchange.driven, hwrites, hsents]
      generalize (transportInit b.exchange.ticked.connection parts true).2 = c
      rw [hx']
      rfl

/-- Between the connect and the delivery a worker leads to another worker or to an error. -/
theorem works_of_leadsTo {s s' : HTTPClientState} (h : s.leadsTo s' = true)
    (hworks : blockingWorks s = true) (hconnecting : s ≠ .connecting)
    (hreturning : s ≠ .returning) (herror : s' ≠ .error) :
    blockingWorks s' = true ∧ s' ≠ .connecting := by
  cases s <;> simp only [blockingWorks, Bool.false_eq_true, ne_eq, not_true_eq_false] at * <;>
    cases s' <;> simp_all [HTTPClientState.leadsTo, HTTPClientState.reading]

/-- Between the connect and the delivery both clients do the same. -/
theorem Live.step_between (h : Live e b) (hconnecting : e.state ≠ .connecting)
    (hreturning : e.state ≠ .returning) :
    Lockstep Agree (exchangeStep e.ticked) (httpBlockingStep b) := by
  have hlock := exchangeStep_driven h.follows.ticked h.works hconnecting hreturning h.body
    (by rw [show e.ticked.method = .options from h.method]; rfl)
  rw [h.blockingStep]
  cases hstep : exchangeStep e.ticked with
  | error f =>
      rw [hstep] at hlock
      generalize exchangeStep b.exchange.ticked = r at hlock
      cases hlock with
      | fault => exact .fault f
  | ok e' =>
      rw [hstep] at hlock
      generalize exchangeStep b.exchange.ticked = r at hlock
      cases hlock with
      | @ok _ x hfollows =>
          have hkept := exchangeStep_kept hstep
          have hleads := exchangeStep_leadsTo hstep
          have hreceiver : e'.receiver = ⟨false, none, true, []⟩ :=
            (hkept.receiver hreturning).trans h.receiver
          refine .ok ?_
          by_cases herror : e'.state = .error
          · have hstate : x.state = .error := by
              obtain ⟨d, -, rfl⟩ := hfollows
              exact herror
            exact .failed (Or.inl herror) (congrArg Receiver.responses hreceiver) hfollows.sent
              (Or.inl ⟨h.result, hstate, h.time⟩)
          · refine .live ⟨hfollows, h.result, h.time, ?_, hreceiver, hkept.method.trans h.method,
              hkept.reqBody.trans h.body, fun hc => ?_⟩
            · exact (works_of_leadsTo hleads h.works hconnecting hreturning herror).1
            · exact absurd hc (works_of_leadsTo hleads h.works hconnecting hreturning herror).2

/-- **A scheduled client and a blocking call take the same step** when neither waits. -/
theorem Live.step (h : Live e b) :
    Lockstep Agree (exchangeStep e.ticked) (httpBlockingStep b) := by
  by_cases hconnecting : e.state = .connecting
  · exact h.step_connecting hconnecting
  · by_cases hreturning : e.state = .returning
    · exact h.step_returning hreturning
    · exact h.step_between hconnecting hreturning

end Live

/-! ### The scheduled client -/

section Scheduled

variable {e e' : Exchange} {b b' : BlockingCall}

/-- The client waits for the time of its next retry. -/
def Waiting (e : Exchange) : Prop :=
  waitsForRetry e.state = true ∧ e.clock 0 < e.nextRetryAt

/-- A client that is at work waits or calls its worker. -/
theorem taskwork_of_works (hworks : blockingWorks e.state = true) :
    httpClientTaskwork e =
      if waitsForRetry e.state = true ∧ e.clock 0 < e.nextRetryAt then .ok e.ticked
      else exchangeStep e.ticked := by
  rw [httpClientTaskwork]
  have hstate : e.ticked.state = e.state := rfl
  simp only [hstate]
  split
  case h_1 hs | h_2 hs | h_3 hs =>
    rw [hs] at hworks
    cases hworks
  case h_4 => rfl

/-- A client that waits for its time does nothing. -/
theorem taskwork_waiting (hworks : blockingWorks e.state = true) (h : Waiting e) :
    httpClientTaskwork e = .ok e.ticked := by
  rw [taskwork_of_works hworks]
  exact if_pos h

/-- A client that does not wait runs its worker. -/
theorem taskwork_awake (hworks : blockingWorks e.state = true) (h : ¬ Waiting e) :
    httpClientTaskwork e = exchangeStep e.ticked := by
  rw [taskwork_of_works hworks]
  exact if_neg h

/-- A client whose delay expires comes to a call in which it does not wait. -/
theorem exists_awake {k : ℕ} (hworks : blockingWorks e.state = true)
    (h : e.nextRetryAt ≤ e.clock k) :
    ∃ clock, Reaches httpClientTaskwork e { e with clock := clock } ∧
      ¬ Waiting { e with clock := clock } := by
  induction k generalizing e with
  | zero => exact ⟨e.clock, .refl e, fun hwait => absurd h (UInt64.not_le.mpr hwait.2)⟩
  | succ k ih =>
      by_cases hwait : Waiting e
      · obtain ⟨clock, hreach, hawake⟩ := ih (e := e.ticked) hworks h
        exact ⟨clock, .head (taskwork_waiting hworks hwait) hreach, hawake⟩
      · exact ⟨e.clock, .refl e, hwait⟩

/-- In the state `DISPOSING` the client is disposed of. -/
theorem taskwork_disposing (hs : e.state = .disposing) :
    httpClientTaskwork e = .ok (httpClientDispose e.ticked) := by
  have hstate : e.ticked.state = .disposing := hs
  simp only [httpClientTaskwork, hstate]

/-- An error leads to the disposal. -/
theorem taskwork_error (hs : e.state = .error) :
    httpClientTaskwork e = .ok { e.ticked with state := .disposing } := by
  have hstate : e.ticked.state = .error := hs
  simp only [httpClientTaskwork, hstate]

/-- The end of a client writes nothing. -/
theorem dispose_sent (e : Exchange) : (httpClientDispose e).connection.sent = e.connection.sent :=
  (dispose_writes e.connection).2

/-- **The blocking call answers every call of the scheduled client.** -/
theorem Agree.taskwork (h : Agree e b) (hstep : httpClientTaskwork e = .ok e') :
    ∃ b', Reaches httpBlockingStep b b' ∧ Agree e' b' := by
  cases h with
  | live h =>
      by_cases hwait : Waiting e
      · rw [taskwork_waiting h.works hwait] at hstep
        obtain rfl := Except.ok.inj hstep
        exact ⟨b, .refl b, .live (h.clock _)⟩
      · rw [taskwork_awake h.works hwait] at hstep
        have hlock := h.step
        rw [hstep] at hlock
        generalize hb : httpBlockingStep b = r at hlock
        cases hlock with
        | ok hagree => exact ⟨_, .single hb, hagree⟩
  | delivered body hs hresponse hsent hout hresult =>
      rw [taskwork_disposing hs] at hstep
      obtain rfl := Except.ok.inj hstep
      exact ⟨b, .refl b, .delivered body hs hresponse ((dispose_sent _).trans hsent) hout hresult⟩
  | failed hs hresponse hsent hresult =>
      rcases hs with hs | hs
      · rw [taskwork_error hs] at hstep
        obtain rfl := Except.ok.inj hstep
        exact ⟨b, .refl b, .failed (Or.inr rfl) hresponse hsent hresult⟩
      · rw [taskwork_disposing hs] at hstep
        obtain rfl := Except.ok.inj hstep
        exact ⟨b, .refl b, .failed (Or.inr hs) hresponse ((dispose_sent _).trans hsent) hresult⟩

/-- **The scheduled client answers every iteration of the blocking call**, when its delay
expires. -/
theorem Agree.blocking (h : Agree e b)
    (hexpires : waitsForRetry e.state = true → ∃ k, e.nextRetryAt ≤ e.clock k)
    (hstep : httpBlockingStep b = .ok b') :
    ∃ e', Reaches httpClientTaskwork e e' ∧ Agree e' b' := by
  cases h with
  | live h =>
      obtain ⟨clock, hreach, hawake⟩ : ∃ clock,
          Reaches httpClientTaskwork e { e with clock := clock } ∧
            ¬ Waiting { e with clock := clock } := by
        by_cases hwait : waitsForRetry e.state = true
        · obtain ⟨k, hk⟩ := hexpires hwait
          exact exists_awake h.works hk
        · exact ⟨e.clock, .refl e, fun hw => hwait hw.1⟩
      have hlock := (h.clock clock).step
      rw [hstep] at hlock
      have htask := taskwork_awake (e := { e with clock := clock }) h.works hawake
      generalize exchangeStep { e with clock := clock }.ticked = r at hlock htask
      cases hlock with
      | ok hagree => exact ⟨_, hreach.tail htask, hagree⟩
  | delivered body hs hresponse hsent hout hresult =>
      rcases hresult with ⟨hres, hstate, htime⟩ | hres
      · rw [blockingStep_stop hres (not_expired htime 0) (by rw [hstate]; rfl), if_pos hstate]
          at hstep
        obtain rfl := Except.ok.inj hstep
        exact ⟨e, .refl e, .delivered body hs hresponse (hsent.trans (dispose_sent _).symm) hout
          (Or.inr rfl)⟩
      · rw [blockingStep_returned (by simp [hres])] at hstep
        obtain rfl := Except.ok.inj hstep
        exact ⟨e, .refl e, .delivered body hs hresponse hsent hout (Or.inr hres)⟩
  | failed hs hresponse hsent hresult =>
      rcases hresult with ⟨hres, hstate, htime⟩ | hres
      · rw [blockingStep_stop hres (not_expired htime 0) (by rw [hstate]; rfl),
          if_neg (by simp [hstate])] at hstep
        obtain rfl := Except.ok.inj hstep
        exact ⟨e, .refl e, .failed hs hresponse (hsent.trans (dispose_sent _).symm) (Or.inr rfl)⟩
      · rw [blockingStep_returned (by simp [hres])] at hstep
        obtain rfl := Except.ok.inj hstep
        exact ⟨e, .refl e, .failed hs hresponse hsent (Or.inr hres)⟩

/-- What the callback was given is what the call returns. -/
theorem Agree.result_of_delivered {body : Bytes} (h : Agree e b)
    (hbody : body ++ [0] ∈ e.responses) :
    Returns b .success (some ⟨some (body ++ [0]), body.length⟩) := by
  cases h with
  | live h =>
      have hnone : e.responses = [] := congrArg Receiver.responses h.receiver
      rw [hnone] at hbody
      cases hbody
  | delivered body' _ hresponse _ hout hresult =>
      rw [hresponse, List.mem_singleton] at hbody
      obtain rfl := List.append_cancel_right hbody
      rcases hresult with ⟨hres, hstate, htime⟩ | hres
      · have hstop := blockingStep_stop hres (not_expired htime 0) (by rw [hstate]; rfl)
        rw [if_pos hstate] at hstop
        exact ⟨_, .single hstop, rfl, hout⟩
      · exact ⟨b, .refl b, hres, hout⟩
  | failed _ hresponse _ _ =>
      rw [hresponse] at hbody
      cases hbody

/-- What the call returns is what the callback was given. -/
theorem Agree.delivered_of_result {body : Bytes} (h : Agree e b) (hres : b.result = some .success)
    (hout : b.exchange.blockingOut = some ⟨some (body ++ [0]), body.length⟩) :
    body ++ [0] ∈ e.responses := by
  cases h with
  | live h =>
      rw [h.result] at hres
      cases hres
  | delivered body' _ hresponse _ hout' _ =>
      have hdata := Option.some.inj (hout'.symm.trans hout)
      have haddr := Option.some.inj (congrArg HTTPData.addr hdata)
      rw [hresponse, haddr]
      exact List.mem_singleton_self _
  | failed _ _ _ hresult =>
      rcases hresult with ⟨hnone, _⟩ | hio
      · rw [hnone] at hres
        cases hres
      · rw [hio] at hres
        cases hres

end Scheduled

/-! ### The calls -/

/-- The client that `http_client_initiate` starts on a struct of zeros and the blocking `GET`
begin in step. -/
theorem live_start {url : Bytes} (out : HTTPData) {timeoutMs : ℤ} (task : ℕ)
    {env₁ env₂ : Environment} (hread : env₁.incoming = env₂.incoming)
    (hwrite : env₁.writes = env₂.writes) (htimeout : timeoutMs ≤ 0)
    (hinit₁ : ∀ parts, httpParserUrl url = .ok parts →
      (transportInit env₁.connection parts false).1 = .success)
    (hinit₂ : ∀ parts, httpParserUrl url = .ok parts →
      (transportInit env₂.connection parts true).1 = .success) :
    Live (initiated zeroed url true task env₁)
      (httpBlockingGet (some url) (some out) timeoutMs env₂) := by
  refine ⟨⟨⟨blockingOverlay, 0, fun k => env₂.clock (k + 1), env₂.connection⟩, rfl, ?_⟩, rfl,
    htimeout, rfl, rfl, rfl, rfl, fun _ parts hparts => ⟨hinit₁ parts hparts, hinit₂ parts hparts⟩⟩
  obtain ⟨incoming, _, _, _, _, writes, _⟩ := env₁
  obtain rfl : incoming = env₂.incoming := hread
  obtain rfl : writes = env₂.writes := hwrite
  rfl

/-- **The scheduled client and the blocking client agree.** With the same answers of the
transport to reads and writes, and a connect that succeeds at once in both, they write the same
bytes, and `on_success` is called with a body iff the blocking call returns it, for every
clock on which the delays expire. -/
theorem drivers_agree (url : Bytes) (out : HTTPData) (timeoutMs : ℤ) (task : ℕ)
    (env₁ env₂ : Environment) (hread : env₁.incoming = env₂.incoming)
    (hwrite : env₁.writes = env₂.writes) (htimeout : timeoutMs ≤ 0)
    (hinit₁ : ∀ parts, httpParserUrl url = .ok parts →
      (transportInit env₁.connection parts false).1 = .success)
    (hinit₂ : ∀ parts, httpParserUrl url = .ok parts →
      (transportInit env₂.connection parts true).1 = .success)
    (hexpires : ∀ e, Reaches httpClientTaskwork (initiated zeroed url true task env₁) e →
      waitsForRetry e.state = true → ∃ k, e.nextRetryAt ≤ e.clock k) :
    (∀ bytes,
      (∃ e, Reaches httpClientTaskwork (initiated zeroed url true task env₁) e ∧
        e.connection.sent = bytes) ↔
      ∃ b, Reaches httpBlockingStep (httpBlockingGet (some url) (some out) timeoutMs env₂) b ∧
        b.exchange.connection.sent = bytes) ∧
    ∀ body,
      (∃ e, Reaches httpClientTaskwork (initiated zeroed url true task env₁) e ∧
        body ++ [0] ∈ e.responses) ↔
      Returns (httpBlockingGet (some url) (some out) timeoutMs env₂) .success
        (some ⟨some (body ++ [0]), body.length⟩) := by
  have hstart := live_start out task hread hwrite htimeout hinit₁ hinit₂
  generalize initiated zeroed url true task env₁ = e₀ at hexpires hstart ⊢
  generalize httpBlockingGet (some url) (some out) timeoutMs env₂ = b₀ at hstart ⊢
  have hforward : ∀ e, Reaches httpClientTaskwork e₀ e →
      ∃ b, Reaches httpBlockingStep b₀ b ∧ Agree e b := by
    intro e he
    exact he.simulate (fun _ _ _ h hstep => h.taskwork hstep) (.live hstart)
  have hbackward : ∀ b, Reaches httpBlockingStep b₀ b →
      ∃ e, Reaches httpClientTaskwork e₀ e ∧ Agree e b := by
    have hanswers : ∀ b e b', Reaches httpClientTaskwork e₀ e ∧ Agree e b →
        httpBlockingStep b = .ok b' → ∃ e', Reaches httpClientTaskwork e e' ∧
          Reaches httpClientTaskwork e₀ e' ∧ Agree e' b' := by
      rintro b e b' ⟨he, hagree⟩ hstep
      obtain ⟨e', he', hagree'⟩ := hagree.blocking (hexpires e he) hstep
      exact ⟨e', he', he.trans he', hagree'⟩
    intro b hb
    obtain ⟨e, -, he, hagree⟩ := hb.simulate hanswers ⟨.refl e₀, .live hstart⟩
    exact ⟨e, he, hagree⟩
  refine ⟨fun bytes => ⟨?_, ?_⟩, fun body => ⟨?_, ?_⟩⟩
  · rintro ⟨e, he, rfl⟩
    obtain ⟨b, hb, hagree⟩ := hforward e he
    exact ⟨b, hb, hagree.sent.symm⟩
  · rintro ⟨b, hb, rfl⟩
    obtain ⟨e, he, hagree⟩ := hbackward b hb
    exact ⟨e, he, hagree.sent⟩
  · rintro ⟨e, he, hbody⟩
    obtain ⟨b, hb, hagree⟩ := hforward e he
    obtain ⟨b', hb', hres, hout⟩ := hagree.result_of_delivered hbody
    exact ⟨b', hb.trans hb', hres, hout⟩
  · rintro ⟨b, hb, hres, hout⟩
    obtain ⟨e, he, hagree⟩ := hbackward b hb
    exact ⟨e, he, hagree.delivered_of_result hres hout⟩

/-- A server that does not take the request at once, on a clock that runs. -/
def hesitantServer : Environment :=
  reachableServer hiResponse [.failed .EAGAIN, .wrote 1000] fun k => 1000 * UInt64.ofNat k

/-- The server is connected to in both modes. -/
theorem hesitantServer_connects (mode : Bool) (parts : URLParts)
    (hparts : httpParserUrl (ascii "http://h/") = .ok parts) :
    (transportInit hesitantServer.connection parts mode).1 = .success := by
  have hall : (httpParserUrl (ascii "http://h/")).toOption.all (fun parts =>
      (transportInit hesitantServer.connection parts false).1 = .success ∧
        (transportInit hesitantServer.connection parts true).1 = .success) = true := by decide
  rw [hparts] at hall
  have hboth := of_decide_eq_true hall
  cases mode with
  | false => exact hboth.1
  | true => exact hboth.2

/-- The delays of this client expire at the next call. -/
theorem hesitantServer_expires (e : Exchange)
    (he : Reaches httpClientTaskwork
      (initiated zeroed (ascii "http://h/") true 0 hesitantServer) e) :
    waitsForRetry e.state = true → ∃ k, e.nextRetryAt ≤ e.clock k := by
  obtain ⟨b, hrun, hb⟩ := exists_run_of_any (n := 9)
    (a := initiated zeroed (ascii "http://h/") true 0 hesitantServer)
    (P := fun e => e.state = .disposing)
    (by decide : Option.any _ (run httpClientTaskwork 9 _).toOption = true)
  rw [decide_eq_true_eq] at hb
  have hnow : waitsForRetry e.state = true → e.nextRetryAt ≤ e.clock 0 := by
    refine forall_reaches_of_absorbing
      (P := fun e => waitsForRetry e.state = true → e.nextRetryAt ≤ e.clock 0)
      (J := fun e => e.state = .disposing) hrun ?_ hb ?_ (by decide) e he
    · intro x y hxy hx
      rw [taskwork_disposing hx] at hxy
      obtain rfl := Except.ok.inj hxy
      exact hx
    · intro x hx hwait
      rw [hx] at hwait
      cases hwait
  exact fun hwait => ⟨0, hnow hwait⟩

/-- The scheduled client is given the body `hi`, so the blocking call returns it. -/
theorem hesitant_drivers_agree :
    Returns (httpBlockingGet (some (ascii "http://h/")) (some {}) 0 hesitantServer) .success
      (some ⟨some (ascii "hi" ++ [0]), (ascii "hi").length⟩) := by
  refine ((drivers_agree (ascii "http://h/") {} 0 0 hesitantServer hesitantServer rfl rfl
    (Int.le_refl 0) (hesitantServer_connects false) (hesitantServer_connects true)
    hesitantServer_expires).2 (ascii "hi")).mp ?_
  obtain ⟨e, hrun, he⟩ := exists_run_of_any (n := 9)
    (a := initiated zeroed (ascii "http://h/") true 0 hesitantServer)
    (P := fun e => ascii "hi" ++ [0] ∈ e.responses)
    (by decide : Option.any _ (run httpClientTaskwork 9 _).toOption = true)
  rw [decide_eq_true_eq] at he
  exact ⟨e, reaches_of_run hrun, he⟩

end MaestroCore
