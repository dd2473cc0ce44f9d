import MaestroCore.Authority
import MaestroCore.Independence

/-!
# The Length of a Posted Body

The size of the body that is given to `http_blocking_post` goes through four variables: the
`ssize_t` of `http_data`, the `int` of `HTTP_Request`, the `size_t` of
`http_client_worktask_build_request` and, with the length of the text before it, the `int` of
`request_length`. The two of type `int` hold it only below `2 ^ 31`.

## Main results

* `postRun_invariant`: a request that is shorter than `2 ^ 31` bytes is sent as it should be.
* `narrowed_post`: with a longer body the client counts on with the value of the `int`, and the
  call may succeed with a request that has another length and another body.
* `post_carries_body_iff`: the body is sent as it is iff the request is shorter than `2 ^ 31`
  bytes, or the URL is not one that is connected to.
-/

open CLang Run

namespace MaestroCore

/-! ### The request of a call -/

/-- The `http_data` of a body. -/
def bodyInput (body : Bytes) : HTTPInput where
  addr := some body
  size := body.length
  fits := by simp

/-- The request that a body should be sent with: the lines of the template, with the length of
the body in them unless it is empty, and the whole body. -/
def postRequest (parts : URLParts) (body : Bytes) : Bytes :=
  joinLines (templateLines .post parts.path.bytes parts.host.bytes body.length) ++ crlf ++ body

/-- The request as it should be, in the words of the builder. -/
theorem postRequest_eq (parts : URLParts) (body : Bytes) :
    postRequest parts body =
      requestText .post parts.path.bytes parts.host.bytes body.length ++ body := by
  rw [postRequest, requestText_eq_joinLines]

/-- The client posts the body: its length is cut down to an `int`. -/
structure Carries (body : Bytes) (e : Exchange) : Prop where
  method : e.method = .post
  reqBody : e.reqBody = if body = [] then none else some body
  reqBodyLen : e.reqBodyLen = toInt body.length

/-- The length that the client counts on with. -/
def narrowed (body : Bytes) : ℕ := (toInt body.length).toNat

section Carries

variable {body : Bytes} {e d : Exchange}

/-- A length below `2 ^ 31` is kept. -/
theorem narrowed_of_short (h : body.length < 2 ^ 31) : narrowed body = body.length := by
  rw [narrowed, toInt_eq_self h, Int.toNat_natCast]

/-- The length that is kept is an `int`. -/
theorem narrowed_lt (body : Bytes) : narrowed body < 2 ^ 31 := by
  have hlt := toInt_lt body.length
  rw [narrowed]
  omega

/-- No more is kept than there is. -/
theorem narrowed_le (body : Bytes) : narrowed body ≤ body.length := by
  have hle := toInt_le body.length
  rw [narrowed]
  omega

/-- A client that carries the body sends as much as was kept of its length. -/
theorem Carries.bodyLen_eq (h : Carries body e) : e.bodyLen = narrowed body := by
  rw [Exchange.bodyLen, h.reqBody, h.reqBodyLen, narrowed]
  by_cases hbody : body = []
  · subst hbody
    rfl
  · rw [if_neg hbody]
    split
    · rfl
    · rename_i hpos
      have hle : toInt body.length ≤ 0 := by simpa using hpos
      omega

/-- What the client sends is the beginning of the body. -/
theorem Carries.take_eq (h : Carries body e) (n : ℕ) :
    (e.reqBody.getD []).take n = body.take n := by
  rw [h.reqBody]
  split
  · rename_i hbody
    rw [hbody, Option.getD_none]
  · rfl

/-- The request that is built. -/
theorem Carries.built (h : Carries body e) (hs : e.state = .buildingRequest)
    (hpath : e.urlParts.path.bytes ≠ []) :
    exchangeStep e = .ok { e with
      state := .sendingRequest
      requestBuffer := some
        (requestText .post e.urlParts.path.bytes e.urlParts.host.bytes (narrowed body) ++
          body.take (narrowed body))
      requestLength := toInt
        ((requestText .post e.urlParts.path.bytes e.urlParts.host.bytes (narrowed body)).length +
          narrowed body)
      bytesSent := 0 } := by
  have hlen := h.bodyLen_eq
  have htext : requestText e.method e.path e.urlParts.host.bytes e.bodyLen =
      requestText .post e.urlParts.path.bytes e.urlParts.host.bytes (narrowed body) := by
    rw [hlen, h.method, Exchange.path, if_neg hpath]
  have hbuild := buildRequest_eq (e := e) (by rw [hlen]; exact narrowed_lt body)
  rw [htext, hlen, h.take_eq] at hbuild
  exact exchangeStep_of_work (by rw [exchangeWork, hs, hbuild])

end Carries

/-- A call of `http_blocking_post` is at the start of its loop. -/
theorem post_eq (url body : Bytes) (out : Option HTTPData) (timeoutMs : ℤ) (env : Environment) :
    httpBlockingPost (some url) (some (bodyInput body)) out timeoutMs env =
      httpBlockingWork url .post (some (bodyInput body)) (out.map fun _ => {}) timeoutMs env := by
  rw [httpBlockingPost]
  refine if_neg ?_
  simp [bodyInput]

/-- The call starts with the body of its caller. -/
theorem carries_start (url body : Bytes) (out : Option HTTPData) (timeoutMs : ℤ)
    (env : Environment) : Carries body
      (httpBlockingWork url .post (some (bodyInput body)) out timeoutMs env).exchange := by
  cases body with
  | nil => exact ⟨rfl, rfl, rfl⟩
  | cons x xs =>
      have hpos : (0 : ℤ) < (x :: xs).length := by simp
      simp only [httpBlockingWork, bodyInput, if_pos hpos]
      refine ⟨rfl, ?_, rfl⟩
      rw [if_neg (List.cons_ne_nil x xs)]
      exact congrArg some (List.take_of_length_le (by simp))

/-- The client of the call, as far as its request depends on it. -/
theorem client_start (url body : Bytes) (timeoutMs : ℤ) (env : Environment) :
    let b := httpBlockingWork url .post (some (bodyInput body)) (some {}) timeoutMs env
    b.exchange.toHTTPClient = { start .blocking env.incoming with state := .connecting } := by
  simp only [httpBlockingWork, bodyInput]
  split <;> rfl

/-! ### Sending a short request -/

section Whole

variable {url body text : Bytes} {parts : URLParts} {e d : Exchange}

/-- A request that is on its way: its length is the one that the client counts with. -/
structure OnItsWay (text : Bytes) (e : Exchange) : Prop extends SentFrom text e where
  length : e.requestLength = text.length
  le : e.bytesSent ≤ text.length

/-- The client reads on when all bytes are accepted. -/
theorem written_state (w : WriteResult) :
    (httpClientWritten e w).1 = .sendingRequest ∨ (httpClientWritten e w).1 = .error ∨
      (httpClientWritten e w).1 = .readingFirstline ∧
        toSize e.requestLength ≤ e.bytesSent + w.accepted := by
  match w with
  | .wrote 0 => exact Or.inl rfl
  | .wrote (n + 1) =>
      simp only [httpClientWritten]
      split
      · rename_i hall
        exact Or.inr (Or.inr ⟨rfl, hall⟩)
      · exact Or.inl rfl
  | .failed errno =>
      simp only [httpClientWritten]
      split
      · exact Or.inl rfl
      · split
        · exact Or.inl rfl
        · exact Or.inr (Or.inl rfl)

/-- **One call of the sending worker** reads no more than the request, and the client reads on
when the request has been sent. -/
theorem OnItsWay.step (h : OnItsWay text e) (hshort : text.length < 2 ^ 31)
    (hs : e.state = .sendingRequest) :
    ∃ d, exchangeStep e = .ok d ∧ OnItsWay text d ∧
      (d.state = .sendingRequest ∨ d.state = .error ∨
        d.state = .readingFirstline ∧ d.connection.sent = text) := by
  have hwork := sendRequest_eq h.buffer h.length h.le hshort
  have hstep := exchangeStep_of_work (e := e) (by rw [exchangeWork, hs, hwork])
  have hfrom := h.toSentFrom.step hs hstep
  obtain ⟨-, haccepted⟩ := transportWrite_sent e.connection (text.drop e.bytesSent)
  generalize transportWrite e.connection (text.drop e.bytesSent) = r at hstep hfrom haccepted
  obtain ⟨-, -, hlength, hbytes⟩ := written_fields (e := { e with connection := r.2 }) r.1
  rw [List.length_drop] at haccepted
  have hle := h.le
  refine ⟨_, hstep, ⟨hfrom, hlength.trans h.length, ?_⟩, ?_⟩
  · exact hbytes.trans_le (by simp only; omega)
  · rcases written_state (e := { e with connection := r.2 }) r.1 with hw | hw | ⟨hw, hall⟩
    · exact Or.inl hw
    · exact Or.inr (Or.inl hw)
    · refine Or.inr (Or.inr ⟨hw, hfrom.sent.trans ?_⟩)
      rw [h.length, toSize_eq_self (by omega)] at hall
      exact List.take_of_length_le (hall.trans hbytes.ge)

/-! ### A call that sends a short request -/

/-- The states of a client that sends a request. -/
def sends : HTTPClientState → Bool
  | .connecting | .waitingConnect | .buildingRequest | .sendingRequest => true
  | _ => false

/-- Once the request has been sent it is not sent again. -/
theorem sends_of_leadsTo {s s' : HTTPClientState} (h : s.leadsTo s' = true)
    (hs : sends s = false) : sends s' = false := by
  cases s <;> cases s' <;>
    first | rfl | exact absurd h (by decide) | exact absurd hs (by decide)

/-- How far a call has come that posts the body to the URL. -/
inductive PostPhase (url body : Bytes) (e : Exchange) : Prop
  | connecting (hs : e.state = .connecting) (hurl : e.url = url) (hbody : Carries body e)
      (hsent : e.connection.sent = [])
  | building (hs : e.state = .buildingRequest) (hparts : httpParserUrl url = .ok e.urlParts)
      (hhttp : isHttp e.urlParts.scheme.bytes = true) (hbody : Carries body e)
      (hsent : e.connection.sent = [])
  | sending {parts : URLParts} (hs : e.state = .sendingRequest)
      (hparts : httpParserUrl url = .ok parts) (hhttp : isHttp parts.scheme.bytes = true)
      (hway : OnItsWay (postRequest parts body) e)
  | sent {parts : URLParts} (hs : sends e.state = false) (hparts : httpParserUrl url = .ok parts)
      (hsent : e.connection.sent = postRequest parts body)
  | failed (hs : blockingWorks e.state = false) (hs' : e.state ≠ .disposing)

/-- The requests that a body is sent with are short. -/
def ShortRequests (url body : Bytes) : Prop :=
  ∀ parts, httpParserUrl url = .ok parts → isHttp parts.scheme.bytes = true →
    (postRequest parts body).length < 2 ^ 31

/-- The phase does not depend on the clock. -/
theorem PostPhase.ticked (h : PostPhase url body e) : PostPhase url body e.ticked := by
  cases h with
  | connecting hs hurl hbody hsent =>
      exact .connecting hs hurl ⟨hbody.method, hbody.reqBody, hbody.reqBodyLen⟩ hsent
  | building hs hparts hhttp hbody hsent =>
      exact .building hs hparts hhttp ⟨hbody.method, hbody.reqBody, hbody.reqBodyLen⟩ hsent
  | sending hs hparts hhttp hway =>
      exact .sending hs hparts hhttp ⟨⟨hway.buffer, hway.sent⟩, hway.length, hway.le⟩
  | sent hs hparts hsent => exact .sent hs hparts hsent
  | failed hs hs' => exact .failed hs hs'

/-- A connect that succeeds is one to a scheme that `transport_init` knows. -/
theorem isHttp_of_success {c : Connection} {mode : Bool} (hparts : httpParserUrl url = .ok parts)
    (h : (transportInit c parts mode).1 = .success) : isHttp parts.scheme.bytes = true := by
  obtain ⟨hscheme, hhost, hport, -⟩ := httpParserUrl_nonempty hparts
  by_contra hhttp
  rw [transportInit_unknown hhost hport hscheme (by simpa using hhttp)] at h
  cases h

/-- The connecting worker. -/
theorem PostPhase.connects (hs : e.state = .connecting) (hurl : e.url = url)
    (hbody : Carries body e) (hsent : e.connection.sent = []) :
    ∃ d, exchangeStep e = .ok d ∧ PostPhase url body d := by
  refine ⟨_, exchangeStep_connecting hs, ?_⟩
  obtain ⟨_, -, heq⟩ | ⟨parts, s, hparts, heq, hres⟩ := connecting_cases e
  · rw [heq]
    exact .failed rfl (by simp)
  · rw [heq]
    rw [hurl] at hparts
    rcases hres with ⟨rfl, -⟩ | ⟨rfl, hsuccess⟩ | ⟨rfl, -⟩
    · exact .failed rfl (by simp)
    · refine .building rfl hparts (isHttp_of_success hparts hsuccess)
        ⟨hbody.method, hbody.reqBody, hbody.reqBodyLen⟩ ?_
      exact (transportInit_writes e.connection parts e.blockingMode).2.trans hsent
    · exact .failed rfl (by simp)

/-- The building worker. -/
theorem PostPhase.builds (hshort : ShortRequests url body) (hs : e.state = .buildingRequest)
    (hparts : httpParserUrl url = .ok e.urlParts) (hhttp : isHttp e.urlParts.scheme.bytes = true)
    (hbody : Carries body e) (hsent : e.connection.sent = []) :
    ∃ d, exchangeStep e = .ok d ∧ PostPhase url body d := by
  have hlt := hshort e.urlParts hparts hhttp
  have hlen : (postRequest e.urlParts body).length =
      (requestText .post e.urlParts.path.bytes e.urlParts.host.bytes body.length).length +
        body.length := by
    rw [postRequest_eq, List.length_append]
  have hsame : narrowed body = body.length := narrowed_of_short (by omega)
  have hbuilt := hbody.built hs (httpParserUrl_nonempty hparts).2.2.2
  rw [hsame, List.take_length, ← postRequest_eq, ← Nat.cast_add, ← hlen,
    toInt_eq_self hlt] at hbuilt
  refine ⟨_, hbuilt, .sending rfl hparts hhttp ⟨⟨rfl, ?_⟩, rfl, Nat.zero_le _⟩⟩
  rw [List.take_zero]
  exact hsent

/-- **One call of a worker.** -/
theorem PostPhase.step (h : PostPhase url body e) (hshort : ShortRequests url body)
    (hworks : blockingWorks e.state = true) (hstep : exchangeStep e = .ok d) :
    PostPhase url body d := by
  cases h with
  | connecting hs hurl hbody hsent =>
      obtain ⟨d', hd', hphase⟩ := PostPhase.connects hs hurl hbody hsent
      obtain rfl := Except.ok.inj (hstep.symm.trans hd')
      exact hphase
  | building hs hparts hhttp hbody hsent =>
      obtain ⟨d', hd', hphase⟩ := PostPhase.builds hshort hs hparts hhttp hbody hsent
      obtain rfl := Except.ok.inj (hstep.symm.trans hd')
      exact hphase
  | sending hs hparts hhttp hway =>
      obtain ⟨d', hd', hway', hstate⟩ := hway.step (hshort _ hparts hhttp) hs
      obtain rfl := Except.ok.inj (hstep.symm.trans hd')
      rcases hstate with hs' | hs' | ⟨hs', hsent⟩
      · exact .sending hs' hparts hhttp hway'
      · exact .failed (by rw [hs']; rfl) (by simp [hs'])
      · exact .sent (by rw [hs']; rfl) hparts hsent
  | sent hs hparts hsent =>
      refine .sent (sends_of_leadsTo (exchangeStep_leadsTo hstep) hs) hparts ?_
      rw [exchangeStep_sent (by rintro hs'; simp [hs', sends] at hs) hstep]
      exact hsent
  | failed hs _ => cases hs.symm.trans hworks

/-- What is known of a call: how far it has come, and what it has sent when it succeeds. -/
structure Posting (url body : Bytes) (b : BlockingCall) : Prop where
  phase : b.result = none → PostPhase url body b.exchange
  sent : b.result = some .success →
    ∃ parts, httpParserUrl url = .ok parts ∧ b.exchange.connection.sent = postRequest parts body

/-- A call that returns with another code owes nothing. -/
theorem Posting.return {b : BlockingCall} {code : ErrorCode} (hcode : code ≠ .success) :
    Posting url body (b.return e code) := by
  refine ⟨fun h => (by cases h), fun h => ?_⟩
  exact absurd (Option.some.inj h) hcode

/-- An iteration keeps what has been sent in order. -/
theorem Posting.step {b b' : BlockingCall} (h : Posting url body b)
    (hshort : ShortRequests url body) (hstep : httpBlockingStep b = .ok b') :
    Posting url body b' := by
  cases blockingStep_cases hstep with
  | returned _ => exact h
  | timeout _ _ => exact .return (by simp)
  | io _ _ _ _ => exact .return (by simp)
  | @work d hres _ hworks hd =>
      refine ⟨fun _ => (h.phase hres).ticked.step hshort hworks hd, fun hsuccess => ?_⟩
      cases hres.symm.trans hsuccess
  | success hres _ hstate =>
      refine ⟨fun hnone => (by cases hnone), fun _ => ?_⟩
      cases h.phase hres with
      | connecting hs | building hs | sending hs => cases hs.symm.trans hstate
      | sent _ hparts hsent => exact ⟨_, hparts, (dispose_sent _).trans hsent⟩
      | failed _ hs => exact absurd hstate hs

/-- **A short request is sent as it should be**, in every call. -/
theorem postRun_invariant (hshort : ShortRequests url body) (out : Option HTTPData)
    (timeoutMs : ℤ) (env : Environment) {b : BlockingCall}
    (hrun : Reaches httpBlockingStep
      (httpBlockingPost (some url) (some (bodyInput body)) out timeoutMs env) b) :
    Posting url body b := by
  refine hrun.invariant (fun x y hxy hx => hx.step hshort hxy) ?_
  rw [post_eq]
  have hstart := loopStart_blockingWork url .post (some (bodyInput body)) (out.map fun _ => {})
    timeoutMs env
  refine ⟨fun _ => .connecting hstart.state hstart.url (carries_start ..) ?_, fun h => ?_⟩
  · rw [hstart.connection]
    rfl
  · cases hstart.result.symm.trans h

end Whole

/-! ### A call that sends a longer one -/

section Narrowed

variable {url body : Bytes} {parts : URLParts} {b : BlockingCall}

/-- The reading half of a call is that of its client. -/
theorem exchangeStep_of_readStep {e : Exchange} {c : HTTPClient} (hs : e.state.reading = true)
    (h : httpClientReadStep e.toHTTPClient = .ok c) :
    exchangeStep e = .ok { e with toHTTPClient := c } := by
  obtain ⟨s, c', hwork, rfl⟩ := work_of_readStep h
  have hread : exchangeWork e = e.read httpClientWork := by
    rw [exchangeWork]
    cases hcase : e.state <;> first | rfl | simp [hcase, HTTPClientState.reading] at hs
  refine exchangeStep_of_work (x := { e with toHTTPClient := c' }) ?_
  rw [hread, Exchange.read, hwork]
  rfl

/-- The reading half of a call runs to its end. -/
theorem blockingRun_reads {k : ℕ} {c : HTTPClient} (hres : b.result = none)
    (htime : b.timeoutMs ≤ 0) (hrun : run httpClientReadStep k b.exchange.toHTTPClient = .ok c)
    (hend : c.state = .disposing) :
    ∃ b', Reaches httpBlockingStep b b' ∧ b'.result = some .success ∧
      b'.exchange.connection.sent = b.exchange.connection.sent := by
  induction k generalizing b with
  | zero =>
      have hstate : b.exchange.state = .disposing := by
        rw [← hend, ← Except.ok.inj hrun]
      have hstop := blockingStep_stop hres (not_expired htime 0) (by rw [hstate]; rfl)
      rw [if_pos hstate] at hstop
      exact ⟨_, .single hstop, rfl, dispose_sent _⟩
  | succ k ih =>
      cases hreading : b.exchange.state.reading with
      | true =>
          cases hstep : httpClientReadStep b.exchange.toHTTPClient with
          | error fault =>
              rw [run, hstep] at hrun
              cases hrun
          | ok c' =>
              have hwork := exchangeStep_of_readStep (e := b.exchange.ticked) hreading hstep
              have hworks : blockingWorks b.exchange.state = true := by
                cases hs : b.exchange.state <;>
                  first | rfl | simp [hs, HTTPClientState.reading] at hreading
              rw [run, hstep] at hrun
              obtain ⟨b', hb', hres', hsent⟩ := ih
                (b := { b with exchange := { b.exchange.ticked with toHTTPClient := c' } }) hres
                htime hrun
              have hfirst := blockingStep_work hres (not_expired htime 0) hworks hwork
              exact ⟨b', .head hfirst hb', hres', hsent⟩
      | false =>
          -- the client stays where it is
          have hfix := readStep_of_not_reading hreading
          rw [run, hfix] at hrun
          exact ih hres htime hrun

/-- A server that takes a request of less than `2 ^ 31` bytes with one write, and answers it. -/
def answeringServer : Environment := reachableServer hiResponse [.wrote (2 ^ 31)] fun _ => 0

/-- The request that is built with the narrowed length. -/
def narrowedRequest (parts : URLParts) (body : Bytes) : Bytes :=
  requestText .post parts.path.bytes parts.host.bytes (narrowed body) ++ body.take (narrowed body)

/-- The length of the request for what is kept of the body. -/
theorem length_narrowedRequest (parts : URLParts) (body : Bytes) :
    (narrowedRequest parts body).length =
      (requestText .post parts.path.bytes parts.host.bytes (narrowed body)).length +
        narrowed body := by
  rw [narrowedRequest, List.length_append, List.length_take, Nat.min_eq_left (narrowed_le body)]

/-- A call that is connected to this server. -/
structure AboutToBuild (parts : URLParts) (body : Bytes) (b : BlockingCall) : Prop where
  result : b.result = none
  timeout : b.timeoutMs = 0
  urlParts : b.exchange.urlParts = parts
  carries : Carries body b.exchange
  writes : b.exchange.connection.writes = [.wrote (2 ^ 31)]
  sent : b.exchange.connection.sent = []
  client : b.exchange.toHTTPClient = { start .blocking hiResponse with state := .buildingRequest }

/-- A call that is about to send the request to this server. -/
structure AboutToSend (parts : URLParts) (body : Bytes) (b : BlockingCall) : Prop where
  result : b.result = none
  timeout : b.timeoutMs = 0
  buffer : b.exchange.requestBuffer = some (narrowedRequest parts body)
  length : b.exchange.requestLength = toInt (narrowedRequest parts body).length
  bytes : b.exchange.bytesSent = 0
  writes : b.exchange.connection.writes = [.wrote (2 ^ 31)]
  sent : b.exchange.connection.sent = []
  client : b.exchange.toHTTPClient = { start .blocking hiResponse with state := .sendingRequest }

/-- A call that posts to this server. -/
def postCall (url body : Bytes) : BlockingCall :=
  httpBlockingPost (some url) (some (bodyInput body)) (some {}) 0 answeringServer

/-- The first iteration connects. -/
theorem postCall_connects (body : Bytes) (hparts : httpParserUrl url = .ok parts)
    (hhttp : isHttp parts.scheme.bytes = true) :
    ∃ b, httpBlockingStep (postCall url body) = .ok b ∧ AboutToBuild parts body b := by
  have hstart := loopStart_blockingWork url .post (some (bodyInput body)) (some {}) 0
    answeringServer
  have hcarries := carries_start url body (some {}) 0 answeringServer
  have hclient := client_start url body 0 answeringServer
  have htime : (httpBlockingWork url .post (some (bodyInput body)) (some {}) 0
    answeringServer).timeoutMs = 0 := rfl
  rw [postCall, post_eq, Option.map_some]
  generalize httpBlockingWork url .post (some (bodyInput body)) (some {}) 0 answeringServer = b
    at hstart hcarries hclient htime
  have hconn : b.exchange.ticked.connection = answeringServer.connection := hstart.connection
  have hmode : b.exchange.ticked.blockingMode = true := hstart.mode
  have hinit := transportInit_connects (c := answeringServer.connection) hparts hhttp rfl rfl rfl
    true
  obtain ⟨hwrites, hsent⟩ := transportInit_writes answeringServer.connection parts true
  refine ⟨_, hstart.first (not_expired htime.le 0), ?_⟩
  obtain ⟨_, herr, -⟩ | ⟨parts', s, hparts', heq, hres⟩ := connecting_cases b.exchange.ticked
  · have hok : httpParserUrl b.exchange.ticked.url = .ok parts := hstart.url ▸ hparts
    cases herr.symm.trans hok
  · have hok : httpParserUrl b.exchange.ticked.url = .ok parts := hstart.url ▸ hparts
    obtain rfl := Except.ok.inj (hparts'.symm.trans hok)
    have hs : s = .buildingRequest := by
      rw [hconn, hmode, hinit] at hres
      simpa using hres
    rw [heq, hs, hconn, hmode]
    refine ⟨hstart.result, htime, rfl, ⟨hcarries.method, hcarries.reqBody, hcarries.reqBodyLen⟩,
      hwrites, hsent, ?_⟩
    exact congrArg (fun c : HTTPClient => { c with state := .buildingRequest }) hclient

/-- The second iteration builds the request. -/
theorem AboutToBuild.builds (h : AboutToBuild parts body b) (hpath : parts.path.bytes ≠ []) :
    ∃ b', httpBlockingStep b = .ok b' ∧ AboutToSend parts body b' := by
  have hs : b.exchange.state = .buildingRequest := by rw [h.client]
  have hcarries : Carries body b.exchange.ticked :=
    ⟨h.carries.method, h.carries.reqBody, h.carries.reqBodyLen⟩
  have hparts : b.exchange.ticked.urlParts = parts := h.urlParts
  have hbuilt := hcarries.built hs (by rw [hparts]; exact hpath)
  refine ⟨_, blockingStep_work h.result (not_expired h.timeout.le 0) (by rw [hs]; rfl) hbuilt, ?_⟩
  refine ⟨h.result, h.timeout, ?_, ?_, rfl, h.writes, h.sent, ?_⟩
  · rw [hparts]
    rfl
  · rw [length_narrowedRequest, Nat.cast_add, hparts]
  · exact congrArg (fun c : HTTPClient => { c with state := .sendingRequest }) h.client

/-- The call comes to send its request. -/
theorem postCall_aboutToSend (body : Bytes) (hparts : httpParserUrl url = .ok parts)
    (hhttp : isHttp parts.scheme.bytes = true) :
    ∃ b, Reaches httpBlockingStep (postCall url body) b ∧ AboutToSend parts body b := by
  obtain ⟨b, hb, hconnected⟩ := postCall_connects body hparts hhttp
  obtain ⟨b', hb', hbuilt⟩ := hconnected.builds (httpParserUrl_nonempty hparts).2.2.2
  exact ⟨b', .head hb (.single hb'), hbuilt⟩

/-- The request for what is kept of the body is shorter than `2 ^ 32`. -/
theorem length_narrowedRequest_lt (parts : URLParts) (body : Bytes) :
    (narrowedRequest parts body).length < 2 ^ 32 := by
  have hlt := length_requestText_lt .post parts.path.bytes parts.host.bytes (narrowed_lt body)
  have hnarrowed := narrowed_lt body
  have hpath := parts.path.fits
  have hhost := parts.host.fits
  rw [length_narrowedRequest]
  rw [requestMaxLen] at hlt
  split at hlt <;> omega

/-- **A request that is too long is read beyond its end**: its length is negative as an `int`,
and so a number that no buffer holds as a `size_t`. -/
theorem AboutToSend.overreads (h : AboutToSend parts body b)
    (hlong : 2 ^ 31 ≤ (narrowedRequest parts body).length) :
    ¬ ∃ r, httpClientWorktaskSendRequest b.exchange = .ok r := by
  have hlt := length_narrowedRequest_lt parts body
  have hlength : b.exchange.requestLength = (narrowedRequest parts body).length - 2 ^ 32 := by
    rw [h.length, toInt, toSigned]
    split <;> omega
  have hover : (narrowedRequest parts body).length <
      toSize (b.exchange.requestLength - b.exchange.bytesSent) := by
    rw [hlength, h.bytes, toSize]
    omega
  rintro ⟨r, hr⟩
  rw [httpClientWorktaskSendRequest, h.buffer] at hr
  simp only [Option.getD_some] at hr
  rw [h.bytes] at hr hover
  rw [if_pos (by simpa using hover)] at hr
  cases hr

/-- The write that takes the whole request. -/
theorem AboutToSend.writesAll (h : AboutToSend parts body b)
    (hshort : (narrowedRequest parts body).length < 2 ^ 31) :
    ∃ d, exchangeStep b.exchange.ticked = .ok d ∧ d.connection.sent = narrowedRequest parts body ∧
      d.toHTTPClient = start .blocking hiResponse := by
  have hs : b.exchange.ticked.state = .sendingRequest := congrArg HTTPClient.state h.client
  have hlength : b.exchange.ticked.requestLength = (narrowedRequest parts body).length :=
    h.length.trans (toInt_eq_self hshort)
  have hbytes : b.exchange.ticked.bytesSent = 0 := h.bytes
  have hwrites : b.exchange.ticked.connection.writes = [.wrote (2 ^ 31)] := h.writes
  have hsent : b.exchange.ticked.connection.sent = [] := h.sent
  have hwork := sendRequest_eq (e := b.exchange.ticked) h.buffer hlength
    (by rw [hbytes]; exact Nat.zero_le _) hshort
  have hwrite : transportWrite b.exchange.ticked.connection (narrowedRequest parts body) =
      (.wrote (narrowedRequest parts body).length,
        { b.exchange.ticked.connection with
          writes := []
          sent := narrowedRequest parts body }) := by
    rw [transportWrite, hwrites]
    simp only [hsent, List.nil_append]
    rw [Nat.min_eq_right hshort.le, List.take_of_length_le hshort.le]
  -- the request is not empty, and nothing of it is left
  obtain ⟨n, hn⟩ : ∃ n, (narrowedRequest parts body).length = n + 1 := by
    refine Nat.exists_eq_add_one.mpr ?_
    rw [length_narrowedRequest, requestText]
    split <;> simp [ascii]
  have hall : toSize b.exchange.ticked.requestLength ≤ 0 + (n + 1) := by
    rw [hlength, toSize_eq_self (by omega)]
    omega
  rw [hbytes, List.drop_zero, hwrite, hn] at hwork
  simp only [httpClientWritten, if_pos hall] at hwork
  have hstep := exchangeStep_of_work (e := b.exchange.ticked) (by rw [exchangeWork, hs, hwork])
  refine ⟨_, hstep, rfl, ?_⟩
  exact congrArg (fun c : HTTPClient => { c with state := .readingFirstline, retries := 0 })
    h.client

/-- A request that is short enough is sent, and the call succeeds. -/
theorem AboutToSend.succeeds (h : AboutToSend parts body b)
    (hshort : (narrowedRequest parts body).length < 2 ^ 31) :
    ∃ b', Reaches httpBlockingStep b b' ∧ b'.result = some .success ∧
      b'.exchange.connection.sent = narrowedRequest parts body := by
  obtain ⟨d, hd, hsent, hclient⟩ := h.writesAll hshort
  have hs : b.exchange.state = .sendingRequest := by rw [h.client]
  have hstep := blockingStep_work h.result (not_expired h.timeout.le 0) (by rw [hs]; rfl) hd
  obtain ⟨c, hrun, hend⟩ := exists_run_of_any (n := 6) (a := start .blocking hiResponse)
    (P := fun c => c.state = .disposing)
    (by decide : Option.any _ (run httpClientReadStep 6 _).toOption = true)
  rw [← hclient] at hrun
  obtain ⟨b', hb', hres, hsent'⟩ := blockingRun_reads (b := { b with exchange := d }) h.result
    h.timeout.le hrun (by simpa using hend)
  exact ⟨b', .head hstep hb', hres, hsent'.trans hsent⟩

/-- **A body whose length does not fit**: the call may succeed with a request of another length
and another body. -/
theorem narrowed_post (hparts : httpParserUrl url = .ok parts)
    (hhttp : isHttp parts.scheme.bytes = true)
    (hshort : (narrowedRequest parts body).length < 2 ^ 31) :
    ∃ b, Reaches httpBlockingStep (postCall url body) b ∧ b.result = some .success ∧
      b.exchange.connection.sent = narrowedRequest parts body := by
  obtain ⟨b, hb, hsend⟩ := postCall_aboutToSend body hparts hhttp
  obtain ⟨b', hb', hres, hsent⟩ := hsend.succeeds hshort
  exact ⟨b', hb.trans hb', hres, hsent⟩

end Narrowed


/-- No call of the sending worker reads beyond the request, and a call that succeeds has sent
the request that the body should be sent with. -/
def PostsWhole (url body : Bytes) : Prop :=
  ∀ out timeoutMs env b, Reaches httpBlockingStep
      (httpBlockingPost (some url) (some (bodyInput body)) out timeoutMs env) b →
    (b.result = none → b.exchange.state = .sendingRequest →
      ∃ r, httpClientWorktaskSendRequest b.exchange = .ok r) ∧
    (b.result = some .success → ∃ parts, httpParserUrl url = .ok parts ∧
      b.exchange.connection.sent = postRequest parts body)

/-- A short request is sent as a whole. -/
theorem postsWhole_of_short {url body : Bytes} (hshort : ShortRequests url body) :
    PostsWhole url body := by
  intro out timeoutMs env b hrun
  have h := postRun_invariant hshort out timeoutMs env hrun
  refine ⟨fun hres hs => ?_, h.sent⟩
  cases h.phase hres with
  | connecting hs' | building hs' => cases hs'.symm.trans hs
  | sending _ hparts hhttp hway =>
      exact ⟨_, sendRequest_eq hway.buffer hway.length hway.le (hshort _ hparts hhttp)⟩
  | sent hs' =>
      rw [hs] at hs'
      cases hs'
  | failed hs' =>
      rw [hs] at hs'
      cases hs'

/-- A body that makes the request too long is not sent as it is. -/
theorem not_postsWhole_of_long {url body : Bytes} {parts : URLParts}
    (hparts : httpParserUrl url = .ok parts) (hhttp : isHttp parts.scheme.bytes = true)
    (hlong : 2 ^ 31 ≤ (postRequest parts body).length) : ¬ PostsWhole url body := by
  intro h
  rcases Nat.lt_or_ge (narrowedRequest parts body).length (2 ^ 31) with hshort | hover
  · -- what is sent is shorter than the request
    obtain ⟨b, hb, hres, hsent⟩ := narrowed_post hparts hhttp hshort
    obtain ⟨parts', hparts', hsent'⟩ := (h _ _ _ b hb).2 hres
    obtain rfl := Except.ok.inj (hparts.symm.trans hparts')
    rw [hsent.symm.trans hsent'] at hshort
    omega
  · obtain ⟨b, hb, hsend⟩ := postCall_aboutToSend body hparts hhttp
    have hs : b.exchange.state = .sendingRequest := by rw [hsend.client]
    exact hsend.overreads hover ((h _ _ _ b hb).1 hsend.result hs)

/-- **When a body is posted as it is.** For every URL and every body, no call with it reads
beyond the request, and every call that succeeds has sent the length of the body and all of it,
iff the request is shorter than `2 ^ 31` bytes, or the URL is one that is not connected to. -/
theorem post_carries_body_iff (url body : Bytes) :
    PostsWhole url body ↔ ∀ parts, httpParserUrl url = .ok parts →
      isHttp parts.scheme.bytes = true → (postRequest parts body).length < 2 ^ 31 := by
  constructor
  · intro h parts hparts hhttp
    by_contra hlong
    exact not_postsWhole_of_long hparts hhttp (not_lt.mp hlong) h
  · exact postsWhole_of_short

/-- A body of `2 ^ 32` bytes has the length zero as an `int`, and nothing of it is sent. -/
theorem narrowedRequest_of_wrapped {body : Bytes} (h : body.length = 2 ^ 32) (parts : URLParts) :
    narrowedRequest parts body = requestText .post parts.path.bytes parts.host.bytes 0 := by
  have hzero : narrowed body = 0 := by
    rw [narrowed, h]
    rfl
  rw [narrowedRequest, hzero, List.take_zero, List.append_nil]

/-- A body of `2 ^ 32` bytes. -/
def hugeBody : Bytes := List.replicate (2 ^ 32) 0

/-- The length of a body that is lost as a whole. -/
theorem length_hugeBody : hugeBody.length = 2 ^ 32 := List.length_replicate

/-- **A body is lost**: the call succeeds with a request that has no length and no body. -/
theorem huge_body_lost :
    (∃ b, Reaches httpBlockingStep (postCall (ascii "http://h/") hugeBody) b ∧
      b.result = some .success ∧ b.exchange.connection.sent =
        joinLines [ascii "POST / HTTP/1.1", ascii "Host: h", ascii "User-Agent: httpclient",
          ascii "Connection: close"] ++ crlf) ∧
      ¬ PostsWhole (ascii "http://h/") hugeBody := by
  have hparts : httpParserUrl (ascii "http://h/") =
      .ok (parsedClient (ascii "http://h/")).urlParts := by decide
  have hhttp : isHttp (parsedClient (ascii "http://h/")).urlParts.scheme.bytes = true := by decide
  have htext : requestText .post (parsedClient (ascii "http://h/")).urlParts.path.bytes
      (parsedClient (ascii "http://h/")).urlParts.host.bytes 0 =
        joinLines [ascii "POST / HTTP/1.1", ascii "Host: h", ascii "User-Agent: httpclient",
          ascii "Connection: close"] ++ crlf := by decide
  have hsame := narrowedRequest_of_wrapped length_hugeBody
    (parsedClient (ascii "http://h/")).urlParts
  rw [htext] at hsame
  refine ⟨?_, not_postsWhole_of_long hparts hhttp ?_⟩
  · rw [← hsame]
    refine narrowed_post hparts hhttp ?_
    rw [hsame]
    decide
  · rw [postRequest, List.length_append, length_hugeBody]
    omega

end MaestroCore
