import MaestroCore.RequestText

/-!
# Sending the Request

The request goes out in as many writes as the transport asks for: a write may accept a part
of the bytes, none, or fail. `bytes_sent` says where the next write starts, and `retries`
counts the writes that accepted nothing together with the failures.

## Main results

* `Sending.step`: one call of the sending worker keeps the accepted bytes equal to the first
  `bytes_sent` bytes of the request.
* `request_sent_in_order`: so does every run of the sending worker in which the counter of
  the retries is not incremented beyond `INT_MAX`, and it survives at most three failures.
-/

open CLang Run

namespace MaestroCore

/-- One call of `http_client_worktask_send_request` while the request is being sent. -/
def httpClientSendStep (e : Exchange) : Except Fault Exchange :=
  if e.state = .sendingRequest then do
    let (s, e) ← httpClientWorktaskSendRequest e
    .ok { e with state := s }
  else .ok e

/-- A failure after which the client does not simply try again. -/
def WriteResult.isHard : WriteResult → Bool
  | .failed e => !e.transient
  | .wrote _ => false

/-- The next write accepts nothing while the counter of the retries is at its largest. -/
def OverflowsRetries (e : Exchange) : Prop :=
  e.retries = intMax ∧ ∃ later, e.connection.writes = .wrote 0 :: later

/-- The next write is given all the bytes that are left. -/
theorem sendRequest_eq {request : Bytes} {e : Exchange} (hbuffer : e.requestBuffer = some request)
    (hlength : e.requestLength = request.length) (hle : e.bytesSent ≤ request.length)
    (hshort : request.length < 2 ^ 31) :
    httpClientWorktaskSendRequest e =
      let (written, connection) := transportWrite e.connection (request.drop e.bytesSent)
      .ok (httpClientWritten { e with connection := connection } written) := by
  have hrem : toSize (e.requestLength - e.bytesSent) = request.length - e.bytesSent := by
    rw [hlength, toSize]
    omega
  rw [httpClientWorktaskSendRequest]
  simp only [hrem, hbuffer, Option.getD_some]
  rw [if_neg (by rw [List.length_drop]; omega), List.take_of_length_le (by rw [List.length_drop])]

/-- How far the sending of a request has come: the accepted bytes are those before
`bytesSent`, and the counter of the retries bounds the failures survived among the results
so far. -/
structure Sending (request : Bytes) (writes : List WriteResult) (e : Exchange) : Prop where
  buffer : e.requestBuffer = some request
  length : e.requestLength = request.length
  sent : e.connection.sent = request.take e.bytesSent
  le : e.bytesSent ≤ request.length
  done : e.state = .readingFirstline ↔ e.bytesSent = request.length
  states : e.state = .sendingRequest ∨ e.state = .readingFirstline ∨ e.state = .error
  results : ∃ results, writes = results ++ e.connection.writes ∧
    (e.state ≠ .error → results.countP WriteResult.isHard ≤ 3) ∧
    (e.state = .sendingRequest → (results.countP WriteResult.isHard : ℤ) ≤ e.retries)
  counter : e.retries ≤ intMax

section Sending

variable {request : Bytes} {writes : List WriteResult} {e d : Exchange}

/-- The results up to the next write, when the client goes on sending. -/
theorem Sending.results_tail {r : WriteResult} {later : List WriteResult}
    (h : Sending request writes e) (hs : e.state = .sendingRequest)
    (hw : e.connection.writes = r :: later) :
    ∃ results, writes = results ++ later ∧
      results.countP WriteResult.isHard ≤ 3 + (if r.isHard then 1 else 0) ∧
      (results.countP WriteResult.isHard : ℤ) ≤ e.retries + (if r.isHard then 1 else 0) := by
  obtain ⟨results, hsplit, hthree, hcount⟩ := h.results
  have h3 := hthree (by simp [hs])
  have hc := hcount hs
  refine ⟨results ++ [r], by rw [hsplit, hw, List.append_assoc]; rfl, ?_, ?_⟩
  · rw [List.countP_append, List.countP_singleton]
    omega
  · rw [List.countP_append, List.countP_singleton]
    split <;> push_cast <;> omega

/-- A failure. -/
theorem Sending.failed {errno : Errno} {later : List WriteResult}
    (h : Sending request writes e) (hs : e.state = .sendingRequest)
    (hw : e.connection.writes = .failed errno :: later) :
    let r := httpClientWritten
      { e with connection := { e.connection with writes := later } } (.failed errno)
    Sending request writes { r.2 with state := r.1 } := by
  obtain ⟨results, hsplit, h3, hc⟩ := h.results_tail hs hw
  have hlt : e.bytesSent ≠ request.length := fun heq => by simp [h.done.mpr heq] at hs
  have hmax := h.counter
  simp only [WriteResult.isHard] at h3 hc
  simp only [httpClientWritten]
  cases htr : errno.transient with
  | true =>
      simp only [htr, Bool.not_true, Bool.false_eq_true, if_false, add_zero] at h3 hc
      exact ⟨h.buffer, h.length, h.sent, h.le, by simp [hlt], Or.inl rfl,
        ⟨results, hsplit, fun _ => h3, fun _ => hc⟩, hmax⟩
  | false =>
      simp only [htr, Bool.not_false, if_true] at h3 hc
      simp only [Bool.false_eq_true, if_false]
      split
      · rename_i hretry
        exact ⟨h.buffer, h.length, h.sent, h.le, by simp [hlt], Or.inl rfl,
          ⟨results, hsplit, fun _ => by omega, fun _ => hc⟩, by
            simp only [Exchange.retryIn_toHTTPClient, intMax]
            omega⟩
      · exact ⟨h.buffer, h.length, h.sent, h.le, by simp [hlt], Or.inr (Or.inr rfl),
          ⟨results, hsplit, by simp, by simp⟩, hmax⟩

/-- A write that accepts nothing. -/
theorem Sending.wrote_zero {later : List WriteResult} (h : Sending request writes e)
    (hs : e.state = .sendingRequest) (hw : e.connection.writes = .wrote 0 :: later)
    (hno : ¬ OverflowsRetries e) :
    let r := httpClientWritten
      { e with connection := { e.connection with writes := later } } (.wrote 0)
    Sending request writes { r.2 with state := r.1 } := by
  obtain ⟨results, hsplit, h3, hc⟩ := h.results_tail hs hw
  have hlt : e.bytesSent ≠ request.length := fun heq => by simp [h.done.mpr heq] at hs
  have hmax := h.counter
  have hne : e.retries ≠ intMax := fun heq => hno ⟨heq, later, hw⟩
  simp only [WriteResult.isHard, Bool.false_eq_true, if_false, add_zero] at h3 hc
  obtain ⟨k, hk⟩ := Int.eq_ofNat_of_zero_le (show 0 ≤ e.retries by omega)
  have hnext : toInt (e.retries + 1) = e.retries + 1 := by
    rw [hk]
    rw [intMax] at hmax hne
    exact toInt_eq_self (n := k + 1) (by omega)
  simp only [httpClientWritten]
  refine ⟨h.buffer, h.length, h.sent, h.le, by simp [hlt], Or.inl rfl,
    ⟨results, hsplit, fun _ => h3, fun _ => ?_⟩, ?_⟩
  · simp only [Exchange.retryIn_toHTTPClient, hnext]
    omega
  · simp only [Exchange.retryIn_toHTTPClient, hnext]
    omega

/-- A write that accepts some of the bytes. -/
theorem Sending.wrote_some {n : ℕ} {later : List WriteResult} (h : Sending request writes e)
    (hshort : request.length < 2 ^ 31) (hs : e.state = .sendingRequest) (hn : 0 < n)
    (hle : n ≤ request.length - e.bytesSent) (hw : ∃ m, e.connection.writes = .wrote m :: later) :
    let r := httpClientWritten
      { e with connection := { e.connection with
        writes := later
        sent := e.connection.sent ++ (request.drop e.bytesSent).take n } } (.wrote n)
    Sending request writes { r.2 with state := r.1 } := by
  obtain ⟨m, hw⟩ := hw
  obtain ⟨results, hsplit, h3, hc⟩ := h.results_tail hs hw
  have hmax := h.counter
  have hle' := h.le
  simp only [WriteResult.isHard, Bool.false_eq_true, if_false, add_zero] at h3 hc
  have hsent : e.connection.sent ++ (request.drop e.bytesSent).take n =
      request.take (e.bytesSent + n) := by
    rw [h.sent, List.take_add]
  have hsize : toSize e.requestLength = request.length := by
    rw [h.length, toSize_eq_self (by omega)]
  obtain ⟨k, rfl⟩ := Nat.exists_eq_succ_of_ne_zero (by omega : n ≠ 0)
  simp only [httpClientWritten, hsize]
  split
  · exact ⟨h.buffer, h.length, hsent, by simp only; omega, by simp only [true_iff]; omega,
      Or.inr (Or.inl rfl), ⟨results, hsplit, fun _ => h3, by simp⟩, by simp [intMax]⟩
  · rename_i hmore
    refine ⟨h.buffer, h.length, hsent, ?_, ?_, Or.inl rfl,
      ⟨results, hsplit, fun _ => h3, fun _ => hc⟩, hmax⟩
    · simp only [Exchange.retryIn_bytesSent]
      omega
    · simp only [Exchange.retryIn_bytesSent, reduceCtorEq, false_iff]
      omega

/-- **One call of the sending worker.** -/
theorem Sending.step (h : Sending request writes e) (hshort : request.length < 2 ^ 31)
    (hno : ¬ OverflowsRetries e) :
    ∃ d, httpClientSendStep e = .ok d ∧ Sending request writes d := by
  rw [httpClientSendStep]
  split
  · rename_i hs
    have hlt : e.bytesSent ≠ request.length := fun heq => by simp [h.done.mpr heq] at hs
    have hle := h.le
    simp only [sendRequest_eq h.buffer h.length hle hshort, transportWrite]
    cases hw : e.connection.writes with
    | nil =>
        obtain ⟨results, hsplit, h3, hc⟩ := h.results
        refine ⟨_, rfl, h.buffer, h.length, h.sent, hle, ?_, Or.inl rfl, ?_, h.counter⟩
        · simp [hlt, httpClientWritten, Errno.transient]
        · exact ⟨results, hsplit, fun _ => h3 (by simp [hs]), fun _ => hc hs⟩
    | cons r later =>
        cases r with
        | failed errno => exact ⟨_, rfl, h.failed hs hw⟩
        | wrote n =>
            rcases Nat.eq_zero_or_pos n with rfl | hpos
            · have := h.wrote_zero hs hw hno
              simp only [Nat.zero_min, List.take_zero, List.append_nil]
              exact ⟨_, rfl, this⟩
            · have hmin : (request.drop e.bytesSent).take n =
                  (request.drop e.bytesSent).take (min n (request.drop e.bytesSent).length) := by
                rw [List.take_eq_take_iff]
                omega
              simp only [hmin]
              rw [List.length_drop]
              exact ⟨_, rfl, h.wrote_some hshort hs (by omega) (by omega) ⟨n, hw⟩⟩
  · exact ⟨e, rfl, h⟩

/-- The request that has been built is sent from its start. -/
theorem sending_built {e₀ : Exchange}
    (hbuild : httpClientWorktaskBuildRequest e₀ = (.sendingRequest, e))
    (hbody : e₀.bodyLen ≤ (e₀.reqBody.getD []).length)
    (hbuffer : e.requestBuffer = some request) (hshort : request.length < 2 ^ 31)
    (hretries : e₀.retries = 0) (hsent : e₀.connection.sent = []) :
    Sending request e₀.connection.writes { e with state := .sendingRequest } := by
  rw [httpClientWorktaskBuildRequest] at hbuild
  split at hbuild
  · cases hbuild
  · split at hbuild
    · cases hbuild
    · rename_i hfits
      obtain ⟨-, rfl⟩ := Prod.mk.injEq .. ▸ hbuild
      have hpos : 0 < (requestText e₀.method e₀.path e₀.urlParts.host.bytes e₀.bodyLen).length := by
        rw [requestText]
        split <;> simp [ascii]
      generalize requestText e₀.method e₀.path e₀.urlParts.host.bytes e₀.bodyLen = text
        at hbuffer hfits hpos
      have hmax : 0 < requestMaxLen e₀.path e₀.urlParts.host.bytes e₀.bodyLen := by
        rw [requestMaxLen]
        omega
      have hlen : request.length = text.length + e₀.bodyLen := by
        rw [← Option.some.inj hbuffer, List.length_append, length_snprintf hmax (by omega),
          List.length_take, Nat.min_eq_left hbody]
      refine ⟨hbuffer, ?_, by simp [hsent], Nat.zero_le _, ?_, Or.inl rfl,
        ⟨[], rfl, by simp, by simp [hretries]⟩, by simp [hretries, intMax]⟩
      · rw [hlen]
        exact toInt_eq_self (by omega)
      · simp only [reduceCtorEq, false_iff]
        omega

/-- **The request is sent once, whole and in order**, on every run of the sending worker in
which no write accepts nothing while the counter of the retries is `INT_MAX`: the accepted
bytes are the first `bytes_sent` bytes of the request, the client reads on exactly when all
of them are accepted, and it survives at most three failures. -/
theorem request_sent_in_order {e₀ : Exchange}
    (hbuild : httpClientWorktaskBuildRequest e₀ = (.sendingRequest, e))
    (hbody : e₀.bodyLen ≤ (e₀.reqBody.getD []).length)
    (hbuffer : e.requestBuffer = some request) (hshort : request.length < 2 ^ 31)
    (hretries : e₀.retries = 0) (hsent : e₀.connection.sent = [])
    (hno : ∀ x, Reaches httpClientSendStep { e with state := .sendingRequest } x →
      ¬ OverflowsRetries x)
    (hd : Reaches httpClientSendStep { e with state := .sendingRequest } d) :
    d.requestBuffer = some request ∧ d.requestLength = request.length ∧
      d.connection.sent = request.take d.bytesSent ∧ d.bytesSent ≤ request.length ∧
      (d.state = .readingFirstline ↔ d.connection.sent = request) ∧
      ∃ results, e₀.connection.writes = results ++ d.connection.writes ∧
        (d.state ≠ .error → results.countP WriteResult.isHard ≤ 3) := by
  have hstart := sending_built hbuild hbody hbuffer hshort hretries hsent
  have hinv := Reaches.invariant (I := fun x =>
    Reaches httpClientSendStep { e with state := .sendingRequest } x ∧
      Sending request e₀.connection.writes x) (fun x y hxy hx => ?_) hd ⟨.refl _, hstart⟩
  · obtain ⟨-, h⟩ := hinv
    obtain ⟨results, hsplit, hthree, -⟩ := h.results
    refine ⟨h.buffer, h.length, h.sent, h.le, ?_, results, hsplit, hthree⟩
    have hle := h.le
    rw [h.done, h.sent]
    constructor
    · intro heq
      rw [heq, List.take_length]
    · intro heq
      have := congrArg List.length heq
      rw [List.length_take] at this
      omega
  · obtain ⟨d', hd', hI⟩ := hx.2.step hshort (hno x hx.1)
    obtain rfl := Except.ok.inj (hxy.symm.trans hd')
    exact ⟨hx.1.tail hxy, hI⟩

end Sending

/-- The client that builds and sends a `POST` of `hello` over a transport that answers with
these results. -/
def helloClient (writes : List WriteResult) : Exchange :=
  { postClient (ascii "hello") with
    connection := (reachableServer [] writes fun _ => 0).connection }

/-- Its request. -/
def helloRequest : Bytes := requestText .post (ascii "/a?b=c") (ascii "h") 5 ++ ascii "hello"

/-- The number of bytes in the example's request. -/
theorem length_helloRequest : helloRequest.length = 140 := by decide +kernel

/-- The client when the request is built. -/
def helloBuilt (writes : List WriteResult) : Exchange :=
  { helloClient writes with
    requestBuffer := some helloRequest
    requestLength := 140
    bytesSent := 0 }

/-- Building the example's request goes on to send it. -/
theorem buildRequest_helloClient (writes : List WriteResult) :
    httpClientWorktaskBuildRequest (helloClient writes) = (.sendingRequest, helloBuilt writes) := by
  have hlen : toInt ((requestText .post (ascii "/a?b=c") (ascii "h") 5).length + 5) = 140 := by
    decide +kernel
  have hbody : (ascii "hello").take 5 = ascii "hello" := by decide
  have hbuild := buildRequest_eq (e := helloClient writes) (show 5 < 2 ^ 31 by decide)
  rw [hbuild, helloBuilt, ← hlen, helloRequest, ← hbody]
  rfl

/-- A transport that takes the request in two parts, with two failures in between. -/
def helloWrites : List WriteResult :=
  [.wrote 10, .failed .EAGAIN, .failed (.other 32), .wrote 1000]

theorem hello_sent_in_order :
    ∃ d, Reaches httpClientSendStep { helloBuilt helloWrites with state := .sendingRequest } d ∧
      d.bytesSent = 140 ∧
      d.requestBuffer = some helloRequest ∧ d.requestLength = helloRequest.length ∧
      d.connection.sent = helloRequest.take d.bytesSent ∧ d.bytesSent ≤ helloRequest.length ∧
      (d.state = .readingFirstline ↔ d.connection.sent = helloRequest) ∧
      ∃ results, helloWrites = results ++ d.connection.writes ∧
        (d.state ≠ .error → results.countP WriteResult.isHard ≤ 3) := by
  obtain ⟨d, hrun, hd⟩ := exists_run_of_any (n := 4)
    (a := { helloBuilt helloWrites with state := .sendingRequest })
    (P := fun d => d.state = .readingFirstline ∧ d.bytesSent = 140)
    (by decide +kernel : Option.any _ (run httpClientSendStep 4 _).toOption = true)
  rw [decide_eq_true_eq] at hd
  have hfix : httpClientSendStep d = .ok d := by
    rw [httpClientSendStep, if_neg (by rw [hd.1]; decide)]
  have hretries : ∀ x, Reaches httpClientSendStep
      { helloBuilt helloWrites with state := .sendingRequest } x → x.retries ≠ intMax :=
    forall_reaches_of_run hrun hfix (by decide +kernel)
  have hshort : helloRequest.length < 2 ^ 31 := by
    rw [length_helloRequest]
    omega
  exact ⟨d, reaches_of_run hrun, hd.2,
    request_sent_in_order (buildRequest_helloClient helloWrites) (by decide) rfl hshort rfl
      rfl (fun x hx hover => hretries x hx hover.1) (reaches_of_run hrun)⟩

/-! ### The counter of the retries -/

/-- A client that is about to send the first byte of its request. -/
structure Ready (request : Bytes) (e : Exchange) : Prop where
  state : e.state = .sendingRequest
  buffer : e.requestBuffer = some request
  length : e.requestLength = request.length
  unsent : e.bytesSent = 0

/-- A write that accepts nothing, or a failure while the counter is below three, increments
the counter. -/
theorem Ready.stalls {request : Bytes} {e : Exchange} {r : WriteResult}
    {later : List WriteResult} (h : Ready request e) (hshort : request.length < 2 ^ 31)
    (hw : e.connection.writes = r :: later)
    (hr : r = .wrote 0 ∨ r.isHard = true ∧ -2 ^ 31 ≤ e.retries ∧ e.retries < 3) :
    ∃ d, httpClientSendStep e = .ok d ∧ Ready request d ∧ d.connection.writes = later ∧
      d.retries = toInt (e.retries + 1) := by
  have hle : e.bytesSent ≤ request.length := by
    rw [h.unsent]
    exact Nat.zero_le _
  rw [httpClientSendStep, if_pos h.state, sendRequest_eq h.buffer h.length hle hshort]
  simp only [transportWrite, hw]
  rcases hr with rfl | ⟨hhard, hmin, hlt⟩
  · simp only [Nat.zero_min]
    exact ⟨_, rfl, ⟨rfl, h.buffer, h.length, h.unsent⟩, rfl, rfl⟩
  · cases r with
    | wrote n => cases hhard
    | failed errno =>
        have htr : errno.transient = false := by simpa [WriteResult.isHard] using hhard
        simp only [httpClientWritten, htr, if_pos hlt]
        refine ⟨_, rfl, ⟨rfl, h.buffer, h.length, h.unsent⟩, rfl, ?_⟩
        simp only [Bool.false_eq_true, if_false, Exchange.retryIn_toHTTPClient, toInt, toSigned]
        split <;> omega

/-- A run of writes that accept nothing. -/
theorem Ready.stalls_many {request : Bytes} {e : Exchange} {k : ℕ} {later : List WriteResult}
    (h : Ready request e) (hshort : request.length < 2 ^ 31) (hint : toInt e.retries = e.retries)
    (hw : e.connection.writes = List.replicate k (.wrote 0) ++ later) :
    ∃ d, Reaches httpClientSendStep e d ∧ Ready request d ∧ d.connection.writes = later ∧
      d.retries = toInt (e.retries + k) := by
  induction k generalizing e with
  | zero => exact ⟨e, .refl e, h, hw, by simpa using hint.symm⟩
  | succ k ih =>
      rw [List.replicate_succ, List.cons_append] at hw
      obtain ⟨x, hx, hready, hwrites, hretries⟩ := h.stalls hshort hw (Or.inl rfl)
      obtain ⟨d, hd, hready', hwrites', hretries'⟩ :=
        ih hready (by rw [hretries, toInt_toInt]) hwrites
      refine ⟨d, .head hx hd, hready', hwrites', ?_⟩
      rw [hretries', hretries, toInt_add_toInt]
      congr 1
      push_cast
      ring

/-- A run of failures while the wrapped counter is far below three is survived. -/
theorem Ready.survives_many {request : Bytes} {e : Exchange} {n : ℕ} {later : List WriteResult}
    (h : Ready request e) (hshort : request.length < 2 ^ 31)
    (hw : e.connection.writes = List.replicate n (.failed (.other 32)) ++ later)
    (hmin : -2 ^ 31 ≤ e.retries) (hmax : e.retries + n ≤ 3) :
    ∃ d, Reaches httpClientSendStep e d ∧ Ready request d ∧ d.connection.writes = later := by
  induction n generalizing e with
  | zero => exact ⟨e, .refl e, h, hw⟩
  | succ n ih =>
      rw [List.replicate_succ, List.cons_append] at hw
      obtain ⟨x, hx, hready, hwrites, hretries⟩ :=
        h.stalls hshort hw (Or.inr ⟨rfl, hmin, by omega⟩)
      have hnext : toInt (e.retries + 1) = e.retries + 1 := by
        rw [toInt, toSigned]
        split <;> omega
      obtain ⟨d, hd, hready', hwrites'⟩ := ih hready hwrites (by omega) (by omega)
      exact ⟨d, .head hx hd, hready', hwrites'⟩

/-- The example's client is ready to send its request. -/
theorem ready_helloBuilt (writes : List WriteResult) :
    Ready helloRequest { helloBuilt writes with state := .sendingRequest } :=
  ⟨rfl, rfl, by rw [length_helloRequest]; rfl, rfl⟩

/-- Writes that accept nothing and bring the counter around to its smallest value hide the
four failures after them. -/
theorem helloBuilt_survives {k : ℕ} (hk : toInt k = -2 ^ 31) :
    ∃ d, Reaches httpClientSendStep
        { helloBuilt (List.replicate k (.wrote 0) ++ List.replicate 4 (.failed (.other 32))) with
          state := .sendingRequest } d ∧
      d.state = .sendingRequest ∧ d.connection.writes = [] := by
  have hshort : helloRequest.length < 2 ^ 31 := by
    rw [length_helloRequest]
    omega
  obtain ⟨x, hx, hready, hwrites, hretries⟩ :=
    (ready_helloBuilt _).stalls_many (k := k) hshort rfl rfl
  have hmin : x.retries = -2 ^ 31 := by
    rw [hretries, ← hk]
    exact congrArg toInt (zero_add _)
  obtain ⟨d, hd, hready', hwrites'⟩ :=
    hready.survives_many (n := 4) hshort (by rw [hwrites, List.append_nil]) (by omega) (by omega)
  exact ⟨d, hx.trans hd, hready'.state, hwrites'⟩

/-- After `2 ^ 31` writes that accept nothing the counter is at its smallest value, and four
failures in a row do not stop the client. -/
theorem four_failures_survived :
    let results := List.replicate (2 ^ 31) (.wrote 0) ++ List.replicate 4 (.failed (.other 32))
    httpClientWorktaskBuildRequest (helloClient results) =
        (.sendingRequest, helloBuilt results) ∧
      helloRequest.length < 2 ^ 31 ∧ results.countP WriteResult.isHard = 4 ∧
      ∃ d, Reaches httpClientSendStep { helloBuilt results with state := .sendingRequest } d ∧
        d.state = .sendingRequest ∧ d.connection.writes = [] := by
  refine ⟨buildRequest_helloClient _, by rw [length_helloRequest]; omega, ?_,
    helloBuilt_survives (by decide)⟩
  rw [List.countP_append, List.countP_replicate, List.countP_replicate]
  rfl

end MaestroCore
