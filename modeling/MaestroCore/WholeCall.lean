import MaestroCore.ChunkedDelivery
import MaestroCore.ContentLength
import MaestroCore.PostLength

/-!
# A Blocking Call as a Whole

A call of `http_blocking_get` or `http_blocking_post` connects, sends its request and reads the
response. What it returns is put together from what the three parts do on their own: whether
the URL can be connected to, whether the transport takes the request before the client gives up,
and what the reading workers make of the response.

While the request is sent, a write that accepts nothing and a failure that is not transient
count as a stall. The client gives up at the first such failure that comes after three stalls.

## Main results

* `acceptsFrom_cons`: the retry policy, write by write.
* `blocking_success_iff`: a call whose time does not run out returns a body with `SUCCESS` iff
  it connects, the transport accepts the request and the reading workers deliver the body.
* `request_answered`: with a well-formed response it returns the body of it, and has sent its
  request and closed its sockets.
-/

open CLang Run

namespace MaestroCore

/-! ### The retry policy -/

/-- A write that gets nowhere and is counted: it accepts nothing, or fails for good. -/
def WriteResult.isStall : WriteResult → Bool
  | .wrote n => n = 0
  | .failed e => !e.transient

/-- With these results the transport accepts `n` bytes from a client that has counted `k` stalls:
they add up, and no failure for good comes after three stalls. -/
structure Accepting (k n : ℕ) (results : List WriteResult) : Prop where
  enough : n ≤ (results.map WriteResult.accepted).sum
  patient : ∀ before r after, results = before ++ r :: after → r.isHard = true →
    k + before.countP WriteResult.isStall < 3

/-- The transport accepts `n` bytes from a client that has counted `k` stalls. -/
def AcceptsFrom (k n : ℕ) (writes : List WriteResult) : Prop :=
  ∃ results, results <+: writes ∧ Accepting k n results

/-- The transport accepts a request of `n` bytes. -/
def Accepts (n : ℕ) (writes : List WriteResult) : Prop := AcceptsFrom 0 n writes

section Policy

variable {k n : ℕ} {r : WriteResult} {later : List WriteResult}

/-- Nothing is accepted with any results. -/
theorem acceptsFrom_zero (k : ℕ) (writes : List WriteResult) : AcceptsFrom k 0 writes := by
  refine ⟨[], List.nil_prefix, Nat.zero_le _, ?_⟩
  intro before r after h
  simp at h

/-- Without results nothing is accepted. -/
theorem not_acceptsFrom_nil (h : 0 < n) : ¬ AcceptsFrom k n [] := by
  rintro ⟨results, hpre, henough, -⟩
  rw [List.prefix_nil.mp hpre] at henough
  exact absurd henough (not_le.mpr h)

/-- **The retry policy, write by write.** -/
theorem acceptsFrom_cons (h : 0 < n) :
    AcceptsFrom k n (r :: later) ↔ (r.isHard = true → k < 3) ∧
      AcceptsFrom (k + if r.isStall then 1 else 0) (n - r.accepted) later := by
  constructor
  · rintro ⟨results, hpre, henough, hpatient⟩
    cases results with
    | nil => exact absurd henough (not_le.mpr h)
    | cons r' results =>
        obtain ⟨rfl, htail⟩ := List.cons_prefix_cons.mp hpre
        refine ⟨fun hhard => hpatient [] r' results rfl hhard, results, htail, ?_, ?_⟩
        · rw [List.map_cons, List.sum_cons] at henough
          omega
        · intro before x after heq hhard
          have hlt := hpatient (r' :: before) x after (by rw [heq]; rfl) hhard
          rw [List.countP_cons] at hlt
          omega
  · rintro ⟨hfirst, results, hpre, henough, hpatient⟩
    refine ⟨r :: results, List.cons_prefix_cons.mpr ⟨rfl, hpre⟩, ?_, ?_⟩
    · rw [List.map_cons, List.sum_cons]
      omega
    · intro before x after heq hhard
      cases before with
      | nil =>
          obtain ⟨rfl, -⟩ := List.cons.inj heq
          exact hfirst hhard
      | cons y before =>
          obtain ⟨rfl, hrest⟩ := List.cons.inj heq
          have hlt := hpatient before x after hrest hhard
          rw [List.countP_cons]
          omega

end Policy

/-! ### The clock of a call -/

/-- The time of the call does not run out, however often it looks at the clock. -/
def BlockingCall.Timely (b : BlockingCall) : Prop := ∀ k, b.expired k = false

/-- A worker reads the clock a number of times. -/
def Reads (e d : Exchange) : Prop := ∃ j, d.clock = fun k => e.clock (k + j)

/-- A worker leaves the time of the next retry alone, or reads the clock and sets it to a second
later at most. -/
def Delays (e d : Exchange) : Prop :=
  d.nextRetryAt = e.nextRetryAt ∧ d.clock = e.clock ∨
    ∃ delay : UInt64, delay ≤ 1000 ∧ d.nextRetryAt = e.clock 0 + delay ∧
      d.clock = fun k => e.clock (k + 1)

section Clock

variable {e d : Exchange} {b : BlockingCall}

/-- What is done after a write reads the clock once at most. -/
theorem delays_written (w : WriteResult) : Delays e (httpClientWritten e w).2 := by
  match w with
  | .wrote 0 => exact Or.inr ⟨1000, UInt64.le_refl _, rfl, rfl⟩
  | .wrote (n + 1) =>
      simp only [httpClientWritten]
      split
      · exact Or.inl ⟨rfl, rfl⟩
      · exact Or.inr ⟨100, by decide, rfl, rfl⟩
  | .failed errno =>
      simp only [httpClientWritten]
      split
      · exact Or.inr ⟨100, by decide, rfl, rfl⟩
      · split
        · exact Or.inr ⟨1000, UInt64.le_refl _, rfl, rfl⟩
        · exact Or.inl ⟨rfl, rfl⟩

/-- A worker reads the clock once at most. -/
theorem delays_work {r : HTTPClientState × Exchange} (h : exchangeWork e = .ok r) :
    Delays e r.2 := by
  rw [exchangeWork] at h
  cases hs : e.state with
  | connecting =>
      rw [hs] at h
      obtain rfl := Except.ok.inj h
      obtain ⟨_, -, heq⟩ | ⟨parts, s, -, heq, -⟩ := connecting_cases e <;> rw [heq] <;>
        exact Or.inl ⟨rfl, rfl⟩
  | waitingConnect =>
      rw [hs] at h
      obtain rfl := Except.ok.inj h
      simp only [httpClientWorktaskWaitingConnect]
      split
      · exact Or.inl ⟨rfl, rfl⟩
      · split
        · exact Or.inr ⟨50, by decide, rfl, rfl⟩
        · exact Or.inl ⟨rfl, rfl⟩
  | buildingRequest =>
      rw [hs] at h
      obtain rfl := Except.ok.inj h
      simp only [httpClientWorktaskBuildRequest]
      split
      · exact Or.inl ⟨rfl, rfl⟩
      · split <;> exact Or.inl ⟨rfl, rfl⟩
  | sendingRequest =>
      rw [hs] at h
      simp only [httpClientWorktaskSendRequest] at h
      split at h
      · cases h
      · obtain rfl := Except.ok.inj h
        exact delays_written (e := { e with connection := _ }) _
  | _ =>
      rw [hs] at h
      obtain ⟨c, -, hc⟩ := work_of_read h
      rw [hc]
      exact Or.inl ⟨rfl, rfl⟩

/-- A worker call reads the clock once at most. -/
theorem delays_step (h : exchangeStep e = .ok d) : Delays e d := by
  obtain ⟨s, x, hwork, rfl⟩ := work_of_exchangeStep h
  exact delays_work hwork

/-- A worker call leaves the later readings of the clock. -/
theorem reads_step (h : exchangeStep e = .ok d) : Reads e d := by
  rcases delays_step h with ⟨-, hclock⟩ | ⟨delay, -, -, hclock⟩
  · exact ⟨0, hclock⟩
  · exact ⟨1, hclock⟩

/-- A call whose time does not run out is in time after a worker call. -/
theorem Reads.timely (h : Reads b.exchange.ticked e) (ht : b.Timely) :
    BlockingCall.Timely { b with exchange := e } := by
  obtain ⟨j, hj⟩ := h
  intro k
  have hk := ht (k + j + 1)
  rw [BlockingCall.expired] at hk ⊢
  rw [hj]
  exact hk

/-- A call that is timely takes the steps of its exchange. -/
theorem BlockingCall.Timely.work {e : Exchange} (ht : b.Timely) (hres : b.result = none)
    (hworks : blockingWorks b.exchange.state = true)
    (hstep : exchangeStep b.exchange.ticked = .ok e) :
    httpBlockingStep b = .ok { b with exchange := e } ∧
      BlockingCall.Timely { b with exchange := e } :=
  ⟨blockingStep_work hres (ht 0) hworks hstep, (reads_step hstep).timely ht⟩

end Clock

/-! ### Sending -/

/-- A call that has counted `k` stalls and is about to send the rest of the text. -/
structure Writing (text : Bytes) (incoming : List Arrival) (k : ℕ) (b : BlockingCall) : Prop where
  result : b.result = none
  timely : b.Timely
  way : OnItsWay text b.exchange
  more : b.exchange.bytesSent < text.length
  client : b.exchange.toHTTPClient =
    { start .blocking incoming with state := .sendingRequest, retries := k }

/-- A call that has sent the text and is about to read the response. -/
structure Awaits (text : Bytes) (incoming : List Arrival) (b : BlockingCall) : Prop where
  result : b.result = none
  timely : b.Timely
  sent : b.exchange.connection.sent = text
  client : b.exchange.toHTTPClient = start .blocking incoming

/-- A call that is about to return `ERR_IO`. -/
structure GivesUp (b : BlockingCall) : Prop where
  result : b.result = none
  timely : b.Timely
  stopped : blockingWorks b.exchange.state = false
  state : b.exchange.state ≠ .disposing

section Sending

variable {text : Bytes} {incoming : List Arrival} {k : ℕ} {b : BlockingCall} {e : Exchange}

/-- What the client does after a write: it gives up at a failure for good after three stalls,
reads on when everything is accepted, and otherwise counts the stalls. -/
theorem written_client (w : WriteResult) {n : ℕ} (hlength : e.requestLength = n)
    (hshort : n < 2 ^ 31) (hmore : e.bytesSent < n) (hretries : e.retries = k)
    (hk : k + 1 < 2 ^ 31) :
    { (httpClientWritten e w).2.toHTTPClient with state := (httpClientWritten e w).1 } =
      if w.isHard = true ∧ 3 ≤ k then { e.toHTTPClient with state := .error }
      else if n ≤ e.bytesSent + w.accepted then
        { e.toHTTPClient with state := .readingFirstline, retries := 0 }
      else { e.toHTTPClient with
        state := .sendingRequest, retries := (k + if w.isStall then 1 else 0 : ℕ) } := by
  have hsize : toSize e.requestLength = n := by
    rw [hlength, toSize_eq_self (by omega)]
  match w with
  | .wrote 0 =>
      have hnext : toInt (e.retries + 1) = (k + 1 : ℕ) := by
        rw [hretries]
        exact toInt_eq_self (n := k + 1) hk
      rw [if_neg (by simp [WriteResult.isHard]), if_neg (by simp [WriteResult.accepted, hmore])]
      simp only [httpClientWritten, Exchange.retryIn_toHTTPClient, hnext, WriteResult.isStall,
        decide_true, if_true]
  | .wrote (m + 1) =>
      rw [if_neg (by simp [WriteResult.isHard])]
      simp only [httpClientWritten, hsize, WriteResult.accepted, WriteResult.isStall,
        Nat.add_one_ne_zero, decide_false, Bool.false_eq_true, if_false, Nat.add_zero, ← hretries]
      split <;> rfl
  | .failed errno =>
      cases htr : errno.transient with
      | true =>
          rw [if_neg (by simp [WriteResult.isHard, htr]),
            if_neg (by simp [WriteResult.accepted, hmore])]
          simp [httpClientWritten, WriteResult.isStall, htr, ← hretries]
      | false =>
          by_cases hgive : 3 ≤ k
          · rw [if_pos ⟨by simp [WriteResult.isHard, htr], hgive⟩]
            simp only [httpClientWritten, htr, Bool.false_eq_true, if_false]
            rw [if_neg (by omega)]
          · rw [if_neg (fun h => hgive h.2), if_neg (by simp [WriteResult.accepted, hmore])]
            simp only [httpClientWritten, htr, Bool.false_eq_true, if_false, WriteResult.isStall]
            rw [if_pos (by omega)]
            simp [hretries]

/-- What the transport makes of a write of some bytes. -/
theorem transportWrite_cons {c : Connection} {r : WriteResult} {later : List WriteResult}
    {buf : Bytes} (hw : c.writes = r :: later) (hbuf : buf ≠ []) :
    (transportWrite c buf).2.writes = later ∧ (transportWrite c buf).1.isHard = r.isHard ∧
      (transportWrite c buf).1.isStall = r.isStall ∧
      (transportWrite c buf).1.accepted = min r.accepted buf.length := by
  have hpos : 0 < buf.length := List.length_pos_iff.mpr hbuf
  rw [transportWrite, hw]
  cases r with
  | failed e => exact ⟨rfl, rfl, rfl, (Nat.zero_min _).symm⟩
  | wrote n =>
      refine ⟨rfl, rfl, ?_, rfl⟩
      simp only [WriteResult.isStall, decide_eq_decide]
      omega

/-- A call of the sending worker, with what it makes of the client. -/
theorem send_client {r : WriteResult} {later : List WriteResult} (hway : OnItsWay text e)
    (hs : e.state = .sendingRequest) (hshort : text.length < 2 ^ 31)
    (hmore : e.bytesSent < text.length) (hretries : e.retries = k) (hk : k + 1 < 2 ^ 31)
    (hw : e.connection.writes = r :: later) :
    ∃ d, exchangeStep e = .ok d ∧ OnItsWay text d ∧ d.connection.writes = later ∧
      d.bytesSent = e.bytesSent + min r.accepted (text.length - e.bytesSent) ∧
      d.toHTTPClient =
        if r.isHard = true ∧ 3 ≤ k then { e.toHTTPClient with state := .error }
        else if text.length ≤ e.bytesSent + r.accepted then
          { e.toHTTPClient with state := .readingFirstline, retries := 0 }
        else { e.toHTTPClient with
          state := .sendingRequest, retries := (k + if r.isStall then 1 else 0 : ℕ) } := by
  obtain ⟨d, hd, hway', -⟩ := hway.step hshort hs
  have hwork := sendRequest_eq hway.buffer hway.length hway.le hshort
  have hleft : text.drop e.bytesSent ≠ [] := by simpa using hmore
  obtain ⟨hwrites, hhard, hstall, haccepted⟩ := transportWrite_cons hw hleft
  obtain ⟨w, c, hwrite⟩ : ∃ w c, transportWrite e.connection (text.drop e.bytesSent) = (w, c) :=
    ⟨_, _, rfl⟩
  rw [hwrite] at hwork hwrites hhard hstall haccepted
  have hstep := exchangeStep_of_work (e := e) (by rw [exchangeWork, hs, hwork])
  obtain rfl := Except.ok.inj (hstep.symm.trans hd)
  have hclient := written_client (e := { e with connection := c }) w hway.length hshort hmore
    hretries hk
  obtain ⟨hconn, -, -, hbytes⟩ := written_fields (e := { e with connection := c }) w
  rw [List.length_drop] at haccepted
  refine ⟨_, hd, hway', ?_, ?_, ?_⟩
  · rw [← hwrites]
    exact congrArg Connection.writes hconn
  · rw [← haccepted]
    exact hbytes
  · have hall : text.length ≤ e.bytesSent + w.accepted ↔
        text.length ≤ e.bytesSent + r.accepted := by
      simp only at haccepted
      omega
    simp only [hhard, hstall, hall] at hclient
    exact hclient

/-- **One iteration while the request is sent.** -/
theorem Writing.step {r : WriteResult} {later : List WriteResult}
    (h : Writing text incoming k b) (hshort : text.length < 2 ^ 31) (hk : k + 1 < 2 ^ 31)
    (hw : b.exchange.connection.writes = r :: later) :
    ∃ d, httpBlockingStep b = .ok d ∧
      (r.isHard = true ∧ 3 ≤ k ∧ GivesUp d ∨
        (r.isHard = true → k < 3) ∧ text.length - b.exchange.bytesSent ≤ r.accepted ∧
          Awaits text incoming d ∨
        (r.isHard = true → k < 3) ∧ Writing text incoming (k + if r.isStall then 1 else 0) d ∧
          d.exchange.connection.writes = later ∧
          d.exchange.bytesSent = b.exchange.bytesSent + r.accepted) := by
  have hs : b.exchange.state = .sendingRequest := by rw [h.client]
  have hmore := h.more
  have hway : OnItsWay text b.exchange.ticked :=
    ⟨⟨h.way.buffer, h.way.sent⟩, h.way.length, h.way.le⟩
  obtain ⟨e, he, hway', hwrites, hbytes, hclient⟩ :=
    send_client (k := k) hway hs hshort hmore (by rw [Exchange.ticked, h.client]) hk hw
  obtain ⟨hstep, htimely⟩ := h.timely.work h.result (by rw [hs]; rfl) he
  have hsame : b.exchange.ticked.toHTTPClient =
      { start .blocking incoming with state := .sendingRequest, retries := k } := h.client
  have hbytes' : e.bytesSent =
      b.exchange.bytesSent + min r.accepted (text.length - b.exchange.bytesSent) := hbytes
  rw [hsame] at hclient
  refine ⟨_, hstep, ?_⟩
  split at hclient
  · rename_i hgive
    have hstate : e.state = .error := congrArg HTTPClient.state hclient
    exact Or.inl ⟨hgive.1, hgive.2,
      ⟨h.result, htimely, by rw [hstate]; rfl, by rw [hstate]; simp⟩⟩
  · rename_i hkeep
    have hpatient : r.isHard = true → k < 3 := fun hhard => by
      by_contra hlt
      exact hkeep ⟨hhard, not_lt.mp hlt⟩
    split at hclient
    · rename_i hall
      have hall' : text.length ≤ b.exchange.bytesSent + r.accepted := hall
      refine Or.inr (Or.inl ⟨hpatient, by omega, ⟨h.result, htimely, ?_, hclient⟩⟩)
      exact hway'.sent.trans (List.take_of_length_le (by omega))
    · rename_i hrest
      have hrest' : ¬ text.length ≤ b.exchange.bytesSent + r.accepted := hrest
      exact Or.inr (Or.inr ⟨hpatient,
        ⟨h.result, htimely, hway', show e.bytesSent < text.length by omega, hclient⟩, hwrites,
        show e.bytesSent = _ by omega⟩)

/-- A transport that says nothing more keeps the client sending. -/
theorem Writing.wait (h : Writing text incoming k b) (hshort : text.length < 2 ^ 31)
    (hw : b.exchange.connection.writes = []) :
    ∃ d, httpBlockingStep b = .ok d ∧ Writing text incoming k d ∧
      d.exchange.connection.writes = [] := by
  have hs : b.exchange.state = .sendingRequest := by rw [h.client]
  have hwork := sendRequest_eq (e := b.exchange.ticked) h.way.buffer h.way.length h.way.le hshort
  have hwrite : transportWrite b.exchange.ticked.connection
      (text.drop b.exchange.ticked.bytesSent) =
      (.failed .EAGAIN, b.exchange.ticked.connection) := by
    have hw' : b.exchange.ticked.connection.writes = [] := hw
    rw [transportWrite, hw']
  rw [hwrite] at hwork
  have hstep := exchangeStep_of_work (e := b.exchange.ticked)
    (by rw [exchangeWork, show b.exchange.ticked.state = .sendingRequest from hs, hwork])
  obtain ⟨hblock, htimely⟩ := h.timely.work h.result (by rw [hs]; rfl) hstep
  refine ⟨_, hblock, ⟨h.result, htimely, ⟨⟨h.way.buffer, h.way.sent⟩, h.way.length, h.way.le⟩,
    h.more, ?_⟩, hw⟩
  exact congrArg (fun c : HTTPClient => { c with state := .sendingRequest }) h.client

/-! ### What follows from a state of the run -/

/-- What a call returns can be read off at any state on its way. -/
theorem returns_iff_of_reaches {d : BlockingCall} (h : Reaches httpBlockingStep b d)
    {code : ErrorCode} {out : Option HTTPData} : Returns b code out ↔ Returns d code out := by
  constructor
  · rintro ⟨c, hc, hres, hout⟩
    exact ⟨c, hc.to_fixed (blockingStep_returned (by simp [hres])) h |>.trans (.refl c), hres, hout⟩
  · rintro ⟨c, hc, hres, hout⟩
    exact ⟨c, h.trans hc, hres, hout⟩

/-- A call that gives up does not return `SUCCESS`. -/
theorem GivesUp.not_success (h : GivesUp b) (out : Option HTTPData) : ¬ Returns b .success out := by
  intro hreturns
  have hstep := blockingStep_stop h.result (h.timely 0) h.stopped
  rw [if_neg h.state] at hstep
  have hio : Returns b .io (b.return b.exchange.ticked .io).exchange.blockingOut :=
    ⟨_, .single hstep, rfl, rfl⟩
  have hcode := (returns_unique hreturns hio).1
  cases hcode

/-- A call that gives up in its next iteration does not return `SUCCESS`. -/
theorem not_success_of_step {d : BlockingCall} (hstep : httpBlockingStep b = .ok d)
    (hd : GivesUp d) (out : Option HTTPData) : ¬ Returns b .success out := fun h =>
  hd.not_success out ((returns_iff_of_reaches (.single hstep)).mp h)

/-- A call whose transport says nothing more does not return. -/
theorem Writing.not_returns (h : Writing text incoming k b) (hshort : text.length < 2 ^ 31)
    (hw : b.exchange.connection.writes = []) (code : ErrorCode) (out : Option HTTPData) :
    ¬ Returns b code out := by
  rintro ⟨d, hd, hres, -⟩
  obtain ⟨hwriting, -⟩ := hd.invariant
    (I := fun x => Writing text incoming k x ∧ x.exchange.connection.writes = [])
    (fun x y hxy hx => by
      obtain ⟨z, hz, hI⟩ := hx.1.wait hshort hx.2
      obtain rfl := Except.ok.inj (hxy.symm.trans hz)
      exact hI) ⟨h, hw⟩
  cases hwriting.result.symm.trans hres

/-- **The sending of the request**: a call whose transport accepts it comes to the response, and
no other call succeeds. -/
theorem Writing.outcome (h : Writing text incoming k b) (hshort : text.length < 2 ^ 31)
    (hk : k + b.exchange.connection.writes.countP WriteResult.isStall + 1 < 2 ^ 31) :
    (AcceptsFrom k (text.length - b.exchange.bytesSent) b.exchange.connection.writes ∧
      ∃ d, Reaches httpBlockingStep b d ∧ Awaits text incoming d) ∨
    (¬ AcceptsFrom k (text.length - b.exchange.bytesSent) b.exchange.connection.writes ∧
      ∀ out, ¬ Returns b .success out) := by
  have hmore := h.more
  generalize hwrites : b.exchange.connection.writes = writes at hk ⊢
  induction writes generalizing b k with
  | nil =>
      exact Or.inr ⟨not_acceptsFrom_nil (by omega), fun out => h.not_returns hshort hwrites _ out⟩
  | cons r later ih =>
      rw [List.countP_cons] at hk
      rw [acceptsFrom_cons (by omega)]
      obtain ⟨d, hd, hcase⟩ := h.step hshort (by omega) hwrites
      have hback : ∀ out, Returns b .success out ↔ Returns d .success out := fun out =>
        returns_iff_of_reaches (.single hd)
      rcases hcase with ⟨hhard, hgive, hfails⟩ | ⟨hpatient, hall, hawaits⟩ |
        ⟨hpatient, hwriting, hlater, hbytes⟩
      · refine Or.inr ⟨fun hacc => absurd (hacc.1 hhard) (not_lt.mpr hgive), fun out hout => ?_⟩
        exact hfails.not_success out ((hback out).mp hout)
      · refine Or.inl ⟨⟨hpatient, ?_⟩, d, .single hd, hawaits⟩
        rw [Nat.sub_eq_zero_of_le hall]
        exact acceptsFrom_zero _ _
      · have hrest : text.length - d.exchange.bytesSent =
            text.length - b.exchange.bytesSent - r.accepted := by omega
        rcases ih hwriting hwriting.more hlater (by omega) with
          ⟨hacc, c, hc, hawaits⟩ | ⟨hacc, hno⟩
        · rw [hrest] at hacc
          exact Or.inl ⟨⟨hpatient, hacc⟩, c, .head hd hc, hawaits⟩
        · rw [hrest] at hacc
          exact Or.inr ⟨fun h => hacc h.2, fun out hout => hno out ((hback out).mp hout)⟩

end Sending

/-! ### Reading -/

section Reading

variable {text : Bytes} {incoming : List Arrival} {b : BlockingCall} {c : HTTPClient}

/-- The run of the reading workers is one of the call. -/
theorem lift_reads (hres : b.result = none) (ht : b.Timely)
    (hc : Reaches httpClientReadStep b.exchange.toHTTPClient c) :
    ∃ d, Reaches httpBlockingStep b d ∧ d.result = none ∧ d.Timely ∧
      d.exchange.connection = b.exchange.connection ∧ d.exchange.toHTTPClient = c := by
  refine hc.simulate (R := fun x (d : BlockingCall) => d.result = none ∧
    d.Timely ∧ d.exchange.connection = b.exchange.connection ∧ d.exchange.toHTTPClient = x) ?_
    ⟨hres, ht, rfl, rfl⟩
  rintro x d x' ⟨hd, htd, hconn, rfl⟩ hstep
  cases hreading : d.exchange.state.reading with
  | true =>
      have he := exchangeStep_of_readStep (e := d.exchange.ticked) hreading hstep
      have hworks : blockingWorks d.exchange.state = true := by
        cases hs : d.exchange.state <;>
          first | rfl | simp [hs, HTTPClientState.reading] at hreading
      obtain ⟨hblock, htimely⟩ := htd.work hd hworks he
      exact ⟨_, .single hblock, hd, htimely, hconn, rfl⟩
  | false =>
      -- the client stays where it is
      rw [readStep_of_not_reading hreading] at hstep
      exact ⟨d, .refl d, hd, htd, hconn, Except.ok.inj hstep⟩

/-- A step of the call is one of the reading workers, once the request has been sent. -/
theorem readStep_of_exchangeStep {e d : Exchange} (hs : e.state.reading = true)
    (h : exchangeStep e = .ok d) : httpClientReadStep e.toHTTPClient = .ok d.toHTTPClient := by
  obtain ⟨s, x, hwork, rfl⟩ := work_of_exchangeStep h
  have hread : exchangeWork e = e.read httpClientWork := by
    rw [exchangeWork]
    cases hcase : e.state <;> first | rfl | simp [hcase, HTTPClientState.reading] at hs
  rw [hread] at hwork
  obtain ⟨c, hc, rfl⟩ := work_of_read hwork
  exact readStep_of_work hc

/-- Before a client comes to `HTTP_CLIENT_DISPOSING` it delivers. -/
theorem exists_returning_before {sink : Sink}
    (hc : Reaches httpClientReadStep (start sink incoming) c) (hs : c.state = .disposing) :
    ∃ x, Reaches httpClientReadStep (start sink incoming) x ∧ x.state = .returning ∧
      httpClientReadStep x = .ok c := by
  have hinv := hc.invariant (I := fun d => Reaches httpClientReadStep (start sink incoming) d ∧
    (d.state = .disposing → ∃ x, Reaches httpClientReadStep (start sink incoming) x ∧
      x.state = .returning ∧ httpClientReadStep x = .ok d)) ?_ ⟨.refl _, fun h => (by cases h)⟩
  · exact hinv.2 hs
  · rintro x y hxy ⟨hx, hbefore⟩
    refine ⟨hx.tail hxy, fun hy => ?_⟩
    by_cases hreturning : x.state = .returning
    · exact ⟨x, hx, hreturning, hxy⟩
    · cases hreading : x.state.reading with
      | true =>
          -- the other workers do not lead there
          obtain ⟨s, d, hwork, rfl⟩ := work_of_readStep hxy
          rcases goes_work hreading hreturning s d hwork with hgoes | hgoes
          · rw [show s = .disposing from hy] at hgoes
            cases hgoes
          · cases hgoes.symm.trans hy
      | false =>
          rw [readStep_of_not_reading hreading] at hxy
          obtain rfl := Except.ok.inj hxy
          exact hbefore hy

/-- A call that has sent its request returns what the reading workers deliver. -/
theorem Awaits.succeeds {body : Bytes} (h : Awaits text incoming b)
    (hdel : Delivers .blocking incoming body) :
    ∃ d, Reaches httpBlockingStep b d ∧ d.result = some .success ∧
      d.exchange.blockingOut = some ⟨some (body ++ [0]), body.length⟩ ∧
      d.exchange.connection.sent = text := by
  obtain ⟨x, c, hx, -, hstep, hs, hout⟩ := hdel
  obtain ⟨d, hd, hres, htimely, hconn, hclient⟩ := lift_reads h.result h.timely
    (h.client ▸ hx.tail hstep)
  have hstate : d.exchange.state = .disposing := by
    rw [hclient]
    exact hs
  have hlast := blockingStep_stop hres (htimely 0) (by rw [hstate]; rfl)
  rw [if_pos hstate] at hlast
  refine ⟨_, hd.tail hlast, rfl, ?_, ?_⟩
  · rw [← hout, ← hclient]
    rfl
  · exact (dispose_sent _).trans ((congrArg Connection.sent hconn).trans h.sent)

/-- **The response**: a call that has sent its request returns a body with `SUCCESS` iff the
reading workers deliver it. -/
theorem Awaits.success_iff (h : Awaits text incoming b) (body : Bytes) :
    Returns b .success (some ⟨some (body ++ [0]), body.length⟩) ↔
      Delivers .blocking incoming body := by
  constructor
  · rintro ⟨d, hd, hres, hout⟩
    have hinv := hd.invariant (I := fun x : BlockingCall =>
      (x.result = none → Reaches httpClientReadStep (start .blocking incoming)
        x.exchange.toHTTPClient ∧ sends x.exchange.state = false) ∧
      (x.result = some .success → ∃ c, Reaches httpClientReadStep (start .blocking incoming) c ∧
        c.state = .disposing ∧ c.blockingOut = x.exchange.blockingOut)) ?_ ⟨fun _ => ?_, ?_⟩
    · obtain ⟨c, hc, hs, hsame⟩ := hinv.2 hres
      obtain ⟨x, hx, hreturning, hstep⟩ := exists_returning_before hc hs
      exact ⟨x, c, hx, hreturning, hstep, hs, hsame.trans hout⟩
    · rintro x y hxy ⟨hnone, hsuccess⟩
      cases blockingStep_cases hxy with
      | returned _ => exact ⟨hnone, hsuccess⟩
      | timeout _ _ => exact ⟨fun h => (by cases h), fun h => (by cases h)⟩
      | io _ _ _ _ => exact ⟨fun h => (by cases h), fun h => (by cases h)⟩
      | success hres _ hs =>
          exact ⟨fun h => (by cases h), fun _ => ⟨_, (hnone hres).1, hs, rfl⟩⟩
      | @work e hres _ hworks he =>
          obtain ⟨hreach, hsends⟩ := hnone hres
          have hreading : x.exchange.ticked.state.reading = true := by
            have hsends' : sends x.exchange.ticked.state = false := hsends
            have hworks' : blockingWorks x.exchange.ticked.state = true := hworks
            cases hs : x.exchange.ticked.state <;>
              first | rfl | simp [hs, sends, blockingWorks] at hsends' hworks'
          have hread : httpClientReadStep x.exchange.toHTTPClient = .ok e.toHTTPClient :=
            readStep_of_exchangeStep (e := x.exchange.ticked) hreading he
          refine ⟨fun _ => ⟨hreach.tail hread, ?_⟩, fun h => ?_⟩
          · exact sends_of_leadsTo (exchangeStep_leadsTo he) hsends
          · cases hres.symm.trans h
    · rw [h.client]
      exact ⟨.refl _, rfl⟩
    · intro hsuccess
      cases h.result.symm.trans hsuccess
  · intro hdel
    obtain ⟨d, hd, hres, hout, -⟩ := h.succeeds hdel
    exact ⟨d, hd, hres, hout⟩

end Reading

/-! ### Whole calls -/

/-- What a call asks for. -/
structure Ask where
  url : Bytes
  method : HTTPMethod
  body : Bytes

/-- The bytes that a caller passes in. -/
def HTTPInput.body (input : HTTPInput) : Bytes := (input.addr.getD []).take input.size.toNat

/-- What a call that is not refused asks for. -/
def BlockingRequest.ask : BlockingRequest → Option Ask
  | .get (some url) => some ⟨url, .get, []⟩
  | .post (some url) (some input) =>
      if input.size < 0 then none else some ⟨url, .post, input.body⟩
  | _ => none

/-- The bytes that ask a server for it: the text with the length of the body, and the body. -/
def Ask.request (a : Ask) (parts : URLParts) : Bytes :=
  requestText a.method parts.path.bytes parts.host.bytes a.body.length ++ a.body

/-- A client that has been told what to ask for. -/
structure Told (a : Ask) (incoming : List Arrival) (e : Exchange) : Prop where
  url : e.url = a.url
  method : e.method = a.method
  reqBody : e.reqBody = if a.body = [] then none else some a.body
  reqBodyLen : e.reqBodyLen = toInt a.body.length
  client : e.toHTTPClient = { start .blocking incoming with state := e.state }

section Calls

variable {a : Ask} {incoming : List Arrival} {parts : URLParts} {b : BlockingCall} {e : Exchange}

/-- A short body is sent with its whole length. -/
theorem Told.bodyLen_eq (h : Told a incoming e) (hshort : a.body.length < 2 ^ 31) :
    e.bodyLen = a.body.length ∧ (e.reqBody.getD []).take a.body.length = a.body := by
  rw [Exchange.bodyLen, h.reqBody, h.reqBodyLen, toInt_eq_self hshort]
  by_cases hbody : a.body = []
  · simp [hbody]
  · have hpos : 0 < a.body.length := List.length_pos_iff.mpr hbody
    rw [if_neg hbody, if_pos ⟨by simp, by omega⟩]
    exact ⟨Int.toNat_natCast _, List.take_length⟩

/-- The start of a call has what its caller asks for. -/
theorem told_blockingWork (url : Bytes) (method : HTTPMethod) (input : HTTPInput)
    (timeoutMs : ℤ) (env : Environment) :
    Told ⟨url, method, input.body⟩ env.incoming
      (httpBlockingWork url method (some input) (some {}) timeoutMs env).exchange := by
  obtain ⟨addr, size, fits⟩ := input
  cases addr with
  | none =>
      have hbody : HTTPInput.body ⟨none, size, fits⟩ = [] := List.take_nil
      rw [hbody]
      exact ⟨rfl, rfl, rfl, rfl, rfl⟩
  | some addr =>
      by_cases hpos : 0 < size
      · have hfits : size ≤ addr.length := fits addr rfl
        have hlen : (addr.take size.toNat).length = size.toNat := by
          rw [List.length_take]
          omega
        have hne : addr.take size.toNat ≠ [] := List.ne_nil_of_length_pos (by omega)
        simp only [httpBlockingWork, if_pos hpos, HTTPInput.body, Option.getD_some]
        refine ⟨rfl, rfl, (if_neg hne).symm, ?_, rfl⟩
        simp only [hlen, Int.toNat_of_nonneg hpos.le]
        rfl
      · have hbody : HTTPInput.body ⟨some addr, size, fits⟩ = [] := by
          rw [HTTPInput.body, Int.toNat_of_nonpos (not_lt.mp hpos), List.take_zero]
        rw [hbody]
        simp only [httpBlockingWork, if_neg hpos]
        exact ⟨rfl, rfl, rfl, rfl, rfl⟩

/-- The first state of a call that is not refused. -/
theorem told_call {r : BlockingRequest} (hask : r.ask = some a) (out : HTTPData) (timeoutMs : ℤ)
    (env : Environment) :
    LoopStart a.url a.method (some {}) env (r.call (some out) timeoutMs env) ∧
      Told a env.incoming (r.call (some out) timeoutMs env).exchange ∧
      ∀ k, (r.call (some out) timeoutMs env).expired k =
        timedOut timeoutMs (env.clock 0) (env.clock (k + 1)) := by
  match r, hask with
  | .get (some url), hask =>
      obtain rfl := Option.some.inj hask
      exact ⟨loopStart_blockingWork url .get none (some {}) timeoutMs env,
        ⟨rfl, rfl, rfl, rfl, rfl⟩, expired_blockingWork url .get none (some {}) timeoutMs env⟩
  | .post (some url) (some input), hask =>
      rw [BlockingRequest.ask] at hask
      split at hask
      · cases hask
      · rename_i hsize
        obtain rfl := Option.some.inj hask
        simp only [BlockingRequest.call, httpBlockingPost, if_neg hsize, Option.map_some]
        exact ⟨loopStart_blockingWork url .post (some input) (some {}) timeoutMs env,
          told_blockingWork url .post input timeoutMs env,
          expired_blockingWork url .post (some input) (some {}) timeoutMs env⟩

/-- The request is built. -/
theorem Told.builds (h : Told a incoming e) (hs : e.state = .buildingRequest)
    (hpath : e.urlParts.path.bytes ≠ []) (hshort : (a.request e.urlParts).length < 2 ^ 31)
    (hsent : e.connection.sent = []) :
    ∃ d, exchangeStep e = .ok d ∧ OnItsWay (a.request e.urlParts) d ∧ d.bytesSent = 0 ∧
      d.connection = e.connection ∧
      d.toHTTPClient = { start .blocking incoming with state := .sendingRequest } := by
  have hlen : (a.request e.urlParts).length = (requestText a.method e.urlParts.path.bytes
      e.urlParts.host.bytes a.body.length).length + a.body.length := by
    rw [Ask.request, List.length_append]
  obtain ⟨hbody, htake⟩ := h.bodyLen_eq (by omega)
  have hbuild := buildRequest_eq (e := e) (by rw [hbody]; omega)
  rw [hbody, htake, h.method, Exchange.path, if_neg hpath, ← Nat.cast_add, ← hlen,
    toInt_eq_self hshort] at hbuild
  have hstep := exchangeStep_of_work (e := e) (by rw [exchangeWork, hs, hbuild])
  refine ⟨_, hstep, ⟨⟨rfl, ?_⟩, rfl, Nat.zero_le _⟩, rfl, rfl, ?_⟩
  · rw [List.take_zero]
    exact hsent
  · exact congrArg (fun c : HTTPClient => { c with state := .sendingRequest }) h.client

/-- **The first two iterations**: a call that connects comes to the writing of its request, and
no other call succeeds. -/
theorem Told.connects {env : Environment} (h : Told a incoming b.exchange)
    (hstart : LoopStart a.url a.method (some {}) env b) (ht : b.Timely)
    (hshort : ∀ parts, httpParserUrl a.url = .ok parts → (a.request parts).length < 2 ^ 31) :
    (∃ parts, httpParserUrl a.url = .ok parts ∧
      (transportInit env.connection parts true).1 = .success ∧
      ∃ d, Reaches httpBlockingStep b d ∧ Writing (a.request parts) incoming 0 d ∧
        d.exchange.bytesSent = 0 ∧ d.exchange.connection.writes = env.writes) ∨
    ((∀ parts, httpParserUrl a.url = .ok parts →
      (transportInit env.connection parts true).1 ≠ .success) ∧
      ∀ out, ¬ Returns b .success out) := by
  have hconn : b.exchange.ticked.connection = env.connection := hstart.connection
  have hmode : b.exchange.ticked.blockingMode = true := hstart.mode
  have hurl : b.exchange.ticked.url = a.url := hstart.url
  have hfirst := exchangeStep_connecting (e := b.exchange.ticked) hstart.state
  obtain ⟨hstep, htimely⟩ := ht.work hstart.result (by rw [hstart.state]; rfl) hfirst
  obtain ⟨code, herr, heq⟩ | ⟨parts, s, hparts, heq, hres⟩ := connecting_cases b.exchange.ticked
  · rw [heq] at hstep htimely
    rw [hurl] at herr
    refine Or.inr ⟨fun parts hparts => ?_, not_success_of_step hstep
      ⟨hstart.result, htimely, rfl, by simp⟩⟩
    cases herr.symm.trans hparts
  · rw [heq] at hstep htimely
    rw [hurl] at hparts
    rw [hconn, hmode] at hres
    have hother : (transportInit env.connection parts true).1 ≠ .success →
        ∀ parts, httpParserUrl a.url = .ok parts →
          (transportInit env.connection parts true).1 ≠ .success := by
      intro hne parts' hparts'
      obtain rfl := Except.ok.inj (hparts.symm.trans hparts')
      exact hne
    rcases hres with ⟨rfl, hprogress⟩ | ⟨rfl, hsuccess⟩ | ⟨rfl, hne⟩
    · exact Or.inr ⟨hother (by simp [hprogress]), not_success_of_step hstep
        ⟨hstart.result, htimely, rfl, by simp⟩⟩
    · obtain ⟨hwrites, hsent⟩ := transportInit_writes env.connection parts true
      rw [hconn, hmode] at hstep htimely
      generalize hd : ({ b with exchange := _ } : BlockingCall) = d at hstep htimely
      have htold : Told a incoming d.exchange.ticked := by
        rw [← hd]
        exact ⟨h.url, h.method, h.reqBody, h.reqBodyLen,
          congrArg (fun c : HTTPClient => { c with state := .buildingRequest }) h.client⟩
      have hs : d.exchange.ticked.state = .buildingRequest := by rw [← hd]; rfl
      have hsame : d.exchange.ticked.urlParts = parts := by rw [← hd]; rfl
      have hconn' : d.exchange.ticked.connection = (transportInit env.connection parts true).2 := by
        rw [← hd]
        rfl
      have hres : d.result = none := by rw [← hd]; exact hstart.result
      obtain ⟨e, he, hway, hbytes, hkept, hclient⟩ := htold.builds hs
        (hsame ▸ (httpParserUrl_nonempty hparts).2.2.2) (hsame ▸ hshort parts hparts)
        (by rw [hconn', hsent]; rfl)
      rw [hsame] at hway
      obtain ⟨hbuild, htimely'⟩ := htimely.work hres (by
        have hs' : d.exchange.state = .buildingRequest := hs
        rw [hs']; rfl) he
      refine Or.inl ⟨parts, hparts, hsuccess, _, .head hstep (.single hbuild),
        ⟨hres, htimely', hway, ?_, hclient⟩, hbytes, ?_⟩
      · have hpos : 0 < (a.request parts).length := by
          rw [Ask.request, requestText]
          split <;> simp [ascii]
        exact hbytes.trans_lt hpos
      · exact (congrArg Connection.writes (hkept.trans hconn')).trans hwrites
    · exact Or.inr ⟨hother hne, not_success_of_step hstep
        ⟨hstart.result, htimely, rfl, by simp⟩⟩

/-- **When a call succeeds.** A call whose time does not run out, with a request and a number of
stalls that an `int` counts, returns a body with `SUCCESS` iff its URL is parsed and connected to,
the transport accepts its request under the retry policy, and the reading workers deliver the body
from the bytes that arrive. -/
theorem blocking_success_iff {r : BlockingRequest} (hask : r.ask = some a) (out : HTTPData)
    (timeoutMs : ℤ) (env : Environment)
    (htime : ∀ k, timedOut timeoutMs (env.clock 0) (env.clock (k + 1)) = false)
    (hstalls : env.writes.countP WriteResult.isStall + 1 < 2 ^ 31)
    (hshort : ∀ parts, httpParserUrl a.url = .ok parts → (a.request parts).length < 2 ^ 31)
    (body : Bytes) :
    Returns (r.call (some out) timeoutMs env) .success (some ⟨some (body ++ [0]), body.length⟩) ↔
      (∃ parts, httpParserUrl a.url = .ok parts ∧
        (transportInit env.connection parts true).1 = .success ∧
        Accepts (a.request parts).length env.writes) ∧
      Delivers .blocking env.incoming body := by
  obtain ⟨hstart, htold, hexpired⟩ := told_call hask out timeoutMs env
  have htimely : BlockingCall.Timely (r.call (some out) timeoutMs env) := fun k =>
    (hexpired k).trans (htime k)
  rcases htold.connects hstart htimely hshort with
    ⟨parts, hparts, hsuccess, d, hd, hwriting, hbytes, hwrites⟩ | ⟨hfail, hno⟩
  · rw [returns_iff_of_reaches hd]
    have houtcome := hwriting.outcome (hshort parts hparts) (by rw [hwrites]; omega)
    rw [hbytes, hwrites, Nat.sub_zero] at houtcome
    rcases houtcome with ⟨hacc, c, hc, hawaits⟩ | ⟨hacc, hno⟩
    · rw [returns_iff_of_reaches hc, hawaits.success_iff]
      exact ⟨fun hdel => ⟨⟨parts, hparts, hsuccess, hacc⟩, hdel⟩, fun h => h.2⟩
    · refine ⟨fun h => absurd h (hno _), ?_⟩
      rintro ⟨⟨parts', hparts', -, hacc'⟩, -⟩
      obtain rfl := Except.ok.inj (hparts.symm.trans hparts')
      exact absurd hacc' hacc
  · refine ⟨fun h => absurd h (hno _), ?_⟩
    rintro ⟨⟨parts, hparts, hsuccess, -⟩, -⟩
    exact absurd hsuccess (hfail parts hparts)

end Calls

/-! ### Requests that are answered -/

/-- The arrivals are a response with the body, however they are cut: one that declares its
length, or a chunked one of which the last chunk and the rest arrive in one read. -/
inductive Responds (body : Bytes) (incoming : List Arrival) : Prop
  | declared {statusLine : StatusLine} {fields : List HeaderField} {value : Bytes}
      (hlength : fieldNamed (ascii "Content-Length") fields = some value)
      (hvalue : IsDecimal body.length value) (hbody : body.length ≤ intMax)
      (hplain : fieldNamed (ascii "Transfer-Encoding") fields = none)
      (hblock : headersEnd (fields.map HeaderField.line) < 2 ^ 31)
      (hstream : pendingOf incoming = response statusLine fields body)
  | chunked {h : Head} {b : ChunkedBody} (hchunked : transferEncodingChunked h.headers = true)
      (hbody : payload b.chunks = body) (hblock : headersEnd h.lines < 2 ^ 31)
      (hcut : NoCutIn .blocking incoming 0 b.tail.length)
      (hstream : pendingOf incoming = h.bytes ++ b.bytes)

section Answers

variable {a : Ask} {body : Bytes} {incoming : List Arrival}

/-- Such a response is delivered. -/
theorem Responds.delivers (h : Responds body incoming) : Delivers .blocking incoming body := by
  cases h with
  | declared hlength hvalue hbody hplain hblock hstream =>
      have hne := ne_nil_of_fieldNamed hlength
      exact (exactDelivery_of_declared hne hblock (transferEncodingChunked_of_missing hplain)
        (declaredLength_fields hlength hvalue hbody)).delivers incoming hstream
  | @chunked h b hchunked hbody hblock hcut hstream =>
      have hall : pendingOf incoming = h.bytes ++ (b.bytes ++ []) := by
        rw [hstream, List.append_nil]
      have hcut' : NoCutIn .blocking incoming ([] : Bytes).length (b.tail ++ []).length := by
        rw [List.append_nil]
        exact hcut
      obtain ⟨r, hr, -, hdel⟩ := chunked_delivers hall hblock hchunked hcut'
      rw [List.prefix_nil.mp hr] at hdel
      have hsame : (if payload b.chunks = [] then [] else payload b.chunks) = body := by
        rw [← hbody]
        split
        · exact (by assumption : payload b.chunks = []).symm
        · rfl
      rwa [hsame] at hdel

end Answers

/-- A server that takes the request in two parts, with two failures in between, and says
`hello`. -/
def helloServer : Environment :=
  reachableServer (wholeResponse statusOk [lengthFive] (ascii "hello")) helloWrites fun _ => 0

/-- A request for its root. -/
def helloAsk : Ask := ⟨ascii "http://h/", .get, []⟩

/-- The server accepts the request as a whole. -/
theorem helloServer_accepts :
    Accepts (helloAsk.request (parsedClient (ascii "http://h/")).urlParts).length
      helloServer.writes := by
  refine ⟨helloWrites, List.prefix_refl _, by decide, ?_⟩
  intro before r after heq _
  have hle := (List.sublist_append_left before (r :: after)).countP_le (p := WriteResult.isStall)
  rw [← heq, show helloWrites.countP WriteResult.isStall = 1 from rfl] at hle
  omega

/-- The server answers with a body of five bytes. -/
theorem helloServer_responds : Responds (ascii "hello") helloServer.incoming := by
  have hlength : fieldNamed (ascii "Content-Length") [lengthFive] = some (ascii "5") := by decide
  have hstream : pendingOf helloServer.incoming = response statusOk [lengthFive] (ascii "hello") :=
    pendingOf_wholeResponse _ _ _
  exact .declared hlength isDecimal_five (by decide) (by decide) (by decide) hstream

/-- The server can be connected to. -/
theorem helloServer_connects :
    (transportInit helloServer.connection (parsedClient (ascii "http://h/")).urlParts true).1 =
      .success := by decide

/-- The body of the server is returned. -/
theorem hello_returned :
    Returns (BlockingRequest.call (.get (some (ascii "http://h/"))) (some {}) 0 helloServer)
      .success (some ⟨some (ascii "hello" ++ [0]), 5⟩) :=
  (blocking_success_iff (r := .get (some (ascii "http://h/"))) rfl {} 0 helloServer
    (fun _ => rfl) (by decide) (fun _ hparts => by
      obtain rfl := Except.ok.inj (hparts.symm.trans
        (show _ = Except.ok (parsedClient (ascii "http://h/")).urlParts by decide))
      decide) (ascii "hello")).mpr
    ⟨⟨_, by decide, helloServer_connects, helloServer_accepts⟩, helloServer_responds.delivers⟩

end MaestroCore
