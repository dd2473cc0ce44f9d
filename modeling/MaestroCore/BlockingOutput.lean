import MaestroCore.Transitions

/-!
# The Output of a Blocking Call

A blocking call empties the caller's `http_data`, fills it in `HTTP_CLIENT_RETURNING`, and
returns in the next iteration of its loop, after one more look at the clock. When the time
runs out just there, the call returns `ERR_TIMEOUT` with the output filled.

## Main results

* `blockingStep_cases`: what one iteration of the loop can do.
* `output_only_on_success_iff`: the output is filled exactly on success, unless the time runs
  out between the delivery and the return, or the call is refused with an output that was
  not empty.
* `post_code_independent_iff`: a post without an output returns the code of a post with one
  exactly when no body is delivered in time.
-/

open CLang Run

namespace MaestroCore

/-! ### One iteration of the loop -/

/-- The time has run out at the clock reading `k`. -/
def BlockingCall.expired (b : BlockingCall) (k : ℕ) : Bool :=
  timedOut b.timeoutMs b.start (b.exchange.clock k)

section Steps

variable {b d : BlockingCall}

/-- What an iteration does. -/
inductive BlockingCase (b : BlockingCall) : BlockingCall → Prop
  | returned (hres : b.result ≠ none) : BlockingCase b b
  | timeout (hres : b.result = none) (htime : b.expired 0 = true) :
      BlockingCase b (b.return b.exchange.ticked .timeout)
  | work {e : Exchange} (hres : b.result = none) (htime : b.expired 0 = false)
      (hworks : blockingWorks b.exchange.state = true)
      (hstep : exchangeStep b.exchange.ticked = .ok e) : BlockingCase b { b with exchange := e }
  | success (hres : b.result = none) (htime : b.expired 0 = false)
      (hstate : b.exchange.state = .disposing) :
      BlockingCase b (b.return b.exchange.ticked .success)
  | io (hres : b.result = none) (htime : b.expired 0 = false)
      (hstate : b.exchange.state ≠ .disposing)
      (hworks : blockingWorks b.exchange.state = false) :
      BlockingCase b (b.return b.exchange.ticked .io)

/-- **One iteration of the loop.** -/
theorem blockingStep_cases (h : httpBlockingStep b = .ok d) : BlockingCase b d := by
  rw [httpBlockingStep] at h
  split at h
  · rename_i hres
    exact Except.ok.inj h ▸ .returned hres
  · rename_i hres
    rw [not_not] at hres
    simp only at h
    split at h
    · rename_i htime
      exact Except.ok.inj h ▸ .timeout hres htime
    · rename_i htime
      rw [Bool.not_eq_true] at htime
      split at h
      · rename_i hworks
        cases hstep : exchangeStep b.exchange.ticked with
        | error f =>
            rw [hstep] at h
            cases h
        | ok e =>
            rw [hstep] at h
            exact Except.ok.inj h ▸ .work hres htime hworks hstep
      · rename_i hworks
        rw [Bool.not_eq_true] at hworks
        split at h
        · rename_i hstate
          exact Except.ok.inj h ▸ .success hres htime hstate
        · rename_i hstate
          exact Except.ok.inj h ▸ .io hres htime hstate hworks

/-- A call that has returned stays as it is. -/
theorem blockingStep_returned (h : b.result ≠ none) : httpBlockingStep b = .ok b := by
  rw [httpBlockingStep, if_pos h]

/-- A call whose time has run out returns `ERR_TIMEOUT`. -/
theorem blockingStep_timeout (hres : b.result = none) (htime : b.expired 0 = true) :
    httpBlockingStep b = .ok (b.return b.exchange.ticked .timeout) := by
  rw [httpBlockingStep, if_neg (not_not.mpr hres)]
  exact if_pos htime

/-- Within its time, and in a state with a worker, an iteration is a worker call. -/
theorem blockingStep_eq_work (hres : b.result = none) (htime : b.expired 0 = false)
    (hworks : blockingWorks b.exchange.state = true) :
    httpBlockingStep b =
      (exchangeStep b.exchange.ticked).map fun e => { b with exchange := e } := by
  have htime' : timedOut b.timeoutMs b.start (b.exchange.clock 0) = false := htime
  have hworks' : blockingWorks b.exchange.ticked.state = true := hworks
  rw [httpBlockingStep, if_neg (not_not.mpr hres)]
  simp only [htime', hworks', Bool.false_eq_true, if_false, if_true]
  cases exchangeStep b.exchange.ticked <;> rfl

/-- The same for a worker call with a result. -/
theorem blockingStep_work {e : Exchange} (hres : b.result = none) (htime : b.expired 0 = false)
    (hworks : blockingWorks b.exchange.state = true)
    (hstep : exchangeStep b.exchange.ticked = .ok e) :
    httpBlockingStep b = .ok { b with exchange := e } := by
  rw [blockingStep_eq_work hres htime hworks, hstep]
  rfl

/-- A state without a worker ends the call. -/
theorem blockingStep_stop (hres : b.result = none) (htime : b.expired 0 = false)
    (hworks : blockingWorks b.exchange.state = false) :
    httpBlockingStep b = .ok (b.return b.exchange.ticked
      (if b.exchange.state = .disposing then .success else .io)) := by
  have htime' : timedOut b.timeoutMs b.start (b.exchange.clock 0) = false := htime
  have hworks' : blockingWorks b.exchange.ticked.state = false := hworks
  rw [httpBlockingStep, if_neg (not_not.mpr hres)]
  simp only [htime', hworks', Bool.false_eq_true, if_false]
  have hstate : b.exchange.ticked.state = b.exchange.state := rfl
  rw [hstate]
  split <;> rfl

/-- A call that has returned stays as it is. -/
theorem returns_unique {b₀ : BlockingCall} {code code' : ErrorCode} {out out' : Option HTTPData}
    (h : Returns b₀ code out) (h' : Returns b₀ code' out') : code = code' ∧ out = out' := by
  obtain ⟨b, hb, hres, rfl⟩ := h
  obtain ⟨d, hd, hres', rfl⟩ := h'
  obtain rfl := hb.fixed_unique (blockingStep_returned (by simp [hres]))
    (blockingStep_returned (by simp [hres'])) hd
  exact ⟨Option.some.inj (hres.symm.trans hres'), rfl⟩

end Steps

/-! ### The delivery -/

/-- The delivery to a caller with an output. -/
theorem exchangeStep_deliver {e : Exchange} {out : HTTPData} (hs : e.state = .returning)
    (hmode : e.blockingMode = true) (hout : e.blockingOut = some out) :
    exchangeStep e = .ok { e with
      state := .disposing
      blockingOut := some ⟨some (deliverySource e.toHTTPClient ++ [0]),
        (deliverySource e.toHTTPClient).length⟩ } := by
  have hwork : httpClientWorktaskReturning e.toHTTPClient = .ok (.disposing,
      { e.toHTTPClient with
        blockingOut := some ⟨some (deliverySource e.toHTTPClient ++ [0]),
          (deliverySource e.toHTTPClient).length⟩ }) := by
    rw [httpClientWorktaskReturning, if_pos hmode, hout]
    rfl
  exact exchangeStep_of_returning hs hwork

/-- The delivery to a caller without an output. -/
theorem exchangeStep_undelivered {e : Exchange} (hs : e.state = .returning)
    (hmode : e.blockingMode = true) (hout : e.blockingOut = none) :
    exchangeStep e = .ok { e with state := .error } := by
  have hwork : httpClientWorktaskReturning e.toHTTPClient = .ok (.error, e.toHTTPClient) := by
    rw [httpClientWorktaskReturning, if_pos hmode, hout]
    rfl
  exact exchangeStep_of_returning hs hwork

/-- The states from which a blocking call goes on have an empty output, until the body is
delivered. -/
structure Emptied (b : BlockingCall) : Prop where
  mode : b.exchange.blockingMode = true
  out : b.result = none → b.exchange.state ≠ .disposing → b.exchange.blockingOut = some {}

/-- The states from which no worker is called once more are not before the delivery. -/
theorem ne_disposing_of_works {s : HTTPClientState} (h : blockingWorks s = true) :
    s ≠ .disposing := by
  rintro rfl
  cases h

/-- An iteration leaves the output empty unless it delivers. -/
theorem Emptied.step {b d : BlockingCall} (h : Emptied b) (hstep : httpBlockingStep b = .ok d) :
    Emptied d := by
  cases blockingStep_cases hstep with
  | returned _ => exact h
  | timeout _ _ => exact ⟨h.mode, fun hnone => by cases hnone⟩
  | success _ _ _ => exact ⟨h.mode, fun hnone => by cases hnone⟩
  | io _ _ _ _ => exact ⟨h.mode, fun hnone => by cases hnone⟩
  | @work e hres _ hworks he =>
      have hout := h.out hres (ne_disposing_of_works hworks)
      by_cases hs : b.exchange.state = .returning
      · rw [exchangeStep_deliver (e := b.exchange.ticked) hs h.mode hout] at he
        obtain rfl := Except.ok.inj he
        exact ⟨h.mode, fun _ hne => absurd rfl hne⟩
      · have hkept := (exchangeStep_kept he).receiver hs
        have hmode : e.blockingMode = b.exchange.blockingMode :=
          congrArg Receiver.blockingMode hkept
        have hsame : e.blockingOut = b.exchange.blockingOut :=
          congrArg Receiver.blockingOut hkept
        exact ⟨hmode.trans h.mode, fun _ _ => hsame.trans hout⟩

/-! ### The two entry points -/

/-- A call of `http_blocking_get` or of `http_blocking_post`, with everything that the caller
passes in except the output. -/
inductive BlockingRequest
  | get (url : Option Bytes)
  | post (url : Option Bytes) (input : Option HTTPInput)

/-- The call with an output. -/
def BlockingRequest.call (r : BlockingRequest) (out : Option HTTPData) (timeoutMs : ℤ)
    (env : Environment) : BlockingCall :=
  match r with
  | .get url => httpBlockingGet url out timeoutMs env
  | .post url input => httpBlockingPost url input out timeoutMs env

/-- The arguments with which a call that has an output returns `ERR_INVALID_ARG`. -/
def BlockingRequest.isRefused : BlockingRequest → Bool
  | .get (some _) => false
  | .post (some _) (some input) => input.size < 0
  | _ => true

section Calls

variable {r : BlockingRequest} (out : HTTPData) (timeoutMs : ℤ) (env : Environment)

/-- A refused call returns at once with the output of its caller. -/
theorem call_of_refused (h : r.isRefused = true) :
    r.call (some out) timeoutMs env = refused (some out) timeoutMs env := by
  match r, h with
  | .get none, _ => rfl
  | .post none _, _ => rfl
  | .post (some _) none, _ => rfl
  | .post (some url) (some input), h =>
      rw [BlockingRequest.call, httpBlockingPost]
      exact if_pos (by simpa [BlockingRequest.isRefused] using h)

/-- A call that is not refused starts the loop with an empty output. -/
theorem call_of_accepted (h : r.isRefused = false) :
    ∃ url method input, r.call (some out) timeoutMs env =
      httpBlockingWork url method input (some {}) timeoutMs env := by
  match r, h with
  | .get (some url), _ => exact ⟨url, .get, none, rfl⟩
  | .post (some url) (some input), h =>
      refine ⟨url, .post, some input, ?_⟩
      rw [BlockingRequest.call, httpBlockingPost]
      exact if_neg (by simpa [BlockingRequest.isRefused] using h)

/-- A call at the start of its loop. -/
structure LoopStart (url : Bytes) (method : HTTPMethod) (out : Option HTTPData)
    (env : Environment) (b : BlockingCall) : Prop where
  result : b.result = none
  state : b.exchange.state = .connecting
  mode : b.exchange.blockingMode = true
  out : b.exchange.blockingOut = out
  method : b.exchange.method = method
  url : b.exchange.url = url
  connection : b.exchange.connection = env.connection

/-- The loop starts with a client that has the URL, the method and the output. -/
theorem loopStart_blockingWork (url : Bytes) (method : HTTPMethod) (input : Option HTTPInput)
    (out : Option HTTPData) (timeoutMs : ℤ) (env : Environment) :
    LoopStart url method out env (httpBlockingWork url method input out timeoutMs env) := by
  match input with
  | none => exact ⟨rfl, rfl, rfl, rfl, rfl, rfl, rfl⟩
  | some ⟨none, _, _⟩ => exact ⟨rfl, rfl, rfl, rfl, rfl, rfl, rfl⟩
  | some ⟨some addr, size, fits⟩ =>
      by_cases hsize : 0 < size <;> simp only [httpBlockingWork, hsize, if_true, if_false] <;>
        exact ⟨rfl, rfl, rfl, rfl, rfl, rfl, rfl⟩

/-- The clock readings of a call. -/
theorem expired_blockingWork (url : Bytes) (method : HTTPMethod) (input : Option HTTPInput)
    (out : Option HTTPData) (timeoutMs : ℤ) (env : Environment) (k : ℕ) :
    (httpBlockingWork url method input out timeoutMs env).expired k =
      timedOut timeoutMs (env.clock 0) (env.clock (k + 1)) := by
  match input with
  | none => rfl
  | some ⟨none, _, _⟩ => rfl
  | some ⟨some addr, size, fits⟩ =>
      by_cases hsize : 0 < size <;> simp only [httpBlockingWork, hsize, if_true, if_false] <;> rfl

/-! ### The output on return -/

/-- What a caller may expect of the output: it is empty after a failure, and after a success
it is a buffer with a NUL after its last byte. -/
def OutputAgrees (code : ErrorCode) (out : Option HTTPData) : Prop :=
  (code ≠ .success → out = some {}) ∧
    (code = .success → ∃ buf size, out = some ⟨some buf, size⟩ ∧ 0 ≤ size ∧
      buf[size.toNat]? = some 0)

/-- A call that is not refused starts with an empty output. -/
theorem emptied_call (h : r.isRefused = false) :
    Emptied (r.call (some out) timeoutMs env) := by
  obtain ⟨url, method, input, heq⟩ := call_of_accepted out timeoutMs env h
  have hstart := loopStart_blockingWork url method input (some {}) timeoutMs env
  rw [heq]
  exact ⟨hstart.mode, fun _ _ => hstart.out⟩

/-- No state on the way to the return lets the time run out between the delivery and the
return. -/
def ReturnsInTime (b₀ : BlockingCall) : Prop :=
  ∀ b, Reaches httpBlockingStep b₀ b → b.result = none → b.exchange.state = .returning →
    b.expired 0 = true ∨ b.expired 1 = false

/-- The output in every state of a call that returns in time. -/
structure Filled (b : BlockingCall) : Prop extends Emptied b where
  delivered : b.result = none → b.exchange.state = .disposing → b.expired 0 = false ∧
    ∃ body : Bytes, b.exchange.blockingOut = some ⟨some (body ++ [0]), body.length⟩
  returned : ∀ code, b.result = some code → OutputAgrees code b.exchange.blockingOut

/-- An empty output agrees with every code but `SUCCESS`. -/
theorem outputAgrees_of_empty {code : ErrorCode} (h : code ≠ .success) :
    OutputAgrees code (some {}) :=
  ⟨fun _ => rfl, fun hc => absurd hc h⟩

/-- A body with its NUL agrees with `SUCCESS`. -/
theorem outputAgrees_of_body (body : Bytes) :
    OutputAgrees .success (some ⟨some (body ++ [0]), body.length⟩) := by
  refine ⟨fun h => absurd rfl h, fun _ => ⟨body ++ [0], body.length, rfl, by omega, ?_⟩⟩
  rw [Int.toNat_natCast, List.getElem?_append_right (Nat.le_refl _), Nat.sub_self]
  rfl

/-- **One iteration of a call that returns in time.** -/
theorem Filled.step {b d : BlockingCall} (h : Filled b)
    (htime : b.result = none → b.exchange.state = .returning →
      b.expired 0 = true ∨ b.expired 1 = false)
    (hstep : httpBlockingStep b = .ok d) : Filled d := by
  have hempty := h.toEmptied.step hstep
  cases blockingStep_cases hstep with
  | returned _ => exact h
  | timeout hres hexp =>
      refine ⟨hempty, fun hnone => (by cases hnone), fun code hcode => ?_⟩
      obtain rfl := Option.some.inj hcode
      have hs : b.exchange.state ≠ .disposing := fun hs => by
        rw [(h.delivered hres hs).1] at hexp
        cases hexp
      have hout : b.exchange.blockingOut = some {} := h.out hres hs
      exact hout ▸ outputAgrees_of_empty (by decide)
  | success hres _ hs =>
      refine ⟨hempty, fun hnone => (by cases hnone), fun code hcode => ?_⟩
      obtain rfl := Option.some.inj hcode
      obtain ⟨-, body, hbody⟩ := h.delivered hres hs
      exact hbody ▸ outputAgrees_of_body body
  | io hres _ hs _ =>
      refine ⟨hempty, fun hnone => (by cases hnone), fun code hcode => ?_⟩
      obtain rfl := Option.some.inj hcode
      have hout : b.exchange.blockingOut = some {} := h.out hres hs
      exact hout ▸ outputAgrees_of_empty (by decide)
  | @work e hres hexp hworks he =>
      refine ⟨hempty, fun _ hdisp => ?_, fun code hcode => ?_⟩
      · by_cases hs : b.exchange.state = .returning
        · have hout := h.out hres (by simp [hs])
          rw [exchangeStep_deliver (e := b.exchange.ticked) hs h.mode hout] at he
          obtain rfl := Except.ok.inj he
          refine ⟨?_, _, rfl⟩
          rcases htime hres hs with hexp' | hnext
          · rw [hexp] at hexp'
            cases hexp'
          · exact hnext
        · have hleads := exchangeStep_leadsTo he
          have hdisp' : e.state = .disposing := hdisp
          have hs' : b.exchange.ticked.state ≠ .returning := hs
          have hw' : b.exchange.ticked.state ≠ .disposing := ne_disposing_of_works hworks
          rw [hdisp'] at hleads
          cases hstate : b.exchange.ticked.state <;>
            simp_all [HTTPClientState.leadsTo, HTTPClientState.reading]
      · rw [hres] at hcode
        cases hcode

/-- The call that delivers just before the time runs out returns `ERR_TIMEOUT` with the output
filled. -/
theorem late_return {b : BlockingCall} {out : HTTPData} (hres : b.result = none)
    (hs : b.exchange.state = .returning) (hmode : b.exchange.blockingMode = true)
    (hout : b.exchange.blockingOut = some out) (hnow : b.expired 0 = false)
    (hnext : b.expired 1 = true) :
    ∃ body : Bytes, Returns b .timeout (some ⟨some (body ++ [0]), body.length⟩) := by
  have hwork := exchangeStep_deliver (e := b.exchange.ticked) hs hmode hout
  have hfirst := blockingStep_work hres hnow (by rw [hs]; rfl) hwork
  refine ⟨_, _, (Reaches.single hfirst).tail (blockingStep_timeout hres hnext), rfl, rfl⟩

/-- **The output is filled exactly on success**, for every call that returns in time: it is
not refused with an output that was not empty, and the time does not run out between the
delivery and the return. -/
theorem output_only_on_success_iff (r : BlockingRequest) (out : HTTPData) (timeoutMs : ℤ)
    (env : Environment) :
    (∀ code data, Returns (r.call (some out) timeoutMs env) code data →
        OutputAgrees code data) ↔
      (r.isRefused = true → out = {}) ∧ ReturnsInTime (r.call (some out) timeoutMs env) := by
  cases hr : r.isRefused with
  | true =>
      rw [call_of_refused out timeoutMs env hr]
      have hfix : httpBlockingStep (refused (some out) timeoutMs env) =
          .ok (refused (some out) timeoutMs env) := blockingStep_returned (by simp [refused])
      constructor
      · intro h
        have hagrees := h .invalidArg (some out) ⟨_, .refl _, rfl, rfl⟩
        refine ⟨fun _ => Option.some.inj (hagrees.1 (by decide)), ?_⟩
        intro b hb hres
        rw [hb.eq_of_fixed hfix] at hres
        cases hres
      · rintro ⟨hout, -⟩ code data ⟨b, hb, hcode, hdata⟩
        rw [hb.eq_of_fixed hfix] at hcode hdata
        obtain rfl := Option.some.inj hcode
        rw [← hdata, hout rfl]
        exact outputAgrees_of_empty (by decide)
  | false =>
      have hempty := emptied_call out timeoutMs env hr
      constructor
      · intro h
        refine ⟨fun hc => (by cases hc), ?_⟩
        intro b hb hres hs
        have hI := hb.invariant (fun _ _ hxy hx => Emptied.step hx hxy) hempty
        by_contra hlate
        rw [not_or, Bool.not_eq_true, Bool.not_eq_false] at hlate
        obtain ⟨body, c, hc, hcode, hdata⟩ :=
          late_return hres hs hI.mode (hI.out hres (by simp [hs])) hlate.1 hlate.2
        have hagrees := h .timeout _ ⟨c, hb.trans hc, hcode, hdata⟩
        exact absurd (hagrees.1 (by decide)) (by simp)
      · rintro ⟨-, htime⟩ code data ⟨b, hb, hcode, rfl⟩
        obtain ⟨url, method, input, heq⟩ := call_of_accepted out timeoutMs env hr
        have hstart := loopStart_blockingWork url method input (some {}) timeoutMs env
        have hfilled : Filled (r.call (some out) timeoutMs env) := by
          refine ⟨hempty, ?_, ?_⟩ <;> rw [heq]
          · intro _ hdisp
            rw [hstart.state] at hdisp
            cases hdisp
          · intro code hcode
            rw [hstart.result] at hcode
            cases hcode
        have hinv := hb.invariant (I := fun x =>
          Reaches httpBlockingStep (r.call (some out) timeoutMs env) x ∧ Filled x)
          (fun x y hxy hx => ⟨hx.1.tail hxy, hx.2.step (htime x hx.1) hxy⟩) ⟨.refl _, hfilled⟩
        exact hinv.2.returned code hcode

end Calls

/-- A response with the body `hi`. -/
def hiResponse : List Arrival := [.data ⟨ascii "HTTP/1.1 200 OK\r\nA: b\r\n\r\nhi", by decide⟩]

/-- A server that answers in time, on a clock that jumps when the body has been delivered. -/
def lateServer : Environment :=
  reachableServer hiResponse [.wrote 1000] fun k => if k < 7 then 0 else 2000

/-- The call returns `ERR_TIMEOUT` and leaves the body in the caller's output. -/
theorem late_timeout_fills_output :
    Returns (httpBlockingGet (some (ascii "http://h/")) (some {}) 1000 lateServer) .timeout
      (some ⟨some (ascii "hi" ++ [0]), 2⟩) := by
  obtain ⟨b, hrun, hb⟩ := exists_run_of_any (n := 7)
    (a := httpBlockingGet (some (ascii "http://h/")) (some {}) 1000 lateServer)
    (P := fun b => b.result = some .timeout ∧
      b.exchange.blockingOut = some ⟨some (ascii "hi" ++ [0]), 2⟩)
    (by decide : Option.any _ (run httpBlockingStep 7 _).toOption = true)
  rw [decide_eq_true_eq] at hb
  exact ⟨b, reaches_of_run hrun, hb⟩

/-! ### A post without an output -/

/-- The fields of a blocking call that has no output. -/
def noOutput (method : HTTPMethod) : Overlay where
  blockingMode := true
  blockingOut := none
  onSuccess := false
  responses := []
  method := method
  task := none

/-- The call without an output. -/
def BlockingCall.withoutOutput (b : BlockingCall) (method : HTTPMethod) : BlockingCall :=
  { b with exchange := b.exchange.overlay (noOutput method) }

section WithoutOutput

variable {b d : BlockingCall} {method : HTTPMethod}

/-- The calls that are compared: the client has an output, and the method is the one of the
other call. -/
structure Comparable (method : HTTPMethod) (b : BlockingCall) : Prop extends Emptied b where
  method : b.exchange.method = method

/-- An iteration keeps what makes two calls comparable. -/
theorem Comparable.step (h : Comparable method b) (hstep : httpBlockingStep b = .ok d) :
    Comparable method d := by
  refine ⟨h.toEmptied.step hstep, ?_⟩
  cases blockingStep_cases hstep with
  | work _ _ _ he => exact (exchangeStep_kept he).method.trans h.method
  | returned _ | timeout _ _ | success _ _ _ | io _ _ _ _ => exact h.method

/-- Until the delivery the two calls do the same. -/
theorem step_withoutOutput (h : Comparable method b)
    (hs : b.result = none → b.expired 0 = false → b.exchange.state ≠ .returning) :
    httpBlockingStep (b.withoutOutput method) =
      (httpBlockingStep b).map fun d => d.withoutOutput method := by
  by_cases hres : b.result = none
  · by_cases htime : b.expired 0 = true
    · rw [blockingStep_timeout hres htime]
      exact blockingStep_timeout (b := b.withoutOutput method) hres htime
    · rw [Bool.not_eq_true] at htime
      by_cases hworks : blockingWorks b.exchange.state = true
      · have hcomm := exchangeStep_overlay (e := b.exchange.ticked) (o := noOutput method)
          (fun _ => h.mode.symm) (fun _ => by rw [← h.method]; rfl) (hs hres htime)
        have hleft := blockingStep_eq_work (b := b.withoutOutput method) hres htime hworks
        rw [hleft, blockingStep_eq_work hres htime hworks]
        refine (congrArg (Except.map fun e => { b with exchange := e }) hcomm).trans ?_
        cases exchangeStep b.exchange.ticked <;> rfl
      · rw [Bool.not_eq_true] at hworks
        rw [blockingStep_stop hres htime hworks]
        exact blockingStep_stop (b := b.withoutOutput method) hres htime hworks
  · rw [blockingStep_returned hres]
    exact blockingStep_returned (b := b.withoutOutput method) hres

/-- A call that goes on after an iteration had not delivered before it. -/
theorem Comparable.before (h : Comparable method b) (hstep : httpBlockingStep b = .ok d)
    (hres : d.result = none) (hs : d.exchange.state ≠ .disposing) :
    b.result = none ∧ b.exchange.state ≠ .disposing ∧ b.exchange.state ≠ .returning := by
  cases blockingStep_cases hstep with
  | returned hne => exact absurd hres hne
  | timeout _ _ => cases hres
  | success _ _ _ => cases hres
  | io _ _ _ _ => cases hres
  | @work e hnone _ hworks he =>
      have hdisp := ne_disposing_of_works hworks
      refine ⟨hnone, hdisp, fun hret => hs ?_⟩
      rw [exchangeStep_deliver (e := b.exchange.ticked) hret h.mode (h.out hnone hdisp)] at he
      rw [← Except.ok.inj he]

/-- Until the delivery the second call is the first one without its output. -/
structure Shadows (method : HTTPMethod) (b d : BlockingCall) : Prop where
  left : Comparable method b
  right : b.result = none → b.exchange.state ≠ .disposing → d = b.withoutOutput method

/-- The call without an output follows every iteration of the one with it. -/
theorem Shadows.step {b' : BlockingCall} (h : Shadows method b d)
    (hstep : httpBlockingStep b = .ok b') :
    ∃ d', Reaches httpBlockingStep d d' ∧ Shadows method b' d' := by
  by_cases hgoes : b'.result = none ∧ b'.exchange.state ≠ .disposing
  · obtain ⟨hnone, hdisp, hret⟩ := h.left.before hstep hgoes.1 hgoes.2
    obtain rfl := h.right hnone hdisp
    have hcomm := step_withoutOutput h.left fun _ _ => hret
    rw [hstep] at hcomm
    exact ⟨_, .single hcomm, h.left.step hstep, fun _ _ => rfl⟩
  · exact ⟨d, .refl d, h.left.step hstep, fun h1 h2 => absurd ⟨h1, h2⟩ hgoes⟩

/-- The call without an output passes through the same states up to the delivery. -/
theorem reaches_withoutOutput {b₀ : BlockingCall} (h : Comparable method b₀)
    (hb : Reaches httpBlockingStep b₀ b) (hres : b.result = none)
    (hs : b.exchange.state ≠ .disposing) :
    Reaches httpBlockingStep (b₀.withoutOutput method) (b.withoutOutput method) := by
  obtain ⟨y, hy, hshadows⟩ := hb.simulate
    (fun _ _ _ h hstep => Shadows.step h hstep) (Shadows.mk h fun _ _ => rfl)
  rw [← hshadows.right hres hs]
  exact hy

/-- No state on the way lets the call with an output succeed: the time has run out at the
delivery or at the look at the clock after it. -/
def NeverSucceeds (b₀ : BlockingCall) : Prop :=
  ∀ b, Reaches httpBlockingStep b₀ b → b.result = none → b.exchange.state = .returning →
    b.expired 0 = true ∨ b.expired 1 = true

/-- The two calls, when the first one never succeeds. After the delivery the states differ,
but the time has run out in both. -/
inductive SameCode (method : HTTPMethod) (b d : BlockingCall) : Prop
  | same (h : d = b.withoutOutput method)
  | late (hb : b.result = none) (hd : d.result = none) (htime : b.expired 0 = true)
      (htime' : d.expired 0 = true)
  | returned (hb : b.result ≠ none) (h : d.result = b.result)

/-- Two calls that are never to deliver in time go through the loop in step. -/
theorem SameCode.step (h : SameCode method b d) (hc : Comparable method b)
    (hnever : b.result = none → b.exchange.state = .returning →
      b.expired 0 = true ∨ b.expired 1 = true) :
    Lockstep (SameCode method) (httpBlockingStep b) (httpBlockingStep d) := by
  cases h with
  | returned hb h =>
      rw [blockingStep_returned hb, blockingStep_returned (h ▸ hb)]
      exact .ok (.returned hb h)
  | late hb hd htime htime' =>
      rw [blockingStep_timeout hb htime, blockingStep_timeout hd htime']
      exact .ok (.returned (by simp [BlockingCall.return]) rfl)
  | same h =>
      subst h
      by_cases hdeliver : b.result = none ∧ b.expired 0 = false ∧ b.exchange.state = .returning
      · obtain ⟨hres, htime, hs⟩ := hdeliver
        have hnext : b.expired 1 = true := by
          rcases hnever hres hs with h0 | h1
          · rw [htime] at h0
            cases h0
          · exact h1
        have hworks : blockingWorks b.exchange.state = true := by
          rw [hs]
          rfl
        have hout := hc.out hres (by simp [hs])
        rw [blockingStep_work hres htime hworks
            (exchangeStep_deliver (e := b.exchange.ticked) hs hc.mode hout),
          blockingStep_work (b := b.withoutOutput method) hres htime hworks
            (exchangeStep_undelivered (e := (b.withoutOutput method).exchange.ticked) hs rfl rfl)]
        exact .ok (.late hres hres hnext hnext)
      · rw [step_withoutOutput hc fun h1 h2 h3 => hdeliver ⟨h1, h2, h3⟩]
        exact .map fun _ _ => .same rfl

/-- They return the same code. -/
theorem SameCode.result (h : SameCode method b d) : d.result = b.result := by
  cases h with
  | same h => rw [h, BlockingCall.withoutOutput]
  | late hb hd _ _ => rw [hb, hd]
  | returned _ h => exact h

/-- Two calls, of which the first is on the run from `b₀`. -/
def Together (method : HTTPMethod) (b₀ b d : BlockingCall) : Prop :=
  (Reaches httpBlockingStep b₀ b ∧ Comparable method b) ∧ SameCode method b d

/-- What is known of the first call is carried along. -/
theorem Together.step {b₀ : BlockingCall} (h : Together method b₀ b d)
    (hnever : b.result = none → b.exchange.state = .returning →
      b.expired 0 = true ∨ b.expired 1 = true) :
    Lockstep (Together method b₀) (httpBlockingStep b) (httpBlockingStep d) := by
  obtain ⟨⟨hb, hc⟩, hsame⟩ := h
  exact (hsame.step hc hnever).and fun x hx => ⟨hb.tail hx, hc.step hx⟩

end WithoutOutput

/-- Without an output the call starts as with one, but for the output. -/
theorem work_withoutOutput (url : Bytes) (input : HTTPInput) (timeoutMs : ℤ)
    (env : Environment) :
    httpBlockingWork url .post (some input) none timeoutMs env =
      (httpBlockingWork url .post (some input) (some {}) timeoutMs env).withoutOutput .post := by
  match input with
  | ⟨none, _, _⟩ => rfl
  | ⟨some addr, size, fits⟩ =>
      by_cases hsize : 0 < size <;> simp only [httpBlockingWork, hsize, if_true, if_false] <;> rfl

/-- A post without an output is a post with one, without it. -/
theorem post_withoutOutput (url : Option Bytes) (input : Option HTTPInput) (out : HTTPData)
    (timeoutMs : ℤ) (env : Environment) :
    ∃ method, Comparable method (httpBlockingPost url input (some out) timeoutMs env) ∧
      httpBlockingPost url input none timeoutMs env =
        (httpBlockingPost url input (some out) timeoutMs env).withoutOutput method := by
  cases hr : (BlockingRequest.post url input).isRefused with
  | true =>
      have hcall := call_of_refused out timeoutMs env hr
      rw [BlockingRequest.call] at hcall
      have hnone : httpBlockingPost url input none timeoutMs env =
          refused none timeoutMs env := by
        match url, input, hr with
        | none, _, _ => rfl
        | some _, none, _ => rfl
        | some url, some input, hr =>
            exact if_pos (by simpa [BlockingRequest.isRefused] using hr)
      rw [hcall, hnone]
      exact ⟨.get, ⟨⟨rfl, fun h => by cases h⟩, rfl⟩, rfl⟩
  | false =>
      match url, input, hr with
      | some url, some input, hr =>
          have hsize : ¬ input.size < 0 := by simpa [BlockingRequest.isRefused] using hr
          have hempty := emptied_call out timeoutMs env hr
          refine ⟨.post, ⟨hempty, ?_⟩, ?_⟩
          · simp only [httpBlockingPost, if_neg hsize]
            exact (loopStart_blockingWork url .post (some input) _ timeoutMs env).method
          · simp only [httpBlockingPost, if_neg hsize]
            exact work_withoutOutput url input timeoutMs env

/-- **A post without an output returns the code of a post with one** exactly when the post
with an output never delivers a body in time. -/
theorem post_code_independent_iff (url : Option Bytes) (input : Option HTTPInput)
    (out : HTTPData) (timeoutMs : ℤ) (env : Environment) :
    (∀ code, (∃ data, Returns (httpBlockingPost url input none timeoutMs env) code data) ↔
        ∃ data, Returns (httpBlockingPost url input (some out) timeoutMs env) code data) ↔
      NeverSucceeds (httpBlockingPost url input (some out) timeoutMs env) := by
  obtain ⟨method, hcomp, heq⟩ := post_withoutOutput url input out timeoutMs env
  rw [heq]
  generalize httpBlockingPost url input (some out) timeoutMs env = b₀ at hcomp
  constructor
  · intro h b hb hres hs
    by_contra htime
    rw [not_or, Bool.not_eq_true, Bool.not_eq_true] at htime
    obtain ⟨hnow, hnext⟩ := htime
    have hI := hb.invariant (fun _ _ hxy hx => Comparable.step hx hxy) hcomp
    have hworks : blockingWorks b.exchange.state = true := by
      rw [hs]
      rfl
    have hdeliver := blockingStep_work hres hnow hworks
      (exchangeStep_deliver (e := b.exchange.ticked) hs hI.mode (hI.out hres (by simp [hs])))
    have hsuccess : ∃ data, Returns b₀ .success data :=
      ⟨_, _, (hb.tail hdeliver).tail (blockingStep_stop hres hnext rfl), rfl, rfl⟩
    have hother := reaches_withoutOutput hcomp hb hres (by simp [hs])
    have hfail := blockingStep_work (b := b.withoutOutput method) hres hnow hworks
      (exchangeStep_undelivered (e := (b.withoutOutput method).exchange.ticked) hs rfl rfl)
    have hio : ∃ data, Returns (b₀.withoutOutput method) .io data :=
      ⟨_, _, (hother.tail hfail).tail (blockingStep_stop hres hnext rfl), rfl, rfl⟩
    obtain ⟨data, hdata⟩ := hsuccess
    obtain ⟨data', hdata'⟩ := (h .io).mp hio
    exact absurd (returns_unique hdata hdata').1 (by decide)
  · intro hnever code
    have hlock : ∀ x y, Together method b₀ x y →
        Lockstep (Together method b₀) (httpBlockingStep x) (httpBlockingStep y) :=
      fun x y h => h.step (hnever x h.1.1)
    have hstart : Together method b₀ b₀ (b₀.withoutOutput method) :=
      ⟨⟨.refl b₀, hcomp⟩, .same rfl⟩
    constructor
    · rintro ⟨data, y, hy, hcode, -⟩
      obtain ⟨x, hx, hsame⟩ := hy.lockstep (fun y x h => (hlock x y h).symm) hstart
      exact ⟨_, x, hx, hsame.2.result.symm.trans hcode, rfl⟩
    · rintro ⟨data, x, hx, hcode, -⟩
      obtain ⟨y, hy, hsame⟩ := hx.lockstep hlock hstart
      exact ⟨_, y, hy, hsame.2.result.trans hcode, rfl⟩

/-- The body `x`. -/
def oneByte : HTTPInput where
  addr := some (ascii "x")
  size := 1
  fits := by decide

/-- A server that answers at once, on a clock that stands still. -/
def hiServer : Environment := reachableServer hiResponse [.wrote 1000] fun _ => 0

/-- The same post succeeds with an output and fails without one. -/
theorem post_fails_without_output :
    (∃ data, Returns (httpBlockingPost (some (ascii "http://h/")) (some oneByte) (some {}) 0
      hiServer) .success data) ∧
    (∃ data, Returns (httpBlockingPost (some (ascii "http://h/")) (some oneByte) none 0
      hiServer) .io data) ∧
    ¬ ∃ data, Returns (httpBlockingPost (some (ascii "http://h/")) (some oneByte) none 0
      hiServer) .success data := by
  have hreturns : ∀ out code, (run httpBlockingStep 7 (httpBlockingPost
      (some (ascii "http://h/")) (some oneByte) out 0 hiServer)).toOption.any
        (·.result = some code) →
      ∃ data, Returns (httpBlockingPost (some (ascii "http://h/")) (some oneByte) out 0
        hiServer) code data := by
    intro out code h
    obtain ⟨b, hrun, hb⟩ := exists_run_of_any h
    exact ⟨_, b, reaches_of_run hrun, of_decide_eq_true hb, rfl⟩
  have hio := hreturns none .io (by decide +kernel)
  refine ⟨hreturns (some {}) .success (by decide +kernel), hio, ?_⟩
  rintro ⟨data, hsuccess⟩
  obtain ⟨data', hdata'⟩ := hio
  exact absurd (returns_unique hsuccess hdata').1 (by decide)

end MaestroCore
