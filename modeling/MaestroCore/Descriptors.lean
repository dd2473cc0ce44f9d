import MaestroCore.BlockingOutput

/-!
# Descriptors of a Blocking Call

A blocking call opens sockets while it connects and closes what it has opened, in
`tcp_client.c` when an address fails and in `transport_dispose` at the end. `calloc` sets the
descriptor of a new client to `0`, which `transport_dispose` takes for an open one: a call
that ends before `tcp_client_blocking_init` has run closes the descriptor 0, which it did not
open.

## Main results

* `transportInit_owned`: after `transport_init` has got to the sockets, exactly the descriptor
  of the connection is open, or none.
* `descriptors_disciplined_iff`: the call closes what it has opened, and nothing else, exactly
  when it is refused or gets to the sockets.
-/

open CLang Run

namespace MaestroCore

/-! ### Discipline -/

/-- The descriptors that are open after one more event, `none` when it closes one that is not
open. -/
def trackDescriptor (live : List ℤ) : FdEvent → Option (List ℤ)
  | .opened fd => some (fd :: live)
  | .closed fd => if fd ∈ live then some (live.erase fd) else none

/-- The descriptors that are open after the events, `none` when one was closed that had not
been opened or had been closed already. -/
def openDescriptors (events : List FdEvent) : Option (List ℤ) :=
  events.foldlM trackDescriptor []

/-- One more event acts on the descriptors the earlier ones leave open. -/
theorem openDescriptors_append (events : List FdEvent) (event : FdEvent) :
    openDescriptors (events ++ [event]) =
      (openDescriptors events).bind fun live => trackDescriptor live event := by
  simp [openDescriptors, List.foldlM_append]

/-- The connection owns its descriptor: it is open, and no other one is. -/
def Owned (c : Connection) : Prop :=
  openDescriptors c.events = some (if 0 ≤ c.fd then [c.fd] else [])

section Owned

variable {c : Connection}

/-- Opening a socket where none is open leaves that one open. -/
theorem openDescriptors_socket (h : openDescriptors c.events = some []) (fd : ℤ) :
    openDescriptors (c.socket fd).events = some [fd] := by
  rw [Connection.socket, openDescriptors_append, h]
  rfl

/-- Closing the one open descriptor leaves none open. -/
theorem openDescriptors_close {fd : ℤ} (h : openDescriptors c.events = some [fd]) :
    openDescriptors (c.close fd).events = some [] := by
  rw [Connection.close, openDescriptors_append, h]
  simp [trackDescriptor]

/-- The end of a connection closes the descriptor that it owns. -/
theorem Owned.dispose (h : Owned c) :
    openDescriptors (transportDispose c).events = some [] ∧ (transportDispose c).fd < 0 := by
  rw [Owned] at h
  rw [transportDispose, tcpClientDispose]
  split
  · rename_i hfd
    rw [if_pos hfd] at h
    exact ⟨openDescriptors_close h, by simp⟩
  · rename_i hfd
    rw [if_neg hfd] at h
    exact ⟨h, by omega⟩

/-- A client with a negative descriptor and nothing open owns what is open. -/
theorem owned_of_closed (h : openDescriptors c.events = some []) (hfd : c.fd < 0) : Owned c := by
  rw [Owned, h, if_neg (by omega)]

/-- Every address that fails is closed before the next one is tried. -/
theorem blockingLoop_owned (attempts : List Attempt) (lastErr : ErrorCode)
    (h : openDescriptors c.events = some []) (hfd : c.fd < 0) :
    Owned (tcpClientBlockingLoop attempts lastErr c).2 := by
  induction attempts generalizing lastErr c with
  | nil => exact owned_of_closed h hfd
  | cons a rest ih =>
      rw [tcpClientBlockingLoop]
      cases a.socket with
      | none => exact ih lastErr h hfd
      | some fd =>
          have hopen := openDescriptors_socket h (fd : ℤ)
          have hclosed := openDescriptors_close hopen
          simp only
          split
          · split
            · split
              · rw [Owned]
                exact hopen.trans (by rw [if_pos (by exact Int.natCast_nonneg fd)])
              · exact ih _ hclosed hfd
            · exact ih _ hclosed hfd
          · exact ih _ hclosed hfd

/-- The blocking start leaves a client that owns its open descriptor, if any. -/
theorem blockingInit_owned (h : openDescriptors c.events = some []) :
    Owned (tcpClientBlockingInit c).2 := by
  rw [tcpClientBlockingInit]
  simp only
  split
  · exact owned_of_closed h (by simp)
  · exact blockingLoop_owned _ _ h (by simp)

/-- **The connection owns its descriptor** once `transport_init` has got to the sockets. -/
theorem transportInit_owned {parts : URLParts} (h : openDescriptors c.events = some [])
    (hhost : parts.host.bytes ≠ []) (hport : parts.port.bytes ≠ [])
    (hscheme : parts.scheme.bytes ≠ []) (hhttp : isHttp parts.scheme.bytes = true) :
    Owned (transportInit c parts true).2 := by
  rw [transportInit, if_neg (by simp [hhost, hport, hscheme])]
  simp only [hhttp, if_true]
  generalize hr : tcpClientBlockingInit _ = r
  have howned : Owned r.2 := hr ▸ blockingInit_owned h
  split
  · exact howned
  · split
    · split
      · exact howned
      · exact owned_of_closed howned.dispose.1 howned.dispose.2
    · exact howned

end Owned

/-! ### The calls -/

/-- The URL of a call that is not refused. -/
def BlockingRequest.loopUrl (r : BlockingRequest) (out : Option HTTPData) : Option Bytes :=
  match r with
  | .get url => out.bind fun _ => url
  | .post url input => input.bind fun input => if input.size < 0 then none else url

/-- `http_parser_url` accepts the URL, and its scheme is one that `transport_init` knows. -/
def HttpUrl (url : Bytes) : Prop :=
  ∃ parts, httpParserUrl url = .ok parts ∧ isHttp parts.scheme.bytes = true

/-- Every descriptor that the call closes was opened by the call and not yet closed, and on
return none of them is open. -/
def Disciplined (b₀ : BlockingCall) : Prop :=
  ∀ b, Reaches httpBlockingStep b₀ b →
    ∃ live, openDescriptors b.exchange.connection.events = some live ∧
      (b.result ≠ none → live = [])

/-- A request whose URL does not reach the loop is refused. -/
theorem call_of_loopUrl_none {r : BlockingRequest} {out : Option HTTPData} (timeoutMs : ℤ)
    (env : Environment) (h : r.loopUrl out = none) :
    r.call out timeoutMs env = refused out timeoutMs env := by
  match r, out, h with
  | .get none, none, _ => rfl
  | .get none, some _, _ => rfl
  | .get (some _), none, _ => rfl
  | .post none none, _, _ => rfl
  | .post none (some _), _, _ => rfl
  | .post (some _) none, _, _ => rfl
  | .post (some url) (some input), out, h =>
      have hsize : input.size < 0 := by
        by_contra hsize
        simp [BlockingRequest.loopUrl, hsize] at h
      exact if_pos hsize

/-- A request whose URL reaches the loop is the blocking loop on that URL. -/
theorem call_of_loopUrl_some {r : BlockingRequest} {out : Option HTTPData} {url : Bytes}
    (timeoutMs : ℤ) (env : Environment) (h : r.loopUrl out = some url) :
    ∃ method input data, r.call out timeoutMs env =
      httpBlockingWork url method input data timeoutMs env := by
  match r, out, h with
  | .get (some _), some _, h =>
      obtain rfl := Option.some.inj h
      exact ⟨.get, none, some {}, rfl⟩
  | .post none (some input), _, h => simp [BlockingRequest.loopUrl] at h
  | .post (some url') (some input), out, h =>
      by_cases hsize : input.size < 0
      · simp [BlockingRequest.loopUrl, hsize] at h
      · have hurl : url' = url := by simpa [BlockingRequest.loopUrl, hsize] using h
        subst hurl
        exact ⟨.post, some input, out.map fun _ => {}, if_neg hsize⟩

/-! ### Whole calls -/

/-- A call that has got to the sockets: the connection owns its descriptor, and on return
nothing is open. -/
structure Connected (b : BlockingCall) : Prop where
  state : b.exchange.state ≠ .connecting
  owned : Owned b.exchange.connection
  closed : b.result ≠ none → openDescriptors b.exchange.connection.events = some []

/-- No state leads back to `CONNECTING`. -/
theorem ne_connecting_of_leadsTo {s s' : HTTPClientState} (h : s.leadsTo s' = true) :
    s' ≠ .connecting := by
  rintro rfl
  cases s <;> cases h

/-- Leaving the loop keeps the exchange connected. -/
theorem Connected.return {b : BlockingCall} (h : Connected b) (code : ErrorCode) :
    Connected (b.return b.exchange.ticked code) := by
  obtain ⟨hclosed, hfd⟩ := h.owned.dispose
  exact ⟨h.state, owned_of_closed hclosed hfd, fun _ => hclosed⟩

/-- One iteration of the loop keeps the exchange connected. -/
theorem Connected.step {b d : BlockingCall} (h : Connected b)
    (hstep : httpBlockingStep b = .ok d) : Connected d := by
  cases blockingStep_cases hstep with
  | returned _ => exact h
  | timeout _ _ | success _ _ _ | io _ _ _ _ => exact h.return _
  | @work e hres _ _ he =>
      have hkept := exchangeStep_kept he
      have hs : b.exchange.ticked.state ≠ .connecting := h.state
      refine ⟨ne_connecting_of_leadsTo (exchangeStep_leadsTo he), ?_, fun hne => absurd hres hne⟩
      have howned := h.owned
      rw [Owned] at howned ⊢
      simp only
      rw [hkept.events hs, hkept.fd hs]
      exact howned

section Calls

variable {url : Bytes} {method : HTTPMethod} {out : Option HTTPData} {env : Environment}
  {b d : BlockingCall}

/-- The first iteration of a call that is not refused and whose time has not run out. -/
theorem LoopStart.first (h : LoopStart url method out env b) (htime : b.expired 0 = false) :
    httpBlockingStep b = .ok { b with
      exchange := { (httpClientWorktaskConnecting b.exchange.ticked).2 with
        state := (httpClientWorktaskConnecting b.exchange.ticked).1 } } :=
  blockingStep_work h.result htime (by rw [h.state]; rfl)
    (exchangeStep_connecting (e := b.exchange.ticked) h.state)

/-- With a URL that `transport_init` knows the first iteration gets to the sockets. -/
theorem LoopStart.connected (h : LoopStart url method out env b) (htime : b.expired 0 = false)
    (hurl : HttpUrl url) (hstep : httpBlockingStep b = .ok d) : Connected d := by
  obtain ⟨parts, hparts, hhttp⟩ := hurl
  rw [h.first htime] at hstep
  obtain rfl := Except.ok.inj hstep
  have hleads := exchangeStep_leadsTo (exchangeStep_connecting (e := b.exchange.ticked) h.state)
  refine ⟨ne_connecting_of_leadsTo hleads, ?_, fun hne => absurd h.result hne⟩
  have hurl' : b.exchange.ticked.url = url := h.url
  have hmode : b.exchange.ticked.blockingMode = true := h.mode
  have hempty : openDescriptors b.exchange.ticked.connection.events = some [] := by
    have hconn : b.exchange.ticked.connection = env.connection := h.connection
    rw [hconn]
    rfl
  obtain ⟨hscheme, hhost, hport, -⟩ := httpParserUrl_nonempty hparts
  obtain ⟨code, herr, -⟩ | ⟨parts', s, hparts', heq, -⟩ := connecting_cases b.exchange.ticked
  · rw [hurl', hparts] at herr
    cases herr
  · rw [hurl', hparts] at hparts'
    obtain rfl := Except.ok.inj hparts'
    simp only [heq, hmode]
    exact transportInit_owned hempty hhost hport hscheme hhttp

/-- A client that ends with the descriptor of `calloc` closes the descriptor 0. -/
theorem dispose_zero {c : Connection} (hfd : c.fd = 0) (hevents : c.events = []) :
    openDescriptors (transportDispose c).events = none := by
  rw [transportDispose, tcpClientDispose, if_pos (by omega), Connection.close]
  simp only [hfd, hevents]
  rfl

/-- A call that ends with the descriptor of `calloc` is not disciplined. -/
theorem not_disciplined_of_zero (hres : b.result = none) (hfd : b.exchange.connection.fd = 0)
    (hevents : b.exchange.connection.events = [])
    (hend : b.exchange.state = .error ∨ b.expired 0 = true) : ¬ Disciplined b := by
  intro h
  have hreturn : ∃ code, httpBlockingStep b = .ok (b.return b.exchange.ticked code) := by
    by_cases htime : b.expired 0 = true
    · exact ⟨_, blockingStep_timeout hres htime⟩
    · have hs : b.exchange.state = .error := hend.resolve_right htime
      rw [Bool.not_eq_true] at htime
      exact ⟨_, blockingStep_stop hres htime (by rw [hs]; rfl)⟩
  obtain ⟨code, hstep⟩ := hreturn
  obtain ⟨live, hlive, -⟩ := h _ (.single hstep)
  have hnone : openDescriptors (transportDispose b.exchange.connection).events = none :=
    dispose_zero hfd hevents
  exact absurd (hlive.symm.trans hnone) (by simp)

/-- A scheme that `transport_init` does not know leaves the descriptor at zero. -/
theorem transportInit_unknown {c : Connection} {parts : URLParts}
    (hhost : parts.host.bytes ≠ []) (hport : parts.port.bytes ≠ [])
    (hscheme : parts.scheme.bytes ≠ []) (hhttp : isHttp parts.scheme.bytes = false) (mode : Bool) :
    transportInit c parts mode = (.badFormat,
      { c with fd := 0, useTls := false, useBlocking := mode, tlsInitiated := false }) := by
  rw [transportInit, if_neg (by simp [hhost, hport, hscheme])]
  simp only [hhttp, Bool.false_eq_true, if_false]

/-- Without such a URL the first iteration fails with the descriptor of `calloc`. -/
theorem LoopStart.unconnected (h : LoopStart url method out env b) (htime : b.expired 0 = false)
    (hurl : ¬ HttpUrl url) :
    ∃ d, httpBlockingStep b = .ok d ∧ d.result = none ∧ d.exchange.state = .error ∧
      d.exchange.connection.fd = 0 ∧ d.exchange.connection.events = [] := by
  refine ⟨_, h.first htime, h.result, ?_⟩
  have hurl' : b.exchange.ticked.url = url := h.url
  have hconn : b.exchange.ticked.connection = env.connection := h.connection
  obtain ⟨code, -, heq⟩ | ⟨parts, s, hparts, heq, hres⟩ := connecting_cases b.exchange.ticked
  · simp only [heq, hconn]
    exact ⟨trivial, rfl, rfl⟩
  · rw [hurl'] at hparts
    obtain ⟨hscheme, hhost, hport, -⟩ := httpParserUrl_nonempty hparts
    have hhttp : isHttp parts.scheme.bytes = false := by
      rw [← Bool.not_eq_true]
      exact fun hhttp => hurl ⟨parts, hparts, hhttp⟩
    rw [transportInit_unknown hhost hport hscheme hhttp] at heq hres
    have hs : s = .error := by simpa using hres
    simp only [heq, hs, hconn]
    exact ⟨trivial, trivial, rfl⟩

/-- **The descriptors of a call.** It closes what it has opened, and nothing else, exactly
when it is refused, or its time has not run out at the first look at the clock and the URL is
one that `transport_init` knows. -/
theorem descriptors_disciplined_iff (r : BlockingRequest) (out : Option HTTPData)
    (timeoutMs : ℤ) (env : Environment) :
    Disciplined (r.call out timeoutMs env) ↔
      ∀ url, r.loopUrl out = some url →
        timedOut timeoutMs (env.clock 0) (env.clock 1) = false ∧ HttpUrl url := by
  cases hr : r.loopUrl out with
  | none =>
      refine ⟨fun _ url hurl => (by cases hurl), fun _ b hb => ⟨[], ?_⟩⟩
      rw [call_of_loopUrl_none timeoutMs env hr] at hb
      rw [hb.eq_of_fixed (blockingStep_returned (by simp [refused]))]
      exact ⟨rfl, fun _ => rfl⟩
  | some url =>
      obtain ⟨method, input, data, heq⟩ := call_of_loopUrl_some timeoutMs env hr
      have hstart := loopStart_blockingWork url method input data timeoutMs env
      have hexp := expired_blockingWork url method input data timeoutMs env 0
      have hfd := congrArg Connection.fd hstart.connection
      have hevents := congrArg Connection.events hstart.connection
      rw [heq]
      generalize httpBlockingWork url method input data timeoutMs env = b₀ at *
      constructor
      · rintro h url' hurl'
        obtain rfl := Option.some.inj hurl'
        have htime : b₀.expired 0 = false := by
          by_contra htime
          rw [Bool.not_eq_false] at htime
          exact not_disciplined_of_zero hstart.result hfd hevents (Or.inr htime) h
        refine ⟨hexp ▸ htime, ?_⟩
        by_contra hurl
        obtain ⟨d, hd, hres, hs, hfd', hevents'⟩ := hstart.unconnected htime hurl
        exact not_disciplined_of_zero hres hfd' hevents' (Or.inl hs)
          fun x hx => h x (.head hd hx)
      · intro h b hb
        obtain ⟨htime, hurl⟩ := h url rfl
        rw [← hexp] at htime
        rcases hb.cases_first with rfl | ⟨d, hd, hdb⟩
        · exact ⟨[], by rw [hevents]; rfl, fun _ => rfl⟩
        · have hconn := hdb.invariant (fun _ _ hxy hx => Connected.step hx hxy)
            (hstart.connected htime hurl hd)
          refine ⟨_, hconn.owned, fun hne => ?_⟩
          exact Option.some.inj (hconn.owned.symm.trans (hconn.closed hne))

end Calls

/-- A `GET` for a URL with a scheme that is not known closes the descriptor 0. -/
theorem unknown_scheme_closes_zero :
    ∃ b, Reaches httpBlockingStep
        ((BlockingRequest.get (some (ascii "ftp://h:21/"))).call (some {}) 0 hiServer) b ∧
      b.result = some .io ∧ b.exchange.connection.events = [.closed 0] ∧
      openDescriptors b.exchange.connection.events = none := by
  obtain ⟨b, hrun, hb⟩ := exists_run_of_any (n := 2)
    (a := (BlockingRequest.get (some (ascii "ftp://h:21/"))).call (some {}) 0 hiServer)
    (P := fun b => b.result = some .io ∧ b.exchange.connection.events = [.closed 0])
    (by decide : Option.any _ (run httpBlockingStep 2 _).toOption = true)
  rw [decide_eq_true_eq] at hb
  refine ⟨b, reaches_of_run hrun, hb.1, hb.2, ?_⟩
  rw [hb.2]
  rfl

end MaestroCore
