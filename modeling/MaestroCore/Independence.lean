import MaestroCore.Agreement
import MaestroCore.Descriptors
import MaestroCore.Lifecycle
import MaestroCore.Sending

/-!
# What a Scheduled Request Depends On

`http_client_initiate` sets most of the fields of the client that it is given, and leaves the
method, the request buffer and the transport as they were. The transport is overwritten by the
connect and the request buffer when the request is built, so they do not matter. The method is
never overwritten: the function ignores the one that it is passed, and the request names the
one that the struct happened to hold.

## Main results

* `Twin.step`: two clients with different leftovers take the same steps, when their methods
  print the same name.
* `Sends.step`: what a client has written begins with the name of the method it holds.
* `request_independent_iff`: the bytes that are written depend on the arguments only, exactly
  when both structs held the method that is passed in, or nothing is ever written.
-/

open CLang Run

namespace MaestroCore

/-! ### Leftovers -/

/-- What `http_client_initiate` leaves alone in a client. -/
structure Leftover where
  method : HTTPMethod
  requestBuffer : Option Bytes
  fd : ℤ
  useTls : Bool
  useBlocking : Bool
  tlsInitiated : Bool

/-- The leftovers in a client. -/
def Exchange.leftover (e : Exchange) : Leftover where
  method := e.method
  requestBuffer := e.requestBuffer
  fd := e.connection.fd
  useTls := e.connection.useTls
  useBlocking := e.connection.useBlocking
  tlsInitiated := e.connection.tlsInitiated

/-- The connection in a transport with other leftovers. -/
def Connection.stale (c : Connection) (l : Leftover) : Connection :=
  { c with
    fd := l.fd
    useTls := l.useTls
    useBlocking := l.useBlocking
    tlsInitiated := l.tlsInitiated }

/-- The client with another method. -/
def Exchange.withMethod (e : Exchange) (method : HTTPMethod) : Exchange :=
  { e with method := method }

/-- The client with another request buffer. -/
def Exchange.withBuffer (e : Exchange) (buffer : Option Bytes) : Exchange :=
  { e with requestBuffer := buffer }

/-- The client with another connection. -/
def Exchange.withConnection (e : Exchange) (connection : Connection) : Exchange :=
  { e with connection := connection }

section Leftover

variable {e d : Exchange} {l : Leftover} {method : HTTPMethod} {buffer : Option Bytes}

/-- A worker call commutes with a change of the method that keeps its name. -/
theorem exchangeStep_withMethod (hmethod : methodStr method = methodStr e.method)
    (hbody : e.reqBody = none) :
    exchangeStep (e.withMethod method) = (exchangeStep e).map fun d => d.withMethod method := by
  by_cases hs : e.state = .returning
  · have hread : (e.withMethod method).toHTTPClient = e.toHTTPClient := rfl
    simp only [exchangeStep, exchangeWork, hs, Exchange.read, hread]
    cases httpClientWork e.toHTTPClient <;> rfl
  have hoverlay := exchangeStep_overlay (e := e) (o := ⟨e.receiver, method, e.task⟩)
    (fun _ => rfl) (fun _ => by rw [bodyLen_of_none hbody]; exact requestText_congr hmethod _ _) hs
  have hsame : e.overlay ⟨e.receiver, method, e.task⟩ = e.withMethod method := rfl
  rw [hsame] at hoverlay
  rw [hoverlay]
  cases hstep : exchangeStep e with
  | error f => rfl
  | ok d =>
      have hkept := exchangeStep_kept hstep
      have hd : d.overlay ⟨e.receiver, method, e.task⟩ = d.withMethod method := by
        rw [← hkept.receiver hs, ← hkept.task]
        rfl
      exact congrArg Except.ok hd

/-- While the client waits for the connect, the request buffer does not matter. -/
theorem exchangeStep_withBuffer (hs : e.state = .waitingConnect) :
    exchangeStep (e.withBuffer buffer) = (exchangeStep e).map fun d => d.withBuffer buffer := by
  have hs' : (e.withBuffer buffer).state = .waitingConnect := hs
  have hwork : httpClientWorktaskWaitingConnect (e.withBuffer buffer) =
      ((httpClientWorktaskWaitingConnect e).1,
        (httpClientWorktaskWaitingConnect e).2.withBuffer buffer) := by
    have hconn : (e.withBuffer buffer).connection = e.connection := rfl
    simp only [httpClientWorktaskWaitingConnect, hconn]
    split
    · rfl
    · split <;> rfl
  simp only [exchangeStep, exchangeWork, hs, hs', hwork]
  rfl

/-- The request that is built replaces the request buffer. -/
theorem exchangeStep_withBuffer_built (hs : e.state = .buildingRequest)
    (hbody : e.reqBody = none) : exchangeStep (e.withBuffer buffer) = exchangeStep e := by
  have hs' : (e.withBuffer buffer).state = .buildingRequest := hs
  have hlen : (e.withBuffer buffer).bodyLen = 0 := bodyLen_of_none hbody
  have hwork : httpClientWorktaskBuildRequest (e.withBuffer buffer) =
      httpClientWorktaskBuildRequest e := by
    rw [buildRequest_eq (by rw [hlen]; decide),
      buildRequest_eq (by rw [bodyLen_of_none hbody]; decide)]
    rfl
  simp only [exchangeStep, exchangeWork, hs, hs', hwork]

/-- The connect overwrites the transport, when `http_parser_url` accepts the URL. -/
theorem transportInit_stale {parts : URLParts} (hparts : httpParserUrl e.url = .ok parts)
    (c : Connection) (mode : Bool) :
    transportInit (c.stale l) parts mode = transportInit c parts mode := by
  obtain ⟨hscheme, hhost, hport, -⟩ := httpParserUrl_nonempty hparts
  have hnone : ¬ (parts.host.bytes = [] ∨ parts.port.bytes = [] ∨ parts.scheme.bytes = []) := by
    simp [hscheme, hhost, hport]
  rw [transportInit, transportInit, if_neg hnone, if_neg hnone]
  rfl

/-- The connecting worker fails on the URL, or it replaces the leftovers of the transport. -/
theorem connecting_stale (l : Leftover) (buffer : Option Bytes) (hs : e.state = .connecting) :
    (∃ d d', exchangeStep e = .ok d ∧
        exchangeStep ((e.withConnection (e.connection.stale l)).withBuffer buffer) = .ok d' ∧
        d.state = .error ∧ d'.state = .error ∧
        d'.connection.sent = d.connection.sent) ∨
      exchangeStep ((e.withConnection (e.connection.stale l)).withBuffer buffer) =
        (exchangeStep e).map fun d => d.withBuffer buffer := by
  have hs' : ((e.withConnection (e.connection.stale l)).withBuffer buffer).state = .connecting := hs
  rw [exchangeStep_connecting hs, exchangeStep_connecting hs']
  have hurl : ((e.withConnection (e.connection.stale l)).withBuffer buffer).url = e.url := rfl
  simp only [httpClientWorktaskConnecting, hurl]
  cases hparts : httpParserUrl e.url with
  | error code => exact Or.inl ⟨_, _, rfl, rfl, rfl, rfl, rfl⟩
  | ok parts =>
      refine Or.inr ?_
      have hinit : transportInit
          ((e.withConnection (e.connection.stale l)).withBuffer buffer).connection parts
          ((e.withConnection (e.connection.stale l)).withBuffer buffer).blockingMode =
          transportInit e.connection parts e.blockingMode :=
        transportInit_stale hparts e.connection e.blockingMode
      simp only [hinit]
      split
      · rfl
      · split <;> rfl

end Leftover

/-! ### Twins -/

/-- Two clients that were started with different leftovers, in the phases of a request. -/
inductive Twin (l : Leftover) : Exchange → Exchange → Prop
  | unconnected {e : Exchange} (hs : e.state = .connecting) :
      Twin l e
        (((e.withConnection (e.connection.stale l)).withBuffer l.requestBuffer).withMethod l.method)
  | unbuilt {e : Exchange} (hs : e.state = .waitingConnect ∨ e.state = .buildingRequest) :
      Twin l e ((e.withBuffer l.requestBuffer).withMethod l.method)
  | built {e : Exchange} (hs : e.state ≠ .connecting) : Twin l e (e.withMethod l.method)
  | ended {e x : Exchange} (he : e.state = .error ∨ e.state = .disposing)
      (hx : x.state = .error ∨ x.state = .disposing)
      (hsent : x.connection.sent = e.connection.sent) : Twin l e x

/-- The part of the client that decides how its requests look. -/
structure Bodyless (name : Bytes) (e : Exchange) : Prop where
  method : methodStr e.method = name
  body : e.reqBody = none

section Twin

variable {l : Leftover} {e d x : Exchange} {name : Bytes}

/-- Twins have sent the same bytes. -/
theorem Twin.sent (h : Twin l e x) : x.connection.sent = e.connection.sent := by
  cases h with
  | unconnected _ => rfl
  | unbuilt _ => rfl
  | built _ => rfl
  | ended _ _ hsent => exact hsent

/-- A worker call gives a client no body. -/
theorem Bodyless.work (h : Bodyless name e) (hwork : exchangeStep e = .ok d) :
    Bodyless name d := by
  have hkept := exchangeStep_kept hwork
  exact ⟨by rw [hkept.method]; exact h.method, hkept.reqBody.trans h.body⟩

/-- A call of the task gives a client no body. -/
theorem Bodyless.step (h : Bodyless name e) (hstep : httpClientTaskwork e = .ok d) :
    Bodyless name d := by
  cases taskwork_cases hstep with
  | waits _ | fails _ => exact ⟨h.method, h.body⟩
  | disposes _ => exact ⟨h.method, rfl⟩
  | works _ hwork => exact Bodyless.work (e := e.ticked) ⟨h.method, h.body⟩ hwork

/-- A client that has failed or delivered only disposes of itself. -/
theorem taskwork_ended (hs : e.state = .error ∨ e.state = .disposing) :
    ∃ d, httpClientTaskwork e = .ok d ∧ d.state = .disposing ∧
      d.connection.sent = e.connection.sent := by
  rcases hs with hs | hs
  · exact ⟨_, taskwork_error hs, rfl, rfl⟩
  · exact ⟨_, taskwork_disposing hs, hs, dispose_sent _⟩

/-- A client that has just made or awaited a connect still has its old request buffer. -/
theorem Twin.awaited (hs : e.state = .connecting ∨ e.state = .waitingConnect)
    (hstep : exchangeStep e = .ok d) :
    Twin l d ((d.withBuffer l.requestBuffer).withMethod l.method) := by
  have hleads := exchangeStep_leadsTo hstep
  have hcases : d.state = .waitingConnect ∨ d.state = .buildingRequest ∨ d.state = .error := by
    rcases hs with hs | hs <;> simpa [hs, HTTPClientState.leadsTo, or_assoc] using hleads
  rcases hcases with hd | hd | hd
  · exact .unbuilt (Or.inl hd)
  · exact .unbuilt (Or.inr hd)
  · exact .ended (Or.inl hd) (Or.inl hd) rfl

/-- The workers keep the twins together. -/
theorem Twin.work (h : Twin l e x) (hbodyless : Bodyless name e)
    (hmethod : methodStr l.method = name) (hs : e.state ≠ .error ∧ e.state ≠ .disposing) :
    Lockstep (Twin l) (exchangeStep e) (exchangeStep x) := by
  have hname : methodStr l.method = methodStr e.method := hmethod.trans hbodyless.method.symm
  cases h with
  | unconnected hc =>
      rw [exchangeStep_withMethod
        (e := (e.withConnection (e.connection.stale l)).withBuffer l.requestBuffer) hname
        hbodyless.body]
      obtain ⟨d, d', hd, hd', hs, hs', hsent⟩ | heq :=
        connecting_stale l l.requestBuffer hc
      · rw [hd, hd']
        exact .ok (.ended (Or.inl hs) (Or.inl hs') hsent)
      · rw [heq]
        cases hstep : exchangeStep e with
        | error f => exact .fault f
        | ok d => exact .ok (.awaited (Or.inl hc) hstep)
  | unbuilt hc =>
      rw [exchangeStep_withMethod (e := e.withBuffer l.requestBuffer) hname hbodyless.body]
      rcases hc with hc | hc
      · rw [exchangeStep_withBuffer hc]
        cases hstep : exchangeStep e with
        | error f => exact .fault f
        | ok d => exact .ok (.awaited (Or.inr hc) hstep)
      · rw [exchangeStep_withBuffer_built hc hbodyless.body]
        exact .map fun d hd => .built (ne_connecting_of_leadsTo (exchangeStep_leadsTo hd))
  | built _ =>
      rw [exchangeStep_withMethod hname hbodyless.body]
      exact .map fun d hd => .built (ne_connecting_of_leadsTo (exchangeStep_leadsTo hd))
  | ended he _ _ => exact absurd he (by simp [hs.1, hs.2])

/-- The twins wait for the same time. -/
theorem Twin.ticked (h : Twin l e x) : Twin l e.ticked x.ticked := by
  cases h with
  | unconnected hs => exact .unconnected (e := e.ticked) hs
  | unbuilt hs => exact .unbuilt (e := e.ticked) hs
  | built hs => exact .built (e := e.ticked) hs
  | ended he hx hsent => exact .ended he hx hsent

/-- Twins that are at work have the same state, clock and next time. -/
theorem Twin.fields (h : Twin l e x) (hs : e.state ≠ .error ∧ e.state ≠ .disposing) :
    x.state = e.state ∧ x.clock = e.clock ∧ x.nextRetryAt = e.nextRetryAt := by
  cases h with
  | unconnected _ | unbuilt _ | built _ => exact ⟨rfl, rfl, rfl⟩
  | ended he _ _ => exact absurd he (by simp [hs.1, hs.2])

/-- **Two clients with different leftovers take the same steps**, when their methods print the
same name. -/
theorem Twin.step (h : Twin l e x) (hbodyless : Bodyless name e)
    (hmethod : methodStr l.method = name) :
    Lockstep (Twin l) (httpClientTaskwork e) (httpClientTaskwork x) := by
  by_cases hended : e.state = .error ∨ e.state = .disposing
  · have hended' : x.state = .error ∨ x.state = .disposing := by
      cases h with
      | unconnected _ | unbuilt _ | built _ => exact hended
      | ended _ hx _ => exact hx
    obtain ⟨d, hd, hs, hsent⟩ := taskwork_ended hended
    obtain ⟨y, hy, hs', hsent'⟩ := taskwork_ended hended'
    rw [hd, hy]
    exact .ok (.ended (Or.inr hs) (Or.inr hs') (hsent'.trans (h.sent.trans hsent.symm)))
  · rw [not_or] at hended
    obtain ⟨hstate, hclock, hretry⟩ := h.fields hended
    have hbodyless' : Bodyless name e.ticked := ⟨hbodyless.method, hbodyless.body⟩
    have hwork := h.ticked.work hbodyless' hmethod hended
    have hticked : e.ticked.state = e.state := rfl
    have hticked' : x.ticked.state = e.state := hstate
    have hretry' : x.ticked.nextRetryAt = e.ticked.nextRetryAt := hretry
    simp only [httpClientTaskwork, hticked, hticked', hclock, hretry']
    split
    · exact .ok h.ticked
    · rename_i hs
      exact absurd hs hended.1
    · rename_i hs
      exact absurd hs hended.2
    · split
      · exact .ok h.ticked
      · exact hwork

end Twin

/-! ### The name at the start of the request -/

/-- The bytes are the beginning of a request with the method. -/
def Begins (name bytes : Bytes) : Prop :=
  ∃ rest, bytes <+: name ++ ascii " " ++ rest

/-- The number of bytes that a write has accepted. -/
def WriteResult.accepted : WriteResult → ℕ
  | .wrote n => n
  | .failed _ => 0

section Sends

variable {e d : Exchange} {name text : Bytes}

/-- A write sends as many bytes as it accepts. -/
theorem transportWrite_sent (c : Connection) (buf : Bytes) :
    (transportWrite c buf).2.sent = c.sent ++ buf.take (transportWrite c buf).1.accepted ∧
      (transportWrite c buf).1.accepted ≤ buf.length := by
  rw [transportWrite]
  split
  · simp [WriteResult.accepted]
  · simp [WriteResult.accepted]
  · rename_i n later _
    refine ⟨?_, Nat.min_le_right n buf.length⟩
    rw [WriteResult.accepted, ← List.take_take, List.take_length]

/-- After a write the client counts the bytes that were accepted. -/
theorem written_fields (w : WriteResult) :
    (httpClientWritten e w).2.connection = e.connection ∧
      (httpClientWritten e w).2.requestBuffer = e.requestBuffer ∧
      (httpClientWritten e w).2.requestLength = e.requestLength ∧
      (httpClientWritten e w).2.bytesSent = e.bytesSent + w.accepted := by
  match w with
  | .wrote 0 => exact ⟨rfl, rfl, rfl, rfl⟩
  | .wrote (n + 1) =>
      simp only [httpClientWritten]
      split <;> exact ⟨rfl, rfl, rfl, rfl⟩
  | .failed errno =>
      simp only [httpClientWritten]
      split
      · exact ⟨rfl, rfl, rfl, rfl⟩
      · split <;> exact ⟨rfl, rfl, rfl, rfl⟩

/-- The request buffer holds the text, and its first `bytesSent` bytes have been accepted. -/
structure SentFrom (text : Bytes) (e : Exchange) : Prop where
  buffer : e.requestBuffer = some text
  sent : e.connection.sent = text.take e.bytesSent

/-- The sending worker goes on where the last write has stopped. -/
theorem SentFrom.step (h : SentFrom text e) (hs : e.state = .sendingRequest)
    (hstep : exchangeStep e = .ok d) : SentFrom text d := by
  obtain ⟨s, x, hwork, rfl⟩ := work_of_exchangeStep hstep
  have htext : e.requestBuffer.getD [] = text := by rw [h.buffer, Option.getD_some]
  simp only [exchangeWork, hs, httpClientWorktaskSendRequest, htext] at hwork
  split at hwork
  · cases hwork
  · generalize hbuf : (text.drop e.bytesSent).take (toSize (e.requestLength - e.bytesSent)) = buf
      at hwork
    obtain ⟨hsent, haccepted⟩ := transportWrite_sent e.connection buf
    obtain ⟨hconn, hbuffer, -, hbytes⟩ := written_fields
      (e := { e with connection := (transportWrite e.connection buf).2 })
      (transportWrite e.connection buf).1
    rw [Except.ok.inj hwork] at hconn hbuffer hbytes
    refine ⟨hbuffer.trans h.buffer, ?_⟩
    generalize (transportWrite e.connection buf).1.accepted = n at hsent haccepted hbytes
    have hn : n ≤ toSize (e.requestLength - e.bytesSent) := by
      rw [← hbuf, List.length_take] at haccepted
      exact haccepted.trans (Nat.min_le_left _ _)
    calc x.connection.sent
        = e.connection.sent ++ buf.take n := (congrArg Connection.sent hconn).trans hsent
      _ = text.take e.bytesSent ++ (text.drop e.bytesSent).take n := by
          rw [h.sent, ← hbuf, List.take_take, Nat.min_eq_left hn]
      _ = text.take (e.bytesSent + n) := List.take_add.symm
      _ = text.take x.bytesSent := by rw [show x.bytesSent = e.bytesSent + n from hbytes]

/-- Only the sending worker writes. -/
theorem exchangeStep_sent (hs : e.state ≠ .sendingRequest) (hstep : exchangeStep e = .ok d) :
    d.connection.sent = e.connection.sent := by
  obtain ⟨s, x, hwork, rfl⟩ := work_of_exchangeStep hstep
  have hread : e.read httpClientWork = .ok (s, x) → x.connection.sent = e.connection.sent := by
    intro hx
    obtain ⟨c, -, rfl⟩ := work_of_read hx
    rfl
  rw [exchangeWork] at hwork
  cases hcase : e.state with
  | connecting =>
      rw [hcase] at hwork
      obtain ⟨_, -, heq⟩ | ⟨parts, _, -, heq, -⟩ := connecting_cases e
      · obtain ⟨-, rfl⟩ := Prod.mk.injEq .. ▸ (heq.symm.trans (Except.ok.inj hwork))
        rfl
      · obtain ⟨-, rfl⟩ := Prod.mk.injEq .. ▸ (heq.symm.trans (Except.ok.inj hwork))
        exact (transportInit_writes e.connection parts e.blockingMode).2
  | waitingConnect =>
      rw [hcase] at hwork
      have hx := congrArg (fun p => p.2.connection.sent) (Except.ok.inj hwork)
      simp only at hx
      rw [← hx, ← (finishConnect_kept e.connection).sent, httpClientWorktaskWaitingConnect]
      simp only
      split
      · rfl
      · split <;> rfl
  | buildingRequest =>
      rw [hcase] at hwork
      have hx := congrArg (fun p => p.2.connection.sent) (Except.ok.inj hwork)
      simp only at hx
      rw [← hx, httpClientWorktaskBuildRequest]
      split
      · rfl
      · split <;> rfl
  | sendingRequest => exact absurd hcase hs
  | _ =>
      rw [hcase] at hwork
      exact hread hwork

/-- How far a client has come that writes a request with the method. -/
structure Sends (name : Bytes) (e : Exchange) : Prop extends Bodyless name e where
  before : e.state = .connecting ∨ e.state = .waitingConnect ∨ e.state = .buildingRequest →
    e.connection.sent = []
  sending : e.state = .sendingRequest → ∃ rest, SentFrom (name ++ ascii " " ++ rest) e
  begins : Begins name e.connection.sent

/-- A request begins with the name of its method and a space. -/
theorem requestText_begins (method : HTTPMethod) (path host : Bytes) :
    ∃ rest, requestText method path host 0 = methodStr method ++ ascii " " ++ rest := by
  rw [requestText, if_neg (by simp), requestHead]
  simp only [List.append_assoc]
  exact ⟨_, rfl⟩

/-- What is sent of such a request begins with the name. -/
theorem SentFrom.begins {rest : Bytes} (h : SentFrom (name ++ ascii " " ++ rest) e) :
    Begins name e.connection.sent := by
  rw [h.sent]
  exact ⟨rest, List.take_prefix _ _⟩

/-- The request that is built begins with the name of the method. -/
theorem Sends.built (h : Sends name e) (hs : e.state = .buildingRequest)
    (hstep : exchangeStep e = .ok d) : ∃ rest, SentFrom (name ++ ascii " " ++ rest) d := by
  obtain ⟨s, x, hwork, rfl⟩ := work_of_exchangeStep hstep
  rw [exchangeWork, hs] at hwork
  have hlen := bodyLen_of_none h.body
  have hx := Except.ok.inj hwork
  rw [buildRequest_eq (by rw [hlen]; decide), hlen] at hx
  obtain ⟨-, rfl⟩ := Prod.mk.injEq .. ▸ hx
  obtain ⟨rest, hrest⟩ := requestText_begins e.method e.path e.urlParts.host.bytes
  refine ⟨rest, ?_, ?_⟩
  · rw [← h.method, ← hrest]
    simp
  · rw [List.take_zero]
    exact h.before (Or.inr (Or.inr hs))

/-- Before the request is built, the client connects. -/
theorem connects_of_leadsTo {s s' : HTTPClientState} (h : s.leadsTo s' = true)
    (hs' : s' = .connecting ∨ s' = .waitingConnect ∨ s' = .buildingRequest) :
    s = .connecting ∨ s = .waitingConnect := by
  rcases hs' with rfl | rfl | rfl <;> cases s <;>
    first | exact Or.inl rfl | exact Or.inr rfl | cases h

/-- The request is sent after it has been built. -/
theorem builds_of_leadsTo {s : HTTPClientState} (h : s.leadsTo .sendingRequest = true) :
    s = .buildingRequest ∨ s = .sendingRequest := by
  cases s <;> first | exact Or.inl rfl | exact Or.inr rfl | cases h

/-- What is sent does not depend on the clock. -/
theorem Sends.ticked (h : Sends name e) : Sends name e.ticked := by
  refine ⟨⟨h.method, h.body⟩, h.before, fun hs => ?_, h.begins⟩
  obtain ⟨rest, hfrom⟩ := h.sending hs
  exact ⟨rest, hfrom.buffer, hfrom.sent⟩

/-- A worker call keeps the beginning of the request. -/
theorem Sends.work (h : Sends name e) (hwork : exchangeStep e = .ok d) : Sends name d := by
  have hleads := exchangeStep_leadsTo hwork
  have hbodyless := h.toBodyless.work hwork
  by_cases hsending : e.state = .sendingRequest
  · obtain ⟨rest, hfrom⟩ := h.sending hsending
    have hfrom' := hfrom.step hsending hwork
    refine ⟨hbodyless, fun hb => ?_, fun _ => ⟨rest, hfrom'⟩, hfrom'.begins⟩
    have hs := connects_of_leadsTo hleads hb
    simp [hsending] at hs
  · have hsent := exchangeStep_sent hsending hwork
    refine ⟨hbodyless, fun hb => ?_, fun hs => ?_, by rw [hsent]; exact h.begins⟩
    · rw [hsent]
      rcases connects_of_leadsTo hleads hb with hs | hs
      · exact h.before (Or.inl hs)
      · exact h.before (Or.inr (Or.inl hs))
    · rw [hs] at hleads
      exact h.built ((builds_of_leadsTo hleads).resolve_right hsending) hwork

/-- **What a client has written begins with the name of the method it holds.** -/
theorem Sends.step (h : Sends name e) (hstep : httpClientTaskwork e = .ok d) : Sends name d := by
  have hbodyless := h.toBodyless.step hstep
  cases taskwork_cases hstep with
  | waits _ => exact h.ticked
  | fails _ => exact ⟨hbodyless, fun hs => (by simp at hs), fun hs => (by cases hs), h.begins⟩
  | disposes hs =>
      have hs' : (httpClientDispose e.ticked).state = .disposing := hs
      refine ⟨hbodyless, fun hb => (by simp [hs'] at hb), fun hb => (by simp [hs'] at hb), ?_⟩
      rw [dispose_sent]
      exact h.begins
  | works _ hwork => exact h.ticked.work hwork

end Sends

/-! ### A request that is written at once -/

section Written

variable {e : Exchange}

/-- A client whose next time is zero does not wait. -/
theorem not_waiting (h : e.nextRetryAt = 0) : ¬ Waiting e := by
  intro hwait
  have hlt := hwait.2
  rw [h] at hlt
  exact UInt64.not_lt_zero hlt

/-- A server that takes the whole request with one write. -/
def eagerServer : Environment := reachableServer [] [.wrote 1000] fun _ => 0

/-- The connect to such a server succeeds, when `transport_init` knows the scheme. -/
theorem transportInit_connects {url : Bytes} {parts : URLParts} {c : Connection}
    (hparts : httpParserUrl url = .ok parts) (hhttp : isHttp parts.scheme.bytes = true)
    (haddresses : c.addresses = some [connects]) (hinit : c.tlsInit = true)
    (hhandshake : c.handshake = [.done]) (mode : Bool) :
    (transportInit c parts mode).1 = .success := by
  obtain ⟨hscheme, hhost, hport, -⟩ := httpParserUrl_nonempty hparts
  rw [transportInit, if_neg (by simp [hscheme, hhost, hport])]
  simp only [hhttp, if_true]
  cases mode with
  | false =>
      simp only [Bool.false_eq_true, if_false, and_false, tcpClientInit, haddresses]
      rfl
  | true =>
      simp only [if_true, tcpClientBlockingInit, haddresses]
      by_cases htls : parts.scheme.bytes.map tolower = ascii "https"
      · simp [htls, hinit, hhandshake, tcpClientBlockingLoop, connects, attemptResult,
          handshakeLoop, Connection.socket]
      · simp [htls, tcpClientBlockingLoop, connects, attemptResult, Connection.socket]

/-- A request without a body is short, since the parts of a URL are. -/
theorem length_requestText_le (e : Exchange) :
    (requestText e.method e.path e.urlParts.host.bytes 0).length ≤ 1000 := by
  have hlt := length_requestText_lt e.method e.path e.urlParts.host.bytes (by decide : 0 < 2 ^ 31)
  have hpath := e.length_path_lt
  have hhost := e.urlParts.host.fits
  rw [requestMaxLen, if_neg (by decide)] at hlt
  omega

/-- A client that has built a request and written nothing of it. -/
structure Built (request : Bytes) (e : Exchange) : Prop where
  state : e.state = .sendingRequest
  buffer : e.requestBuffer = some request
  length : e.requestLength = request.length
  bytes : e.bytesSent = 0
  retry : e.nextRetryAt = 0

/-- The request is built in one call. -/
theorem taskwork_builds (hs : e.state = .buildingRequest) (hretry : e.nextRetryAt = 0)
    (hbody : e.reqBody = none) :
    ∃ d, httpClientTaskwork e = .ok d ∧ d.connection = e.connection ∧
      Built (requestText e.method e.path e.urlParts.host.bytes 0) d := by
  have hs' : e.ticked.state = .buildingRequest := hs
  have hlen : e.ticked.bodyLen = 0 := bodyLen_of_none hbody
  have hbuild := buildRequest_eq (e := e.ticked) (by rw [hlen]; decide)
  have hstep := exchangeStep_of_work (e := e.ticked) (by rw [exchangeWork, hs', hbuild])
  rw [← taskwork_awake (by rw [hs]; rfl) (not_waiting hretry)] at hstep
  refine ⟨_, hstep, rfl, rfl, ?_, ?_, rfl, hretry⟩
  · simp only [hlen, List.take_zero, List.append_nil]
    rfl
  · have hshort := length_requestText_le e
    simp only [hlen]
    exact toInt_eq_self (n := (requestText e.method e.path e.urlParts.host.bytes 0).length)
      (by omega)

/-- A short request is written in one call. -/
theorem Built.writes {request : Bytes} (h : Built request e) (hshort : request.length ≤ 1000)
    (hsent : e.connection.sent = []) (hwrites : e.connection.writes = [.wrote 1000]) :
    ∃ d, httpClientTaskwork e = .ok d ∧ d.connection.sent = request := by
  have hs' : e.ticked.state = .sendingRequest := h.state
  have hbytes : e.ticked.bytesSent = 0 := h.bytes
  have hwork := sendRequest_eq (e := e.ticked) h.buffer h.length (by rw [hbytes]; omega) (by omega)
  rw [show request.drop e.ticked.bytesSent = request by rw [hbytes, List.drop_zero]] at hwork
  have hstep := exchangeStep_of_work (e := e.ticked) (by rw [exchangeWork, hs', hwork])
  rw [← taskwork_awake (by rw [h.state]; rfl) (not_waiting h.retry)] at hstep
  refine ⟨_, hstep, ?_⟩
  have hconn := (written_fields
    (e := { e.ticked with connection := (transportWrite e.ticked.connection request).2 })
    (transportWrite e.ticked.connection request).1).1
  refine (congrArg Connection.sent hconn).trans ?_
  have hwrites' : e.ticked.connection.writes = [.wrote 1000] := hwrites
  have hsent' : e.ticked.connection.sent = [] := hsent
  simp only [transportWrite, hwrites', hsent', List.nil_append]
  exact List.take_of_length_le hshort

/-- **The name of the method in the struct is written**, when the server can be reached. -/
theorem method_written {url : Bytes} (hurl : HttpUrl url) (prior : Exchange) (onSuccess : Bool)
    (task : ℕ) :
    ∃ d rest, Reaches httpClientTaskwork (initiated prior url onSuccess task eagerServer) d ∧
      d.connection.sent = methodStr prior.method ++ ascii " " ++ rest := by
  obtain ⟨parts, hparts, hhttp⟩ := hurl
  generalize hstart : initiated prior url onSuccess task eagerServer = e
  have hs : e.ticked.state = .connecting := by rw [← hstart]; rfl
  have hparts' : httpParserUrl e.ticked.url = .ok parts := by rw [← hstart]; exact hparts
  have hinit : (transportInit e.ticked.connection parts e.ticked.blockingMode).1 = .success := by
    rw [← hstart]
    exact transportInit_connects hparts hhttp rfl rfl rfl false
  have hconnect := exchangeStep_connecting hs
  simp only [httpClientWorktaskConnecting, hparts', hinit, reduceCtorEq, if_false, ne_eq,
    not_true_eq_false] at hconnect
  rw [← taskwork_awake (by rw [← hstart]; rfl) (not_waiting (by rw [← hstart]; rfl))] at hconnect
  obtain ⟨hwrites, hsent⟩ :=
    transportInit_writes e.ticked.connection parts e.ticked.blockingMode
  obtain ⟨d, hd, hconn, hbuilt⟩ := taskwork_builds (e := { e.ticked with
      urlParts := parts
      connection := (transportInit e.ticked.connection parts e.ticked.blockingMode).2
      state := .buildingRequest }) rfl (by rw [← hstart]; rfl) (by rw [← hstart]; rfl)
  obtain ⟨x, hx, hwritten⟩ := hbuilt.writes (length_requestText_le _)
    (by rw [hconn]; exact hsent.trans (by rw [← hstart]; rfl))
    (by rw [hconn]; exact hwrites.trans (by rw [← hstart]; rfl))
  obtain ⟨rest, hrest⟩ := requestText_begins e.method
    (Exchange.path { e.ticked with urlParts := parts }) parts.host.bytes
  refine ⟨x, rest, .head hconnect (.head hd (.single hx)), hwritten.trans (hrest.trans ?_)⟩
  rw [← hstart]
  rfl

end Written

/-! ### Requests -/

/-- The methods that a request can name. -/
inductive RequestMethod
  | get
  | post
  | put
  | delete

/-- The value of the method. -/
def RequestMethod.method : RequestMethod → HTTPMethod
  | .get => .get
  | .post => .post
  | .put => .put
  | .delete => .delete

/-- The name of the method. -/
def RequestMethod.name : RequestMethod → Bytes
  | .get => ascii "GET"
  | .post => ascii "POST"
  | .put => ascii "PUT"
  | .delete => ascii "DELETE"

/-- The bytes before the first space, if there is one, are the name. -/
def NamesMethod (name bytes : Bytes) : Prop :=
  ∀ token rest, bytes = token ++ ascii " " ++ rest → 32 ∉ token → token = name

/-- The request that `http_client_initiate` has started writes the bytes: they are what the
transport has accepted at some point of the run. -/
def Writes {n : ℕ} {α β : Type} (r : ErrorCode × System n α β) (bytes : Bytes) : Prop :=
  r.1 = .success ∧ ∃ e, Reaches httpClientTaskwork r.2.client e ∧ e.connection.sent = bytes

/-- The two structs give the same requests, with the method that is passed in, whatever the
table of the scheduler, the callback and the rest of the world. -/
def DependsOnArguments (url : Bytes) (m : RequestMethod) (prior₁ prior₂ : Exchange) : Prop :=
  ∀ (n : ℕ) (scheduler : Scheduler n ℕ ℕ) (self taskwork : ℕ) (onSuccess : Bool)
    (alloc : InitiateAllocations) (env : Environment) (bytes : Bytes),
    (Writes (httpClientInitiate (some self) taskwork url m.method onSuccess alloc env
        ⟨scheduler, prior₁⟩) bytes ↔
      Writes (httpClientInitiate (some self) taskwork url m.method onSuccess alloc env
        ⟨scheduler, prior₂⟩) bytes) ∧
    (Writes (httpClientInitiate (some self) taskwork url m.method onSuccess alloc env
        ⟨scheduler, prior₁⟩) bytes → NamesMethod m.name bytes)

section Requests

variable {name bytes : Bytes}

/-- The name of a method has no space. -/
theorem space_notMem_methodStr (method : HTTPMethod) : 32 ∉ methodStr method := by
  rw [methodStr.eq_def]
  split <;> decide

/-- The first space ends the name. -/
theorem Begins.namesMethod (h : Begins name bytes) (hname : 32 ∉ name) :
    NamesMethod name bytes := by
  obtain ⟨rest', more, hmore⟩ := h
  rintro token rest rfl htoken
  have hspace : ascii " " = [32] := rfl
  rw [hspace, List.append_assoc, List.append_assoc, List.append_assoc] at hmore
  have htake := congrArg (List.takeWhile (· ≠ 32)) hmore
  have hkeep : ∀ {l : Bytes}, 32 ∉ l → ∀ x ∈ l, decide (x ≠ 32) = true := by
    intro l hl x hx
    exact decide_eq_true (fun hx' => hl (hx' ▸ hx))
  rw [List.takeWhile_append_of_pos (hkeep htoken), List.takeWhile_append_of_pos (hkeep hname)]
    at htake
  simpa using htake

/-- Whether a request is started, and with which handle, does not depend on the struct. -/
theorem initiate_outcome {n : ℕ} (scheduler : Scheduler n ℕ ℕ) (self taskwork : ℕ) (url : Bytes)
    (method : HTTPMethod) (onSuccess : Bool) (alloc : InitiateAllocations) (env : Environment) :
    (∃ code, code ≠ .success ∧ ∀ prior, (httpClientInitiate (some self) taskwork url method
      onSuccess alloc env ⟨scheduler, prior⟩).1 = code) ∨
    ∃ (i : Fin n) (scheduler' : Scheduler n ℕ ℕ), ∀ prior, httpClientInitiate (some self) taskwork
      url method onSuccess alloc env ⟨scheduler, prior⟩ =
        (.success, ⟨scheduler', initiated prior url onSuccess i.val env⟩) := by
  obtain ⟨req, resp, urlCopy⟩ := alloc
  cases req with
  | false => exact Or.inl ⟨.noMemory, by decide, fun _ => rfl⟩
  | true =>
      cases resp with
      | false => exact Or.inl ⟨.noMemory, by decide, fun _ => rfl⟩
      | true =>
          simp only [httpClientInitiate, Bool.not_true, Bool.false_eq_true, if_false]
          cases hcreate : schedulerCreateTask scheduler (some self) (some taskwork) with
          | mk handle scheduler' =>
              cases handle with
              | none => exact Or.inl ⟨.busy, by decide, fun _ => rfl⟩
              | some i =>
                  cases urlCopy with
                  | false => exact Or.inl ⟨.noMemory, by decide, fun _ => rfl⟩
                  | true => exact Or.inr ⟨i, scheduler', fun _ => rfl⟩

/-! ### Requests that are never written -/

/-- The client has a URL that `transport_init` does not know, or has given up. -/
def Hopeless (e : Exchange) : Prop :=
  (e.state = .connecting ∧ ¬ HttpUrl e.url ∨ e.state = .error ∨ e.state = .disposing) ∧
    e.connection.sent = []

/-- Without a URL that `transport_init` knows, the connect fails. -/
theorem connecting_unknown {e d : Exchange} (hs : e.state = .connecting) (hurl : ¬ HttpUrl e.url)
    (hstep : exchangeStep e = .ok d) : d.state = .error := by
  rw [exchangeStep_connecting hs] at hstep
  obtain rfl := Except.ok.inj hstep
  obtain ⟨code, -, heq⟩ | ⟨parts, s, hparts, heq, hres⟩ := connecting_cases e
  · rw [heq]
  · obtain ⟨hscheme, hhost, hport, -⟩ := httpParserUrl_nonempty hparts
    have hhttp : isHttp parts.scheme.bytes = false := by
      rw [← Bool.not_eq_true]
      exact fun hhttp => hurl ⟨parts, hparts, hhttp⟩
    rw [transportInit_unknown hhost hport hscheme hhttp] at hres
    have hs' : s = .error := by simpa using hres
    rw [heq, hs']

/-- A client that cannot send anything still cannot after a call. -/
theorem Hopeless.step {e d : Exchange} (h : Hopeless e) (hstep : httpClientTaskwork e = .ok d) :
    Hopeless d := by
  cases taskwork_cases hstep with
  | waits _ => exact h
  | fails _ => exact ⟨Or.inr (Or.inr rfl), h.2⟩
  | disposes hs => exact ⟨Or.inr (Or.inr hs), (dispose_sent _).trans h.2⟩
  | works hs hwork =>
      rcases h.1 with ⟨hc, hurl⟩ | hc | hc
      · have hsent : d.connection.sent = e.connection.sent :=
          exchangeStep_sent (e := e.ticked) (by simp [Exchange.ticked, hc]) hwork
        exact ⟨Or.inr (Or.inl (connecting_unknown (e := e.ticked) hc hurl hwork)), hsent.trans h.2⟩
      · exact absurd hc hs.1
      · exact absurd hc hs.2

/-- A client that is started with another URL sends nothing. -/
theorem initiated_writes_nothing {url : Bytes} (hurl : ¬ HttpUrl url) {prior e : Exchange}
    {onSuccess : Bool} {task : ℕ} {env : Environment}
    (h : Reaches httpClientTaskwork (initiated prior url onSuccess task env) e) :
    e.connection.sent = [] :=
  (h.invariant (I := Hopeless) (fun _ _ hstep hx => hx.step hstep) ⟨Or.inl ⟨rfl, hurl⟩, rfl⟩).2

/-! ### Requests that are the same -/

section Same

variable {url : Bytes} {prior₁ prior₂ : Exchange} {onSuccess : Bool} {task : ℕ} {env : Environment}

/-- A client that is started sends a request of its method. -/
theorem sends_initiated (hmethod : methodStr prior₁.method = name) :
    Sends name (initiated prior₁ url onSuccess task env) := by
  refine ⟨⟨hmethod, rfl⟩, fun _ => rfl, fun hs => (by cases hs), [], ?_⟩
  exact List.nil_prefix

/-- Clients that are started in the same way are twins, whatever was there before. -/
theorem twin_initiated :
    Twin prior₂.leftover (initiated prior₁ url onSuccess task env)
      (initiated prior₂ url onSuccess task env) :=
  .unconnected (e := initiated prior₁ url onSuccess task env) rfl

/-- The second client writes what the first one does. -/
theorem sent_of_same (hmethod₁ : methodStr prior₁.method = name)
    (hmethod₂ : methodStr prior₂.method = name)
    (h : ∃ e, Reaches httpClientTaskwork (initiated prior₁ url onSuccess task env) e ∧
      e.connection.sent = bytes) :
    ∃ e, Reaches httpClientTaskwork (initiated prior₂ url onSuccess task env) e ∧
      e.connection.sent = bytes := by
  obtain ⟨e, he, rfl⟩ := h
  have hlock : ∀ e x, Bodyless name e ∧ Twin prior₂.leftover e x →
      Lockstep (fun e x => Bodyless name e ∧ Twin prior₂.leftover e x) (httpClientTaskwork e)
        (httpClientTaskwork x) :=
    fun e x h => (h.2.step h.1 hmethod₂).and fun d hd => h.1.step hd
  obtain ⟨x, hx, -, htwin⟩ := he.lockstep hlock ⟨⟨hmethod₁, rfl⟩, twin_initiated⟩
  exact ⟨x, hx, htwin.sent⟩

end Same

/-- A table with one slot, in which a request can always be started. -/
def emptyScheduler : Scheduler 1 ℕ ℕ := ⟨fun _ => {}⟩

/-- With enough memory and an empty table the request is started. -/
theorem initiate_emptyScheduler (url : Bytes) (method : HTTPMethod) (env : Environment)
    (prior : Exchange) :
    httpClientInitiate (some 1) 2 url method true ⟨true, true, true⟩ env ⟨emptyScheduler, prior⟩ =
      (.success, ⟨emptyScheduler.set 0 ⟨some 1, some 2⟩, initiated prior url true 0 env⟩) := rfl

/-- **When a scheduled request depends on its arguments only.** Two structs give the same
bytes, with the method that is passed in, exactly when no URL of this kind is ever connected
to, or both of them held this method, or one that prints the same name. -/
theorem request_independent_iff (url : Bytes) (m : RequestMethod) (prior₁ prior₂ : Exchange) :
    DependsOnArguments url m prior₁ prior₂ ↔
      ¬ HttpUrl url ∨
        methodStr prior₁.method = m.name ∧ methodStr prior₂.method = m.name := by
  constructor
  · intro h
    by_cases hurl : HttpUrl url
    · have hall := h 1 emptyScheduler 1 2 true ⟨true, true, true⟩ eagerServer
      simp only [initiate_emptyScheduler] at hall
      obtain ⟨e₁, rest₁, he₁, hsent₁⟩ := method_written hurl prior₁ true 0
      obtain ⟨e₂, rest₂, he₂, hsent₂⟩ := method_written hurl prior₂ true 0
      refine Or.inr ⟨?_, ?_⟩
      · exact (hall e₁.connection.sent).2 ⟨rfl, e₁, he₁, rfl⟩ _ rest₁ hsent₁
          (space_notMem_methodStr _)
      · have hwrites := (hall e₂.connection.sent).1.mpr ⟨rfl, e₂, he₂, rfl⟩
        exact (hall e₂.connection.sent).2 hwrites _ rest₂ hsent₂ (space_notMem_methodStr _)
    · exact Or.inl hurl
  · intro h n scheduler self taskwork onSuccess alloc env bytes
    obtain ⟨code, hcode, hfailed⟩ | ⟨i, scheduler', hstarted⟩ :=
      initiate_outcome scheduler self taskwork url m.method onSuccess alloc env
    · simp only [Writes, hfailed, hcode, false_and, iff_self, false_imp_iff, and_self]
    · simp only [Writes, hstarted, true_and]
      rcases h with hurl | ⟨hmethod₁, hmethod₂⟩
      · have hnothing : ∀ prior,
            (∃ e, Reaches httpClientTaskwork (initiated prior url onSuccess i.val env) e ∧
              e.connection.sent = bytes) ↔ bytes = [] := by
          intro prior
          constructor
          · rintro ⟨e, he, rfl⟩
            exact initiated_writes_nothing hurl he
          · rintro rfl
            exact ⟨_, .refl _, rfl⟩
        rw [hnothing, hnothing]
        refine ⟨Iff.rfl, ?_⟩
        rintro rfl token rest htoken
        simp [ascii] at htoken
      · refine ⟨⟨sent_of_same hmethod₁ hmethod₂, sent_of_same hmethod₂ hmethod₁⟩, ?_⟩
        rintro ⟨e, he, rfl⟩
        have hsends := he.invariant (I := Sends m.name) (fun _ _ hstep hx => hx.step hstep)
          (sends_initiated hmethod₁)
        exact hsends.begins.namesMethod (by rw [← hmethod₁]; exact space_notMem_methodStr _)

/-- A URL with a host of one letter. -/
theorem httpUrl_h : HttpUrl (ascii "http://h/") := by
  have hany : (httpParserUrl (ascii "http://h/")).toOption.any
      (fun parts => isHttp parts.scheme.bytes) = true := by decide
  cases hparts : httpParserUrl (ascii "http://h/") with
  | error code =>
      rw [hparts] at hany
      cases hany
  | ok parts =>
      rw [hparts] at hany
      exact ⟨parts, hparts, hany⟩

/-- A struct of zeros that is started with `HTTP_POST` sends `GET`. -/
theorem post_sends_get : ¬ DependsOnArguments (ascii "http://h/") .post zeroed zeroed := by
  intro h
  obtain ⟨e, rest, he, hsent⟩ := method_written httpUrl_h zeroed true 0
  have hnames := (h 1 emptyScheduler 1 2 true ⟨true, true, true⟩ eagerServer e.connection.sent).2
    ⟨rfl, e, he, rfl⟩
  have htoken := hnames _ rest hsent (space_notMem_methodStr _)
  exact absurd htoken (by decide)

end Requests

end MaestroCore
