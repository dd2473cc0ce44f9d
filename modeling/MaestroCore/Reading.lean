import MaestroCore.HeaderBlock

/-!
# Reading the Head of a Response

Whatever way a response is cut into reads, the bytes the client has not used yet are
`recv_buf` followed by what is pending, and a read moves bytes from the second part to the
first. The proofs about runs therefore speak about the unread bytes, on which a read has
no effect, and about how much of them is in the buffer.

This module treats what all workers have in common, and then the status line and the
header block: from the start of the reading phase the client reaches the point where the
whole header block is in the buffer and nothing of the body has been used (`HeadRead`).

## Main results

* `receive_advances`: a worker that waits for more bytes fetches some, retries, or meets
  the end of the connection.
* `InHead.step` and `exists_headRead`: the run through the head of a response.
* `InHead.framed_step`: the step in which the headers decide the framing.
* `exists_goal_after_head`: the rule for runs that go on after the head.
* `InHead.stuck`: a header block whose end does not fit `int` is never found.
-/

open CLang Run

namespace MaestroCore

/-! ### Fetching bytes -/

/-- The bytes that reads can still obtain. -/
def HTTPClient.pending (c : HTTPClient) : Bytes := c.transport.pending

/-- The bytes of the stream that the client has not used yet. -/
def HTTPClient.unread (c : HTTPClient) : Bytes := c.recvBuf ++ c.pending

/-- The measure of a run: every read makes it smaller, and so does every byte that is
removed from the buffer. -/
def HTTPClient.load (c : HTTPClient) : ℕ := 2 * c.transport.load + c.recvBuf.length

/-- The client has read on: some bytes, or none in a transient failure, have moved from
what is pending to the buffer. -/
def Fetched (c c' : HTTPClient) : Prop :=
  ∃ (b : Bytes) (t : Transport), c' = { c with transport := t, recvBuf := c.recvBuf ++ b } ∧
    b ++ t.pending = c.pending ∧ t.ending = c.transport.ending ∧ c'.load < c.load

/-- The client waits for bytes that do not come: it stays as it is while the connection is
open, and goes to the error state when the connection has ended. -/
def Starved (c c' : HTTPClient) : Prop :=
  c.pending = [] ∧
    ((c.transport.ending = .idle ∧ c' = c) ∨
      (c.transport.ending ≠ .idle ∧ c'.state = .error))

/-- A read moves bytes from the transport to the buffer. -/
theorem Fetched.unread {c c' : HTTPClient} (h : Fetched c c') : c'.unread = c.unread := by
  obtain ⟨b, t, rfl, hp, -, -⟩ := h
  rw [HTTPClient.unread, HTTPClient.unread, ← hp, HTTPClient.pending, List.append_assoc]

/-- A read leaves less to do. -/
theorem Fetched.load_lt {c c' : HTTPClient} (h : Fetched c c') : c'.load < c.load := by
  obtain ⟨b, t, rfl, -, -, hload⟩ := h
  exact hload

/-- A read does not change the state. -/
theorem Fetched.state {c c' : HTTPClient} (h : Fetched c c') : c'.state = c.state := by
  obtain ⟨b, t, rfl, -⟩ := h
  rfl

/-- A read does not change how the connection ends. -/
theorem Fetched.ending {c c' : HTTPClient} (h : Fetched c c') :
    c'.transport.ending = c.transport.ending := by
  obtain ⟨b, t, rfl, -, hend, -⟩ := h
  exact hend

/-- A read does not change the declared length. -/
theorem Fetched.contentLength {c c' : HTTPClient} (h : Fetched c c') :
    c'.contentLength = c.contentLength := by
  obtain ⟨b, t, rfl, -⟩ := h
  rfl

/-- A read does not change the decoded body. -/
theorem Fetched.decodedBody {c c' : HTTPClient} (h : Fetched c c') :
    c'.decodedBody = c.decodedBody := by
  obtain ⟨b, t, rfl, -⟩ := h
  rfl

/-- A read does not change the rest of a chunk. -/
theorem Fetched.chunkRemaining {c c' : HTTPClient} (h : Fetched c c') :
    c'.chunkRemaining = c.chunkRemaining := by
  obtain ⟨b, t, rfl, -⟩ := h
  rfl

/-- Writing a state that the client is in changes nothing. -/
theorem HTTPClient.with_state {c : HTTPClient} {s : HTTPClientState} (h : c.state = s) :
    { c with state := s } = c := by
  subst h
  rfl

/-- The ways a worker's read can go. -/
inductive Received (c : HTTPClient) (again : HTTPClientState)
    (onClosed onBytes : HTTPClient → Worked) : Worked → Prop
  | bytes {c₁ : HTTPClient} (h : Fetched c c₁) : Received c again onClosed onBytes (onBytes c₁)
  | retry {c₁ : HTTPClient} (h : Fetched c c₁) (hbuf : c₁.recvBuf = c.recvBuf) :
      Received c again onClosed onBytes (.ok (again, c₁))
  | idle (hpend : c.pending = []) (hend : c.transport.ending = .idle) :
      Received c again onClosed onBytes (.ok (again, c))
  | closed (hpend : c.pending = []) (hend : c.transport.ending = .closed) :
      Received c again onClosed onBytes (onClosed c)
  | broken {t : Transport} (hpend : c.pending = []) (hend : c.transport.ending = .broken) :
      Received c again onClosed onBytes (.ok (.error, { c with transport := t }))

/-- A read that brings bytes. -/
theorem fetched_bytes {c : HTTPClient} {len : ℕ} (hlen : 0 < len) {b : Bytes} {t : Transport}
    (h : transportRead c.transport len = (.bytes b, t)) :
    Fetched c { c with transport := t, recvBuf := c.recvBuf ++ b } := by
  have hread := transportRead_cases c.transport hlen
  rw [h] at hread
  cases hread with
  | bytes hne _ hpend hend hload =>
      refine ⟨b, t, rfl, hpend, hend, ?_⟩
      have : b.length ≠ 0 := fun h => hne (List.length_eq_zero_iff.mp h)
      simp only [HTTPClient.load, List.length_append]
      omega

/-- **A read**: what it can come to. -/
theorem receive_cases (c : HTTPClient) {len : ℕ} (hlen : 0 < len) (again : HTTPClientState)
    (onClosed onBytes : HTTPClient → Worked) :
    Received c again onClosed onBytes (receive c len again onClosed onBytes) := by
  have hread := transportRead_cases c.transport hlen
  rw [receive]
  generalize hr : transportRead c.transport len = r at hread
  cases hread with
  | @bytes b t => exact .bytes (fetched_bytes hlen hr)
  | @retry e t he hpend hend hload =>
      simp only [he, if_true]
      refine .retry ⟨[], t, by simp, hpend, hend, ?_⟩ rfl
      simp only [HTTPClient.load]
      omega
  | idle hpend hend => exact .idle hpend hend
  | closed hpend hend => exact .closed hpend hend
  | @broken e t he hpend hend =>
      simp only [he]
      exact .broken hpend hend

/-- While bytes are pending, a worker that only reads fetches some or tries again. -/
theorem receive_goto {c : HTTPClient} (len : ℕ) (hlen : 0 < len) (hpend : c.pending ≠ [])
    (again : HTTPClientState) (onClosed : HTTPClient → Worked) :
    ∃ c₁, Fetched c c₁ ∧ receive c len again onClosed (goto again) = .ok (again, c₁) := by
  have hread := receive_cases c hlen again onClosed (goto again)
  generalize receive c len again onClosed (goto again) = r at hread
  cases hread with
  | @bytes c₁ hf => exact ⟨c₁, hf, rfl⟩
  | @retry c₁ hf _ => exact ⟨c₁, hf, rfl⟩
  | idle hnil => exact absurd hnil hpend
  | closed hnil => exact absurd hnil hpend
  | broken hnil => exact absurd hnil hpend

/-! ### Postconditions of workers -/

/-- Every outcome of the worker satisfies the postcondition. -/
def Outcome (Q : HTTPClientState → HTTPClient → Prop) (w : Worked) : Prop :=
  ∀ s d, w = .ok (s, d) → Q s d

/-- A change of the state has the outcome that the new state has. -/
theorem Outcome.goto {Q : HTTPClientState → HTTPClient → Prop} {s : HTTPClientState}
    {c : HTTPClient} (h : Q s c) : Outcome Q (goto s c) := by
  intro s' d heq
  obtain ⟨rfl, rfl⟩ := Prod.mk.injEq .. ▸ Except.ok.inj heq
  exact h

/-- A fault has every outcome. -/
theorem Outcome.error {Q : HTTPClientState → HTTPClient → Prop} {e : Fault} :
    Outcome Q (.error e) := by
  intro s d heq
  cases heq

/-- The outcome is that of what comes last. -/
theorem Outcome.bind {α : Type} {Q : HTTPClientState → HTTPClient → Prop}
    {x : Except Fault α} {f : α → Worked} (h : ∀ a, x = .ok a → Outcome Q (f a)) :
    Outcome Q (x >>= f) := by
  cases x with
  | error e => exact Outcome.error
  | ok a => exact h a rfl

/-- The rule for a read, with the connection after it. -/
theorem Outcome.receive {Q : HTTPClientState → HTTPClient → Prop} {c : HTTPClient} {len : ℕ}
    {again : HTTPClientState} {onClosed onBytes : HTTPClient → Worked}
    (hagain : Q again { c with transport := (transportRead c.transport len).2 })
    (herror : Q .error { c with transport := (transportRead c.transport len).2 })
    (hclosed : Outcome Q (onClosed { c with transport := (transportRead c.transport len).2 }))
    (hbytes : ∀ b, Outcome Q (onBytes
      { c with transport := (transportRead c.transport len).2, recvBuf := c.recvBuf ++ b })) :
    Outcome Q (receive c len again onClosed onBytes) := by
  rw [MaestroCore.receive]
  generalize transportRead c.transport len = r at hagain herror hclosed hbytes
  obtain ⟨b | _ | e, t⟩ := r
  · exact hbytes b
  · exact hclosed
  · simp only
    split
    · exact Outcome.goto hagain
    · exact Outcome.goto herror

/-- A worker call is the dispatch followed by the update of the state. -/
theorem readStep_of_work {c c' : HTTPClient} {s : HTTPClientState}
    (h : httpClientWork c = .ok (s, c')) :
    httpClientReadStep c = .ok { c' with state := s } := by
  simp [httpClientReadStep, h, bind, Except.bind]

/-- A step that keeps the invariant and makes progress, or shows that bytes are missing. -/
def Advances (I : HTTPClient → Prop) (c : HTTPClient) : Prop :=
  ∃ c', httpClientReadStep c = .ok c' ∧ ((I c' ∧ c'.load < c.load) ∨ Starved c c')

/-- **Waiting for more bytes.** A worker whose call amounts to a read advances, if the
invariant holds again after a transient failure and after what the worker does with
bytes. -/
theorem receive_advances {I : HTTPClient → Prop} {c : HTTPClient} {len : ℕ} (hlen : 0 < len)
    {onClosed onBytes : HTTPClient → Worked}
    (hwork : httpClientWork c = receive c len c.state onClosed onBytes)
    (hclosed : onClosed c = goto .error c)
    (hretry : ∀ c₁, Fetched c c₁ → c₁.recvBuf = c.recvBuf → I c₁)
    (hbytes : ∀ c₁, Fetched c c₁ →
      ∃ s c₂, onBytes c₁ = .ok (s, c₂) ∧ c₂.load ≤ c₁.load ∧ I { c₂ with state := s }) :
    Advances I c := by
  have hread := receive_cases c hlen c.state onClosed onBytes
  rw [← hwork] at hread
  generalize hr : httpClientWork c = r at hread
  cases hread with
  | @bytes c₁ hf =>
      obtain ⟨s, c₂, hon, hle, hI⟩ := hbytes c₁ hf
      exact ⟨_, readStep_of_work (hr.trans hon), Or.inl ⟨hI, lt_of_le_of_lt hle hf.load_lt⟩⟩
  | @retry c₁ hf hbuf =>
      have hI := hretry c₁ hf hbuf
      rw [← hf.state] at hr
      exact ⟨_, readStep_of_work hr, Or.inl ⟨hI, hf.load_lt⟩⟩
  | idle hpend hend =>
      exact ⟨_, readStep_of_work hr, Or.inr ⟨hpend, Or.inl ⟨hend, rfl⟩⟩⟩
  | closed hpend hend =>
      have hwork' : httpClientWork c = .ok (.error, c) := hr.trans hclosed
      exact ⟨_, readStep_of_work hwork', Or.inr ⟨hpend, Or.inr ⟨by simp [hend], rfl⟩⟩⟩
  | broken hpend hend =>
      exact ⟨_, readStep_of_work hr, Or.inr ⟨hpend, Or.inr ⟨by simp [hend], rfl⟩⟩⟩

/-- The measure rule for clients: the run reaches the goal, or starves before it. -/
theorem exists_goal_or_starved {I G : HTTPClient → Prop} {c : HTTPClient}
    (hstep : ∀ x, I x → ¬ G x → Advances I x) (hc : I c) :
    ∃ c', Reaches httpClientReadStep c c' ∧ I c' ∧
      (G c' ∨ ∃ d, httpClientReadStep c' = .ok d ∧ Starved c' d) := by
  refine exists_reaches_of_measure HTTPClient.load ?_ hc
  intro x hx hgoal
  rw [not_or] at hgoal
  obtain ⟨y, hy, ⟨hIy, hlt⟩ | hstarved⟩ := hstep x hx hgoal.1
  · exact ⟨y, hy, hIy, hlt⟩
  · exact absurd ⟨y, hy, hstarved⟩ hgoal.2

/-- When nothing is missing before the goal, the run reaches it. -/
theorem exists_goal {I G : HTTPClient → Prop} {c : HTTPClient}
    (hstep : ∀ x, I x → ¬ G x → Advances I x)
    (hpend : ∀ x, I x → ¬ G x → x.pending ≠ []) (hc : I c) :
    ∃ c', Reaches httpClientReadStep c c' ∧ I c' ∧ G c' := by
  obtain ⟨c', hreach, hI, hG | ⟨d, -, hstarved⟩⟩ := exists_goal_or_starved hstep hc
  · exact ⟨c', hreach, hI, hG⟩
  · by_cases hG : G c'
    · exact ⟨c', hreach, hI, hG⟩
    · exact absurd hstarved.1 (hpend c' hI hG)

/-- Every step comes from the dispatch. -/
theorem work_of_readStep {c c' : HTTPClient} (h : httpClientReadStep c = .ok c') :
    ∃ s d, httpClientWork c = .ok (s, d) ∧ c' = { d with state := s } := by
  rw [httpClientReadStep] at h
  cases hwork : httpClientWork c with
  | error e => simp [hwork, bind, Except.bind] at h
  | ok r =>
      simp only [hwork, bind, Except.bind, Except.ok.injEq] at h
      exact ⟨r.1, r.2, rfl, h.symm⟩

/-- Clients that do not read stay as they are. -/
theorem readStep_of_not_reading {c : HTTPClient} (h : c.state.reading = false) :
    httpClientReadStep c = .ok c := by
  have hwork : httpClientWork c = .ok (c.state, c) := by
    rw [httpClientWork]
    cases hs : c.state <;> first | rfl | simp [hs, HTTPClientState.reading] at h
  rw [readStep_of_work hwork]

/-- Finished clients stay as they are. -/
theorem readStep_of_final {c : HTTPClient} (h : c.state = .error ∨ c.state = .disposing) :
    httpClientReadStep c = .ok c := by
  refine readStep_of_not_reading ?_
  rcases h with hs | hs <;> rw [hs] <;> rfl

/-- A step that advances leads back to the invariant, unless the connection has ended. -/
theorem Advances.keeps {I : HTTPClient → Prop} {c c' : HTTPClient} (h : Advances I c)
    (hc : I c) (hstep : httpClientReadStep c = .ok c') : I c' ∨ c'.state = .error := by
  obtain ⟨d, hd, hd'⟩ := h
  obtain rfl : c' = d := Except.ok.inj (hstep.symm.trans hd)
  rcases hd' with ⟨hI, -⟩ | ⟨-, ⟨-, rfl⟩ | ⟨-, herr⟩⟩
  · exact Or.inl hI
  · exact Or.inl hc
  · exact Or.inr herr

/-- An invariant from which every step advances is never left, except to the error
state. -/
theorem keeps_of_advances {I : HTTPClient → Prop} {c d : HTTPClient}
    (hstep : ∀ x, I x → Advances I x) (hc : I c) (hd : Reaches httpClientReadStep c d) :
    I d ∨ d.state = .error := by
  refine Reaches.invariant (I := fun x => I x ∨ x.state = .error) ?_ hd (Or.inl hc)
  rintro x y hxy (hx | hx)
  · exact (hstep x hx).keeps hx hxy
  · rw [readStep_of_final (Or.inl hx), Except.ok.injEq] at hxy
    exact Or.inr (hxy ▸ hx)

/-! ### The status line -/

/-- While the line end is not in the buffer, the worker waits or gives up. -/
theorem httpClientFirstline_of_short {c : HTTPClient} {line more m : Bytes}
    (hline : NoCrlf line) (hun : c.recvBuf ++ m = line ++ (crlf ++ more))
    (hlt : c.recvBuf.length < line.length + 2) :
    httpClientFirstline c =
      goto (if 1024 ≤ c.recvBuf.length then .error else .readingFirstline) c := by
  have hocc := firstOcc_crlf_line hline more
  rw [← hun] at hocc
  have hnone : List.firstOcc crlf c.recvBuf = none := by
    rw [List.firstOcc_front hocc, length_crlf, if_neg (by omega)]
  rw [httpClientFirstline]
  split
  · rename_i hnil
    rw [hnil, if_neg (by simp)]
  · simp only [httpParserFindLineEnd, hnone]
    rw [if_pos (by omega)]
    split <;> rfl

/-- Once the line end is in the buffer, the worker refuses the line for its length or parses
it. -/
theorem httpClientFirstline_of_line {c : HTTPClient} {line r : Bytes} (hline : NoCrlf line)
    (hbuf : c.recvBuf = line ++ (crlf ++ r)) (hint : line.length < 2 ^ 31) :
    httpClientFirstline c =
      if line = [] ∨ 1024 ≤ line.length then goto .error c
      else httpParserResponseFirstline line c.resp >>= fun w =>
        if w.1 ≠ .success then goto .error { c with resp := w.2 }
        else goto .readingHeaders { c with resp := w.2, recvBuf := r } := by
  have hend : httpParserFindLineEnd c.recvBuf = line.length := by
    rw [httpParserFindLineEnd, hbuf, firstOcc_crlf_line hline]
    exact toInt_eq_self (by omega)
  have htake : c.recvBuf.take line.length = line := by
    rw [hbuf, List.take_left' rfl]
  have hdrop : c.recvBuf.drop (line.length + 2) = r := by
    rw [hbuf, ← List.append_assoc]
    exact List.drop_left' (by simp [length_crlf])
  have hne : c.recvBuf ≠ [] := by
    rw [hbuf]
    simp [crlf]
  rw [httpClientFirstline, if_neg hne]
  simp only [hend, Int.toNat_natCast, htake, hdrop, List.length_eq_zero_iff]
  rw [if_neg (by omega)]

/-! ### The head of a response -/

/-- A status line that `http_parser_response_firstline` accepts, with the fields it
fills. -/
structure StatusLine where
  text : Bytes
  resp : HTTPResponse
  noCrlf : NoCrlf text
  short : text.length ≤ 1022
  accepted : httpParserResponseFirstline text {} = .ok (.success, resp)

/-- A status line is not empty. -/
theorem StatusLine.text_ne_nil (s : StatusLine) : s.text ≠ [] := by
  intro hnil
  have := s.accepted
  rw [hnil, httpParserResponseFirstline, if_pos rfl] at this
  simp at this

/-- The head of a response that the client accepts: a status line, and at least one header
line, all with a colon. -/
structure Head where
  statusLine : StatusLine
  lines : List Line
  headers : List HTTPKeyValue
  nonempty : lines ≠ []
  parsed : parseLines lines = .ok headers

/-- The header block with its empty line. -/
def Head.block (h : Head) : Bytes := lineBlock h.lines ++ crlf

/-- The head on the wire. -/
def Head.bytes (h : Head) : Bytes := h.statusLine.text ++ (crlf ++ h.block)

/-- A head, with its status line apart. -/
theorem Head.bytes_append (h : Head) (rest : Bytes) :
    h.bytes ++ rest = h.statusLine.text ++ (crlf ++ (h.block ++ rest)) := by
  simp [Head.bytes]

/-- A header block, with its last line end apart. -/
theorem Head.block_append (h : Head) (rest : Bytes) :
    h.block ++ rest = lineBlock h.lines ++ (crlf ++ rest) := by
  simp [Head.block]

/-- The header block is as long as the index of its end says. -/
theorem Head.length_block (h : Head) : h.block.length = headersEnd h.lines + 4 :=
  (headersEnd_add_four h.nonempty).symm

/-- The client has delivered nothing yet and knows where to deliver. -/
structure Undelivered (sink : Sink) (c : HTTPClient) : Prop where
  blockingMode : c.blockingMode = decide (sink = .blocking)
  blockingOut : sink = .blocking → c.blockingOut = some {}
  onSuccess : c.onSuccess = decide (sink = .callback)
  responses : c.responses = []

/-- A read delivers nothing. -/
theorem Fetched.undelivered {sink : Sink} {c c' : HTTPClient} (h : Fetched c c')
    (hc : Undelivered sink c) : Undelivered sink c' := by
  obtain ⟨b, t, rfl, -⟩ := h
  exact ⟨hc.1, hc.2, hc.3, hc.4⟩

/-- A change of the state delivers nothing. -/
theorem Undelivered.with_state {sink : Sink} {c : HTTPClient} (h : Undelivered sink c)
    (s : HTTPClientState) : Undelivered sink { c with state := s } :=
  ⟨h.1, h.2, h.3, h.4⟩

/-- The delivery: the caller receives the bytes that `http_client_worktask_returning`
selects. -/
theorem Undelivered.deliver {sink : Sink} {c : HTTPClient} (h : Undelivered sink c)
    (hs : c.state = .returning) :
    ∃ c', httpClientReadStep c = .ok c' ∧ Delivered sink c' (deliverySource c) ∧
      c'.transport = c.transport := by
  have hwork : httpClientWork c = httpClientWorktaskReturning c := by
    rw [httpClientWork, hs]
  cases sink with
  | blocking =>
      rw [httpClientWorktaskReturning, h.blockingMode, h.blockingOut rfl] at hwork
      exact ⟨_, readStep_of_work hwork, ⟨rfl, rfl⟩, rfl⟩
  | callback =>
      rw [httpClientWorktaskReturning, h.blockingMode, h.onSuccess] at hwork
      refine ⟨_, readStep_of_work hwork, ⟨rfl, ?_⟩, rfl⟩
      simp [h.responses]

/-- A client that has read part of the head of a response. The stream is the head followed
by `rest`, of which the last bytes may be `missing` on this connection. -/
inductive InHead (sink : Sink) (h : Head) (rest missing : Bytes) (e : Ending)
    (c : HTTPClient) : Prop
  | firstline (hs : c.state = .readingFirstline) (hresp : c.resp = {})
      (hbuf : c.recvBuf.length < h.statusLine.text.length + 2)
      (hun : c.unread ++ missing = h.bytes ++ rest) (hend : c.transport.ending = e)
      (hdec : c.decodedBody = none) (hdel : Undelivered sink c)
  | headers (hs : c.state = .readingHeaders)
      (hun : c.unread ++ missing = h.block ++ rest) (hend : c.transport.ending = e)
      (hdec : c.decodedBody = none) (hdel : Undelivered sink c)

/-- The whole header block is in the buffer. -/
def HeadRead (h : Head) (c : HTTPClient) : Prop :=
  c.state = .readingHeaders ∧ h.block.length ≤ c.recvBuf.length

section Head

variable {sink : Sink} {h : Head} {rest missing : Bytes} {e : Ending} {c c' : HTTPClient}

/-- A client starts in the head. -/
theorem inHead_start (sink : Sink) {incoming : List Arrival}
    (hstream : pendingOf incoming ++ missing = h.bytes ++ rest) :
    InHead sink h rest missing (endingOf incoming) (start sink incoming) := by
  refine .firstline rfl rfl (by simp [start]) hstream rfl rfl ⟨rfl, ?_, rfl, rfl⟩
  intro hsink
  simp [start, hsink]

/-- The start of a run on which nothing is missing. -/
theorem inHead_start_whole (sink : Sink) {incoming : List Arrival}
    (hstream : pendingOf incoming = h.bytes ++ rest) :
    InHead sink h rest [] (endingOf incoming) (start sink incoming) :=
  inHead_start sink (by rw [hstream, List.append_nil])

/-- A client that reads within the head stays in it. -/
theorem Fetched.inHead (hf : Fetched c c')
    (hbuf : c'.state = .readingFirstline → c'.recvBuf.length < h.statusLine.text.length + 2)
    (hc : InHead sink h rest missing e c) : InHead sink h rest missing e c' := by
  have hun' := hf.unread
  obtain ⟨b, t, rfl, hp, hend', -⟩ := hf
  cases hc with
  | firstline hs hresp _ hun hend hdec hdel =>
      exact .firstline hs hresp (hbuf hs) (hun'.symm ▸ hun) (hend'.trans hend) hdec
        ⟨hdel.1, hdel.2, hdel.3, hdel.4⟩
  | headers hs hun hend hdec hdel =>
      exact .headers hs (hun'.symm ▸ hun) (hend'.trans hend) hdec
        ⟨hdel.1, hdel.2, hdel.3, hdel.4⟩

/-- A client before `HeadRead` still waits for bytes of the head. -/
theorem InHead.rest_lt (hc : InHead sink h rest missing e c) (hgoal : ¬ HeadRead h c) :
    rest.length < (c.pending ++ missing).length := by
  cases hc with
  | firstline hs _ hbuf hun _ _ _ =>
      have := congrArg List.length hun
      simp only [HTTPClient.unread, Head.bytes, Head.block, List.length_append, length_crlf]
        at this ⊢
      omega
  | headers hs hun _ _ _ =>
      have hlt : c.recvBuf.length < h.block.length := by
        by_contra hle
        exact hgoal ⟨hs, by omega⟩
      have := congrArg List.length hun
      simp only [HTTPClient.unread, List.length_append] at this ⊢
      omega

/-- The status line is awaited while its line end is not in the buffer. -/
theorem httpClientFirstline_waiting {m : Bytes}
    (hun : c.recvBuf ++ m = h.bytes ++ rest)
    (hbuf : c.recvBuf.length < h.statusLine.text.length + 2) :
    httpClientFirstline c = goto .readingFirstline c := by
  have hshort := h.statusLine.short
  rw [h.bytes_append] at hun
  rw [httpClientFirstline_of_short h.statusLine.noCrlf hun hbuf, if_neg (by omega)]

/-- The status line is accepted and removed once its line end is in the buffer. -/
theorem httpClientFirstline_complete {r : Bytes} (hresp : c.resp = {})
    (hbuf : c.recvBuf = h.statusLine.text ++ (crlf ++ r)) :
    httpClientFirstline c =
      goto .readingHeaders { c with resp := h.statusLine.resp, recvBuf := r } := by
  have hshort := h.statusLine.short
  have hlen : ¬ (h.statusLine.text = [] ∨ 1024 ≤ h.statusLine.text.length) := by
    rintro (hnil | hlong)
    · exact h.statusLine.text_ne_nil hnil
    · omega
  rw [httpClientFirstline_of_line h.statusLine.noCrlf hbuf (by omega), if_neg hlen, hresp,
    h.statusLine.accepted]
  rfl

/-- One step through the status line. -/
theorem InHead.step_firstline (hc : InHead sink h rest missing e c)
    (hs : c.state = .readingFirstline) : Advances (InHead sink h rest missing e) c := by
  have hwork : httpClientWork c = receive c 8095 c.state (goto .error) httpClientFirstline := by
    rw [httpClientWork, hs, httpClientWorktaskReadFirstline]
  cases hc with
  | headers hs' => rw [hs] at hs'; cases hs'
  | firstline _ hresp hbuf hun hend hdec hdel =>
      have hc := InHead.firstline hs hresp hbuf hun hend hdec hdel
      refine receive_advances (by omega) hwork rfl ?_ ?_
      · intro c₁ hf hbuf₁
        exact hf.inHead (fun _ => hbuf₁ ▸ hbuf) hc
      · intro c₁ hf
        have hun₁ := hun
        rw [← hf.unread, HTTPClient.unread, List.append_assoc] at hun₁
        by_cases hlt : c₁.recvBuf.length < h.statusLine.text.length + 2
        · refine ⟨_, _, httpClientFirstline_waiting hun₁ hlt, le_rfl, ?_⟩
          rw [HTTPClient.with_state (hf.state.trans hs)]
          exact hf.inHead (fun _ => hlt) hc
        · rw [Head.bytes_append, ← List.append_assoc h.statusLine.text] at hun₁
          obtain ⟨r, hr, hrest⟩ := List.exists_split_of_length_le hun₁
            (by rw [List.length_append, length_crlf]; omega)
          rw [List.append_assoc] at hr
          obtain ⟨b, t, rfl, -, hend', -⟩ := hf
          refine ⟨_, _, httpClientFirstline_complete hresp hr, ?_, ?_⟩
          · have := congrArg List.length hr
            simp only [HTTPClient.load, List.length_append] at this ⊢
            omega
          · refine .headers rfl ?_ (hend'.trans hend) hdec ⟨hdel.1, hdel.2, hdel.3, hdel.4⟩
            rw [← hrest, HTTPClient.unread, List.append_assoc]
            rfl

/-- The header worker waits while it does not see the end of the block. -/
theorem InHead.wait (hc : InHead sink h rest missing e c) (hs : c.state = .readingHeaders)
    (hneg : httpParserFindHeadersEnd c.recvBuf < 0) :
    Advances (InHead sink h rest missing e) c := by
  have hwork : httpClientWork c = receive c 1023 c.state
      (fun c =>
        let headersEnd := httpParserFindHeadersEnd c.recvBuf
        if 0 ≤ headersEnd then httpClientHeadersComplete c headersEnd.toNat
        else goto .error c) (goto c.state) := by
    rw [httpClientWork, hs]
    simp [httpClientWorktaskReadHeaders, hneg]
  have hin : ∀ c₁, Fetched c c₁ → InHead sink h rest missing e c₁ := fun c₁ hf =>
    hf.inHead (fun hs₁ => by rw [hf.state, hs] at hs₁; cases hs₁) hc
  refine receive_advances (by omega) hwork ?_ (fun c₁ hf _ => hin c₁ hf) ?_
  · simp [hneg]
  · intro c₁ hf
    refine ⟨_, _, rfl, le_rfl, ?_⟩
    rw [HTTPClient.with_state hf.state]
    exact hin c₁ hf

/-- The end of the block is not found before the block is complete. -/
theorem InHead.headersEnd_neg (hc : InHead sink h rest missing e c)
    (hs : c.state = .readingHeaders) (hgoal : ¬ HeadRead h c) :
    httpParserFindHeadersEnd c.recvBuf < 0 := by
  have hlt : c.recvBuf.length < h.block.length := by
    by_contra hle
    exact hgoal ⟨hs, by omega⟩
  cases hc with
  | firstline hs' => rw [hs] at hs'; cases hs'
  | headers _ hun =>
      have hocc := firstOcc_headersEnd h.nonempty rest
      rw [← h.block_append, ← hun, HTTPClient.unread, List.append_assoc] at hocc
      rw [h.length_block] at hlt
      rw [httpParserFindHeadersEnd, List.firstOcc_front hocc,
        if_neg (by simp only [List.length_append, length_crlf]; omega)]
      exact Int.negSucc_lt_zero 0

/-- **One step through the head of a response.** -/
theorem InHead.step (hc : InHead sink h rest missing e c) (hgoal : ¬ HeadRead h c) :
    Advances (InHead sink h rest missing e) c := by
  cases hc with
  | firstline hs hresp hbuf hun hend hdec hdel =>
      exact InHead.step_firstline (.firstline hs hresp hbuf hun hend hdec hdel) hs
  | headers hs hun hend hdec hdel =>
      have hc := InHead.headers hs hun hend hdec hdel
      exact hc.wait hs (hc.headersEnd_neg hs hgoal)

/-- A step through the head of a stream on which nothing is missing. -/
theorem InHead.progress (hc : InHead sink h rest [] e c) (hgoal : ¬ HeadRead h c) :
    ∃ c', httpClientReadStep c = .ok c' ∧ InHead sink h rest [] e c' ∧ c'.load < c.load ∧
      rest.length < c.pending.length := by
  have hlt := hc.rest_lt hgoal
  rw [List.append_nil] at hlt
  obtain ⟨c', hstep, ⟨hI, hload⟩ | hstarved⟩ := hc.step hgoal
  · exact ⟨c', hstep, hI, hload, hlt⟩
  · rw [hstarved.1, List.length_nil] at hlt
    omega

/-- What `HeadRead` says about the buffer: the block, and after it the bytes of `rest` that
have come with it. -/
theorem InHead.buffer (hc : InHead sink h rest missing e c) (hgoal : HeadRead h c) :
    ∃ r, c.recvBuf = lineBlock h.lines ++ (crlf ++ r) ∧ r ++ (c.pending ++ missing) = rest := by
  cases hc with
  | firstline hs => rw [hgoal.1] at hs; cases hs
  | headers _ hun =>
      rw [HTTPClient.unread, List.append_assoc] at hun
      obtain ⟨r, hr, hrest⟩ := List.exists_split_of_length_le hun hgoal.2
      exact ⟨r, by rw [hr, h.block_append], hrest⟩

/-- **The head is read**, however it is cut, when only bytes of `rest` are missing. -/
theorem InHead.exists_headRead (hle : missing.length ≤ rest.length)
    (hc : InHead sink h rest missing e c) :
    ∃ c', Reaches httpClientReadStep c c' ∧ InHead sink h rest missing e c' ∧
      HeadRead h c' := by
  refine exists_goal (fun x hx hG => hx.step hG) ?_ hc
  intro x hx hG hnil
  have := hx.rest_lt hG
  rw [hnil, List.nil_append] at this
  omega

/-- A connection that ends inside the head leads to the error state. -/
theorem InHead.exists_error (hlt : rest.length < missing.length) (he : e ≠ .idle)
    (hc : InHead sink h rest missing e c) :
    ∃ c', Reaches httpClientReadStep c c' ∧ c'.state = .error := by
  obtain ⟨c', hreach, hI, hG | ⟨d, hd, -, hstarved⟩⟩ :=
    exists_goal_or_starved (G := HeadRead h) (fun x hx hG => hx.step hG) hc
  · obtain ⟨r, -, hrest⟩ := hI.buffer hG
    have := congrArg List.length hrest
    simp only [List.length_append] at this
    omega
  · have hend : c'.transport.ending = e := by cases hI <;> assumption
    rw [hend] at hstarved
    rcases hstarved with ⟨hidle, -⟩ | ⟨-, herr⟩
    · exact absurd hidle he
    · exact ⟨d, hreach.tail hd, herr⟩

/-- The step after `HeadRead`: the headers decide the framing. -/
theorem InHead.framed_step (hc : InHead sink h rest missing e c) (hgoal : HeadRead h c)
    (hend : headersEnd h.lines < 2 ^ 31) :
    ∃ r, c.recvBuf = h.block ++ r ∧ r ++ (c.pending ++ missing) = rest ∧
      (framed c h.headers r).load < c.load ∧
      httpClientReadStep c =
        .ok { framed c h.headers r with state := framedState h.headers r.length } := by
  obtain ⟨r, hbuf, hrest⟩ := hc.buffer hgoal
  have hwork : httpClientWork c = httpClientWorktaskReadHeaders c := by
    rw [httpClientWork, hgoal.1]
  rw [httpClientWorktaskReadHeaders_block hbuf h.nonempty hend h.parsed] at hwork
  rw [← h.block_append] at hbuf
  refine ⟨r, hbuf, hrest, ?_, readStep_of_work hwork⟩
  have hblock := h.length_block
  have := congrArg List.length hbuf
  simp only [HTTPClient.load, framed, List.length_append] at this ⊢
  omega

/-- **The rule for runs that go on after the head.** If the framing step leads into the body
invariant `B`, and every step of `B` before the goal makes progress, the run reaches the
goal. A step of `B` may read only while more than `bound` bytes are to come, so every
client of the run has more than `bound` bytes to come, has the bytes of the goal to come,
or comes after the goal. -/
theorem exists_goal_after_head {B G : HTTPClient → Prop} {bound : ℕ} {incoming : List Arrival}
    (hstream : pendingOf incoming = h.bytes ++ rest) (hbound : bound ≤ rest.length)
    (hframed : ∀ x, InHead sink h rest [] (endingOf incoming) x → HeadRead h x →
      ∃ y, httpClientReadStep x = .ok y ∧ y.pending = x.pending ∧ y.load < x.load ∧ B y)
    (hstep : ∀ x, B x → ¬ G x → ∃ y, httpClientReadStep x = .ok y ∧ B y ∧ y.load < x.load ∧
      (y.pending = x.pending ∨ bound < x.pending.length)) :
    ∃ c, Reaches httpClientReadStep (start sink incoming) c ∧ B c ∧ G c ∧
      ∀ d, Reaches httpClientReadStep (start sink incoming) d →
        (d.pending = c.pending ∨ bound < d.pending.length) ∨ Reaches httpClientReadStep c d := by
  have hstep' : ∀ x, InHead sink h rest [] (endingOf incoming) x ∨ B x → ¬ (B x ∧ G x) →
      ∃ y, httpClientReadStep x = .ok y ∧ (InHead sink h rest [] (endingOf incoming) y ∨ B y) ∧
        y.load < x.load ∧ ∀ z : HTTPClient, (y.pending = z.pending ∨ bound < y.pending.length) →
          x.pending = z.pending ∨ bound < x.pending.length := by
    intro x hx hG
    by_cases hB : B x
    · obtain ⟨y, hy, hBy, hload, hpend | hpend⟩ := hstep x hB fun hGx => hG ⟨hB, hGx⟩
      · exact ⟨y, hy, Or.inr hBy, hload, fun z hz => by rwa [hpend] at hz⟩
      · exact ⟨y, hy, Or.inr hBy, hload, fun z _ => Or.inr hpend⟩
    · have hI := hx.resolve_right hB
      by_cases hread : HeadRead h x
      · obtain ⟨y, hy, hpend, hload, hBy⟩ := hframed x hI hread
        exact ⟨y, hy, Or.inr hBy, hload, fun z hz => by rwa [hpend] at hz⟩
      · obtain ⟨y, hy, hIy, hload, hlt⟩ := hI.progress hread
        exact ⟨y, hy, Or.inl hIy, hload, fun z _ => Or.inr (by omega)⟩
  obtain ⟨c, hc, -, ⟨hB, hG⟩, -, hall⟩ := exists_goal_of_measure HTTPClient.load
    (fun x _ _ => Or.inl rfl) hstep' (Or.inl (inHead_start_whole sink hstream))
  exact ⟨c, hc, hB, hG, hall⟩

/-- **A header block whose end has an index that is negative as an `int` is never found**:
the client keeps on waiting for it. -/
theorem InHead.stuck (hneg : toInt (headersEnd h.lines) < 0)
    (hc : InHead sink h rest missing e c) (hd : Reaches httpClientReadStep c c') :
    InHead sink h rest missing e c' ∨ c'.state = .error := by
  refine keeps_of_advances ?_ hc hd
  intro x hx
  by_cases hG : HeadRead h x
  · obtain ⟨r, hbuf, -⟩ := hx.buffer hG
    refine hx.wait hG.1 ?_
    rw [httpParserFindHeadersEnd, hbuf, firstOcc_headersEnd h.nonempty]
    exact hneg
  · exact hx.step hG

end Head

/-! ### Whole runs -/

/-- The delivery is the last step and reads nothing. -/
theorem final_of_returning {c d : HTTPClient} (hs : c.state = .returning)
    (hd : Reaches httpClientReadStep c d) :
    d = c ∨ d.transport = c.transport ∧ (d.state = .error ∨ d.state = .disposing) := by
  have hfirst : ∀ c', httpClientReadStep c = .ok c' →
      c'.transport = c.transport ∧ (c'.state = .error ∨ c'.state = .disposing) := by
    intro c' hstep
    simp only [httpClientReadStep, httpClientWork, hs, httpClientWorktaskReturning] at hstep
    split at hstep
    · split at hstep <;> obtain rfl := Except.ok.inj hstep <;> simp
    · split at hstep <;> obtain rfl := Except.ok.inj hstep <;> simp
  rcases hd.cases_first with rfl | ⟨c', hstep, hc'd⟩
  · exact Or.inl rfl
  · rw [hc'd.eq_of_fixed (readStep_of_final (hfirst c' hstep).2)]
    exact Or.inr (hfirst c' hstep)

/-- The delivery leaves the transport alone. -/
theorem transport_of_returning {c d : HTTPClient} (hs : c.state = .returning)
    (hd : Reaches httpClientReadStep c d) : d.transport = c.transport := by
  rcases final_of_returning hs hd with rfl | ⟨ht, -⟩
  · rfl
  · exact ht

/-- The run on these arrivals passes through `HTTP_CLIENT_RETURNING` and delivers the
body. -/
def Delivers (sink : Sink) (incoming : List Arrival) (body : Bytes) : Prop :=
  ∃ c c', Reaches httpClientReadStep (start sink incoming) c ∧ c.state = .returning ∧
    httpClientReadStep c = .ok c' ∧ Delivered sink c' body

/-- When the headers lead to `HTTP_CLIENT_RETURNING` at once, the run delivers the bytes
that came with the header block. -/
theorem InHead.framed_delivers {sink : Sink} {h : Head} {rest missing r : Bytes} {e : Ending}
    {c : HTTPClient} {incoming : List Arrival} (hc : InHead sink h rest missing e c)
    (hreach : Reaches httpClientReadStep (start sink incoming) c) (hgoal : HeadRead h c)
    (hstep : httpClientReadStep c = .ok { framed c h.headers r with state := .returning }) :
    Delivers sink incoming r := by
  cases hc with
  | firstline hs => rw [hgoal.1] at hs; cases hs
  | headers _ _ _ hdec hdel =>
      have hdel' : Undelivered sink { framed c h.headers r with state := .returning } :=
        ⟨hdel.1, hdel.2, hdel.3, hdel.4⟩
      obtain ⟨d, hd, hdelivered, -⟩ := hdel'.deliver rfl
      simp only [deliverySource, framed, hdec] at hdelivered
      exact ⟨_, d, hreach.tail hstep, rfl, hd, hdelivered⟩

/-- The run on these arrivals ends in `HTTP_CLIENT_ERROR`. -/
def Fails (sink : Sink) (incoming : List Arrival) : Prop :=
  ∃ c, Reaches httpClientReadStep (start sink incoming) c ∧ c.state = .error

/-- A read ends where `k` bytes of the stream are still to come. -/
def CutAt (sink : Sink) (incoming : List Arrival) (k : ℕ) : Prop :=
  ∃ c, Reaches httpClientReadStep (start sink incoming) c ∧ c.pending.length = k

/-- No read ends where more than `lo` and at most `hi` bytes are still to come. -/
def NoCutIn (sink : Sink) (incoming : List Arrival) (lo hi : ℕ) : Prop :=
  ∀ k, lo < k → k ≤ hi → ¬ CutAt sink incoming k

instance (sink : Sink) (c : HTTPClient) (body : Bytes) : Decidable (Delivered sink c body) :=
  match sink with
  | .blocking => inferInstanceAs (Decidable (_ ∧ _ = _))
  | .callback => inferInstanceAs (Decidable (_ ∧ _ = _))

/-- The run on these arrivals is ready to deliver the body after `n` steps. -/
def deliversAfter (n : ℕ) (sink : Sink) (incoming : List Arrival) (body : Bytes) : Bool :=
  match run httpClientReadStep n (start sink incoming) with
  | .error _ => false
  | .ok c =>
      match httpClientReadStep c with
      | .error _ => false
      | .ok c' => c.state = .returning ∧ Delivered sink c' body

/-- What a run of so many steps delivers is delivered. -/
theorem delivers_of_deliversAfter {n : ℕ} {sink : Sink} {incoming : List Arrival}
    {body : Bytes} (h : deliversAfter n sink incoming body = true) :
    Delivers sink incoming body := by
  rw [deliversAfter] at h
  split at h
  · cases h
  · rename_i c hrun
    split at h
    · cases h
    · rename_i c' hstep
      simp only [Bool.decide_and, Bool.and_eq_true, decide_eq_true_eq] at h
      exact ⟨c, c', reaches_of_run hrun, h.1, hstep, h.2⟩

/-- One body at most has been delivered. -/
theorem Delivered.body_unique {sink : Sink} {c : HTTPClient} {x y : Bytes}
    (hx : Delivered sink c x) (hy : Delivered sink c y) : x = y := by
  cases sink with
  | blocking =>
      have heq := hx.2.symm.trans hy.2
      simp only [Option.some.injEq, HTTPData.mk.injEq] at heq
      exact List.append_cancel_right heq.1
  | callback =>
      have heq := hx.2.symm.trans hy.2
      simp only [List.cons.injEq, and_true] at heq
      exact List.append_cancel_right heq

/-- A run that has finished in one state delivers nothing else. -/
theorem Delivers.of_final {sink : Sink} {incoming : List Arrival} {c : HTTPClient}
    {body : Bytes} (h : Delivers sink incoming body)
    (hc : Reaches httpClientReadStep (start sink incoming) c)
    (hfinal : c.state = .error ∨ c.state = .disposing) : Delivered sink c body := by
  obtain ⟨d, d', hd, -, hstep, hdel⟩ := h
  have hd' := readStep_of_final (Or.inr hdel.1)
  rw [hc.fixed_unique (readStep_of_final hfinal) hd' (hd.tail hstep)]
  exact hdel

/-- A run that delivers does not stop before. -/
theorem Delivers.exists_step {sink : Sink} {incoming : List Arrival} {c : HTTPClient}
    {body : Bytes} (h : Delivers sink incoming body)
    (hc : Reaches httpClientReadStep (start sink incoming) c) (hs : c.state ≠ .disposing) :
    ∃ c', httpClientReadStep c = .ok c' := by
  obtain ⟨d, d', hd, -, hstep, hdel⟩ := h
  have hfix := readStep_of_final (Or.inr hdel.1)
  rcases ((hd.tail hstep).to_fixed hfix hc).cases_first with rfl | ⟨c', hc', -⟩
  · exact absurd hdel.1 hs
  · exact ⟨c', hc'⟩

/-- A run delivers one body. -/
theorem Delivers.unique {sink : Sink} {incoming : List Arrival} {x y : Bytes}
    (hx : Delivers sink incoming x) (hy : Delivers sink incoming y) : x = y := by
  obtain ⟨d, d', hd, -, hstep, hdel⟩ := hx
  exact hdel.body_unique (hy.of_final (hd.tail hstep) (Or.inr hdel.1))

/-- A header block whose end is never found hides the body. -/
theorem not_delivers_of_stuck {sink : Sink} {h : Head} {rest body : Bytes}
    {incoming : List Arrival} (hstream : pendingOf incoming = h.bytes ++ rest)
    (hneg : toInt (headersEnd h.lines) < 0) : ¬ Delivers sink incoming body := by
  rintro ⟨c, c', hc, hcs, -⟩
  have hstart := inHead_start_whole sink hstream
  rcases hstart.stuck hneg hc with (hs | hs) | herr
  · rw [hcs] at hs; cases hs
  · rw [hcs] at hs; cases hs
  · rw [hcs] at herr; cases herr

end MaestroCore
