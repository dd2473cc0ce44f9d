import MaestroCore.ChunkedEnd
import MaestroCore.Lib.StreamBuffer

/-!
# Byte Conservation

Five workers read into `recv_buf`, and each shifts the buffer with its own `memmove` and its
own arithmetic on the size. Here every worker call is shown to be a sequence of the three
operations of a stream buffer: append what was read, drop bytes that are in the buffer, copy
bytes that are in the buffer to `decoded_body`. No byte is lost or repeated, whatever the
server sends.

## Main results

* `removes_line` and `removes_block`: a line or a block that a scanner has found lies inside
  the buffer, so the subtractions from `recv_buf->size` never go below zero.
* `moves_work`: every worker call that does not fail is a sequence of buffer operations.
* `bytes_conserved`: on every run the bytes received are a consumed part, which only grows,
  followed by the buffer, and the decoded body consists of pieces of the consumed part.
-/

open CLang Run StreamBuffer

namespace MaestroCore

/-- The ledger describes the client: its buffer, what is still to come, and its decoded
body. -/
structure Tracks (l : Ledger UInt8) (c : HTTPClient) : Prop where
  buffer : l.buffer = c.recvBuf
  pending : l.pending = c.pending
  output : l.output = c.decodedBody.getD []

/-- The second client comes from the first by buffer operations. -/
def Moves (c d : HTTPClient) : Prop :=
  ∀ l, Tracks l c → ∃ l', StreamBuffer.Run l l' ∧ Tracks l' d

/-- A client that does nothing moves no byte. -/
theorem Moves.refl (c : HTTPClient) : Moves c c := fun l hl => ⟨l, .refl l, hl⟩

/-- Moves can be made one after the other. -/
theorem Moves.trans {c d e : HTTPClient} (h : Moves c d) (h' : Moves d e) : Moves c e := by
  intro l hl
  obtain ⟨l₁, hrun₁, hl₁⟩ := h l hl
  obtain ⟨l₂, hrun₂, hl₂⟩ := h' l₁ hl₁
  exact ⟨l₂, hrun₁.trans hrun₂, hl₂⟩

/-- Fields that do not hold stream bytes may change. -/
theorem Moves.same {c d : HTTPClient} (hbuf : d.recvBuf = c.recvBuf)
    (hpend : d.pending = c.pending) (hdec : d.decodedBody = c.decodedBody) : Moves c d :=
  fun l hl => ⟨l, .refl l, hl.1.trans hbuf.symm, hl.2.trans hpend.symm, by rw [hdec, hl.3]⟩

/-- A read moves bytes from the transport to the buffer. -/
theorem Moves.read {c d : HTTPClient} (h : Fetched c d) : Moves c d := by
  obtain ⟨b, t, rfl, hpend, -, -⟩ := h
  rintro ⟨cs, buf, p, out⟩ ⟨rfl, hp, rfl⟩
  have hp' : p = b ++ t.pending := hp.trans hpend.symm
  subst hp'
  exact ⟨_, .single (.read b t.pending), rfl, rfl, rfl⟩

/-- Bytes that are in the buffer are removed from its front. -/
theorem Moves.drop {c d : HTTPClient} {n : ℕ} (hn : n ≤ c.recvBuf.length)
    (hbuf : d.recvBuf = c.recvBuf.drop n) (hpend : d.pending = c.pending)
    (hdec : d.decodedBody = c.decodedBody) : Moves c d := by
  rintro ⟨cs, buf, p, out⟩ ⟨rfl, rfl, rfl⟩
  exact ⟨_, .single (.drop n hn), hbuf.symm, hpend.symm, by rw [hdec]⟩

/-- A chunk that is in the buffer is copied to the decoded body. -/
theorem Moves.copy {c d : HTTPClient} {n : ℕ} (hn : n ≤ c.recvBuf.length)
    (hbuf : d.recvBuf = c.recvBuf.drop n) (hpend : d.pending = c.pending)
    (hdec : d.decodedBody = some (c.decodedBody.getD [] ++ c.recvBuf.take n)) : Moves c d := by
  rintro ⟨cs, buf, p, out⟩ ⟨rfl, rfl, rfl⟩
  exact ⟨_, .single (.copy n hn), hbuf.symm, hpend.symm, by rw [hdec]; rfl⟩

/-! ### What the scanners find lies inside the buffer -/

/-- A line that has been found lies inside the buffer, with its line end. -/
theorem removes_line {buf : Bytes} (h : 0 ≤ httpParserFindLineEnd buf) :
    (httpParserFindLineEnd buf).toNat + 2 ≤ buf.length := by
  rw [httpParserFindLineEnd] at h ⊢
  split at h
  · rename_i i hocc
    have hle := List.firstOcc_add_length_le hocc
    have := toInt_le i
    rw [length_crlf] at hle
    omega
  · omega

/-- A block that has been found lies inside the buffer, with its empty line. -/
theorem removes_block {buf : Bytes} (h : 0 ≤ httpParserFindHeadersEnd buf) :
    (httpParserFindHeadersEnd buf).toNat + 4 ≤ buf.length := by
  rw [httpParserFindHeadersEnd] at h ⊢
  split at h
  · rename_i i hocc
    have hle := List.firstOcc_add_length_le hocc
    have := toInt_le i
    rw [List.length_append, length_crlf] at hle
    omega
  · omega

/-! ### The workers -/

/-- The worker fails or moves bytes only. -/
def Conserving (c : HTTPClient) (s : HTTPClientState) (d : HTTPClient) : Prop :=
  s = .error ∨ Moves c d

/-- The rule for a worker that first moves bytes itself. -/
theorem conserving_after {c d : HTTPClient} {w : Worked} (hw : Outcome (Conserving d) w)
    (h : Moves c d) : Outcome (Conserving c) w :=
  fun s e heq => (hw s e heq).imp_right h.trans

/-- The rule for a read. -/
theorem conserving_receive {c : HTTPClient} {len : ℕ} (hlen : 0 < len)
    {again : HTTPClientState} {onClosed onBytes : HTTPClient → Worked}
    (hclosed : Outcome (Conserving c) (onClosed c))
    (hbytes : ∀ d, Outcome (Conserving d) (onBytes d)) :
    Outcome (Conserving c) (receive c len again onClosed onBytes) := by
  have hread := receive_cases c hlen again onClosed onBytes
  generalize receive c len again onClosed onBytes = w at hread
  cases hread with
  | @bytes c₁ hf => exact conserving_after (hbytes c₁) (.read hf)
  | @retry c₁ hf _ => exact .goto (Or.inr (.read hf))
  | idle _ _ => exact .goto (Or.inr (.refl c))
  | closed _ _ => exact hclosed
  | broken _ _ => exact .goto (Or.inl rfl)

/-- A change of the state moves no byte. -/
theorem conserving_goto {s : HTTPClientState} (c : HTTPClient) :
    Outcome (Conserving c) (goto s c) := .goto (Or.inr (.refl c))

/-- Reading the status line loses no byte. -/
theorem conserving_firstline (c : HTTPClient) :
    Outcome (Conserving c) (httpClientFirstline c) := by
  rw [httpClientFirstline]
  split
  · exact conserving_goto c
  · simp only
    split
    · split <;> exact conserving_goto c
    · rename_i hend
      split
      · exact conserving_goto c
      · refine .bind ?_
        intro r _
        split
        · exact .goto (Or.inl rfl)
        · exact .goto (Or.inr (.drop (removes_line (not_lt.mp hend)) rfl rfl rfl))

/-- The end of the header block loses no byte. -/
theorem conserving_headersComplete (c : HTTPClient)
    (hend : 0 ≤ httpParserFindHeadersEnd c.recvBuf) :
    Outcome (Conserving c)
      (httpClientHeadersComplete c (httpParserFindHeadersEnd c.recvBuf).toNat) := by
  have hdrop := removes_block hend
  rw [httpClientHeadersComplete]
  refine .bind ?_
  intro parsed _
  split
  · exact .goto (Or.inl rfl)
  · simp only
    split
    · exact .goto (Or.inr (.drop hdrop rfl rfl rfl))
    · split
      · exact .goto (Or.inr (.drop hdrop rfl rfl rfl))
      · refine .bind ?_
        intro cl _
        split
        · split <;> exact .goto (Or.inr (.drop hdrop rfl rfl rfl))
        · exact .goto (Or.inr (.drop hdrop rfl rfl rfl))

/-- Reading the headers loses no byte. -/
theorem conserving_readHeaders (c : HTTPClient) :
    Outcome (Conserving c) (httpClientWorktaskReadHeaders c) := by
  rw [httpClientWorktaskReadHeaders]
  simp only
  split
  · rename_i h
    exact conserving_headersComplete c h.2
  · refine conserving_receive (by omega) ?_ conserving_goto
    split
    · rename_i h
      exact conserving_headersComplete c h
    · exact conserving_goto c

/-- A buffer with a line end has two bytes. -/
theorem two_le_of_crlf {buf : Bytes} (h : crlf <+: buf) : 2 ≤ buf.length := by
  have := h.length_le
  rwa [length_crlf] at this

/-- What comes after the last size line is read without a loss. -/
theorem conserving_trailers (c : HTTPClient) :
    Outcome (Conserving c) (httpClientTrailers c) := by
  rw [httpClientTrailers]
  split
  · rename_i h
    exact .goto (Or.inr (.drop (two_le_of_crlf h) rfl rfl rfl))
  · simp only
    split
    · rename_i h
      exact .goto (Or.inr (.drop (removes_block h) rfl rfl rfl))
    · exact conserving_receive (by omega) (conserving_goto c) conserving_goto

/-- A size line is read without a loss. -/
theorem conserving_decipherChonkiness (c : HTTPClient) :
    Outcome (Conserving c) (httpClientWorktaskDecipherChonkiness c) := by
  rw [httpClientWorktaskDecipherChonkiness]
  simp only
  split
  · exact conserving_receive (by omega) (conserving_goto c) conserving_goto
  · rename_i hend
    have hdrop := removes_line (not_lt.mp hend)
    refine .bind ?_
    intro size _
    split
    · exact .goto (Or.inl rfl)
    · split
      · exact conserving_after (conserving_trailers _) (.drop hdrop rfl rfl rfl)
      · exact .goto (Or.inr (.drop hdrop rfl rfl rfl))

/-- The line end of a chunk is read without a loss. -/
theorem conserving_chunkEnd (c : HTTPClient) :
    Outcome (Conserving c) (httpClientChunkEnd c) := by
  rw [httpClientChunkEnd]
  split
  · exact conserving_receive (by omega) (conserving_goto c) conserving_goto
  · split
    · rename_i h
      exact .goto (Or.inr (.drop (two_le_of_crlf h) rfl rfl rfl))
    · exact conserving_goto c

/-- A chunk is read without a loss. -/
theorem conserving_readBodyChunked (c : HTTPClient) :
    Outcome (Conserving c) (httpClientWorktaskReadBodyChunked c) := by
  rw [httpClientWorktaskReadBodyChunked]
  split
  · exact conserving_receive (by omega) (conserving_goto c) conserving_goto
  · split
    · exact .error
    · rename_i hlen
      exact conserving_after (conserving_chunkEnd _) (.copy (not_lt.mp hlen) rfl rfl rfl)

/-- A body of a declared length is read without a loss. -/
theorem conserving_readBody (c : HTTPClient) :
    Outcome (Conserving c) (httpClientWorktaskReadBody c) := by
  refine conserving_receive (by omega) ?_ (fun d => ?_)
  · split
    · exact conserving_goto c
    · exact .goto (Or.inr (.same rfl rfl rfl))
  · split
    · exact conserving_goto d
    · exact .goto (Or.inr (.same rfl rfl rfl))

/-- The delivery loses no byte. -/
theorem conserving_returning (c : HTTPClient) :
    Outcome (Conserving c) (httpClientWorktaskReturning c) := by
  rw [httpClientWorktaskReturning]
  split
  · split
    · exact conserving_goto c
    · exact .goto (Or.inr (.same rfl rfl rfl))
  · split
    · exact .goto (Or.inr (.same rfl rfl rfl))
    · exact conserving_goto c

/-- **Every worker call** that does not fail is a sequence of buffer operations. -/
theorem moves_work (c : HTTPClient) : Outcome (Conserving c) (httpClientWork c) := by
  rw [httpClientWork]
  split
  · exact conserving_receive (by omega) (conserving_goto c) conserving_firstline
  · exact conserving_readHeaders c
  · exact conserving_decipherChonkiness c
  · exact conserving_readBodyChunked c
  · exact conserving_readBody c
  · exact conserving_returning c
  · exact conserving_goto c

/-! ### Whole runs -/

/-- A step that does not fail moves bytes only. -/
theorem moves_readStep {c d : HTTPClient} (h : httpClientReadStep c = .ok d)
    (hs : d.state ≠ .error) : Moves c d := by
  obtain ⟨s, d', hwork, rfl⟩ := work_of_readStep h
  exact ((moves_work c s d' hwork).resolve_left hs).trans (.same rfl rfl rfl)

/-- So does a run that does not fail. -/
theorem moves_of_reaches {c d : HTTPClient} (h : Reaches httpClientReadStep c d)
    (hs : d.state ≠ .error) : Moves c d := by
  induction h with
  | refl => exact .refl c
  | @tail x y _ hxy ih =>
      have hx : x.state ≠ .error := by
        intro herr
        rw [readStep_of_final (Or.inl herr), Except.ok.injEq] at hxy
        exact hs (hxy ▸ herr)
      exact (ih hx).trans (moves_readStep hxy hs)

/-- The bytes received so far: the stream without what is still to come. -/
def received (incoming : List Arrival) (c : HTTPClient) : Bytes :=
  (pendingOf incoming).take ((pendingOf incoming).length - c.pending.length)

/-- The bytes the client is finished with: the stream without what is in its buffer or
still to come. -/
def consumed (incoming : List Arrival) (c : HTTPClient) : Bytes :=
  (pendingOf incoming).take ((pendingOf incoming).length - c.unread.length)

/-- The ledger of a client on a stream accounts for its received and consumed bytes. -/
theorem consumed_of_tracks {incoming : List Arrival} {l : Ledger UInt8} {c : HTTPClient}
    (hl : Tracks l c) (hstream : l.stream = pendingOf incoming) :
    consumed incoming c = l.consumed ∧ received incoming c = l.consumed ++ c.recvBuf := by
  rw [Ledger.stream, hl.buffer, hl.pending] at hstream
  rw [consumed, received, HTTPClient.unread, ← hstream]
  constructor
  · exact List.take_left' (by simp only [List.length_append]; omega)
  · rw [← List.append_assoc]
    exact List.take_left' (by simp only [List.length_append]; omega)

/-- **Byte conservation.** Whatever the server sends and however it is cut, in every state
of the run before a failure: the bytes received are the consumed ones followed by the
buffer, they and what is still to come are the stream, the decoded body is made of pieces
of the consumed bytes in order, and later states have consumed the same bytes and perhaps
more. -/
theorem bytes_conserved (sink : Sink) (incoming : List Arrival) {c : HTTPClient}
    (hc : Reaches httpClientReadStep (start sink incoming) c) (hs : c.state ≠ .error) :
    received incoming c ++ c.pending = pendingOf incoming ∧
      consumed incoming c ++ c.recvBuf = received incoming c ∧
      c.recvBuf.length ≤ (received incoming c).length ∧
      PiecesOf (consumed incoming c) (c.decodedBody.getD []) ∧
      ∀ d, Reaches httpClientReadStep c d → d.state ≠ .error →
        consumed incoming c <+: consumed incoming d := by
  have hinit : Tracks (Ledger.initial (pendingOf incoming)) (start sink incoming) :=
    ⟨rfl, rfl, rfl⟩
  obtain ⟨l, hrun, hl⟩ := moves_of_reaches hc hs _ hinit
  have hstream : l.stream = pendingOf incoming := hrun.stream_eq
  obtain ⟨hcons, hrec⟩ := consumed_of_tracks hl hstream
  rw [hcons, hrec]
  refine ⟨?_, rfl, ?_, ?_, ?_⟩
  · rw [← hstream, Ledger.stream, hl.buffer, hl.pending, List.append_assoc]
  · rw [List.length_append]
    omega
  · rw [← hl.output]
    exact hrun.piecesOf .nil
  · intro d hd hds
    obtain ⟨l', hrun', hl'⟩ := moves_of_reaches hd hds l hl
    rw [(consumed_of_tracks hl' (hrun'.stream_eq.trans hstream)).1]
    exact hrun'.consumed_grows

/-- In the middle of a chunked response that is cut inside its chunk, the decoded body is
made of pieces of the bytes that have left the buffer. -/
theorem bytes_conserved_hello :
    ∃ c, Reaches httpClientReadStep (start .blocking helloChunked) c ∧
      c.state = .readingBodyChunked ∧ c.decodedBody = some (ascii "hello") ∧
      consumed helloChunked c ++ c.recvBuf = received helloChunked c ∧
      PiecesOf (consumed helloChunked c) (ascii "hello") := by
  obtain ⟨c, hreach, hs, hdec⟩ : ∃ c, Reaches httpClientReadStep (start .blocking helloChunked) c ∧
      c.state = .readingBodyChunked ∧ c.decodedBody = some (ascii "hello") :=
    ⟨_, reaches_of_run (n := 7) rfl, by decide, by decide⟩
  obtain ⟨-, hbuf, -, hpieces, -⟩ :=
    bytes_conserved .blocking helloChunked hreach (by simp [hs])
  rw [hdec] at hpieces
  exact ⟨c, hreach, hs, hdec, hbuf, hpieces⟩

end MaestroCore
