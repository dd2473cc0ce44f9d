import MaestroCore.ChunkSize
import MaestroCore.Conservation

/-!
# Where the Size Lines of a Stream Stand

The chunk-size worker copies a size token into an array of 48 bytes, and what it copies
depends on all that the earlier workers have let into `recv_buf`. Here the buffers it can
see are traced back to the bytes that the server sends. `SizeLineAt` walks through a stream
from size line to size line, without a buffer and without reads: past the status line and
the header block, over each chunk by the size that its line denotes, and past a line of
value zero, after which the client may come back to the same worker.

## Main results

* `sizeLineAt_of_reaches`: whatever the segmentation, the worker runs only at these places
  of the stream.
* `SizeLineAt.cutBefore`: below `2 ^ 31` bytes, some segmentation brings the worker to each
  of them with an empty buffer.
* `size_token_fits_iff`: the copies of all segmentations stay inside the array when each of
  these places has a delimiter or a line end among its first 48 bytes, and, below `2 ^ 31`
  bytes, only then.
-/

open CLang Run

namespace MaestroCore

/-! ### Size lines of a stream -/

/-- The client takes the first line of the stream for a status line; `rest` follows it. -/
def StatusLineThen (stream rest : Bytes) : Prop :=
  0 < httpParserFindLineEnd stream ∧ httpParserFindLineEnd stream < 1024 ∧
    (∃ resp, httpParserResponseFirstline
      (stream.take (httpParserFindLineEnd stream).toNat) {} = .ok (.success, resp)) ∧
    rest = stream.drop ((httpParserFindLineEnd stream).toNat + 2)

/-- A header block that announces chunks is at the front; `body` follows it. -/
def ChunkedHeadersThen (rest body : Bytes) : Prop :=
  0 ≤ httpParserFindHeadersEnd rest ∧
    (∃ headers, httpParserHeaders (rest.take ((httpParserFindHeadersEnd rest).toNat + 4)) =
      .ok (.ok headers) ∧ transferEncodingChunked headers = true) ∧
    body = rest.drop ((httpParserFindHeadersEnd rest).toNat + 4)

/-- A size line that denotes `size` is at the front; `after` follows it. -/
def SizeLineThen (rest : Bytes) (size : ℤ) (after : Bytes) : Prop :=
  0 ≤ httpParserFindLineEnd rest ∧
    chunkSize (rest.take (httpParserFindLineEnd rest).toNat) = .ok (some size) ∧
    after = rest.drop ((httpParserFindLineEnd rest).toNat + 2)

/-- The places of a stream where a client can expect a size line, each given by what follows
there. After a line of value zero the trailer is expected, but a client whose buffer holds
only part of it takes what follows for a size line again. -/
inductive SizeLineAt (stream : Bytes) : Bytes → Prop
  | head {rest body : Bytes} (hstatus : StatusLineThen stream rest)
      (hheaders : ChunkedHeadersThen rest body) : SizeLineAt stream body
  | chunk {rest data next : Bytes} {size : ℤ} (h : SizeLineAt stream rest)
      (hsize : SizeLineThen rest size (data ++ (crlf ++ next))) (hne : size ≠ 0)
      (hlen : data.length = toSize (toInt size)) : SizeLineAt stream next
  | last {rest after : Bytes} (h : SizeLineAt stream rest) (hsize : SizeLineThen rest 0 after) :
      SizeLineAt stream after

/-- A line end or a delimiter of the size token stands among the first 48 bytes, or there is
no line end. -/
def TokenEndsAt (rest : Bytes) : Prop :=
  httpParserFindLineEnd rest < lineSize ∨ ∃ x ∈ rest.take lineSize, isSizeDelimiter x = true

/-! ### The workers stay at these places -/

/-- A line end in the buffer is the one of the whole stream. -/
theorem findLineEnd_append {buf : Bytes} (h : 0 ≤ httpParserFindLineEnd buf) (m : Bytes) :
    httpParserFindLineEnd (buf ++ m) = httpParserFindLineEnd buf := by
  rw [httpParserFindLineEnd] at h
  split at h
  · rename_i i hocc
    rw [httpParserFindLineEnd, httpParserFindLineEnd, List.firstOcc_append hocc m, hocc]
  · omega

/-- The end of a header block in the buffer is the one of the whole stream. -/
theorem findHeadersEnd_append {buf : Bytes} (h : 0 ≤ httpParserFindHeadersEnd buf) (m : Bytes) :
    httpParserFindHeadersEnd (buf ++ m) = httpParserFindHeadersEnd buf := by
  rw [httpParserFindHeadersEnd] at h
  split at h
  · rename_i i hocc
    rw [httpParserFindHeadersEnd, httpParserFindHeadersEnd, List.firstOcc_append hocc m, hocc]
  · omega

/-- Where a client that reads the stream may stand when it is in the given state. -/
def StandsAt (stream : Bytes) : HTTPClientState → HTTPClient → Prop
  | .readingFirstline, c => c.unread = stream ∧ c.resp = {}
  | .readingHeaders, c => StatusLineThen stream c.unread
  | .decipherChonkiness, c => SizeLineAt stream c.unread
  | .readingBodyChunked, c => ∃ rest data size, SizeLineAt stream rest ∧ size ≠ 0 ∧
      SizeLineThen rest size (data ++ c.unread) ∧
      data.length + c.chunkRemaining = toSize (toInt size)
  | _, _ => True

/-- Bytes that leave the front of the buffer leave the front of the unread bytes. -/
theorem unread_drop {c d : HTTPClient} {n : ℕ} (hn : n ≤ c.recvBuf.length)
    (hbuf : d.recvBuf = c.recvBuf.drop n) (htransport : d.transport = c.transport) :
    d.unread = c.unread.drop n := by
  rw [HTTPClient.unread, HTTPClient.unread, List.drop_append_of_le_length hn, hbuf,
    HTTPClient.pending, HTTPClient.pending, htransport]

/-- A front of the unread bytes that lies in the buffer. -/
theorem unread_take {c : HTTPClient} {n : ℕ} (hn : n ≤ c.recvBuf.length) :
    c.unread.take n = c.recvBuf.take n := by
  rw [HTTPClient.unread, List.take_append_of_le_length hn]

/-- A read leaves the parsed response as it was. -/
theorem Fetched.resp {c c' : HTTPClient} (h : Fetched c c') : c'.resp = c.resp := by
  obtain ⟨b, t, rfl, -⟩ := h
  rfl

/-- Reading on does not change where the client stands. -/
theorem Fetched.standsAt {stream : Bytes} {s : HTTPClientState} {c c' : HTTPClient}
    (hf : Fetched c c') (h : StandsAt stream s c) : StandsAt stream s c' := by
  cases s with
  | readingFirstline => exact ⟨hf.unread.trans h.1, hf.resp.trans h.2⟩
  | readingHeaders =>
      rw [StandsAt, hf.unread]
      exact h
  | decipherChonkiness =>
      rw [StandsAt, hf.unread]
      exact h
  | readingBodyChunked =>
      rw [StandsAt, hf.unread, hf.chunkRemaining]
      exact h
  | _ => trivial

/-- The rule for a read: the client stands where it stood, and the closed connection is an
error. -/
theorem standsAt_receive {stream : Bytes} {c : HTTPClient} {len : ℕ} (hlen : 0 < len)
    {again : HTTPClientState} {onClosed onBytes : HTTPClient → Worked}
    (h : StandsAt stream again c) (hclosed : Outcome (StandsAt stream) (onClosed c))
    (hbytes : ∀ d, Fetched c d → Outcome (StandsAt stream) (onBytes d)) :
    Outcome (StandsAt stream) (receive c len again onClosed onBytes) := by
  have hread := receive_cases c hlen again onClosed onBytes
  generalize receive c len again onClosed onBytes = w at hread
  cases hread with
  | bytes hf => exact hbytes _ hf
  | retry hf _ => exact .goto (hf.standsAt h)
  | idle _ _ => exact .goto h
  | closed _ _ => exact hclosed
  | broken _ _ => exact .goto trivial

/-- The same for a worker that only reads. -/
theorem standsAt_wait {stream : Bytes} {c : HTTPClient} {len : ℕ} (hlen : 0 < len)
    {again : HTTPClientState} (h : StandsAt stream again c) :
    Outcome (StandsAt stream) (receive c len again (goto .error) (goto again)) :=
  standsAt_receive hlen h (.goto trivial) fun _ hf => .goto (hf.standsAt h)

/-- The status-line step stays at the start of the stream or leads to the header block. -/
theorem standsAt_firstline {stream : Bytes} {c : HTTPClient}
    (h : StandsAt stream .readingFirstline c) :
    Outcome (StandsAt stream) (httpClientFirstline c) := by
  obtain ⟨hun, hresp⟩ := h
  rw [httpClientFirstline]
  split
  · exact .goto ⟨hun, hresp⟩
  · simp only
    split
    · split
      · exact .goto trivial
      · exact .goto ⟨hun, hresp⟩
    · rename_i hend
      have hend := not_lt.mp hend
      have hline := findLineEnd_append hend c.pending
      have hle := removes_line hend
      rw [← HTTPClient.unread, hun] at hline
      split
      · exact .goto trivial
      · rename_i hshort
        refine .bind ?_
        rintro ⟨code, resp⟩ hparse
        split
        · exact .goto trivial
        · rename_i hcode
          refine .goto ⟨by omega, by omega, ⟨resp, ?_⟩, ?_⟩
          · obtain rfl : code = .success := not_not.mp hcode
            rw [hline, ← hun, unread_take (by omega), ← hresp, hparse]
          · rw [hline, ← hun]
            exact unread_drop hle rfl rfl

/-- A complete header block leads to the first size line, when the response is chunked. -/
theorem standsAt_headersComplete {stream : Bytes} {c : HTTPClient}
    (h : StandsAt stream .readingHeaders c) (hend : 0 ≤ httpParserFindHeadersEnd c.recvBuf) :
    Outcome (StandsAt stream)
      (httpClientHeadersComplete c (httpParserFindHeadersEnd c.recvBuf).toNat) := by
  have hblock := findHeadersEnd_append hend c.pending
  have hle := removes_block hend
  rw [← HTTPClient.unread] at hblock
  rw [httpClientHeadersComplete]
  refine .bind ?_
  intro parsed hparse
  split
  · exact .goto trivial
  · rename_i headers
    simp only
    split
    · rename_i hchunked
      refine .goto (.head h ⟨by omega, ⟨headers, ?_, hchunked⟩, ?_⟩)
      · rw [hblock, unread_take hle, hparse]
      · rw [hblock]
        exact unread_drop hle rfl rfl
    · split
      · exact .goto trivial
      · refine .bind ?_
        intro cl _
        split
        · split <;> exact .goto trivial
        · exact .goto trivial

/-- The headers step stays in the header block until that is complete. -/
theorem standsAt_readHeaders {stream : Bytes} {c : HTTPClient}
    (h : StandsAt stream .readingHeaders c) :
    Outcome (StandsAt stream) (httpClientWorktaskReadHeaders c) := by
  rw [httpClientWorktaskReadHeaders]
  simp only
  split
  · rename_i hend
    exact standsAt_headersComplete h hend.2
  · refine standsAt_receive (by omega) h ?_ fun d hf => .goto (hf.standsAt h)
    split
    · rename_i hend
      exact standsAt_headersComplete h hend
    · exact .goto trivial

/-- After a line of value zero the client stands behind it, whether it has found the end of
the trailer or not. -/
theorem standsAt_trailers {stream : Bytes} {c : HTTPClient}
    (h : StandsAt stream .decipherChonkiness c) :
    Outcome (StandsAt stream) (httpClientTrailers c) := by
  rw [httpClientTrailers]
  split
  · exact .goto trivial
  · simp only
    split
    · exact .goto trivial
    · exact standsAt_wait (by omega) h

/-- A size line that is read leads to the chunk it announces. -/
theorem standsAt_decipherChonkiness {stream : Bytes} {c : HTTPClient}
    (h : StandsAt stream .decipherChonkiness c) :
    Outcome (StandsAt stream) (httpClientWorktaskDecipherChonkiness c) := by
  rw [httpClientWorktaskDecipherChonkiness]
  simp only
  split
  · exact standsAt_wait (by omega) h
  · rename_i hend
    have hend := not_lt.mp hend
    have hline := findLineEnd_append hend c.pending
    have hle := removes_line hend
    rw [← HTTPClient.unread] at hline
    refine .bind ?_
    intro size hsize
    have hthen : ∀ v, size = some v → SizeLineThen c.unread v
        (c.recvBuf.drop ((httpParserFindLineEnd c.recvBuf).toNat + 2) ++ c.pending) := by
      rintro v rfl
      refine ⟨by omega, ?_, ?_⟩
      · rw [hline, unread_take (by omega), hsize]
      · rw [hline, HTTPClient.unread, List.drop_append_of_le_length hle]
    cases size with
    | none => exact .goto trivial
    | some v =>
        simp only
        split
        · rename_i hzero
          subst hzero
          exact standsAt_trailers (.last h (hthen 0 rfl))
        · rename_i hne
          exact .goto ⟨c.unread, [], v, h, hne, hthen v rfl, Nat.zero_add _⟩

/-- Between the data of a chunk and the next size line the client awaits a line end. -/
theorem standsAt_chunkEnd {stream : Bytes} {c : HTTPClient}
    (h : StandsAt stream .readingBodyChunked c) (hzero : c.chunkRemaining = 0) :
    Outcome (StandsAt stream) (httpClientChunkEnd c) := by
  rw [httpClientChunkEnd]
  split
  · exact standsAt_wait (by omega) h
  · split
    · rename_i hcrlf
      obtain ⟨rest, data, size, hrest, hne, hthen, hlen⟩ := h
      obtain ⟨r, hr⟩ := hcrlf
      have hun : c.unread = crlf ++ (r ++ c.pending) := by
        rw [HTTPClient.unread, ← hr, List.append_assoc]
      have hdrop : c.recvBuf.drop 2 = r := by
        rw [← hr]
        exact List.drop_left' rfl
      rw [hun] at hthen
      refine .goto (.chunk hrest (?_ : SizeLineThen rest size (data ++ _)) hne (by omega))
      simp only [HTTPClient.unread, HTTPClient.pending, hdrop] at hthen ⊢
      exact hthen
    · exact .goto trivial

/-- A chunk that is read to its end leads to the next size line. -/
theorem standsAt_readBodyChunked {stream : Bytes} {c : HTTPClient}
    (h : StandsAt stream .readingBodyChunked c) :
    Outcome (StandsAt stream) (httpClientWorktaskReadBodyChunked c) := by
  rw [httpClientWorktaskReadBodyChunked]
  split
  · exact standsAt_wait (by omega) h
  · split
    · exact .error
    · rename_i hlen
      obtain ⟨rest, data, size, hrest, hne, hthen, hsum⟩ := h
      refine standsAt_chunkEnd ⟨rest, data ++ c.recvBuf.take c.chunkRemaining, size, hrest, hne,
        ?_, ?_⟩ rfl
      · simp only [HTTPClient.unread, HTTPClient.pending] at hthen ⊢
        rw [List.append_assoc, ← List.append_assoc (List.take _ _), List.take_append_drop]
        exact hthen
      · rw [List.length_append, List.length_take]
        simp only
        omega

/-- Every worker keeps the client at these places. -/
theorem standsAt_work {stream : Bytes} {c : HTTPClient} (h : StandsAt stream c.state c) :
    Outcome (StandsAt stream) (httpClientWork c) := by
  rw [httpClientWork]
  cases hs : c.state with
  | readingFirstline =>
      rw [hs] at h
      exact standsAt_receive (by omega) h (.goto trivial) fun d hf =>
        standsAt_firstline (hf.standsAt h)
  | readingHeaders => exact standsAt_readHeaders (hs ▸ h)
  | decipherChonkiness => exact standsAt_decipherChonkiness (hs ▸ h)
  | readingBodyChunked => exact standsAt_readBodyChunked (hs ▸ h)
  | readingBody =>
      refine .receive trivial trivial ?_ fun b => ?_
      · split <;> exact .goto trivial
      · split <;> exact .goto trivial
  | returning =>
      simp only
      rw [httpClientWorktaskReturning]
      split
      · split <;> exact .goto trivial
      · split <;> exact .goto trivial
  | _ => exact .goto trivial

/-- **Whatever the segmentation**, the chunk-size worker runs only where the stream has a
size line. -/
theorem sizeLineAt_of_reaches {sink : Sink} {incoming : List Arrival} {c : HTTPClient}
    (hc : Reaches httpClientReadStep (start sink incoming) c)
    (hs : c.state = .decipherChonkiness) : SizeLineAt (pendingOf incoming) c.unread := by
  have hstep : ∀ x y, httpClientReadStep x = .ok y →
      StandsAt (pendingOf incoming) x.state x → StandsAt (pendingOf incoming) y.state y := by
    intro x y hxy hx
    obtain ⟨s, d, hwork, rfl⟩ := work_of_readStep hxy
    have hd := standsAt_work hx s d hwork
    cases s <;> exact hd
  have hinit : StandsAt (pendingOf incoming) (start sink incoming).state
      (start sink incoming) := ⟨rfl, rfl⟩
  have hinv := hc.invariant hstep hinit
  rw [hs] at hinv
  exact hinv

/-! ### A segmentation for each of these places -/

/-- Each byte arrives in a segment of its own. -/
def oneByOne (bs : Bytes) : List Arrival := bs.map fun b => .data ⟨[b], by simp⟩

/-- Bytes that arrive one at a time are pending in the same order. -/
theorem pendingOf_oneByOne (bs : Bytes) (later : List Arrival) :
    pendingOf (oneByOne bs ++ later) = bs ++ pendingOf later := by
  induction bs with
  | nil => rfl
  | cons b bs ih =>
      rw [oneByOne, List.map_cons, List.cons_append, pendingOf]
      exact congrArg (b :: ·) ih

/-- All that the worker does in this call is to read. -/
def Waits (c : HTTPClient) : Prop :=
  ∃ len onClosed, 0 < len ∧ httpClientWork c = receive c len c.state onClosed (goto c.state)

/-- Without the end of the header block the headers step only reads. -/
theorem waits_readHeaders {c : HTTPClient} (hs : c.state = .readingHeaders)
    (hend : httpParserFindHeadersEnd c.recvBuf < 0) : Waits c := by
  refine ⟨1023, fun c =>
    if 0 ≤ httpParserFindHeadersEnd c.recvBuf then
      httpClientHeadersComplete c (httpParserFindHeadersEnd c.recvBuf).toNat
    else goto .error c, by omega, ?_⟩
  rw [httpClientWork, hs]
  exact if_neg fun h => by omega

/-- Without a line end the size-line step only reads. -/
theorem waits_decipherChonkiness {c : HTTPClient} (hs : c.state = .decipherChonkiness)
    (hend : httpParserFindLineEnd c.recvBuf < 0) : Waits c := by
  refine ⟨1023, goto .error, by omega, ?_⟩
  rw [work_decipherChonkiness hs, httpClientWorktaskDecipherChonkiness, hs]
  exact if_pos hend

/-- With less than the rest of the chunk in the buffer the chunk step only reads. -/
theorem waits_readBodyChunked {c : HTTPClient} (hs : c.state = .readingBodyChunked)
    (hlen : (c.recvBuf.length : ℤ) < toLong c.chunkRemaining) : Waits c := by
  refine ⟨1023, goto .error, by omega, ?_⟩
  rw [work_readBodyChunked hs, httpClientWorktaskReadBodyChunked, hs]
  exact if_pos hlen

/-- A segment that is no longer than what the read asks for is read whole. -/
theorem transportRead_whole {s : Segment} {later : List Arrival} {len : ℕ}
    (hlen : s.bytes.length ≤ len) :
    transportRead ⟨.data s :: later⟩ len = (.bytes s.bytes, ⟨later⟩) := by
  have htake : s.bytes.take len = s.bytes := List.take_of_length_le hlen
  have hdrop : s.bytes.drop len = [] := List.drop_of_length_le hlen
  simp only [transportRead, leftover, htake, dif_pos hdrop]

/-- **Reading byte by byte**: a worker that waits for each of these bytes comes to hold
exactly them, and nothing of what follows. -/
theorem reads_oneByOne {c : HTTPClient} {bs : Bytes} {later : List Arrival}
    (hin : c.transport.incoming = oneByOne bs ++ later)
    (hwait : ∀ front back, bs = front ++ back → back ≠ [] → ∀ t,
      Waits { c with transport := t, recvBuf := c.recvBuf ++ front }) :
    Reaches httpClientReadStep c
      { c with transport := ⟨later⟩, recvBuf := c.recvBuf ++ bs } := by
  induction bs generalizing c with
  | nil =>
      obtain ⟨s, t, buf⟩ := c
      obtain rfl : t.incoming = later := hin
      rw [List.append_nil]
      exact .refl _
  | cons b bs ih =>
      obtain ⟨len, onClosed, hlen, hwork⟩ := hwait [] (b :: bs) rfl (by simp) c.transport
      have htransport : c.transport = ⟨oneByOne (b :: bs) ++ later⟩ :=
        congrArg Transport.mk hin
      have hread : transportRead c.transport len = (.bytes [b], ⟨oneByOne bs ++ later⟩) := by
        rw [htransport]
        exact transportRead_whole (s := ⟨[b], by simp⟩) hlen
      simp only [List.append_nil] at hwork
      rw [receive, hread] at hwork
      refine .head (readStep_of_work hwork) ?_
      have hrest := ih (c := { c with
          transport := ⟨oneByOne bs ++ later⟩, recvBuf := c.recvBuf ++ [b] }) rfl ?_
      · simp only [List.append_assoc, List.singleton_append] at hrest
        exact hrest
      · intro front back heq hne t
        have hw := hwait (b :: front) back (by rw [heq, List.cons_append]) hne t
        simp only [List.append_assoc, List.singleton_append]
        exact hw

/-- Some segmentation of the stream brings the chunk-size worker to this place with an empty
buffer, whatever the segments after it are. -/
def CutBefore (sink : Sink) (stream rest : Bytes) : Prop :=
  ∃ pre, ∀ later, pendingOf later = rest → pendingOf (pre ++ later) = stream ∧
    ∃ c, Reaches httpClientReadStep (start sink (pre ++ later)) c ∧
      c.state = .decipherChonkiness ∧ c.recvBuf = [] ∧ c.transport.incoming = later

/-- The rule for going on from one such place to the next. -/
theorem CutBefore.next {sink : Sink} {stream rest next : Bytes} (h : CutBefore sink stream rest)
    (extra : List Arrival)
    (hpend : ∀ later, pendingOf later = next → pendingOf (extra ++ later) = rest)
    (hrun : ∀ later (c : HTTPClient), c.state = .decipherChonkiness → c.recvBuf = [] →
      c.transport.incoming = extra ++ later → ∃ d, Reaches httpClientReadStep c d ∧
        d.state = .decipherChonkiness ∧ d.recvBuf = [] ∧ d.transport.incoming = later) :
    CutBefore sink stream next := by
  obtain ⟨pre, hpre⟩ := h
  refine ⟨pre ++ extra, ?_⟩
  intro later hlater
  obtain ⟨hstream, c, hreach, hs, hbuf, hin⟩ := hpre (extra ++ later) (hpend later hlater)
  obtain ⟨d, hcd, hd⟩ := hrun later c hs hbuf hin
  rw [List.append_assoc]
  exact ⟨hstream, d, hreach.trans hcd, hd⟩

/-- A line end that is found below `2 ^ 31` bytes ends the first line. -/
theorem exists_line {rest : Bytes} (hlen : rest.length < 2 ^ 31)
    (hend : 0 ≤ httpParserFindLineEnd rest) :
    ∃ line r, rest = line ++ (crlf ++ r) ∧ NoCrlf line ∧
      httpParserFindLineEnd rest = line.length := by
  rw [httpParserFindLineEnd] at hend ⊢
  split at hend
  · rename_i i hocc
    have hle := List.firstOcc_add_length_le hocc
    obtain ⟨line, r, rfl, rfl⟩ := List.firstOcc_eq_split hocc
    rw [List.append_assoc] at hocc
    refine ⟨line, r, List.append_assoc .., ?_, toInt_eq_self (by omega)⟩
    rw [NoCrlf, List.firstOcc_front hocc, length_crlf, if_neg (by omega)]
  · omega

/-- The size line at the front of a stream below `2 ^ 31` bytes. -/
theorem SizeLineThen.exists_line {rest after : Bytes} {size : ℤ}
    (h : SizeLineThen rest size after) (hlen : rest.length < 2 ^ 31) :
    ∃ line, rest = line ++ (crlf ++ after) ∧ NoCrlf line ∧ line.length < 2 ^ 31 ∧
      chunkSize line = .ok (some size) := by
  obtain ⟨hend, hsize, rfl⟩ := h
  obtain ⟨line, r, rfl, hline, heq⟩ := MaestroCore.exists_line hlen hend
  have hdrop : (line ++ (crlf ++ r)).drop (line.length + 2) = r := by
    rw [← List.append_assoc]
    exact List.drop_left' (by rw [List.length_append, length_crlf])
  rw [heq, Int.toNat_natCast, List.take_left' rfl] at hsize
  rw [heq, Int.toNat_natCast, hdrop]
  simp only [List.length_append] at hlen
  exact ⟨line, rfl, hline, by omega, hsize⟩

/-- The end of a block that is found below `2 ^ 31` bytes, and how much of the block a buffer
must hold for it to be found there. -/
theorem exists_block {rest : Bytes} (hlen : rest.length < 2 ^ 31)
    (hend : 0 ≤ httpParserFindHeadersEnd rest) :
    ∃ i, httpParserFindHeadersEnd rest = (i : ℕ) ∧ i + 4 ≤ rest.length ∧
      ∀ buf m, rest = buf ++ m →
        httpParserFindHeadersEnd buf = if i + 4 ≤ buf.length then (i : ℤ) else -1 := by
  rw [httpParserFindHeadersEnd] at hend ⊢
  cases hocc : List.firstOcc (crlf ++ crlf) rest with
  | none => simp [hocc] at hend
  | some i =>
      have hle := List.firstOcc_add_length_le hocc
      rw [List.length_append, length_crlf] at hle
      have hint : toInt i = i := toInt_eq_self (by omega)
      refine ⟨i, hint, hle, ?_⟩
      rintro buf m rfl
      rw [httpParserFindHeadersEnd, List.firstOcc_front hocc, List.length_append, length_crlf]
      by_cases hbuf : i + 4 ≤ buf.length
      · rw [if_pos hbuf, if_pos hbuf]
        exact hint
      · rw [if_neg hbuf, if_neg hbuf]

/-- The chunk-size worker collects a line byte by byte. -/
theorem reads_sizeLine {c : HTTPClient} {line : Bytes} {later : List Arrival}
    (hs : c.state = .decipherChonkiness) (hbuf : c.recvBuf = []) (hline : NoCrlf line)
    (hin : c.transport.incoming = oneByOne (line ++ crlf) ++ later) :
    ∃ d, Reaches httpClientReadStep c d ∧ d.state = .decipherChonkiness ∧
      d.recvBuf = line ++ (crlf ++ []) ∧ d.transport = ⟨later⟩ := by
  refine ⟨_, reads_oneByOne hin ?_, hs, by simp [hbuf], rfl⟩
  intro front back heq hne t
  have hocc := firstOcc_crlf_line hline []
  rw [List.append_nil, heq] at hocc
  have hlt : front.length < line.length + crlf.length := by
    have := congrArg List.length heq
    have := List.length_pos_of_ne_nil hne
    simp only [List.length_append] at *
    omega
  refine waits_decipherChonkiness hs ?_
  simp only [hbuf, List.nil_append]
  rw [httpParserFindLineEnd, List.firstOcc_front hocc, if_neg (by omega)]
  decide

/-- A line of value zero, with a transient failure of the read after it: the client expects
a size line again, with an empty buffer. -/
theorem reads_last {c : HTTPClient} {line : Bytes} {later : List Arrival}
    (hs : c.state = .decipherChonkiness) (hbuf : c.recvBuf = []) (hline : NoCrlf line)
    (hshort : line.length < 2 ^ 31) (hsize : chunkSize line = .ok (some 0))
    (hin : c.transport.incoming = oneByOne (line ++ crlf) ++ .failure .EINTR :: later) :
    ∃ d, Reaches httpClientReadStep c d ∧ d.state = .decipherChonkiness ∧ d.recvBuf = [] ∧
      d.transport.incoming = later := by
  obtain ⟨d, hreach, hds, hdbuf, hdin⟩ := reads_sizeLine hs hbuf hline hin
  have hwork : httpClientWork d =
      .ok (.decipherChonkiness, { d with transport := ⟨later⟩, recvBuf := [] }) := by
    rw [work_decipherChonkiness hds, decipherChonkiness_line hdbuf hline hshort hsize,
      if_pos rfl, httpClientTrailers, if_neg (by simp [crlf])]
    simp only [receive, hdin]
    rfl
  exact ⟨_, hreach.tail (readStep_of_work hwork), rfl, rfl, rfl⟩

/-- A chunk whose data is in the buffer is copied, and the line end behind it is read. -/
theorem reads_chunkEnd {c : HTTPClient} {later : List Arrival}
    (hs : c.state = .readingBodyChunked) (hrem : c.chunkRemaining = c.recvBuf.length)
    (hlen : c.recvBuf.length < 2 ^ 31)
    (hin : c.transport = ⟨.data ⟨crlf, by decide⟩ :: later⟩) :
    ∃ d, Reaches httpClientReadStep c d ∧ d.state = .decipherChonkiness ∧ d.recvBuf = [] ∧
      d.transport.incoming = later := by
  have hcopy : httpClientWork c = .ok (.readingBodyChunked, { c with
      transport := ⟨later⟩
      decodedBody := some (c.decodedBody.getD [] ++ c.recvBuf)
      recvBuf := crlf
      chunkRemaining := 0 }) := by
    rw [work_readBodyChunked hs, httpClientWorktaskReadBodyChunked, hrem,
      toLong_eq_self (by omega), if_neg (by omega), if_neg (by omega), List.take_length,
      List.drop_length, hin]
    rfl
  exact ⟨_, .head (readStep_of_work hcopy) (.single rfl), rfl, rfl, rfl⟩

/-- A size line and its chunk: the client comes to the next size line with an empty
buffer. -/
theorem reads_chunk {c : HTTPClient} {line data : Bytes} {size : ℤ} {later : List Arrival}
    (hs : c.state = .decipherChonkiness) (hbuf : c.recvBuf = []) (hline : NoCrlf line)
    (hshort : line.length < 2 ^ 31) (hsize : chunkSize line = .ok (some size)) (hne : size ≠ 0)
    (hdata : data.length = toSize (toInt size)) (hlen : data.length < 2 ^ 31)
    (hin : c.transport.incoming =
      oneByOne (line ++ crlf) ++ (oneByOne data ++ .data ⟨crlf, by decide⟩ :: later)) :
    ∃ d, Reaches httpClientReadStep c d ∧ d.state = .decipherChonkiness ∧ d.recvBuf = [] ∧
      d.transport.incoming = later := by
  obtain ⟨d, hreach, hds, hdbuf, hdin⟩ := reads_sizeLine hs hbuf hline hin
  have hwork : httpClientWork d = .ok (.readingBodyChunked,
      { d with recvBuf := [], chunkRemaining := data.length }) := by
    rw [work_decipherChonkiness hds, decipherChonkiness_line hdbuf hline hshort hsize,
      if_neg hne, hdata]
    rfl
  have hstep := hreach.tail (readStep_of_work hwork)
  have hread := hstep.trans (reads_oneByOne (congrArg Transport.incoming hdin) ?_)
  · obtain ⟨e, he, hend⟩ := reads_chunkEnd (c := { d with
      state := .readingBodyChunked
      transport := ⟨.data ⟨crlf, by decide⟩ :: later⟩
      recvBuf := data
      chunkRemaining := data.length }) rfl rfl hlen rfl
    exact ⟨e, hread.trans he, hend⟩
  · intro front back heq hback t
    refine waits_readBodyChunked rfl ?_
    have hback := List.length_pos_of_ne_nil hback
    have hsplit := congrArg List.length heq
    rw [List.length_append] at hsplit
    simp only [List.nil_append]
    rw [toLong_eq_self (by omega)]
    omega

/-- The status line arrives in one segment and is removed at once. -/
theorem reads_statusLine (sink : Sink) {line : Bytes} {resp : HTTPResponse}
    (later : List Arrival) (hne : line ++ crlf ≠ []) (hline : NoCrlf line) (hpos : line ≠ [])
    (hshort : line.length < 1024)
    (hparse : httpParserResponseFirstline line {} = .ok (.success, resp)) :
    ∃ c, Reaches httpClientReadStep (start sink (.data ⟨line ++ crlf, hne⟩ :: later)) c ∧
      c.state = .readingHeaders ∧ c.recvBuf = [] ∧ c.transport.incoming = later := by
  have hread : transportRead ⟨.data ⟨line ++ crlf, hne⟩ :: later⟩ 8095 =
      (.bytes (line ++ crlf), ⟨later⟩) :=
    transportRead_whole (by rw [List.length_append, length_crlf]; omega)
  have hwork : httpClientWork (start sink (.data ⟨line ++ crlf, hne⟩ :: later)) =
      .ok (.readingHeaders, { start sink [] with
        transport := ⟨later⟩, recvBuf := [], resp := resp }) := by
    rw [httpClientWork]
    simp only [start, httpClientWorktaskReadFirstline, receive, hread]
    rw [httpClientFirstline_of_line hline (r := []) (by simp [bufferAppend]) (by omega),
      if_neg (by simp [hpos]; omega), hparse]
    rfl
  exact ⟨_, .single (readStep_of_work hwork), rfl, rfl, rfl⟩

/-- The header block arrives byte by byte and is removed when it is complete. -/
theorem reads_headers {c : HTTPClient} {rest body : Bytes} {later : List Arrival}
    (h : ChunkedHeadersThen rest body) (hlen : rest.length < 2 ^ 31)
    (hs : c.state = .readingHeaders) (hbuf : c.recvBuf = [])
    (hin : c.transport.incoming =
      oneByOne (rest.take ((httpParserFindHeadersEnd rest).toNat + 4)) ++ later) :
    ∃ d, Reaches httpClientReadStep c d ∧ d.state = .decipherChonkiness ∧ d.recvBuf = [] ∧
      d.transport.incoming = later := by
  obtain ⟨hend, ⟨headers, hparse, hchunked⟩, -⟩ := h
  obtain ⟨i, hi, hle, hfront⟩ := exists_block hlen hend
  rw [hi, Int.toNat_natCast] at hin hparse
  have hblock : (rest.take (i + 4)).length = i + 4 := by
    rw [List.length_take]
    omega
  have hreach := reads_oneByOne hin ?_
  · have hne : rest.take (i + 4) ≠ [] := List.ne_nil_of_length_pos (by omega)
    have hfound : httpParserFindHeadersEnd (rest.take (i + 4)) = i := by
      rw [hfront _ (rest.drop (i + 4)) (List.take_append_drop ..).symm, if_pos (by omega)]
    have hwork : httpClientWork { c with
        transport := ⟨later⟩, recvBuf := c.recvBuf ++ rest.take (i + 4) } =
        .ok (.decipherChonkiness, { c with
          transport := ⟨later⟩, recvBuf := [], headers := some headers, retries := 0 }) := by
      rw [httpClientWork, hs]
      simp only [httpClientWorktaskReadHeaders, hbuf, List.nil_append, hfound]
      rw [if_pos ⟨hne, by omega⟩, httpClientHeadersComplete]
      have hdrop : (rest.take (i + 4)).drop (i + 4) = [] :=
        List.drop_of_length_le (List.length_take_le ..)
      simp only [Int.toNat_natCast, List.take_take, Nat.min_self, hparse, bind, Except.bind,
        hchunked, if_true, hdrop]
      rfl
    exact ⟨_, hreach.tail (readStep_of_work hwork), rfl, rfl, rfl⟩
  · intro front back heq hback t
    have hsplit := congrArg List.length heq
    have hpos := List.length_pos_of_ne_nil hback
    rw [List.length_append, hblock] at hsplit
    refine waits_readHeaders hs ?_
    simp only [hbuf, List.nil_append]
    rw [hfront front (back ++ rest.drop (i + 4)), if_neg (by omega)]
    · decide
    · rw [← List.append_assoc, ← heq, List.take_append_drop]

/-- **Below `2 ^ 31` bytes**, some segmentation brings the worker to each of these places
with an empty buffer. -/
theorem SizeLineAt.cutBefore (sink : Sink) {stream rest : Bytes} (h : SizeLineAt stream rest)
    (hlen : stream.length < 2 ^ 31) :
    rest.length < 2 ^ 31 ∧ CutBefore sink stream rest := by
  induction h with
  | @head rest body hstatus hheaders =>
      obtain ⟨hpos, hshort, ⟨resp, hparse⟩, hrest⟩ := hstatus
      obtain ⟨line, r, rfl, hline, hend⟩ := exists_line hlen hpos.le
      obtain rfl : rest = r := by
        rw [hrest, hend, Int.toNat_natCast, ← List.append_assoc]
        exact List.drop_left' (by rw [List.length_append, length_crlf])
      rw [hend] at hpos hshort
      rw [hend, Int.toNat_natCast, List.take_left' rfl] at hparse
      simp only [List.length_append] at hlen
      have hne : line ≠ [] := List.ne_nil_of_length_pos (by omega)
      refine ⟨by rw [hheaders.2.2, List.length_drop]; omega, ?_⟩
      refine ⟨.data ⟨line ++ crlf, by simp [hne]⟩ ::
        oneByOne (rest.take ((httpParserFindHeadersEnd rest).toNat + 4)), ?_⟩
      intro later hlater
      refine ⟨?_, ?_⟩
      · rw [List.cons_append, pendingOf, pendingOf_oneByOne, hlater, hheaders.2.2,
          List.take_append_drop, List.append_assoc]
      · obtain ⟨c, hc, hs, hbuf, hin⟩ := reads_statusLine sink
          (oneByOne (rest.take ((httpParserFindHeadersEnd rest).toNat + 4)) ++ later)
          (by simp [hne]) hline hne (by omega) hparse
        obtain ⟨d, hd, hend⟩ := reads_headers hheaders (by omega) hs hbuf hin
        exact ⟨d, hc.trans hd, hend⟩
  | @chunk rest data next size _ hsize hne hdata ih =>
      obtain ⟨hrest, hcut⟩ := ih
      obtain ⟨line, rfl, hline, hshort, hsize⟩ := hsize.exists_line hrest
      simp only [List.length_append] at hrest
      refine ⟨by omega, hcut.next
        (oneByOne (line ++ crlf) ++ (oneByOne data ++ [.data ⟨crlf, by decide⟩])) ?_ ?_⟩
      · intro later hlater
        rw [List.append_assoc, List.append_assoc, pendingOf_oneByOne, pendingOf_oneByOne,
          List.singleton_append, pendingOf, hlater, List.append_assoc]
      · intro later c hs hbuf hin
        refine reads_chunk hs hbuf hline hshort hsize hne hdata (by omega) ?_
        rw [hin, List.append_assoc, List.append_assoc, List.singleton_append]
  | @last rest after _ hsize ih =>
      obtain ⟨hrest, hcut⟩ := ih
      obtain ⟨line, rfl, hline, hshort, hsize⟩ := hsize.exists_line hrest
      simp only [List.length_append] at hrest
      refine ⟨by omega, hcut.next (oneByOne (line ++ crlf) ++ [.failure .EINTR]) ?_ ?_⟩
      · intro later hlater
        rw [List.append_assoc, pendingOf_oneByOne, List.singleton_append, List.append_assoc,
          ← hlater]
        rfl
      · intro later c hs hbuf hin
        refine reads_last hs hbuf hline hshort hsize ?_
        rw [hin, List.append_assoc, List.singleton_append]

/-! ### The copies of the size token -/

/-- No segmentation of the stream makes the chunk-size worker copy a size token beyond its
array. -/
def TokensFit (sink : Sink) (stream : Bytes) : Prop :=
  ∀ incoming, pendingOf incoming = stream →
    ∀ c, Reaches httpClientReadStep (start sink incoming) c → c.state = .decipherChonkiness →
      httpClientWorktaskDecipherChonkiness c ≠ .error .chunkLineBuffer

/-- What the unread bytes say about the front of the buffer. -/
theorem tokenEnds_of_unread {c : HTTPClient} (h : TokenEndsAt c.unread) : TokenEnds c := by
  rcases lt_or_ge (httpParserFindLineEnd c.recvBuf) lineSize with hlt | hge
  · exact Or.inl hlt
  · have hend : 0 ≤ httpParserFindLineEnd c.recvBuf := by
      rw [lineSize] at hge
      omega
    have hle := removes_line hend
    have hline := findLineEnd_append hend c.pending
    rw [← HTTPClient.unread] at hline
    rcases h with hlt | ⟨x, hx, hdelim⟩
    · omega
    · rw [unread_take (by omega)] at hx
      exact Or.inr ⟨x, hx, hdelim⟩

/-- A size line whose token is too long for the array is copied beyond it under some
segmentation. -/
theorem CutBefore.overflows {sink : Sink} {stream rest : Bytes} (h : CutBefore sink stream rest)
    (hlen : rest.length < 2 ^ 31) (hlong : ¬ TokenEndsAt rest) : ¬ TokensFit sink stream := by
  rw [TokenEndsAt, not_or, not_lt] at hlong
  obtain ⟨hge, hnone⟩ := hlong
  obtain ⟨line, r, rfl, hline, hend⟩ := exists_line hlen (by rw [lineSize] at hge; omega)
  obtain ⟨pre, hpre⟩ := h
  obtain ⟨hstream, c, hreach, hs, hbuf, hin⟩ := hpre (oneByOne (line ++ crlf) ++ oneByOne r)
    (by rw [pendingOf_oneByOne, ← List.append_nil (oneByOne r), pendingOf_oneByOne]
        simp [pendingOf])
  obtain ⟨d, hd, hds, hdbuf, -⟩ := reads_sizeLine hs hbuf hline hin
  intro hfit
  have hends := (chunkLineBuffer_iff d).mp (hfit _ hstream d (hreach.trans hd) hds)
  rw [hend] at hge
  rcases hends with hlt | ⟨x, hx, hdelim⟩
  · have hshort : line.length < 2 ^ 31 := by
      simp only [List.length_append] at hlen
      omega
    rw [hdbuf, httpParserFindLineEnd, firstOcc_crlf_line hline] at hlt
    simp only [toInt_eq_self hshort] at hlt
    omega
  · refine hnone ⟨x, ?_, hdelim⟩
    rw [hdbuf, List.take_append_of_le_length (by omega)] at hx
    rw [List.take_append_of_le_length (by omega)]
    exact hx

/-- **The size token fits its array** under every segmentation of a stream when a delimiter
or a line end stands among the first 48 bytes of each of its size lines. Below `2 ^ 31`
bytes, where the scanners report the index that they have found, it does so only then. -/
theorem size_token_fits_iff (sink : Sink) (stream : Bytes) :
    ((∀ rest, SizeLineAt stream rest → TokenEndsAt rest) → TokensFit sink stream) ∧
      (stream.length < 2 ^ 31 → TokensFit sink stream →
        ∀ rest, SizeLineAt stream rest → TokenEndsAt rest) := by
  constructor
  · intro hall incoming hstream c hc hs
    have hat := sizeLineAt_of_reaches hc hs
    rw [hstream] at hat
    exact (chunkLineBuffer_iff c).mpr (tokenEnds_of_unread (hall _ hat))
  · intro hlen hfit rest hat
    by_contra hlong
    obtain ⟨hrest, hcut⟩ := hat.cutBefore sink hlen
    exact hcut.overflows hrest hlong hfit

/-- A response whose only size line has 48 digits. -/
def longToken : List Arrival :=
  [.data ⟨chunkedHead.bytes ++ (List.replicate 48 48 ++ crlf), by decide⟩]

/-- The size lines of a stream with one chunk: that of the chunk, the last one, and, for a
client that has not yet received the end, the empty line. -/
theorem sizeLineAt_hello {rest : Bytes} (h : SizeLineAt (pendingOf helloTailWhole) rest) :
    rest = ascii "5;a=b\r\nhello\r\n0\r\n\r\n" ∨ rest = ascii "0\r\n\r\n" ∨ rest = crlf := by
  have hfive : chunkSize (ascii "5;a=b") = .ok (some 5) := by decide
  have hzero : chunkSize (ascii "0") = .ok (some 0) := by decide
  have hnone : chunkSize [] = .ok none := by decide
  induction h with
  | head hstatus hheaders =>
      obtain ⟨-, -, -, rfl⟩ := hstatus
      obtain ⟨-, -, rfl⟩ := hheaders
      exact Or.inl (by decide)
  | @chunk rest data next size _ hsize hne hlen ih =>
      obtain ⟨-, hsize, hafter⟩ := hsize
      rcases ih with rfl | rfl | rfl
      · obtain rfl : 5 = size := Option.some.inj (Except.ok.inj (hfive.symm.trans hsize))
        have hnext : (data ++ (crlf ++ next)).drop (5 + 2) = next := by
          rw [← List.append_assoc]
          exact List.drop_left' (by rw [List.length_append, hlen]; rfl)
        rw [hafter] at hnext
        exact Or.inr (Or.inl hnext.symm)
      · exact absurd (Option.some.inj (Except.ok.inj (hzero.symm.trans hsize))).symm hne
      · cases hnone.symm.trans hsize
  | @last rest after _ hsize ih =>
      obtain ⟨-, hsize, rfl⟩ := hsize
      rcases ih with rfl | rfl | rfl
      · cases hfive.symm.trans hsize
      · exact Or.inr (Or.inr (by decide))
      · cases hnone.symm.trans hsize

/-- The tokens of the sizes `5` and `0` fit under every segmentation, and a token of 48
digits does not. -/
theorem size_token_fits_hello :
    TokensFit .blocking (pendingOf helloTailWhole) ∧
      ¬ TokensFit .blocking (pendingOf longToken) := by
  constructor
  · refine (size_token_fits_iff .blocking _).1 ?_
    intro rest hrest
    refine Or.inl ?_
    rcases sizeLineAt_hello hrest with rfl | rfl | rfl <;> decide
  · intro hfit
    have hstatus : StatusLineThen (pendingOf longToken)
        (chunkedHead.block ++ (List.replicate 48 48 ++ crlf)) :=
      ⟨by decide, by decide, ⟨_, rfl⟩, by decide⟩
    have hends := (size_token_fits_iff .blocking _).2 (by decide) hfit
      (List.replicate 48 48 ++ crlf)
      (.head hstatus ⟨by decide, ⟨_, rfl, by decide⟩, by decide⟩)
    rcases hends with hlt | ⟨x, hx, hdelim⟩
    · exact absurd hlt (by decide)
    · rw [List.take_append_of_le_length (by simp [lineSize]), lineSize, List.take_replicate] at hx
      rw [List.eq_of_mem_replicate hx] at hdelim
      cases hdelim

/-- The size token of this response is copied past the end of the array. -/
theorem long_token_overflows :
    ∃ c, Reaches httpClientReadStep (start .blocking longToken) c ∧
      c.state = .decipherChonkiness ∧
      httpClientWorktaskDecipherChonkiness c = .error .chunkLineBuffer :=
  ⟨_, reaches_of_run (n := 2) rfl, by decide, by decide⟩

end MaestroCore
