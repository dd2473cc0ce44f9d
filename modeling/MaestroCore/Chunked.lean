import MaestroCore.Message

/-!
# Chunked Bodies

A chunked body is a sequence of chunks, each a size line and its data, then a size line of
value zero and the trailer fields up to an empty line. What a size line is worth is what
`http_client_worktask_decipher_chonkiness` makes of it, so a chunk here is a line together
with the data that the client takes for it.

The client keeps in `recv_buf` the bytes that it has read and not used, in `decoded_body`
the data of the chunks before, and in `chunk_remaining` what it wants of the current one.
`InChunks` ties the three to the part of the body that is still to be decoded.

## Main results

* `InChunks.step`: one worker call on a chunked body, at any byte.
* `exists_lastRead`: from the start of a response the run reaches the line of the last
  chunk with the whole payload decoded, however the stream is cut.
-/

open CLang Run

namespace MaestroCore

/-! ### The body on the wire -/

/-- A chunk: a line and the data that the client takes for it. -/
structure Chunk where
  line : Bytes
  data : Bytes
  noCrlf : NoCrlf line
  line_short : line.length < 2 ^ 31
  data_short : data.length < 2 ^ 31
  size : ∃ v, chunkSize line = .ok (some v) ∧ v ≠ 0 ∧ toSize (toInt v) = data.length

/-- The chunks on the wire. -/
def chunkBytes : List Chunk → Bytes
  | [] => []
  | ch :: chs => ch.line ++ (crlf ++ (ch.data ++ (crlf ++ chunkBytes chs)))

/-- The data of the chunks. -/
def payload : List Chunk → Bytes
  | [] => []
  | ch :: chs => ch.data ++ payload chs

/-- A chunked body: the chunks, the line of the last chunk, and the trailer fields. -/
structure ChunkedBody where
  chunks : List Chunk
  last : Bytes
  trailers : List Line
  last_noCrlf : NoCrlf last
  last_short : last.length < 2 ^ 31
  last_size : chunkSize last = .ok (some 0)
  trailers_short : headersEnd trailers < 2 ^ 31

/-- What follows the line of the last chunk. -/
def ChunkedBody.tail (b : ChunkedBody) : Bytes := lineBlock b.trailers ++ crlf

/-- The line after the line of the last chunk: the first trailer line, or the empty line. -/
def ChunkedBody.tailLine (b : ChunkedBody) : Bytes :=
  match b.trailers with
  | [] => []
  | l :: _ => l.text

/-- What follows the last size line starts with a short line, which is empty or the first of a
block. -/
theorem ChunkedBody.tail_split (b : ChunkedBody) :
    ∃ r, b.tail = b.tailLine ++ (crlf ++ r) ∧ NoCrlf b.tailLine ∧
      b.tailLine.length < 2 ^ 31 ∧ (b.tailLine = [] ∨ ∃ ls, r = lineBlock ls ++ crlf) := by
  have hshort := b.trailers_short
  rw [ChunkedBody.tail, ChunkedBody.tailLine]
  cases hls : b.trailers with
  | nil => exact ⟨[], rfl, rfl, by simp, Or.inl rfl⟩
  | cons l ls =>
      rw [hls, headersEnd, length_lineBlock_cons] at hshort
      have hline : l.text.length < 2 ^ 31 := by omega
      exact ⟨_, lineBlock_cons_append l ls crlf, l.noCrlf, hline, Or.inr ⟨ls, rfl⟩⟩

/-- The body on the wire. -/
def ChunkedBody.bytes (b : ChunkedBody) : Bytes :=
  chunkBytes b.chunks ++ (b.last ++ (crlf ++ b.tail))

/-- Chunks without bytes are no chunks, since a chunk has a size line. -/
theorem eq_nil_of_chunkBytes {chs : List Chunk} (h : (chunkBytes chs).length = 0) :
    chs = [] := by
  cases chs with
  | nil => rfl
  | cons ch chs =>
      simp only [chunkBytes, List.length_append, length_crlf] at h
      omega

/-! ### The workers on a chunked body -/

section Chunked

variable {sink : Sink} {b : ChunkedBody} {extra : Bytes} {c c' : HTTPClient}

/-- What the worker does at a size line. -/
theorem work_decipherChonkiness (hs : c.state = .decipherChonkiness) :
    httpClientWork c = httpClientWorktaskDecipherChonkiness c := by
  rw [httpClientWork, hs]

/-- What the worker does in a chunk. -/
theorem work_readBodyChunked (hs : c.state = .readingBodyChunked) :
    httpClientWork c = httpClientWorktaskReadBodyChunked c := by
  rw [httpClientWork, hs]

/-- The chunk-size worker on a complete line. -/
theorem decipherChonkiness_complete {line r : Bytes}
    (hbuf : c.recvBuf = line ++ (crlf ++ r)) (hline : NoCrlf line)
    (hshort : line.length < 2 ^ 31) :
    httpClientWorktaskDecipherChonkiness c =
      match chunkSize line with
      | .error e => .error e
      | .ok none => goto .error c
      | .ok (some v) =>
          if v = 0 then httpClientTrailers { c with recvBuf := r }
          else goto .readingBodyChunked
            { c with recvBuf := r, chunkRemaining := toSize (toInt v) } := by
  have hend : httpParserFindLineEnd c.recvBuf = line.length := by
    rw [httpParserFindLineEnd, hbuf, firstOcc_crlf_line hline]
    exact toInt_eq_self hshort
  have htake : c.recvBuf.take line.length = line := by
    rw [hbuf, List.take_left' rfl]
  have hdrop : c.recvBuf.drop (line.length + 2) = r := by
    rw [hbuf, ← List.append_assoc]
    exact List.drop_left' (by simp [length_crlf])
  rw [httpClientWorktaskDecipherChonkiness, hend]
  simp only [Int.toNat_natCast]
  rw [if_neg (by omega), htake, hdrop]
  rcases chunkSize line with e | _ | v <;> rfl

/-- The chunk-size worker on a line with a size. -/
theorem decipherChonkiness_line {line r : Bytes} {v : ℤ} (hbuf : c.recvBuf = line ++ (crlf ++ r))
    (hline : NoCrlf line) (hshort : line.length < 2 ^ 31)
    (hsize : chunkSize line = .ok (some v)) :
    httpClientWorktaskDecipherChonkiness c =
      if v = 0 then httpClientTrailers { c with recvBuf := r }
      else goto .readingBodyChunked
        { c with recvBuf := r, chunkRemaining := toSize (toInt v) } := by
  rw [decipherChonkiness_complete hbuf hline hshort, hsize]

/-- The chunk-size worker waits while the line is incomplete. -/
theorem decipherChonkiness_waiting {line r m : Bytes}
    (hun : c.recvBuf ++ m = line ++ (crlf ++ r)) (hline : NoCrlf line)
    (hbuf : c.recvBuf.length < line.length + 2) :
    httpClientWorktaskDecipherChonkiness c =
      receive c 1023 .decipherChonkiness (goto .error) (goto .decipherChonkiness) := by
  have hocc := firstOcc_crlf_line hline r
  rw [← hun] at hocc
  have hend : httpParserFindLineEnd c.recvBuf = -1 := by
    rw [httpParserFindLineEnd, List.firstOcc_front hocc, length_crlf, if_neg (by omega)]
  rw [httpClientWorktaskDecipherChonkiness, hend]
  exact if_pos (by omega)

/-- A client inside the chunks: before the line of a chunk, or with `d` of a chunk still to
copy. -/
inductive InChunks (sink : Sink) (b : ChunkedBody) (extra : Bytes) (c : HTTPClient) : Prop
  | size (todo : List Chunk) (hs : c.state = .decipherChonkiness)
      (hun : c.unread = chunkBytes todo ++ (b.last ++ (crlf ++ (b.tail ++ extra))))
      (hdec : c.decodedBody.getD [] ++ payload todo = payload b.chunks)
      (hdel : Undelivered sink c)
  | data (d : Bytes) (todo : List Chunk) (hs : c.state = .readingBodyChunked)
      (hrem : c.chunkRemaining = d.length) (hd : d.length < 2 ^ 31)
      (hun : c.unread =
        d ++ (crlf ++ (chunkBytes todo ++ (b.last ++ (crlf ++ (b.tail ++ extra))))))
      (hdec : c.decodedBody.getD [] ++ (d ++ payload todo) = payload b.chunks)
      (hdel : Undelivered sink c)

/-- The line of the last chunk is in the buffer. -/
def LastRead (b : ChunkedBody) (extra : Bytes) (c : HTTPClient) : Prop :=
  c.state = .decipherChonkiness ∧ c.unread = b.last ++ (crlf ++ (b.tail ++ extra)) ∧
    b.last.length + 2 ≤ c.recvBuf.length

/-- A read keeps the client's place among the chunks. -/
theorem Fetched.inChunks (hf : Fetched c c') (hc : InChunks sink b extra c) :
    InChunks sink b extra c' := by
  cases hc with
  | size todo hs hun hdec hdel =>
      exact .size todo (hf.state.trans hs) (hf.unread.trans hun) (by rw [hf.decodedBody, hdec])
        (hf.undelivered hdel)
  | data d todo hs hrem hd hun hdec hdel =>
      exact .data d todo (hf.state.trans hs) (hf.chunkRemaining.trans hrem) hd
        (hf.unread.trans hun) (by rw [hf.decodedBody, hdec]) (hf.undelivered hdel)

/-- Waiting for a line: what is pending goes beyond the line. -/
theorem InChunks.step_wait {line r : Bytes} (hc : InChunks sink b extra c)
    (hs : c.state = .decipherChonkiness) (hun : c.unread = line ++ (crlf ++ r))
    (hline : NoCrlf line) (hlt : c.recvBuf.length < line.length + 2) :
    ∃ c', httpClientReadStep c = .ok c' ∧ InChunks sink b extra c' ∧ c'.load < c.load ∧
      r.length < c.pending.length := by
  have hlen := congrArg List.length hun
  simp only [HTTPClient.unread, List.length_append, length_crlf] at hlen
  have hpend : c.pending ≠ [] := fun hnil => by
    rw [hnil, List.length_nil] at hlen
    omega
  obtain ⟨c₁, hf, hrecv⟩ := receive_goto 1023 (by omega) hpend .decipherChonkiness
    (goto .error)
  have hwork : httpClientWork c = .ok (.decipherChonkiness, c₁) :=
    ((work_decipherChonkiness hs).trans (decipherChonkiness_waiting hun hline hlt)).trans hrecv
  refine ⟨_, readStep_of_work hwork, ?_, hf.load_lt, by omega⟩
  rw [HTTPClient.with_state (hf.state.trans hs)]
  exact hf.inChunks hc

/-- One call of the chunk-size worker before the last chunk. -/
theorem InChunks.step_size (hc : InChunks sink b extra c) (hgoal : ¬ LastRead b extra c)
    (hs : c.state = .decipherChonkiness) :
    ∃ c', httpClientReadStep c = .ok c' ∧ InChunks sink b extra c' ∧ c'.load < c.load ∧
      (c'.pending = c.pending ∨ (b.tail ++ extra).length < c.pending.length) := by
  cases hc with
  | data _ _ hs' => rw [hs] at hs'; cases hs'
  | size todo _ hun hdec hdel =>
      have hc := InChunks.size todo hs hun hdec hdel
      cases todo with
      | nil =>
          rw [chunkBytes, List.nil_append] at hun
          have hlt : c.recvBuf.length < b.last.length + 2 := by
            by_contra hle
            exact hgoal ⟨hs, hun, by omega⟩
          obtain ⟨c', hstep, hI, hload, hpend⟩ := hc.step_wait hs hun b.last_noCrlf hlt
          exact ⟨c', hstep, hI, hload, Or.inr hpend⟩
      | cons ch todo =>
          simp only [chunkBytes, List.append_assoc] at hun
          by_cases hlt : c.recvBuf.length < ch.line.length + 2
          · obtain ⟨c', hstep, hI, hload, hpend⟩ := hc.step_wait hs hun ch.noCrlf hlt
            refine ⟨c', hstep, hI, hload, Or.inr ?_⟩
            simp only [List.length_append] at hpend ⊢
            omega
          · rw [HTTPClient.unread, ← List.append_assoc ch.line] at hun
            obtain ⟨r, hr, hrest⟩ := List.exists_split_of_length_le hun
              (by rw [List.length_append, length_crlf]; omega)
            rw [List.append_assoc] at hr
            obtain ⟨v, hv, hne, hsize⟩ := ch.size
            have hwork : httpClientWork c = .ok (.readingBodyChunked,
                { c with recvBuf := r, chunkRemaining := toSize (toInt v) }) := by
              rw [work_decipherChonkiness hs,
                decipherChonkiness_line hr ch.noCrlf ch.line_short hv, if_neg hne]
              rfl
            refine ⟨_, readStep_of_work hwork, ?_, ?_, Or.inl rfl⟩
            · exact .data ch.data todo rfl hsize ch.data_short hrest hdec
                ⟨hdel.1, hdel.2, hdel.3, hdel.4⟩
            · have := congrArg List.length hr
              simp only [HTTPClient.load, List.length_append, length_crlf] at this ⊢
              omega

/-- The end of the chunk-data worker: the line end after the data is awaited and
removed. -/
theorem chunkEnd_step {todo : List Chunk} (hs : c.state = .readingBodyChunked)
    (hrem : c.chunkRemaining = 0)
    (hun : c.unread = crlf ++ (chunkBytes todo ++ (b.last ++ (crlf ++ (b.tail ++ extra)))))
    (hdec : c.decodedBody.getD [] ++ payload todo = payload b.chunks)
    (hdel : Undelivered sink c) :
    ∃ s c', httpClientChunkEnd c = .ok (s, c') ∧ InChunks sink b extra { c' with state := s } ∧
      c'.load < c.load ∧
      (c'.pending = c.pending ∨ (b.tail ++ extra).length < c.pending.length) := by
  have hlen := congrArg List.length hun
  simp only [HTTPClient.unread, List.length_append, length_crlf] at hlen
  rw [httpClientChunkEnd]
  by_cases hlt : c.recvBuf.length < 2
  · have hpend : c.pending ≠ [] := fun hnil => by
      rw [hnil, List.length_nil] at hlen
      omega
    obtain ⟨c₁, hf, hrecv⟩ := receive_goto 1024 (by omega) hpend .readingBodyChunked
      (goto .error)
    rw [if_pos hlt]
    refine ⟨_, _, hrecv, ?_, hf.load_lt, Or.inr ?_⟩
    · rw [HTTPClient.with_state (hf.state.trans hs)]
      exact hf.inChunks (.data [] todo hs hrem (by simp) hun hdec hdel)
    · rw [List.length_append]
      omega
  · obtain ⟨r, hr, hrest⟩ := List.exists_split_of_length_le hun (by rw [length_crlf]; omega)
    have hpre : crlf <+: c.recvBuf := ⟨r, hr.symm⟩
    have hdrop : c.recvBuf.drop 2 = r := by
      rw [hr]
      exact List.drop_left' length_crlf
    rw [if_neg hlt, if_pos hpre, hdrop]
    refine ⟨_, _, rfl, ?_, ?_, Or.inl rfl⟩
    · exact .size todo rfl hrest hdec ⟨hdel.1, hdel.2, hdel.3, hdel.4⟩
    · have := congrArg List.length hr
      simp only [HTTPClient.load, List.length_append, length_crlf] at this ⊢
      omega

/-- One call of the chunk-data worker. -/
theorem InChunks.step_data (hc : InChunks sink b extra c) (hs : c.state = .readingBodyChunked) :
    ∃ c', httpClientReadStep c = .ok c' ∧ InChunks sink b extra c' ∧ c'.load < c.load ∧
      (c'.pending = c.pending ∨ (b.tail ++ extra).length < c.pending.length) := by
  cases hc with
  | size _ hs' => rw [hs] at hs'; cases hs'
  | data d todo _ hrem hd hun hdec hdel =>
      have hc := InChunks.data d todo hs hrem hd hun hdec hdel
      have hlen := congrArg List.length hun
      simp only [HTTPClient.unread, List.length_append, length_crlf] at hlen
      have hlong : toLong c.chunkRemaining = d.length := by
        rw [hrem]
        exact toLong_eq_self (by omega)
      have hwork := work_readBodyChunked hs
      rw [httpClientWorktaskReadBodyChunked, hlong] at hwork
      by_cases hlt : c.recvBuf.length < d.length
      · -- Data of the chunk is still to come.
        have hpend : c.pending ≠ [] := fun hnil => by
          rw [hnil, List.length_nil] at hlen
          omega
        obtain ⟨c₁, hf, hrecv⟩ := receive_goto 1023 (by omega) hpend
          .readingBodyChunked (goto .error)
        rw [if_pos (by omega), hrecv] at hwork
        refine ⟨_, readStep_of_work hwork, ?_, hf.load_lt, Or.inr ?_⟩
        · rw [HTTPClient.with_state (hf.state.trans hs)]
          exact hf.inChunks hc
        · rw [List.length_append]
          omega
      · -- The data is complete: it is copied, and the line end after it is awaited.
        obtain ⟨r, hr, hrest⟩ := List.exists_split_of_length_le hun (by omega)
        have htake : c.recvBuf.take c.chunkRemaining = d := by
          rw [hrem, hr, List.take_left' rfl]
        have hdrop : c.recvBuf.drop c.chunkRemaining = r := by
          rw [hrem, hr, List.drop_left' rfl]
        have hbuf := congrArg List.length hr
        rw [List.length_append] at hbuf
        rw [if_neg (by omega), if_neg (by omega), htake, hdrop] at hwork
        obtain ⟨s, c', hend, hI, hload, hpend⟩ := chunkEnd_step (c := { c with
          decodedBody := some (c.decodedBody.getD [] ++ d), recvBuf := r, chunkRemaining := 0 })
          hs rfl hrest (by rw [← hdec, ← List.append_assoc]; rfl)
          ⟨hdel.1, hdel.2, hdel.3, hdel.4⟩
        refine ⟨_, readStep_of_work (hwork.trans hend), hI, lt_of_lt_of_le hload ?_, hpend⟩
        simp only [HTTPClient.load]
        omega

/-- **One worker call on a chunked body** before the line of the last chunk is in the
buffer. It reads only when bytes up to that line are missing. -/
theorem InChunks.step (hc : InChunks sink b extra c) (hgoal : ¬ LastRead b extra c) :
    ∃ c', httpClientReadStep c = .ok c' ∧ InChunks sink b extra c' ∧ c'.load < c.load ∧
      (c'.pending = c.pending ∨ (b.tail ++ extra).length < c.pending.length) := by
  cases hc with
  | size todo hs hun hdec hdel => exact (InChunks.size todo hs hun hdec hdel).step_size hgoal hs
  | data d todo hs hrem hd hun hdec hdel =>
      exact (InChunks.data d todo hs hrem hd hun hdec hdel).step_data hs

/-! ### The end of the message -/

/-- What `LastRead` says about the buffer. -/
theorem LastRead.buffer (hc : LastRead b extra c) :
    ∃ r, c.recvBuf = b.last ++ (crlf ++ r) ∧ r ++ c.pending = b.tail ++ extra := by
  obtain ⟨-, hun, hle⟩ := hc
  rw [HTTPClient.unread, ← List.append_assoc b.last] at hun
  obtain ⟨r, hr, hrest⟩ := List.exists_split_of_length_le hun
    (by rw [List.length_append, length_crlf]; exact hle)
  exact ⟨r, by rw [hr, List.append_assoc], hrest⟩

/-- A complete tail is removed, and the message is at its end. -/
theorem httpClientTrailers_complete {r : Bytes} (hbuf : c.recvBuf = b.tail ++ r) :
    httpClientTrailers c = goto .returning { c with recvBuf := r } := by
  rw [httpClientTrailers]
  rw [ChunkedBody.tail, List.append_assoc] at hbuf
  cases htr : b.trailers with
  | nil =>
      rw [htr, lineBlock_nil, List.nil_append] at hbuf
      rw [if_pos (hbuf ▸ List.prefix_append crlf r), hbuf, List.drop_left' length_crlf]
  | cons l ls =>
      have hne : b.trailers ≠ [] := by simp [htr]
      have hfind : httpParserFindHeadersEnd c.recvBuf = headersEnd b.trailers := by
        rw [httpParserFindHeadersEnd, hbuf, firstOcc_headersEnd hne]
        exact toInt_eq_self b.trailers_short
      have hpre : ¬ crlf <+: c.recvBuf := by
        rw [hbuf, htr, lineBlock_cons_append]
        exact l.not_starts_crlf _
      have hdrop : c.recvBuf.drop (headersEnd b.trailers + 4) = r := by
        rw [hbuf, ← List.append_assoc]
        exact List.drop_left' (headersEnd_add_four hne).symm
      rw [if_neg hpre, hfind]
      simp only [Int.toNat_natCast]
      rw [if_pos (by omega), hdrop]

/-- When the tail is incomplete the worker reads, and stays in its state. -/
theorem httpClientTrailers_incomplete {m : Bytes} (hun : c.recvBuf ++ m = b.tail ++ extra)
    (hlt : c.recvBuf.length < b.tail.length) :
    httpClientTrailers c =
      receive c 1023 .decipherChonkiness (goto .error) (goto .decipherChonkiness) := by
  have hpre : ¬ crlf <+: c.recvBuf := by
    rintro ⟨r, hr⟩
    have hlen := congrArg List.length hr
    rw [List.length_append, length_crlf] at hlen
    rw [← hr, ChunkedBody.tail] at hun
    rw [ChunkedBody.tail] at hlt
    cases htr : b.trailers with
    | nil =>
        rw [htr, lineBlock_nil, List.nil_append, length_crlf] at hlt
        omega
    | cons l ls =>
        rw [htr, List.append_assoc, List.append_assoc, lineBlock_cons_append] at hun
        exact l.not_starts_crlf _ ⟨_, hun⟩
  have hnone : List.firstOcc (crlf ++ crlf) c.recvBuf = none := by
    by_cases hne : b.trailers = []
    · cases hocc : List.firstOcc (crlf ++ crlf) c.recvBuf with
      | none => rfl
      | some i =>
          have hle := List.firstOcc_add_length_le hocc
          rw [ChunkedBody.tail, hne, lineBlock_nil, List.nil_append, length_crlf] at hlt
          simp only [List.length_append, length_crlf] at hle
          omega
    · have hocc := firstOcc_headersEnd hne extra
      rw [← List.append_assoc, ← ChunkedBody.tail, ← hun] at hocc
      have hlen := headersEnd_add_four hne
      rw [← ChunkedBody.tail] at hlen
      rw [List.firstOcc_front hocc, if_neg (by simp only [List.length_append, length_crlf]; omega)]
  rw [httpClientTrailers, if_neg hpre, httpParserFindHeadersEnd, hnone]
  rfl

/-- **The end of the message.** When the tail is in the buffer together with the line of
the last chunk, the client returns with what follows the message in the buffer. -/
theorem LastRead.step_complete (hc : LastRead b extra c)
    (hpend : c.pending.length ≤ extra.length) :
    ∃ r, r ++ c.pending = extra ∧
      httpClientReadStep c = .ok { c with recvBuf := r, state := .returning } := by
  obtain ⟨r, hbuf, hr⟩ := hc.buffer
  have hlen := congrArg List.length hr
  simp only [List.length_append] at hlen
  obtain ⟨r', rfl, hr'⟩ := List.exists_split_of_length_le hr (by omega)
  have hwork : httpClientWork c = goto .returning { c with recvBuf := r' } := by
    rw [work_decipherChonkiness hc.1,
      decipherChonkiness_line hbuf b.last_noCrlf b.last_short b.last_size, if_pos rfl]
    exact httpClientTrailers_complete rfl
  exact ⟨r', hr', readStep_of_work hwork⟩

/-- When part of the tail is missing, the line of the last chunk is removed all the same,
and the worker is called again in the state that expects a size line. -/
theorem LastRead.step_incomplete (hc : LastRead b extra c)
    (hpend : extra.length < c.pending.length) :
    ∃ c', httpClientReadStep c = .ok c' ∧ c'.state = .decipherChonkiness ∧
      c'.unread = b.tail ++ extra ∧ c'.decodedBody = c.decodedBody := by
  obtain ⟨r, hbuf, hr⟩ := hc.buffer
  have hlen := congrArg List.length hr
  simp only [List.length_append] at hlen
  have hlt : r.length < b.tail.length := by omega
  have hne : ({ c with recvBuf := r } : HTTPClient).pending ≠ [] := fun hnil => by
    have : c.pending = [] := hnil
    rw [this, List.length_nil] at hpend
    omega
  obtain ⟨c₁, hf, hrecv⟩ := receive_goto 1023 (by omega) hne .decipherChonkiness
    (goto .error)
  have hwork : httpClientWork c = .ok (.decipherChonkiness, c₁) := by
    rw [work_decipherChonkiness hc.1,
      decipherChonkiness_line hbuf b.last_noCrlf b.last_short b.last_size, if_pos rfl,
      httpClientTrailers_incomplete hr hlt, hrecv]
  exact ⟨_, readStep_of_work hwork, rfl, hf.unread.trans hr, hf.decodedBody⟩

/-! ### From the start to the last chunk -/

variable {h : Head} {incoming : List Arrival}

/-- The headers lead into the chunks. -/
theorem InHead.framed_chunks {e : Ending} (hc : InHead sink h (b.bytes ++ extra) [] e c)
    (hgoal : HeadRead h c) (hend : headersEnd h.lines < 2 ^ 31)
    (hte : transferEncodingChunked h.headers = true) :
    ∃ c', httpClientReadStep c = .ok c' ∧ c'.pending = c.pending ∧ c'.load < c.load ∧
      InChunks sink b extra c' := by
  obtain ⟨r, -, hr, hload, hstep⟩ := hc.framed_step hgoal hend
  have hs : framedState h.headers r.length = .decipherChonkiness := by
    rw [framedState, hte, if_pos rfl]
  rw [hs] at hstep
  refine ⟨_, hstep, rfl, hload, ?_⟩
  cases hc with
  | firstline hs' => rw [hgoal.1] at hs'; cases hs'
  | headers _ _ _ hdec hdel =>
      refine .size b.chunks rfl ?_ ?_ ⟨hdel.1, hdel.2, hdel.3, hdel.4⟩
      · simp only [ChunkedBody.bytes, List.append_nil, List.append_assoc] at hr
        exact hr
      · simp [framed, hdec]

/-- **The run reaches the line of the last chunk** with the whole payload decoded, however
the stream is cut. A client before that point has the same bytes to come, or bytes up to
that line are still missing. -/
theorem exists_lastRead (sink : Sink)
    (hstream : pendingOf incoming = h.bytes ++ (b.bytes ++ extra))
    (hend : headersEnd h.lines < 2 ^ 31) (hte : transferEncodingChunked h.headers = true) :
    ∃ c, Reaches httpClientReadStep (start sink incoming) c ∧ LastRead b extra c ∧
      c.decodedBody.getD [] = payload b.chunks ∧ Undelivered sink c ∧
      ∀ d, Reaches httpClientReadStep (start sink incoming) d →
        (d.pending = c.pending ∨ (b.tail ++ extra).length < d.pending.length) ∨
          Reaches httpClientReadStep c d := by
  have hrest : (b.tail ++ extra).length < (b.bytes ++ extra).length := by
    simp only [ChunkedBody.bytes, List.length_append, length_crlf]
    omega
  obtain ⟨c, hc, hI, hG, hall⟩ := exists_goal_after_head hstream hrest.le
    (fun x hx hread => hx.framed_chunks hread hend hte) (fun x hx hG => hx.step hG)
  cases hI with
  | data _ _ hs => rw [hG.1] at hs; cases hs
  | size todo _ hun hdec hdel =>
      have hnil : todo = [] := by
        rw [hG.2.1] at hun
        have := congrArg List.length hun
        simp only [List.length_append] at this
        exact eq_nil_of_chunkBytes (by omega)
      rw [hnil, payload, List.append_nil] at hdec
      exact ⟨c, hc, hG, hdec, hdel, hall⟩

/-- When the tail is complete at the line of the last chunk, nothing is read any more. -/
theorem LastRead.pending_cases (hc : LastRead b extra c)
    (hpend : c.pending.length ≤ extra.length) {d : HTTPClient}
    (hd : (d.pending = c.pending ∨ (b.tail ++ extra).length < d.pending.length) ∨
      Reaches httpClientReadStep c d) :
    d.pending = c.pending ∨ (b.tail ++ extra).length < d.pending.length := by
  rcases hd with hd | hd
  · exact hd
  · obtain ⟨r, -, hstep⟩ := hc.step_complete hpend
    rcases hd.cases_first with rfl | ⟨c', hstep', hc'd⟩
    · exact Or.inl rfl
    · obtain rfl := Except.ok.inj (hstep'.symm.trans hstep)
      rw [HTTPClient.pending, transport_of_returning rfl hc'd]
      exact Or.inl rfl

end Chunked

end MaestroCore
