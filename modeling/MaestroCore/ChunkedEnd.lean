import MaestroCore.ChunkedDelivery

/-!
# The End of a Chunked Message

`http_client_worktask_decipher_chonkiness` removes the line of the last chunk from the
buffer before it knows whether the trailer is complete. When the trailer is not complete
it reads once and stays in its state, which expects a size line: the next call takes the
first trailer line, or the empty line, for the size of another chunk.

A client on this path is `Astray`. It does not find back to the end of the message,
unless the trailer line that it takes for a size has the value zero.

## Main results

* `Astray.step`: a client that has gone astray stays astray.
* `chunked_end_iff`: the end of the message is recognised exactly when no read ends
  between the line of the last chunk and the end of the message.
-/

open CLang Run

namespace MaestroCore

section ChunkedEnd

variable {b : ChunkedBody} {body : Bytes} {c c' c₀ : HTTPClient}

/-- The outcomes of a read whose bytes only go to the buffer. -/
theorem receive_outcome {len : ℕ} (hlen : 0 < len) {s s' : HTTPClientState}
    (h : receive c₀ len s (goto .error) (goto s) = .ok (s', c')) :
    s' = .error ∨ s' = s ∧ (Fetched c₀ c' ∨ c' = c₀) := by
  have hread := receive_cases c₀ hlen s (goto .error) (goto s)
  rw [h] at hread
  generalize hr : (Except.ok (s', c') : Worked) = r at hread
  cases hread with
  | @bytes c₁ hf =>
      obtain ⟨rfl, rfl⟩ := Prod.mk.injEq .. ▸ Except.ok.inj hr
      exact Or.inr ⟨rfl, Or.inl hf⟩
  | @retry c₁ hf _ =>
      obtain ⟨rfl, rfl⟩ := Prod.mk.injEq .. ▸ Except.ok.inj hr
      exact Or.inr ⟨rfl, Or.inl hf⟩
  | idle =>
      obtain ⟨rfl, rfl⟩ := Prod.mk.injEq .. ▸ Except.ok.inj hr
      exact Or.inr ⟨rfl, Or.inr rfl⟩
  | closed =>
      obtain ⟨rfl, rfl⟩ := Prod.mk.injEq .. ▸ Except.ok.inj hr
      exact Or.inl rfl
  | broken =>
      obtain ⟨rfl, rfl⟩ := Prod.mk.injEq .. ▸ Except.ok.inj hr
      exact Or.inl rfl

/-- The outcomes of a worker call that only reads. -/
theorem waited {len : ℕ} (hlen : 0 < len) {s : HTTPClientState}
    (hwork : httpClientWork c = receive c₀ len s (goto .error) (goto s))
    (hstep : httpClientReadStep c = .ok c') :
    c'.state = .error ∨ ∃ c₁, (Fetched c₀ c₁ ∨ c₁ = c₀) ∧ c' = { c₁ with state := s } := by
  obtain ⟨s', d, hd, rfl⟩ := work_of_readStep hstep
  rw [hwork] at hd
  rcases receive_outcome hlen hd with rfl | ⟨rfl, hd'⟩
  · exact Or.inl rfl
  · exact Or.inr ⟨d, hd', rfl⟩

/-- The states after the header block of a chunked response. -/
def afterHeaders : HTTPClientState → Bool
  | .decipherChonkiness | .readingBodyChunked | .returning | .disposing | .error => true
  | _ => false

/-- A client that has taken the line of the last chunk for done while its trailer was
incomplete. It reads the tail as if it were chunks, with `body` decoded so far. -/
inductive Astray (b : ChunkedBody) (body : Bytes) (c : HTTPClient) : Prop
  /-- It expects a size line where the tail starts. -/
  | line (hs : c.state = .decipherChonkiness) (hun : c.unread = b.tail)
      (hdec : c.decodedBody.getD [] = body)
  /-- It has taken a trailer line for the size of a chunk. -/
  | chunk (hs : c.state = .readingBodyChunked) (hrem : 0 < c.chunkRemaining)
      (hdec : c.decodedBody.getD [] = body)
  /-- The same with a size that is zero as an `int`. -/
  | empty (ls : List Line) (hs : c.state = .readingBodyChunked) (hrem : c.chunkRemaining = 0)
      (hun : c.unread = lineBlock ls ++ crlf)
  /-- It has used all bytes and expects a size line. -/
  | drained (hs : c.state = .decipherChonkiness) (hun : c.unread = [])
  /-- It has decoded more than the body. -/
  | longer (hs : afterHeaders c.state = true)
      (hdec : body.length < (c.decodedBody.getD []).length)
  | failed (hs : c.state = .error)

/-- A client that has gone astray does not return with the body. -/
theorem Astray.ne_of_returning (hc : Astray b body c) (hs : c.state = .returning) :
    c.decodedBody.getD [] ≠ body := by
  cases hc with
  | line hs' => rw [hs] at hs'; cases hs'
  | chunk hs' => rw [hs] at hs'; cases hs'
  | empty _ hs' => rw [hs] at hs'; cases hs'
  | drained hs' => rw [hs] at hs'; cases hs'
  | longer _ hdec =>
      rintro rfl
      omega
  | failed hs' => rw [hs] at hs'; cases hs'

/-! ### What has been decoded stays decoded -/

/-- A postcondition after the headers: an error, or a state after the headers with at
least as much decoded as `body`. -/
def Decodes (body : Bytes) (s : HTTPClientState) (d : HTTPClient) : Prop :=
  s = .error ∨ afterHeaders s = true ∧ body.length ≤ (d.decodedBody.getD []).length

/-- A read decodes nothing and loses nothing decoded. -/
theorem decodes_receive {len : ℕ} {s : HTTPClientState} (hs : afterHeaders s = true)
    (hdec : body.length ≤ (c.decodedBody.getD []).length) :
    Outcome (Decodes body) (receive c len s (goto .error) (goto s)) :=
  .receive (Or.inr ⟨hs, hdec⟩) (Or.inl rfl) (.goto (Or.inl rfl))
    (fun _ => .goto (Or.inr ⟨hs, hdec⟩))

/-- The trailers step loses nothing decoded. -/
theorem decodes_trailers (hdec : body.length ≤ (c.decodedBody.getD []).length) :
    Outcome (Decodes body) (httpClientTrailers c) := by
  rw [httpClientTrailers]
  split
  · exact .goto (Or.inr ⟨rfl, hdec⟩)
  · simp only
    split
    · exact .goto (Or.inr ⟨rfl, hdec⟩)
    · exact decodes_receive rfl hdec

/-- The size-line step loses nothing decoded. -/
theorem decodes_decipherChonkiness (hdec : body.length ≤ (c.decodedBody.getD []).length) :
    Outcome (Decodes body) (httpClientWorktaskDecipherChonkiness c) := by
  rw [httpClientWorktaskDecipherChonkiness]
  simp only
  split
  · exact decodes_receive rfl hdec
  · refine .bind ?_
    intro size _
    split
    · exact .goto (Or.inl rfl)
    · split
      · exact decodes_trailers hdec
      · exact .goto (Or.inr ⟨rfl, hdec⟩)

/-- The step over the line end after a chunk loses nothing decoded. -/
theorem decodes_chunkEnd (hdec : body.length ≤ (c.decodedBody.getD []).length) :
    Outcome (Decodes body) (httpClientChunkEnd c) := by
  rw [httpClientChunkEnd]
  split
  · exact decodes_receive rfl hdec
  · split <;> exact .goto (Or.inr ⟨rfl, hdec⟩)

/-- The chunk step loses nothing decoded. -/
theorem decodes_readBodyChunked (hdec : body.length ≤ (c.decodedBody.getD []).length) :
    Outcome (Decodes body) (httpClientWorktaskReadBodyChunked c) := by
  rw [httpClientWorktaskReadBodyChunked]
  split
  · exact decodes_receive rfl hdec
  · split
    · exact .error
    · refine decodes_chunkEnd ?_
      simp only [Option.getD_some, List.length_append]
      omega

/-- The returning step loses nothing decoded. -/
theorem decodes_returning (hdec : body.length ≤ (c.decodedBody.getD []).length) :
    Outcome (Decodes body) (httpClientWorktaskReturning c) := by
  rw [httpClientWorktaskReturning]
  split
  · split <;> exact .goto (Or.inr ⟨rfl, hdec⟩)
  · split <;> exact .goto (Or.inr ⟨rfl, hdec⟩)

/-- After the headers the decoded body never gets shorter. -/
theorem decodes_work (hs : afterHeaders c.state = true)
    (hdec : body.length ≤ (c.decodedBody.getD []).length) :
    Outcome (Decodes body) (httpClientWork c) := by
  rw [httpClientWork]
  cases hstate : c.state with
  | decipherChonkiness => exact decodes_decipherChonkiness hdec
  | readingBodyChunked => exact decodes_readBodyChunked hdec
  | returning => exact decodes_returning hdec
  | disposing => exact .goto (Or.inr ⟨rfl, hdec⟩)
  | error => exact .goto (Or.inl rfl)
  | _ => rw [hstate] at hs; cases hs

/-! ### A client that has gone astray stays astray -/

/-- A step from a client that has decoded more than the body leads astray. -/
theorem Astray.of_longer (hs : afterHeaders c.state = true)
    (hdec : body.length < (c.decodedBody.getD []).length)
    (hstep : httpClientReadStep c = .ok c') : Astray b body c' := by
  obtain ⟨s, d, hwork, rfl⟩ := work_of_readStep hstep
  have hlen : (body ++ [0]).length ≤ (c.decodedBody.getD []).length := by
    rw [List.length_append]
    exact hdec
  rcases decodes_work hs hlen s d hwork with rfl | ⟨hs', hdec'⟩
  · exact .failed rfl
  · refine .longer hs' ?_
    rw [List.length_append] at hdec'
    exact hdec'

/-- A step from a size line with nothing left to read leads astray. -/
theorem Astray.of_drained (hs : c.state = .decipherChonkiness) (hun : c.unread = [])
    (hstep : httpClientReadStep c = .ok c') : Astray b body c' := by
  have hbuf : c.recvBuf = [] := (List.append_eq_nil_iff.mp hun).1
  have hwork : httpClientWork c =
      receive c 1023 .decipherChonkiness (goto .error) (goto .decipherChonkiness) := by
    rw [work_decipherChonkiness hs, httpClientWorktaskDecipherChonkiness, hbuf]
    exact if_pos (by decide)
  rcases waited (by omega) hwork hstep with herr | ⟨c₁, hf | rfl, rfl⟩
  · exact .failed herr
  · exact .drained rfl (hf.unread.trans hun)
  · exact .drained rfl hun

/-- The chunk-data worker with a positive size copies something, or goes on waiting. -/
theorem Astray.of_chunk (hs : c.state = .readingBodyChunked) (hrem : 0 < c.chunkRemaining)
    (hdec : c.decodedBody.getD [] = body) (hstep : httpClientReadStep c = .ok c') :
    Astray b body c' := by
  have hwork := work_readBodyChunked hs
  rw [httpClientWorktaskReadBodyChunked] at hwork
  split at hwork
  · rcases waited (by omega) hwork hstep with herr | ⟨c₁, hf | rfl, rfl⟩
    · exact .failed herr
    · exact .chunk rfl (by rwa [hf.chunkRemaining]) (hf.decodedBody ▸ hdec)
    · exact .chunk rfl hrem hdec
  · obtain ⟨s, d, hd, rfl⟩ := work_of_readStep hstep
    rw [hwork] at hd
    split at hd
    · cases hd
    · rename_i hle
      have hlen : (body ++ [0]).length ≤ (c.decodedBody.getD [] ++
          c.recvBuf.take c.chunkRemaining).length := by
        rw [hdec, List.length_append, List.length_append, List.length_take,
          List.length_singleton]
        omega
      rcases decodes_chunkEnd (c := { c with
        decodedBody := some (c.decodedBody.getD [] ++ c.recvBuf.take c.chunkRemaining)
        recvBuf := c.recvBuf.drop c.chunkRemaining
        chunkRemaining := 0 }) hlen s d hd with rfl | ⟨hs', hdec'⟩
      · exact .failed rfl
      · refine .longer hs' ?_
        rw [List.length_append] at hdec'
        exact hdec'

/-- The chunk-data worker with a size of zero looks for a line end at once. It finds one
only where the tail ends. -/
theorem Astray.of_empty {ls : List Line} (hs : c.state = .readingBodyChunked)
    (hrem : c.chunkRemaining = 0) (hun : c.unread = lineBlock ls ++ crlf)
    (hstep : httpClientReadStep c = .ok c') : Astray b body c' := by
  have hlong : toLong c.chunkRemaining = 0 := by
    rw [hrem]
    exact toLong_eq_self (n := 0) (by omega)
  have hwork := work_readBodyChunked hs
  rw [httpClientWorktaskReadBodyChunked, hlong, hrem, if_neg (by omega), if_neg (by omega),
    List.take_zero, List.drop_zero, httpClientChunkEnd] at hwork
  simp only at hwork
  split at hwork
  · rcases waited (by omega) hwork hstep with herr | ⟨c₁, hf | rfl, rfl⟩
    · exact .failed herr
    · exact .empty ls rfl hf.chunkRemaining (hf.unread.trans hun)
    · exact .empty ls rfl rfl hun
  · obtain ⟨s, d, hd, rfl⟩ := work_of_readStep hstep
    rw [hwork] at hd
    split at hd
    · rename_i hpre
      obtain ⟨rfl, rfl⟩ := Prod.mk.injEq .. ▸ Except.ok.inj hd
      obtain ⟨r, hr⟩ := hpre
      rw [HTTPClient.unread, ← hr, List.append_assoc] at hun
      cases ls with
      | nil =>
          rw [lineBlock_nil, List.nil_append, List.append_right_eq_self] at hun
          refine .drained rfl ?_
          rw [HTTPClient.unread, ← hr, List.drop_left' length_crlf]
          exact hun
      | cons l ls =>
          rw [lineBlock_cons_append] at hun
          exact absurd ⟨_, hun⟩ (l.not_starts_crlf _)
    · obtain ⟨rfl, rfl⟩ := Prod.mk.injEq .. ▸ Except.ok.inj hd
      exact .failed rfl

/-- The chunk-size worker takes the first line of the tail for a size line. -/
theorem Astray.of_line (hfirst : chunkSize b.tailLine ≠ .ok (some 0))
    (hs : c.state = .decipherChonkiness) (hun : c.unread = b.tail)
    (hdec : c.decodedBody.getD [] = body) (hstep : httpClientReadStep c = .ok c') :
    Astray b body c' := by
  obtain ⟨r, htail, hline, hshort, hr⟩ := b.tail_split
  rw [htail] at hun
  by_cases hlt : c.recvBuf.length < b.tailLine.length + 2
  · have hwork := (work_decipherChonkiness hs).trans (decipherChonkiness_waiting hun hline hlt)
    rcases waited (by omega) hwork hstep with herr | ⟨c₁, hf | rfl, rfl⟩
    · exact .failed herr
    · exact .line rfl ((hf.unread.trans hun).trans htail.symm) (hf.decodedBody ▸ hdec)
    · exact .line rfl (hun.trans htail.symm) hdec
  · rw [HTTPClient.unread, ← List.append_assoc b.tailLine] at hun
    obtain ⟨r', hr', hrest⟩ := List.exists_split_of_length_le hun
      (by rw [List.length_append, length_crlf]; omega)
    rw [List.append_assoc] at hr'
    obtain ⟨s, d, hwork, rfl⟩ := work_of_readStep hstep
    rw [work_decipherChonkiness hs, decipherChonkiness_complete hr' hline hshort] at hwork
    rcases hv : chunkSize b.tailLine with e | _ | v
    · rw [hv] at hwork
      cases hwork
    · rw [hv] at hwork
      obtain ⟨rfl, rfl⟩ := Prod.mk.injEq .. ▸ Except.ok.inj hwork
      exact .failed rfl
    · have hne : v ≠ 0 := by
        rintro rfl
        exact hfirst hv
      obtain ⟨ls, rfl⟩ : ∃ ls, r = lineBlock ls ++ crlf := by
        rcases hr with hnil | hls
        · rw [hnil] at hv
          cases hv
        · exact hls
      simp only [hv, if_neg hne] at hwork
      obtain ⟨rfl, rfl⟩ := Prod.mk.injEq .. ▸ Except.ok.inj hwork
      rcases Nat.eq_zero_or_pos (toSize (toInt v)) with hzero | hpos
      · exact .empty ls rfl hzero hrest
      · exact .chunk rfl hpos hdec

/-- **A client that has gone astray stays astray**, when the first trailer line does not
have the value zero as a size. -/
theorem Astray.step (hfirst : chunkSize b.tailLine ≠ .ok (some 0))
    (hc : Astray b body c) (hstep : httpClientReadStep c = .ok c') : Astray b body c' := by
  cases hc with
  | line hs hun hdec => exact .of_line hfirst hs hun hdec hstep
  | chunk hs hrem hdec => exact .of_chunk hs hrem hdec hstep
  | empty ls hs hrem hun => exact .of_empty hs hrem hun hstep
  | drained hs hun => exact .of_drained hs hun hstep
  | longer hs hdec => exact .of_longer hs hdec hstep
  | failed hs =>
      rw [readStep_of_final (Or.inl hs), Except.ok.injEq] at hstep
      exact .failed (hstep ▸ hs)

/-! ### The end of the message -/

/-- The run on these arrivals reaches `HTTP_CLIENT_RETURNING` with this body decoded. -/
def ReturnsWith (sink : Sink) (incoming : List Arrival) (body : Bytes) : Prop :=
  ∃ c, Reaches httpClientReadStep (start sink incoming) c ∧ c.state = .returning ∧
    c.decodedBody.getD [] = body

variable {sink : Sink} {h : Head} {incoming : List Arrival}

/-- A message whose tail is not cut is recognised. -/
theorem returnsWith_of_noCutIn (hstream : pendingOf incoming = h.bytes ++ b.bytes)
    (hend : headersEnd h.lines < 2 ^ 31) (hte : transferEncodingChunked h.headers = true)
    (hcut : NoCutIn sink incoming 0 b.tail.length) :
    ReturnsWith sink incoming (payload b.chunks) := by
  obtain ⟨c, hc, hlast, hdec, -, -⟩ := exists_lastRead sink
    (hstream.trans (congrArg (h.bytes ++ ·) (List.append_nil b.bytes).symm)) hend hte
  obtain ⟨r, -, hr⟩ := hlast.buffer
  rw [List.append_nil] at hr
  have hnil : c.pending = [] := by
    by_contra hne
    have hlen := congrArg List.length hr
    rw [List.length_append] at hlen
    exact hcut _ (List.length_pos_iff.mpr hne) (by omega) ⟨c, hc, rfl⟩
  obtain ⟨r', -, hstep⟩ := hlast.step_complete (by simp [hnil])
  exact ⟨_, hc.tail hstep, rfl, hdec⟩

/-- A message that is recognised has not been cut in its tail, when its first trailer line
does not have the value zero as a size. -/
theorem noCutIn_of_returnsWith (hstream : pendingOf incoming = h.bytes ++ b.bytes)
    (hend : headersEnd h.lines < 2 ^ 31) (hte : transferEncodingChunked h.headers = true)
    (hfirst : chunkSize b.tailLine ≠ .ok (some 0))
    (hret : ReturnsWith sink incoming (payload b.chunks)) :
    NoCutIn sink incoming 0 b.tail.length := by
  obtain ⟨c, hc, hlast, hdec, -, hall⟩ := exists_lastRead sink
    (hstream.trans (congrArg (h.bytes ++ ·) (List.append_nil b.bytes).symm)) hend hte
  have hpend : c.pending.length ≤ ([] : Bytes).length := by
    by_contra hlt
    obtain ⟨c', hstep, hs', hun', hdec'⟩ := hlast.step_incomplete (not_le.mp hlt)
    have hastray : Astray b (payload b.chunks) c' :=
      .line hs' (by rw [hun', List.append_nil]) (by rw [hdec', hdec])
    obtain ⟨y, hy, hys, hydec⟩ := hret
    rcases hy.total (hc.tail hstep) with hyc | hcy
    · rcases final_of_returning hys hyc with rfl | ⟨-, hs | hs⟩
      · rw [hys] at hs'; cases hs'
      · rw [hs'] at hs; cases hs
      · rw [hs'] at hs; cases hs
    · have := Reaches.invariant (I := Astray b (payload b.chunks))
        (fun x y hxy hx => hx.step hfirst hxy) hcy hastray
      exact this.ne_of_returning hys hydec
  rintro k hpos hle ⟨d, hd, rfl⟩
  rcases hlast.pending_cases hpend (hall d hd) with heq | hlt
  · rw [heq] at hpos
    rw [List.length_nil] at hpend
    omega
  · rw [List.append_nil] at hlt
    omega

/-- **The end of a chunked message.** The client recognises the message whenever no read
ends after the line of the last chunk and before the end of the message. When a read does
end there it does not, unless the trailer starts with a line that reads as a size line of
value zero. -/
theorem chunked_end_iff (sink : Sink) (h : Head) (b : ChunkedBody) (incoming : List Arrival)
    (hstream : pendingOf incoming = h.bytes ++ b.bytes) (hend : headersEnd h.lines < 2 ^ 31)
    (hte : transferEncodingChunked h.headers = true) :
    (NoCutIn sink incoming 0 b.tail.length →
        ReturnsWith sink incoming (payload b.chunks)) ∧
      (chunkSize b.tailLine ≠ .ok (some 0) →
        (ReturnsWith sink incoming (payload b.chunks) ↔
          NoCutIn sink incoming 0 b.tail.length)) :=
  ⟨returnsWith_of_noCutIn hstream hend hte, fun hfirst =>
    ⟨noCutIn_of_returnsWith hstream hend hte hfirst, returnsWith_of_noCutIn hstream hend hte⟩⟩

end ChunkedEnd

/-- The head of a chunked response. -/
def chunkedHead : Head := Head.ofFields statusOk [chunkedField] (by simp)

/-- One chunk, the last chunk, and no trailer. -/
def helloBody : ChunkedBody where
  chunks := [helloChunk.chunk (by decide)]
  last := ascii "0"
  trailers := []
  last_noCrlf := by decide
  last_short := by decide
  last_size := by decide
  trailers_short := by decide

/-- A read ends between the line of the last chunk and the empty line. -/
def helloTailCut : List Arrival :=
  [.data ⟨response statusOk [chunkedField] (helloChunk.bytes ++ ascii "0\r\n"),
      response_ne_nil _ _ _⟩,
    .data ⟨ascii "\r\n", by decide⟩]

/-- The same response in which the last chunk arrives in one read. -/
def helloTailWhole : List Arrival :=
  [.data ⟨response statusOk [chunkedField] helloChunk.bytes, response_ne_nil _ _ _⟩,
    .data ⟨ascii "0\r\n\r\n", by decide⟩]

/-- The message whose last chunk arrives in one read is recognised. -/
theorem chunked_end_whole : ReturnsWith .blocking helloTailWhole (ascii "hello") :=
  (chunked_end_iff .blocking chunkedHead helloBody helloTailWhole (by decide)
    (by decide) (by decide)).1
    (noCutIn_of_cuts (by decide) (by decide))

/-- The same message with a read that ends before the empty line is not recognised. -/
theorem chunked_end_cut_lost :
    pendingOf helloTailWhole = pendingOf helloTailCut ∧
      NoCutIn .blocking helloTailWhole 0 4 ∧
      ReturnsWith .blocking helloTailWhole (ascii "hello") ∧
      ¬ ReturnsWith .blocking helloTailCut (ascii "hello") := by
  have hstream : pendingOf helloTailCut = chunkedHead.bytes ++ helloBody.bytes := by decide
  have hcuts : NoCutIn .blocking helloTailWhole 0 4 :=
    noCutIn_of_cuts (by decide) (by decide)
  refine ⟨by decide, hcuts, ?_, ?_⟩
  · exact returnsWith_of_noCutIn (h := chunkedHead) (b := helloBody) (by decide)
      (by decide) (by decide) fun k hpos hle => hcuts k hpos (hle.trans (by decide))
  · intro hret
    have hno := noCutIn_of_returnsWith (h := chunkedHead) (b := helloBody) hstream
      (by decide) (by decide) (by decide) hret
    exact hno 2 (by omega) (by decide) ⟨_, reaches_of_run (n := 1) rfl, by decide⟩

end MaestroCore
