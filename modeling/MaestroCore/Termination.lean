import MaestroCore.ChunkSize
import MaestroCore.Conservation

/-!
# The Reading Phase Ends

On a stream that ends with a close every worker call makes progress: it reads, or removes
bytes from the buffer, or leads to one of the last states. The measure is the load of the
client together with a rank of its state. What can stop a run before its end is a fault. On
streams whose size lines stay below `2 ^ 31` two faults are left: a status code without a
standard phrase, whose `NULL` goes to `strcmp`, and a size token that does not fit its array.

## Main results

* `httpParserHeaders_exists_ok`: the header parser comes to a result on every block that the
  scanner finds.
* `ends_work`: a worker call without a fault makes progress.
* `reading_ends_iff`: the reading phase ends exactly on the runs without the two faults.
-/

open CLang Run

namespace MaestroCore

/-! ### The status line -/

/-- The code that a status line holds: the number between its first two spaces, and `0`
where that is no number. -/
def statusCode (line : Bytes) : Option ℤ :=
  match strchr 32 (cstr line) with
  | none => none
  | some (_, target) =>
      match strchr 32 target with
      | none => none
      | some (status, _) => (parseStringToInt status).toOption.map (·.getD 0)

/-- The line holds no code, or one with a standard phrase. -/
def CodeKnown (line : Bytes) : Prop :=
  ∀ code, statusCode line = some code → (httpStatusReasonPhrase code).isSome

/-- The line that the next read completes, if it completes one, is not too long and holds a
code with a standard phrase, or none. -/
def StatusKnown (c : HTTPClient) : Prop :=
  ∀ b t, transportRead c.transport 8095 = (.bytes b, t) →
    0 < httpParserFindLineEnd (c.recvBuf ++ b) → httpParserFindLineEnd (c.recvBuf ++ b) < 1024 →
    CodeKnown ((c.recvBuf ++ b).take (httpParserFindLineEnd (c.recvBuf ++ b)).toNat)

/-- The status line parser comes to a result exactly on the lines whose code is known. -/
theorem responseFirstline_exists_ok_iff {line : Bytes} (hlen : line.length < 2 ^ 31)
    (resp : HTTPResponse) :
    (∃ r, httpParserResponseFirstline line resp = .ok r) ↔ CodeKnown line := by
  rw [httpParserResponseFirstline, CodeKnown, statusCode]
  split
  · rename_i hnil
    simp [hnil, cstr, strchr]
  · rcases hs : strchr 32 (cstr line) with _ | ⟨version, target⟩
    · simp
    · simp only
      rcases hs' : strchr 32 target with _ | ⟨status, reason⟩
      · simp
      · have hcstr : (cstr line).length ≤ line.length := (List.takeWhile_prefix _).length_le
        have h1 := strchr_length hs
        have h2 := strchr_length hs'
        obtain ⟨n, hn⟩ : ∃ n, parseStringToInt status = .ok n :=
          ⟨_, parseStringToInt_eq (by omega)⟩
        simp only [hn, bind, Except.bind, Except.toOption, Option.map_some, Option.some.injEq,
          forall_eq']
        rcases httpStatusReasonPhrase (n.getD 0) with _ | phrase
        · simp
        · simp only [Option.isSome_some, iff_true]
          split <;> exact ⟨_, rfl⟩

/-! ### The header block -/

/-- The loop of the header parser comes to a result on a buffer of less than `2 ^ 32` bytes,
and what it has parsed lies below `2 ^ 31`. -/
theorem httpParserHeadersLoop_exists_ok {fuel start : ℕ} {rest : Bytes}
    {headers : List HTTPKeyValue} (hlen : start + rest.length < 2 ^ 32)
    (hheaders : ∀ h ∈ headers, h.value.length < 2 ^ 31) :
    ∃ r, httpParserHeadersLoop fuel start rest headers = .ok r ∧
      ∀ hs, r = .ok hs → ∀ h ∈ hs, h.value.length < 2 ^ 31 := by
  induction fuel generalizing start rest headers with
  | zero => exact ⟨_, rfl, fun hs heq => Except.ok.inj heq ▸ hheaders⟩
  | succ fuel ih =>
      have hdone : ∃ r, (.ok (.ok headers) : Except Fault (Except ErrorCode _)) = .ok r ∧
          ∀ hs, r = .ok hs → ∀ h ∈ hs, h.value.length < 2 ^ 31 :=
        ⟨_, rfl, fun hs heq => Except.ok.inj heq ▸ hheaders⟩
      rw [httpParserHeadersLoop]
      split
      · exact hdone
      · rename_i lineLen hocc
        have hle := List.firstOcc_add_length_le hocc
        rw [length_crlf] at hle
        simp only
        split
        · exact hdone
        · rename_i hnonneg
          -- A line end that is not negative as an `int` is the index itself.
          have hlt : start + lineLen < 2 ^ 31 := by
            by_contra hge
            exact hnonneg (toInt_neg (by omega) (by omega))
          rw [if_neg (by rw [← Nat.cast_add, toInt_eq_self hlt]; simp)]
          split
          · exact hdone
          · split
            · exact ⟨_, rfl, by simp⟩
            · rename_i header hheader
              have hvalue := httpParserHeaderLine_length hheader
              rw [List.length_take] at hvalue
              refine ih ?_ ?_
              · rw [List.length_drop]
                omega
              · intro h hmem
                rcases List.mem_append.mp hmem with hold | hnew
                · exact hheaders h hold
                · rw [List.mem_singleton.mp hnew]
                  omega

/-- **The header parser** comes to a result on every block that the scanner finds. -/
theorem httpParserHeaders_exists_ok {buf : Bytes} (hlen : buf.length < 2 ^ 32) :
    ∃ r, httpParserHeaders buf = .ok r ∧
      ∀ hs, r = .ok hs → ∀ h ∈ hs, h.value.length < 2 ^ 31 :=
  httpParserHeadersLoop_exists_ok (by omega) (by simp)

/-! ### Progress -/

/-- The call ends in the error state or makes the load smaller than `n`; on the way to the
delivery it need not make it smaller. The connection is still to be closed. -/
def Progresses (n : ℕ) (s : HTTPClientState) (d : HTTPClient) : Prop :=
  s = .error ∨ s.reading = true ∧ d.transport.ending = .closed ∧
    (d.load < n ∨ s = .returning ∧ d.load ≤ n)

/-- The worker comes to a result, which satisfies the postcondition. -/
def Yields (Q : HTTPClientState → HTTPClient → Prop) (w : Worked) : Prop :=
  ∃ s d, w = .ok (s, d) ∧ Q s d

/-- A worker that changes the state yields what holds of the new state and the client. -/
theorem Yields.goto {Q : HTTPClientState → HTTPClient → Prop} {s : HTTPClientState}
    {c : HTTPClient} (h : Q s c) : Yields Q (goto s c) := ⟨s, c, rfl, h⟩

/-- Going to the error state is progress. -/
theorem Yields.fail {n : ℕ} (c : HTTPClient) : Yields (Progresses n) (MaestroCore.goto .error c) :=
  .goto (Or.inl rfl)

/-- The rule for a read from a connection that is still to be closed. -/
theorem Yields.receive {c : HTTPClient} {len n : ℕ} (hlen : 0 < len) (hload : c.load ≤ n)
    (hend : c.transport.ending = .closed) {again : HTTPClientState}
    (hagain : again.reading = true) {onClosed onBytes : HTTPClient → Worked}
    (hclosed : Yields (Progresses n) (onClosed c))
    (hbytes : ∀ b t, transportRead c.transport len = (.bytes b, t) →
      Fetched c { c with transport := t, recvBuf := c.recvBuf ++ b } →
      Yields (Progresses n) (onBytes { c with transport := t, recvBuf := c.recvBuf ++ b })) :
    Yields (Progresses n) (receive c len again onClosed onBytes) := by
  have hread := transportRead_cases c.transport hlen
  rw [MaestroCore.receive]
  generalize hr : transportRead c.transport len = r at hread
  cases hread with
  | @bytes b t => exact hbytes b t hr (fetched_bytes hlen hr)
  | @retry e t he _ hend' hload' =>
      simp only [he, if_true]
      refine .goto (Or.inr ⟨hagain, hend'.trans hend, Or.inl ?_⟩)
      simp only [HTTPClient.load] at hload ⊢
      omega
  | idle _ hidle => rw [hend] at hidle; cases hidle
  | closed _ _ => exact hclosed
  | broken _ _ hbroken => rw [hend] at hbroken; cases hbroken

/-- A worker that only waits for bytes. -/
theorem Yields.wait {c : HTTPClient} {len n : ℕ} (hlen : 0 < len) (hload : c.load ≤ n)
    (hend : c.transport.ending = .closed) {again : HTTPClientState}
    (hagain : again.reading = true) :
    Yields (Progresses n)
      (MaestroCore.receive c len again (MaestroCore.goto .error) (MaestroCore.goto again)) := by
  refine .receive hlen hload hend hagain (.fail c) ?_
  intro b t _ hf
  exact .goto (Or.inr ⟨hagain, hf.ending.trans hend, Or.inl (hf.load_lt.trans_le hload)⟩)

/-- Removing bytes that are in the buffer makes the load smaller. -/
theorem load_drop {c d : HTTPClient} {k : ℕ} (hk : k ≤ c.recvBuf.length)
    (hbuf : d.recvBuf = c.recvBuf.drop k) (ht : d.transport = c.transport) :
    d.load + k = c.load := by
  rw [HTTPClient.load, HTTPClient.load, hbuf, ht, List.length_drop]
  omega

/-- Reading a status line with a known code is progress. -/
theorem ends_firstline {c : HTTPClient} {n : ℕ} (hload : c.load < n)
    (hend : c.transport.ending = .closed)
    (hknown : 0 < httpParserFindLineEnd c.recvBuf → httpParserFindLineEnd c.recvBuf < 1024 →
      CodeKnown (c.recvBuf.take (httpParserFindLineEnd c.recvBuf).toNat)) :
    Yields (Progresses n) (httpClientFirstline c) := by
  have hsame : Yields (Progresses n) (goto .readingFirstline c) :=
    .goto (Or.inr ⟨rfl, hend, Or.inl hload⟩)
  rw [httpClientFirstline]
  split
  · exact hsame
  · simp only
    split
    · split
      · exact .fail c
      · exact hsame
    · rename_i hfound
      split
      · exact .fail c
      · have hcode := hknown (by omega) (by omega)
        obtain ⟨⟨code, resp⟩, hparse⟩ := (responseFirstline_exists_ok_iff
          (by rw [List.length_take]; omega) c.resp).mpr hcode
        simp only [hparse, bind, Except.bind]
        split
        · exact .fail _
        · refine .goto (Or.inr ⟨rfl, hend, Or.inl ?_⟩)
          have := load_drop (removes_line (not_lt.mp hfound))
            (d := { c with
              resp := resp
              recvBuf := c.recvBuf.drop ((httpParserFindLineEnd c.recvBuf).toNat + 2) }) rfl rfl
          omega

/-- Consuming a complete header block is progress. -/
theorem ends_headersComplete {c : HTTPClient} (hend : c.transport.ending = .closed)
    (hfound : 0 ≤ httpParserFindHeadersEnd c.recvBuf) :
    Yields (Progresses c.load)
      (httpClientHeadersComplete c (httpParserFindHeadersEnd c.recvBuf).toNat) := by
  have hfits := removes_block hfound
  have hint : (httpParserFindHeadersEnd c.recvBuf).toNat < 2 ^ 31 := by
    rw [httpParserFindHeadersEnd]
    split
    · have := toInt_lt (by assumption : ℕ)
      omega
    · decide
  generalize (httpParserFindHeadersEnd c.recvBuf).toNat = k at hfits hint
  have hblock : (c.recvBuf.take (k + 4)).length < 2 ^ 32 := by
    rw [List.length_take]
    omega
  obtain ⟨r, hparse, hshort⟩ := httpParserHeaders_exists_ok hblock
  rcases r with e | headers
  · simp only [httpClientHeadersComplete, hparse, bind, Except.bind]
    exact .fail _
  · rw [httpClientHeadersComplete_of_parsed hparse (hshort headers rfl)]
    refine ⟨_, _, rfl, Or.inr ⟨?_, hend, Or.inl ?_⟩⟩
    · rw [framedState]
      split
      · rfl
      · split
        · split <;> rfl
        · rfl
    · have := load_drop hfits (d := framed c headers (c.recvBuf.drop (k + 4))) rfl rfl
      omega

/-- The headers step makes progress once the peer has closed. -/
theorem ends_readHeaders {c : HTTPClient} (hend : c.transport.ending = .closed) :
    Yields (Progresses c.load) (httpClientWorktaskReadHeaders c) := by
  rw [httpClientWorktaskReadHeaders]
  simp only
  split
  · rename_i h
    exact ends_headersComplete hend h.2
  · refine .receive (by omega) le_rfl hend rfl ?_ ?_
    · split
      · rename_i h
        exact ends_headersComplete hend h
      · exact .fail c
    · intro b t _ hf
      exact .goto (Or.inr ⟨rfl, hf.ending.trans hend, Or.inl hf.load_lt⟩)

/-- The trailers step makes progress once the peer has closed. -/
theorem ends_trailers {c : HTTPClient} {n : ℕ} (hload : c.load < n)
    (hend : c.transport.ending = .closed) : Yields (Progresses n) (httpClientTrailers c) := by
  rw [httpClientTrailers]
  split
  · rename_i h
    refine .goto (Or.inr ⟨rfl, hend, Or.inl ?_⟩)
    have := load_drop (two_le_of_crlf h) (d := { c with recvBuf := c.recvBuf.drop 2 }) rfl rfl
    omega
  · simp only
    split
    · rename_i h
      refine .goto (Or.inr ⟨rfl, hend, Or.inl ?_⟩)
      have := load_drop (removes_block h) (d := { c with
        recvBuf := c.recvBuf.drop ((httpParserFindHeadersEnd c.recvBuf).toNat + 4) }) rfl rfl
      omega
    · exact .wait (by omega) hload.le hend rfl

/-- The size-line step makes progress once the peer has closed, provided the size token ends in
time. -/
theorem ends_decipherChonkiness {c : HTTPClient} (hend : c.transport.ending = .closed)
    (htoken : TokenEnds c) :
    Yields (Progresses c.load) (httpClientWorktaskDecipherChonkiness c) := by
  have hfits := (chunkLineBuffer_iff c).mpr htoken
  rw [ne_eq, decipherChonkiness_error_iff] at hfits
  rw [httpClientWorktaskDecipherChonkiness]
  simp only
  split
  · exact .wait (by omega) le_rfl hend rfl
  · rename_i hfound
    have hload := load_drop (removes_line (not_lt.mp hfound)) (d := { c with
      recvBuf := c.recvBuf.drop ((httpParserFindLineEnd c.recvBuf).toNat + 2) }) rfl rfl
    rcases hsize : chunkSize (c.recvBuf.take (httpParserFindLineEnd c.recvBuf).toNat)
      with e | _ | size
    · obtain ⟨rfl, -⟩ := chunkSize_error_iff.mp hsize
      exact absurd ⟨not_lt.mp hfound, hsize⟩ hfits
    · exact .fail c
    · simp only [bind, Except.bind]
      split
      · exact ends_trailers (by omega) hend
      · exact .goto (Or.inr ⟨rfl, hend, Or.inl (by simp only [HTTPClient.load] at hload ⊢; omega)⟩)

/-- The step over the line end after a chunk makes progress once the peer has closed. -/
theorem ends_chunkEnd {c : HTTPClient} {n : ℕ} (hload : c.load ≤ n)
    (hend : c.transport.ending = .closed) : Yields (Progresses n) (httpClientChunkEnd c) := by
  rw [httpClientChunkEnd]
  split
  · exact .wait (by omega) hload hend rfl
  · split
    · rename_i h
      refine .goto (Or.inr ⟨rfl, hend, Or.inl ?_⟩)
      have := load_drop (two_le_of_crlf h) (d := { c with recvBuf := c.recvBuf.drop 2 }) rfl rfl
      omega
    · exact .fail c

/-- The chunk step makes progress once the peer has closed, provided it does not read past the
buffer. -/
theorem ends_readBodyChunked {c : HTTPClient} (hend : c.transport.ending = .closed)
    (hcopy : httpClientWorktaskReadBodyChunked c ≠ .error .recvBufOverread) :
    Yields (Progresses c.load) (httpClientWorktaskReadBodyChunked c) := by
  rw [httpClientWorktaskReadBodyChunked] at hcopy ⊢
  split
  · exact .wait (by omega) le_rfl hend rfl
  · rename_i hwait
    rw [if_neg hwait] at hcopy
    split
    · rename_i hlt
      exact absurd (if_pos hlt) hcopy
    · rename_i hle
      have hload := load_drop (not_lt.mp hle) (d := { c with
        decodedBody := some (c.decodedBody.getD [] ++ c.recvBuf.take c.chunkRemaining)
        recvBuf := c.recvBuf.drop c.chunkRemaining
        chunkRemaining := 0 }) rfl rfl
      exact ends_chunkEnd (by omega) hend

/-- The step over a body of known or open length makes progress once the peer has closed. -/
theorem ends_readBody {c : HTTPClient} (hend : c.transport.ending = .closed) :
    Yields (Progresses c.load) (httpClientWorktaskReadBody c) := by
  refine .receive (by omega) le_rfl hend rfl ?_ ?_
  · split
    · exact .fail c
    · exact .goto (Or.inr ⟨rfl, hend, Or.inr ⟨rfl, le_rfl⟩⟩)
  · intro b t _ hf
    have hend' := hf.ending.trans hend
    split
    · exact .goto (Or.inr ⟨rfl, hend', Or.inl hf.load_lt⟩)
    · exact .goto (Or.inr ⟨rfl, hend', Or.inl hf.load_lt⟩)

/-- **A worker call without a fault makes progress.** -/
theorem ends_work {c : HTTPClient} (hs : c.state.reading = true) (hret : c.state ≠ .returning)
    (hend : c.transport.ending = .closed)
    (hknown : c.state = .readingFirstline → StatusKnown c)
    (htoken : c.state = .decipherChonkiness → TokenEnds c)
    (hcopy : c.state = .readingBodyChunked →
      httpClientWorktaskReadBodyChunked c ≠ .error .recvBufOverread) :
    Yields (Progresses c.load) (httpClientWork c) := by
  rw [httpClientWork]
  cases hstate : c.state with
  | readingFirstline =>
      refine .receive (by omega) le_rfl hend rfl (.fail c) ?_
      intro b t hread hf
      exact ends_firstline hf.load_lt (hf.ending.trans hend) (hknown hstate b t hread)
  | readingHeaders => exact ends_readHeaders hend
  | decipherChonkiness => exact ends_decipherChonkiness hend (htoken hstate)
  | readingBodyChunked => exact ends_readBodyChunked hend (hcopy hstate)
  | readingBody => exact ends_readBody hend
  | returning => exact absurd hstate hret
  | _ => rw [hstate] at hs; cases hs

/-! ### Whole runs -/

/-- Every size line that the run completes evaluates to less than `2 ^ 31`. -/
def SmallSizes (sink : Sink) (incoming : List Arrival) : Prop :=
  ∀ c, Reaches httpClientReadStep (start sink incoming) c → c.state = .decipherChonkiness →
    0 ≤ httpParserFindLineEnd c.recvBuf →
    ∀ v ∈ strtoull 16 (cstr (sizeToken (c.recvBuf.take (httpParserFindLineEnd c.recvBuf).toNat))),
      v.1 < 2 ^ 31

/-- A small size passes through the conversions unchanged. -/
theorem chunkSize_small {line : Bytes} {v : ℤ} (h : chunkSize line = .ok (some v))
    (hsmall : ∀ v ∈ strtoull 16 (cstr (sizeToken line)), v.1 < 2 ^ 31) :
    toSize (toInt v) < 2 ^ 31 := by
  rw [chunkSize] at h
  split at h
  · cases h
  · split at h
    · cases h
    · split at h
      · cases h
      · rename_i n rest hn
        have hlt : n < 2 ^ 31 := hsmall (n, rest) hn
        obtain rfl := Option.some.inj (Except.ok.inj h)
        rw [toLong_eq_self (by omega), toInt_eq_self hlt, toSize_eq_self (by omega)]
        exact hlt

/-- The conditions under which no worker call of the run stops with a fault. -/
def NoFault (sink : Sink) (incoming : List Arrival) : Prop :=
  ∀ c, Reaches httpClientReadStep (start sink incoming) c →
    (c.state = .readingFirstline → StatusKnown c) ∧
    (c.state = .decipherChonkiness → TokenEnds c)

/-- The measure of a run: nothing is left to do in the last states, and the delivery comes
after all other calls. -/
def HTTPClient.remaining (c : HTTPClient) : ℕ :=
  if c.state.reading then 2 * c.load + (if c.state = .returning then 1 else 2) else 0

/-- The client has finished. -/
def Finished (c : HTTPClient) : Prop := c.state = .disposing ∨ c.state = .error

/-- A finished client has nothing left to do. -/
theorem Finished.remaining {c : HTTPClient} (h : Finished c) : c.remaining = 0 := by
  rcases h with hs | hs <;> simp [HTTPClient.remaining, hs, HTTPClientState.reading]

/-- **One step of a run without faults** finishes, or makes the measure smaller. -/
theorem readStep_progress {c : HTTPClient} (hs : c.state.reading = true)
    (hend : c.transport.ending = .closed)
    (hknown : c.state = .readingFirstline → StatusKnown c)
    (htoken : c.state = .decipherChonkiness → TokenEnds c)
    (hcopy : c.state = .readingBodyChunked →
      httpClientWorktaskReadBodyChunked c ≠ .error .recvBufOverread) :
    ∃ d, httpClientReadStep c = .ok d ∧ d.remaining < c.remaining ∧
      (Finished d ∨ d.state.reading = true ∧ d.transport.ending = .closed) := by
  have hpos : 0 < c.remaining := by
    rw [HTTPClient.remaining, if_pos hs]
    split <;> omega
  by_cases hret : c.state = .returning
  · obtain ⟨d, hstep, hfin⟩ : ∃ d, httpClientReadStep c = .ok d ∧ Finished d := by
      have hwork : httpClientWork c = httpClientWorktaskReturning c := by
        rw [httpClientWork, hret]
      rw [httpClientWorktaskReturning] at hwork
      split at hwork
      · split at hwork
        · exact ⟨_, readStep_of_work hwork, Or.inr rfl⟩
        · exact ⟨_, readStep_of_work hwork, Or.inl rfl⟩
      · split at hwork
        · exact ⟨_, readStep_of_work hwork, Or.inl rfl⟩
        · exact ⟨_, readStep_of_work hwork, Or.inr rfl⟩
    exact ⟨d, hstep, hfin.remaining ▸ hpos, Or.inl hfin⟩
  · obtain ⟨s, d, hwork, hprog⟩ := ends_work hs hret hend hknown htoken hcopy
    refine ⟨_, readStep_of_work hwork, ?_⟩
    rcases hprog with rfl | ⟨hs', hend', hload⟩
    · have hfin : Finished { d with state := .error } := Or.inr rfl
      exact ⟨hfin.remaining ▸ hpos, Or.inl hfin⟩
    · refine ⟨?_, Or.inr ⟨hs', hend'⟩⟩
      have hload' : ∀ d' : HTTPClient, d' = { d with state := s } → d'.load = d.load := by
        rintro d' rfl
        rfl
      simp only [HTTPClient.remaining, hs, hs', if_true, if_neg hret, hload' _ rfl]
      rcases hload with hlt | ⟨rfl, hle⟩
      · split <;> omega
      · simp only [if_true]
        omega

/-- A run without faults on a stream that ends with a close comes to its end. -/
theorem exists_finished {sink : Sink} {incoming : List Arrival}
    (hclosed : endingOf incoming = .closed) (hsmall : SmallSizes sink incoming)
    (hno : NoFault sink incoming) :
    ∃ c, Reaches httpClientReadStep (start sink incoming) c ∧ Finished c := by
  have hstep : ∀ x, (Reaches httpClientReadStep (start sink incoming) x ∧
      (Finished x ∨ x.state.reading = true ∧ x.transport.ending = .closed)) → ¬ Finished x →
      ∃ y, httpClientReadStep x = .ok y ∧
        (Reaches httpClientReadStep (start sink incoming) y ∧
          (Finished y ∨ y.state.reading = true ∧ y.transport.ending = .closed)) ∧
        y.remaining < x.remaining := by
    rintro x ⟨hx, hI⟩ hnot
    obtain ⟨hs, hend⟩ := hI.resolve_left hnot
    obtain ⟨hknown, htoken⟩ := hno x hx
    have hcopy : x.state = .readingBodyChunked →
        httpClientWorktaskReadBodyChunked x ≠ .error .recvBufOverread := by
      intro hxs
      have hlt := chunkRemaining_lt (fun y hy hys hyend v hv =>
        chunkSize_small hv (hsmall y hy hys hyend)) hx hxs
      exact readBodyChunked_ne_overread (by omega)
    obtain ⟨y, hy, hlt, hI⟩ := readStep_progress hs hend hknown htoken hcopy
    exact ⟨y, hy, ⟨hx.tail hy, hI⟩, hlt⟩
  obtain ⟨c, hc, -, hfin⟩ := exists_reaches_of_measure HTTPClient.remaining hstep
    ⟨.refl _, Or.inr ⟨rfl, hclosed⟩⟩
  exact ⟨c, hc, hfin⟩

/-- A status line that a worker call completes without a fault holds a known code. -/
theorem statusKnown_of_step {c d : HTTPClient} (hs : c.state = .readingFirstline)
    (h : httpClientReadStep c = .ok d) : StatusKnown c := by
  intro b t hread hpos hlt
  obtain ⟨s, d', hwork, -⟩ := work_of_readStep h
  rw [httpClientWork, hs] at hwork
  simp only [httpClientWorktaskReadFirstline, receive, hread, bufferAppend] at hwork
  by_contra hunknown
  have hne : c.recvBuf ++ b ≠ [] := by
    intro hnil
    rw [hnil] at hpos
    exact absurd hpos (by decide)
  have hnone : ∀ r, httpParserResponseFirstline
      ((c.recvBuf ++ b).take (httpParserFindLineEnd (c.recvBuf ++ b)).toNat) c.resp ≠ .ok r := by
    intro r hr
    exact hunknown ((responseFirstline_exists_ok_iff (by rw [List.length_take]; omega)
      c.resp).mp ⟨r, hr⟩)
  rw [httpClientFirstline, if_neg hne] at hwork
  simp only at hwork
  rw [if_neg (by omega), if_neg (by omega)] at hwork
  rcases hr : httpParserResponseFirstline
      ((c.recvBuf ++ b).take (httpParserFindLineEnd (c.recvBuf ++ b)).toNat) c.resp with e | r
  · rw [hr] at hwork
    cases hwork
  · exact hnone r hr

/-- A size line that a worker call completes without a fault has a token that fits. -/
theorem tokenEnds_of_step {c d : HTTPClient} (hs : c.state = .decipherChonkiness)
    (h : httpClientReadStep c = .ok d) : TokenEnds c := by
  rw [← chunkLineBuffer_iff]
  intro hfault
  obtain ⟨s, d', hwork, -⟩ := work_of_readStep h
  rw [httpClientWork, hs] at hwork
  rw [hfault] at hwork
  cases hwork

/-- **The reading phase ends.** On a stream that ends with a close, and whose size lines
stay below `2 ^ 31`, the client comes to `HTTP_CLIENT_DISPOSING` or `HTTP_CLIENT_ERROR`
exactly when every status line it completes holds a code with a standard phrase, or none, and
every size line it completes has a token that fits its array. -/
theorem reading_ends_iff (sink : Sink) (incoming : List Arrival)
    (hclosed : endingOf incoming = .closed) (hsmall : SmallSizes sink incoming) :
    (∃ c, Reaches httpClientReadStep (start sink incoming) c ∧
      (c.state = .disposing ∨ c.state = .error)) ↔
    ∀ c, Reaches httpClientReadStep (start sink incoming) c →
      (c.state = .readingFirstline → StatusKnown c) ∧
      (c.state = .decipherChonkiness → TokenEnds c) := by
  constructor
  · rintro ⟨c, hc, hfin⟩ x hx
    obtain ⟨d, hd⟩ := hc.exists_step (readStep_of_final hfin.symm) hx
    exact ⟨fun hs => statusKnown_of_step hs hd, fun hs => tokenEnds_of_step hs hd⟩
  · exact exists_finished hclosed hsmall

/-- A chunked response that is cut inside its chunk, followed by a close. -/
def helloClosed : List Arrival := helloChunked ++ [.closed]

/-- The client comes to the end of this response, and meets no fault on the way. -/
theorem reading_ends_hello : SmallSizes .blocking helloClosed ∧ NoFault .blocking helloClosed := by
  have hsmall : SmallSizes .blocking helloClosed :=
    forall_reaches_of_run (n := 10) rfl rfl (by decide)
  refine ⟨hsmall, (reading_ends_iff .blocking helloClosed (by decide) hsmall).mp ?_⟩
  exact ⟨_, reaches_of_run (n := 10) rfl, by decide⟩

/-- A response with the status code 299, for which there is no standard phrase. -/
def unknownCode : List Arrival :=
  [.data ⟨ascii "HTTP/1.1 299 OK\r\n\r\n", by decide⟩, .closed]

/-- The client stops with a fault in the status line of this response, and so never comes
to its end. -/
theorem reading_stops_at_unknown_code :
    endingOf unknownCode = .closed ∧ SmallSizes .blocking unknownCode ∧
      ¬ ∃ c, Reaches httpClientReadStep (start .blocking unknownCode) c ∧
        (c.state = .disposing ∨ c.state = .error) := by
  have hfault : httpClientReadStep (start .blocking unknownCode) = .error .reasonPhraseNull := by
    decide
  refine ⟨rfl, ?_, ?_⟩
  · intro c hc hs
    rw [hc.eq_of_fault hfault] at hs
    cases hs
  · rintro ⟨c, hc, hs⟩
    rw [hc.eq_of_fault hfault] at hs
    rcases hs with hs | hs <;> cases hs

end MaestroCore
