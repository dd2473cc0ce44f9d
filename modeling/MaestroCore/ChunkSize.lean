import MaestroCore.ChunkedEnd

/-!
# Chunk Sizes

The size of a chunk comes from the peer and passes through `strtoull`, which accepts a
sign and saturates, and through conversions to `ssize_t`, `int` and `size_t`. The size
token is copied into an array of 48 bytes first. This module says for which buffers the
token fits the array, and for which lines the client takes the number that the line writes.

## Main results

* `chunkLineBuffer_iff`: the copy of the size token stays inside the array exactly when the
  line end or a delimiter stands among the first bytes of the buffer.
* `chunk_size_honoured_iff`: the client takes the number written, or rejects the line,
  exactly when the number is from 0 to `INT_MAX` and its token is short enough; and on a
  run with such lines only, no chunk is copied beyond the buffer.
-/

open CLang Run

namespace MaestroCore

/-! ### The copy of the size token -/

/-- The chunk-size worker takes its first 48 bytes into account: the line end or a
delimiter stands among them. -/
def TokenEnds (c : HTTPClient) : Prop :=
  httpParserFindLineEnd c.recvBuf < lineSize ∨
    ∃ x ∈ c.recvBuf.take lineSize, isSizeDelimiter x = true

/-- A token shorter than `n` bytes ends with the list or at a delimiter. -/
theorem length_takeWhile_lt_iff {p : UInt8 → Bool} {l : Bytes} {n : ℕ} :
    (l.takeWhile p).length < n ↔ l.length < n ∨ ∃ x ∈ l.take n, p x = false := by
  induction l generalizing n with
  | nil => simp
  | cons x l ih =>
      cases n with
      | zero => simp
      | succ n =>
          cases hx : p x with
          | true =>
              rw [List.takeWhile_cons_of_pos hx, List.length_cons, Nat.succ_lt_succ_iff, ih]
              simp [hx]
          | false => simp [hx]

/-- A read has no fault. -/
theorem receive_ne_error {c : HTTPClient} {len : ℕ} {s : HTTPClientState} {e : Fault} :
    receive c len s (goto .error) (goto s) ≠ .error e := by
  rw [receive]
  rcases transportRead c.transport len with ⟨_ | _ | e', t⟩ <;> simp [goto]

/-- What comes after the last size line is read without a fault. -/
theorem httpClientTrailers_ne_error {c : HTTPClient} {e : Fault} :
    httpClientTrailers c ≠ .error e := by
  rw [httpClientTrailers]
  split
  · simp [goto]
  · simp only
    split
    · simp [goto]
    · exact receive_ne_error

/-- A size line faults exactly when its token does not fit the array. -/
theorem chunkSize_error_iff {line : Bytes} {e : Fault} :
    chunkSize line = .error e ↔ e = .chunkLineBuffer ∧ lineSize ≤ (sizeToken line).length := by
  rw [chunkSize]
  split
  · rename_i hnil
    simp [hnil, lineSize]
  · split
    · rename_i hlong
      simp only [Except.error.injEq]
      exact ⟨fun he => ⟨he.symm, by omega⟩, fun he => he.1.symm⟩
    · rename_i hfits
      have hlt : ¬ lineSize ≤ (sizeToken line).length := by omega
      split <;> simp [hlt]

/-- The worker faults exactly when its size line does. -/
theorem decipherChonkiness_error_iff {c : HTTPClient} {e : Fault} :
    httpClientWorktaskDecipherChonkiness c = .error e ↔
      0 ≤ httpParserFindLineEnd c.recvBuf ∧
        chunkSize (c.recvBuf.take (httpParserFindLineEnd c.recvBuf).toNat) = .error e := by
  rw [httpClientWorktaskDecipherChonkiness]
  simp only
  split
  · rename_i hneg
    exact ⟨fun h => absurd h receive_ne_error, fun h => by omega⟩
  · rename_i hnonneg
    simp only [not_lt.mp hnonneg, true_and]
    rcases chunkSize (c.recvBuf.take (httpParserFindLineEnd c.recvBuf).toNat) with e' | _ | v
    · simp [bind, Except.bind]
    · simp [bind, Except.bind, goto]
    · simp only [bind, Except.bind, reduceCtorEq, iff_false]
      split
      · exact httpClientTrailers_ne_error
      · simp [goto]

/-- A line end is found within the buffer. -/
theorem httpParserFindLineEnd_le (buf : Bytes) : httpParserFindLineEnd buf ≤ buf.length := by
  rw [httpParserFindLineEnd]
  split
  · rename_i i hocc
    have hle := List.firstOcc_add_length_le hocc
    have := toInt_le i
    omega
  · omega

/-- **The copy of the size token** goes beyond the array exactly when neither the line end
nor a delimiter stands among the first 48 bytes. -/
theorem chunkLineBuffer_iff (c : HTTPClient) :
    httpClientWorktaskDecipherChonkiness c ≠ .error .chunkLineBuffer ↔ TokenEnds c := by
  have hle := httpParserFindLineEnd_le c.recvBuf
  rw [ne_eq, decipherChonkiness_error_iff, chunkSize_error_iff, TokenEnds, sizeToken]
  simp only [true_and, not_and, not_le, length_takeWhile_lt_iff, List.length_take,
    List.take_take, Bool.not_eq_false']
  generalize httpParserFindLineEnd c.recvBuf = lineEnd at hle
  by_cases hlt : lineEnd < lineSize
  · simp only [hlt, true_or, iff_true]
    intro hnonneg
    exact Or.inl (by omega)
  · have hmin : min lineSize lineEnd.toNat = lineSize := by omega
    simp only [hlt, false_or, hmin]
    constructor
    · intro h
      rcases h (by omega) with hshort | hx
      · omega
      · exact hx
    · exact fun hx _ => Or.inr hx

/-! ### The number that a size line writes -/

/-- The number at the start of a size line, with the sign and the prefix that `strtoull`
accepts and without its bounds. -/
def sizeNumber (line : Bytes) : Option ℤ :=
  (scanInt 16 (cstr (sizeToken line))).map fun n =>
    if n.negative then -n.magnitude else n.magnitude

/-- The size line is one that the client handles as it is written. -/
def SizeOk (line : Bytes) : Prop :=
  (sizeToken line).length < lineSize ∧ ∀ n, sizeNumber line = some n → 0 ≤ n ∧ n ≤ intMax

/-- The size of a line whose token fits the array. -/
theorem chunkSize_of_fits {line : Bytes} (hfits : (sizeToken line).length < lineSize) :
    chunkSize line = .ok ((scanInt 16 (cstr (sizeToken line))).map fun n =>
      toLong (if 2 ^ 64 ≤ n.magnitude then 2 ^ 64 - 1
        else if n.negative then (2 ^ 64 - n.magnitude) % 2 ^ 64 else n.magnitude : ℕ)) := by
  rw [chunkSize]
  split
  · rename_i hnil
    rw [hnil]
    rfl
  · rw [if_neg (by omega), strtoull]
    rcases scanInt 16 (cstr (sizeToken line)) with _ | n <;> rfl

/-- A line that is handled as written has the size that it writes, or none. -/
theorem SizeOk.chunkSize_eq {line : Bytes} (h : SizeOk line) :
    chunkSize line = .ok (sizeNumber line) := by
  rw [chunkSize_of_fits h.1]
  have hbound := h.2
  rw [sizeNumber] at hbound ⊢
  rcases hscan : scanInt 16 (cstr (sizeToken line)) with _ | ⟨negative, m, rest⟩
  · rfl
  · rw [hscan] at hbound
    obtain ⟨hmin, hmax⟩ := hbound _ rfl
    rw [intMax] at hmax
    simp only [Option.map_some] at hmin hmax ⊢
    cases negative with
    | true =>
        have hmin' : 0 ≤ -(m : ℤ) := hmin
        obtain rfl : m = 0 := by omega
        rfl
    | false =>
        simp only [Bool.false_eq_true, if_false] at hmin hmax ⊢
        rw [if_neg (by omega), toLong_eq_self (by omega)]

/-- What a client owes a size line that is complete in its buffer: it rejects the line, or
takes exactly the number that the line writes, and then copies no more than it has. -/
def Honoured (line : Bytes) : Prop :=
  ∀ (c : HTTPClient) (rest : Bytes), c.recvBuf = line ++ (crlf ++ rest) →
    ∃ s c', httpClientWorktaskDecipherChonkiness c = .ok (s, c') ∧
      (s = .error ∨ ∃ n : ℕ, sizeNumber line = some n ∧
        (n ≠ 0 → s = .readingBodyChunked) ∧
        (s = .readingBodyChunked → c'.chunkRemaining = n)) ∧
      (s = .readingBodyChunked →
        httpClientWorktaskReadBodyChunked c' ≠ .error .recvBufOverread)

/-- A read has a result. -/
theorem receive_exists_ok (c : HTTPClient) (len : ℕ) (s : HTTPClientState) :
    ∃ s' c', receive c len s (goto .error) (goto s) = .ok (s', c') := by
  rw [receive]
  rcases transportRead c.transport len with ⟨_ | _ | e', t⟩ <;> exact ⟨_, _, rfl⟩

/-- The end of a message is no chunk. -/
theorem httpClientTrailers_exists_ok (c : HTTPClient) :
    ∃ s c', httpClientTrailers c = .ok (s, c') ∧ s ≠ .readingBodyChunked := by
  rw [httpClientTrailers]
  split
  · exact ⟨_, _, rfl, by simp⟩
  · simp only
    split
    · exact ⟨_, _, rfl, by simp⟩
    · obtain ⟨s, c', h⟩ := receive_exists_ok c 1023 .decipherChonkiness
      refine ⟨s, c', h, ?_⟩
      rcases receive_outcome (by omega) h with rfl | ⟨rfl, -⟩ <;> simp

/-- A chunk of less than `2 ^ 63` bytes is not copied beyond the buffer. -/
theorem readBodyChunked_ne_overread {c : HTTPClient} (h : c.chunkRemaining < 2 ^ 63) :
    httpClientWorktaskReadBodyChunked c ≠ .error .recvBufOverread := by
  rw [httpClientWorktaskReadBodyChunked, toLong_eq_self h]
  split
  · exact receive_ne_error
  · rw [if_neg (by omega), httpClientChunkEnd]
    split
    · exact receive_ne_error
    · split <;> simp [goto]

/-- A size that passes through the conversions unharmed is honoured. -/
theorem SizeOk.honoured {line : Bytes} (h : SizeOk line) (hline : NoCrlf line)
    (hshort : line.length < 2 ^ 31) : Honoured line := by
  intro c rest hbuf
  rw [decipherChonkiness_complete hbuf hline hshort, h.chunkSize_eq]
  cases hn : sizeNumber line with
  | none => exact ⟨_, _, rfl, Or.inl rfl, by simp⟩
  | some v =>
      obtain ⟨hmin, hmax⟩ := h.2 v hn
      obtain ⟨n, rfl⟩ := Int.eq_ofNat_of_zero_le hmin
      rw [intMax] at hmax
      simp only
      by_cases hzero : (n : ℤ) = 0
      · rw [if_pos hzero]
        obtain ⟨s, c', htr, hs⟩ := httpClientTrailers_exists_ok { c with recvBuf := rest }
        exact ⟨s, c', htr, Or.inr ⟨n, rfl, fun hne => absurd (by exact_mod_cast hzero) hne,
          fun h => absurd h hs⟩, fun h => absurd h hs⟩
      · have hsize : toSize (toInt n) = n := by
          rw [toInt_eq_self (by omega), toSize_eq_self (by omega)]
        rw [if_neg hzero]
        refine ⟨_, _, rfl, Or.inr ⟨n, rfl, fun _ => rfl, fun _ => hsize⟩, ?_⟩
        intro _
        refine readBodyChunked_ne_overread ?_
        simp only [hsize]
        omega

/-- The value of `strtoull` for a number that is not handled as written is not zero. -/
theorem strtoull_value_pos {negative : Bool} {m : ℕ}
    (hout : ¬ (0 ≤ (if negative then -(m : ℤ) else m) ∧
      (if negative then -(m : ℤ) else m) ≤ intMax)) :
    0 < (if 2 ^ 64 ≤ m then 2 ^ 64 - 1 else if negative then (2 ^ 64 - m) % 2 ^ 64 else m) ∧
      (if 2 ^ 64 ≤ m then 2 ^ 64 - 1 else if negative then (2 ^ 64 - m) % 2 ^ 64 else m) <
        2 ^ 64 := by
  rw [intMax] at hout
  cases negative with
  | true =>
      simp only [if_true] at hout ⊢
      split <;> omega
  | false =>
      simp only [Bool.false_eq_true, if_false] at hout ⊢
      split <;> omega

/-- A chunk size that is at least `2 ^ 63` makes the client copy beyond an empty buffer. -/
theorem readBodyChunked_overread {c : HTTPClient} (hbuf : c.recvBuf = [])
    (hmin : 2 ^ 63 ≤ c.chunkRemaining) (hmax : c.chunkRemaining < 2 ^ 64) :
    httpClientWorktaskReadBodyChunked c = .error .recvBufOverread := by
  have hneg := toLong_neg hmin hmax
  rw [httpClientWorktaskReadBodyChunked, hbuf, List.length_nil]
  rw [if_neg (by omega), if_pos (by omega)]

/-- A size that is honoured has passed through the conversions unharmed. -/
theorem Honoured.sizeOk {line : Bytes} (h : Honoured line) (hline : NoCrlf line)
    (hshort : line.length < 2 ^ 31) : SizeOk line := by
  obtain ⟨s, c', hwork, hnum, hcopy⟩ :=
    h { start .blocking [] with recvBuf := line ++ (crlf ++ []) } [] rfl
  rw [decipherChonkiness_complete rfl hline hshort] at hwork
  have hfits : (sizeToken line).length < lineSize := by
    by_contra hlong
    rw [chunkSize_error_iff.mpr ⟨rfl, not_lt.mp hlong⟩] at hwork
    cases hwork
  refine ⟨hfits, ?_⟩
  intro n hn
  by_contra hout
  rw [chunkSize_of_fits hfits] at hwork
  have hn' := hn
  rw [sizeNumber] at hn'
  rcases hscan : scanInt 16 (cstr (sizeToken line)) with _ | ⟨negative, m, rest⟩
  · rw [hscan] at hn'
    cases hn'
  · rw [hscan, Option.map_some, Option.some.injEq] at hn'
    rw [← hn'] at hout
    obtain ⟨hpos, hlt⟩ := strtoull_value_pos hout
    -- The line is taken for a chunk, with the converted value.
    simp only [hscan, Option.map_some, if_neg (toLong_ne_zero hpos hlt)] at hwork
    obtain ⟨rfl, rfl⟩ := Prod.mk.injEq .. ▸ Except.ok.inj hwork
    rcases hnum with hs | ⟨k, hk, -, hrem⟩
    · cases hs
    · have hk' : n = k := Option.some.inj (hn.symm.trans hk)
      have hrem := hrem rfl
      have hbig : 2 ^ 31 ≤ k := by
        rw [hn', hk', intMax] at hout
        omega
      have hcases := toSize_toInt_cases (toLong (if 2 ^ 64 ≤ m then 2 ^ 64 - 1
        else if negative then (2 ^ 64 - m) % 2 ^ 64 else m : ℕ))
      simp only at hrem
      rw [hrem] at hcases
      refine hcopy rfl (readBodyChunked_overread rfl ?_ ?_)
      · simp only [hrem]
        omega
      · simp only [hrem]
        omega

/-! ### Runs with such lines only -/

/-- The worker does not go to `HTTP_CLIENT_READING_BODY_CHUNKED`. -/
def NoChunk (s : HTTPClientState) (_ : HTTPClient) : Prop := s ≠ .readingBodyChunked

/-- The status line does not lead to a chunk. -/
theorem noChunk_firstline (c : HTTPClient) : Outcome NoChunk (httpClientFirstline c) := by
  rw [httpClientFirstline]
  split
  · exact .goto (by simp [NoChunk])
  · simp only
    split
    · split <;> exact .goto (by simp [NoChunk])
    · split
      · exact .goto (by simp [NoChunk])
      · refine .bind ?_
        intro r _
        split <;> exact .goto (by simp [NoChunk])

/-- The end of the header block does not lead to a chunk. -/
theorem noChunk_headersComplete (c : HTTPClient) (k : ℕ) :
    Outcome NoChunk (httpClientHeadersComplete c k) := by
  rw [httpClientHeadersComplete]
  refine .bind ?_
  intro parsed _
  split
  · exact .goto (by simp [NoChunk])
  · simp only
    split
    · exact .goto (by simp [NoChunk])
    · split
      · exact .goto (by simp [NoChunk])
      · refine .bind ?_
        intro cl _
        split
        · split <;> exact .goto (by simp [NoChunk])
        · exact .goto (by simp [NoChunk])

/-- A read does not lead to a chunk when what comes after it does not. -/
theorem noChunk_receive {c : HTTPClient} {len : ℕ} {again : HTTPClientState}
    {onClosed onBytes : HTTPClient → Worked} (hagain : again ≠ .readingBodyChunked)
    (hclosed : ∀ d, Outcome NoChunk (onClosed d)) (hbytes : ∀ d, Outcome NoChunk (onBytes d)) :
    Outcome NoChunk (receive c len again onClosed onBytes) :=
  .receive hagain (by simp [NoChunk]) (hclosed _) fun _ => hbytes _

/-- A change to another state does not lead to a chunk. -/
theorem noChunk_goto {s : HTTPClientState} (hs : s ≠ .readingBodyChunked) (c : HTTPClient) :
    Outcome NoChunk (goto s c) := .goto hs

/-- Reading the headers does not lead to a chunk. -/
theorem noChunk_readHeaders (c : HTTPClient) :
    Outcome NoChunk (httpClientWorktaskReadHeaders c) := by
  rw [httpClientWorktaskReadHeaders]
  simp only
  split
  · exact noChunk_headersComplete _ _
  · refine noChunk_receive (by simp) ?_ (noChunk_goto (by simp))
    intro d
    split
    · exact noChunk_headersComplete _ _
    · exact noChunk_goto (by simp) d

/-- What comes after the last size line does not lead to a chunk. -/
theorem noChunk_trailers (c : HTTPClient) : Outcome NoChunk (httpClientTrailers c) := by
  intro s d h
  obtain ⟨s', d', h', hs'⟩ := httpClientTrailers_exists_ok c
  obtain ⟨rfl, rfl⟩ := Prod.mk.injEq .. ▸ Except.ok.inj (h.symm.trans h')
  exact hs'

/-- A body of a declared length does not lead to a chunk. -/
theorem noChunk_readBody (c : HTTPClient) : Outcome NoChunk (httpClientWorktaskReadBody c) := by
  refine noChunk_receive (by simp) (fun d => ?_) (fun d => ?_)
  · split <;> exact .goto (by simp [NoChunk])
  · split <;> exact .goto (by simp [NoChunk])

/-- The delivery does not lead to a chunk. -/
theorem noChunk_returning (c : HTTPClient) :
    Outcome NoChunk (httpClientWorktaskReturning c) := by
  rw [httpClientWorktaskReturning]
  split
  · split <;> exact .goto (by simp [NoChunk])
  · split <;> exact .goto (by simp [NoChunk])

/-- How a worker enters or stays in `HTTP_CLIENT_READING_BODY_CHUNKED`: from a size line,
with its converted size, or in the middle of a chunk. -/
def EntersChunk (c : HTTPClient) (s : HTTPClientState) (d : HTTPClient) : Prop :=
  s = .readingBodyChunked →
    (c.state = .decipherChonkiness ∧ 0 ≤ httpParserFindLineEnd c.recvBuf ∧
      ∃ v, chunkSize (c.recvBuf.take (httpParserFindLineEnd c.recvBuf).toNat) = .ok (some v) ∧
        d.chunkRemaining = toSize (toInt v)) ∨
    (c.state = .readingBodyChunked ∧
      (d.chunkRemaining = c.chunkRemaining ∨ d.chunkRemaining = 0))

/-- A size line leads to a chunk with the size that it denotes. -/
theorem enters_decipherChonkiness {c : HTTPClient} (hs : c.state = .decipherChonkiness) :
    Outcome (EntersChunk c) (httpClientWorktaskDecipherChonkiness c) := by
  rw [httpClientWorktaskDecipherChonkiness]
  simp only
  split
  · exact .receive (by simp [EntersChunk]) (by simp [EntersChunk])
      (.goto (by simp [EntersChunk])) fun _ => .goto (by simp [EntersChunk])
  · rename_i hend
    refine .bind ?_
    intro size hsize
    split
    · exact .goto (by simp [EntersChunk])
    · split
      · exact fun s d h hs' => absurd hs' (noChunk_trailers _ s d h)
      · exact .goto fun _ => Or.inl ⟨hs, not_lt.mp hend, _, hsize, rfl⟩

/-- A chunk is read on with the size that it has. -/
theorem enters_readBodyChunked {c : HTTPClient} (hs : c.state = .readingBodyChunked) :
    Outcome (EntersChunk c) (httpClientWorktaskReadBodyChunked c) := by
  rw [httpClientWorktaskReadBodyChunked]
  split
  · have hsame : ∀ t b, EntersChunk c .readingBodyChunked
        { c with transport := t, recvBuf := b } := fun _ _ _ => Or.inr ⟨hs, Or.inl rfl⟩
    exact .receive (hsame _ _) (by simp [EntersChunk]) (.goto (by simp [EntersChunk]))
      fun _ => .goto (hsame _ _)
  · split
    · exact .error
    · rw [httpClientChunkEnd]
      split
      · exact .receive (fun _ => Or.inr ⟨hs, Or.inr rfl⟩) (by simp [EntersChunk])
          (.goto (by simp [EntersChunk])) fun _ => .goto fun _ => Or.inr ⟨hs, Or.inr rfl⟩
      · split <;> exact .goto (by simp [EntersChunk])

/-- **Where a chunk comes from**: a size line, or the chunk itself. -/
theorem enters_work (c : HTTPClient) : Outcome (EntersChunk c) (httpClientWork c) := by
  have hno : ∀ {w : Worked}, Outcome NoChunk w → Outcome (EntersChunk c) w :=
    fun h s d heq hs => absurd hs (h s d heq)
  rw [httpClientWork]
  cases hs : c.state with
  | readingFirstline =>
      exact hno (noChunk_receive (by simp) (noChunk_goto (by simp)) noChunk_firstline)
  | readingHeaders => exact hno (noChunk_readHeaders c)
  | decipherChonkiness => exact enters_decipherChonkiness hs
  | readingBodyChunked => exact enters_readBodyChunked hs
  | readingBody => exact hno (noChunk_readBody c)
  | returning => exact hno (noChunk_returning c)
  | _ => exact hno (noChunk_goto (by simp) c)

/-- The chunk that is being read is no longer than the size lines of the run allow. -/
theorem chunkRemaining_lt {sink : Sink} {incoming : List Arrival}
    (hlines : ∀ c, Reaches httpClientReadStep (start sink incoming) c →
      c.state = .decipherChonkiness → 0 ≤ httpParserFindLineEnd c.recvBuf →
      ∀ v, chunkSize (c.recvBuf.take (httpParserFindLineEnd c.recvBuf).toNat) = .ok (some v) →
        toSize (toInt v) < 2 ^ 31)
    {c : HTTPClient} (hc : Reaches httpClientReadStep (start sink incoming) c)
    (hs : c.state = .readingBodyChunked) : c.chunkRemaining < 2 ^ 31 := by
  have hinv := Reaches.invariant (I := fun x =>
    Reaches httpClientReadStep (start sink incoming) x ∧
      (x.state = .readingBodyChunked → x.chunkRemaining < 2 ^ 31)) (fun x y hxy hx => ?_) hc
    ⟨.refl _, fun h => by cases h⟩
  · exact hinv.2 hs
  · refine ⟨hx.1.tail hxy, ?_⟩
    obtain ⟨s, d, hwork, rfl⟩ := work_of_readStep hxy
    intro hs'
    rcases enters_work x s d hwork hs' with ⟨hxs, hend, v, hv, hrem⟩ | ⟨hxs, hrem⟩
    · simp only [hrem]
      exact hlines x hx.1 hxs hend v hv
    · have := hx.2 hxs
      simp only
      rcases hrem with heq | heq <;> omega

/-- **On a run with such lines only**, no chunk is copied beyond the buffer. -/
theorem no_overread_of_sizeOk {sink : Sink} {incoming : List Arrival}
    (hlines : ∀ c, Reaches httpClientReadStep (start sink incoming) c →
      c.state = .decipherChonkiness → 0 ≤ httpParserFindLineEnd c.recvBuf →
      SizeOk (c.recvBuf.take (httpParserFindLineEnd c.recvBuf).toNat))
    {c : HTTPClient} (hc : Reaches httpClientReadStep (start sink incoming) c)
    (hs : c.state = .readingBodyChunked) :
    httpClientWorktaskReadBodyChunked c ≠ .error .recvBufOverread := by
  have hlt := chunkRemaining_lt (fun x hx hxs hend v hv => ?_) hc hs
  · exact readBodyChunked_ne_overread (by omega)
  · have hok := hlines x hx hxs hend
    rw [hok.chunkSize_eq, Except.ok.injEq] at hv
    obtain ⟨hmin, hmax⟩ := hok.2 v hv
    obtain ⟨n, rfl⟩ := Int.eq_ofNat_of_zero_le hmin
    rw [intMax] at hmax
    rw [toInt_eq_self (by omega), toSize_eq_self (by omega)]
    omega

/-- **Chunk sizes.** A size line shorter than `2 ^ 31` bytes is rejected or taken as it is
written exactly when its token fits the array and its number, if it has one, is from 0 to
`INT_MAX`. On a run with such lines only, no chunk is copied beyond the buffer. -/
theorem chunk_size_honoured_iff (sink : Sink) (incoming : List Arrival) :
    (∀ line, NoCrlf line → line.length < 2 ^ 31 → (Honoured line ↔ SizeOk line)) ∧
    ((∀ c, Reaches httpClientReadStep (start sink incoming) c →
        c.state = .decipherChonkiness → 0 ≤ httpParserFindLineEnd c.recvBuf →
        SizeOk (c.recvBuf.take (httpParserFindLineEnd c.recvBuf).toNat)) →
      ∀ c, Reaches httpClientReadStep (start sink incoming) c →
        c.state = .readingBodyChunked →
        httpClientWorktaskReadBodyChunked c ≠ .error .recvBufOverread) := by
  constructor
  · intro line hline hshort
    exact ⟨fun h => h.sizeOk hline hshort, fun h => h.honoured hline hshort⟩
  · intro hlines c hc hs
    exact no_overread_of_sizeOk hlines hc hs

/-- The size line `1a;x` is taken as it is written. -/
theorem chunk_size_honoured_hex : Honoured (ascii "1a;x") := by
  refine ((chunk_size_honoured_iff .blocking []).1 (ascii "1a;x") (by decide)
    (by decide)).mpr ⟨by decide, fun n hn => ?_⟩
  have hnum : sizeNumber (ascii "1a;x") = some 26 := by decide
  obtain rfl : 26 = n := Option.some.inj (hnum.symm.trans hn)
  decide

/-- A response with the given size line and five bytes after it. -/
def sizeLineResponse (line : Bytes) : List Arrival :=
  [.data ⟨chunkedHead.bytes ++ (line ++ (crlf ++ ascii "hello")), by
    simp [Head.bytes, chunkedHead, Head.ofFields, crlf]⟩]

/-- The size `100000005` is taken for five bytes, and the size `FFFFFFFF` makes the client
copy beyond its buffer. -/
theorem chunk_size_wraps :
    sizeNumber (ascii "100000005") = some (2 ^ 32 + 5) ∧
      (∃ c, Reaches httpClientReadStep
          (start .blocking (sizeLineResponse (ascii "100000005"))) c ∧
        c.state = .readingBodyChunked ∧ c.chunkRemaining = 5) ∧
      ¬ Honoured (ascii "100000005") ∧
      ∃ c, Reaches httpClientReadStep
          (start .blocking (sizeLineResponse (ascii "FFFFFFFF"))) c ∧
        c.state = .readingBodyChunked ∧
        httpClientWorktaskReadBodyChunked c = .error .recvBufOverread := by
  have hnum : sizeNumber (ascii "100000005") = some (2 ^ 32 + 5) := by decide
  refine ⟨hnum, ⟨_, reaches_of_run (n := 3) rfl, by decide, by decide⟩,
    fun h => ?_, ⟨_, reaches_of_run (n := 3) rfl, by decide, by decide⟩⟩
  have hle := ((h.sizeOk (by decide) (by decide)).2 _ hnum).2
  rw [intMax] at hle
  omega

end MaestroCore
