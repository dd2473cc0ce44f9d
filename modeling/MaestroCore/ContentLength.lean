import MaestroCore.PlainBody

/-!
# Responses with a Content-Length

A response with a `Content-Length` field and no `Transfer-Encoding` field is delivered
exactly, however its bytes are cut into reads, as long as the index of the end of its
header block fits `int`. `http_parser_find_headers_end` converts that index to `int`: from
`2 ^ 31` on it is negative or too small, and then the client waits forever or takes the
rest of the header block for the body.

## Main results

* `content_length_exact_iff`: exact delivery, and an error on a body that is cut short,
  for every way of cutting the stream, if and only if the end of the header block has an
  index below `2 ^ 31`.
-/

open CLang Run

namespace MaestroCore

/-! ### Header blocks that are too long for `int` -/

/-- One iteration of the loop of `http_parser_headers`: it ends with the headers so far, or
removes a line and goes on. -/
theorem httpParserHeadersLoop_cases {fuel start : ℕ} {b : Bytes}
    {headers out : List HTTPKeyValue}
    (h : httpParserHeadersLoop fuel start b headers = .ok (.ok out)) :
    out = headers ∨ ∃ fuel' lineLen header,
      List.firstOcc crlf b = some lineLen ∧ lineLen ≠ 0 ∧
      httpParserHeaderLine (b.take lineLen) = some header ∧
      httpParserHeadersLoop fuel' (start + lineLen + 2) (b.drop (lineLen + 2))
        (headers ++ [header]) = .ok (.ok out) := by
  cases fuel with
  | zero => exact Or.inl (by simpa [httpParserHeadersLoop] using h.symm)
  | succ fuel =>
      rw [httpParserHeadersLoop] at h
      split at h
      · exact Or.inl (by simpa using h.symm)
      · rename_i lineLen hlen
        simp only at h
        split at h
        · exact Or.inl (by simpa using h.symm)
        · split at h
          · cases h
          · split at h
            · exact Or.inl (by simpa using h.symm)
            · rename_i hne
              split at h
              · cases h
              · rename_i header hheader
                exact Or.inr ⟨fuel, lineLen, header, hlen, hne, hheader, h⟩

/-- The headers parsed from the first bytes of a block are headers of the block. -/
theorem httpParserHeadersLoop_front {ls : List Line} {fuel start : ℕ} {b m : Bytes}
    {headers out : List HTTPKeyValue} (hb : b ++ m = lineBlock ls ++ crlf)
    (h : httpParserHeadersLoop fuel start b headers = .ok (.ok out)) :
    ∀ x ∈ out, x ∈ headers ∨ ∃ l ∈ ls, httpParserHeaderLine l.text = some x := by
  induction ls generalizing fuel start b headers with
  | nil =>
      intro x hx
      rcases httpParserHeadersLoop_cases h with rfl | ⟨_, lineLen, _, hocc, hne, -⟩
      · exact Or.inl hx
      · have hlen := List.firstOcc_add_length_le hocc
        have := congrArg List.length hb
        simp only [lineBlock_nil, List.nil_append, List.length_append, length_crlf] at this hlen
        omega
  | cons l ls ih =>
      intro x hx
      rcases httpParserHeadersLoop_cases h with rfl | ⟨_, lineLen, header, hocc, -, hheader, h'⟩
      · exact Or.inl hx
      · have hlen := List.firstOcc_add_length_le hocc
        rw [lineBlock_cons_append] at hb
        obtain rfl : l.text.length = lineLen := by
          have := List.firstOcc_append hocc m
          rw [hb, firstOcc_crlf_line l.noCrlf] at this
          exact Option.some.inj this
        rw [← List.append_assoc l.text] at hb
        obtain ⟨r, rfl, hr⟩ := List.exists_split_of_length_le hb (by simpa using hlen)
        rw [List.append_assoc, List.take_left' rfl] at hheader
        rw [List.drop_left' (by simp [length_crlf])] at h'
        rcases ih hr h' x hx with hmem | ⟨l', hl', hp⟩
        · rcases List.mem_append.mp hmem with hold | hnew
          · exact Or.inl hold
          · obtain rfl := List.mem_singleton.mp hnew
            exact Or.inr ⟨l, by simp, hheader⟩
        · exact Or.inr ⟨l', by simp [hl'], hp⟩

/-- A line that parses puts its header among the parsed ones. -/
theorem mem_of_parseLines {ls : List Line} {headers : List HTTPKeyValue} {l : Line}
    {x : HTTPKeyValue} (h : parseLines ls = .ok headers) (hl : l ∈ ls)
    (hx : httpParserHeaderLine l.text = some x) : x ∈ headers := by
  induction ls generalizing headers with
  | nil => exact absurd hl (by simp)
  | cons l' ls ih =>
      rw [parseLines] at h
      split at h
      · cases h
      · rename_i header hheader
        cases hls : parseLines ls with
        | error e => simp [hls, Except.map] at h
        | ok later =>
            simp only [hls, Except.map, Except.ok.injEq] at h
            subst h
            rcases List.mem_cons.mp hl with rfl | hlater
            · rw [hheader, Option.some.injEq] at hx
              simp [hx]
            · exact List.mem_cons_of_mem _ (ih hls hlater)

/-- The first bytes of a block without `Transfer-Encoding` do not show one. -/
theorem transferEncodingChunked_front {ls : List Line} {headers out : List HTTPKeyValue}
    {b m : Bytes} (hb : b ++ m = lineBlock ls ++ crlf) (hparse : parseLines ls = .ok headers)
    (hte : ∀ header ∈ headers, header.key ≠ ascii "Transfer-Encoding")
    (h : httpParserHeaders b = .ok (.ok out)) : transferEncodingChunked out = false := by
  have hout : ∀ x ∈ out, x.key ≠ ascii "Transfer-Encoding" := by
    intro x hx
    rcases httpParserHeadersLoop_front hb h x hx with hnil | ⟨l, hl, hp⟩
    · exact absurd hnil (by simp)
    · exact hte x (mem_of_parseLines hparse hl hp)
  exact transferEncodingChunked_of_no_key hout

/-- A parsed length is below 2^31. -/
theorem parseStringToInt_le {str : Bytes} {r : Option ℤ} (h : parseStringToInt str = .ok r) :
    r.getD 0 < 2 ^ 31 := by
  have hnone : (none : Option ℤ) = r → r.getD 0 < 2 ^ 31 := by
    rintro rfl
    decide
  rw [parseStringToInt] at h
  simp only at h
  split at h
  · cases h
  · split at h
    · exact hnone (Except.ok.inj h)
    · split at h
      · exact hnone (Except.ok.inj h)
      · split at h
        · exact hnone (Except.ok.inj h)
        · rename_i hval
          obtain rfl := Except.ok.inj h
          rw [intMax] at hval
          rw [Option.getD_some]
          omega

/-- With so many bytes in the buffer that no declared length exceeds them, the header
worker rejects the headers or goes to `HTTP_CLIENT_RETURNING`. -/
theorem httpClientHeadersComplete_long {sink : Sink} {c c' : HTTPClient} {k : ℕ}
    {s : HTTPClientState}
    (hte : ∀ headers, httpParserHeaders (c.recvBuf.take (k + 4)) = .ok (.ok headers) →
      transferEncodingChunked headers = false)
    (hlen : 2 ^ 31 ≤ (c.recvBuf.drop (k + 4)).length) (hdec : c.decodedBody = none)
    (hdel : Undelivered sink c) (h : httpClientHeadersComplete c k = .ok (s, c')) :
    s = .error ∨ (s = .returning ∧ 2 ^ 31 ≤ c'.recvBuf.length ∧ c'.decodedBody = none ∧
      Undelivered sink c') := by
  rw [httpClientHeadersComplete] at h
  simp only [bind, Except.bind] at h
  split at h
  · cases h
  · rename_i parsed hparsed
    split at h
    · simp only [goto, Except.ok.injEq, Prod.mk.injEq] at h
      exact Or.inl h.1.symm
    · rename_i headers
      rw [hte headers hparsed, if_neg (by simp)] at h
      split at h
      · simp only [goto, Except.ok.injEq, Prod.mk.injEq] at h
        obtain ⟨rfl, rfl⟩ := h
        exact Or.inr ⟨rfl, hlen, hdec, ⟨hdel.1, hdel.2, hdel.3, hdel.4⟩⟩
      · split at h
        · cases h
        · rename_i r hr
          have hcl := parseStringToInt_le hr
          split at h
          · rw [if_pos (by omega)] at h
            simp only [goto, Except.ok.injEq, Prod.mk.injEq] at h
            obtain ⟨rfl, rfl⟩ := h
            exact Or.inr ⟨rfl, hlen, hdec, ⟨hdel.1, hdel.2, hdel.3, hdel.4⟩⟩
          · simp only [goto, Except.ok.injEq, Prod.mk.injEq] at h
            obtain ⟨rfl, rfl⟩ := h
            exact Or.inr ⟨rfl, hlen, hdec, ⟨hdel.1, hdel.2, hdel.3, hdel.4⟩⟩

/-- A client with the whole of a block whose end index comes out of the conversion to `int`
as another non-negative number: the header worker takes the front of the block for the
block, and at least `2 ^ 31` bytes for the body. -/
theorem HeadRead.work_long {h : Head} {r : Bytes} {c : HTTPClient} (hgoal : HeadRead h c)
    (hbuf : c.recvBuf = lineBlock h.lines ++ (crlf ++ r))
    (hlong : 2 ^ 31 ≤ headersEnd h.lines) (hnonneg : 0 ≤ toInt (headersEnd h.lines)) :
    ∃ k, httpClientWork c = httpClientHeadersComplete c k ∧
      c.recvBuf.take (k + 4) ++ h.block.drop (k + 4) = h.block ∧
      2 ^ 31 ≤ (c.recvBuf.drop (k + 4)).length := by
  obtain ⟨k, hk⟩ := Int.eq_ofNat_of_zero_le hnonneg
  have hfall := toInt_add_le hnonneg hlong
  have hblock := h.length_block
  have hfind : httpParserFindHeadersEnd c.recvBuf = k := by
    rw [httpParserFindHeadersEnd, hbuf, firstOcc_headersEnd h.nonempty]
    exact hk
  have hne : c.recvBuf ≠ [] := by
    rw [hbuf]
    simp [crlf]
  rw [← h.block_append] at hbuf
  refine ⟨k, ?_, ?_, ?_⟩
  · rw [httpClientWork, hgoal.1]
    simp [httpClientWorktaskReadHeaders, hfind, hne]
  · rw [hbuf, List.take_append_of_le_length (by omega), List.take_append_drop]
  · rw [List.length_drop, hbuf, List.length_append]
    omega

/-- A header block whose end does not fit `int` hides a body shorter than `2 ^ 31` bytes:
the client never finds the end of the block, or takes part of the block for the body. -/
theorem not_delivers_of_long_block {sink : Sink} {h : Head} {rest body : Bytes}
    {incoming : List Arrival} (hstream : pendingOf incoming = h.bytes ++ rest)
    (hlong : 2 ^ 31 ≤ headersEnd h.lines)
    (hte : ∀ header ∈ h.headers, header.key ≠ ascii "Transfer-Encoding")
    (hbody : body.length < 2 ^ 31) : ¬ Delivers sink incoming body := by
  intro hdelivers
  by_cases hneg : toInt (headersEnd h.lines) < 0
  · exact not_delivers_of_stuck hstream hneg hdelivers
  obtain ⟨b, hb, hIb, hGb⟩ :=
    (inHead_start_whole sink hstream).exists_headRead (Nat.zero_le _)
  obtain ⟨r, hbuf, -⟩ := hIb.buffer hGb
  obtain ⟨k, hwork, hsplit, hlen⟩ := hGb.work_long hbuf hlong (not_lt.mp hneg)
  obtain ⟨d, hbd⟩ := hdelivers.exists_step hb (by rw [hGb.1]; simp)
  obtain ⟨s, d₀, hd₀, rfl⟩ := work_of_readStep hbd
  rw [hwork] at hd₀
  have hstate : b.decodedBody = none ∧ Undelivered sink b := by
    cases hIb <;> exact ⟨by assumption, by assumption⟩
  rcases httpClientHeadersComplete_long
    (fun headers hparse => transferEncodingChunked_front hsplit h.parsed hte hparse) hlen
    hstate.1 hstate.2 hd₀ with rfl | ⟨rfl, hlong', hdec, hdel⟩
  · have := (hdelivers.of_final (hb.tail hbd) (Or.inl rfl)).1
    cases this
  · obtain ⟨d', hd', hdelivered, -⟩ := (hdel.with_state .returning).deliver rfl
    simp only [deliverySource, hdec] at hdelivered
    have := hdelivers.unique ⟨_, d', hb.tail hbd, rfl, hd', hdelivered⟩
    rw [this] at hbody
    omega

/-! ### Exact delivery -/

/-- What a client owes a response with the body `body`, for every way of cutting the
stream: the body is delivered, and if the stream is cut short and closed the run ends in
the error state. -/
structure ExactDelivery (sink : Sink) (statusLine : StatusLine) (fields : List HeaderField)
    (body : Bytes) : Prop where
  delivers : ∀ incoming, pendingOf incoming = response statusLine fields body →
    Delivers sink incoming body
  fails : ∀ incoming missing, missing ≠ [] →
    pendingOf incoming ++ missing = response statusLine fields body →
    endingOf incoming = .closed → Fails sink incoming

/-- A body shorter than `2 ^ 31` bytes is not delivered after a longer header block. -/
theorem not_exactDelivery_of_long_block {sink : Sink} {statusLine : StatusLine}
    {fields : List HeaderField} {body : Bytes} (hne : fields ≠ [])
    (hlong : 2 ^ 31 ≤ headersEnd (fields.map HeaderField.line))
    (hte : ∀ f ∈ fields, f.header.key ≠ ascii "Transfer-Encoding")
    (hbody : body.length < 2 ^ 31) : ¬ ExactDelivery sink statusLine fields body := by
  intro hexact
  have hstream := pendingOf_wholeResponse statusLine fields body
  refine not_delivers_of_long_block (hstream.trans (response_eq hne body)) hlong ?_ hbody
    (hexact.delivers _ hstream)
  intro header hheader
  obtain ⟨f, hf, rfl⟩ := List.mem_map.mp hheader
  exact hte f hf

/-- After a header block whose end is found, a body of the declared length is delivered
exactly. -/
theorem exactDelivery_of_declared {sink : Sink} {statusLine : StatusLine}
    {fields : List HeaderField} {body : Bytes} (hne : fields ≠ [])
    (hend : headersEnd (fields.map HeaderField.line) < 2 ^ 31)
    (hnot : transferEncodingChunked (fields.map HeaderField.header) = false)
    (hdecl : declaredLength (fields.map HeaderField.header) = body.length) :
    ExactDelivery sink statusLine fields body := by
  constructor
  · intro incoming hstream
    obtain ⟨c, hc, hcs, hI, -⟩ := exists_returning sink
      (hstream.trans (response_eq hne body)) hend hnot (by simp [Head.ofFields, hdecl])
    have hdelivers := hI.delivers hc hcs
    have hbuf : c.recvBuf = body := by
      cases hI with
      | reading hs => rw [hcs] at hs; cases hs
      | complete _ hbuf hun =>
          simp only [Head.ofFields, hdecl, Int.toNat_natCast] at hbuf
          rw [List.append_nil, HTTPClient.unread] at hun
          have hpre : c.recvBuf <+: body := ⟨_, hun⟩
          exact hpre.eq_of_length_le hbuf
    rwa [hbuf] at hdelivers
  · intro incoming missing hmissing hstream hclosed
    have hpos : 0 < missing.length := List.length_pos_iff.mpr hmissing
    refine fails_of_short (hstream.trans (response_eq hne body)) hend hnot ?_
      (by rw [hclosed]; simp)
    simp only [Head.ofFields, hdecl, Int.toNat_natCast]
    omega

/-- **A response with a `Content-Length`** is delivered exactly, however it is cut, if and
only if the end of its header block has an index that fits `int`. -/
theorem content_length_exact_iff (sink : Sink) (statusLine : StatusLine)
    (fields : List HeaderField) (body value : Bytes)
    (hcl : fieldNamed (ascii "Content-Length") fields = some value)
    (hvalue : IsDecimal body.length value) (hbody : body.length ≤ intMax)
    (hte : fieldNamed (ascii "Transfer-Encoding") fields = none) :
    ExactDelivery sink statusLine fields body ↔
      headersEnd (fields.map HeaderField.line) < 2 ^ 31 := by
  have hne := ne_nil_of_fieldNamed hcl
  constructor
  · intro hexact
    by_contra hlong
    rw [fieldNamed, Option.map_eq_none_iff, List.find?_eq_none] at hte
    exact not_exactDelivery_of_long_block hne (not_lt.mp hlong)
      (fun f hf hkey => hte f hf (by simpa using hkey)) (by rw [intMax] at hbody; omega) hexact
  · intro hend
    exact exactDelivery_of_declared hne hend (transferEncodingChunked_of_missing hte)
      (declaredLength_fields hcl hvalue hbody)

/-- A `Content-Length` field. -/
def lengthField (value : Bytes) (h : ∀ b ∈ value, isControl b = false) : HeaderField where
  name := ascii "Content-Length"
  value := value
  value_plain := h

/-- `Content-Length: 5`. -/
def lengthFive : HeaderField := lengthField (ascii " 5") (by decide)

/-- The text `5` is a decimal numeral for 5. -/
theorem isDecimal_five : IsDecimal 5 (ascii "5") where
  nonempty := by decide
  digits := by decide
  value := by decide
  noLeadingZero := by decide

/-- The condition is met by every response of ordinary size. -/
theorem content_length_exact_five :
    ExactDelivery .blocking statusOk [lengthFive] (ascii "hello") :=
  (content_length_exact_iff .blocking statusOk [lengthFive] (ascii "hello") (ascii "5")
    (by decide) isDecimal_five (by decide) (by decide)).mpr (by decide)

/-- Neither field is a `Transfer-Encoding`. -/
theorem key_ne_transferEncoding_longField (n : ℕ) :
    ∀ f ∈ [lengthFive, longField n], f.header.key ≠ ascii "Transfer-Encoding" := by
  intro f hf
  rcases List.mem_cons.mp hf with rfl | hf
  · decide
  · obtain rfl := List.mem_singleton.mp hf
    exact fun h => absurd (show trimTrailing (ascii "X") = _ from h) (by decide)

/-- The long second field does not hide the length. -/
theorem contentLength_longField (n : ℕ) :
    fieldNamed (ascii "Content-Length") [lengthFive, longField n] = some (ascii "5") := by
  rw [fieldNamed, List.find?_cons_of_pos (by decide)]
  decide

/-- The long second field does not make the response chunked. -/
theorem transferEncoding_longField (n : ℕ) :
    fieldNamed (ascii "Transfer-Encoding") [lengthFive, longField n] = none := by
  rw [fieldNamed, Option.map_eq_none_iff, List.find?_eq_none]
  simpa using key_ne_transferEncoding_longField n

/-- With a header end beyond `int` the body is not delivered. -/
theorem not_exactDelivery_longField {n : ℕ} (hn : 2 ^ 31 ≤ n) :
    ¬ ExactDelivery .blocking statusOk [lengthFive, longField n] (ascii "hello") := by
  refine not_exactDelivery_of_long_block (by simp) ?_ (key_ne_transferEncoding_longField n)
    (by decide)
  rw [headersEnd_longField]
  omega

/-- A response of five bytes with a header field of `2 ^ 31` bytes is not delivered. -/
theorem long_header_field_loses_body :
    fieldNamed (ascii "Content-Length") [lengthFive, longField (2 ^ 31)] = some (ascii "5") ∧
      IsDecimal (ascii "hello").length (ascii "5") ∧
      fieldNamed (ascii "Transfer-Encoding") [lengthFive, longField (2 ^ 31)] = none ∧
      ¬ ExactDelivery .blocking statusOk [lengthFive, longField (2 ^ 31)] (ascii "hello") :=
  ⟨contentLength_longField _, isDecimal_five, transferEncoding_longField _,
    not_exactDelivery_longField le_rfl⟩

end MaestroCore
