import MaestroCore.ContentLength

/-!
# Responses that Return with the Header Block

`http_client_worktask_read_headers` goes to `HTTP_CLIENT_RETURNING` at once when the
headers declare no length that is still to come: when `Content-Length` is missing, and
also when its value does not parse, which counts as `0`. The caller then receives the
body bytes that happened to share a read with the end of the header block.

## Main results

* `close_delimited_iff`: a response that ends with the connection is delivered whole
  exactly when no read ends inside its body.
* `malformed_length_iff`: when the header worker returns at once, whatever the value of
  `Content-Length` is.
-/

open CLang Run

namespace MaestroCore

section EarlyReturn

variable {sink : Sink} {h : Head} {incoming : List Arrival}

/-- What a run without transfer coding delivers: the whole stream after the head, exactly
when no read ends between the declared length and the end of the stream. -/
theorem delivers_all_iff (sink : Sink) {rest : Bytes}
    (hstream : pendingOf incoming = h.bytes ++ rest)
    (hend : headersEnd h.lines < 2 ^ 31) (hte : transferEncodingChunked h.headers = false)
    (hlen : (declaredLength h.headers).toNat ≤ rest.length) :
    ∃ x, Delivers sink incoming x ∧ x <+: rest ∧
      (x = rest ↔ NoCutIn sink incoming 0 (rest.length - (declaredLength h.headers).toNat)) := by
  obtain ⟨c, hc, hcs, hI, hcut⟩ := exists_returning sink hstream hend hte hlen
  have hun : c.recvBuf ++ c.pending = rest := by
    cases hI with
    | reading hs => rw [hcs] at hs; cases hs
    | complete _ _ hun => rwa [List.append_nil] at hun
  refine ⟨c.recvBuf, hI.delivers hc hcs, ⟨_, hun⟩, ?_⟩
  have hbuf : (declaredLength h.headers).toNat ≤ c.recvBuf.length := by
    cases hI with
    | reading hs => rw [hcs] at hs; cases hs
    | complete _ hbuf => exact hbuf
  have hsum := congrArg List.length hun
  rw [List.length_append] at hsum
  constructor
  · rintro hall k hpos hle ⟨d, hd, hk⟩
    rw [hall] at hsum
    rcases hcut d hd with heq | hlt
    · rw [heq] at hk
      omega
    · omega
  · intro hno
    have hnil : c.pending = [] := by
      by_contra hne
      exact hno _ (List.length_pos_iff.mpr hne) (by omega) ⟨c, hc, rfl⟩
    rwa [hnil, List.append_nil] at hun

/-- **No truncated success** without transfer coding: what is delivered is never shorter
than what the server sent, exactly when no read ends between the declared length and the
end of the stream. -/
theorem no_truncation_iff {rest : Bytes} (hstream : pendingOf incoming = h.bytes ++ rest)
    (hend : headersEnd h.lines < 2 ^ 31) (hte : transferEncodingChunked h.headers = false) :
    (∀ x, Delivers sink incoming x → rest.length ≤ x.length) ↔
      NoCutIn sink incoming 0 (rest.length - (declaredLength h.headers).toNat) := by
  by_cases hlen : (declaredLength h.headers).toNat ≤ rest.length
  · obtain ⟨x, hx, hpre, hiff⟩ := delivers_all_iff sink hstream hend hte hlen
    rw [← hiff]
    constructor
    · exact fun hall => hpre.eq_of_length_le (hall x hx)
    · rintro rfl y hy
      rw [hy.unique hx]
  · constructor
    · intro _ k hpos hle
      omega
    · intro _ x hx
      exact absurd hx (not_delivers_of_short hstream hend hte (not_le.mp hlen))

/-- **A response that ends with the connection.** Every run on it is successful. It
delivers all of the body exactly when no read ends inside the body, and two ways of
cutting the stream for which this holds deliver the same. -/
theorem close_delimited_iff (sink : Sink) (h : Head) (body : Bytes) (incoming : List Arrival)
    (hstream : pendingOf incoming = h.bytes ++ body) (hend : headersEnd h.lines < 2 ^ 31)
    (hcl : ∀ header ∈ h.headers, header.key ≠ ascii "Content-Length")
    (hte : ∀ header ∈ h.headers, header.key ≠ ascii "Transfer-Encoding") :
    (∃ x, Delivers sink incoming x) ∧
      ((∀ x, Delivers sink incoming x → x = body) ↔ NoCutIn sink incoming 0 body.length) ∧
      ∀ incoming', pendingOf incoming' = pendingOf incoming →
        NoCutIn sink incoming 0 body.length → NoCutIn sink incoming' 0 body.length →
        ∀ x x', Delivers sink incoming x → Delivers sink incoming' x' → x = x' := by
  have hdecl := declaredLength_of_no_key hcl
  have hall : ∀ incoming, pendingOf incoming = h.bytes ++ body →
      ∃ x, Delivers sink incoming x ∧ (x = body ↔ NoCutIn sink incoming 0 body.length) := by
    intro incoming hstream
    obtain ⟨x, hx, -, hiff⟩ := delivers_all_iff sink hstream hend
      (transferEncodingChunked_of_no_key hte) (by simp [hdecl])
    rw [hdecl, Int.toNat_zero, Nat.sub_zero] at hiff
    exact ⟨x, hx, hiff⟩
  obtain ⟨x, hx, hiff⟩ := hall incoming hstream
  refine ⟨⟨x, hx⟩, ?_, ?_⟩
  · rw [← hiff]
    exact ⟨fun h => h x hx, fun hbody y hy => (hy.unique hx).trans hbody⟩
  · intro incoming' hsame hno hno' y y' hy hy'
    obtain ⟨x', hx', hiff'⟩ := hall incoming' (hsame.trans hstream)
    rw [hy.unique hx, hy'.unique hx', hiff.mpr hno, hiff'.mpr hno']

/-- `Server: x`. -/
def serverField : HeaderField where
  name := ascii "Server"
  value := ascii " x"

/-- The head of a response without framing. -/
def serverHead : Head := Head.ofFields statusOk [serverField] (by simp)

/-- The response with the body `hello`, in one read. -/
def helloWhole : List Arrival :=
  [.data ⟨serverHead.bytes ++ ascii "hello", by decide⟩, .closed]

/-- The same response with the body in a read of its own. -/
def helloCut : List Arrival :=
  [.data ⟨serverHead.bytes, by decide⟩, .data ⟨ascii "hello", hello_ne_nil⟩, .closed]

/-- The body of a response that arrives in one read is delivered. -/
theorem close_delimited_whole :
    (∀ x, Delivers .blocking helloWhole x → x = ascii "hello") ∧
      NoCutIn .blocking helloWhole 0 5 := by
  have hall : ∀ x, Delivers .blocking helloWhole x → x = ascii "hello" := fun x hx =>
    hx.unique (delivers_of_deliversAfter (n := 2) (by decide))
  exact ⟨hall, (close_delimited_iff .blocking serverHead (ascii "hello") helloWhole
    (by decide) (by decide) (by decide) (by decide)).2.1.mp hall⟩

/-- A body that arrives after the header block is lost, so that two ways of cutting one
stream deliver different bodies. -/
theorem close_delimited_cut_loses_body :
    pendingOf helloCut = serverHead.bytes ++ ascii "hello" ∧ endingOf helloCut = .closed ∧
      pendingOf helloWhole = pendingOf helloCut ∧
      ¬ (∀ x, Delivers .blocking helloCut x → x = ascii "hello") ∧
      ¬ (∀ x x', Delivers .blocking helloCut x → Delivers .blocking helloWhole x' → x = x') := by
  have hcut : Delivers .blocking helloCut [] :=
    delivers_of_deliversAfter (n := 2) (by decide)
  have hwhole : Delivers .blocking helloWhole (ascii "hello") :=
    delivers_of_deliversAfter (n := 2) (by decide)
  refine ⟨by decide, rfl, by decide, ?_, ?_⟩
  · intro h
    exact absurd (h [] hcut) (by decide)
  · intro h
    exact absurd (h [] _ hcut hwhole) (by decide)

/-! ### Content-Length values that are not a length -/

/-- The value is a decimal integer from 0 to `INT_MAX`. -/
def ValidLength (value : Bytes) : Prop := ∃ n, n ≤ intMax ∧ IsNumeral 10 n value

/-- When a value parses to more than `r`: its first `readMaxLen` bytes are a number without
a minus sign that fits `int` and exceeds `r`. -/
theorem lt_parseStringToInt_iff {value : Bytes} {o : Option ℤ}
    (h : parseStringToInt value = .ok o) (hlen : value.length < 2 ^ 31) (r : ℕ) :
    (r : ℤ) < o.getD 0 ↔
      ∃ m, scanInt 10 (value.take readMaxLen) = some ⟨false, m, []⟩ ∧ m ≤ intMax ∧ r < m := by
  rw [parseStringToInt_eq hlen, Except.ok.injEq] at h
  subst h
  rcases scanInt 10 (value.take readMaxLen) with _ | ⟨negative, m, rest⟩
  · simp
  · simp only [Option.bind_some, Scanned.value, Option.some.injEq, Scanned.mk.injEq, intMax]
    cases negative <;> grind

/-- When the headers make the client wait for a body. -/
theorem framedState_ne_returning_iff (headers : List HTTPKeyValue) (r : ℕ) :
    framedState headers r ≠ .returning ↔
      transferEncodingChunked headers = true ∨ (r : ℤ) < declaredLength headers := by
  rw [framedState]
  split
  · simp [*]
  · rename_i hte
    simp only [hte, Bool.false_eq_true, false_or]
    split
    · split
      · simp only [ne_eq, not_true_eq_false, false_iff]
        omega
      · simp only [ne_eq, reduceCtorEq, not_false_eq_true, true_iff]
        omega
    · simp only [ne_eq, not_true_eq_false, false_iff]
      omega

/-- **The header worker and `Content-Length`.** On every run the header worker sees the
complete header block, and it goes on to wait for a body only when the headers say
`chunked`, or when the first `readMaxLen` bytes of the value are a number that fits `int`
and exceeds what is in the buffer after the block. Otherwise, so for every other value
that is not a length, it goes to `HTTP_CLIENT_RETURNING`, and the run delivers the bytes
that came with the block. The run then delivers less than the server sent exactly when a
read ends after the declared length (`0` for a value that does not parse). -/
theorem malformed_length_iff (sink : Sink) (h : Head) (value rest : Bytes)
    (incoming : List Arrival) (hstream : pendingOf incoming = h.bytes ++ rest)
    (hend : headersEnd h.lines < 2 ^ 31)
    (hcl : httpParserGetHeaderValue h.headers (ascii "Content-Length") = .ok value) :
    ∃ c c' received, Reaches httpClientReadStep (start sink incoming) c ∧
      c.state = .readingHeaders ∧ c.recvBuf = h.block ++ received ∧ received <+: rest ∧
      httpClientReadStep c = .ok c' ∧
      (c'.state ≠ .returning ↔ transferEncodingChunked h.headers = true ∨
        ∃ m, scanInt 10 (value.take readMaxLen) = some ⟨false, m, []⟩ ∧ m ≤ intMax ∧
          received.length < m) ∧
      (c'.state = .returning → Delivers sink incoming received) ∧
      (transferEncodingChunked h.headers = false →
        ((∀ x, Delivers sink incoming x → rest.length ≤ x.length) ↔
          NoCutIn sink incoming 0 (rest.length - (declaredLength h.headers).toNat))) := by
  obtain ⟨c, hc, hI, hG⟩ := (inHead_start_whole sink hstream).exists_headRead
    (Nat.zero_le _)
  obtain ⟨received, hbuf, hrest, -, hstep⟩ := hI.framed_step hG hend
  obtain ⟨header, hheader, -, rfl⟩ := exists_of_httpParserGetHeaderValue hcl
  have hlen : header.value.length < 2 ^ 31 := by
    have := parseLines_value_length h.parsed hheader
    rw [headersEnd] at hend
    omega
  refine ⟨c, _, received, hc, hG.1, hbuf, ⟨_, hrest⟩, hstep, ?_, ?_,
    no_truncation_iff hstream hend⟩
  · have ho := parseStringToInt_eq hlen
    rw [← lt_parseStringToInt_iff ho hlen, ← declaredLength_of_parsed hcl ho]
    exact framedState_ne_returning_iff h.headers received.length
  · intro hret
    simp only at hret
    rw [hret] at hstep
    exact hI.framed_delivers hc hG hstep

/-- A response that declares 3000000000 bytes. -/
def hugeHead : Head :=
  Head.ofFields statusOk [lengthField (ascii "3000000000") (by decide)] (by simp)

/-- The first bytes of its body come after the header block. -/
def hugeCut : List Arrival :=
  [.data ⟨hugeHead.bytes, by decide⟩, .data ⟨ascii "hello", hello_ne_nil⟩]

/-- A declared length above `INT_MAX` is a success with an empty body. -/
theorem huge_length_truncated :
    httpParserGetHeaderValue hugeHead.headers (ascii "Content-Length") =
        .ok (ascii "3000000000") ∧ ¬ ValidLength (ascii "3000000000") ∧
      pendingOf hugeCut = hugeHead.bytes ++ ascii "hello" ∧
      Delivers .blocking hugeCut [] := by
  refine ⟨by decide, ?_, by decide,
    delivers_of_deliversAfter (n := 2) (by decide)⟩
  rintro ⟨n, hn, hnum⟩
  have hvalue : numeral 10 (ascii "3000000000") = 3000000000 := by decide
  rw [hnum.value] at hvalue
  rw [hvalue] at hn
  exact absurd hn (by decide)

/-- A response that declares `+9` bytes, which is not a decimal integer. -/
def plusHead : Head :=
  Head.ofFields statusOk [lengthField (ascii "+9") (by decide)] (by simp)

/-- Its body in a read of its own. -/
def plusCut : List Arrival :=
  [.data ⟨plusHead.bytes, by decide⟩, .data ⟨ascii "ninebytes", by decide⟩]

/-- A value that is not a decimal integer and still makes the client wait for a body. -/
theorem malformed_length_plus :
    ¬ ValidLength (ascii "+9") ∧
      ∃ c c', Reaches httpClientReadStep (start .blocking plusCut) c ∧
        c.state = .readingHeaders ∧ httpClientReadStep c = .ok c' ∧
        (c'.state ≠ .returning ↔ c.recvBuf.length < plusHead.block.length + 9) := by
  refine ⟨?_, ?_⟩
  · rintro ⟨n, -, hnum⟩
    exact absurd (hnum.digits 43 (by decide)) (by decide)
  · obtain ⟨c, c', received, hc, hs, hbuf, -, hstep, hiff, -⟩ :=
      malformed_length_iff .blocking plusHead (ascii "+9") (ascii "ninebytes") plusCut
        (by decide) (by decide) (by decide)
    have hscan : scanInt 10 ((ascii "+9").take readMaxLen) = some ⟨false, 9, []⟩ := by decide
    have hte : transferEncodingChunked plusHead.headers = false := by decide
    refine ⟨c, c', hc, hs, hstep, ?_⟩
    rw [hiff, hte, hscan, hbuf, List.length_append]
    constructor
    · rintro (h | ⟨m, h, -, hm⟩)
      · cases h
      · obtain rfl : 9 = m := by simpa using h
        omega
    · intro h
      exact Or.inr ⟨9, rfl, by decide, by omega⟩

end EarlyReturn

end MaestroCore
