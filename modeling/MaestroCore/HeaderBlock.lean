import MaestroCore.HttpClient

/-!
# Lines and Header Blocks

A header block on the wire is a sequence of non-empty lines, each ended by CRLF, and an
empty line. Two functions look for its end: `http_parser_find_headers_end` searches the
receive buffer for the four bytes CRLF CRLF, and `http_parser_headers` walks line by line
to the empty line. This module relates both to the block itself.

## Main results

* `firstOcc_crlf_line`: the first CRLF after a line is the one that ends it.
* `firstOcc_headersEnd`: in a block with at least one line the first CRLF CRLF ends the
  last line.
* `httpParserHeaders_block`: `http_parser_headers` parses exactly the lines of the block.
* `headers_scanners_agree_iff`: the two scanners agree on a block exactly when it has at
  least one line and its end has an index below `2 ^ 31`.
-/

open CLang Run

namespace MaestroCore

/-! ### Lines -/

/-- The bytes contain no CRLF. -/
def NoCrlf (s : Bytes) : Prop := List.firstOcc crlf s = none

instance (s : Bytes) : Decidable (NoCrlf s) := inferInstanceAs (Decidable (_ = none))

/-- A text without CRLF neither starts with one nor has one in its tail. -/
theorem NoCrlf.of_cons {x : UInt8} {s : Bytes} (h : NoCrlf (x :: s)) :
    ¬ crlf <+: x :: s ∧ NoCrlf s := by
  by_cases hpre : crlf <+: x :: s
  · rw [NoCrlf, List.firstOcc_of_starts hpre] at h
    exact absurd h (by simp)
  · rw [NoCrlf, List.firstOcc_cons_of_not_starts hpre, Option.map_eq_none_iff] at h
    exact ⟨hpre, h⟩

/-- Bytes without a CR contain no CRLF. -/
theorem noCrlf_of_no_cr {s : Bytes} (h : ∀ b ∈ s, b ≠ 13) : NoCrlf s := by
  induction s with
  | nil => rfl
  | cons x s ih =>
      have hpre : ¬ crlf <+: x :: s := by
        intro hc
        rw [crlf, List.cons_prefix_cons] at hc
        exact h x (by simp) hc.1.symm
      rw [NoCrlf, List.firstOcc_cons_of_not_starts hpre, ih fun b hb => h b (by simp [hb])]
      rfl

/-- The CRLF after a byte of a line does not start at that byte. -/
theorem not_starts_crlf_line {x : UInt8} {s : Bytes} (h : NoCrlf (x :: s)) (rest : Bytes) :
    ¬ crlf <+: x :: (s ++ (crlf ++ rest)) := by
  intro hc
  have hpre := h.of_cons.1
  cases s with
  | nil => simp [crlf, List.cons_prefix_cons] at hc
  | cons y s =>
      apply hpre
      simp only [crlf, List.cons_append, List.cons_prefix_cons] at hc ⊢
      exact ⟨hc.1, hc.2.1, List.nil_prefix⟩

/-- **The first CRLF after a line is the one that ends it.** -/
theorem firstOcc_crlf_line {l : Bytes} (h : NoCrlf l) (rest : Bytes) :
    List.firstOcc crlf (l ++ (crlf ++ rest)) = some l.length := by
  induction l with
  | nil => exact List.firstOcc_of_starts (List.prefix_append crlf rest)
  | cons x s ih =>
      rw [List.cons_append, List.firstOcc_cons_of_not_starts (not_starts_crlf_line h rest),
        ih h.of_cons.2]
      rfl

/-- After a line, CRLF CRLF is found at its end if an empty line follows, and otherwise in
what follows. -/
theorem firstOcc_crlfcrlf_line {l : Bytes} (h : NoCrlf l) (rest : Bytes) :
    List.firstOcc (crlf ++ crlf) (l ++ (crlf ++ rest)) =
      if crlf <+: rest then some l.length
      else (List.firstOcc (crlf ++ crlf) rest).map (· + (l.length + 2)) := by
  induction l with
  | nil =>
      by_cases hrest : crlf <+: rest
      · rw [if_pos hrest]
        exact List.firstOcc_of_starts ((List.prefix_append_right_inj crlf).mpr hrest)
      · have h1 : ¬ crlf ++ crlf <+: 13 :: 10 :: rest := fun hc =>
          hrest ((List.prefix_append_right_inj crlf).mp hc)
        have h2 : ¬ crlf ++ crlf <+: 10 :: rest := by
          simp [crlf, List.cons_prefix_cons]
        rw [if_neg hrest, List.nil_append]
        change List.firstOcc (crlf ++ crlf) (13 :: 10 :: rest) = _
        rw [List.firstOcc_cons_of_not_starts h1, List.firstOcc_cons_of_not_starts h2,
          Option.map_map]
        rfl
  | cons x s ih =>
      have hpre : ¬ crlf ++ crlf <+: x :: (s ++ (crlf ++ rest)) := fun hc =>
        not_starts_crlf_line h rest ((List.prefix_append crlf crlf).trans hc)
      rw [List.cons_append, List.firstOcc_cons_of_not_starts hpre, ih h.of_cons.2]
      split
      · rfl
      · rw [Option.map_map]
        congr 1

/-- A non-empty line of a header block. -/
structure Line where
  text : Bytes
  nonempty : text ≠ []
  noCrlf : NoCrlf text
  deriving Repr

/-- A line does not look like an empty one. -/
theorem Line.not_starts_crlf (l : Line) (rest : Bytes) :
    ¬ crlf <+: l.text ++ (crlf ++ rest) := by
  intro hc
  have h := firstOcc_crlf_line l.noCrlf rest
  rw [List.firstOcc_of_starts hc, Option.some.injEq] at h
  exact l.nonempty (List.length_eq_zero_iff.mp h.symm)

/-- The lines as they stand on the wire, each with its line end. -/
def lineBlock : List Line → Bytes
  | [] => []
  | l :: ls => l.text ++ (crlf ++ lineBlock ls)

/-- A CRLF is two bytes. -/
theorem length_crlf : crlf.length = 2 := rfl

/-- No lines make an empty block. -/
@[simp] theorem lineBlock_nil : lineBlock [] = [] := rfl

/-- A block starts with its first line and the line end after it. -/
@[simp] theorem lineBlock_cons_append (l : Line) (ls : List Line) (rest : Bytes) :
    lineBlock (l :: ls) ++ rest = l.text ++ (crlf ++ (lineBlock ls ++ rest)) := by
  simp [lineBlock]

/-- The length of a block is that of its first line, of its line end and of the rest. -/
@[simp] theorem length_lineBlock_cons (l : Line) (ls : List Line) :
    (lineBlock (l :: ls)).length = l.text.length + 2 + (lineBlock ls).length := by
  simp only [lineBlock, List.length_append, length_crlf]
  omega

/-- A block has at least as many bytes as lines. -/
theorem length_le_length_lineBlock (ls : List Line) : ls.length ≤ (lineBlock ls).length := by
  induction ls with
  | nil => exact Nat.zero_le _
  | cons l ls ih =>
      rw [length_lineBlock_cons, List.length_cons]
      omega

/-- The end of the header block as `http_parser_find_headers_end` counts it: the index of
the CRLF that ends the last line. -/
def headersEnd (ls : List Line) : ℕ := (lineBlock ls).length - 2

/-- The header end lies four bytes before the end of the block and its empty line. -/
theorem headersEnd_add_four {ls : List Line} (hne : ls ≠ []) :
    headersEnd ls + 4 = (lineBlock ls ++ crlf).length := by
  obtain ⟨l, ls, rfl⟩ := List.exists_cons_of_ne_nil hne
  rw [headersEnd, List.length_append, length_crlf, length_lineBlock_cons]
  omega

/-- **In a block with at least one line the first CRLF CRLF ends the last line**, whatever
follows the block. -/
theorem firstOcc_headersEnd {ls : List Line} (hne : ls ≠ []) (rest : Bytes) :
    List.firstOcc (crlf ++ crlf) (lineBlock ls ++ (crlf ++ rest)) = some (headersEnd ls) := by
  induction ls with
  | nil => exact absurd rfl hne
  | cons l ls ih =>
      rw [lineBlock_cons_append, firstOcc_crlfcrlf_line l.noCrlf, headersEnd,
        length_lineBlock_cons]
      cases ls with
      | nil =>
          rw [if_pos (by rw [lineBlock_nil]; exact List.prefix_append crlf rest)]
          simp
      | cons l' ls =>
          have hpre : ¬ crlf <+: lineBlock (l' :: ls) ++ (crlf ++ rest) := by
            rw [lineBlock_cons_append]
            exact l'.not_starts_crlf _
          rw [if_neg hpre, ih (by simp), Option.map_some, headersEnd, length_lineBlock_cons]
          congr 1
          omega

/-! ### Parsing a block -/

/-- The parse of the lines one by one: all headers in order, or the rejection of a line
without a colon. -/
def parseLines : List Line → Except ErrorCode (List HTTPKeyValue)
  | [] => .ok []
  | l :: ls =>
      match httpParserHeaderLine l.text with
      | none => .error .badFormat
      | some header => (parseLines ls).map (header :: ·)

/-- The loop of `http_parser_headers` on the rest of a block. An empty line beyond the
range of `int` ends it as well: its index is negative. -/
theorem httpParserHeadersLoop_block {ls : List Line} {fuel start : ℕ}
    (hfuel : ls.length ≤ fuel) (hstart : start + (lineBlock ls).length < 2 ^ 31 + 2)
    (headers : List HTTPKeyValue) (rest : Bytes) :
    httpParserHeadersLoop fuel start (lineBlock ls ++ (crlf ++ rest)) headers =
      .ok ((parseLines ls).map (headers ++ ·)) := by
  induction ls generalizing fuel start headers with
  | nil =>
      cases fuel with
      | zero => simp [httpParserHeadersLoop, parseLines, Except.map]
      | succ fuel =>
          have hocc : List.firstOcc crlf (lineBlock [] ++ (crlf ++ rest)) = some 0 :=
            List.firstOcc_of_starts (List.prefix_append crlf rest)
          rw [lineBlock_nil, List.length_nil] at hstart
          simp only [httpParserHeadersLoop, hocc, parseLines, Except.map, Nat.cast_zero,
            add_zero, List.append_nil]
          by_cases hlt : start < 2 ^ 31
          · rw [toInt_eq_self hlt, if_neg (by omega), if_neg (by simp), if_pos trivial]
          · rw [if_pos (toInt_neg (by omega) (by omega))]
  | cons l ls ih =>
      rw [length_lineBlock_cons] at hstart
      cases fuel with
      | zero => simp at hfuel
      | succ fuel =>
          have hne : l.text.length ≠ 0 := fun h => l.nonempty (List.length_eq_zero_iff.mp h)
          have hidx : toInt ((start : ℤ) + (l.text.length : ℤ)) = start + l.text.length := by
            have := toInt_eq_self (n := start + l.text.length) (by omega)
            push_cast at this
            exact this
          have hdrop : (l.text ++ (crlf ++ (lineBlock ls ++ (crlf ++ rest)))).drop
              (l.text.length + 2) = lineBlock ls ++ (crlf ++ rest) := by
            rw [← List.append_assoc]
            exact List.drop_left' (by simp [length_crlf])
          rw [lineBlock_cons_append, httpParserHeadersLoop, firstOcc_crlf_line l.noCrlf]
          simp only [hidx, List.take_left', hdrop]
          rw [if_neg (by omega), if_neg (by simp), if_neg hne, parseLines]
          cases httpParserHeaderLine l.text with
          | none => rfl
          | some header =>
              simp only
              rw [ih (by simpa using hfuel) (by omega)]
              cases parseLines ls <;> simp [Except.map]

/-- **`http_parser_headers` on a block** parses exactly its lines, whatever follows the block. -/
theorem httpParserHeaders_block_append {ls : List Line}
    (hlen : (lineBlock ls).length < 2 ^ 31 + 2) (rest : Bytes) :
    httpParserHeaders (lineBlock ls ++ (crlf ++ rest)) = .ok (parseLines ls) := by
  have hfuel : ls.length ≤ (lineBlock ls ++ (crlf ++ rest)).length := by
    have := length_le_length_lineBlock ls
    simp only [List.length_append]
    omega
  rw [httpParserHeaders, httpParserHeadersLoop_block hfuel (by omega)]
  cases parseLines ls <;> simp [Except.map]

/-- The headers parser on a block of lines parses each line in turn. -/
theorem httpParserHeaders_block {ls : List Line} (hlen : (lineBlock ls).length < 2 ^ 31 + 2) :
    httpParserHeaders (lineBlock ls ++ crlf) = .ok (parseLines ls) := by
  have happend := httpParserHeaders_block_append hlen []
  rwa [List.append_nil] at happend

/-! ### What the headers decide -/

/-- `strchr` splits a text around one byte. -/
theorem strchr_length {ch : UInt8} {s x y : Bytes} (h : strchr ch s = some (x, y)) :
    x.length + 1 + y.length = s.length := by
  obtain ⟨rfl, -⟩ := strchr_eq_some_iff.mp h
  rw [List.length_append, List.length_cons]
  omega

/-- A header's value is no longer than its line. -/
theorem httpParserHeaderLine_length {line : Bytes} {header : HTTPKeyValue}
    (h : httpParserHeaderLine line = some header) : header.value.length ≤ line.length := by
  rw [httpParserHeaderLine, Option.map_eq_some_iff] at h
  obtain ⟨⟨x, y⟩, hs, rfl⟩ := h
  have h1 := strchr_length hs
  have h2 : (cstr line).length ≤ line.length := (List.takeWhile_prefix _).length_le
  have h3 : (trimLeading y).length ≤ y.length := (List.dropWhile_suffix _).length_le
  have h4 : (trimTrailing (trimLeading y)).length ≤ (trimLeading y).length :=
    (List.rdropWhile_prefix _ _).length_le
  simp only
  omega

/-- The values of a block's headers are no longer than the block. -/
theorem parseLines_value_length {ls : List Line} {headers : List HTTPKeyValue}
    (h : parseLines ls = .ok headers) {header : HTTPKeyValue} (hmem : header ∈ headers) :
    header.value.length + 2 ≤ (lineBlock ls).length := by
  induction ls generalizing headers with
  | nil =>
      rw [parseLines, Except.ok.injEq] at h
      subst h
      exact absurd hmem (by simp)
  | cons l ls ih =>
      rw [length_lineBlock_cons]
      rw [parseLines] at h
      cases hl : httpParserHeaderLine l.text with
      | none => simp [hl] at h
      | some first =>
          cases hls : parseLines ls with
          | error e => simp [hl, hls, Except.map] at h
          | ok later =>
              simp only [hl, hls, Except.map, Except.ok.injEq] at h
              subst h
              rcases List.mem_cons.mp hmem with rfl | hlater
              · have := httpParserHeaderLine_length hl
                omega
              · have := ih hls hlater
                omega

/-- The length the headers declare: the value of `Content-Length`, and `0` where it is
missing or does not parse. -/
def declaredLength (headers : List HTTPKeyValue) : ℤ :=
  match httpParserGetHeaderValue headers (ascii "Content-Length") with
  | .error _ => 0
  | .ok value =>
      match parseStringToInt value with
      | .ok (some n) => n
      | _ => 0

/-- The state entered after the headers, with `received` bytes of the body in the
buffer. -/
def framedState (headers : List HTTPKeyValue) (received : ℕ) : HTTPClientState :=
  if transferEncodingChunked headers then .decipherChonkiness
  else if 0 < declaredLength headers then
    if declaredLength headers ≤ received then .returning else .readingBody
  else .returning

/-- The client after the headers, with `rest` the bytes of the body in the buffer. -/
def framed (c : HTTPClient) (headers : List HTTPKeyValue) (rest : Bytes) : HTTPClient :=
  { c with
    headers := some headers
    recvBuf := rest
    retries := 0
    contentLength :=
      if !transferEncodingChunked headers && decide (0 < declaredLength headers) then
        declaredLength headers
      else c.contentLength }

/-- A lookup that fails leaves the declared length at 0. -/
theorem declaredLength_of_missing {headers : List HTTPKeyValue} {e : ErrorCode}
    (h : httpParserGetHeaderValue headers (ascii "Content-Length") = .error e) :
    declaredLength headers = 0 := by
  rw [declaredLength, h]

/-- The declared length is the parsed value, or 0 when the parser refuses it. -/
theorem declaredLength_of_parsed {headers : List HTTPKeyValue} {value : Bytes} {r : Option ℤ}
    (h : httpParserGetHeaderValue headers (ascii "Content-Length") = .ok value)
    (hr : parseStringToInt value = .ok r) : declaredLength headers = r.getD 0 := by
  rw [declaredLength, h]
  simp only [hr]
  cases r <;> rfl

/-- A value found by name is the value of one of the headers. -/
theorem exists_of_httpParserGetHeaderValue {headers : List HTTPKeyValue} {name value : Bytes}
    (h : httpParserGetHeaderValue headers name = .ok value) :
    ∃ header ∈ headers, header.key = name ∧ header.value = value := by
  unfold httpParserGetHeaderValue at h
  split at h
  · rename_i header hfind
    exact ⟨header, List.mem_of_find?_eq_some hfind, by simpa using List.find?_some hfind,
      Except.ok.inj h⟩
  · exact absurd h (by simp)

/-- The worker's decision on parsed headers whose values are short enough to parse. -/
theorem httpClientHeadersComplete_of_parsed {c : HTTPClient} {k : ℕ}
    {headers : List HTTPKeyValue}
    (hparse : httpParserHeaders (c.recvBuf.take (k + 4)) = .ok (.ok headers))
    (hshort : ∀ h ∈ headers, h.value.length < 2 ^ 31) :
    httpClientHeadersComplete c k =
      .ok (framedState headers (c.recvBuf.drop (k + 4)).length,
        framed c headers (c.recvBuf.drop (k + 4))) := by
  simp only [httpClientHeadersComplete, hparse, bind, Except.bind, framedState, framed]
  cases htrans : transferEncodingChunked headers with
  | true => simp [goto]
  | false =>
      rcases hcl : httpParserGetHeaderValue headers (ascii "Content-Length") with e | value
      · simp [declaredLength_of_missing hcl, goto]
      · obtain ⟨h, hh, -, rfl⟩ := exists_of_httpParserGetHeaderValue hcl
        obtain ⟨r, hr⟩ : ∃ r, parseStringToInt h.value = .ok r :=
          ⟨_, parseStringToInt_eq (hshort h hh)⟩
        simp only [hr, declaredLength_of_parsed hcl hr]
        by_cases hpos : 0 < r.getD 0
        · simp only [hpos, goto, if_true, Bool.false_eq_true, if_false, Bool.not_false,
            Bool.true_and, decide_true]
          split <;> rfl
        · simp [hpos, goto]

/-- **The header worker on a complete block**: the headers are those of the block, the
bytes after the block stay in the buffer, and the framing decides the next state. -/
theorem httpClientWorktaskReadHeaders_block {c : HTTPClient} {ls : List Line} {rest : Bytes}
    {headers : List HTTPKeyValue} (hbuf : c.recvBuf = lineBlock ls ++ (crlf ++ rest))
    (hne : ls ≠ []) (hend : headersEnd ls < 2 ^ 31) (hparse : parseLines ls = .ok headers) :
    httpClientWorktaskReadHeaders c =
      .ok (framedState headers rest.length, framed c headers rest) := by
  have hsplit := headersEnd_add_four hne
  have hfind : httpParserFindHeadersEnd c.recvBuf = headersEnd ls := by
    rw [httpParserFindHeadersEnd, hbuf, firstOcc_headersEnd hne]
    exact toInt_eq_self hend
  have htake : c.recvBuf.take (headersEnd ls + 4) = lineBlock ls ++ crlf := by
    rw [hbuf, ← List.append_assoc, List.take_left' hsplit.symm]
  have hdrop : c.recvBuf.drop (headersEnd ls + 4) = rest := by
    rw [hbuf, ← List.append_assoc, List.drop_left' hsplit.symm]
  have hempty : c.recvBuf ≠ [] := by
    intro h
    have := congrArg List.length (hbuf.symm.trans h)
    rw [← List.append_assoc, List.length_append, List.length_nil] at this
    omega
  have hheaders : httpParserHeaders (c.recvBuf.take (headersEnd ls + 4)) =
      .ok (.ok headers) := by
    rw [htake, httpParserHeaders_block (by rw [headersEnd] at hend; omega), hparse]
  have hcomplete := httpClientHeadersComplete_of_parsed hheaders
    (fun h hh => by
      have := parseLines_value_length hparse hh
      rw [headersEnd] at hend
      omega)
  rw [hdrop] at hcomplete
  rw [httpClientWorktaskReadHeaders, hfind]
  simp only
  rw [if_pos ⟨hempty, by omega⟩, Int.toNat_natCast, hcomplete]

/-! ### The two scanners -/

/-- What the two scanners of a header block have to agree on, for a client whose receive
buffer holds the lines `ls`, an empty line and `rest`: the search ends at the empty line,
the parser sees exactly the lines before it, and what the header worker leaves in the
buffer is what follows it. -/
structure ScannersAgree (c : HTTPClient) (ls : List Line) (rest : Bytes) : Prop where
  found : 0 ≤ httpParserFindHeadersEnd c.recvBuf ∧
    httpParserFindHeadersEnd c.recvBuf + 4 = (lineBlock ls ++ crlf).length
  parsed : httpParserHeaders
    (c.recvBuf.take (httpParserFindHeadersEnd c.recvBuf + 4).toNat) = .ok (parseLines ls)
  left : ∀ headers, parseLines ls = .ok headers →
    ∃ s c', httpClientWorktaskReadHeaders c = .ok (s, c') ∧
      c'.headers = some headers ∧ c'.recvBuf = rest

/-- **The two scanners agree** on a header block exactly when it has at least one line and
its end has an index that fits `int`. A block without lines is only an empty line, of
which the search for CRLF CRLF cannot find the end. -/
theorem headers_scanners_agree_iff (c : HTTPClient) (ls : List Line) (rest : Bytes) :
    ScannersAgree { c with recvBuf := lineBlock ls ++ (crlf ++ rest) } ls rest ↔
      ls ≠ [] ∧ headersEnd ls < 2 ^ 31 := by
  constructor
  · intro h
    obtain ⟨hnonneg, hfound⟩ := h.found
    rw [List.length_append, length_crlf] at hfound
    have hne : ls ≠ [] := by
      rintro rfl
      have hnil : (lineBlock []).length = 0 := rfl
      omega
    refine ⟨hne, ?_⟩
    simp only [httpParserFindHeadersEnd, firstOcc_headersEnd hne] at hfound
    have hlt := toInt_lt (headersEnd ls)
    rw [headersEnd] at hlt hfound ⊢
    omega
  · rintro ⟨hne, hend⟩
    have hsplit := headersEnd_add_four hne
    have hfind : httpParserFindHeadersEnd (lineBlock ls ++ (crlf ++ rest)) = headersEnd ls := by
      rw [httpParserFindHeadersEnd, firstOcc_headersEnd hne]
      exact toInt_eq_self hend
    refine ⟨?_, ?_, ?_⟩
    · rw [hfind]
      omega
    · have htake : (headersEnd ls + 4 : ℤ).toNat = (lineBlock ls ++ crlf).length := by omega
      simp only [hfind, htake]
      rw [← List.append_assoc, List.take_left' rfl]
      exact httpParserHeaders_block (by rw [headersEnd] at hend; omega)
    · intro headers hparse
      exact ⟨_, _, httpClientWorktaskReadHeaders_block rfl hne hend hparse, rfl, rfl⟩

/-- A response without headers: the empty line right after the status line is not
recognised as the end of the header block. -/
theorem scanners_disagree_without_headers :
    ∃ c, run httpClientReadStep 1
        (start .blocking [.data ⟨ascii "HTTP/1.1 200 OK\r\n\r\nhello", by decide⟩]) = .ok c ∧
      c.state = .readingHeaders ∧ c.recvBuf = lineBlock [] ++ (crlf ++ ascii "hello") ∧
      ¬ ScannersAgree c [] (ascii "hello") := by
  refine ⟨_, rfl, rfl, by decide, ?_⟩
  intro h
  exact absurd h.found.1 (by decide)

end MaestroCore
