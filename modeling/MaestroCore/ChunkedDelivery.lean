import MaestroCore.Chunked
import MaestroCore.Segments

/-!
# Delivery of Chunked Responses

When the line of the last chunk and the tail after it are read together, a chunked
response is delivered: the payload if it is not empty, and otherwise whatever follows the
message in the buffer.

For a server that writes chunk sizes as hexadecimal numerals, with or without extensions,
this gives exact delivery however the stream is cut before the last chunk, as long as the
header block, the size lines and the trailer are short enough for the `int` indices of the
line scanners.

## Main results

* `chunked_delivers`: the delivery of a chunked response, with bytes after the message.
* `chunkSize_numeral`: a hexadecimal numeral with an optional extension is read as its
  value.
* `chunked_exact`: exact delivery of the chunks, each once and in order.
-/

open CLang Run

namespace MaestroCore

section Delivery

variable {sink : Sink} {h : Head} {b : ChunkedBody} {extra : Bytes} {incoming : List Arrival}

/-- **The delivery of a chunked response** whose tail is read together with the line of the
last chunk. What comes with it of the bytes after the message is delivered only when the
payload is empty. -/
theorem chunked_delivers (hstream : pendingOf incoming = h.bytes ++ (b.bytes ++ extra))
    (hend : headersEnd h.lines < 2 ^ 31) (hte : transferEncodingChunked h.headers = true)
    (hcut : NoCutIn sink incoming extra.length (b.tail ++ extra).length) :
    ∃ r, r <+: extra ∧ (r = [] ↔ CutAt sink incoming extra.length) ∧
      Delivers sink incoming (if payload b.chunks = [] then r else payload b.chunks) := by
  obtain ⟨c, hc, hlast, hdec, hdel, hall⟩ := exists_lastRead sink hstream hend hte
  have hpend : c.pending.length ≤ extra.length := by
    by_contra hlt
    obtain ⟨r, -, hr⟩ := hlast.buffer
    have hlen := congrArg List.length hr
    rw [List.length_append] at hlen
    exact hcut _ (by omega) (by omega) ⟨c, hc, rfl⟩
  obtain ⟨r, hr, hstep⟩ := hlast.step_complete hpend
  have hlen := congrArg List.length hr
  rw [List.length_append] at hlen
  refine ⟨r, ⟨_, hr⟩, ⟨?_, ?_⟩, ?_⟩
  · rintro rfl
    exact ⟨c, hc, by simpa using hlen⟩
  · rintro ⟨d, hd, hk⟩
    have hsame : d.pending.length = c.pending.length := by
      rcases hlast.pending_cases hpend (hall d hd) with heq | hlt
      · rw [heq]
      · rw [List.length_append] at hlt
        omega
    exact List.length_eq_zero_iff.mp (by omega)
  · have hdel' : Undelivered sink { c with recvBuf := r, state := .returning } :=
      ⟨hdel.1, hdel.2, hdel.3, hdel.4⟩
    obtain ⟨c', hc', hdelivered, -⟩ := hdel'.deliver rfl
    refine ⟨_, c', hc.tail hstep, rfl, hc', ?_⟩
    have hsource : deliverySource { c with recvBuf := r, state := .returning } =
        if payload b.chunks = [] then r else payload b.chunks := by
      rw [← hdec, deliverySource]
      cases hbody : c.decodedBody with
      | none => simp
      | some body => cases body <;> simp
    rwa [hsource] at hdelivered

end Delivery

/-! ### Chunks with hexadecimal sizes -/

/-- A chunk as a server writes it: its length as a hexadecimal numeral of at most 47
digits in either case, an optional extension after a semicolon, and the data. -/
structure HexChunk where
  hex : Bytes
  ext : Bytes
  data : Bytes
  hex_numeral : IsNumeral 16 data.length hex
  hex_short : hex.length ≤ 47
  ext_semicolon : ext = [] ∨ ext.head? = some 59
  ext_noCrlf : NoCrlf ext
  data_nonempty : data ≠ []
  data_short : data.length < 2 ^ 31

/-- The size line of the chunk. -/
def HexChunk.line (ch : HexChunk) : Bytes := ch.hex ++ ch.ext

/-- The chunk on the wire. -/
def HexChunk.bytes (ch : HexChunk) : Bytes := ch.line ++ (crlf ++ (ch.data ++ crlf))

/-- A hexadecimal digit ends neither a line nor a size token. -/
theorem isDigit_plain {d : UInt8} (h : isDigit 16 d) :
    d ≠ 13 ∧ d ≠ 0 ∧ isSizeDelimiter d = false := by
  have hr := isDigit_range (by omega) h
  simp only [isSizeDelimiter, ne_eq, ← UInt8.toNat_inj, UInt8.reduceToNat,
    Bool.or_eq_false_iff, decide_eq_false_iff_not]
  omega

/-- A text without carriage returns in front brings no CRLF. -/
theorem noCrlf_append {s t : Bytes} (hs : ∀ x ∈ s, x ≠ 13) (ht : NoCrlf t) :
    NoCrlf (s ++ t) := by
  induction s with
  | nil => exact ht
  | cons x s ih =>
      have hpre : ¬ crlf <+: x :: (s ++ t) := by
        intro hc
        rw [crlf, List.cons_prefix_cons] at hc
        exact hs x (by simp) hc.1.symm
      rw [List.cons_append, NoCrlf, List.firstOcc_cons_of_not_starts hpre,
        ih fun y hy => hs y (by simp [hy])]
      rfl

/-- **A hexadecimal numeral with an optional extension** is read as its value. -/
theorem chunkSize_numeral {n : ℕ} {hex ext : Bytes} (hhex : IsNumeral 16 n hex)
    (hshort : hex.length ≤ 47) (hext : ext = [] ∨ ext.head? = some 59) (hn : n < 2 ^ 63) :
    chunkSize (hex ++ ext) = .ok (some n) := by
  have htoken : sizeToken (hex ++ ext) = hex := by
    have hstop : ext.takeWhile (fun b => !isSizeDelimiter b) = [] := by
      rcases hext with rfl | hhead
      · rfl
      · cases ext with
        | nil => rfl
        | cons x ext =>
            obtain rfl : x = 59 := by simpa using hhead
            rfl
    rw [sizeToken, List.takeWhile_append_of_pos
      (fun d hd => by simp [(isDigit_plain (hhex.digits d hd)).2.2]), hstop, List.append_nil]
  have hcstr : cstr hex = hex :=
    cstr_eq_self fun d hd => (isDigit_plain (hhex.digits d hd)).2.1
  have hval : strtoull 16 hex = some (n, []) := by
    rw [strtoull, scanInt_digits (by omega) hhex.nonempty hhex.digits, hhex.value]
    simp only [Option.map_some, Bool.false_eq_true, if_false]
    rw [if_neg (by omega)]
  rw [chunkSize]
  simp only [htoken, hcstr, hval]
  rw [if_neg hhex.nonempty, if_neg (by rw [lineSize]; omega), toLong_eq_self hn]

/-- A chunk whose size line is short enough is read by the client as its data. -/
def HexChunk.chunk (ch : HexChunk) (hline : ch.line.length < 2 ^ 31) : Chunk where
  line := ch.line
  data := ch.data
  noCrlf := noCrlf_append (fun d hd => (isDigit_plain (ch.hex_numeral.digits d hd)).1)
    ch.ext_noCrlf
  line_short := hline
  data_short := ch.data_short
  size := by
    have hpos : ch.data.length ≠ 0 := fun h =>
      ch.data_nonempty (List.length_eq_zero_iff.mp h)
    have hshort := ch.data_short
    refine ⟨ch.data.length, chunkSize_numeral ch.hex_numeral ch.hex_short ch.ext_semicolon
      (by omega), by omega, ?_⟩
    rw [toInt_eq_self hshort, toSize_eq_self (by omega)]

/-- Chunks with short size lines are chunks of the model, with the same bytes and the same data. -/
theorem exists_chunks {chunks : List HexChunk}
    (hlines : ∀ ch ∈ chunks, ch.line.length < 2 ^ 31) :
    ∃ chs : List Chunk, chunkBytes chs = (chunks.map HexChunk.bytes).flatten ∧
      payload chs = (chunks.map HexChunk.data).flatten := by
  induction chunks with
  | nil => exact ⟨[], rfl, rfl⟩
  | cons ch chunks ih =>
      obtain ⟨chs, hbytes, hdata⟩ := ih fun ch' hch' => hlines ch' (by simp [hch'])
      refine ⟨ch.chunk (hlines ch (by simp)) :: chs, ?_, ?_⟩
      · simp [chunkBytes, HexChunk.chunk, HexChunk.bytes, hbytes]
      · simp [payload, HexChunk.chunk, hdata]

/-- The last chunk, the trailer lines and the empty line. -/
def lastChunk (trailers : List Line) : Bytes :=
  ascii "0" ++ (crlf ++ (lineBlock trailers ++ crlf))

/-- **Chunked decoding is exact** under every way of cutting the stream in which the last
chunk and everything after it arrive in one read: the chunks are delivered, each once and
in order. The header block, every size line and the trailer have to be short enough for
the `int` indices of the scanners. -/
theorem chunked_exact (sink : Sink) (statusLine : StatusLine) (fields : List HeaderField)
    (chunks : List HexChunk) (trailers : List Line) (incoming : List Arrival)
    (hte : fieldNamed (ascii "Transfer-Encoding") fields = some (ascii "chunked"))
    (hstream : pendingOf incoming =
      response statusLine fields ((chunks.map HexChunk.bytes).flatten ++ lastChunk trailers))
    (hone : NoCutIn sink incoming 0 ((lastChunk trailers).length - 1))
    (hblock : headersEnd (fields.map HeaderField.line) < 2 ^ 31)
    (hlines : ∀ ch ∈ chunks, ch.line.length < 2 ^ 31)
    (htrailers : headersEnd trailers < 2 ^ 31) :
    Delivers sink incoming (chunks.map HexChunk.data).flatten := by
  obtain ⟨chs, hbytes, hdata⟩ := exists_chunks hlines
  have hne := ne_nil_of_fieldNamed hte
  let b : ChunkedBody :=
    { chunks := chs, last := ascii "0", trailers := trailers, last_noCrlf := by decide
      last_short := by decide, last_size := by decide, trailers_short := htrailers }
  have hstream' : pendingOf incoming =
      (Head.ofFields statusLine fields hne).bytes ++ (b.bytes ++ []) := by
    rw [hstream, response_eq hne, ← hbytes, List.append_nil]
    rfl
  have hcut : NoCutIn sink incoming ([] : Bytes).length (b.tail ++ []).length := by
    intro k hpos hle
    refine hone k hpos (hle.trans ?_)
    have : (lastChunk trailers).length = b.tail.length + 3 := by
      simp only [lastChunk, ChunkedBody.tail, b, List.length_append, length_crlf]
      have : (ascii "0").length = 1 := by decide
      omega
    rw [List.append_nil]
    omega
  obtain ⟨r, hr, -, hdelivers⟩ := chunked_delivers hstream' hblock
    (transferEncodingChunked_of_chunked hte) hcut
  rw [List.prefix_nil.mp hr] at hdelivers
  have hbody : (if payload b.chunks = [] then [] else payload b.chunks) =
      (chunks.map HexChunk.data).flatten := by
    rw [← hdata]
    split
    · exact (by assumption : payload b.chunks = []).symm
    · rfl
  rwa [hbody] at hdelivers

/-- `Transfer-Encoding: chunked`. -/
def chunkedField : HeaderField where
  name := ascii "Transfer-Encoding"
  value := ascii " chunked"

/-- `5;a=b`, then `hello`. -/
def helloChunk : HexChunk where
  hex := ascii "5"
  ext := ascii ";a=b"
  data := ascii "hello"
  hex_numeral := ⟨by decide, by decide, by decide⟩
  hex_short := by decide
  ext_semicolon := by decide
  ext_noCrlf := by decide
  data_nonempty := hello_ne_nil
  data_short := by decide

/-- A chunked response of which the chunk is cut twice. -/
def helloChunked : List Arrival :=
  [.data ⟨response statusOk [chunkedField] (ascii "5;"), response_ne_nil _ _ _⟩,
    .failure .EAGAIN, .data ⟨ascii "a=b\r\nhe", by decide⟩, .data ⟨ascii "llo\r", by decide⟩,
    .data ⟨ascii "\n0\r\n\r\n", by decide⟩]

/-- The chunk of this response is delivered. -/
theorem chunked_exact_hello : Delivers .blocking helloChunked (ascii "hello") :=
  chunked_exact .blocking statusOk [chunkedField] [helloChunk] [] helloChunked
    (by decide) (by decide)
    (noCutIn_of_cuts (by decide) (by decide)) (by decide)
    (by decide) (by decide)

/-- A header field of `2 ^ 31` bytes keeps a chunked response from being delivered. -/
theorem chunked_not_delivered_longField {n : ℕ} (hmin : 2 ^ 31 ≤ n) (hmax : n < 2 ^ 31 + 1024)
    {rest body : Bytes} {incoming : List Arrival}
    (hstream : pendingOf incoming = response statusOk [chunkedField, longField n] rest) :
    ¬ Delivers .blocking incoming body := by
  rw [response_eq (by simp)] at hstream
  refine not_delivers_of_stuck hstream ?_
  have hlen : chunkedField.text.length = 26 := by decide
  have hend := headersEnd_longField chunkedField n
  rw [Head.ofFields, hend]
  exact toInt_neg (by omega) (by omega)

/-- A chunked response with a header field of `2 ^ 31` bytes, of which the last chunk
arrives in one read. -/
theorem chunked_long_header_field_lost :
    fieldNamed (ascii "Transfer-Encoding") [chunkedField, longField (2 ^ 31)] =
        some (ascii "chunked") ∧
      ∃ incoming, pendingOf incoming = response statusOk [chunkedField, longField (2 ^ 31)]
          (([helloChunk].map HexChunk.bytes).flatten ++ lastChunk []) ∧
        NoCutIn .blocking incoming 0 ((lastChunk []).length - 1) ∧
        ¬ Delivers .blocking incoming ([helloChunk].map HexChunk.data).flatten := by
  have hstream : pendingOf
      ([.data ⟨_, response_ne_nil statusOk [chunkedField, longField (2 ^ 31)] helloChunk.bytes⟩] ++
        [.data ⟨lastChunk [], by simp [lastChunk, crlf]⟩]) =
      response statusOk [chunkedField, longField (2 ^ 31)]
        (([helloChunk].map HexChunk.bytes).flatten ++ lastChunk []) := by
    simp only [pendingOf, response, List.append_assoc, List.append_nil, List.map_cons,
      List.map_nil, List.flatten_cons, List.flatten_nil, List.cons_append, List.nil_append]
  refine ⟨?_, _, hstream, noCutIn_of_last (by simp [Arrival.continues]) (by decide), ?_⟩
  · rw [fieldNamed, List.find?_cons_of_pos (by decide)]
    decide
  · exact chunked_not_delivered_longField le_rfl (by omega) hstream

end MaestroCore
