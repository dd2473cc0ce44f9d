import MaestroCore.ChunkedEnd
import MaestroCore.EarlyReturn

/-!
# Bytes after the End of a Message

The reads of the client are not limited to the bytes that the message still lacks, and
`http_client_worktask_returning` delivers the whole receive buffer when nothing has been
decoded. So what the server sends after a message reaches the caller when it shares a
read with the end of the message: always for a body of declared length, and for a chunked
body when its payload is empty.

## Main results

* `extra_bytes_iff`: for each framing, when the caller receives exactly the message body.
-/

open CLang Run

namespace MaestroCore

section ExtraBytes

variable {sink : Sink} {h : Head} {b : ChunkedBody} {extra : Bytes} {incoming : List Arrival}
  {c c' : HTTPClient}

/-- A body of declared length is delivered without extra bytes exactly when a read ends at
the end of the message. -/
theorem declared_body_iff (sink : Sink) {body : Bytes}
    (hstream : pendingOf incoming = h.bytes ++ (body ++ extra))
    (hend : headersEnd h.lines < 2 ^ 31) (hte : transferEncodingChunked h.headers = false)
    (hlen : declaredLength h.headers = body.length) :
    ∃ x, Delivers sink incoming x ∧ (x = body ↔ CutAt sink incoming extra.length) := by
  have hn : (declaredLength h.headers).toNat = body.length := by rw [hlen]; rfl
  obtain ⟨c, hc, hcs, hI, hcut⟩ := exists_returning sink hstream hend hte
    (by rw [hn]; simp)
  refine ⟨c.recvBuf, hI.delivers hc hcs, ?_⟩
  have hun : c.recvBuf ++ c.pending = body ++ extra := by
    cases hI with
    | reading hs => rw [hcs] at hs; cases hs
    | complete _ _ hun => rwa [List.append_nil] at hun
  have hsum := congrArg List.length hun
  simp only [List.length_append] at hsum
  constructor
  · intro hbody
    rw [hbody] at hsum
    exact ⟨c, hc, by omega⟩
  · rintro ⟨d, hd, hk⟩
    have hsame : c.pending.length = extra.length := by
      rcases hcut d hd with heq | hlt
      · rw [← heq, hk]
      · rw [hn, List.length_append] at hlt
        omega
    exact (List.append_inj hun (by omega)).1

/-- A chunked body is delivered without extra bytes, when its tail is not cut, exactly when
it is not empty or a read ends at the end of the message. -/
theorem chunked_body_iff (hstream : pendingOf incoming = h.bytes ++ (b.bytes ++ extra))
    (hend : headersEnd h.lines < 2 ^ 31) (hte : transferEncodingChunked h.headers = true)
    (hcut : NoCutIn sink incoming extra.length (b.tail ++ extra).length) :
    ∃ x, Delivers sink incoming x ∧
      (x = payload b.chunks ↔ payload b.chunks ≠ [] ∨ CutAt sink incoming extra.length) := by
  obtain ⟨r, -, hr, hdelivers⟩ := chunked_delivers hstream hend hte hcut
  refine ⟨_, hdelivers, ?_⟩
  rw [← hr]
  by_cases hnil : payload b.chunks = []
  · rw [if_pos hnil, hnil]
    simp
  · rw [if_neg hnil]
    simp [hnil]

/-- A client that has removed the line of the last chunk too early, before a line that is
no size: it waits for that line and then fails. -/
theorem lost_step (hline : chunkSize b.tailLine = .ok none)
    (hc : c.state = .error ∨ c.state = .decipherChonkiness ∧ c.unread = b.tail ++ extra)
    (hstep : httpClientReadStep c = .ok c') :
    c'.state = .error ∨ c'.state = .decipherChonkiness ∧ c'.unread = b.tail ++ extra := by
  rcases hc with herr | ⟨hs, hun⟩
  · rw [readStep_of_final (Or.inl herr), Except.ok.injEq] at hstep
    exact Or.inl (hstep ▸ herr)
  · obtain ⟨r, htail, hno, hshort, -⟩ := b.tail_split
    have hun' : c.recvBuf ++ c.pending = b.tailLine ++ (crlf ++ (r ++ extra)) := by
      rw [htail] at hun
      simpa [HTTPClient.unread] using hun
    by_cases hlt : c.recvBuf.length < b.tailLine.length + 2
    · have hwork := (work_decipherChonkiness hs).trans (decipherChonkiness_waiting hun' hno hlt)
      rcases waited (by omega) hwork hstep with herr | ⟨c₁, hf | rfl, rfl⟩
      · exact Or.inl herr
      · exact Or.inr ⟨rfl, hf.unread.trans hun⟩
      · exact Or.inr ⟨rfl, hun⟩
    · rw [← List.append_assoc b.tailLine] at hun'
      obtain ⟨r', hr', -⟩ := List.exists_split_of_length_le hun'
        (by rw [List.length_append, length_crlf]; omega)
      rw [List.append_assoc] at hr'
      obtain ⟨s, d, hwork, rfl⟩ := work_of_readStep hstep
      rw [work_decipherChonkiness hs, decipherChonkiness_complete hr' hno hshort, hline] at hwork
      obtain ⟨rfl, rfl⟩ := Prod.mk.injEq .. ▸ Except.ok.inj hwork
      exact Or.inl rfl

/-- A chunked body with a cut tail is not delivered at all, when the line after the line of
the last chunk is no size. -/
theorem not_delivers_of_cut_tail
    (hstream : pendingOf incoming = h.bytes ++ (b.bytes ++ extra))
    (hend : headersEnd h.lines < 2 ^ 31) (hte : transferEncodingChunked h.headers = true)
    (hcut : ¬ NoCutIn sink incoming extra.length (b.tail ++ extra).length)
    (hline : chunkSize b.tailLine = .ok none) (x : Bytes) : ¬ Delivers sink incoming x := by
  obtain ⟨c, hc, hlast, -, -, hall⟩ := exists_lastRead sink hstream hend hte
  have hpend : extra.length < c.pending.length := by
    by_contra hle
    apply hcut
    rintro k hlo hhi ⟨d, hd, rfl⟩
    rcases hlast.pending_cases (not_lt.mp hle) (hall d hd) with heq | hlt
    · rw [heq] at hlo
      omega
    · omega
  obtain ⟨c', hstep, hs', hun', -⟩ := hlast.step_incomplete hpend
  rintro ⟨y, y', hy, hys, -⟩
  rcases hy.total (hc.tail hstep) with hyc | hcy
  · rcases final_of_returning hys hyc with rfl | ⟨-, hs | hs⟩
    · rw [hys] at hs'; cases hs'
    · rw [hs'] at hs; cases hs
    · rw [hs'] at hs; cases hs
  · rcases Reaches.invariant (I := fun c : HTTPClient => c.state = .error ∨
      c.state = .decipherChonkiness ∧ c.unread = b.tail ++ extra)
      (fun _ _ hxy hx => lost_step hline hx hxy) hcy (Or.inr ⟨hs', hun'⟩) with hs | ⟨hs, -⟩
    · rw [hys] at hs; cases hs
    · rw [hys] at hs; cases hs

/-- **Bytes after the message.** A body of declared length is all that the caller receives
exactly when a read ends at the end of the message. A chunked body whose tail is not cut is
all that the caller receives exactly when it is not empty or a read ends at the end of the
message; with a cut tail before a line that is no size, the caller receives nothing. -/
theorem extra_bytes_iff (sink : Sink) (h : Head) (extra : Bytes) (incoming : List Arrival)
    (hend : headersEnd h.lines < 2 ^ 31) :
    (∀ body, pendingOf incoming = h.bytes ++ (body ++ extra) →
      transferEncodingChunked h.headers = false → 0 < body.length →
      declaredLength h.headers = body.length →
      ((∀ x, Delivers sink incoming x → x = body) ↔ CutAt sink incoming extra.length)) ∧
    ∀ b : ChunkedBody, pendingOf incoming = h.bytes ++ (b.bytes ++ extra) →
      transferEncodingChunked h.headers = true →
      (NoCutIn sink incoming extra.length (b.tail ++ extra).length →
        ((∀ x, Delivers sink incoming x → x = payload b.chunks) ↔
          payload b.chunks ≠ [] ∨ CutAt sink incoming extra.length)) ∧
      (¬ NoCutIn sink incoming extra.length (b.tail ++ extra).length →
        chunkSize b.tailLine = .ok none → ∀ x, ¬ Delivers sink incoming x) := by
  have hunique : ∀ {x body : Bytes}, Delivers sink incoming x →
      ((∀ y, Delivers sink incoming y → y = body) ↔ x = body) := fun hx =>
    ⟨fun hall => hall _ hx, fun heq y hy => (hy.unique hx).trans heq⟩
  constructor
  · intro body hstream hte _ hlen
    obtain ⟨x, hx, hiff⟩ := declared_body_iff sink hstream hend hte hlen
    rw [hunique hx, hiff]
  · intro b hstream hte
    constructor
    · intro hcut
      obtain ⟨x, hx, hiff⟩ := chunked_body_iff hstream hend hte hcut
      rw [hunique hx, hiff]
    · exact not_delivers_of_cut_tail hstream hend hte

end ExtraBytes

/-- The head of a response of five bytes. -/
def fiveHead : Head := Head.ofFields statusOk [lengthFive] (by simp)

/-- A response of five bytes and three bytes after it, in one read. -/
def fiveJoined : List Arrival :=
  [.data ⟨fiveHead.bytes ++ (ascii "hello" ++ ascii "ABC"), by decide⟩]

/-- The same bytes with a read that ends at the end of the message. -/
def fiveSeparate : List Arrival :=
  [.data ⟨fiveHead.bytes ++ ascii "hello", by decide⟩, .data ⟨ascii "ABC", by decide⟩]

/-- A chunked response with an empty body and three bytes after it, in one read. -/
def emptyChunkedJoined : List Arrival :=
  [.data ⟨chunkedHead.bytes ++ (lastChunk [] ++ ascii "ABC"), by decide⟩]

/-- Only the body is delivered when a read ends at its end. -/
theorem extra_bytes_separate :
    CutAt .blocking fiveSeparate 3 ∧
      ∀ x, Delivers .blocking fiveSeparate x → x = ascii "hello" := by
  have hcut : CutAt .blocking fiveSeparate 3 :=
    ⟨_, reaches_of_run (n := 1) rfl, by decide⟩
  have hiff := (extra_bytes_iff .blocking fiveHead (ascii "ABC") fiveSeparate
    (by decide)).1 (ascii "hello") (by decide) (by decide) (by decide)
    (by decide)
  exact ⟨hcut, hiff.mpr hcut⟩

/-- Bytes after the message are delivered with it, and in place of an empty chunked body. -/
theorem extra_bytes_joined :
    pendingOf fiveJoined = fiveHead.bytes ++ (ascii "hello" ++ ascii "ABC") ∧
      Delivers .blocking fiveJoined (ascii "helloABC") ∧
      pendingOf emptyChunkedJoined = chunkedHead.bytes ++ (lastChunk [] ++ ascii "ABC") ∧
      Delivers .blocking emptyChunkedJoined (ascii "ABC") :=
  ⟨by decide, delivers_of_deliversAfter (n := 2) (by decide),
    by decide, delivers_of_deliversAfter (n := 3) (by decide)⟩

end MaestroCore
