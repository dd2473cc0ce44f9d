import MaestroCore.FirstLine
import MaestroCore.Reading

/-!
# Cutting the Status Line

`http_client_worktask_read_firstline` is called again until the status line has been found. It
applies its limit of 1024 twice: to the bytes in the buffer while the line end is not among
them, and to the length of the line once it is. A line of 1023 bytes falls between the two. With
the `\r` after it, it fills the buffer to the first limit; with the `\n` it passes the second.

## Main results

* `exists_last_read`: the run up to the read after which the worker decides.
* `status_line_cuts_iff`: two ways of cutting the stream give the same verdict unless an
  accepted line has 1023 bytes, or the parser compares with `NULL`.
-/

open CLang Run

namespace MaestroCore

/-- The bytes of segments that arrive one after the other. -/
def joined (segments : List Segment) : Bytes := (segments.map Segment.bytes).flatten

/-- One way of cutting a stream into reads. -/
structure Cut (stream : Bytes) where
  segments : List Segment
  joined_eq : joined segments = stream
  short : ∀ s ∈ segments, s.bytes.length ≤ 8095

/-- The client before the first read of the status line, with the stream cut in this way. -/
def Cut.client {stream : Bytes} (cut : Cut stream) (c : HTTPClient) : HTTPClient :=
  { c with state := .readingFirstline, recvBuf := [], transport := ⟨cut.segments.map .data⟩ }

/-- One call of the worker, as long as the client is in its state. -/
def firstlineStep (c : HTTPClient) : Except Fault HTTPClient :=
  if c.state = .readingFirstline then httpClientReadStep c else .ok c

/-- The calls end in the state `s`. In `HTTP_CLIENT_READING_HEADERS` what has been received
after the line end is in the buffer, so that with what is pending it is the rest of the
stream. -/
def EndsIn (c : HTTPClient) (s : HTTPClientState) (more : Bytes) : Prop :=
  ∃ d, Reaches firstlineStep c d ∧ d.state = s ∧ (s = .readingHeaders → d.unread = more)

/-- Any two ways of cutting the line, its end and what follows lead to the same state. -/
def SameVerdict (c : HTTPClient) (line more : Bytes) : Prop :=
  ∀ cut cut' : Cut (line ++ (crlf ++ more)), ∃ s, (s = .readingHeaders ∨ s = .error) ∧
    EndsIn (cut.client c) s more ∧ EndsIn (cut'.client c) s more

/-- The line is refused for its length, or its code has a phrase if it has one, and then the
phrase does not stand in a line of 1023 bytes. -/
def VerdictFixed (line : Bytes) : Prop :=
  line = [] ∨ 1024 ≤ line.length ∨
    ∀ version status reason, SplitLine (cstr line) version status reason →
      ∃ code phrase, parseStringToInt status = .ok (some code) ∧
        httpStatusReasonPhrase code = some phrase ∧ (line.length = 1023 → reason ≠ phrase)

/-- The client when it has read the first of the segments. -/
def HTTPClient.fed (c : HTTPClient) (s : Segment) (later : List Segment) : HTTPClient :=
  { c with transport := ⟨later.map .data⟩, recvBuf := c.recvBuf ++ s.bytes }

/-- The state that the worker goes to when the whole line is in the buffer. -/
def lineVerdict (line : Bytes) (resp : HTTPResponse) : Except Fault HTTPClientState :=
  if line = [] ∨ 1024 ≤ line.length then .ok .error
  else (httpParserResponseFirstline line resp).map fun w =>
    if w.1 = .success then .readingHeaders else .error

/-- The client waits for the line end, which comes with the segments. -/
structure BeforeLine (line more : Bytes) (c : HTTPClient) (segments : List Segment) : Prop where
  state : c.state = .readingFirstline
  transport : c.transport = ⟨segments.map .data⟩
  stream : c.recvBuf ++ joined segments = line ++ (crlf ++ more)
  short : ∀ s ∈ segments, s.bytes.length ≤ 8095
  waiting : c.recvBuf.length < 1024
  incomplete : c.recvBuf.length < line.length + 2

section Cuts

variable {c : HTTPClient} {line more : Bytes} {segments later : List Segment} {s : Segment}

/-- The bytes that segments leave pending. -/
theorem pendingOf_data (segments : List Segment) :
    pendingOf (segments.map .data) = joined segments := by
  induction segments with
  | nil => rfl
  | cons s later ih => exact congrArg (s.bytes ++ ·) ih

/-! ### One call -/

/-- A client that has left the state of the worker stays as it is. -/
theorem firstlineStep_of_ne (h : c.state ≠ .readingFirstline) : firstlineStep c = .ok c :=
  if_neg h

/-- A call reads the next segment whole. -/
theorem BeforeLine.step (h : BeforeLine line more c (s :: later)) :
    firstlineStep c = httpClientFirstline (c.fed s later) >>= fun w =>
      .ok { w.2 with state := w.1 } := by
  have hshort := h.short s List.mem_cons_self
  have hread : transportRead c.transport 8095 = (.bytes s.bytes, ⟨later.map .data⟩) := by
    rw [h.transport, transportRead]
    simp only [List.map_cons, List.take_of_length_le hshort, leftover,
      List.drop_eq_nil_of_le hshort, dif_pos]
  have hdispatch : httpClientWork c = httpClientWorktaskReadFirstline c := by
    rw [httpClientWork, h.state]
  have hwork : httpClientWork c = httpClientFirstline (c.fed s later) := by
    rw [hdispatch, httpClientWorktaskReadFirstline, receive, hread]
    rfl
  rw [firstlineStep, if_pos h.state, httpClientReadStep, hwork]

/-- The stream, seen from the buffer after the next read. -/
theorem BeforeLine.fed_stream (h : BeforeLine line more c (s :: later)) :
    (c.fed s later).recvBuf ++ joined later = line ++ (crlf ++ more) := by
  rw [← h.stream, HTTPClient.fed, List.append_assoc]
  rfl

/-- A read that neither completes the line nor fills the buffer leads to the next one. -/
theorem BeforeLine.step_short (hline : NoCrlf line) (h : BeforeLine line more c (s :: later))
    (hlt : (c.fed s later).recvBuf.length < line.length + 2)
    (hfull : (c.fed s later).recvBuf.length < 1024) :
    firstlineStep c = .ok (c.fed s later) ∧ BeforeLine line more (c.fed s later) later := by
  constructor
  · have hstate : { c.fed s later with state := .readingFirstline } = c.fed s later :=
      HTTPClient.with_state h.state
    rw [h.step, httpClientFirstline_of_short hline h.fed_stream hlt, if_neg (by omega), goto]
    exact congrArg Except.ok hstate
  · exact ⟨h.state, rfl, h.fed_stream, fun x hx => h.short x (List.mem_cons_of_mem s hx), hfull,
      hlt⟩

/-- A read that fills the buffer without completing the line is the last one. -/
theorem BeforeLine.step_full (hline : NoCrlf line) (h : BeforeLine line more c (s :: later))
    (hlt : (c.fed s later).recvBuf.length < line.length + 2)
    (hfull : 1024 ≤ (c.fed s later).recvBuf.length) :
    firstlineStep c = .ok { c.fed s later with state := .error } := by
  rw [h.step, httpClientFirstline_of_short hline h.fed_stream hlt, if_pos hfull]
  rfl

/-- **The read that completes the line** leads to the verdict on it. -/
theorem BeforeLine.step_line (hline : NoCrlf line) (h : BeforeLine line more c (s :: later))
    (hle : line.length + 2 ≤ (c.fed s later).recvBuf.length) :
    (∀ e, lineVerdict line c.resp = .error e → firstlineStep c = .error e) ∧
      ∀ v, lineVerdict line c.resp = .ok v → ∃ d, firstlineStep c = .ok d ∧ d.state = v ∧
        (v = .readingHeaders → d.unread = more) := by
  have hstream := h.fed_stream
  rw [← List.append_assoc line] at hstream
  obtain ⟨r, hr, hmore⟩ := List.exists_split_of_length_le hstream
    (by rw [List.length_append, length_crlf]; omega)
  rw [List.append_assoc] at hr
  have hint : line.length < 2 ^ 31 := by
    have hwaiting := h.waiting
    have hshort := h.short s List.mem_cons_self
    simp only [HTTPClient.fed, List.length_append] at hle
    omega
  have hstep : firstlineStep c = _ := h.step
  rw [httpClientFirstline_of_line hline hr hint] at hstep
  rw [lineVerdict]
  by_cases hlen : line = [] ∨ 1024 ≤ line.length
  · rw [if_pos hlen] at hstep ⊢
    constructor
    · intro e he
      cases he
    · intro v hv
      obtain rfl := Except.ok.inj hv
      exact ⟨_, hstep, rfl, fun hne => by cases hne⟩
  · have hresp : (c.fed s later).resp = c.resp := rfl
    rw [if_neg hlen, hresp] at hstep
    rw [if_neg hlen]
    cases hparse : httpParserResponseFirstline line c.resp with
    | error e =>
        rw [hparse] at hstep
        constructor
        · intro e' he
          obtain rfl : e = e' := Except.error.inj he
          exact hstep
        · intro v hv
          cases hv
    | ok w =>
        obtain ⟨code, resp⟩ := w
        rw [hparse] at hstep
        constructor
        · intro e he
          cases he
        · intro v hv
          obtain rfl := Except.ok.inj hv
          by_cases hcode : code = .success
          · subst hcode
            refine ⟨_, hstep, rfl, fun _ => ?_⟩
            rw [← hmore, ← pendingOf_data later]
            rfl
          · simp only [bind, Except.bind, ne_eq, hcode, not_false_eq_true, if_true, goto] at hstep
            refine ⟨_, hstep, (if_neg hcode).symm, fun hne => ?_⟩
            have hverdict : HTTPClientState.error = .readingHeaders := (if_neg hcode).symm.trans hne
            cases hverdict

/-! ### The run of calls -/

/-- **The last read**: the calls wait until a read completes the line or fills the buffer. -/
theorem exists_last_read (hline : NoCrlf line) (h : BeforeLine line more c segments) :
    ∃ d s later, Reaches firstlineStep c d ∧ d.resp = c.resp ∧
      BeforeLine line more d (s :: later) ∧
      (line.length + 2 ≤ (d.fed s later).recvBuf.length ∨
        1024 ≤ (d.fed s later).recvBuf.length) := by
  induction segments generalizing c with
  | nil =>
      have hlen := congrArg List.length h.stream
      have hincomplete := h.incomplete
      simp only [joined, List.map_nil, List.flatten_nil, List.append_nil, List.length_append,
        length_crlf] at hlen
      omega
  | cons s later ih =>
      by_cases hlast : line.length + 2 ≤ (c.fed s later).recvBuf.length ∨
          1024 ≤ (c.fed s later).recvBuf.length
      · exact ⟨c, s, later, .refl c, rfl, h, hlast⟩
      · obtain ⟨hstep, hnext⟩ := h.step_short hline (by omega) (by omega)
        obtain ⟨d, s', later', hreach, hresp, hd, hlast'⟩ := ih hnext
        exact ⟨d, s', later', .head hstep hreach, hresp, hd, hlast'⟩

/-- **The verdict on the line is the one of every cut**, when a line of 1023 bytes is
refused. -/
theorem endsIn_of_verdict {v : HTTPClientState} (hline : NoCrlf line)
    (h : BeforeLine line more c segments) (hverdict : lineVerdict line c.resp = .ok v)
    (hedge : line.length = 1023 → v = .error) : EndsIn c v more := by
  obtain ⟨d, s, later, hreach, hresp, hd, hlast⟩ := exists_last_read hline h
  by_cases hle : line.length + 2 ≤ (d.fed s later).recvBuf.length
  · obtain ⟨d', hstep, hstate, hmore⟩ := (hd.step_line hline hle).2 v (hresp ▸ hverdict)
    exact ⟨d', hreach.tail hstep, hstate, hmore⟩
  · have hfull := hlast.resolve_left hle
    have hv : v = .error := by
      by_cases hlen : line.length = 1023
      · exact hedge hlen
      · rw [lineVerdict, if_pos (Or.inr (by omega))] at hverdict
        exact (Except.ok.inj hverdict).symm
    subst hv
    exact ⟨_, hreach.tail (hd.step_full hline (by omega) hfull), rfl, fun hne => by cases hne⟩

/-- A cut is what the client waits for at the start. -/
theorem Cut.beforeLine (cut : Cut (line ++ (crlf ++ more))) (c : HTTPClient) :
    BeforeLine line more (cut.client c) cut.segments :=
  ⟨rfl, rfl, cut.joined_eq, cut.short, by simp [Cut.client], by simp [Cut.client]⟩

/-- The state that the calls end in is determined. -/
theorem EndsIn.unique {v v' : HTTPClientState} (h : EndsIn c v more) (h' : EndsIn c v' more)
    (hv : v ≠ .readingFirstline) (hv' : v' ≠ .readingFirstline) : v = v' := by
  obtain ⟨d, hreach, rfl, -⟩ := h
  obtain ⟨d', hreach', rfl, -⟩ := h'
  rw [Reaches.fixed_unique (firstlineStep_of_ne hv) (firstlineStep_of_ne hv') hreach hreach']

/-! ### Two cuts that differ -/

/-- The segments of one byte each. -/
def singletons (stream : Bytes) : List Segment :=
  stream.map fun b => ⟨[b], List.cons_ne_nil b []⟩

/-- Bytes that come one at a time make up the stream. -/
theorem joined_singletons (stream : Bytes) : joined (singletons stream) = stream := by
  rw [joined, singletons, List.map_map]
  exact List.flatMap_singleton' stream

/-- A cut with given first segments, and one byte at a time after them. -/
def Cut.starting {stream : Bytes} (front : List Segment)
    (hshort : ∀ s ∈ front, s.bytes.length ≤ 8095) (more : Bytes)
    (hstream : joined front ++ more = stream) : Cut stream where
  segments := front ++ singletons more
  joined_eq := by
    rw [joined, List.map_append, List.flatten_append]
    exact (congrArg (joined front ++ ·) (joined_singletons more)).trans hstream
  short := by
    intro s hs
    rcases List.mem_append.mp hs with hs | hs
    · exact hshort s hs
    · obtain ⟨b, -, rfl⟩ := List.mem_map.mp hs
      simp

/-- The line with its end. -/
def wholeLine (line : Bytes) : List Segment :=
  [⟨line ++ crlf, List.append_ne_nil_of_right_ne_nil line (List.cons_ne_nil 13 [10])⟩]

/-- A line of at most 1023 bytes fits one read with its line end. -/
theorem short_wholeLine (hlen : line.length ≤ 1023) :
    ∀ s ∈ wholeLine line, s.bytes.length ≤ 8095 := by
  simp only [wholeLine, List.forall_mem_singleton, List.length_append, length_crlf]
  omega

/-- A line read at once and what follows make up the stream. -/
theorem joined_wholeLine (line more : Bytes) : joined (wholeLine line) ++ more =
    line ++ (crlf ++ more) := by
  simp [joined, wholeLine]

/-- The first read brings the line with its end. -/
def Cut.whole (line more : Bytes) (hlen : line.length ≤ 1023) : Cut (line ++ (crlf ++ more)) :=
  .starting (wholeLine line) (short_wholeLine hlen) more (joined_wholeLine line more)

/-- The line with its end, cut between the two bytes of the end. -/
def cutLine (line : Bytes) : List Segment :=
  [⟨line ++ [13], List.append_ne_nil_of_right_ne_nil line (List.cons_ne_nil 13 [])⟩,
    ⟨[10], List.cons_ne_nil 10 []⟩]

/-- A line of at most 1023 bytes cut inside its line end comes in short reads. -/
theorem short_cutLine (hlen : line.length ≤ 1023) :
    ∀ s ∈ cutLine line, s.bytes.length ≤ 8095 := by
  intro s hs
  rcases List.mem_pair.mp hs with rfl | rfl
  · simp only [List.length_append, List.length_singleton]
    omega
  · simp

/-- A line cut inside its line end and what follows make up the stream. -/
theorem joined_cutLine (line more : Bytes) : joined (cutLine line) ++ more =
    line ++ (crlf ++ more) := by
  simp [joined, cutLine, crlf]

/-- The first read ends between the two bytes of the line end. -/
def Cut.between (line more : Bytes) (hlen : line.length ≤ 1023) : Cut (line ++ (crlf ++ more)) :=
  .starting (cutLine line) (short_cutLine hlen) more (joined_cutLine line more)

/-- The whole line in one read is parsed at once. -/
theorem Cut.whole_step (hline : NoCrlf line) (hlen : line.length ≤ 1023) :
    (∀ e, lineVerdict line c.resp = .error e →
      firstlineStep ((Cut.whole line more hlen).client c) = .error e) ∧
    ∀ v, lineVerdict line c.resp = .ok v → EndsIn ((Cut.whole line more hlen).client c) v more := by
  obtain ⟨hfault, hok⟩ := ((Cut.whole line more hlen).beforeLine c).step_line hline
    (by simp [HTTPClient.fed, Cut.client, length_crlf])
  refine ⟨hfault, fun v hv => ?_⟩
  obtain ⟨d, hstep, hstate, hmore⟩ := hok v hv
  exact ⟨d, .single hstep, hstate, hmore⟩

/-- The parser stops at the line: the client does not get out of the state of the worker. -/
theorem not_sameVerdict_of_fault {e : Fault} (hline : NoCrlf line) (hlen : line.length ≤ 1023)
    (hfault : lineVerdict line c.resp = .error e) : ¬ SameVerdict c line more := by
  intro h
  obtain ⟨v, hv, ⟨d, hreach, rfl, -⟩, -⟩ := h (Cut.whole line more hlen) (Cut.whole line more hlen)
  obtain rfl := hreach.eq_of_fault ((Cut.whole_step hline hlen).1 e hfault)
  rcases hv with hv | hv <;> cases hv

/-- **The two limits disagree** on an accepted line of 1023 bytes. -/
theorem not_sameVerdict_of_accepted (hline : NoCrlf line) (hlen : line.length = 1023)
    (haccepted : lineVerdict line c.resp = .ok .readingHeaders) : ¬ SameVerdict c line more := by
  intro h
  have hlen' : line.length ≤ 1023 := hlen.le
  have hwhole : EndsIn ((Cut.whole line more hlen').client c) .readingHeaders more :=
    (Cut.whole_step hline hlen').2 _ haccepted
  have hbetween : EndsIn ((Cut.between line more hlen').client c) .error more := by
    have hstep := ((Cut.between line more hlen').beforeLine c).step_full hline
      (by simp [HTTPClient.fed, Cut.client]) (by simp [HTTPClient.fed, Cut.client, hlen])
    exact ⟨_, .single hstep, rfl, fun hne => by cases hne⟩
  obtain ⟨v, hv, hends, hends'⟩ := h (Cut.whole line more hlen') (Cut.between line more hlen')
  have hfinal : v ≠ .readingFirstline := by rcases hv with rfl | rfl <;> decide
  have hheaders := hends.unique hwhole hfinal (by decide)
  have herror := hends'.unique hbetween hfinal (by decide)
  rw [hheaders] at herror
  cases herror

/-! ### The condition -/

/-- The verdict on a line that is parsed. -/
theorem lineVerdict_of_parsed {resp : HTTPResponse} {w : ErrorCode × HTTPResponse}
    (hlen : ¬ (line = [] ∨ 1024 ≤ line.length))
    (hparse : httpParserResponseFirstline line resp = .ok w) :
    lineVerdict line resp = .ok (if w.1 = .success then .readingHeaders else .error) := by
  rw [lineVerdict, if_neg hlen, hparse]
  rfl

/-- A verdict accepts the line or refuses it. -/
theorem lineVerdict_eq {resp : HTTPResponse} {v : HTTPClientState}
    (h : lineVerdict line resp = .ok v) : v = .readingHeaders ∨ v = .error := by
  by_cases hlen : line = [] ∨ 1024 ≤ line.length
  · rw [lineVerdict, if_pos hlen] at h
    exact Or.inr (Except.ok.inj h).symm
  · cases hparse : httpParserResponseFirstline line resp with
    | error e =>
        rw [lineVerdict, if_neg hlen, hparse] at h
        cases h
    | ok w =>
        rw [lineVerdict_of_parsed hlen hparse, Except.ok.injEq] at h
        subst h
        split
        · exact Or.inl rfl
        · exact Or.inr rfl

/-- The condition, as a property of the verdict. -/
theorem verdictFixed_iff (resp : HTTPResponse) : VerdictFixed line ↔
    ∃ v, lineVerdict line resp = .ok v ∧ (line.length = 1023 → v = .error) := by
  by_cases hlen : line = [] ∨ 1024 ≤ line.length
  · refine iff_of_true ?_ ⟨.error, by rw [lineVerdict, if_pos hlen], fun _ => rfl⟩
    rcases hlen with hnil | hlong
    · exact Or.inl hnil
    · exact Or.inr (Or.inl hlong)
  · rw [VerdictFixed, ← or_assoc, or_iff_right hlen]
    constructor
    · intro h
      by_cases hsplit : ∃ version status reason, SplitLine (cstr line) version status reason
      · obtain ⟨version, status, reason, hsplit⟩ := hsplit
        obtain ⟨code, phrase, hparse, hphrase, hedge⟩ := h version status reason hsplit
        have hline : httpParserResponseFirstline line resp = _ :=
          responseFirstline_of_phrase hsplit hparse hphrase
        by_cases heq : reason = phrase
        · rw [if_pos heq] at hline
          exact ⟨_, lineVerdict_of_parsed hlen hline, fun h1023 => absurd heq (hedge h1023)⟩
        · rw [if_neg heq] at hline
          exact ⟨_, lineVerdict_of_parsed hlen hline, fun _ => rfl⟩
      · have hline : httpParserResponseFirstline line resp = .ok (.badFormat, resp) :=
          responseFirstline_of_not_split (fun hnil => hlen (Or.inl hnil))
            fun version status reason hsplit' => hsplit ⟨version, status, reason, hsplit'⟩
        exact ⟨_, lineVerdict_of_parsed hlen hline, fun _ => rfl⟩
    · rintro ⟨v, hverdict, hedge⟩ version status reason hsplit
      cases hline : httpParserResponseFirstline line resp with
      | error e =>
          rw [lineVerdict, if_neg hlen, hline] at hverdict
          cases hverdict
      | ok w =>
          obtain ⟨code, phrase, hparse, hphrase⟩ := phrase_of_responseFirstline hsplit hline
          refine ⟨code, phrase, hparse, hphrase, fun h1023 heq => ?_⟩
          obtain rfl := hedge h1023
          have hparsed : httpParserResponseFirstline line resp = _ :=
            responseFirstline_of_phrase hsplit hparse hphrase
          rw [if_pos heq] at hparsed
          rw [lineVerdict_of_parsed hlen hparsed] at hverdict
          cases hverdict

/-- **When the verdict does not depend on the cut.** For every client, every line without a
line end in it and every continuation of the stream, any two ways of cutting the stream end in
the same state, with what has come after the line in the buffer, iff the line is refused for its
length, or has no two spaces, or its code has a standard phrase and a line of 1023 bytes another
one. -/
theorem status_line_cuts_iff (c : HTTPClient) (line more : Bytes) (hline : NoCrlf line) :
    SameVerdict c line more ↔ VerdictFixed line := by
  rw [verdictFixed_iff c.resp]
  constructor
  · intro h
    cases hverdict : lineVerdict line c.resp with
    | error e =>
        have hlen : line.length ≤ 1023 := by
          by_contra hlong
          rw [lineVerdict, if_pos (Or.inr (by omega))] at hverdict
          cases hverdict
        exact absurd h (not_sameVerdict_of_fault hline hlen hverdict)
    | ok v =>
        refine ⟨v, rfl, fun hlen => (lineVerdict_eq hverdict).resolve_left ?_⟩
        rintro rfl
        exact not_sameVerdict_of_accepted hline hlen hverdict h
  · rintro ⟨v, hverdict, hedge⟩ cut cut'
    exact ⟨v, lineVerdict_eq hverdict, endsIn_of_verdict hline (cut.beforeLine c) hverdict hedge,
      endsIn_of_verdict hline (cut'.beforeLine c) hverdict hedge⟩

end Cuts

/-- A short status line has the same verdict however it is cut. -/
theorem ok_line_cuts :
    SameVerdict (start .callback []) (ascii "HTTP/1.1 200 OK") (ascii "Server: a\r\n\r\n") := by
  refine (status_line_cuts_iff _ _ _ (by decide)).mpr (Or.inr (Or.inr ?_))
  intro version status reason hsplit
  have hparts : SplitLine (cstr (ascii "HTTP/1.1 200 OK")) (ascii "HTTP/1.1") (ascii "200")
      (ascii "OK") := ⟨by decide, by decide, by decide⟩
  obtain ⟨-, rfl, rfl⟩ := hparts.unique hsplit
  exact ⟨200, ascii "OK", by decide, rfl, fun hlen => absurd hlen (by decide)⟩

/-- A status line of 1023 bytes: its version has 1009 digits after the point. -/
def longStatusLine : Bytes :=
  ascii "HTTP/1." ++ (List.replicate 1009 49 ++ ascii " 200 OK")

/-- The line is accepted when it comes in one read with its end, and refused when the read ends
between the `\r` and the `\n`. -/
theorem long_line_cuts :
    ¬ SameVerdict (start .blocking []) longStatusLine (ascii "Server: a\r\n\r\n") :=
  not_sameVerdict_of_accepted (by decide +kernel) (by decide +kernel) (by decide +kernel)

end MaestroCore
