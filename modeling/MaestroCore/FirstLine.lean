import MaestroCore.HttpParser

/-!
# The Status Line

`http_parser_response_firstline` cuts the first line of a response at its first two spaces and
compares what is left with the standard phrase of the status code. It ignores whether the code
is a number, and asks for the phrase of `0` where it is not; there is no such phrase, and none
for most numbers, and `strcmp` is then called with `NULL`.

## Main results

* `responseFirstline_of_phrase`: what the parser does with a line whose code has a phrase.
* `status_line_parsed_iff`: the parser accepts the well-formed lines and refuses all others
  iff the code between the first two spaces has a standard phrase.
-/

open CLang

namespace MaestroCore

/-- The line is `version SP status SP reason`, cut at its first two spaces. -/
structure SplitLine (line version status reason : Bytes) : Prop where
  text : line = version ++ 32 :: (status ++ 32 :: reason)
  version : 32 ∉ version
  status : 32 ∉ status

/-- `parse_string_to_int` accepts the status, and the reason is the standard phrase of its
value. -/
def StandardPhrase (status reason : Bytes) : Prop :=
  ∃ code, parseStringToInt status = .ok (some code) ∧ httpStatusReasonPhrase code = some reason

/-- The parser fills in the parts of a line with a standard phrase, and refuses every other
line with nothing filled in. -/
def ParsesStatusLine (line : Bytes) : Prop :=
  (∀ version status reason, SplitLine line version status reason →
    StandardPhrase status reason → httpParserResponseFirstline line {} =
      .ok (.success, ⟨some version, some status, some reason⟩)) ∧
  ((∀ version status reason, SplitLine line version status reason →
    ¬ StandardPhrase status reason) →
      httpParserResponseFirstline line {} = .ok (.badFormat, {}))

section FirstLine

variable {line version status reason : Bytes} {resp : HTTPResponse}

/-- A line is cut in one way only. -/
theorem SplitLine.unique {version' status' reason' : Bytes}
    (h : SplitLine line version status reason) (h' : SplitLine line version' status' reason') :
    version = version' ∧ status = status' ∧ reason = reason' := by
  have hfirst : some (version, status ++ 32 :: reason) =
      some (version', status' ++ 32 :: reason') := by
    rw [← strchr_append h.version, ← strchr_append h'.version, ← h.text, ← h'.text]
  obtain ⟨hversion, hrest⟩ := Prod.mk.inj (Option.some.inj hfirst)
  have hsecond : some (status, reason) = some (status', reason') := by
    rw [← strchr_append h.status, ← strchr_append h'.status, hrest]
  obtain ⟨hstatus, hreason⟩ := Prod.mk.inj (Option.some.inj hsecond)
  exact ⟨hversion, hstatus, hreason⟩

/-- A line with fewer than two spaces is refused. -/
theorem responseFirstline_of_not_split (hne : line ≠ [])
    (h : ∀ version status reason, ¬ SplitLine (cstr line) version status reason) :
    httpParserResponseFirstline line resp = .ok (.badFormat, resp) := by
  rw [httpParserResponseFirstline, if_neg hne]
  cases hfirst : strchr 32 (cstr line) with
  | none => rfl
  | some split =>
      obtain ⟨version, target⟩ := split
      obtain ⟨htext, hversion⟩ := strchr_eq_some_iff.mp hfirst
      simp only
      cases hsecond : strchr 32 target with
      | none => rfl
      | some split =>
          obtain ⟨status, reason⟩ := split
          obtain ⟨htarget, hstatus⟩ := strchr_eq_some_iff.mp hsecond
          exact absurd ⟨by rw [htext, htarget], hversion, hstatus⟩ (h version status reason)

/-- The first two spaces of a line, as the parser finds them. -/
theorem SplitLine.strchr_eq (h : SplitLine line version status reason) :
    strchr 32 line = some (version, status ++ 32 :: reason) ∧
      strchr 32 (status ++ 32 :: reason) = some (status, reason) := by
  refine ⟨?_, strchr_append h.status reason⟩
  rw [h.text]
  exact strchr_append h.version _

/-- A line with two spaces is not empty. -/
theorem SplitLine.ne_nil (h : SplitLine (cstr line) version status reason) : line ≠ [] := by
  rintro rfl
  simpa [cstr] using congrArg List.length h.text

/-- **A line of three parts whose code has a phrase** is compared with it. -/
theorem responseFirstline_of_phrase {code : ℤ} {phrase : Bytes}
    (h : SplitLine (cstr line) version status reason)
    (hparse : parseStringToInt status = .ok (some code))
    (hphrase : httpStatusReasonPhrase code = some phrase) :
    httpParserResponseFirstline line resp =
      if reason = phrase then .ok (.success, ⟨some version, some status, some reason⟩)
      else .ok (.badFormat, {}) := by
  obtain ⟨hfirst, hsecond⟩ := h.strchr_eq
  rw [httpParserResponseFirstline, if_neg h.ne_nil, hfirst]
  simp only [hsecond, hparse, bind, Except.bind, Option.getD_some, hphrase]

/-- The parser comes to a result on a line of three parts only when its code has a phrase. -/
theorem phrase_of_responseFirstline {r : ErrorCode × HTTPResponse}
    (h : SplitLine (cstr line) version status reason)
    (hr : httpParserResponseFirstline line resp = .ok r) :
    ∃ code phrase, parseStringToInt status = .ok (some code) ∧
      httpStatusReasonPhrase code = some phrase := by
  obtain ⟨hfirst, hsecond⟩ := h.strchr_eq
  rw [httpParserResponseFirstline, if_neg h.ne_nil, hfirst] at hr
  simp only [hsecond] at hr
  cases hparse : parseStringToInt status with
  | error fault =>
      rw [hparse] at hr
      cases hr
  | ok value =>
      simp only [hparse, bind, Except.bind] at hr
      cases value with
      | none => cases hr
      | some code =>
          cases hphrase : httpStatusReasonPhrase code with
          | none => simp [hphrase] at hr
          | some phrase => exact ⟨code, phrase, rfl, hphrase⟩

/-- **When the status line is parsed.** For every line without NUL, the parser accepts the line
and fills in its parts iff it is well formed, and refuses it otherwise, iff the line has fewer
than two spaces or what stands between the first two is the number of a code with a standard
phrase. -/
theorem status_line_parsed_iff (line : Bytes) (hne : line ≠ []) (hnul : 0 ∉ line) :
    ParsesStatusLine line ↔
      ∀ version status reason, SplitLine line version status reason →
        ∃ code phrase, parseStringToInt status = .ok (some code) ∧
          httpStatusReasonPhrase code = some phrase := by
  have hcstr : cstr line = line := cstr_eq_self fun b hb hzero => hnul (hzero ▸ hb)
  constructor
  · rintro ⟨haccept, hrefuse⟩ version status reason hsplit
    have hparts : SplitLine (cstr line) version status reason := hcstr.symm ▸ hsplit
    by_cases hstandard : StandardPhrase status reason
    · exact phrase_of_responseFirstline hparts
        (haccept version status reason hsplit hstandard)
    · refine phrase_of_responseFirstline hparts
        (hrefuse fun version' status' reason' hsplit' => ?_)
      obtain ⟨-, rfl, rfl⟩ := hsplit.unique hsplit'
      exact hstandard
  · intro h
    constructor
    · rintro version status reason hsplit ⟨code, hparse, hphrase⟩
      rw [responseFirstline_of_phrase (hcstr.symm ▸ hsplit) hparse hphrase, if_pos rfl]
    · intro hrefuse
      by_cases hsplit : ∃ version status reason, SplitLine line version status reason
      · obtain ⟨version, status, reason, hsplit⟩ := hsplit
        obtain ⟨code, phrase, hparse, hphrase⟩ := h version status reason hsplit
        have hother : reason ≠ phrase := fun heq =>
          hrefuse version status reason hsplit ⟨code, hparse, heq ▸ hphrase⟩
        rw [responseFirstline_of_phrase (hcstr.symm ▸ hsplit) hparse hphrase, if_neg hother]
      · exact responseFirstline_of_not_split hne fun version status reason hsplit' =>
          hsplit ⟨version, status, reason, hcstr ▸ hsplit'⟩

end FirstLine

/-- A status line with 404 gives its version, code and reason. -/
theorem notFound_line_parsed :
    httpParserResponseFirstline (ascii "HTTP/1.1 404 Not Found") {} =
      .ok (.success,
        ⟨some (ascii "HTTP/1.1"), some (ascii "404"), some (ascii "Not Found")⟩) := by
  have hsplit : SplitLine (ascii "HTTP/1.1 404 Not Found") (ascii "HTTP/1.1") (ascii "404")
      (ascii "Not Found") := ⟨by decide, by decide, by decide⟩
  have hparse : parseStringToInt (ascii "404") = .ok (some 404) := by decide
  have hcode := (status_line_parsed_iff (ascii "HTTP/1.1 404 Not Found") (by decide)
    (by decide)).mpr fun version status reason hsplit' => by
      obtain ⟨-, rfl, -⟩ := hsplit.unique hsplit'
      exact ⟨404, _, hparse, rfl⟩
  exact hcode.1 _ _ _ hsplit ⟨404, hparse, rfl⟩

/-- A code without a standard phrase, and a code that is no number: `strcmp` is called with
`NULL`. -/
theorem unknown_code_compares_null :
    httpParserResponseFirstline (ascii "HTTP/1.1 299 OK") {} = .error .reasonPhraseNull ∧
    httpParserResponseFirstline (ascii "HTTP/1.1 abc OK") {} = .error .reasonPhraseNull ∧
    ¬ ParsesStatusLine (ascii "HTTP/1.1 299 OK") := by
  have hfault : httpParserResponseFirstline (ascii "HTTP/1.1 299 OK") {} =
      .error .reasonPhraseNull := by decide
  refine ⟨hfault, by decide, fun h => ?_⟩
  have hsplit : SplitLine (ascii "HTTP/1.1 299 OK") (ascii "HTTP/1.1") (ascii "299")
      (ascii "OK") := ⟨by decide, by decide, by decide⟩
  have hrefused : httpParserResponseFirstline (ascii "HTTP/1.1 299 OK") {} =
      .ok (.badFormat, {}) := by
    refine h.2 fun version status reason hsplit' => ?_
    obtain ⟨-, rfl, rfl⟩ := hsplit.unique hsplit'
    rintro ⟨code, hparse, hphrase⟩
    have hcode : parseStringToInt (ascii "299") = .ok (some 299) := by decide
    obtain rfl : code = 299 := by simpa [hcode] using hparse.symm
    cases hphrase
  rw [hfault] at hrefused
  cases hrefused

end MaestroCore
