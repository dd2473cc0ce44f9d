import MaestroCore.Exchange
import MaestroCore.Message

/-!
# The Request That the Client Builds

`http_client_worktask_build_request` estimates the size of the request, prints the request
line and the header lines into an array of that size and puts the body after them. The
estimate covers every host, every path and every body, and the text is what the parsers of
`http_parser.c` read: a request line, a block of header fields, and the body.

## Main results

* `length_requestText_lt`: the text and the body are shorter than the estimate.
* `buildRequest_eq`: so the request is built, with nothing cut off.
* `request_reads_back`: the scanners and the parsers read the method, the path, the header
  fields and the body back from the request.
-/

open CLang Run

namespace MaestroCore

/-! ### The size estimate -/

/-- The name of a method has at most six letters. -/
theorem length_methodStr_le (method : HTTPMethod) : (methodStr method).length ≤ 6 := by
  rw [methodStr.eq_def]
  split <;> decide

/-- The length of the part that every request has. -/
theorem length_requestHead (method : HTTPMethod) (path host : Bytes) :
    (requestHead method path host).length =
      (methodStr method).length + path.length + host.length + 63 := by
  simp only [requestHead, List.length_append, ascii, List.length_map, String.length_toList]
  simp only [show " ".length = 1 from rfl, show " HTTP/1.1\r\n".length = 11 from rfl,
    show "Host: ".length = 6 from rfl, show "\r\n".length = 2 from rfl,
    show "User-Agent: httpclient\r\n".length = 24 from rfl,
    show "Connection: close\r\n".length = 19 from rfl]
  omega

/-- The length of the part that a request with a body has besides. -/
theorem length_bodyHead (bodyLen : ℕ) :
    (bodyHead bodyLen).length = (decimal bodyLen).length + 58 := by
  simp only [bodyHead, List.length_append, ascii, List.length_map, String.length_toList]
  simp only [show "Content-Length: ".length = 16 from rfl, show "\r\n".length = 2 from rfl,
    show "Content-Type: application/octet-stream\r\n".length = 40 from rfl]
  omega

/-- The line end of the format. -/
theorem ascii_lineEnd : ascii "\r\n" = crlf := by decide

/-- The name of the first header, as the format has it. -/
theorem ascii_hostName : ascii "Host: " = ascii "Host" ++ [58, 32] := by decide

/-- The name of the header for the length, as the format has it. -/
theorem ascii_lengthName : ascii "Content-Length: " = ascii "Content-Length" ++ [58, 32] := by
  decide

/-- A line end has two bytes. -/
theorem length_lineEnd : (ascii "\r\n").length = 2 := by rw [ascii_lineEnd, length_crlf]

/-- **The estimate is large enough**, with room for the NUL after the text. -/
theorem length_requestText_lt (method : HTTPMethod) (path host : Bytes) {bodyLen : ℕ}
    (h : bodyLen < 2 ^ 31) :
    (requestText method path host bodyLen).length + bodyLen <
      requestMaxLen path host bodyLen := by
  have hmethod := length_methodStr_le method
  have hdigits : (decimal bodyLen).length ≤ 9 + 1 := length_decimal_le (by omega)
  have hhead := length_requestHead method path host
  have hbody := length_bodyHead bodyLen
  rw [requestText, requestMaxLen]
  split
  · rename_i hpos
    rw [if_pos hpos.1, List.length_append, List.length_append, length_lineEnd]
    omega
  · rw [List.length_append, length_lineEnd]
    split <;> omega

/-- The path fits its array in `URL_Parts`, with a NUL. -/
theorem Exchange.length_path_lt (e : Exchange) : e.path.length < 512 := by
  rw [Exchange.path]
  split
  · decide
  · exact e.urlParts.path.fits

/-- **The request is built**, with nothing cut off. -/
theorem buildRequest_eq {e : Exchange} (h : e.bodyLen < 2 ^ 31) :
    httpClientWorktaskBuildRequest e =
      (.sendingRequest, { e with
        requestBuffer := some (requestText e.method e.path e.urlParts.host.bytes e.bodyLen ++
          (e.reqBody.getD []).take e.bodyLen)
        requestLength := toInt
          ((requestText e.method e.path e.urlParts.host.bytes e.bodyLen).length + e.bodyLen)
        bytesSent := 0 }) := by
  have hlt := length_requestText_lt e.method e.path e.urlParts.host.bytes h
  have hpath := e.length_path_lt
  have hhost := e.urlParts.host.fits
  have hlen : (requestText e.method e.path e.urlParts.host.bytes e.bodyLen).length ≤ intMax := by
    rw [requestMaxLen] at hlt
    rw [intMax]
    split at hlt <;> omega
  rw [httpClientWorktaskBuildRequest]
  simp only [snprintfLen, if_pos hlen]
  rw [if_neg (by omega), if_neg (by omega), snprintf, if_pos (by omega)]

/-! ### Requests without a body -/

/-- A client without a body sends none. -/
theorem bodyLen_of_none {e : Exchange} (h : e.reqBody = none) : e.bodyLen = 0 := by
  rw [Exchange.bodyLen, if_neg (by simp [h])]

/-- Without a body, only the name of the method matters to the request. -/
theorem requestText_congr {method method' : HTTPMethod} (h : methodStr method = methodStr method')
    (path host : Bytes) : requestText method path host 0 = requestText method' path host 0 := by
  rw [requestText, requestText, if_neg (by simp), if_neg (by simp), requestHead, requestHead, h]

/-! ### Visible text -/

/-- A byte that is neither white space nor a control character. -/
def isVisible (b : UInt8) : Bool := !isspace b && !iscntrl b

/-- What a visible byte is not. -/
theorem isVisible_spec {b : UInt8} (h : isVisible b) :
    isControl b = false ∧ isTrailing b = false ∧ b ≠ 32 ∧ b ≠ 9 ∧ b ≠ 13 ∧ b ≠ 0 := by
  simp only [isVisible, isspace, iscntrl, Bool.and_eq_true, Bool.not_eq_true', Bool.or_eq_false_iff,
    decide_eq_false_iff_not, ← UInt8.toNat_inj, UInt8.lt_iff_toNat_lt, UInt8.reduceToNat] at h
  simp only [isControl, isTrailing, ne_eq, ← UInt8.toNat_inj, UInt8.reduceToNat,
    Bool.or_eq_false_iff, decide_eq_false_iff_not]
  omega

/-- Digits are visible. -/
theorem isVisible_of_digit {b : UInt8} (h : isDigit 10 b) : isVisible b := by
  have hr := isDigit_range (by omega) h
  simp only [isVisible, isspace, iscntrl, Bool.and_eq_true, Bool.not_eq_true', Bool.or_eq_false_iff,
    Bool.and_eq_false_iff, decide_eq_false_iff_not, ← UInt8.toNat_inj, UInt8.lt_iff_toNat_lt,
    UInt8.le_iff_toNat_le, UInt8.reduceToNat]
  omega

/-- Visible text is not trimmed. -/
theorem trimTrailing_visible {s : Bytes} (h : ∀ b ∈ s, isVisible b) : trimTrailing s = s := by
  rw [trimTrailing, List.rdropWhile_eq_self_iff]
  intro hne
  simp [(isVisible_spec (h _ (List.getLast_mem hne))).2.1]

/-- The white space before visible text is trimmed. -/
theorem trimLeading_visible {s : Bytes} (h : ∀ b ∈ s, isVisible b) :
    trimLeading (32 :: s) = s := by
  rw [trimLeading, List.dropWhile_cons_of_pos (by rfl)]
  cases s with
  | nil => rfl
  | cons b s =>
      obtain ⟨-, -, h1, h2, -⟩ := isVisible_spec (h b (by simp))
      exact List.dropWhile_cons_of_neg (by simp [h1, h2])

/-- A header field with a visible name, and a visible value after a space. -/
def visibleField (name value : Bytes) (hcolon : 58 ∉ name) (hname : ∀ b ∈ name, isVisible b)
    (hvalue : ∀ b ∈ value, isVisible b) : HeaderField where
  name := name
  value := 32 :: value
  name_colon := hcolon
  name_plain := fun b hb => (isVisible_spec (hname b hb)).1
  value_plain := fun b hb => by
    rcases List.mem_cons.mp hb with rfl | hb
    · rfl
    · exact (isVisible_spec (hvalue b hb)).1

/-- The header of such a field has its name and its value. -/
@[simp] theorem header_visibleField {name value : Bytes} (hcolon : 58 ∉ name)
    (hname : ∀ b ∈ name, isVisible b) (hvalue : ∀ b ∈ value, isVisible b) :
    (visibleField name value hcolon hname hvalue).header = ⟨name, value⟩ := by
  rw [HeaderField.header, visibleField, trimTrailing_visible hname, trimLeading_visible hvalue,
    trimTrailing_visible hvalue]

/-- The text of such a field has a colon and a space between them. -/
@[simp] theorem text_visibleField {name value : Bytes} (hcolon : 58 ∉ name)
    (hname : ∀ b ∈ name, isVisible b) (hvalue : ∀ b ∈ value, isVisible b) :
    (visibleField name value hcolon hname hvalue).line.text = name ++ 58 :: 32 :: value :=
  rfl

/-! ### Reading the request back -/

/-- The headers that a reader of the request has to find. -/
def requestHeaders (host body : Bytes) : List HTTPKeyValue :=
  [⟨ascii "Host", host⟩, ⟨ascii "User-Agent", ascii "httpclient"⟩,
    ⟨ascii "Connection", ascii "close"⟩] ++
  if body = [] then []
  else
    [⟨ascii "Content-Length", decimal body.length⟩,
      ⟨ascii "Content-Type", ascii "application/octet-stream"⟩]

/-- The part of a path before the first `?`. -/
def beforeQuery (path : Bytes) : Bytes := path.takeWhile (· ≠ 63)

/-- What a reader makes of a request when it splits it as the client splits a response: the
request line up to the first line end, the header block up to its end, and the body. -/
def ReadsBack (request : Bytes) (method : HTTPMethod) (path host body : Bytes) : Prop :=
  ∃ lineEnd headersEnd : ℕ,
    httpParserFindLineEnd request = lineEnd ∧
    (∃ line, httpParserFirstLine (request.take lineEnd) = .ok line ∧
      line.methodStr = methodStr method ∧ line.method = method ∧
      line.path = beforeQuery path ∧ line.version = ascii "HTTP/1.1") ∧
    httpParserFindHeadersEnd (request.drop (lineEnd + 2)) = headersEnd ∧
    httpParserHeaders ((request.drop (lineEnd + 2)).take (headersEnd + 4)) =
      .ok (.ok (requestHeaders host body)) ∧
    (request.drop (lineEnd + 2)).drop (headersEnd + 4) = body

/-- The name of the header for the length has no colon. -/
theorem colon_notMem_contentLength : 58 ∉ ascii "Content-Length" := by decide

/-- The name of the header for the length is visible. -/
theorem contentLength_visible : ∀ b ∈ ascii "Content-Length", isVisible b := by decide

/-- The fields of the request's header block. -/
def requestFields (host body : Bytes) (hhost : ∀ b ∈ host, isVisible b) : List HeaderField :=
  [visibleField (ascii "Host") host (by decide) (by decide) hhost,
    visibleField (ascii "User-Agent") (ascii "httpclient") (by decide) (by decide)
      (by decide),
    visibleField (ascii "Connection") (ascii "close") (by decide) (by decide)
      (by decide)] ++
  if body = [] then []
  else
    [visibleField (ascii "Content-Length") (decimal body.length) colon_notMem_contentLength
        contentLength_visible
        (fun b hb => isVisible_of_digit ((isNumeral_decimal body.length).digits b hb)),
      visibleField (ascii "Content-Type") (ascii "application/octet-stream") (by decide)
        (by decide) (by decide)]

/-- The headers of the fields are those that a reader has to find. -/
theorem header_requestFields {host : Bytes} (body : Bytes) (hhost : ∀ b ∈ host, isVisible b) :
    (requestFields host body hhost).map HeaderField.header = requestHeaders host body := by
  rw [requestFields, requestHeaders]
  split <;> simp

/-- The request line without its line end. -/
def requestLine (method : HTTPMethod) (path : Bytes) : Bytes :=
  methodStr method ++ 32 :: (path ++ 32 :: ascii "HTTP/1.1")

/-- The part that every request has, line by line. -/
theorem requestHead_eq (method : HTTPMethod) (path host : Bytes) :
    requestHead method path host = requestLine method path ++ (crlf ++
      (ascii "Host" ++ 58 :: 32 :: host ++ (crlf ++
        (ascii "User-Agent" ++ 58 :: 32 :: ascii "httpclient" ++ (crlf ++
          (ascii "Connection" ++ 58 :: 32 :: ascii "close" ++ crlf)))))) := by
  have hspace : ascii " " = [32] := by decide
  have hversion : ascii " HTTP/1.1\r\n" = 32 :: ascii "HTTP/1.1" ++ crlf := by decide
  have hagent : ascii "User-Agent: httpclient\r\n" =
      ascii "User-Agent" ++ 58 :: 32 :: ascii "httpclient" ++ crlf := by decide
  have hclose : ascii "Connection: close\r\n" =
      ascii "Connection" ++ 58 :: 32 :: ascii "close" ++ crlf := by decide
  simp only [requestHead, requestLine, hspace, hversion, ascii_hostName, ascii_lineEnd, hagent,
    hclose, List.append_assoc, List.cons_append, List.nil_append]

/-- The part that a request with a body has besides, line by line. -/
theorem bodyHead_eq (bodyLen : ℕ) :
    bodyHead bodyLen = ascii "Content-Length" ++ 58 :: 32 :: decimal bodyLen ++ (crlf ++
      (ascii "Content-Type" ++ 58 :: 32 :: ascii "application/octet-stream" ++ crlf)) := by
  have htype : ascii "Content-Type: application/octet-stream\r\n" =
      ascii "Content-Type" ++ 58 :: 32 :: ascii "application/octet-stream" ++ crlf := by decide
  simp only [bodyHead, ascii_lengthName, ascii_lineEnd, htype, List.append_assoc, List.cons_append,
    List.nil_append]

/-- The text of a request is a request line and a block of header fields. -/
theorem requestText_eq {method : HTTPMethod} (path : Bytes) {host body : Bytes}
    (hhost : ∀ b ∈ host, isVisible b) (hcarries : body ≠ [] → method = .post ∨ method = .put) :
    requestText method path host body.length = requestLine method path ++ (crlf ++
      (lineBlock ((requestFields host body hhost).map HeaderField.line) ++ crlf)) := by
  rw [requestText, requestHead_eq, bodyHead_eq, ascii_lineEnd]
  by_cases hbody : body = []
  · subst hbody
    simp [requestFields]
  · rw [if_pos ⟨List.length_pos_iff.mpr hbody, hcarries hbody⟩]
    simp [requestFields, hbody]

/-! ### The request line -/

/-- What comes before the byte that `strchr` finds. -/
theorem fst_strchr {ch : UInt8} {s x y : Bytes} (h : strchr ch s = some (x, y)) :
    s.takeWhile (· ≠ ch) = x := by
  obtain ⟨rfl, hx⟩ := strchr_eq_some_iff.mp h
  rw [List.takeWhile_append_of_pos, List.takeWhile_cons_of_neg (by simp), List.append_nil]
  exact fun b hb => decide_eq_true fun heq => hx (heq ▸ hb)

/-- Where `strchr` finds nothing the byte does not occur. -/
theorem takeWhile_of_strchr_none {ch : UInt8} {s : Bytes} (h : strchr ch s = none) :
    s.takeWhile (· ≠ ch) = s := by
  rw [List.takeWhile_eq_self_iff]
  exact fun b hb => decide_eq_true fun heq => strchr_eq_none_iff.mp h (heq ▸ hb)

/-- The request line has no NUL and no carriage return. -/
theorem requestLine_visible {method : HTTPMethod} {path : Bytes} (hpath : ∀ b ∈ path, isVisible b) :
    ∀ b ∈ requestLine method path, b ≠ 0 ∧ b ≠ 13 := by
  have hmethod : ∀ b ∈ methodStr method, b ≠ 0 ∧ b ≠ 13 := by
    rw [methodStr.eq_def]
    split <;> decide
  have hversion : ∀ b ∈ ascii "HTTP/1.1", b ≠ 0 ∧ b ≠ 13 := by decide
  intro b hb
  simp only [requestLine, List.mem_append, List.mem_cons] at hb
  rcases hb with hb | rfl | hb | rfl | hb
  · exact hmethod b hb
  · decide
  · obtain ⟨-, -, -, -, h13, h0⟩ := isVisible_spec (hpath b hb)
    exact ⟨h0, h13⟩
  · decide
  · exact hversion b hb

/-- **The request line is read back**: the method, the path before the query, the version. -/
theorem httpParserFirstLine_requestLine {method : HTTPMethod} {path : Bytes}
    (hmethod : method = .get ∨ method = .post ∨ method = .put ∨ method = .delete)
    (hpath : ∀ b ∈ path, isVisible b) :
    ∃ line, httpParserFirstLine (requestLine method path) = .ok line ∧
      line.methodStr = methodStr method ∧ line.method = method ∧
      line.path = beforeQuery path ∧ line.version = ascii "HTTP/1.1" := by
  have hne : requestLine method path ≠ [] := by simp [requestLine]
  have hcstr : cstr (requestLine method path) = requestLine method path :=
    cstr_eq_self fun b hb => (requestLine_visible hpath b hb).1
  have hname : 32 ∉ methodStr method := by
    rcases hmethod with rfl | rfl | rfl | rfl <;> decide
  have henum : httpMethodStringToEnum (methodStr method) = method := by
    rcases hmethod with rfl | rfl | rfl | rfl <;> decide
  have htarget : 32 ∉ path := fun h => (isVisible_spec (hpath 32 h)).2.2.1 rfl
  have hversion : ascii "HTTP/1.1" ≠ [] := by decide
  rw [httpParserFirstLine, if_neg hne, hcstr, requestLine, strchr_append hname]
  simp only
  rw [strchr_append htarget]
  simp only
  rw [if_neg hversion, henum]
  cases hquery : strchr 63 path with
  | none => exact ⟨_, rfl, rfl, rfl, (takeWhile_of_strchr_none hquery).symm, rfl⟩
  | some split => exact ⟨_, rfl, rfl, rfl, (fst_strchr hquery).symm, rfl⟩

/-! ### The whole request -/

/-- The text of a request with its body is read back. -/
theorem readsBack_requestText {method : HTTPMethod} {path host body : Bytes}
    (hmethod : method = .get ∨ method = .post ∨ method = .put ∨ method = .delete)
    (hpath : ∀ b ∈ path, isVisible b) (hhost : ∀ b ∈ host, isVisible b)
    (hcarries : body ≠ [] → method = .post ∨ method = .put)
    (hshort : (requestText method path host body.length).length < 2 ^ 31) :
    ReadsBack (requestText method path host body.length ++ body) method path host body := by
  have htext := requestText_eq path hhost hcarries
  set fields := requestFields host body hhost with hfields
  set block := lineBlock (fields.map HeaderField.line) with hblock
  have hne : fields.map HeaderField.line ≠ [] := by
    rw [hfields, requestFields]
    simp
  have hlen := congrArg List.length htext
  simp only [List.length_append, length_crlf] at hlen
  have hcut : (block ++ crlf).length = headersEnd (fields.map HeaderField.line) + 4 :=
    (headersEnd_add_four hne).symm
  have hsplit := hcut
  rw [List.length_append, length_crlf] at hsplit
  have hbytes : requestText method path host body.length ++ body =
      requestLine method path ++ (crlf ++ (block ++ (crlf ++ body))) := by
    simp only [htext, List.append_assoc]
  have hcr : NoCrlf (requestLine method path) :=
    noCrlf_of_no_cr fun b hb => (requestLine_visible hpath b hb).2
  have hafter : (requestLine method path ++ (crlf ++ (block ++ (crlf ++ body)))).drop
      ((requestLine method path).length + 2) = block ++ (crlf ++ body) := by
    rw [← List.append_assoc]
    exact List.drop_left' (by rw [List.length_append, length_crlf])
  rw [hbytes]
  refine ⟨(requestLine method path).length, headersEnd (fields.map HeaderField.line), ?_, ?_, ?_,
    ?_, ?_⟩
  · rw [httpParserFindLineEnd, firstOcc_crlf_line hcr]
    exact toInt_eq_self (by omega)
  · rw [List.take_left' rfl]
    exact httpParserFirstLine_requestLine hmethod hpath
  · rw [hafter, httpParserFindHeadersEnd, hblock, firstOcc_headersEnd hne]
    exact toInt_eq_self (by omega)
  · rw [hafter, ← List.append_assoc, List.take_left' hcut, hblock,
      httpParserHeaders_block (by rw [← hblock]; omega), parseLines_fields, hfields,
      header_requestFields]
  · rw [hafter, ← List.append_assoc, List.drop_left' hcut]

/-- **The request is read back.** For an accepted URL with a visible host and path, one of the
four methods, and a body that only a `POST` or a `PUT` carries, the request is built within
the estimated size, and the scanners and the parsers find in it what it was built from. -/
theorem request_reads_back {e : Exchange} {body : Bytes}
    (hurl : httpParserUrl e.url = .ok e.urlParts)
    (hhost : ∀ b ∈ e.urlParts.host.bytes, isVisible b)
    (hpath : ∀ b ∈ e.urlParts.path.bytes, isVisible b)
    (hmethod : e.method = .get ∨ e.method = .post ∨ e.method = .put ∨ e.method = .delete)
    (hbody : e.reqBody.getD [] = body) (hlen : e.reqBodyLen = body.length)
    (hcarries : body ≠ [] → e.method = .post ∨ e.method = .put)
    (hshort : (requestText e.method e.urlParts.path.bytes e.urlParts.host.bytes
      body.length).length + body.length < 2 ^ 31) :
    ∃ d text, httpClientWorktaskBuildRequest e = (.sendingRequest, d) ∧
      text.length + body.length < requestMaxLen e.urlParts.path.bytes e.urlParts.host.bytes
        body.length ∧
      text = requestText e.method e.urlParts.path.bytes e.urlParts.host.bytes body.length ∧
      d.requestBuffer = some (text ++ body) ∧ d.requestLength = (text ++ body).length ∧
      ReadsBack (text ++ body) e.method e.urlParts.path.bytes e.urlParts.host.bytes body := by
  have hpathEq : e.path = e.urlParts.path.bytes := by
    rw [Exchange.path, if_neg (httpParserUrl_nonempty hurl).2.2.2]
  have hbodyLen : e.bodyLen = body.length := by
    rw [Exchange.bodyLen, hlen]
    split
    · exact Int.toNat_natCast _
    · rename_i hno
      cases hreq : e.reqBody with
      | none => rw [← hbody, hreq, Option.getD_none, List.length_nil]
      | some b =>
          have hpos : ¬ 0 < (body.length : ℤ) := fun hpos => hno ⟨by simp [hreq], hpos⟩
          omega
  have hbuild := buildRequest_eq (e := e) (by omega)
  rw [hpathEq, hbodyLen, hbody, List.take_length] at hbuild
  refine ⟨_, _, hbuild, length_requestText_lt _ _ _ (by omega), rfl, rfl, ?_,
    readsBack_requestText hmethod hpath hhost hcarries (by omega)⟩
  rw [List.length_append]
  exact_mod_cast toInt_eq_self hshort

/-- A client that is about to build a `POST` of the body for `http://h/a?b=c`. -/
def postClient (body : Bytes) : Exchange :=
  { blockingClient (ascii "http://h/a?b=c") .post none (reachableServer [] [] fun _ => 0) with
    urlParts :=
      { scheme := ⟨ascii "http", by decide, by decide⟩
        host := ⟨ascii "h", by decide, by decide⟩
        port := ⟨ascii "80", by decide, by decide⟩
        path := ⟨ascii "/a?b=c", by decide, by decide⟩ }
    reqBody := some body
    reqBodyLen := body.length }

/-- A POST of `hello` is read back. -/
theorem post_reads_back :
    ∃ d text, httpClientWorktaskBuildRequest (postClient (ascii "hello")) = (.sendingRequest, d) ∧
      text.length + 5 < requestMaxLen (ascii "/a?b=c") (ascii "h") 5 ∧
      text = requestText .post (ascii "/a?b=c") (ascii "h") 5 ∧
      d.requestBuffer = some (text ++ ascii "hello") ∧
      d.requestLength = (text ++ ascii "hello").length ∧
      ReadsBack (text ++ ascii "hello") .post (ascii "/a?b=c") (ascii "h") (ascii "hello") :=
  request_reads_back (e := postClient (ascii "hello")) (by decide)
    (by decide) (by decide) (Or.inr (Or.inl rfl)) rfl rfl
    (fun _ => Or.inl rfl) (by decide +kernel)

end MaestroCore
