import MaestroCore.Reading

/-!
# Well-Formed Responses

The grammar that a server follows, independent of how the client reads it: header fields
`name ":" value`, and the decimal numeral of `Content-Length`. The results say what the
client's parsers make of it.

## Main results

* `parseLines_fields`: a block of well-formed fields parses to their names and values.
* `parseStringToInt_numeral` and `declaredLength_fields`: the decimal numeral of a number
  that fits `int` parses to that number.
* `Head.ofFields`: a status line and well-formed fields are a head that the client
  accepts.
-/

open CLang Run

namespace MaestroCore

/-! ### Header fields -/

/-- The bytes that may not stand in a header line: CR, LF and NUL. -/
def isControl (b : UInt8) : Bool := b = 13 || b = 10 || b = 0

/-- The white space after a text is removed. -/
theorem trimTrailing_append {s blanks : Bytes} (hblanks : ∀ b ∈ blanks, isTrailing b = true) :
    trimTrailing (s ++ blanks) = trimTrailing s :=
  List.rdropWhile_append_of_pos hblanks

/-- A well-formed header field. -/
structure HeaderField where
  name : Bytes
  value : Bytes
  name_colon : 58 ∉ name := by decide
  name_plain : ∀ b ∈ name, isControl b = false := by decide
  value_plain : ∀ b ∈ value, isControl b = false := by decide
  deriving DecidableEq, Repr

/-- The field as a line, `name ":" value`. -/
def HeaderField.text (f : HeaderField) : Bytes := f.name ++ 58 :: f.value

/-- The name and the value without the white space around them. -/
def HeaderField.header (f : HeaderField) : HTTPKeyValue :=
  ⟨trimTrailing f.name, trimTrailing (trimLeading f.value)⟩

/-- A field's text has no control characters. -/
theorem HeaderField.text_plain (f : HeaderField) : ∀ b ∈ f.text, isControl b = false := by
  intro b hb
  rcases List.mem_append.mp hb with hname | hrest
  · exact f.name_plain b hname
  · rcases List.mem_cons.mp hrest with rfl | hvalue
    · rfl
    · exact f.value_plain b hvalue

def HeaderField.line (f : HeaderField) : Line where
  text := f.text
  nonempty := by simp [HeaderField.text]
  noCrlf := noCrlf_of_no_cr fun b hb h => by
    have := f.text_plain b hb
    simp [isControl, h] at this

/-- The header-line parser reads a field's text back as the field's header. -/
theorem HeaderField.parse (f : HeaderField) :
    httpParserHeaderLine f.line.text = some f.header := by
  have hnul : cstr f.line.text = f.name ++ 58 :: f.value :=
    cstr_eq_self fun b hb h => by
      have := f.text_plain b hb
      simp [isControl, h] at this
  rw [httpParserHeaderLine, hnul, strchr_append f.name_colon]
  rfl

/-- **A block of well-formed fields** parses to their names and values. -/
theorem parseLines_fields (fields : List HeaderField) :
    parseLines (fields.map HeaderField.line) = .ok (fields.map HeaderField.header) := by
  induction fields with
  | nil => rfl
  | cons f fields ih =>
      rw [List.map_cons, parseLines, f.parse]
      simp only
      rw [ih]
      rfl

/-- The value of the first field with the given name. -/
def fieldNamed (name : Bytes) (fields : List HeaderField) : Option Bytes :=
  (fields.find? (·.header.key = name)).map (·.header.value)

/-- The lookup over the parsed headers finds the value of the field with that name. -/
theorem httpParserGetHeaderValue_fields (name : Bytes) (fields : List HeaderField) :
    httpParserGetHeaderValue (fields.map HeaderField.header) name =
      match fieldNamed name fields with
      | some value => .ok value
      | none => .error .notFound := by
  rw [httpParserGetHeaderValue, fieldNamed, List.find?_map]
  have hcomp : ((fun h : HTTPKeyValue => decide (h.key = name)) ∘ HeaderField.header) =
      fun f => decide (f.header.key = name) := rfl
  rw [hcomp]
  cases fields.find? fun f => decide (f.header.key = name) <;> rfl

/-- Without a `Transfer-Encoding` key the response is not chunked. -/
theorem transferEncodingChunked_of_no_key {headers : List HTTPKeyValue}
    (h : ∀ header ∈ headers, header.key ≠ ascii "Transfer-Encoding") :
    transferEncodingChunked headers = false := by
  have hfind : headers.find? (·.key = ascii "Transfer-Encoding") = none := by
    rw [List.find?_eq_none]
    simpa using h
  simp [transferEncodingChunked, httpParserGetHeaderValue, hfind]

/-- Without a `Content-Length` key the declared length is 0. -/
theorem declaredLength_of_no_key {headers : List HTTPKeyValue}
    (h : ∀ header ∈ headers, header.key ≠ ascii "Content-Length") :
    declaredLength headers = 0 := by
  have hfind : headers.find? (·.key = ascii "Content-Length") = none := by
    rw [List.find?_eq_none]
    simpa using h
  simp [declaredLength, httpParserGetHeaderValue, hfind]

/-- Fields without `Transfer-Encoding` do not make the response chunked. -/
theorem transferEncodingChunked_of_missing {fields : List HeaderField}
    (h : fieldNamed (ascii "Transfer-Encoding") fields = none) :
    transferEncodingChunked (fields.map HeaderField.header) = false := by
  rw [transferEncodingChunked, httpParserGetHeaderValue_fields, h]

/-- The field `Transfer-Encoding: chunked` makes the response chunked. -/
theorem transferEncodingChunked_of_chunked {fields : List HeaderField}
    (h : fieldNamed (ascii "Transfer-Encoding") fields = some (ascii "chunked")) :
    transferEncodingChunked (fields.map HeaderField.header) = true := by
  rw [transferEncodingChunked, httpParserGetHeaderValue_fields, h]
  decide

/-! ### Decimal numerals -/

/-- The usual decimal numeral of a number: no leading zero, except in `0` itself. -/
structure IsDecimal (n : ℕ) (ds : Bytes) : Prop extends IsNumeral 10 n ds where
  noLeadingZero : ds.head? = some 48 → ds = [48]

/-- The usual numeral of an `int` has at most ten digits. -/
theorem IsDecimal.length_le {n : ℕ} {ds : Bytes} (h : IsDecimal n ds) (hn : n ≤ intMax) :
    ds.length ≤ 10 := by
  obtain ⟨b, s, rfl⟩ := List.exists_cons_of_ne_nil h.nonempty
  by_cases h0 : b = 48
  · rw [h.noLeadingZero (by rw [h0]; rfl)]
    decide
  · by_contra hlen
    have hle := h.toIsNumeral.pow_length_le h0
    have hpow : 10 ^ 10 ≤ 10 ^ s.length :=
      Nat.pow_le_pow_right (by omega) (by simp only [List.length_cons] at hlen; omega)
    rw [intMax] at hn
    omega

/-- A decimal numeral of an `int` within the length that is looked at parses to its
value. -/
theorem parseStringToInt_numeral {n : ℕ} {ds : Bytes} (h : IsNumeral 10 n ds)
    (hlen : ds.length ≤ readMaxLen) (hn : n ≤ intMax) :
    parseStringToInt ds = .ok (some n) := by
  rw [readMaxLen] at hlen
  rw [intMax] at hn
  have hscan : scanInt 10 (ds.take readMaxLen) = some ⟨false, n, []⟩ := by
    rw [List.take_of_length_le (by rw [readMaxLen]; omega),
      scanInt_digits (by omega) h.nonempty h.digits, h.value]
  rw [parseStringToInt_eq (by omega), hscan, Option.bind_some, if_pos]
  · rfl
  · refine ⟨rfl, ?_, ?_⟩ <;> simp only [Scanned.value, intMax, Bool.false_eq_true, if_false] <;>
      omega

/-- The length declared by a `Content-Length` field with the usual numeral. -/
theorem declaredLength_fields {fields : List HeaderField} {n : ℕ} {value : Bytes}
    (h : fieldNamed (ascii "Content-Length") fields = some value) (hvalue : IsDecimal n value)
    (hn : n ≤ intMax) : declaredLength (fields.map HeaderField.header) = n := by
  have hlen := hvalue.length_le hn
  have hparse := parseStringToInt_numeral hvalue.toIsNumeral (by rw [readMaxLen]; omega) hn
  rw [declaredLength, httpParserGetHeaderValue_fields, h]
  simp only [hparse]

/-! ### Heads -/

/-- A status line and at least one well-formed field are a head that the client
accepts. -/
def Head.ofFields (statusLine : StatusLine) (fields : List HeaderField) (hne : fields ≠ []) :
    Head where
  statusLine := statusLine
  lines := fields.map HeaderField.line
  headers := fields.map HeaderField.header
  nonempty := by simpa using hne
  parsed := parseLines_fields fields

/-- The bytes of a response. -/
def response (statusLine : StatusLine) (fields : List HeaderField) (body : Bytes) : Bytes :=
  statusLine.text ++
    (crlf ++ (lineBlock (fields.map HeaderField.line) ++ (crlf ++ body)))

/-- A response with fields is its head followed by its body. -/
theorem response_eq {statusLine : StatusLine} {fields : List HeaderField} (hne : fields ≠ [])
    (body : Bytes) :
    response statusLine fields body = (Head.ofFields statusLine fields hne).bytes ++ body := by
  simp [response, Head.bytes, Head.block, Head.ofFields]

/-- A response is never empty, since its status line is not. -/
theorem response_ne_nil (statusLine : StatusLine) (fields : List HeaderField) (body : Bytes) :
    response statusLine fields body ≠ [] := by
  simp [response, statusLine.text_ne_nil]

/-- The response in one segment. -/
def wholeResponse (statusLine : StatusLine) (fields : List HeaderField) (body : Bytes) :
    List Arrival :=
  [.data ⟨response statusLine fields body, response_ne_nil statusLine fields body⟩]

/-- The one arrival of a whole response carries all of its bytes. -/
theorem pendingOf_wholeResponse (statusLine : StatusLine) (fields : List HeaderField)
    (body : Bytes) :
    pendingOf (wholeResponse statusLine fields body) = response statusLine fields body := by
  simp [wholeResponse, pendingOf]

/-- A list in which a name is found is not empty. -/
theorem ne_nil_of_fieldNamed {name value : Bytes} {fields : List HeaderField}
    (h : fieldNamed name fields = some value) : fields ≠ [] := by
  rintro rfl
  simp [fieldNamed] at h

/-- A header field with a value of `n` bytes. -/
def longField (n : ℕ) : HeaderField where
  name := ascii "X"
  value := List.replicate n 97
  value_plain := fun b hb => by rw [List.eq_of_mem_replicate hb]; rfl

/-- The header end of a block with a long second field, in terms of that field's length. -/
theorem headersEnd_longField (f : HeaderField) (n : ℕ) :
    headersEnd ([f, longField n].map HeaderField.line) = f.text.length + n + 4 := by
  have hlen : (longField n).line.text.length = n + 2 := by
    simp only [HeaderField.line, HeaderField.text, longField, List.length_append,
      List.length_cons, List.length_replicate]
    have : (ascii "X").length = 1 := by decide
    omega
  have hf : f.line.text.length = f.text.length := rfl
  rw [headersEnd, List.map_cons, List.map_cons, List.map_nil, length_lineBlock_cons,
    length_lineBlock_cons, hlen, hf, lineBlock_nil, List.length_nil]
  omega

/-- The status line of most responses. -/
def statusOk : StatusLine where
  text := ascii "HTTP/1.1 200 OK"
  resp := ⟨some (ascii "HTTP/1.1"), some (ascii "200"), some (ascii "OK")⟩
  noCrlf := by decide
  short := by decide
  accepted := by decide

/-- `hello` can be a segment or a chunk. -/
theorem hello_ne_nil : ascii "hello" ≠ [] := by decide

end MaestroCore
