import MaestroCore.Message

/-!
# Header Fields There and Back

Header fields as they are written by others: a key and a value, with spaces and tabs before the
colon, after it, and at the end of the line. `http_parser_headers` reads back what was written,
whatever follows the block, and `http_parser_get_header_value` finds the first field with a
name.

## Main results

* `trimTrailing_append` and `trimLeading_append`: what the trimming loops remove.
* `SpacedField.header_eq`: a written field is read back.
* `headers_round_trip`: so is the whole block, and a line without a colon makes it malformed.
-/

open CLang

namespace MaestroCore

/-- What `http_parser_headers` returns, and what it leaves in `*_headers_out`: every failure
disposes of the list and sets the pointer to `NULL`. -/
def headersOut : Except ErrorCode (List HTTPKeyValue) → ErrorCode × Option (List HTTPKeyValue)
  | .ok headers => (.success, some headers)
  | .error e => (e, none)

/-- A space or a tab. -/
def isBlank (b : UInt8) : Bool := b = 32 || b = 9

/-- A header field as it is written, with white space around the key and the value. -/
structure SpacedField where
  key : Bytes
  value : Bytes
  beforeColon : Bytes
  afterColon : Bytes
  afterValue : Bytes
  key_colon : 58 ∉ key
  key_plain : ∀ b ∈ key, isControl b = false
  key_end : ∀ b ∈ key.getLast?, isBlank b = false
  value_plain : ∀ b ∈ value, isControl b = false
  value_start : ∀ b ∈ value.head?, isBlank b = false
  value_end : ∀ b ∈ value.getLast?, isBlank b = false
  blanks : ∀ b ∈ beforeColon ++ afterColon ++ afterValue, isBlank b = true

/-- A blank is no control character and no colon, and is trimmed at the end. -/
theorem isBlank_spec {b : UInt8} (h : isBlank b = true) :
    isControl b = false ∧ isTrailing b = true ∧ b ≠ 58 := by
  simp only [isBlank, Bool.or_eq_true, decide_eq_true_eq] at h
  rcases h with rfl | rfl <;> decide

/-- Among the plain bytes only blanks are trimmed at the end. -/
theorem isTrailing_of_plain {b : UInt8} (hplain : isControl b = false) (h : isBlank b = false) :
    isTrailing b = false := by
  simp only [isControl, isBlank, isTrailing, Bool.or_eq_false_iff] at *
  exact ⟨⟨h, hplain.1.1⟩, hplain.1.2⟩

/-! ### Trimming -/

/-- A text that does not end in white space is left alone. -/
theorem trimTrailing_eq_self {s : Bytes} (hplain : ∀ b ∈ s, isControl b = false)
    (h : ∀ b ∈ s.getLast?, isBlank b = false) : trimTrailing s = s := by
  rw [trimTrailing, List.rdropWhile_eq_self_iff]
  intro hne
  have hlast := h _ (List.getLast?_eq_some_getLast hne)
  simp [isTrailing_of_plain (hplain _ (List.getLast_mem hne)) hlast]

/-- The white space before a text is removed. -/
theorem trimLeading_append {blanks : Bytes} (hblanks : ∀ b ∈ blanks, isBlank b = true)
    (s : Bytes) : trimLeading (blanks ++ s) = trimLeading s :=
  List.dropWhile_append_of_pos hblanks

/-- The value of a line, between white space. -/
theorem trim_value {value before after : Bytes} (hplain : ∀ b ∈ value, isControl b = false)
    (hstart : ∀ b ∈ value.head?, isBlank b = false)
    (hend : ∀ b ∈ value.getLast?, isBlank b = false)
    (hbefore : ∀ b ∈ before, isBlank b = true) (hafter : ∀ b ∈ after, isBlank b = true) :
    trimTrailing (trimLeading (before ++ value ++ after)) = value := by
  have htrailing : ∀ b ∈ after, isTrailing b = true := fun b hb => (isBlank_spec (hafter b hb)).2.1
  rw [List.append_assoc, trimLeading_append hbefore]
  cases value with
  | nil =>
      -- Without a value, the loop over the leading white space goes on to the end of the line.
      have hall : trimLeading after = [] := List.dropWhile_eq_nil_iff.mpr hafter
      rw [List.nil_append, hall]
      rfl
  | cons b value =>
      have hkept : trimLeading (b :: value ++ after) = b :: value ++ after :=
        List.dropWhile_cons_of_neg (by simpa [isBlank] using hstart b rfl)
      rw [hkept, trimTrailing_append htrailing, trimTrailing_eq_self hplain hend]

/-! ### Fields and blocks -/

namespace SpacedField

variable (f : SpacedField)

/-- What was written. -/
def pair : HTTPKeyValue := ⟨f.key, f.value⟩

/-- The field with its white space. -/
def field : HeaderField where
  name := f.key ++ f.beforeColon
  value := f.afterColon ++ f.value ++ f.afterValue
  name_colon := by
    rw [List.mem_append, not_or]
    exact ⟨f.key_colon, fun hmem => (isBlank_spec (f.blanks 58 (by simp [hmem]))).2.2 rfl⟩
  name_plain := fun b hb => by
    rcases List.mem_append.mp hb with hb | hb
    · exact f.key_plain b hb
    · exact (isBlank_spec (f.blanks b (by simp [hb]))).1
  value_plain := fun b hb => by
    rcases List.mem_append.mp hb with hb | hb
    · rcases List.mem_append.mp hb with hb | hb
      · exact (isBlank_spec (f.blanks b (by simp [hb]))).1
      · exact f.value_plain b hb
    · exact (isBlank_spec (f.blanks b (by simp [hb]))).1

/-- **A written field is read back.** -/
theorem header_eq : f.field.header = f.pair := by
  have hkey : trimTrailing (f.key ++ f.beforeColon) = f.key := by
    rw [trimTrailing_append fun b hb => (isBlank_spec (f.blanks b (by simp [hb]))).2.1,
      trimTrailing_eq_self f.key_plain f.key_end]
  have hvalue : trimTrailing (trimLeading (f.afterColon ++ f.value ++ f.afterValue)) = f.value :=
    trim_value f.value_plain f.value_start f.value_end
      (fun b hb => f.blanks b (by simp [hb])) (fun b hb => f.blanks b (by simp [hb]))
  rw [HeaderField.header, pair, field, hkey, hvalue]

end SpacedField

/-- The lines of the fields, as they stand on the wire: `key : value CRLF`. -/
def fieldLines (fields : List SpacedField) : List Line := fields.map (·.field.line)

/-- The lines of the fields parse to the fields. -/
theorem parseLines_fieldLines (fields : List SpacedField) :
    parseLines (fieldLines fields) = .ok (fields.map SpacedField.pair) := by
  have hheaders : (fields.map SpacedField.field).map HeaderField.header =
      fields.map SpacedField.pair := by
    rw [List.map_map]
    exact List.map_congr_left fun f _ => f.header_eq
  rw [fieldLines, ← hheaders, ← parseLines_fields, List.map_map]
  rfl

/-- A line without a colon among the lines. -/
theorem parseLines_of_no_colon {fields : List SpacedField} {bad : Line} (hbad : 58 ∉ bad.text)
    (later : List Line) : parseLines (fieldLines fields ++ bad :: later) = .error .badFormat := by
  induction fields with
  | nil =>
      have hnone : httpParserHeaderLine bad.text = none := by
        have hcstr : 58 ∉ cstr bad.text := fun hmem =>
          hbad ((List.takeWhile_prefix _).subset hmem)
        rw [httpParserHeaderLine, strchr_eq_none_iff.mpr hcstr]
        rfl
      rw [fieldLines, List.map_nil, List.nil_append, parseLines, hnone]
  | cons f fields ih =>
      have hcons : fieldLines (f :: fields) ++ bad :: later =
          f.field.line :: (fieldLines fields ++ bad :: later) := rfl
      rw [hcons, parseLines, f.field.parse]
      simp only [ih]
      rfl

/-- **The first field with the name is found.** -/
theorem getHeaderValue_eq_ok_iff {headers : List HTTPKeyValue} {name value : Bytes} :
    httpParserGetHeaderValue headers name = .ok value ↔
      ∃ pre post, headers = pre ++ ⟨name, value⟩ :: post ∧ ∀ kv ∈ pre, kv.key ≠ name := by
  have hvalue : httpParserGetHeaderValue headers name = .ok value ↔
      ∃ kv, headers.find? (·.key = name) = some kv ∧ kv.value = value := by
    rw [httpParserGetHeaderValue]
    cases headers.find? (·.key = name) with
    | none => simp
    | some kv => simp
  rw [hvalue]
  simp only [List.find?_eq_some_iff_append, decide_eq_true_eq, Bool.not_eq_true',
    decide_eq_false_iff_not]
  constructor
  · rintro ⟨kv, ⟨rfl, pre, post, heq, hpre⟩, rfl⟩
    exact ⟨pre, post, heq, hpre⟩
  · rintro ⟨pre, post, heq, hpre⟩
    exact ⟨⟨name, value⟩, ⟨rfl, pre, post, heq, hpre⟩, rfl⟩

/-- A lookup fails exactly when no key is the name. -/
theorem getHeaderValue_eq_error_iff {headers : List HTTPKeyValue} {name : Bytes} :
    httpParserGetHeaderValue headers name = .error .notFound ↔
      ∀ kv ∈ headers, kv.key ≠ name := by
  rw [httpParserGetHeaderValue]
  cases hfind : headers.find? (·.key = name) with
  | none => simpa using hfind
  | some kv =>
      simp only [reduceCtorEq, false_iff, not_forall]
      exact ⟨kv, List.mem_of_find?_eq_some hfind, by simpa using List.find?_some hfind⟩

/-- **Header parsing undoes header writing.** For all fields with any white space around their
keys and values, and whatever follows the block: the block parses to the keys and the values in
their order; the value that is found under a name is that of the first field with it, and none
is found iff there is no such field; and with a line that has no colon, after any fields and
before any lines, the block is malformed. -/
theorem headers_round_trip (fields : List SpacedField) (rest : Bytes)
    (hlen : (lineBlock (fieldLines fields) ++ (crlf ++ rest)).length < 2 ^ 31) :
    (httpParserHeaders (lineBlock (fieldLines fields) ++ (crlf ++ rest))).map headersOut =
      .ok (.success, some (fields.map SpacedField.pair)) ∧
    (∀ name value, httpParserGetHeaderValue (fields.map SpacedField.pair) name = .ok value ↔
      ∃ pre post, fields.map SpacedField.pair = pre ++ ⟨name, value⟩ :: post ∧
        ∀ kv ∈ pre, kv.key ≠ name) ∧
    (∀ name, httpParserGetHeaderValue (fields.map SpacedField.pair) name = .error .notFound ↔
      ∀ f ∈ fields, f.key ≠ name) ∧
    ∀ (bad : Line) (later : List Line), 58 ∉ bad.text →
      (lineBlock (fieldLines fields ++ bad :: later) ++ (crlf ++ rest)).length < 2 ^ 31 →
      (httpParserHeaders (lineBlock (fieldLines fields ++ bad :: later) ++ (crlf ++ rest))).map
        headersOut = .ok (.badFormat, none) := by
  refine ⟨?_, fun name value => getHeaderValue_eq_ok_iff, fun name => ?_,
    fun bad later hbad hshort => ?_⟩
  · rw [List.length_append] at hlen
    rw [httpParserHeaders_block_append (by omega), parseLines_fieldLines]
    rfl
  · rw [getHeaderValue_eq_error_iff, List.forall_mem_map]
    rfl
  · rw [List.length_append] at hshort
    rw [httpParserHeaders_block_append (by omega), parseLines_of_no_colon hbad]
    rfl

/-- The field `Retry-After \t: 5 `. -/
def spacedRetry : SpacedField where
  key := ascii "Retry-After"
  value := ascii "5"
  beforeColon := [32, 9]
  afterColon := [32]
  afterValue := [32]
  key_colon := by decide
  key_plain := by decide
  key_end := by simp [ascii, isBlank]
  value_plain := by decide
  value_start := by simp [ascii, isBlank]
  value_end := by simp [ascii, isBlank]
  blanks := by decide

/-- One spaced field is read back and found, with the body after the block. -/
theorem spacedRetry_read_back :
    (httpParserHeaders (ascii "Retry-After \t: 5 \r\n\r\nhello")).map headersOut =
      .ok (.success, some [⟨ascii "Retry-After", ascii "5"⟩]) ∧
    httpParserGetHeaderValue [⟨ascii "Retry-After", ascii "5"⟩] (ascii "Retry-After") =
      .ok (ascii "5") := by
  have hblock : lineBlock (fieldLines [spacedRetry]) ++ (crlf ++ ascii "hello") =
      ascii "Retry-After \t: 5 \r\n\r\nhello" := by decide
  obtain ⟨hparse, hfound, -⟩ := headers_round_trip [spacedRetry] (ascii "hello")
    (by rw [hblock]; decide)
  rw [hblock] at hparse
  exact ⟨hparse, (hfound _ _).mpr ⟨[], [], rfl, fun kv hkv => absurd hkv List.not_mem_nil⟩⟩

end MaestroCore
