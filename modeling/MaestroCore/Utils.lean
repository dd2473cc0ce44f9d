import MaestroCore.Lib.CLang

/-!
# Status Codes, Strings and Error Codes

The helpers under the HTTP code: the reason phrases of `HTTPStatusCodes.c`, the numeral
parser and the growing buffer of `string_utils.c`, and the return codes of `error.h` that
the modelled functions use.

Code whose behaviour C leaves undefined does not return: it stops with a `Fault` that
says which access went wrong. Memory allocation always succeeds.
-/

open CLang

namespace MaestroCore

/-- The accesses outside an object that the modelled code can make. -/
inductive Fault
  /-- `strcmp` is called with the `NULL` phrase of an unknown status code. -/
  | reasonPhraseNull
  /-- `parse_string_to_int` copies past the end of its local `buf`. -/
  | numeralBuffer
  /-- `http_parser_headers` continues at an index that does not fit an `int`. -/
  | headerIndex
  /-- `http_client_worktask_decipher_chonkiness` copies past the end of `line`. -/
  | chunkLineBuffer
  /-- `http_client_worktask_read_body_chunked` copies past the end of `recv_buf`. -/
  | recvBufOverread
  /-- `http_client_worktask_send_request` passes more bytes than `request_buffer` holds. -/
  | requestOverread
  deriving DecidableEq, Repr

/-- Return codes (`error.h`). -/
inductive ErrorCode
  | success
  | invalidArg
  | badFormat
  | noMemory
  | io
  | timeout
  | busy
  | inProgress
  | notFound
  deriving DecidableEq, Repr

/-- The standard reason phrase of a status code, `none` for the `NULL` of an unknown
code. -/
def httpStatusReasonPhrase (code : ℤ) : Option Bytes :=
  match code with
  | 100 => some (ascii "Continue")
  | 101 => some (ascii "Switching Protocols")
  | 102 => some (ascii "Processing")
  | 103 => some (ascii "Early Hints")
  | 200 => some (ascii "OK")
  | 201 => some (ascii "Created")
  | 202 => some (ascii "Accepted")
  | 203 => some (ascii "Non-Authoritative Information")
  | 204 => some (ascii "No Content")
  | 205 => some (ascii "Reset Content")
  | 206 => some (ascii "Partial Content")
  | 207 => some (ascii "Multi-Status")
  | 208 => some (ascii "Already Reported")
  | 226 => some (ascii "IM Used")
  | 300 => some (ascii "Multiple Choices")
  | 301 => some (ascii "Moved Permanently")
  | 302 => some (ascii "Found")
  | 303 => some (ascii "See Other")
  | 304 => some (ascii "Not Modified")
  | 305 => some (ascii "Use Proxy")
  | 307 => some (ascii "Temporary Redirect")
  | 308 => some (ascii "Permanent Redirect")
  | 400 => some (ascii "Bad Request")
  | 401 => some (ascii "Unauthorized")
  | 402 => some (ascii "Payment Required")
  | 403 => some (ascii "Forbidden")
  | 404 => some (ascii "Not Found")
  | 405 => some (ascii "Method Not Allowed")
  | 406 => some (ascii "Not Acceptable")
  | 407 => some (ascii "Proxy Authentication Required")
  | 408 => some (ascii "Request Timeout")
  | 409 => some (ascii "Conflict")
  | 410 => some (ascii "Gone")
  | 411 => some (ascii "Length Required")
  | 412 => some (ascii "Precondition Failed")
  | 413 => some (ascii "Content Too Large")
  | 414 => some (ascii "URI Too Long")
  | 415 => some (ascii "Unsupported Media Type")
  | 416 => some (ascii "Range Not Satisfiable")
  | 417 => some (ascii "Expectation Failed")
  | 418 => some (ascii "I'm a teapot")
  | 421 => some (ascii "Misdirected Request")
  | 422 => some (ascii "Unprocessable Content")
  | 423 => some (ascii "Locked")
  | 424 => some (ascii "Failed Dependency")
  | 425 => some (ascii "Too Early")
  | 426 => some (ascii "Upgrade Required")
  | 428 => some (ascii "Precondition Required")
  | 429 => some (ascii "Too Many Requests")
  | 431 => some (ascii "Request Header Fields Too Large")
  | 451 => some (ascii "Unavailable For Legal Reasons")
  | 500 => some (ascii "Internal Server Error")
  | 501 => some (ascii "Not Implemented")
  | 502 => some (ascii "Bad Gateway")
  | 503 => some (ascii "Service Unavailable")
  | 504 => some (ascii "Gateway Timeout")
  | 505 => some (ascii "HTTP Version Not Supported")
  | 506 => some (ascii "Variant Also Negotiates")
  | 507 => some (ascii "Insufficient Storage")
  | 508 => some (ascii "Loop Detected")
  | 510 => some (ascii "Not Extended")
  | 511 => some (ascii "Network Authentication Required")
  | _ => none

/-- The length of the local `buf` that `parse_string_to_int` scans, without its NUL. -/
def readMaxLen : ℕ := 36

/-- `parse_string_to_int` on a string: the value, or `none` where it returns `-1` and
leaves its output alone. Only the first `readMaxLen` bytes are looked at. -/
def parseStringToInt (str : Bytes) : Except Fault (Option ℤ) :=
  let strLen := toInt str.length
  -- A length beyond `int` comes out negative and is then used as a `size_t`.
  if strLen < 0 then .error .numeralBuffer
  else
    let actualLen := if strLen > readMaxLen then readMaxLen else strLen.toNat
    match strtol 10 (str.take actualLen) with
    | none => .ok none
    | some (val, erange, rest) =>
        if erange ∨ rest ≠ [] then .ok none
        else if val < -2 ^ 31 ∨ val > intMax then .ok none
        else .ok (some val)

/-- The bytes that `parse_string_to_int` copies. -/
def copiedPart (str : Bytes) : Bytes := str.take (min readMaxLen (toInt str.length).toNat)

/-- Of a string with a length in `int` the first bytes are copied. -/
theorem copiedPart_of_short {str : Bytes} (h : str.length < 2 ^ 31) :
    copiedPart str = str.take readMaxLen := by
  rw [copiedPart, toInt_eq_self h, Int.toNat_natCast]
  rcases Nat.le_total readMaxLen str.length with hle | hle
  · rw [min_eq_left hle]
  · rw [min_eq_right hle, List.take_length, List.take_of_length_le hle]

/-- **What `parse_string_to_int` accepts**: a numeral, with nothing after it in the bytes that
are copied, of a number that fits `int`. -/
theorem parseStringToInt_of_nonneg {str : Bytes} (h : 0 ≤ toInt str.length) :
    parseStringToInt str = .ok ((scanInt 10 (copiedPart str)).bind fun n =>
      if n.rest = [] ∧ -2 ^ 31 ≤ n.value ∧ n.value ≤ intMax then some n.value else none) := by
  have hpart : (str.take (if toInt str.length > readMaxLen then readMaxLen
      else (toInt str.length).toNat)) = copiedPart str := by
    rw [copiedPart]
    split
    · rw [min_eq_left (by omega)]
    · rw [min_eq_right (by omega)]
  simp only [parseStringToInt, hpart, strtol]
  rw [if_neg (by omega)]
  rcases scanInt 10 (copiedPart str) with _ | ⟨negative, m, rest⟩
  · rfl
  · simp only [Option.map_some, Option.bind_some, Scanned.value, intMax]
    cases negative <;> grind

/-- A string with a length in `int` is scanned up to the limit, and must end there. -/
theorem parseStringToInt_eq {str : Bytes} (h : str.length < 2 ^ 31) :
    parseStringToInt str = .ok ((scanInt 10 (str.take readMaxLen)).bind fun n =>
      if n.rest = [] ∧ -2 ^ 31 ≤ n.value ∧ n.value ≤ intMax then some n.value else none) := by
  rw [parseStringToInt_of_nonneg (by rw [toInt_eq_self h]; omega), copiedPart_of_short h]

/-- `buffer_append`. -/
def bufferAppend (base input : Bytes) : Bytes := base ++ input

end MaestroCore
