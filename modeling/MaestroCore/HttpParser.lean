import Mathlib.Data.List.DropRight
import MaestroCore.Lib.Occurrence
import MaestroCore.Utils

/-!
# The Response Parsers

The functions of `http_parser.c` that read a response: the two scanners for a line end
and for the end of the header block, the status line, the header block and the lookup of
a header. The scanners return an `int`: `-1` when nothing is found, and otherwise the
index converted to `int`, which is not the index itself from `2 ^ 31` on.
-/

open CLang

namespace MaestroCore

/-- Carriage return, line feed. -/
def crlf : Bytes := [13, 10]

/-- `http_parser_find_line_end`. -/
def httpParserFindLineEnd (buf : Bytes) : ℤ :=
  match List.firstOcc crlf buf with
  | some i => toInt i
  | none => -1

/-- `http_parser_find_headers_end`. -/
def httpParserFindHeadersEnd (buf : Bytes) : ℤ :=
  match List.firstOcc (crlf ++ crlf) buf with
  | some i => toInt i
  | none => -1

/-- `HTTP_Response`, as far as the status line fills it. -/
structure HTTPResponse where
  version : Option Bytes := none
  statusCodeString : Option Bytes := none
  reasonPhrase : Option Bytes := none
  deriving DecidableEq, Repr

/-- `http_parser_response_firstline`: the status line is `version SP code SP phrase`, and
the phrase must be the standard one of the code. A code that does not parse counts as
`0`. -/
def httpParserResponseFirstline (line : Bytes) (resp : HTTPResponse) :
    Except Fault (ErrorCode × HTTPResponse) :=
  if line = [] then .ok (.invalidArg, resp)
  else
    match strchr 32 (cstr line) with
    | none => .ok (.badFormat, resp)
    | some (version, target) =>
        match strchr 32 target with
        | none => .ok (.badFormat, resp)
        | some (status, reason) => do
            let statusInt := (← parseStringToInt status).getD 0
            match httpStatusReasonPhrase statusInt with
            | none => .error .reasonPhraseNull
            | some phrase =>
                if reason = phrase then
                  .ok (.success, ⟨some version, some status, some reason⟩)
                else .ok (.badFormat, {})

/-- `HTTP_Key_Value`. -/
structure HTTPKeyValue where
  key : Bytes
  value : Bytes
  deriving DecidableEq, Repr

/-- The bytes removed at the end of a key or a value. -/
def isTrailing (b : UInt8) : Bool := b = 32 || b = 9 || b = 13 || b = 10

/-- A key or a value without the trailing white space. -/
def trimTrailing (s : Bytes) : Bytes := s.rdropWhile isTrailing

/-- The value without the leading spaces and tabs. -/
def trimLeading (s : Bytes) : Bytes := s.dropWhile fun b => b = 32 || b = 9

/-- One header line, cut at its first colon. -/
def httpParserHeaderLine (line : Bytes) : Option HTTPKeyValue :=
  (strchr 58 (cstr line)).map fun kv =>
    ⟨trimTrailing kv.1, trimTrailing (trimLeading kv.2)⟩

/-- The loop of `http_parser_headers` from the index `start`, with `rest` the bytes from
there on and `headers` the list built so far. It ends at an empty line, at the last line
end, or where a line end has an index that is negative as an `int`. -/
def httpParserHeadersLoop : ℕ → ℕ → Bytes → List HTTPKeyValue →
    Except Fault (Except ErrorCode (List HTTPKeyValue))
  | 0, _, _, headers => .ok (.ok headers)
  | fuel + 1, start, rest, headers =>
      match List.firstOcc crlf rest with
      | none => .ok (.ok headers)
      | some lineLen =>
          let lineEnd := toInt (start + lineLen)
          if lineEnd < 0 then .ok (.ok headers)
          else if lineEnd ≠ start + lineLen then .error .headerIndex
          else if lineLen = 0 then .ok (.ok headers)
          else
            match httpParserHeaderLine (rest.take lineLen) with
            | none => .ok (.error .badFormat)
            | some header =>
                httpParserHeadersLoop fuel (start + lineLen + 2) (rest.drop (lineLen + 2))
                  (headers ++ [header])

/-- `http_parser_headers`. Every iteration removes a line, so the length of the buffer
bounds their number. -/
def httpParserHeaders (buf : Bytes) : Except Fault (Except ErrorCode (List HTTPKeyValue)) :=
  httpParserHeadersLoop buf.length 0 buf []

/-- `http_parser_get_header_value`: the value of the first header with exactly this
name. -/
def httpParserGetHeaderValue (headers : List HTTPKeyValue) (name : Bytes) :
    Except ErrorCode Bytes :=
  match headers.find? (·.key = name) with
  | some header => .ok header.value
  | none => .error .notFound

end MaestroCore
