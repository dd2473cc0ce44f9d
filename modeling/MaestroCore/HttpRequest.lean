import MaestroCore.HttpParser

/-!
# URLs, Request Lines and the Request Text

The functions of `http_parser.c` that take a URL and a request line apart, and the text of a
request as `http_client_worktask_build_request` prints it.

`URL_Parts` holds its strings in arrays of fixed size, so they are bounded by their type.
-/

open CLang

namespace MaestroCore

/-- `HTTPMethod`. A variable of the enumeration type that was never set can hold any other
value. -/
inductive HTTPMethod
  | options
  | get
  | post
  | put
  | delete
  | download
  | invalid
  | unset (value : ℕ)
  deriving DecidableEq, Repr

/-- `http_method_string_to_enum`. -/
def httpMethodStringToEnum (s : Bytes) : HTTPMethod :=
  if s = ascii "GET" then .get
  else if s = ascii "OPTIONS" then .options
  else if s = ascii "POST" then .post
  else if s = ascii "PUT" then .put
  else if s = ascii "DELETE" then .delete
  else if s = ascii "DOWNLOAD" then .download
  else .invalid

/-! ### URLs -/

/-- `URL_Parts`. -/
structure URLParts where
  scheme : CString 6 := ⟨[], by decide, by simp⟩
  host : CString 128 := ⟨[], by decide, by simp⟩
  port : CString 6 := ⟨[], by decide, by simp⟩
  path : CString 512 := ⟨[], by decide, by simp⟩
  deriving DecidableEq, Repr

/-- The port that `http_parser_url` puts in where the URL has none. -/
def defaultPort (scheme : Bytes) : Option Bytes :=
  if scheme.map tolower = ascii "https" then some (ascii "443")
  else if scheme.map tolower = ascii "http" then some (ascii "80")
  else none

/-- The part of a URL after `://`, cut into the host, the port if there is one, and what is
left from the first slash on. The colon only ends the host when it comes before the slash. -/
def splitAuthority (rest : Bytes) : Bytes × Option Bytes × Bytes :=
  match strchr 58 rest, strchr 47 rest with
  | some (host, afterColon), some (beforeSlash, afterSlash) =>
      if host.length < beforeSlash.length then
        (host, some (afterColon.take (beforeSlash.length - host.length - 1)), 47 :: afterSlash)
      else (beforeSlash, none, 47 :: afterSlash)
  | some (host, afterColon), none => (host, some afterColon, [])
  | none, some (beforeSlash, afterSlash) => (beforeSlash, none, 47 :: afterSlash)
  | none, none => (rest, none, [])

/-- A port is accepted when it is a non-empty string of digits. -/
def validPort (port : Bytes) : Bool := port ≠ [] && port.all (isDigit 10)

/-- `http_parser_url`. -/
def httpParserUrl (url : Bytes) : Except ErrorCode URLParts :=
  let url := cstr url
  match List.firstOcc (ascii "://") url with
  | none => .error .badFormat
  | some schemeLen =>
      let scheme := url.take schemeLen
      let (host, port, path) := splitAuthority (url.drop (schemeLen + 3))
      if scheme = [] ∨ host = [] then .error .badFormat
      else
        match port with
        | some port =>
            if validPort port then
              copyParts scheme host port path
            else .error .badFormat
        | none =>
            match defaultPort scheme with
            | some port => copyParts scheme host port path
            | none => .error .badFormat
where
  /-- The parts are copied into their arrays; an empty path becomes a slash. -/
  copyParts (scheme host port path : Bytes) : Except ErrorCode URLParts :=
    match CString.copy 6 scheme, CString.copy 128 host, CString.copy 6 port,
      CString.copy 512 (if path = [] then [47] else path) with
    | some scheme, some host, some port, some path => .ok ⟨scheme, host, port, path⟩
    | _, _, _, _ => .error .badFormat

/-- The parts that are copied are the ones found, with `/` for an empty path. -/
theorem copyParts_eq_ok {scheme host port path : Bytes} {parts : URLParts}
    (h : httpParserUrl.copyParts scheme host port path = .ok parts) :
    parts.scheme.bytes = scheme ∧ parts.host.bytes = host ∧ parts.port.bytes = port ∧
      parts.path.bytes = if path = [] then [47] else path := by
  rw [httpParserUrl.copyParts] at h
  split at h
  · rename_i hscheme hhost hport hpath
    obtain rfl := Except.ok.inj h
    exact ⟨CString.bytes_of_copy hscheme, CString.bytes_of_copy hhost,
      CString.bytes_of_copy hport, CString.bytes_of_copy hpath⟩
  · cases h

/-- A default port is not empty. -/
theorem defaultPort_ne_nil {scheme port : Bytes} (h : defaultPort scheme = some port) :
    port ≠ [] := by
  rw [defaultPort] at h
  split at h
  · rw [← Option.some.inj h]
    decide
  · split at h
    · rw [← Option.some.inj h]
      decide
    · cases h

/-- **No part of an accepted URL is empty.** -/
theorem httpParserUrl_nonempty {url : Bytes} {parts : URLParts}
    (h : httpParserUrl url = .ok parts) :
    parts.scheme.bytes ≠ [] ∧ parts.host.bytes ≠ [] ∧ parts.port.bytes ≠ [] ∧
      parts.path.bytes ≠ [] := by
  have hparts : ∀ scheme host port path, scheme ≠ [] → host ≠ [] → port ≠ [] →
      httpParserUrl.copyParts scheme host port path = .ok parts →
      parts.scheme.bytes ≠ [] ∧ parts.host.bytes ≠ [] ∧ parts.port.bytes ≠ [] ∧
        parts.path.bytes ≠ [] := by
    intro scheme host port path hscheme hhost hport hcopy
    obtain ⟨h1, h2, h3, h4⟩ := copyParts_eq_ok hcopy
    rw [h1, h2, h3, h4]
    refine ⟨hscheme, hhost, hport, ?_⟩
    split
    · decide
    · assumption
  rw [httpParserUrl] at h
  simp only at h
  split at h
  · cases h
  · split at h
    · cases h
    · rename_i hne
      obtain ⟨hscheme, hhost⟩ := not_or.mp hne
      split at h
      · split at h
        · rename_i hvalid
          rw [validPort, Bool.and_eq_true, decide_eq_true_eq] at hvalid
          exact hparts _ _ _ _ hscheme hhost hvalid.1 h
        · cases h
      · split at h
        · rename_i hport
          exact hparts _ _ _ _ hscheme hhost (defaultPort_ne_nil hport) h
        · cases h

/-! ### Request lines -/

/-- What `http_parser_first_line` fills: fields of `HTTP_Request`, and the list of the
parameters when the target has a query. -/
structure HTTPRequestLine where
  methodStr : Bytes
  path : Bytes
  version : Bytes
  method : HTTPMethod
  params : Option (List HTTPKeyValue)
  deriving DecidableEq, Repr

/-- The loop of `http_parser_first_line` over the parameters of a query. Every iteration
removes at least the byte `=`, so the length of the query bounds their number. -/
def httpParserParamsLoop : ℕ → Bytes → List HTTPKeyValue → List HTTPKeyValue
  | 0, _, params => params
  | fuel + 1, query, params =>
      match strchr 61 query with
      | none => params
      | some (key, rest) =>
          match strchr 38 rest with
          | none => params ++ [⟨key, rest⟩]
          | some (value, later) => httpParserParamsLoop fuel later (params ++ [⟨key, value⟩])

/-- `http_parser_first_line`: the line is `method SP target SP version`, and the path is the
part of the target before the first `?`. -/
def httpParserFirstLine (line : Bytes) : Except ErrorCode HTTPRequestLine :=
  if line = [] then .error .invalidArg
  else
    match strchr 32 (cstr line) with
    | none => .error .badFormat
    | some (method, rest) =>
        match strchr 32 rest with
        | none => .error .badFormat
        | some (target, version) =>
            if version = [] then .error .badFormat
            else
              match strchr 63 target with
              | none => .ok ⟨method, target, version, httpMethodStringToEnum method, none⟩
              | some (path, query) =>
                  .ok ⟨method, path, version, httpMethodStringToEnum method,
                    some (httpParserParamsLoop query.length query [])⟩

/-! ### The request text -/

/-- The `method_str` that `http_client_worktask_build_request` prints. -/
def methodStr : HTTPMethod → Bytes
  | .post => ascii "POST"
  | .put => ascii "PUT"
  | .delete => ascii "DELETE"
  | _ => ascii "GET"

/-- The request line and the header lines that every request has. -/
def requestHead (method : HTTPMethod) (path host : Bytes) : Bytes :=
  methodStr method ++ ascii " " ++ path ++ ascii " HTTP/1.1\r\n" ++
    ascii "Host: " ++ host ++ ascii "\r\n" ++
    ascii "User-Agent: httpclient\r\n" ++
    ascii "Connection: close\r\n"

/-- The header lines of a request with a body. -/
def bodyHead (bodyLen : ℕ) : Bytes :=
  ascii "Content-Length: " ++ decimal bodyLen ++ ascii "\r\n" ++
    ascii "Content-Type: application/octet-stream\r\n"

/-- The text that `http_client_worktask_build_request` prints with `snprintf`. -/
def requestText (method : HTTPMethod) (path host : Bytes) (bodyLen : ℕ) : Bytes :=
  if 0 < bodyLen ∧ (method = .post ∨ method = .put) then
    requestHead method path host ++ bodyHead bodyLen ++ ascii "\r\n"
  else requestHead method path host ++ ascii "\r\n"

/-- The size of the array that `http_client_worktask_build_request` allocates. -/
def requestMaxLen (path host : Bytes) (bodyLen : ℕ) : ℕ :=
  host.length + path.length + 256 + (if 0 < bodyLen then 128 else 0) + bodyLen

end MaestroCore
