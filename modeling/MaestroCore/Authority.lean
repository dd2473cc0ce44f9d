import MaestroCore.RequestText

/-!
# What a URL Puts into the Request

`http_parser_url` cuts a URL into its parts and `http_client_worktask_build_request` prints
the host and the path into the request. The parser looks for three separators and takes every
other byte as it comes, and the request has the host without the port.

## Main results

* `httpParserUrl_parts`: the parts of an accepted URL are the pieces of its text.
* `request_follows_template_iff`: the lines of the request are those of the template, with a
  request line of three fields, iff the URL has no space and no line end after its scheme.
* `request_names_authority_iff`: the host and the target of the request lead back to the same
  server iff the URL names no port, or the one that its scheme has by default.
-/

open CLang Run

namespace MaestroCore

/-! ### The pieces of a URL -/

/-- The scheme of a URL: its text before the first `://`. -/
def urlScheme (url : Bytes) : Bytes :=
  match List.firstOcc (ascii "://") (cstr url) with
  | none => []
  | some n => (cstr url).take n

/-- The text of a URL after its first `://`. -/
def afterScheme (url : Bytes) : Bytes :=
  match List.firstOcc (ascii "://") (cstr url) with
  | none => []
  | some n => (cstr url).drop (n + 3)

/-- The port that a URL names, if it does. -/
def explicitPort (url : Bytes) : Option Bytes := (splitAuthority (afterScheme url)).2.1

/-- The colon and the text of a port, or nothing. -/
def portText : Option Bytes → Bytes
  | none => []
  | some port => 58 :: port

/-- The authority is cut where its separators are. -/
theorem splitAuthority_spec {rest host path : Bytes} {port : Option Bytes}
    (h : splitAuthority rest = (host, port, path)) :
    rest = host ++ portText port ++ path ∧ 58 ∉ host ∧ 47 ∉ host ∧
      (path = [] ∨ ∃ later, path = 47 :: later) := by
  rw [splitAuthority] at h
  split at h
  · rename_i host' afterColon beforeSlash afterSlash hcolon hslash
    obtain ⟨hrest, h58⟩ := strchr_eq_some_iff.mp hcolon
    obtain ⟨hrest', h47⟩ := strchr_eq_some_iff.mp hslash
    split at h
    · -- the host ends at the colon, and the port at the slash
      rename_i hlt
      obtain ⟨rfl, rfl, rfl⟩ := h
      have hwhole : host ++ [58] <+: rest := ⟨afterColon, by rw [hrest]; simp⟩
      have hpre : host ++ [58] <+: beforeSlash :=
        List.prefix_of_prefix_length_le hwhole ⟨47 :: afterSlash, hrest'.symm⟩ (by simp; omega)
      obtain ⟨port', rfl⟩ := hpre
      have hafter : afterColon = port' ++ 47 :: afterSlash := by
        have heq := hrest.symm.trans hrest'
        simpa using heq
      have htake : afterColon.take ((host ++ [58] ++ port').length - host.length - 1) = port' := by
        rw [hafter]
        refine List.take_left' ?_
        simp only [List.length_append, List.length_singleton]
        omega
      refine ⟨?_, h58, fun hmem => h47 (by simp [hmem]), Or.inr ⟨_, rfl⟩⟩
      rw [htake, hrest', portText]
      simp
    · rename_i hlt
      obtain ⟨rfl, rfl, rfl⟩ := h
      refine ⟨by rw [hrest', portText]; simp, ?_, h47, Or.inr ⟨_, rfl⟩⟩
      -- the first colon is behind the slash
      intro hmem
      have hwhole : host <+: rest := ⟨47 :: afterSlash, hrest'.symm⟩
      have hpre : host <+: host' :=
        List.prefix_of_prefix_length_le hwhole ⟨58 :: afterColon, hrest.symm⟩ (by omega)
      exact h58 (hpre.subset hmem)
  · rename_i host' afterColon hcolon hslash
    obtain ⟨hrest, h58⟩ := strchr_eq_some_iff.mp hcolon
    obtain ⟨rfl, rfl, rfl⟩ := h
    refine ⟨by rw [hrest, portText]; simp, h58, fun hmem => ?_, Or.inl rfl⟩
    exact strchr_eq_none_iff.mp hslash (by rw [hrest]; simp [hmem])
  · rename_i beforeSlash afterSlash hcolon hslash
    obtain ⟨hrest', h47⟩ := strchr_eq_some_iff.mp hslash
    obtain ⟨rfl, rfl, rfl⟩ := h
    refine ⟨by rw [hrest', portText]; simp, fun hmem => ?_, h47, Or.inr ⟨_, rfl⟩⟩
    exact strchr_eq_none_iff.mp hcolon (by rw [hrest']; simp [hmem])
  · rename_i hcolon hslash
    obtain ⟨rfl, rfl, rfl⟩ := h
    exact ⟨by simp [portText], strchr_eq_none_iff.mp hcolon, strchr_eq_none_iff.mp hslash,
      Or.inl rfl⟩

/-- A host without separators and a path are cut apart again. -/
theorem splitAuthority_host_path {host later : Bytes} (h58 : 58 ∉ host) (h47 : 47 ∉ host) :
    splitAuthority (host ++ 47 :: later) = (host, none, 47 :: later) := by
  have hslash : strchr 47 (host ++ 47 :: later) = some (host, later) := strchr_append h47 later
  rw [splitAuthority, hslash]
  cases hcolon : strchr 58 (host ++ 47 :: later) with
  | none => rfl
  | some split =>
      obtain ⟨x, y⟩ := split
      obtain ⟨heq, hx⟩ := strchr_eq_some_iff.mp hcolon
      have hle : host.length ≤ x.length := by
        by_contra hlt
        have hwhole : x ++ [58] <+: host ++ 47 :: later := ⟨y, by rw [heq]; simp⟩
        have hpre : x ++ [58] <+: host :=
          List.prefix_of_prefix_length_le hwhole ⟨_, rfl⟩ (by simp; omega)
        exact h58 (hpre.subset (by simp))
      simp only [if_neg (not_lt.mpr hle)]

/-- **The parts of an accepted URL are the pieces of its text**, with a slash for an empty
path, and with the default port of the scheme where the URL names none. -/
theorem httpParserUrl_parts {url : Bytes} {parts : URLParts} (h : httpParserUrl url = .ok parts) :
    List.firstOcc (ascii "://") (cstr url) = some (urlScheme url).length ∧
    parts.scheme.bytes = urlScheme url ∧
    (∃ path, splitAuthority (afterScheme url) = (parts.host.bytes, explicitPort url, path) ∧
      parts.path.bytes = if path = [] then [47] else path) ∧
    ((∃ port, explicitPort url = some port ∧ validPort port = true ∧ parts.port.bytes = port) ∨
      (explicitPort url = none ∧ defaultPort (urlScheme url) = some parts.port.bytes)) := by
  rw [httpParserUrl] at h
  simp only at h
  split at h
  · cases h
  · rename_i n hn
    have hscheme : urlScheme url = (cstr url).take n := by rw [urlScheme, hn]
    have hafter : afterScheme url = (cstr url).drop (n + 3) := by rw [afterScheme, hn]
    have hlength : (urlScheme url).length = n := by
      rw [hscheme, List.length_take]
      have hle := List.firstOcc_add_length_le hn
      omega
    rw [← hscheme, ← hafter] at h
    rcases hsplit : splitAuthority (afterScheme url) with ⟨host, port, path⟩
    have hport : explicitPort url = port := by rw [explicitPort, hsplit]
    rw [hsplit] at h
    refine ⟨hlength ▸ hn, ?_⟩
    split at h
    · cases h
    · cases port with
      | some port =>
          simp only at h
          split at h
          · rename_i hvalid
            obtain ⟨h1, h2, h3, h4⟩ := copyParts_eq_ok h
            exact ⟨h1, ⟨path, by rw [h2, hport], h4⟩, Or.inl ⟨port, hport, hvalid, h3⟩⟩
          · cases h
      | none =>
          simp only at h
          split at h
          · rename_i p hdefault
            obtain ⟨h1, h2, h3, h4⟩ := copyParts_eq_ok h
            exact ⟨h1, ⟨path, by rw [h2, hport], h4⟩, Or.inr ⟨hport, by rw [h3, hdefault]⟩⟩
          · cases h

/-! ### The lines of the request -/

/-- The lines, each with its line end. -/
def joinLines (lines : List Bytes) : Bytes := (lines.map (· ++ crlf)).flatten

/-- The lines that the template of the request lists. -/
def templateLines (method : HTTPMethod) (target host : Bytes) (bodyLen : ℕ) : List Bytes :=
  requestLine method target ::
    (ascii "Host: " ++ host) ::
    ascii "User-Agent: httpclient" ::
    ascii "Connection: close" ::
    if 0 < bodyLen ∧ (method = .post ∨ method = .put) then
      [ascii "Content-Length: " ++ decimal bodyLen,
        ascii "Content-Type: application/octet-stream"]
    else []

/-- The request consists of the lines of the template, an empty line and the body: no line end
is inside a line, the request line has two spaces and the host has none. -/
def FollowsTemplate (request : Bytes) (method : HTTPMethod) (bodyLen : ℕ) (body : Bytes) : Prop :=
  ∃ target host, request = joinLines (templateLines method target host bodyLen) ++ crlf ++ body ∧
    (∀ line ∈ templateLines method target host bodyLen, 13 ∉ line ∧ 10 ∉ line) ∧
    (requestLine method target).count 32 = 2 ∧ 32 ∉ host

/-- The text that is printed, line by line. -/
theorem requestText_eq_joinLines (method : HTTPMethod) (path host : Bytes) (bodyLen : ℕ) :
    requestText method path host bodyLen =
      joinLines (templateLines method path host bodyLen) ++ crlf := by
  have hagent : ascii "User-Agent: httpclient" =
      ascii "User-Agent" ++ 58 :: 32 :: ascii "httpclient" := by decide
  have hclose : ascii "Connection: close" = ascii "Connection" ++ 58 :: 32 :: ascii "close" := by
    decide
  have htype : ascii "Content-Type: application/octet-stream" =
      ascii "Content-Type" ++ 58 :: 32 :: ascii "application/octet-stream" := by decide
  rw [requestText, requestHead_eq, bodyHead_eq, ascii_lineEnd, templateLines, ascii_hostName,
    hagent, hclose, ascii_lengthName, htype]
  split <;> simp [joinLines]

/-- The host and the path are printed once each, among text that does not depend on them. -/
theorem count_templateLines (b : UInt8) (method : HTTPMethod) (target host : Bytes)
    (bodyLen : ℕ) :
    (joinLines (templateLines method target host bodyLen)).count b =
      (joinLines (templateLines method [] [] bodyLen)).count b + target.count b +
        host.count b := by
  simp only [joinLines, templateLines, requestLine, List.map_cons, List.flatten_cons,
    List.count_append, List.count_cons, List.append_nil, List.nil_append]
  omega

/-! ### No injection -/

/-- A space or one of the two bytes of a line end. -/
def isSeparator (b : UInt8) : Bool := b = 32 || b = 13 || b = 10

/-- A byte is no separator when it is no space, carriage return or line feed. -/
theorem isSeparator_eq_false {b : UInt8} :
    isSeparator b = false ↔ b ≠ 32 ∧ b ≠ 13 ∧ b ≠ 10 := by
  simp only [isSeparator, Bool.or_eq_false_iff, decide_eq_false_iff_not, and_assoc, ne_eq]

/-- A text without separators is one in which each of the three does not occur. -/
theorem forall_isSeparator_eq_false {s : Bytes} :
    (∀ b ∈ s, isSeparator b = false) ↔ 32 ∉ s ∧ 13 ∉ s ∧ 10 ∉ s := by
  constructor
  · intro h
    exact ⟨fun hmem => absurd (h 32 hmem) (by decide), fun hmem => absurd (h 13 hmem) (by decide),
      fun hmem => absurd (h 10 hmem) (by decide)⟩
  · rintro ⟨h32, h13, h10⟩ b hb
    rw [isSeparator_eq_false]
    refine ⟨?_, ?_, ?_⟩ <;> rintro rfl
    · exact h32 hb
    · exact h13 hb
    · exact h10 hb

/-- The method names have no separators. -/
theorem methodStr_clean (method : HTTPMethod) :
    32 ∉ methodStr method ∧ 13 ∉ methodStr method ∧ 10 ∉ methodStr method := by
  rw [methodStr.eq_def]
  split <;> decide

/-- The request line has two spaces more than its target. -/
theorem count_requestLine (method : HTTPMethod) (target : Bytes) :
    (requestLine method target).count 32 = target.count 32 + 2 := by
  have hmethod : (methodStr method).count 32 = 0 := List.count_eq_zero.mpr (methodStr_clean _).1
  have hversion : (ascii "HTTP/1.1").count 32 = 0 := by decide
  simp only [requestLine, List.count_append, List.count_cons, hmethod, hversion, beq_self_eq_true,
    if_true]
  omega

/-- The text around the host and the target has no line end. -/
theorem templateLines_clean {method : HTTPMethod} {target host : Bytes} (bodyLen : ℕ)
    (htarget : 13 ∉ target ∧ 10 ∉ target) (hhost : 13 ∉ host ∧ 10 ∉ host) :
    ∀ line ∈ templateLines method target host bodyLen, 13 ∉ line ∧ 10 ∉ line := by
  have hdigits : 13 ∉ decimal bodyLen ∧ 10 ∉ decimal bodyLen := by
    have hvisible : ∀ b ∈ decimal bodyLen, isVisible b := fun b hb =>
      isVisible_of_digit ((isNumeral_decimal bodyLen).digits b hb)
    exact ⟨fun hmem => absurd (hvisible 13 hmem) (by decide),
      fun hmem => absurd (hvisible 10 hmem) (by decide)⟩
  have hname : 13 ∉ ascii "Host: " ∧ 10 ∉ ascii "Host: " := by decide
  have hversion : 13 ∉ ascii "HTTP/1.1" ∧ 10 ∉ ascii "HTTP/1.1" := by decide
  have hlength : 13 ∉ ascii "Content-Length: " ∧ 10 ∉ ascii "Content-Length: " := by decide
  have hfixed : ∀ line ∈ [ascii "User-Agent: httpclient", ascii "Connection: close",
      ascii "Content-Type: application/octet-stream"], 13 ∉ line ∧ 10 ∉ line := by decide
  obtain ⟨-, hmethod⟩ := methodStr_clean method
  intro line hline
  rw [templateLines] at hline
  simp only [List.mem_cons] at hline
  rcases hline with rfl | rfl | rfl | rfl | hline
  · simp [requestLine, hmethod, htarget, hversion]
  · simp [hname, hhost]
  · exact hfixed _ (by simp)
  · exact hfixed _ (by simp)
  · split at hline
    · rcases List.mem_pair.mp hline with rfl | rfl
      · simp [hlength, hdigits]
      · exact hfixed _ (by simp)
    · cases hline

/-- The printed text follows the template iff the path and the host have no separator: the
template has a fixed number of each of them. -/
theorem followsTemplate_requestText_iff {method : HTTPMethod} {path host : Bytes} {bodyLen : ℕ}
    {body : Bytes} :
    FollowsTemplate (requestText method path host bodyLen ++ body) method bodyLen body ↔
      (∀ b ∈ path, isSeparator b = false) ∧ ∀ b ∈ host, isSeparator b = false := by
  rw [forall_isSeparator_eq_false, forall_isSeparator_eq_false, requestText_eq_joinLines]
  constructor
  · rintro ⟨target, host', heq, hlines, hspaces, hhost⟩
    have hjoin := List.append_cancel_right (List.append_cancel_right heq)
    have hcount : ∀ b, b ∉ target → b ∉ host' → b ∉ path ∧ b ∉ host := by
      intro b ht hh
      have hsame := congrArg (List.count b) hjoin
      rw [count_templateLines b method path, count_templateLines b method target,
        List.count_eq_zero.mpr ht, List.count_eq_zero.mpr hh] at hsame
      exact ⟨List.count_eq_zero.mp (by omega), List.count_eq_zero.mp (by omega)⟩
    have htarget := hlines _ List.mem_cons_self
    have hhost' := hlines _ (List.mem_cons_of_mem _ List.mem_cons_self)
    simp only [requestLine, List.mem_append, List.mem_cons, not_or] at htarget hhost'
    rw [count_requestLine] at hspaces
    obtain ⟨h32, h32'⟩ := hcount 32 (List.count_eq_zero.mp (by omega)) hhost
    obtain ⟨h13, h13'⟩ := hcount 13 htarget.1.2.2.1 hhost'.1.2
    obtain ⟨h10, h10'⟩ := hcount 10 htarget.2.2.2.1 hhost'.2.2
    exact ⟨⟨h32, h13, h10⟩, h32', h13', h10'⟩
  · rintro ⟨⟨h32, hpath⟩, h32', hhost⟩
    refine ⟨path, host, rfl, templateLines_clean bodyLen hpath hhost, ?_, h32'⟩
    rw [count_requestLine, List.count_eq_zero.mpr h32]

/-- The host and the path have no separator iff the URL has none after its scheme. -/
theorem afterScheme_clean_iff {url : Bytes} {parts : URLParts}
    (h : httpParserUrl url = .ok parts) :
    (∀ b ∈ afterScheme url, isSeparator b = false) ↔
      (∀ b ∈ parts.path.bytes, isSeparator b = false) ∧
        ∀ b ∈ parts.host.bytes, isSeparator b = false := by
  obtain ⟨-, -, ⟨path, hsplit, hpath⟩, hport⟩ := httpParserUrl_parts h
  have hclean : ∀ b ∈ portText (explicitPort url), isSeparator b = false := by
    intro b hb
    rcases hport with ⟨port, hexplicit, hvalid, -⟩ | ⟨hexplicit, -⟩
    · rw [hexplicit] at hb
      rcases List.mem_cons.mp hb with rfl | hb
      · decide
      · rw [validPort, Bool.and_eq_true, List.all_eq_true] at hvalid
        obtain ⟨-, -, h32, -, h13, -⟩ := isVisible_spec (isVisible_of_digit (hvalid.2 b hb))
        refine isSeparator_eq_false.mpr ⟨h32, h13, ?_⟩
        rintro rfl
        exact absurd (hvalid.2 10 hb) (by decide)
    · rw [hexplicit] at hb
      cases hb
  have hpath' : (∀ b ∈ parts.path.bytes, isSeparator b = false) ↔
      ∀ b ∈ path, isSeparator b = false := by
    rw [hpath]
    split
    · rename_i hnil
      have hslash : ∀ b ∈ ascii "/", isSeparator b = false := by decide
      rw [hnil]
      exact ⟨fun _ b hb => (by cases hb), fun _ => hslash⟩
    · rfl
  rw [(splitAuthority_spec hsplit).1, hpath']
  simp only [List.mem_append]
  constructor
  · exact fun hall => ⟨fun b hb => hall b (Or.inr hb), fun b hb => hall b (Or.inl (Or.inl hb))⟩
  · rintro ⟨hp, hh⟩ b ((hb | hb) | hb)
    · exact hh b hb
    · exact hclean b hb
    · exact hp b hb

/-- A body length within `int` stays below 2^31 in `size_t`. -/
theorem Exchange.bodyLen_lt {e : Exchange} (h : e.reqBodyLen ≤ intMax) : e.bodyLen < 2 ^ 31 := by
  rw [intMax] at h
  rw [Exchange.bodyLen]
  split <;> omega

/-- The path of the request is the one parsed from the URL. -/
theorem Exchange.path_eq {e : Exchange} (hurl : httpParserUrl e.url = .ok e.urlParts) :
    e.path = e.urlParts.path.bytes := by
  rw [Exchange.path, if_neg (httpParserUrl_nonempty hurl).2.2.2]

/-- **When a URL cannot inject into the request.** For every accepted URL, the request that is
built has the lines of the template, each of them one line, and a request line of three fields,
iff the URL has no space, no CR and no LF after its scheme. -/
theorem request_follows_template_iff (e : Exchange) (hurl : httpParserUrl e.url = .ok e.urlParts)
    (hlen : e.reqBodyLen ≤ intMax) :
    (∃ d request, httpClientWorktaskBuildRequest e = (.sendingRequest, d) ∧
      d.requestBuffer = some request ∧
      FollowsTemplate request e.method e.bodyLen ((e.reqBody.getD []).take e.bodyLen)) ↔
    ∀ b ∈ afterScheme e.url, isSeparator b = false := by
  rw [afterScheme_clean_iff hurl, ← e.path_eq hurl, buildRequest_eq (e.bodyLen_lt hlen)]
  constructor
  · rintro ⟨d, request, hbuild, hrequest, hfollows⟩
    obtain rfl := (Prod.mk.inj hbuild).2
    obtain rfl := Option.some.inj hrequest
    exact followsTemplate_requestText_iff.mp hfollows
  · intro hclean
    exact ⟨_, _, rfl, rfl, followsTemplate_requestText_iff.mpr hclean⟩

/-- A client that has parsed its URL. -/
def parsedClient (url : Bytes) : Exchange :=
  { blockingClient url .get none (reachableServer [] [] fun _ => 0) with
    urlParts := (httpParserUrl url).toOption.getD zeroed.urlParts }

/-- A URL with a port and a query gives a request that follows the template. -/
theorem clean_url_follows_template :
    ∃ d request, httpClientWorktaskBuildRequest (parsedClient (ascii "http://h:8080/a?b=c")) =
        (.sendingRequest, d) ∧
      d.requestBuffer = some request ∧ FollowsTemplate request .get 0 [] :=
  (request_follows_template_iff (parsedClient (ascii "http://h:8080/a?b=c")) (by decide)
    (by decide)).mpr (by decide)

/-- A URL whose path ends the request line and has a header line of its own. -/
def injectingUrl : Bytes := ascii "http://h/ HTTP/1.1\r\nX: y"

/-- The URL is accepted, the request has a line that the template does not list, and so it does
not follow the template. -/
theorem url_injects_line :
    httpParserUrl injectingUrl = .ok (parsedClient injectingUrl).urlParts ∧
    ∃ d request, httpClientWorktaskBuildRequest (parsedClient injectingUrl) =
        (.sendingRequest, d) ∧
      d.requestBuffer = some request ∧
      request = joinLines [ascii "GET / HTTP/1.1", ascii "X: y HTTP/1.1", ascii "Host: h",
        ascii "User-Agent: httpclient", ascii "Connection: close"] ++ crlf ∧
      ¬ FollowsTemplate request .get 0 [] := by
  refine ⟨by decide, _, _, buildRequest_eq (by decide), rfl, by decide, ?_⟩
  intro hfollows
  obtain ⟨hpath, -⟩ := followsTemplate_requestText_iff.mp hfollows
  revert hpath
  decide

/-! ### The server that the request names -/

/-- The scheme, the `Host` field and the target of the request, read as a URL, have the host,
the port and the path of the URL that was connected to. -/
def NamesServer (e : Exchange) : Prop :=
  ∃ parts, httpParserUrl (e.urlParts.scheme.bytes ++ ascii "://" ++ e.urlParts.host.bytes ++
      e.path) = .ok parts ∧
    parts.host = e.urlParts.host ∧ parts.port = e.urlParts.port ∧ parts.path = e.urlParts.path

/-- The default ports fit into their array. -/
theorem exists_copy_defaultPort {scheme port : Bytes} (h : defaultPort scheme = some port) :
    ∃ t, CString.copy 6 port = some t := by
  rw [defaultPort] at h
  split at h
  · obtain rfl := Option.some.inj h
    exact ⟨_, rfl⟩
  · split at h
    · obtain rfl := Option.some.inj h
      exact ⟨_, rfl⟩
    · cases h

/-- The first `://` of a URL stands after its scheme, whatever comes behind it. -/
theorem firstOcc_scheme {url : Bytes} {parts : URLParts} (h : httpParserUrl url = .ok parts)
    (rest : Bytes) :
    List.firstOcc (ascii "://") (parts.scheme.bytes ++ ascii "://" ++ rest) =
      some parts.scheme.bytes.length := by
  obtain ⟨hocc, hscheme, -⟩ := httpParserUrl_parts h
  obtain ⟨pre, post, hurl, hlength⟩ := List.firstOcc_eq_split hocc
  have hpre : parts.scheme.bytes = pre := by
    rw [hscheme, urlScheme, hocc]
    simp only [← hlength]
    rw [hurl, List.append_assoc, List.take_left' rfl]
  rw [← hscheme] at hocc
  rw [hurl, ← hpre] at hocc
  refine List.firstOcc_append (List.firstOcc_of_append hocc ?_) rest
  rw [List.length_append]

/-- The path of an accepted URL starts with a slash, and its host has no separator of the
authority. -/
theorem httpParserUrl_host_path {url : Bytes} {parts : URLParts}
    (h : httpParserUrl url = .ok parts) :
    58 ∉ parts.host.bytes ∧ 47 ∉ parts.host.bytes ∧
      ∃ later, parts.path.bytes = 47 :: later := by
  obtain ⟨-, -, ⟨path, hsplit, hpath⟩, -⟩ := httpParserUrl_parts h
  obtain ⟨-, h58, h47, hstart⟩ := splitAuthority_spec hsplit
  refine ⟨h58, h47, ?_⟩
  rcases hstart with rfl | ⟨later, rfl⟩
  · exact ⟨[], hpath⟩
  · exact ⟨later, hpath⟩

/-- A URL that is put together from the scheme, the host and the path of an accepted one has
these parts, and the default port of its scheme. -/
theorem httpParserUrl_without_port {url : Bytes} {parts : URLParts}
    (h : httpParserUrl url = .ok parts) :
    httpParserUrl (parts.scheme.bytes ++ ascii "://" ++ (parts.host.bytes ++ parts.path.bytes)) =
      match (defaultPort parts.scheme.bytes).bind (CString.copy 6) with
      | some port => .ok ⟨parts.scheme, parts.host, port, parts.path⟩
      | none => .error .badFormat := by
  obtain ⟨hschemeNe, hhostNe, -, hpathNe⟩ := httpParserUrl_nonempty h
  obtain ⟨h58, h47, later, hlater⟩ := httpParserUrl_host_path h
  have hcstr : cstr (parts.scheme.bytes ++ ascii "://" ++ (parts.host.bytes ++ parts.path.bytes)) =
      parts.scheme.bytes ++ ascii "://" ++ (parts.host.bytes ++ parts.path.bytes) := by
    refine cstr_eq_self fun b hb => ?_
    simp only [List.mem_append] at hb
    rcases hb with (hb | hb) | hb | hb
    · exact parts.scheme.noNul b hb
    · revert b
      decide
    · exact parts.host.noNul b hb
    · exact parts.path.noNul b hb
  have hdrop : (parts.scheme.bytes ++ ascii "://" ++ (parts.host.bytes ++ parts.path.bytes)).drop
      (parts.scheme.bytes.length + 3) = parts.host.bytes ++ 47 :: later := by
    rw [hlater]
    exact List.drop_left' (by rw [List.length_append]; rfl)
  rw [httpParserUrl]
  simp only [hcstr, firstOcc_scheme h, hdrop]
  rw [List.append_assoc, List.take_left' rfl, splitAuthority_host_path h58 h47]
  simp only [hschemeNe, hhostNe, or_self, if_false]
  cases hdefault : defaultPort parts.scheme.bytes with
  | none => rfl
  | some port =>
      obtain ⟨t, ht⟩ := exists_copy_defaultPort hdefault
      rw [← hlater]
      simp only [httpParserUrl.copyParts, if_neg hpathNe, CString.copy_bytes, ht, Option.bind_some]

/-- A URL names the default port iff it is the port of its parts. -/
theorem explicitPort_default_iff {url : Bytes} {parts : URLParts}
    (h : httpParserUrl url = .ok parts) :
    (∀ port, explicitPort url = some port → defaultPort (urlScheme url) = some port) ↔
      defaultPort parts.scheme.bytes = some parts.port.bytes := by
  obtain ⟨-, hscheme, -, hport⟩ := httpParserUrl_parts h
  rw [hscheme]
  rcases hport with ⟨port, hexplicit, -, hbytes⟩ | ⟨hexplicit, hdefault⟩
  · rw [hexplicit, hbytes]
    constructor
    · exact fun hall => hall port rfl
    · intro hdefault port' hport'
      rw [← Option.some.inj hport']
      exact hdefault
  · rw [hexplicit]
    exact iff_of_true (fun port hport => by cases hport) hdefault

/-- **When the request names the server that was connected to.** For every accepted URL, the
request is built with the host in its `Host` field and the path as its target, and these lead
back to the same host, port and path iff the URL names no port, or the default port of its
scheme. -/
theorem request_names_authority_iff (e : Exchange) (hurl : httpParserUrl e.url = .ok e.urlParts)
    (hlen : e.reqBodyLen ≤ intMax) :
    (∃ d, httpClientWorktaskBuildRequest e = (.sendingRequest, d) ∧
      d.requestBuffer = some (joinLines (templateLines e.method e.path e.urlParts.host.bytes
        e.bodyLen) ++ crlf ++ (e.reqBody.getD []).take e.bodyLen)) ∧
    (NamesServer e ↔
      ∀ port, explicitPort e.url = some port → defaultPort (urlScheme e.url) = some port) := by
  refine ⟨⟨_, buildRequest_eq (e.bodyLen_lt hlen), ?_⟩, ?_⟩
  · rw [requestText_eq_joinLines]
  · rw [explicitPort_default_iff hurl, NamesServer, e.path_eq hurl, List.append_assoc,
      httpParserUrl_without_port hurl]
    constructor
    · rintro ⟨parts, hparts, -, hport, -⟩
      cases hdefault : defaultPort e.urlParts.scheme.bytes with
      | none =>
          rw [hdefault] at hparts
          cases hparts
      | some port =>
          obtain ⟨t, ht⟩ := exists_copy_defaultPort hdefault
          rw [hdefault] at hparts
          simp only [Option.bind_some, ht] at hparts
          obtain rfl := Except.ok.inj hparts
          rw [← hport, CString.bytes_of_copy ht]
    · intro hdefault
      rw [hdefault, Option.bind_some, CString.copy_bytes]
      exact ⟨_, rfl, rfl, rfl, rfl⟩

/-- A URL with the default port of its scheme gives a request that names its server. -/
theorem default_port_names_server : NamesServer (parsedClient (ascii "HTTPS://h:443/a")) :=
  (request_names_authority_iff (parsedClient (ascii "HTTPS://h:443/a")) (by decide)
    (by decide)).2.mpr (by decide)

/-- `http://h:8080/` is accepted, and its request leads to the port 80. -/
theorem other_port_names_other_server :
    httpParserUrl (ascii "http://h:8080/") = .ok (parsedClient (ascii "http://h:8080/")).urlParts ∧
    ¬ NamesServer (parsedClient (ascii "http://h:8080/")) := by
  refine ⟨by decide, ?_⟩
  rintro ⟨parts, hparts, -, hport, -⟩
  have hother : (httpParserUrl (ascii "http" ++ ascii "://" ++ ascii "h" ++ ascii "/")).toOption.all
      (fun parts => parts.port.bytes = ascii "80") = true := by decide
  have htext : ascii "http" ++ ascii "://" ++ ascii "h" ++ ascii "/" =
      (parsedClient (ascii "http://h:8080/")).urlParts.scheme.bytes ++ ascii "://" ++
        (parsedClient (ascii "http://h:8080/")).urlParts.host.bytes ++
        (parsedClient (ascii "http://h:8080/")).path := by decide
  rw [htext, hparts] at hother
  have hbytes : parts.port.bytes = ascii "80" := of_decide_eq_true hother
  rw [hport] at hbytes
  revert hbytes
  decide

end MaestroCore
