import MaestroCore.Addresses
import MaestroCore.Authority
import MaestroCore.Descriptors

/-!
# The Grammar of a URL

`http_parser_url` looks for `://`, a colon and a slash and copies what is between them into
four arrays. The texts that it accepts are those of a grammar, and the pieces of the grammar
are the fields that it fills. The scheme is compared once more by `transport_init`, which
takes the same two schemes.

## Main results

* `splitAuthority_append`: a host, a port and a path that are put together are cut apart again.
* `url_accepted_iff_grammar`: the accepted URLs are those of the grammar, the fields are its
  pieces with the defaults, and the scheme selects TLS, plain TCP or an error.
-/

open CLang

namespace MaestroCore

/-! ### The grammar -/

/-- The pieces of a URL. -/
structure UrlPieces where
  scheme : Bytes
  host : Bytes
  port : Option Bytes
  path : Bytes

/-- The pieces put together. -/
def UrlPieces.text (p : UrlPieces) : Bytes :=
  p.scheme ++ ascii "://" ++ (p.host ++ portText p.port ++ p.path)

/-- The text is a URL with these pieces. -/
structure UrlPieces.Spell (p : UrlPieces) (text : Bytes) : Prop where
  text_eq : text = p.text
  first : List.firstOcc (ascii "://") text = some p.scheme.length
  scheme : 1 ≤ p.scheme.length ∧ p.scheme.length ≤ 5
  host : 1 ≤ p.host.length ∧ p.host.length ≤ 127
  host_clean : 47 ∉ p.host ∧ 58 ∉ p.host
  port : ∀ port, p.port = some port →
    1 ≤ port.length ∧ port.length ≤ 5 ∧ ∀ b ∈ port, 48 ≤ b ∧ b ≤ 57
  path : p.path = [] ∨ ∃ later, p.path = 47 :: later
  path_fits : p.path.length ≤ 511
  default_port : p.port = none →
    p.scheme.map tolower = ascii "http" ∨ p.scheme.map tolower = ascii "https"

/-- The port of the pieces, or the one of the scheme. -/
def UrlPieces.portField (p : UrlPieces) : Bytes :=
  p.port.getD (if p.scheme.map tolower = ascii "https" then ascii "443" else ascii "80")

/-- The fields are the pieces, with a port by the scheme and a slash where these are
missing. -/
structure UrlPieces.Fill (p : UrlPieces) (parts : URLParts) : Prop where
  scheme : parts.scheme.bytes = p.scheme
  host : parts.host.bytes = p.host
  port : parts.port.bytes = p.portField
  path : parts.path.bytes = if p.path = [] then ascii "/" else p.path

/-! ### From the pieces to the fields -/

/-- **A host, a port and a path that are put together are cut apart again.** -/
theorem splitAuthority_append {host path : Bytes} {port : Option Bytes} (h58 : 58 ∉ host)
    (h47 : 47 ∉ host) (hport : ∀ p, port = some p → 47 ∉ p)
    (hpath : path = [] ∨ ∃ later, path = 47 :: later) :
    splitAuthority (host ++ portText port ++ path) = (host, port, path) := by
  cases port with
  | none =>
      rw [portText, List.append_nil]
      rcases hpath with rfl | ⟨later, rfl⟩
      · rw [List.append_nil, splitAuthority, strchr_eq_none_iff.mpr h58,
          strchr_eq_none_iff.mpr h47]
      · exact splitAuthority_host_path h58 h47
  | some p =>
      have hclean : 47 ∉ host ++ 58 :: p := by simp [h47, hport p rfl]
      rcases hpath with rfl | ⟨later, rfl⟩
      · rw [portText, List.append_nil, splitAuthority, strchr_append h58,
          strchr_eq_none_iff.mpr hclean]
      · have hassoc : host ++ 58 :: p ++ 47 :: later = host ++ 58 :: (p ++ 47 :: later) := by simp
        have htake : (p ++ 47 :: later).take ((host ++ 58 :: p).length - host.length - 1) = p := by
          refine List.take_left' ?_
          simp
        rw [portText, splitAuthority, strchr_append hclean, hassoc, strchr_append h58]
        simp only [htake]
        rw [if_pos (by simp)]

/-- A decimal digit is a byte from `0` to `9`. -/
theorem isDigit_ten_iff {b : UInt8} : isDigit 10 b = true ↔ 48 ≤ b ∧ b ≤ 57 := by
  rw [isDigit, digitVal]
  simp only [UInt8.le_iff_toNat_le, UInt8.reduceToNat]
  split
  · simp only [Option.any_some, decide_eq_true_eq]
    omega
  · split
    · simp only [Option.any_some, decide_eq_true_eq]
      omega
    · split
      · simp only [Option.any_some, decide_eq_true_eq]
        omega
      · simp
        omega

/-- A port is accepted when it has a byte and all its bytes are digits. -/
theorem validPort_iff {port : Bytes} :
    validPort port = true ↔ 1 ≤ port.length ∧ ∀ b ∈ port, 48 ≤ b ∧ b ≤ 57 := by
  simp only [validPort, Bool.and_eq_true, decide_eq_true_eq, List.all_eq_true, isDigit_ten_iff,
    ne_eq, ← List.length_pos_iff, Nat.succ_le_iff]

/-- A string without a NUL is copied when it fits. -/
theorem exists_copy (size : ℕ) {s : Bytes} (hfits : s.length < size) (hnul : ∀ b ∈ s, b ≠ 0) :
    ∃ t, CString.copy size s = some t :=
  ⟨_, CString.copy_bytes ⟨s, hfits, hnul⟩⟩

/-- Parts that fit into their arrays are copied. -/
theorem copyParts_of_fits {scheme host port path : Bytes} (hscheme : scheme.length ≤ 5)
    (hhost : host.length ≤ 127) (hport : port.length ≤ 5) (hpath : path.length ≤ 511)
    (hnul : ∀ b ∈ scheme ++ host ++ port ++ path, b ≠ 0) :
    ∃ parts, httpParserUrl.copyParts scheme host port path = .ok parts := by
  simp only [List.mem_append] at hnul
  have hfilled : (if path = [] then [47] else path).length < 512 ∧
      ∀ b ∈ if path = [] then [47] else path, b ≠ 0 := by
    split
    · exact ⟨by simp, by simp⟩
    · exact ⟨by omega, fun b hb => hnul b (by simp [hb])⟩
  obtain ⟨s, hs⟩ := exists_copy 6 (by omega) fun b hb => hnul b (Or.inl (Or.inl (Or.inl hb)))
  obtain ⟨h, hh⟩ := exists_copy 128 (by omega) fun b hb => hnul b (Or.inl (Or.inl (Or.inr hb)))
  obtain ⟨p, hp⟩ := exists_copy 6 (by omega) fun b hb => hnul b (Or.inl (Or.inr hb))
  obtain ⟨t, ht⟩ := exists_copy 512 hfilled.1 hfilled.2
  rw [httpParserUrl.copyParts, hs, hh, hp, ht]
  exact ⟨_, rfl⟩

section Grammar

variable {url : Bytes} {p : UrlPieces} {parts : URLParts}

/-- The default port is there for the schemes of the grammar. -/
theorem UrlPieces.Spell.defaultPort_eq (h : p.Spell url) (hport : p.port = none) :
    defaultPort p.scheme = some p.portField := by
  rw [defaultPort, UrlPieces.portField, hport, Option.getD_none]
  rcases h.default_port hport with hscheme | hscheme
  · rw [hscheme]
    rfl
  · rw [hscheme, if_pos rfl, if_pos rfl]

/-- What `http_parser_url` does with a text of the grammar: it copies the pieces. -/
theorem UrlPieces.Spell.parse (h : p.Spell (cstr url)) :
    httpParserUrl url = httpParserUrl.copyParts p.scheme p.host p.portField p.path := by
  have hscheme : (cstr url).take p.scheme.length = p.scheme := by
    rw [h.text_eq, UrlPieces.text, List.append_assoc, List.take_left' rfl]
  have hrest : (cstr url).drop (p.scheme.length + 3) = p.host ++ portText p.port ++ p.path := by
    rw [h.text_eq, UrlPieces.text]
    exact List.drop_left' (by rw [List.length_append]; rfl)
  have hslash : ∀ port, p.port = some port → 47 ∉ port := by
    intro port hport hmem
    exact absurd ((h.port port hport).2.2 47 hmem) (by decide)
  have hne : ¬ (p.scheme = [] ∨ p.host = []) := by
    rw [← List.length_eq_zero_iff, ← List.length_eq_zero_iff]
    have hs := h.scheme
    have hh := h.host
    omega
  rw [httpParserUrl]
  simp only [h.first, hscheme, hrest,
    splitAuthority_append h.host_clean.2 h.host_clean.1 hslash h.path, if_neg hne]
  cases hport : p.port with
  | none => simp only [h.defaultPort_eq hport]
  | some port =>
      have hdigits := h.port port hport
      have hfield : p.portField = port := by rw [UrlPieces.portField, hport, Option.getD_some]
      simp only [validPort_iff.mpr ⟨hdigits.1, hdigits.2.2⟩, if_true, hfield]

/-- The port fits into its array, and has no NUL. -/
theorem UrlPieces.Spell.portField_fits (h : p.Spell url) :
    p.portField.length ≤ 5 ∧ ∀ b ∈ p.portField, b ≠ 0 := by
  rw [UrlPieces.portField]
  cases hport : p.port with
  | none =>
      rw [Option.getD_none]
      split <;> decide
  | some port =>
      obtain ⟨-, hfits, hdigits⟩ := h.port port hport
      refine ⟨hfits, fun b hb => ?_⟩
      rintro rfl
      exact absurd (hdigits 0 hb) (by decide)

/-- A text of the grammar is accepted. -/
theorem UrlPieces.Spell.accepted (h : p.Spell (cstr url)) :
    ∃ parts, httpParserUrl url = .ok parts := by
  have hnul : ∀ b ∈ p.text, b ≠ 0 := by
    rw [← h.text_eq]
    exact cstr_noNul url
  simp only [UrlPieces.text, List.mem_append] at hnul
  rw [h.parse]
  refine copyParts_of_fits h.scheme.2 h.host.2 h.portField_fits.1 h.path_fits fun b hb => ?_
  simp only [List.mem_append] at hb
  rcases hb with ((hb | hb) | hb) | hb
  · exact hnul b (by simp [hb])
  · exact hnul b (by simp [hb])
  · exact h.portField_fits.2 b hb
  · exact hnul b (by simp [hb])

/-- The fields are filled from the pieces. -/
theorem UrlPieces.Spell.fill (h : p.Spell (cstr url)) (hparts : httpParserUrl url = .ok parts) :
    p.Fill parts := by
  rw [h.parse] at hparts
  obtain ⟨h1, h2, h3, h4⟩ := copyParts_eq_ok hparts
  exact ⟨h1, h2, h3, h4⟩

/-! ### From the fields to the pieces -/

/-- The pieces at which an accepted URL was cut. -/
def urlPieces (url : Bytes) : UrlPieces where
  scheme := urlScheme url
  host := (splitAuthority (afterScheme url)).1
  port := explicitPort url
  path := (splitAuthority (afterScheme url)).2.2

/-- **An accepted URL is a text of the grammar.** -/
theorem spell_of_accepted (h : httpParserUrl url = .ok parts) :
    (urlPieces url).Spell (cstr url) := by
  obtain ⟨hfirst, hscheme, ⟨path, hsplit, hpath⟩, hport⟩ := httpParserUrl_parts h
  obtain ⟨hschemeNe, hhostNe, -, -⟩ := httpParserUrl_nonempty h
  obtain ⟨hafter, h58, h47, hstart⟩ := splitAuthority_spec hsplit
  obtain ⟨pre, post, hurl, hlength⟩ := List.firstOcc_eq_split hfirst
  have hpre : urlScheme url = pre := by
    rw [urlScheme, hfirst, ← hlength]
    simp only
    rw [hurl, List.append_assoc, List.take_left' rfl]
  have hpost : afterScheme url = post := by
    rw [afterScheme, hfirst, ← hlength]
    simp only
    rw [hurl]
    exact List.drop_left' (by rw [List.length_append]; rfl)
  have hhost : (urlPieces url).host = parts.host.bytes := by rw [urlPieces, hsplit]
  have hpieces : (urlPieces url).path = path := by rw [urlPieces, hsplit]
  refine ⟨?_, hfirst, ?_, ?_, ?_, ?_, ?_, ?_, ?_⟩
  · rw [UrlPieces.text, hhost, hpieces]
    change cstr url = urlScheme url ++ ascii "://" ++ (_ ++ portText (explicitPort url) ++ path)
    rw [← hafter, hpre, hpost, hurl]
  · rw [hscheme] at hschemeNe
    have hfits := parts.scheme.fits
    rw [hscheme] at hfits
    exact ⟨List.length_pos_iff.mpr hschemeNe, Nat.le_of_lt_succ hfits⟩
  · rw [hhost]
    exact ⟨List.length_pos_iff.mpr hhostNe, Nat.le_of_lt_succ parts.host.fits⟩
  · rw [hhost]
    exact ⟨h47, h58⟩
  · intro port hexplicit
    rcases hport with ⟨port', hexplicit', hvalid, hbytes⟩ | ⟨hnone, -⟩
    · obtain rfl := Option.some.inj (hexplicit.symm.trans hexplicit')
      obtain ⟨hpos, hdigits⟩ := validPort_iff.mp hvalid
      have hfits := parts.port.fits
      rw [hbytes] at hfits
      exact ⟨hpos, Nat.le_of_lt_succ hfits, hdigits⟩
    · cases hexplicit.symm.trans hnone
  · rw [hpieces]
    exact hstart
  · rw [hpieces]
    have hfits := parts.path.fits
    rw [hpath] at hfits
    split at hfits
    · rename_i hnil
      simp [hnil]
    · omega
  · intro hnone
    rcases hport with ⟨port, hexplicit, -, -⟩ | ⟨-, hdefault⟩
    · cases hexplicit.symm.trans hnone
    · rw [defaultPort] at hdefault
      split at hdefault
      · exact Or.inr ‹_›
      · split at hdefault
        · exact Or.inl ‹_›
        · cases hdefault

end Grammar

/-! ### The scheme and the transport -/

section Transport

variable {c : Connection}

/-- `tcp_client_blocking_init` only changes the socket, and fails with an error of its own. -/
theorem blockingInit_cases (c : Connection) : ∃ code fd events,
    tcpClientBlockingInit c = (code, { c with fd := fd, events := events }) ∧
      (code = .success ∨ IsConnectError code) := by
  rcases Option.eq_none_or_eq_some c.addresses with haddr | ⟨attempts, haddr⟩
  · refine ⟨.io, -1, c.events, ?_, Or.inr (Or.inl rfl)⟩
    simp only [tcpClientBlockingInit, haddr]
  · rcases List.exists_first_or_none Attempt.usableBlocking attempts with
      ⟨pre, a, post, rfl, hpre, ha⟩ | hall
    · obtain ⟨fd, -, hinit⟩ := tcpClientBlockingInit_of_first haddr hpre ha
      exact ⟨.success, _, _, hinit, Or.inl rfl⟩
    · obtain ⟨code, herr, hinit⟩ := tcpClientBlockingInit_of_none haddr hall
      exact ⟨code, _, _, hinit, Or.inr herr⟩

/-- The non-blocking start changes only the descriptor and the events. -/
theorem init_cases (c : Connection) : ∃ code fd events,
    tcpClientInit c = (code, { c with fd := fd, events := events }) ∧
      (code = .success ∨ code = .inProgress ∨ code = .io) := by
  rcases Option.eq_none_or_eq_some c.addresses with haddr | ⟨attempts, haddr⟩
  · refine ⟨.io, -1, c.events, ?_, Or.inr (Or.inr rfl)⟩
    simp only [tcpClientInit, haddr]
  · rcases List.exists_first_or_none Attempt.usableNonblocking attempts with
      ⟨pre, a, post, rfl, hpre, ha⟩ | hall
    · obtain ⟨fd, -, hinit⟩ := tcpClientInit_of_first haddr hpre ha
      refine ⟨_, _, _, hinit, ?_⟩
      split
      · exact Or.inl rfl
      · exact Or.inr (Or.inl rfl)
    · exact ⟨.io, _, _, tcpClientInit_of_none haddr hall, Or.inr (Or.inr rfl)⟩

/-- The handshake loop ends in success or in `ERR_IO`. -/
theorem handshakeLoop_code (steps : List HandshakeStep) :
    (handshakeLoop steps).1 = .success ∨ (handshakeLoop steps).1 = .io := by
  induction steps with
  | nil => exact Or.inr rfl
  | cons step later ih =>
      cases step with
      | done => exact Or.inl rfl
      | inProgress => exact ih
      | failed => exact Or.inr rfl

/-- Disposing of the TCP client does not change the kind of the transport. -/
theorem dispose_useTls (c : Connection) : (tcpClientDispose c).useTls = c.useTls := by
  rw [tcpClientDispose]
  split <;> rfl

/-- For a scheme that it knows, `transport_init` selects TLS or plain TCP, and fails only with
errors of the connection. -/
theorem transportInit_known {parts : URLParts} (hhost : parts.host.bytes ≠ [])
    (hport : parts.port.bytes ≠ []) (hscheme : parts.scheme.bytes ≠ [])
    (hhttp : isHttp parts.scheme.bytes = true) (mode : Bool) :
    (transportInit c parts mode).1 ≠ .badFormat ∧
      (transportInit c parts mode).2.useTls =
        decide (parts.scheme.bytes.map tolower = ascii "https") := by
  rw [transportInit, if_neg (by simp [hhost, hport, hscheme])]
  simp only [hhttp, if_true]
  generalize hr : (if mode = true then tcpClientBlockingInit _ else tcpClientInit _) = r
  have htcp : r.1 ≠ .badFormat ∧
      r.2.useTls = decide (parts.scheme.bytes.map tolower = ascii "https") := by
    rw [← hr]
    split
    · obtain ⟨code, fd, events, hinit, hcode⟩ := blockingInit_cases
        { c with fd := 0, useTls := parts.scheme.bytes.map tolower = ascii "https",
                 useBlocking := mode, tlsInitiated := false }
      rw [hinit]
      rcases hcode with rfl | rfl | rfl <;> simp
    · obtain ⟨code, fd, events, hinit, hcode⟩ := init_cases
        { c with fd := 0, useTls := parts.scheme.bytes.map tolower = ascii "https",
                 useBlocking := mode, tlsInitiated := false }
      rw [hinit]
      rcases hcode with rfl | rfl | rfl <;> simp
  split
  · exact htcp
  · split
    · split
      · rcases handshakeLoop_code r.2.handshake with hcode | hcode
        · exact ⟨by simp [hcode], htcp.2⟩
        · exact ⟨by simp [hcode], htcp.2⟩
      · exact ⟨by simp, (dispose_useTls r.2).trans htcp.2⟩
    · exact htcp

/-- What `transport_init` makes of a scheme: TLS for `https`, plain TCP for `http`, in any case
of the letters, and an error for any other one, before anything else is done than clearing the
transport. -/
structure SelectsTransport (scheme : Bytes) (c : Connection) (mode : Bool)
    (result : ErrorCode × Connection) : Prop where
  tls : result.1 ≠ .badFormat ∧ result.2.useTls = true ↔ scheme.map tolower = ascii "https"
  plain : result.1 ≠ .badFormat ∧ result.2.useTls = false ↔ scheme.map tolower = ascii "http"
  other : scheme.map tolower ≠ ascii "https" → scheme.map tolower ≠ ascii "http" →
    result = (.badFormat,
      { c with fd := 0, useTls := false, useBlocking := mode, tlsInitiated := false })

/-- The scheme selects the transport, in both modes. -/
theorem selectsTransport {parts : URLParts} (hhost : parts.host.bytes ≠ [])
    (hport : parts.port.bytes ≠ []) (hscheme : parts.scheme.bytes ≠ []) (mode : Bool) :
    SelectsTransport parts.scheme.bytes c mode (transportInit c parts mode) := by
  cases hhttp : isHttp parts.scheme.bytes with
  | true =>
      obtain ⟨hcode, htls⟩ := transportInit_known (c := c) hhost hport hscheme hhttp mode
      have hknown : parts.scheme.bytes.map tolower = ascii "https" ∨
          parts.scheme.bytes.map tolower = ascii "http" := by
        simpa [isHttp] using hhttp
      have hdistinct : ascii "https" ≠ ascii "http" := by decide
      refine ⟨?_, ?_, fun h1 h2 => absurd hknown (not_or.mpr ⟨h1, h2⟩)⟩
      · simp [hcode, htls]
      · rw [htls, decide_eq_false_iff_not]
        constructor
        · exact fun h => hknown.resolve_left h.2
        · exact fun h => ⟨hcode, fun h' => hdistinct (h'.symm.trans h)⟩
  | false =>
      have hunknown := transportInit_unknown (c := c) hhost hport hscheme hhttp mode
      simp only [isHttp, Bool.or_eq_false_iff, decide_eq_false_iff_not] at hhttp
      rw [hunknown]
      exact ⟨by simp [hhttp.1], by simp [hhttp.2], fun _ _ => rfl⟩

end Transport

/-- **The accepted URLs are those of the grammar.** For every text, `http_parser_url` succeeds
iff the text is a URL of the grammar; the fields that it then fills are the pieces of the text,
with a port by the scheme and a slash where the text has none; and `transport_init` with these
fields selects TLS, plain TCP or an error by the scheme, whatever the calls that it makes
return. -/
theorem url_accepted_iff_grammar (url : Bytes) :
    ((∃ parts, httpParserUrl url = .ok parts) ↔ ∃ p : UrlPieces, p.Spell (cstr url)) ∧
    ∀ parts, httpParserUrl url = .ok parts →
      (∀ p : UrlPieces, p.Spell (cstr url) → p.Fill parts ∧
        ∀ c mode, SelectsTransport p.scheme c mode (transportInit c parts mode)) := by
  refine ⟨⟨?_, ?_⟩, fun parts hparts p hp => ?_⟩
  · rintro ⟨parts, hparts⟩
    exact ⟨urlPieces url, spell_of_accepted hparts⟩
  · rintro ⟨p, hp⟩
    exact hp.accepted
  · obtain ⟨hscheme, hhost, hport, -⟩ := httpParserUrl_nonempty hparts
    have hfill := hp.fill hparts
    refine ⟨hfill, fun c mode => ?_⟩
    rw [← hfill.scheme]
    exact selectsTransport hhost hport hscheme mode

end MaestroCore
