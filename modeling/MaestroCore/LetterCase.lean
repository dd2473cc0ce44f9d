import Mathlib.Data.List.Forall2
import MaestroCore.ChunkedEnd
import MaestroCore.EarlyReturn

/-!
# Letter Case in the Header Block

Header names and the name of a transfer coding may be written in any letter case.
`http_parser_get_header_value` compares names with `strcmp`, and the coding is searched
with `strstr`, so a framing header is only seen in the letter case of the source. Any
other spelling falls back to no framing at all.

## Main results

* `SameCuts.transportRead` and `exists_headRead_pair`: two streams that are cut the same
  way are read the same way up to the end of the header block.
* `letter_case_iff`: the framing survives every change of letter case exactly when the
  response has no header that frames its body in some letter case.
-/

open CLang Run

namespace MaestroCore

/-! ### Streams that are cut the same way -/

/-- The same arrivals up to the bytes in the segments: the segments have the same lengths
and the failed reads stand at the same places. -/
inductive SameCuts : List Arrival → List Arrival → Prop
  | refl (l : List Arrival) : SameCuts l l
  | data {s t : Segment} {l m : List Arrival} (hlen : s.bytes.length = t.bytes.length)
      (h : SameCuts l m) : SameCuts (.data s :: l) (.data t :: m)
  | retry {e : Errno} {l m : List Arrival} (he : e.transient = true) (h : SameCuts l m) :
      SameCuts (.failure e :: l) (.failure e :: m)

/-- Arrivals with the same cuts bring as many bytes. -/
theorem SameCuts.length_pendingOf {l m : List Arrival} (h : SameCuts l m) :
    (pendingOf l).length = (pendingOf m).length := by
  induction h with
  | refl l => rfl
  | data hlen _ ih => simp only [pendingOf, List.length_append, hlen, ih]
  | retry he _ ih => simp only [pendingOf, he, if_true, ih]

/-- Arrivals with the same cuts end in the same way. -/
theorem SameCuts.endingOf {l m : List Arrival} (h : SameCuts l m) :
    endingOf l = endingOf m := by
  induction h with
  | refl l => rfl
  | data _ _ ih => exact ih
  | retry he _ ih => simp only [MaestroCore.endingOf, he, if_true, ih]

/-- Reads of the same length leave streams that are cut the same way. -/
theorem SameCuts.transportRead {t u : Transport} (h : SameCuts t.incoming u.incoming)
    (len : ℕ) :
    SameCuts (transportRead t len).2.incoming (transportRead u len).2.incoming := by
  obtain ⟨l⟩ := t
  obtain ⟨m⟩ := u
  cases h with
  | refl l => exact .refl _
  | retry _ h => exact h
  | @data s t l m hlen h =>
      have hiff : s.bytes.drop len = [] ↔ t.bytes.drop len = [] := by
        rw [List.drop_eq_nil_iff, List.drop_eq_nil_iff, hlen]
      simp only [MaestroCore.transportRead, leftover]
      by_cases hs : s.bytes.drop len = []
      · rw [dif_pos hs, dif_pos (hiff.mp hs)]
        exact h
      · rw [dif_neg hs, dif_neg (fun ht => hs (hiff.mpr ht))]
        exact .data (by simp only [List.length_drop, hlen]) h

section Head

variable {sink : Sink} {h h₁ h₂ : Head} {rest missing : Bytes} {e : Ending}
  {c c' : HTTPClient}

/-- What is pending says whether the header block is in the buffer. -/
theorem InHead.headRead_iff (hc : InHead sink h rest missing e c) :
    HeadRead h c ↔ (c.pending ++ missing).length ≤ rest.length := by
  constructor
  · intro hgoal
    obtain ⟨r, -, hr⟩ := hc.buffer hgoal
    have := congrArg List.length hr
    simp only [List.length_append] at this ⊢
    omega
  · intro hle
    by_contra hgoal
    have := hc.rest_lt hgoal
    omega

/-- What is pending says whether the status line has been read. -/
theorem InHead.firstline_iff (hc : InHead sink h rest missing e c) :
    c.state = .readingFirstline ↔
      (h.block ++ rest).length < (c.pending ++ missing).length := by
  cases hc with
  | firstline hs _ hbuf hun =>
      have := congrArg List.length hun
      simp only [HTTPClient.unread, Head.bytes, List.length_append, length_crlf] at this ⊢
      simp only [hs, true_iff]
      omega
  | headers hs hun =>
      have := congrArg List.length hun
      simp only [HTTPClient.unread, List.length_append] at this ⊢
      simp only [hs, reduceCtorEq, false_iff]
      omega

/-- The length of the read that a worker makes inside the head. -/
def headReadLen (s : HTTPClientState) : ℕ := if s = .readingFirstline then 8095 else 1023

/-- A step inside the head makes one read. -/
theorem InHead.transport_step (hc : InHead sink h rest missing e c) (hgoal : ¬ HeadRead h c)
    (hstep : httpClientReadStep c = .ok c') :
    c'.transport = (transportRead c.transport (headReadLen c.state)).2 := by
  obtain ⟨s, d, hwork, rfl⟩ := work_of_readStep hstep
  by_cases hs : c.state = .readingFirstline
  · rw [headReadLen, if_pos hs]
    rw [httpClientWork, hs, httpClientWorktaskReadFirstline] at hwork
    exact receive_transport_eq goto_transport httpClientFirstline_transport s d hwork
  · have hs' : c.state = .readingHeaders := by
      cases hc with
      | firstline hs' => exact absurd hs' hs
      | headers hs' => exact hs'
    have hneg := hc.headersEnd_neg hs' hgoal
    rw [headReadLen, if_neg hs]
    rw [httpClientWork, hs', httpClientWorktaskReadHeaders] at hwork
    simp only [not_le.mpr hneg, and_false, if_false] at hwork
    refine receive_transport_eq ?_ goto_transport s d hwork
    intro c
    split
    · exact httpClientHeadersComplete_transport _ _
    · exact goto_transport c

/-- Two clients that have read the same number of bytes of two heads. -/
structure InHeads (sink : Sink) (h₁ h₂ : Head) (rest : Bytes) (e : Ending)
    (c₁ c₂ : HTTPClient) : Prop where
  left : InHead sink h₁ rest [] e c₁
  right : InHead sink h₂ rest [] e c₂
  cuts : SameCuts c₁.transport.incoming c₂.transport.incoming

/-- As many bytes are pending for both clients. -/
theorem InHeads.length_pending {c₁ c₂ : HTTPClient} (hc : InHeads sink h₁ h₂ rest e c₁ c₂) :
    c₁.pending.length = c₂.pending.length :=
  hc.cuts.length_pendingOf

/-- **One step of both clients** keeps them together. -/
theorem InHeads.step {c₁ c₂ : HTTPClient} (hblock : h₁.block.length = h₂.block.length)
    (hc : InHeads sink h₁ h₂ rest e c₁ c₂) (hgoal : ¬ HeadRead h₁ c₁) :
    ∃ d₁ d₂, httpClientReadStep c₁ = .ok d₁ ∧ httpClientReadStep c₂ = .ok d₂ ∧
      InHeads sink h₁ h₂ rest e d₁ d₂ ∧ d₁.load < c₁.load := by
  have hlen := hc.length_pending
  have hgoal₂ : ¬ HeadRead h₂ c₂ := by
    rw [hc.right.headRead_iff, List.append_nil, ← hlen]
    rwa [hc.left.headRead_iff, List.append_nil] at hgoal
  have hread : headReadLen c₁.state = headReadLen c₂.state := by
    have hiff : c₁.state = .readingFirstline ↔ c₂.state = .readingFirstline := by
      rw [hc.left.firstline_iff, hc.right.firstline_iff]
      simp only [List.length_append, hblock, hlen]
    simp only [headReadLen, hiff]
  obtain ⟨d₁, hstep₁, hI₁, hlt, -⟩ := hc.left.progress hgoal
  obtain ⟨d₂, hstep₂, hI₂, -, -⟩ := hc.right.progress hgoal₂
  refine ⟨d₁, d₂, hstep₁, hstep₂, ⟨hI₁, hI₂, ?_⟩, hlt⟩
  rw [hc.left.transport_step hgoal hstep₁, hc.right.transport_step hgoal₂ hstep₂, hread]
  exact hc.cuts.transportRead _

/-- **Two heads of the same length** that are cut the same way are read together: when one
client has its header block, so has the other, and the same bytes are left to come. -/
theorem exists_headRead_pair (sink : Sink) {in₁ in₂ : List Arrival} (hcuts : SameCuts in₁ in₂)
    (hblock : h₁.block.length = h₂.block.length)
    (hstream₁ : pendingOf in₁ = h₁.bytes ++ rest) (hstream₂ : pendingOf in₂ = h₂.bytes ++ rest) :
    ∃ c₁ c₂, Reaches httpClientReadStep (start sink in₁) c₁ ∧
      Reaches httpClientReadStep (start sink in₂) c₂ ∧
      InHeads sink h₁ h₂ rest (endingOf in₁) c₁ c₂ ∧ HeadRead h₁ c₁ ∧ HeadRead h₂ c₂ := by
  have hstart : InHeads sink h₁ h₂ rest (endingOf in₁) (start sink in₁) (start sink in₂) :=
    ⟨inHead_start_whole sink hstream₁, hcuts.endingOf ▸ inHead_start_whole sink hstream₂, hcuts⟩
  obtain ⟨c₁, hc₁, ⟨c₂, hc₂, hI⟩, hG⟩ := exists_reaches_of_measure
    (I := fun c₁ => ∃ c₂, Reaches httpClientReadStep (start sink in₂) c₂ ∧
      InHeads sink h₁ h₂ rest (endingOf in₁) c₁ c₂) (G := HeadRead h₁) HTTPClient.load
    (by
      rintro x ⟨y, hy, hI⟩ hG
      obtain ⟨x', y', hx', hy', hI', hlt⟩ := hI.step hblock hG
      exact ⟨x', hx', ⟨y', hy.tail hy', hI'⟩, hlt⟩)
    ⟨_, .refl _, hstart⟩
  refine ⟨c₁, c₂, hc₁, hc₂, hI, hG, ?_⟩
  rw [hI.right.headRead_iff, List.append_nil, ← hI.length_pending]
  rwa [hI.left.headRead_iff, List.append_nil] at hG

/-- A response without framing is delivered as far as it is in the buffer. -/
theorem InHead.delivers_buffer {incoming : List Arrival}
    (hreach : Reaches httpClientReadStep (start sink incoming) c)
    (hc : InHead sink h rest [] e c) (hgoal : HeadRead h c)
    (hend : headersEnd h.lines < 2 ^ 31) (hte : transferEncodingChunked h.headers = false)
    (hlen : declaredLength h.headers ≤ 0) :
    ∃ x, Delivers sink incoming x ∧ x ++ c.pending = rest := by
  obtain ⟨r, -, hr, -, hstep⟩ := hc.framed_step hgoal hend
  have hstate : framedState h.headers r.length = .returning := by
    by_contra hne
    rcases (framedState_ne_returning_iff h.headers r.length).mp hne with hchunked | hlt
    · rw [hte] at hchunked; cases hchunked
    · omega
  rw [hstate] at hstep
  exact ⟨r, hc.framed_delivers hreach hgoal hstep, by rwa [List.append_nil] at hr⟩

/-- Two responses without framing that are cut the same way deliver the same body. -/
theorem delivers_iff_of_unframed {in₁ in₂ : List Arrival} {x : Bytes}
    (hcuts : SameCuts in₁ in₂) (hblock : h₁.block.length = h₂.block.length)
    (hstream₁ : pendingOf in₁ = h₁.bytes ++ rest) (hstream₂ : pendingOf in₂ = h₂.bytes ++ rest)
    (hend₁ : headersEnd h₁.lines < 2 ^ 31)
    (hte₁ : transferEncodingChunked h₁.headers = false) (hlen₁ : declaredLength h₁.headers ≤ 0)
    (hte₂ : transferEncodingChunked h₂.headers = false) (hlen₂ : declaredLength h₂.headers ≤ 0) :
    Delivers sink in₁ x ↔ Delivers sink in₂ x := by
  have hend₂ : headersEnd h₂.lines < 2 ^ 31 := by
    have := h₁.length_block
    have := h₂.length_block
    omega
  obtain ⟨c₁, c₂, hc₁, hc₂, hI, hG₁, hG₂⟩ :=
    exists_headRead_pair sink hcuts hblock hstream₁ hstream₂
  obtain ⟨x₁, hx₁, hr₁⟩ := hI.left.delivers_buffer hc₁ hG₁ hend₁ hte₁ hlen₁
  obtain ⟨x₂, hx₂, hr₂⟩ := hI.right.delivers_buffer hc₂ hG₂ hend₂ hte₂ hlen₂
  have hpend := hI.length_pending
  obtain rfl : x₁ = x₂ := by
    have hlen := congrArg List.length (hr₁.trans hr₂.symm)
    rw [List.length_append, List.length_append] at hlen
    exact (List.append_inj (hr₁.trans hr₂.symm) (by omega)).1
  exact ⟨fun hx => hx.unique hx₁ ▸ hx₂, fun hx => hx.unique hx₂ ▸ hx₁⟩

end Head

/-! ### Letter case -/

/-- The lower-case form of an ASCII letter; other bytes stay as they are. -/
def lower (b : UInt8) : UInt8 := if 65 ≤ b ∧ b ≤ 90 then b + 32 else b

/-- Two texts that differ in letter case only. -/
def EqIgnoreCase (x y : Bytes) : Prop := x.map lower = y.map lower

instance (x y : Bytes) : Decidable (EqIgnoreCase x y) :=
  inferInstanceAs (Decidable (x.map lower = y.map lower))

/-- A letter is lowered once and for all. -/
theorem lower_lower (b : UInt8) : lower (lower b) = lower b := by
  unfold lower
  grind

/-- A colon is no letter. -/
theorem lower_eq_colon {b : UInt8} : lower b = 58 ↔ b = 58 := by
  unfold lower
  grind

/-- A letter is no control character. -/
theorem isControl_lower (b : UInt8) : isControl (lower b) = isControl b := by
  unfold lower isControl
  grind

/-- A letter is no white space. -/
theorem isTrailing_lower (b : UInt8) : isTrailing (lower b) = isTrailing b := by
  unfold lower isTrailing
  grind

/-- A text is lowered once and for all. -/
theorem map_lower_lower (x : Bytes) : (x.map lower).map lower = x.map lower := by
  rw [List.map_map]
  exact List.map_congr_left fun b _ => lower_lower b

/-- The white space at the end does not depend on the case. -/
theorem trimTrailing_map_lower (x : Bytes) :
    trimTrailing (x.map lower) = (trimTrailing x).map lower := by
  have hcomp : isTrailing ∘ lower = isTrailing := funext isTrailing_lower
  rw [trimTrailing, trimTrailing, List.rdropWhile, List.rdropWhile, ← List.map_reverse,
    List.dropWhile_map, hcomp, ← List.map_reverse]

/-- Texts that differ in their case do so without the white space at the end. -/
theorem EqIgnoreCase.trimTrailing {x y : Bytes} (h : EqIgnoreCase x y) :
    EqIgnoreCase (trimTrailing x) (trimTrailing y) := by
  rw [EqIgnoreCase, ← trimTrailing_map_lower, ← trimTrailing_map_lower, h]

/-- A value with the letter case changed inside the name `chunked`, wherever it stands. -/
inductive CodingVariant : Bytes → Bytes → Prop
  | nil : CodingVariant [] []
  | keep (b : UInt8) {x y : Bytes} (h : CodingVariant x y) : CodingVariant (b :: x) (b :: y)
  | chunked {v w x y : Bytes} (hv : EqIgnoreCase v (ascii "chunked"))
      (hw : EqIgnoreCase w (ascii "chunked")) (h : CodingVariant x y) :
      CodingVariant (v ++ x) (w ++ y)

/-- A text is a variant of itself. -/
theorem CodingVariant.refl (x : Bytes) : CodingVariant x x := by
  induction x with
  | nil => exact .nil
  | cons b x ih => exact .keep b ih

/-- What stands before the coding can be the same. -/
theorem CodingVariant.append_left (p : Bytes) {x y : Bytes} (h : CodingVariant x y) :
    CodingVariant (p ++ x) (p ++ y) := by
  induction p with
  | nil => exact h
  | cons b p ih => exact .keep b ih

/-- Variants differ in their case only. -/
theorem CodingVariant.eqIgnoreCase {x y : Bytes} (h : CodingVariant x y) :
    EqIgnoreCase x y := by
  induction h with
  | nil => rfl
  | keep b _ ih => rw [EqIgnoreCase, List.map_cons, List.map_cons, ih]
  | chunked hv hw _ ih => rw [EqIgnoreCase, List.map_append, List.map_append, hv, hw, ih]

/-- A value that mentions `chunked` in some letter case has a variant that mentions it in
lower case. -/
theorem exists_codingVariant {x : Bytes} (h : ascii "chunked" <:+: x.map lower) :
    ∃ y, CodingVariant x y ∧ ascii "chunked" <:+: y := by
  obtain ⟨pre, post, heq⟩ := h
  obtain ⟨x₁, x₂, rfl, hx₁, rfl⟩ := List.map_eq_append_iff.mp heq.symm
  obtain ⟨p, v, rfl, rfl, hv⟩ := List.map_eq_append_iff.mp hx₁
  have hvariant : CodingVariant (v ++ x₂) (ascii "chunked" ++ x₂) :=
    .chunked (hv.trans (by decide)) rfl (.refl x₂)
  refine ⟨p ++ (ascii "chunked" ++ x₂), ?_, ⟨p, x₂, by rw [List.append_assoc]⟩⟩
  rw [List.append_assoc]
  exact hvariant.append_left p

/-- A field with the letter case changed in its name and, in a `Transfer-Encoding` field,
in the name `chunked`. -/
def FieldVariant (f g : HeaderField) : Prop :=
  EqIgnoreCase f.name g.name ∧
    (f.value = g.value ∨
      EqIgnoreCase f.header.key (ascii "Transfer-Encoding") ∧ CodingVariant f.value g.value)

/-- The names of variants differ in their case only. -/
theorem FieldVariant.key {f g : HeaderField} (h : FieldVariant f g) :
    EqIgnoreCase f.header.key g.header.key :=
  h.1.trimTrailing

/-- The values of variants differ in their case only. -/
theorem FieldVariant.value {f g : HeaderField} (h : FieldVariant f g) :
    EqIgnoreCase f.value g.value := by
  rcases h.2 with heq | ⟨-, hcoding⟩
  · rw [EqIgnoreCase, heq]
  · exact hcoding.eqIgnoreCase

/-- The texts of variants are of the same length. -/
theorem FieldVariant.length_text {f g : HeaderField} (h : FieldVariant f g) :
    f.text.length = g.text.length := by
  have hname := congrArg List.length h.1
  have hvalue := congrArg List.length h.value
  simp only [List.length_map] at hname hvalue
  simp only [HeaderField.text, List.length_append, List.length_cons, hname, hvalue]

/-- The variants of a header block have its length. -/
theorem length_lineBlock_variant {fields fields' : List HeaderField}
    (h : List.Forall₂ FieldVariant fields fields') :
    (lineBlock (fields.map HeaderField.line)).length =
      (lineBlock (fields'.map HeaderField.line)).length := by
  induction h with
  | nil => rfl
  | @cons f g fs gs hfg _ ih =>
      have hlen : f.line.text.length = g.line.text.length := hfg.length_text
      rw [List.map_cons, List.map_cons, length_lineBlock_cons, length_lineBlock_cons, hlen, ih]

/-! ### Fields that frame a body -/

/-- The field announces a chunked body, whatever the letter case. -/
def ChunkedField (f : HeaderField) : Prop :=
  EqIgnoreCase f.header.key (ascii "Transfer-Encoding") ∧
    ascii "chunked" <:+: f.value.map lower

/-- The field declares a positive length, whatever the letter case. -/
def LengthField (f : HeaderField) : Prop :=
  EqIgnoreCase f.header.key (ascii "Content-Length") ∧
    ∃ n, 0 < n ∧ parseStringToInt f.header.value = .ok (some n)

/-- The field frames the body in some letter case. -/
def FramingField (f : HeaderField) : Prop := ChunkedField f ∨ LengthField f

/-- A chunked body is announced by one of the headers. -/
theorem exists_of_transferEncodingChunked {headers : List HTTPKeyValue}
    (h : transferEncodingChunked headers = true) :
    ∃ header ∈ headers, header.key = ascii "Transfer-Encoding" ∧
      ascii "chunked" <:+: header.value := by
  rw [transferEncodingChunked] at h
  split at h
  · rename_i value hvalue
    obtain ⟨header, hmem, hkey, rfl⟩ := exists_of_httpParserGetHeaderValue hvalue
    exact ⟨header, hmem, hkey, List.firstOcc_isSome_iff.mp h⟩
  · cases h

/-- A positive length is declared by one of the headers. -/
theorem exists_of_declaredLength_pos {headers : List HTTPKeyValue}
    (h : 0 < declaredLength headers) :
    ∃ header ∈ headers, header.key = ascii "Content-Length" ∧
      ∃ n, 0 < n ∧ parseStringToInt header.value = .ok (some n) := by
  rw [declaredLength] at h
  split at h
  · omega
  · rename_i value hvalue
    obtain ⟨header, hmem, hkey, rfl⟩ := exists_of_httpParserGetHeaderValue hvalue
    split at h
    · rename_i n hn
      exact ⟨header, hmem, hkey, n, h, hn⟩
    · omega

/-- Trimming a value keeps the bytes of the value. -/
theorem header_value_within (f : HeaderField) : f.header.value <:+: f.value :=
  (List.rdropWhile_prefix _ _).isInfix.trans (List.dropWhile_suffix _).isInfix

/-- Trimming a value keeps the name `chunked`. -/
theorem chunked_infix_header_value {f : HeaderField} (h : ascii "chunked" <:+: f.value) :
    ascii "chunked" <:+: f.header.value :=
  List.infix_rdropWhile (by decide) (by decide)
    (List.infix_dropWhile (by decide) (by decide) h)

/-- A variant of a field that announces chunks is meant to do so. -/
theorem FieldVariant.chunkedField {f g : HeaderField} (h : FieldVariant f g)
    (hkey : g.header.key = ascii "Transfer-Encoding")
    (hvalue : ascii "chunked" <:+: g.header.value) : ChunkedField f := by
  refine ⟨hkey ▸ h.key, ?_⟩
  rw [h.value]
  exact ((hvalue.trans (header_value_within g)).map lower)

/-- A variant of a field that declares a length is meant to do so. -/
theorem FieldVariant.lengthField {f g : HeaderField} (h : FieldVariant f g)
    (hkey : g.header.key = ascii "Content-Length")
    (hvalue : ∃ n, 0 < n ∧ parseStringToInt g.header.value = .ok (some n)) :
    LengthField f := by
  have hname : EqIgnoreCase f.header.key (ascii "Content-Length") := hkey ▸ h.key
  refine ⟨hname, ?_⟩
  rcases h.2 with heq | ⟨hte, -⟩
  · rwa [HeaderField.header, heq]
  · rw [EqIgnoreCase, hname] at hte
    exact absurd hte (by decide)

/-- Every field of a variant comes from a field. -/
theorem exists_field_of_variant {fields fields' : List HeaderField} {g : HeaderField}
    (h : List.Forall₂ FieldVariant fields fields') (hg : g ∈ fields') :
    ∃ f ∈ fields, FieldVariant f g := by
  induction h with
  | nil => cases hg
  | cons hfg _ ih =>
      rcases List.mem_cons.mp hg with rfl | hg
      · exact ⟨_, List.mem_cons_self, hfg⟩
      · obtain ⟨f, hf, hfg⟩ := ih hg
        exact ⟨f, List.mem_cons_of_mem _ hf, hfg⟩

/-- Variants of fields that frame nothing are seen as no framing. -/
theorem unframed_of_variant {fields fields' : List HeaderField}
    (h : List.Forall₂ FieldVariant fields fields') (hno : ∀ f ∈ fields, ¬ FramingField f) :
    transferEncodingChunked (fields'.map HeaderField.header) = false ∧
      declaredLength (fields'.map HeaderField.header) ≤ 0 := by
  have hmem : ∀ header ∈ fields'.map HeaderField.header,
      ∃ f ∈ fields, ∃ g, FieldVariant f g ∧ g.header = header := by
    intro header hheader
    obtain ⟨g, hg, rfl⟩ := List.mem_map.mp hheader
    obtain ⟨f, hf, hfg⟩ := exists_field_of_variant h hg
    exact ⟨f, hf, g, hfg, rfl⟩
  constructor
  · by_contra hte
    obtain ⟨header, hheader, hkey, hvalue⟩ :=
      exists_of_transferEncodingChunked (Bool.not_eq_false _ ▸ hte)
    obtain ⟨f, hf, g, hfg, rfl⟩ := hmem header hheader
    exact hno f hf (Or.inl (hfg.chunkedField hkey hvalue))
  · by_contra hlen
    obtain ⟨header, hheader, hkey, hvalue⟩ := exists_of_declaredLength_pos (not_le.mp hlen)
    obtain ⟨f, hf, g, hfg, rfl⟩ := hmem header hheader
    exact hno f hf (Or.inr (hfg.lengthField hkey hvalue))

/-! ### Respelling a field -/

/-- A change of the case makes no control character. -/
theorem plain_of_eqIgnoreCase {x y : Bytes} (h : EqIgnoreCase x y)
    (hx : ∀ b ∈ x, isControl b = false) : ∀ b ∈ y, isControl b = false := by
  intro b hb
  have hmem : lower b ∈ x.map lower := h ▸ List.mem_map_of_mem hb
  obtain ⟨a, ha, hab⟩ := List.mem_map.mp hmem
  rw [← isControl_lower, ← hab, isControl_lower, hx a ha]

/-- The field with another letter case. -/
def HeaderField.respelled (f : HeaderField) (name value : Bytes)
    (hname : EqIgnoreCase f.name name) (hvalue : EqIgnoreCase f.value value) :
    HeaderField where
  name := name
  value := value
  name_colon := by
    intro hmem
    have hcolon : lower 58 ∈ f.name.map lower := hname ▸ List.mem_map_of_mem hmem
    obtain ⟨b, hb, hlower⟩ := List.mem_map.mp hcolon
    obtain rfl := lower_eq_colon.mp hlower
    exact f.name_colon hb
  name_plain := plain_of_eqIgnoreCase hname f.name_plain
  value_plain := plain_of_eqIgnoreCase hvalue f.value_plain

/-- The field with its name in lower case. -/
def HeaderField.lowered (f : HeaderField) : HeaderField :=
  f.respelled (f.name.map lower) f.value (map_lower_lower f.name).symm rfl

/-- A field in small letters is a variant. -/
theorem HeaderField.lowered_variant (f : HeaderField) : FieldVariant f f.lowered :=
  ⟨(map_lower_lower f.name).symm, Or.inl rfl⟩

/-- A name with an upper-case letter is not found in lower case. -/
theorem HeaderField.lowered_key_ne (f : HeaderField) {name : Bytes}
    (hname : name.map lower ≠ name) : f.lowered.header.key ≠ name := by
  rintro rfl
  apply hname
  have hkey : f.lowered.header.key = (trimTrailing f.name).map lower :=
    trimTrailing_map_lower f.name
  rw [hkey, map_lower_lower]

/-- A field can be respelled so that its name is found. -/
theorem exists_respelled {f : HeaderField} {name value : Bytes}
    (hname : EqIgnoreCase f.header.key name) (htrim : trimTrailing name = name)
    (hvalue : EqIgnoreCase f.value value) :
    ∃ g : HeaderField, EqIgnoreCase f.name g.name ∧ g.value = value ∧ g.header.key = name := by
  have hsplit : f.name = f.header.key ++ f.name.rtakeWhile isTrailing :=
    List.rdropWhile_append_rtakeWhile.symm
  have hnew : EqIgnoreCase f.name (name ++ f.name.rtakeWhile isTrailing) := by
    rw [EqIgnoreCase, List.map_append, ← hname, ← List.map_append, ← hsplit]
  refine ⟨f.respelled _ value hnew hvalue, hnew, rfl, ?_⟩
  have hkey : trimTrailing (name ++ f.name.rtakeWhile isTrailing) = trimTrailing name :=
    trimTrailing_append fun b hb => List.mem_rtakeWhile_imp hb
  exact hkey.trans htrim

/-! ### The framing decision -/

/-- The framing decision of `http_client_worktask_read_headers` on these fields, with `rest`
the bytes of the body in the buffer: the next state and `content_length`. -/
def framingDecision (c : HTTPClient) (fields : List HeaderField) (rest : Bytes) :
    Except Fault (HTTPClientState × ℤ) :=
  (httpClientWorktaskReadHeaders
    { c with recvBuf := lineBlock (fields.map HeaderField.line) ++ (crlf ++ rest) }).map
    fun r => (r.1, r.2.contentLength)

/-- Two responses, with different fields, are framed alike: the same decision is taken, and
streams that are cut the same way deliver the same body. -/
structure SameFraming (statusLine : StatusLine) (fields fields' : List HeaderField) :
    Prop where
  decision : ∀ c rest, framingDecision c fields rest = framingDecision c fields' rest
  delivery : ∀ sink rest in₁ in₂, pendingOf in₁ = response statusLine fields rest →
    pendingOf in₂ = response statusLine fields' rest → SameCuts in₁ in₂ →
    ∀ x, Delivers sink in₁ x ↔ Delivers sink in₂ x

section Decision

variable {statusLine : StatusLine} {fields fields' : List HeaderField}

/-- Variants of fields are as many fields. -/
theorem variant_ne_nil (h : List.Forall₂ FieldVariant fields fields') (hne : fields ≠ []) :
    fields' ≠ [] := by
  rintro rfl
  exact hne (List.forall₂_nil_right_iff.mp h)

/-- The header blocks of variants end at the same index. -/
theorem headersEnd_variant (h : List.Forall₂ FieldVariant fields fields') :
    headersEnd (fields.map HeaderField.line) = headersEnd (fields'.map HeaderField.line) := by
  rw [headersEnd, headersEnd, length_lineBlock_variant h]

/-- What a client decides after a header block that it finds. -/
theorem framingDecision_eq (hne : fields ≠ [])
    (hend : headersEnd (fields.map HeaderField.line) < 2 ^ 31) (c : HTTPClient)
    (rest : Bytes) :
    framingDecision c fields rest =
      .ok (framedState (fields.map HeaderField.header) rest.length,
        (framed c (fields.map HeaderField.header) rest).contentLength) := by
  rw [framingDecision, httpClientWorktaskReadHeaders_block rfl (by simpa using hne) hend
    (parseLines_fields fields)]
  rfl

/-- Without framing the client returns at once. -/
theorem framingDecision_unframed (hne : fields ≠ [])
    (hend : headersEnd (fields.map HeaderField.line) < 2 ^ 31)
    (hte : transferEncodingChunked (fields.map HeaderField.header) = false)
    (hlen : declaredLength (fields.map HeaderField.header) ≤ 0) (c : HTTPClient)
    (rest : Bytes) : framingDecision c fields rest = .ok (.returning, c.contentLength) := by
  rw [framingDecision_eq hne hend]
  simp [framedState, framed, hte, not_lt.mpr hlen]

/-- Fields that frame nothing in any letter case are framed alike in every letter case. -/
theorem sameFraming_of_variant (h : List.Forall₂ FieldVariant fields fields')
    (hne : fields ≠ []) (hend : headersEnd (fields.map HeaderField.line) < 2 ^ 31)
    (hno : ∀ f ∈ fields, ¬ FramingField f) : SameFraming statusLine fields fields' := by
  have hself : List.Forall₂ FieldVariant fields fields :=
    List.forall₂_same.mpr fun f _ => ⟨rfl, Or.inl rfl⟩
  have hne' := variant_ne_nil h hne
  have hend' := headersEnd_variant h ▸ hend
  obtain ⟨hte, hlen⟩ := unframed_of_variant hself hno
  obtain ⟨hte', hlen'⟩ := unframed_of_variant h hno
  constructor
  · intro c rest
    rw [framingDecision_unframed hne hend hte hlen, framingDecision_unframed hne' hend' hte' hlen']
  · intro sink rest in₁ in₂ hstream₁ hstream₂ hcuts x
    refine delivers_iff_of_unframed hcuts ?_ (hstream₁.trans (response_eq hne rest))
      (hstream₂.trans (response_eq hne' rest)) hend hte hlen hte' hlen'
    simp only [Head.block, Head.ofFields, List.length_append, length_lineBlock_variant h]

/-! ### Letter cases in which the framing is seen -/

/-- The fields in lower case, except for one that is respelled as `g`. -/
def isolate (f g : HeaderField) (fields : List HeaderField) : List HeaderField :=
  fields.map fun x => if x = f then g else x.lowered

/-- One field as it is and the others in small letters are variants. -/
theorem isolate_variant {f g : HeaderField} (hfg : FieldVariant f g) :
    List.Forall₂ FieldVariant fields (isolate f g fields) := by
  rw [isolate, List.forall₂_map_right_iff, List.forall₂_same]
  intro x _
  split
  · rename_i hx
    exact hx ▸ hfg
  · exact x.lowered_variant

/-- All fields in small letters are variants. -/
theorem lowered_variants : List.Forall₂ FieldVariant fields (fields.map HeaderField.lowered) := by
  rw [List.forall₂_map_right_iff, List.forall₂_same]
  exact fun x _ => x.lowered_variant

/-- The names that the client looks for are not found in lower case. -/
theorem fieldNamed_eq_none {name : Bytes} (h : ∀ g ∈ fields, g.header.key ≠ name) :
    fieldNamed name fields = none := by
  rw [fieldNamed, Option.map_eq_none_iff, List.find?_eq_none]
  simpa using h

/-- There the only field that is not in small letters is the one that was kept. -/
theorem mem_isolate {f g x : HeaderField} (hx : x ∈ isolate f g fields) :
    x = g ∨ ∃ y : HeaderField, x = y.lowered := by
  obtain ⟨y, -, rfl⟩ := List.mem_map.mp hx
  split
  · exact Or.inl rfl
  · exact Or.inr ⟨y, rfl⟩

/-- The isolated field is the one that is found. -/
theorem fieldNamed_isolate {f g : HeaderField} (hf : f ∈ fields)
    (hupper : g.header.key.map lower ≠ g.header.key) :
    fieldNamed g.header.key (isolate f g fields) = some g.header.value := by
  have hg : g ∈ isolate f g fields := List.mem_map.mpr ⟨f, hf, if_pos rfl⟩
  rw [fieldNamed]
  cases hfind : (isolate f g fields).find? (·.header.key = g.header.key) with
  | none => exact absurd (List.find?_eq_none.mp hfind g hg) (by simp)
  | some x =>
      have hkey : x.header.key = g.header.key := by simpa using List.find?_some hfind
      rcases mem_isolate (List.mem_of_find?_eq_some hfind) with rfl | ⟨y, rfl⟩
      · rfl
      · exact absurd hkey (y.lowered_key_ne hupper)

/-- No other name is found. -/
theorem fieldNamed_isolate_ne {f g : HeaderField} {name : Bytes} (hkey : g.header.key ≠ name)
    (hupper : name.map lower ≠ name) : fieldNamed name (isolate f g fields) = none := by
  refine fieldNamed_eq_none ?_
  intro x hx
  rcases mem_isolate hx with rfl | ⟨y, rfl⟩
  · exact hkey
  · exact y.lowered_key_ne hupper

/-- Some letter case of a chunked field leads into the chunked body. -/
theorem ChunkedField.exists_variant {f : HeaderField} (h : ChunkedField f) (hf : f ∈ fields) :
    ∃ fields', List.Forall₂ FieldVariant fields fields' ∧
      ∀ n, framedState (fields'.map HeaderField.header) n = .decipherChonkiness := by
  obtain ⟨value, hcoding, hchunked⟩ := exists_codingVariant h.2
  obtain ⟨g, hname, rfl, hkey⟩ := exists_respelled h.1 (by decide) hcoding.eqIgnoreCase
  refine ⟨_, isolate_variant ⟨hname, Or.inr ⟨h.1, hcoding⟩⟩, ?_⟩
  intro n
  have hfield := fieldNamed_isolate (g := g) hf (by rw [hkey]; decide)
  rw [hkey] at hfield
  have hte : transferEncodingChunked ((isolate f g fields).map HeaderField.header) = true := by
    rw [transferEncodingChunked, httpParserGetHeaderValue_fields, hfield]
    exact List.firstOcc_isSome_iff.mpr (chunked_infix_header_value hchunked)
  rw [framedState, if_pos hte]

/-- Some letter case of a length field makes the client wait for the body. -/
theorem LengthField.exists_variant {f : HeaderField} (h : LengthField f) (hf : f ∈ fields) :
    ∃ fields', List.Forall₂ FieldVariant fields fields' ∧
      framedState (fields'.map HeaderField.header) 0 = .readingBody := by
  obtain ⟨hname, n, hpos, hn⟩ := h
  have hself : EqIgnoreCase f.value f.value := rfl
  obtain ⟨g, hname', hvalue, hkey⟩ := exists_respelled hname (by decide) hself
  refine ⟨_, isolate_variant ⟨hname', Or.inl hvalue.symm⟩, ?_⟩
  have hfield := fieldNamed_isolate (g := g) hf (by rw [hkey]; decide)
  rw [hkey] at hfield
  have hte : transferEncodingChunked ((isolate f g fields).map HeaderField.header) = false :=
    transferEncodingChunked_of_missing
      (fieldNamed_isolate_ne (by rw [hkey]; decide) (by decide))
  have hlen : declaredLength ((isolate f g fields).map HeaderField.header) = n := by
    have hheader : g.header.value = f.header.value := by
      rw [HeaderField.header, HeaderField.header, hvalue]
    rw [declaredLength, httpParserGetHeaderValue_fields, hfield, hheader]
    simp only [hn]
  rw [framedState, hte, hlen, if_neg (by simp), if_pos hpos, if_neg (by push_cast; omega)]

/-- A framing field has a letter case in which the client does not return at once. -/
theorem FramingField.exists_variant {f : HeaderField} (h : FramingField f) (hf : f ∈ fields) :
    ∃ fields', List.Forall₂ FieldVariant fields fields' ∧
      framedState (fields'.map HeaderField.header) 0 ≠ .returning := by
  rcases h with hchunked | hlength
  · obtain ⟨fields', hvar, hstate⟩ := hchunked.exists_variant hf
    exact ⟨fields', hvar, by rw [hstate]; decide⟩
  · obtain ⟨fields', hvar, hstate⟩ := hlength.exists_variant hf
    exact ⟨fields', hvar, by rw [hstate]; decide⟩

/-- In lower case no framing is seen. -/
theorem framedState_lowered (n : ℕ) :
    framedState ((fields.map HeaderField.lowered).map HeaderField.header) n = .returning := by
  have hnone : ∀ name : Bytes, name.map lower ≠ name →
      fieldNamed name (fields.map HeaderField.lowered) = none := by
    refine fun name hname => fieldNamed_eq_none ?_
    intro g hg
    obtain ⟨x, -, rfl⟩ := List.mem_map.mp hg
    exact x.lowered_key_ne hname
  have hlen : declaredLength ((fields.map HeaderField.lowered).map HeaderField.header) = 0 := by
    rw [declaredLength, httpParserGetHeaderValue_fields, hnone _ (by decide)]
  rw [framedState, transferEncodingChunked_of_missing (hnone _ (by decide)), hlen]
  rfl

end Decision

/-- **Framing and letter case.** A response is framed alike in every letter case of its
header names and of the name `chunked`, exactly when none of its fields frames the body in
some letter case: no `Transfer-Encoding` mentions `chunked`, and no `Content-Length` has a
positive number. -/
theorem letter_case_iff (statusLine : StatusLine) (fields : List HeaderField)
    (hne : fields ≠ []) (hend : headersEnd (fields.map HeaderField.line) < 2 ^ 31) :
    (∀ fields', List.Forall₂ FieldVariant fields fields' →
      SameFraming statusLine fields fields') ↔ ∀ f ∈ fields, ¬ FramingField f := by
  constructor
  · intro hsame f hf hframing
    obtain ⟨fields', hvar, hstate⟩ := hframing.exists_variant hf
    -- Both this spelling and the lower-case one have the decision of the response itself.
    have hdecision := ((hsame fields' hvar).decision (start .blocking []) []).symm.trans
      ((hsame _ lowered_variants).decision (start .blocking []) [])
    rw [framingDecision_eq (variant_ne_nil hvar hne) (headersEnd_variant hvar ▸ hend),
      framingDecision_eq (variant_ne_nil lowered_variants hne)
        (headersEnd_variant lowered_variants ▸ hend), framedState_lowered] at hdecision
    exact hstate (congrArg Prod.fst (Except.ok.inj hdecision))
  · intro hno fields' hvar
    exact sameFraming_of_variant hvar hne hend hno

/-- The header `Server: x` frames nothing, so its letter case does not matter. -/
theorem letter_case_server :
    SameFraming statusOk [serverField] [serverField.lowered] :=
  (letter_case_iff statusOk [serverField] (by simp) (by decide)).mpr
    (by
      intro f hf
      obtain rfl := List.mem_singleton.mp hf
      rintro (⟨hkey, -⟩ | ⟨hkey, -⟩)
      · exact absurd hkey (by decide)
      · exact absurd hkey (by decide))
    _ lowered_variants

/-- A response with this field and the chunked body, in one read. -/
def chunkedWhole (f : HeaderField) : List Arrival :=
  [.data ⟨response statusOk [f] helloBody.bytes, response_ne_nil _ _ _⟩, .closed]

/-- `transfer-encoding: chunked` is not seen: the caller receives the chunks with their size
lines, and `hello` when the name is written as in the source. -/
theorem letter_case_changes_framing :
    FieldVariant chunkedField chunkedField.lowered ∧
      pendingOf (chunkedWhole chunkedField) = response statusOk [chunkedField] helloBody.bytes ∧
      pendingOf (chunkedWhole chunkedField.lowered) =
        response statusOk [chunkedField.lowered] helloBody.bytes ∧
      SameCuts (chunkedWhole chunkedField) (chunkedWhole chunkedField.lowered) ∧
      Delivers .blocking (chunkedWhole chunkedField) (ascii "hello") ∧
      Delivers .blocking (chunkedWhole chunkedField.lowered) helloBody.bytes ∧
      ¬ SameFraming statusOk [chunkedField] [chunkedField.lowered] := by
  have hexact : Delivers .blocking (chunkedWhole chunkedField) (ascii "hello") :=
    delivers_of_deliversAfter (n := 5) (by decide)
  have hlower : Delivers .blocking (chunkedWhole chunkedField.lowered) helloBody.bytes :=
    delivers_of_deliversAfter (n := 2) (by decide)
  have hcuts : SameCuts (chunkedWhole chunkedField) (chunkedWhole chunkedField.lowered) :=
    .data (by decide) (.refl _)
  refine ⟨chunkedField.lowered_variant, by decide, by decide, hcuts, hexact,
    hlower, fun hsame => ?_⟩
  have hboth := (hsame.delivery .blocking helloBody.bytes _ _ (by decide)
    (by decide) hcuts (ascii "hello")).mp hexact
  exact absurd (hboth.unique hlower) (by decide)

end MaestroCore
