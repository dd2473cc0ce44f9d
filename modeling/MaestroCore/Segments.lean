import MaestroCore.Reading

/-!
# Where Reads End

A worker call reads at most once, and asks for at least 1023 bytes. When no segment is
longer than that, every read ends at the end of a segment, so the places where reads end
can be computed from the arrivals alone (`cuts`).

## Main results

* `transport_of_readStep`: the effect of one worker call on the connection.
* `noCutIn_of_cuts`: a bound on where reads end, from the arrivals.
* `noCutIn_of_last`: a short last segment arrives in one read, whatever comes before.
-/

open CLang Run

namespace MaestroCore

/-- The effect of a worker on the connection: none, or that of one read. -/
def ReadsOnce (t : Transport) (_ : HTTPClientState) (c : HTTPClient) : Prop :=
  c.transport = t ∨ ∃ len, 1023 ≤ len ∧ c.transport = (transportRead t len).2

/-- Parsing the status line leaves the transport alone. -/
theorem httpClientFirstline_transport (c : HTTPClient) :
    Outcome (fun _ d => d.transport = c.transport) (httpClientFirstline c) := by
  rw [httpClientFirstline]
  split
  · exact .goto rfl
  · simp only
    split
    · split <;> exact .goto rfl
    · split
      · exact .goto rfl
      · refine .bind ?_
        intro r _
        split <;> exact .goto rfl

/-- Parsing the headers leaves the transport alone. -/
theorem httpClientHeadersComplete_transport (c : HTTPClient) (k : ℕ) :
    Outcome (fun _ d => d.transport = c.transport) (httpClientHeadersComplete c k) := by
  rw [httpClientHeadersComplete]
  refine .bind ?_
  intro parsed _
  split
  · exact .goto rfl
  · simp only
    split
    · exact .goto rfl
    · split
      · exact .goto rfl
      · refine .bind ?_
        intro cl _
        split
        · split <;> exact .goto rfl
        · exact .goto rfl

/-- A worker that reads and leaves the connection alone afterwards. -/
theorem receive_transport_eq {c : HTTPClient} {len : ℕ} {again : HTTPClientState}
    {onClosed onBytes : HTTPClient → Worked}
    (hclosed : ∀ d, Outcome (fun _ d' => d'.transport = d.transport) (onClosed d))
    (hbytes : ∀ d, Outcome (fun _ d' => d'.transport = d.transport) (onBytes d)) :
    Outcome (fun _ d => d.transport = (transportRead c.transport len).2)
      (receive c len again onClosed onBytes) :=
  .receive rfl rfl (hclosed _) (fun _ => hbytes _)

/-- A read is the only one when what comes after it leaves the transport alone. -/
theorem receive_transport {c : HTTPClient} {len : ℕ} {again : HTTPClientState}
    {onClosed onBytes : HTTPClient → Worked} (hlen : 1023 ≤ len)
    (hclosed : ∀ d, Outcome (fun _ d' => d'.transport = d.transport) (onClosed d))
    (hbytes : ∀ d, Outcome (fun _ d' => d'.transport = d.transport) (onBytes d)) :
    Outcome (ReadsOnce c.transport) (receive c len again onClosed onBytes) :=
  fun s d h => Or.inr ⟨len, hlen, receive_transport_eq hclosed hbytes s d h⟩

/-- A change of the state leaves the transport alone. -/
theorem goto_transport {s : HTTPClientState} (d : HTTPClient) :
    Outcome (fun _ d' => d'.transport = d.transport) (goto s d) := .goto rfl

/-- After the last size line there is one read at most. -/
theorem httpClientTrailers_transport (c : HTTPClient) :
    Outcome (ReadsOnce c.transport) (httpClientTrailers c) := by
  rw [httpClientTrailers]
  split
  · exact .goto (Or.inl rfl)
  · simp only
    split
    · exact .goto (Or.inl rfl)
    · exact receive_transport (by omega) goto_transport goto_transport

/-- At the line end of a chunk there is one read at most. -/
theorem httpClientChunkEnd_transport (c : HTTPClient) :
    Outcome (ReadsOnce c.transport) (httpClientChunkEnd c) := by
  rw [httpClientChunkEnd]
  split
  · exact receive_transport (by omega) goto_transport goto_transport
  · split <;> exact .goto (Or.inl rfl)

/-- The worker of the headers makes one read at most. -/
theorem httpClientWorktaskReadHeaders_transport (c : HTTPClient) :
    Outcome (ReadsOnce c.transport) (httpClientWorktaskReadHeaders c) := by
  rw [httpClientWorktaskReadHeaders]
  simp only
  split
  · exact fun s d h => Or.inl (httpClientHeadersComplete_transport _ _ s d h)
  · refine receive_transport (by omega) ?_ goto_transport
    intro d
    split
    · exact httpClientHeadersComplete_transport _ _
    · exact goto_transport d

/-- The worker of the size lines makes one read at most. -/
theorem httpClientWorktaskDecipherChonkiness_transport (c : HTTPClient) :
    Outcome (ReadsOnce c.transport) (httpClientWorktaskDecipherChonkiness c) := by
  rw [httpClientWorktaskDecipherChonkiness]
  simp only
  split
  · exact receive_transport (by omega) goto_transport goto_transport
  · refine .bind ?_
    intro size _
    split
    · exact .goto (Or.inl rfl)
    · split
      · exact httpClientTrailers_transport _
      · exact .goto (Or.inl rfl)

/-- The worker of the chunks makes one read at most. -/
theorem httpClientWorktaskReadBodyChunked_transport (c : HTTPClient) :
    Outcome (ReadsOnce c.transport) (httpClientWorktaskReadBodyChunked c) := by
  rw [httpClientWorktaskReadBodyChunked]
  split
  · exact receive_transport (by omega) goto_transport goto_transport
  · split
    · exact .error
    · exact httpClientChunkEnd_transport _

/-- The worker of a body of a declared length makes one read. -/
theorem httpClientWorktaskReadBody_transport (c : HTTPClient) :
    Outcome (ReadsOnce c.transport) (httpClientWorktaskReadBody c) := by
  refine receive_transport (by omega) (fun d => ?_) (fun d => ?_)
  · split <;> exact .goto rfl
  · split <;> exact .goto rfl

/-- The delivery makes no read. -/
theorem httpClientWorktaskReturning_transport (c : HTTPClient) :
    Outcome (ReadsOnce c.transport) (httpClientWorktaskReturning c) := by
  rw [httpClientWorktaskReturning]
  split
  · split <;> exact .goto (Or.inl rfl)
  · split <;> exact .goto (Or.inl rfl)

/-- **One worker call reads at most once.** -/
theorem transport_of_readStep {c c' : HTTPClient} (h : httpClientReadStep c = .ok c') :
    ReadsOnce c.transport c'.state c' := by
  obtain ⟨s, d, hwork, rfl⟩ := work_of_readStep h
  have hd : Outcome (ReadsOnce c.transport) (httpClientWork c) := by
    rw [httpClientWork]
    split
    · exact receive_transport (by omega) goto_transport httpClientFirstline_transport
    · exact httpClientWorktaskReadHeaders_transport c
    · exact httpClientWorktaskDecipherChonkiness_transport c
    · exact httpClientWorktaskReadBodyChunked_transport c
    · exact httpClientWorktaskReadBody_transport c
    · exact httpClientWorktaskReturning_transport c
    · exact .goto (Or.inl rfl)
  exact hd s d hwork

/-! ### Short segments -/

/-- The arrival is no longer than what every read asks for. -/
def Arrival.isShort : Arrival → Bool
  | .data s => s.bytes.length ≤ 1023
  | _ => true

/-- No segment is longer than what every read asks for. -/
def ShortSegments (incoming : List Arrival) : Prop := ∀ a ∈ incoming, a.isShort = true

instance (incoming : List Arrival) : Decidable (ShortSegments incoming) :=
  inferInstanceAs (Decidable (∀ a ∈ incoming, a.isShort = true))

/-- How many bytes are to come at the boundaries of the arrivals. -/
def cuts : List Arrival → List ℕ
  | [] => [0]
  | a :: later => (pendingOf (a :: later)).length :: cuts later

/-- What is left after some arrivals begins at a cut. -/
theorem length_mem_cuts {s l : List Arrival} (h : s <:+ l) :
    (pendingOf s).length ∈ cuts l := by
  induction l with
  | nil =>
      rw [List.suffix_nil.mp h]
      simp [cuts, pendingOf]
  | cons a later ih =>
      rcases List.suffix_cons_iff.mp h with rfl | hlater
      · simp [cuts]
      · simp [cuts, ih hlater]

/-- A read of short segments leaves a suffix of the arrivals. -/
theorem transportRead_suffix {t : Transport} {len : ℕ} (hlen : 1023 ≤ len)
    (hshort : ShortSegments t.incoming) : (transportRead t len).2.incoming <:+ t.incoming := by
  obtain ⟨incoming⟩ := t
  cases incoming with
  | nil => exact List.suffix_refl _
  | cons a later =>
      cases a with
      | closed => exact List.suffix_refl _
      | failure e => exact List.suffix_cons _ _
      | data s =>
          have hle : s.bytes.length ≤ 1023 := by
            simpa [Arrival.isShort] using hshort (.data s) (by simp)
          have hdrop : s.bytes.drop len = [] := List.drop_eq_nil_of_le (by omega)
          have hleft : leftover s.bytes len later = later := by
            rw [leftover, dif_pos hdrop]
          simp only [transportRead, hleft]
          exact List.suffix_cons _ _

/-- **Reads of short segments end at segment boundaries.** -/
theorem CutAt.mem_cuts {sink : Sink} {incoming : List Arrival} {k : ℕ}
    (hshort : ShortSegments incoming) (h : CutAt sink incoming k) : k ∈ cuts incoming := by
  obtain ⟨c, hc, rfl⟩ := h
  refine length_mem_cuts (Reaches.invariant (I := fun x => x.transport.incoming <:+ incoming)
    (fun x y hxy hx => ?_) hc (List.suffix_refl _))
  rcases transport_of_readStep hxy with heq | ⟨len, hlen, heq⟩
  · rwa [heq]
  · rw [heq]
    exact (transportRead_suffix hlen fun a ha => hshort a (hx.subset ha)).trans hx

/-- No read ends in a part of the stream that contains no segment boundary. -/
theorem noCutIn_of_cuts {sink : Sink} {incoming : List Arrival} {lo hi : ℕ}
    (hshort : ShortSegments incoming) (hcuts : ∀ k ∈ cuts incoming, k ≤ lo ∨ hi < k) :
    NoCutIn sink incoming lo hi := by
  intro k hlo hhi hcut
  rcases hcuts k (hcut.mem_cuts hshort) with h | h <;> omega

/-! ### A last segment of its own -/

/-- The arrival does not end the connection. -/
def Arrival.continues : Arrival → Bool
  | .data _ => true
  | .failure e => e.transient
  | .closed => false

/-- Arrivals that go on leave what comes after them. -/
theorem length_le_pendingOf_append {pre : List Arrival} (later : List Arrival)
    (hpre : ∀ a ∈ pre, a.continues = true) :
    (pendingOf later).length ≤ (pendingOf (pre ++ later)).length := by
  induction pre with
  | nil => exact le_rfl
  | cons a pre ih =>
      have hle := ih fun x hx => hpre x (by simp [hx])
      have ha := hpre a (by simp)
      cases a with
      | data s =>
          simp only [List.cons_append, pendingOf, List.length_append]
          omega
      | failure e =>
          have he : e.transient = true := ha
          simpa [List.cons_append, pendingOf, he] using hle
      | closed => cases ha

/-- What is left to arrive before a last segment, and after it. -/
def BeforeLast (s : Segment) (t : Transport) : Prop :=
  t.incoming = [] ∨
    ∃ pre, (∀ a ∈ pre, a.continues = true) ∧ t.incoming = pre ++ [.data s]

/-- A read before the last segment does not cut it. -/
theorem transportRead_beforeLast {s : Segment} {t : Transport} {len : ℕ} (hlen : 1023 ≤ len)
    (hs : s.bytes.length ≤ 1023) (ht : BeforeLast s t) :
    BeforeLast s (transportRead t len).2 := by
  obtain ⟨incoming⟩ := t
  rcases ht with hnil | ⟨pre, hpre, heq⟩
  · obtain rfl : incoming = [] := hnil
    exact Or.inl rfl
  · obtain rfl : incoming = pre ++ [.data s] := heq
    cases pre with
    | nil =>
        have hdrop : s.bytes.drop len = [] := List.drop_eq_nil_of_le (by omega)
        exact Or.inl (by simp [transportRead, leftover, hdrop])
    | cons a pre =>
        have hpre' : ∀ x ∈ pre, x.continues = true := fun x hx => hpre x (by simp [hx])
        cases a with
        | closed => exact absurd (hpre .closed (by simp)) (by simp [Arrival.continues])
        | failure e => exact Or.inr ⟨pre, hpre', rfl⟩
        | data s' =>
            by_cases hdrop : s'.bytes.drop len = []
            · exact Or.inr ⟨pre, hpre', by simp [transportRead, leftover, hdrop]⟩
            · refine Or.inr ⟨.data ⟨s'.bytes.drop len, hdrop⟩ :: pre, ?_, ?_⟩
              · intro x hx
                rcases List.mem_cons.mp hx with rfl | hx
                · rfl
                · exact hpre' x hx
              · simp [transportRead, leftover, hdrop]

/-- **A last segment of its own arrives in one read.** -/
theorem noCutIn_of_last {sink : Sink} {pre : List Arrival} {s : Segment}
    (hpre : ∀ a ∈ pre, a.continues = true) (hs : s.bytes.length ≤ 1023) :
    NoCutIn sink (pre ++ [.data s]) 0 (s.bytes.length - 1) := by
  rintro k hpos hle ⟨c, hc, rfl⟩
  have hlast : BeforeLast s c.transport := by
    refine Reaches.invariant (I := fun x => BeforeLast s x.transport) (fun x y hxy hx => ?_) hc
      (Or.inr ⟨pre, hpre, rfl⟩)
    rcases transport_of_readStep hxy with heq | ⟨len, hlen, heq⟩
    · rwa [heq]
    · rw [heq]
      exact transportRead_beforeLast hlen hs hx
  rcases hlast with hnil | ⟨pre', hpre', heq⟩
  · rw [HTTPClient.pending, Transport.pending, hnil] at hpos
    exact absurd hpos (by simp [pendingOf])
  · have hlen := length_le_pendingOf_append [.data s] hpre'
    rw [HTTPClient.pending, Transport.pending, heq] at hle hpos
    simp only [pendingOf, List.append_nil] at hlen
    omega

end MaestroCore
