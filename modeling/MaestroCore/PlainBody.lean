import MaestroCore.Message

/-!
# Bodies without a Transfer Coding

When the headers do not say `chunked`, the body starts right after the header block and
`read_headers` and `read_body` wait until as many bytes are in the buffer as
`Content-Length` declares. What the client delivers is then the whole buffer.

The run is followed up to `HTTP_CLIENT_RETURNING` (`exists_returning`): there the buffer
holds a prefix of the stream after the head, at least as long as declared. Up to that
point more of the stream was pending, and after it nothing is read any more.

## Main results

* `exists_returning`: the run reaches `HTTP_CLIENT_RETURNING`, however the stream is cut.
* `fails_of_short`: a connection that ends before the declared length leads to the error
  state.
-/

open CLang Run

namespace MaestroCore

/-- A client that has parsed the headers of a body of length `n` without transfer coding:
it still waits for bytes, or has enough of them. -/
inductive InBody (sink : Sink) (n : ℕ) (rest missing : Bytes) (e : Ending)
    (c : HTTPClient) : Prop
  | reading (hs : c.state = .readingBody) (hlen : c.contentLength = n)
      (hbuf : c.recvBuf.length < n) (hun : c.unread ++ missing = rest)
      (hend : c.transport.ending = e) (hdec : c.decodedBody = none) (hdel : Undelivered sink c)
  | complete (hs : c.state = .returning) (hbuf : n ≤ c.recvBuf.length)
      (hun : c.unread ++ missing = rest) (hdec : c.decodedBody = none)
      (hdel : Undelivered sink c)

section PlainBody

variable {sink : Sink} {h : Head} {n : ℕ} {rest missing : Bytes} {e : Ending}
  {c c' : HTTPClient}

/-- The headers lead into the body. -/
theorem InHead.framed_body (hc : InHead sink h rest missing e c) (hgoal : HeadRead h c)
    (hend : headersEnd h.lines < 2 ^ 31) (hte : transferEncodingChunked h.headers = false) :
    ∃ c', httpClientReadStep c = .ok c' ∧ c'.pending = c.pending ∧ c'.load < c.load ∧
      InBody sink (declaredLength h.headers).toNat rest missing e c' := by
  obtain ⟨r, -, hr, hload, hstep⟩ := hc.framed_step hgoal hend
  refine ⟨_, hstep, rfl, hload, ?_⟩
  cases hc with
  | firstline hs => rw [hgoal.1] at hs; cases hs
  | headers _ _ hending hdec hdel =>
      have hdel' : ∀ s, Undelivered sink { framed c h.headers r with state := s } :=
        fun _ => ⟨hdel.1, hdel.2, hdel.3, hdel.4⟩
      have hun : ∀ s, ({ framed c h.headers r with state := s } : HTTPClient).unread ++ missing
          = rest := by
        intro s
        rw [← hr, HTTPClient.unread, List.append_assoc]
        rfl
      by_cases hlt : (r.length : ℤ) < declaredLength h.headers
      · have hs : framedState h.headers r.length = .readingBody := by
          rw [framedState, hte, if_neg (by simp), if_pos (by omega), if_neg (by omega)]
        rw [hs]
        refine .reading rfl ?_ ?_ (hun _) hending hdec (hdel' _)
        · simp only [framed, hte, Bool.not_false, Bool.true_and, decide_eq_true_eq]
          rw [if_pos (by omega)]
          omega
        · simp only [framed]
          omega
      · have hs : framedState h.headers r.length = .returning := by
          rw [framedState, hte, if_neg (by simp)]
          split
          · rw [if_pos (by omega)]
          · rfl
        rw [hs]
        refine .complete rfl ?_ (hun _) hdec (hdel' _)
        simp only [framed]
        omega

/-- One step of `read_body`. -/
theorem InBody.step (hc : InBody sink n rest missing e c) (hgoal : c.state ≠ .returning) :
    Advances (InBody sink n rest missing e) c := by
  cases hc with
  | complete hs => exact absurd hs hgoal
  | reading hs hlen hbuf hun hend hdec hdel =>
      have hwork : httpClientWork c = receive c 1023 c.state
          (fun c =>
            if (c.recvBuf.length : ℤ) < c.contentLength then goto .error c
            else goto .returning { c with retries := 0 })
          (fun c =>
            if (c.recvBuf.length : ℤ) < c.contentLength then goto .readingBody c
            else goto .returning { c with retries := 0 }) := by
        rw [httpClientWork, hs]
        rfl
      refine receive_advances (by omega) hwork ?_ ?_ ?_
      · rw [if_pos (by omega)]
      · intro c₁ hf hbuf₁
        exact .reading (hf.state.trans hs) (hf.contentLength.trans hlen) (hbuf₁ ▸ hbuf)
          (hf.unread ▸ hun) (hf.ending.trans hend) (hf.decodedBody.trans hdec)
          (hf.undelivered hdel)
      · intro c₁ hf
        have hdel₁ := hf.undelivered hdel
        have hlen₁ := hf.contentLength.trans hlen
        have hun₁ : c₁.unread ++ missing = rest := hf.unread ▸ hun
        by_cases hlt : (c₁.recvBuf.length : ℤ) < c₁.contentLength
        · have hbuf₁ : c₁.recvBuf.length < n := by omega
          refine ⟨_, _, if_pos hlt, le_rfl, ?_⟩
          exact .reading rfl hlen₁ hbuf₁ hun₁ (hf.ending.trans hend)
            (hf.decodedBody.trans hdec) (hdel₁.with_state _)
        · have hbuf₁ : n ≤ c₁.recvBuf.length := by omega
          refine ⟨_, _, if_neg hlt, le_rfl, ?_⟩
          exact .complete rfl hbuf₁ hun₁ (hf.decodedBody.trans hdec)
            ⟨hdel₁.1, hdel₁.2, hdel₁.3, hdel₁.4⟩

/-- A client that waits for the body still has bytes of it to come. -/
theorem InBody.rest_lt (hc : InBody sink n rest missing e c) (hgoal : c.state ≠ .returning) :
    rest.length < (c.pending ++ missing).length + n := by
  cases hc with
  | complete hs => exact absurd hs hgoal
  | reading _ _ hbuf hun =>
      have := congrArg List.length hun
      simp only [HTTPClient.unread, List.length_append] at this ⊢
      omega

section Run

variable {incoming : List Arrival}

/-- **The run reaches `HTTP_CLIENT_RETURNING`** when nothing of the declared length is
missing, with a prefix of the stream after the head in the buffer. Every other client of
the run either has the same bytes to come or comes before the end of the declared length. -/
theorem exists_returning (sink : Sink) (hstream : pendingOf incoming = h.bytes ++ rest)
    (hend : headersEnd h.lines < 2 ^ 31) (hte : transferEncodingChunked h.headers = false)
    (hlen : (declaredLength h.headers).toNat ≤ rest.length) :
    ∃ c, Reaches httpClientReadStep (start sink incoming) c ∧ c.state = .returning ∧
      InBody sink (declaredLength h.headers).toNat rest [] (endingOf incoming) c ∧
      ∀ d, Reaches httpClientReadStep (start sink incoming) d → d.pending = c.pending ∨
        rest.length < d.pending.length + (declaredLength h.headers).toNat := by
  have hstep : ∀ x,
      InBody sink (declaredLength h.headers).toNat rest [] (endingOf incoming) x →
      ¬ x.state = .returning → ∃ y, httpClientReadStep x = .ok y ∧
      InBody sink (declaredLength h.headers).toNat rest [] (endingOf incoming) y ∧
      y.load < x.load ∧ (y.pending = x.pending ∨
        rest.length - (declaredLength h.headers).toNat < x.pending.length) := by
    intro x hx hG
    have hlt := hx.rest_lt hG
    rw [List.append_nil] at hlt
    obtain ⟨y, hy, ⟨hIy, hload⟩ | ⟨hnil, -⟩⟩ := hx.step hG
    · exact ⟨y, hy, hIy, hload, Or.inr (by omega)⟩
    · rw [hnil, List.length_nil] at hlt
      omega
  obtain ⟨c, hc, hI, hcs, hall⟩ := exists_goal_after_head hstream (Nat.sub_le _ _)
    (fun x hx hread => hx.framed_body hread hend hte) hstep
  refine ⟨c, hc, hcs, hI, ?_⟩
  intro d hd
  rcases hall d hd with (heq | hlt) | hcd
  · exact Or.inl heq
  · exact Or.inr (by omega)
  · exact Or.inl (congrArg Transport.pending (transport_of_returning hcs hcd))

/-- What is delivered at the end of such a run: the whole buffer. -/
theorem InBody.delivers (hc : Reaches httpClientReadStep (start sink incoming) c)
    (hcs : c.state = .returning) (hI : InBody sink n rest missing e c) :
    Delivers sink incoming c.recvBuf := by
  cases hI with
  | reading hs => rw [hcs] at hs; cases hs
  | complete hs _ _ hdec hdel =>
      obtain ⟨c', hstep, hdelivered, -⟩ := hdel.deliver hs
      rw [deliverySource, hdec] at hdelivered
      exact ⟨c, c', hc, hs, hstep, hdelivered⟩

/-- A run without the bytes of the declared length delivers nothing. -/
theorem not_delivers_of_short {x : Bytes}
    (hstream : pendingOf incoming = h.bytes ++ rest)
    (hend : headersEnd h.lines < 2 ^ 31) (hte : transferEncodingChunked h.headers = false)
    (hlen : rest.length < (declaredLength h.headers).toNat) :
    ¬ Delivers sink incoming x := by
  have hreading : ∀ y, InBody sink (declaredLength h.headers).toNat rest []
      (endingOf incoming) y → y.state ≠ .returning := by
    intro y hy hs
    cases hy with
    | reading hs' => rw [hs] at hs'; cases hs'
    | complete _ hbuf hun =>
        have := congrArg List.length hun
        simp only [HTTPClient.unread, List.append_nil, List.length_append] at this
        omega
  rintro ⟨c, c', hc, hcs, -⟩
  obtain ⟨a, ha, hIa, hGa⟩ := (inHead_start_whole sink hstream).exists_headRead
    (Nat.zero_le _)
  obtain ⟨b, hab, -, -, hIb⟩ := hIa.framed_body hGa hend hte
  rcases hc.total (ha.tail hab) with hcb | hbc
  · have hbs := hreading b hIb
    cases hIb with
    | complete hs => exact hbs hs
    | reading hs =>
        rcases final_of_returning hcs hcb with rfl | ⟨-, hs' | hs'⟩
        · exact hbs hcs
        · rw [hs] at hs'; cases hs'
        · rw [hs] at hs'; cases hs'
  · rcases keeps_of_advances (fun y hy => hy.step (hreading y hy)) hIb hbc with hIc | herr
    · exact hreading c hIc hcs
    · rw [hcs] at herr; cases herr

/-- **A connection that ends before the declared length** leads to the error state. -/
theorem fails_of_short (hstream : pendingOf incoming ++ missing = h.bytes ++ rest)
    (hend : headersEnd h.lines < 2 ^ 31) (hte : transferEncodingChunked h.headers = false)
    (hlen : rest.length < missing.length + (declaredLength h.headers).toNat)
    (hclosed : endingOf incoming ≠ .idle) : Fails sink incoming := by
  have hstart := inHead_start sink hstream
  by_cases hhead : rest.length < missing.length
  · exact hstart.exists_error hhead hclosed
  · obtain ⟨a, ha, hIa, hGa⟩ := hstart.exists_headRead (by omega)
    obtain ⟨b, hab, -, -, hIb⟩ := hIa.framed_body hGa hend hte
    obtain ⟨c, hbc, hIc, hcs | ⟨d, hcd, -, hstarved⟩⟩ :=
      exists_goal_or_starved (G := fun x => x.state = .returning)
        (fun x hx hG => hx.step hG) hIb
    · cases hIc with
      | reading hs => rw [hcs] at hs; cases hs
      | complete _ hbuf hun =>
          have := congrArg List.length hun
          simp only [HTTPClient.unread, List.length_append] at this
          omega
    · cases hIc with
      | reading _ _ _ _ hend' =>
          rw [hend'] at hstarved
          rcases hstarved with ⟨hidle, -⟩ | ⟨-, herr⟩
          · exact absurd hidle hclosed
          · exact ⟨d, ((ha.tail hab).trans hbc).tail hcd, herr⟩
      | complete _ hbuf hun =>
          have := congrArg List.length hun
          simp only [HTTPClient.unread, List.length_append] at this
          omega

end Run

end PlainBody

end MaestroCore
