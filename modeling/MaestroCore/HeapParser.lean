import Mathlib.Tactic.Abel
import MaestroCore.HttpParser
import MaestroCore.Lib.Heap

/-!
# The Response Parsers and the Heap

The parsers of `http_parser.c` once more, with every request for memory that they make and
every block that they free. A request may be refused at any point; the functions then free what
they have built so far and return `ERR_NO_MEMORY`. There is one exception:
`http_parser_headers` does not look at what `linked_list_item_add` returns, so a header whose
list node is refused is dropped, and its three blocks are lost.

## Main results

* `owns_headers`: the header parser hands over a list with all its blocks, or nothing.
* `owns_responseFirstline`: the status-line parser hands over three strings, or nothing.
* `refines_headers` and `refines_responseFirstline`: on a heap that refuses nothing the parsers
  are those without a heap.
-/

open CLang Ownership

namespace MaestroCore

/-- What memory is asked for. -/
inductive Kind
  /-- `HTTP_Client`. -/
  | client
  /-- The copy of the URL. -/
  | url
  /-- `HTTP_Request`. -/
  | request
  /-- `HTTP_Response`. -/
  | response
  /-- The copy of the body that is sent. -/
  | body
  /-- `request_buffer`. -/
  | requestBuffer
  /-- `recv_buf->addr`. -/
  | recvBuf
  /-- `decoded_body`. -/
  | decodedBody
  /-- The buffer that the caller receives. -/
  | output
  /-- A local copy of a line. -/
  | line
  /-- A string made by `strdup`. -/
  | text
  /-- `HTTP_Key_Value`. -/
  | keyValue
  /-- `Linked_Item`. -/
  | node
  /-- `Linked_List`. -/
  | list
  deriving DecidableEq, Repr

/-- A program of the client. -/
abbrev Allocated (α : Type) := HeapM Kind Fault α

/-- A list node that is refused costs the three blocks of its header. What the refusal of an
`HTTP_Response` costs is left to the caller. -/
structure Pricing (cost : Kind → ℕ) : Prop where
  node : cost .node = 3
  other : ∀ k, k ≠ .node → k ≠ .response → cost k = 0

namespace Allocating

/-! ### Header lists -/

/-- A node of a header list: its header, and the blocks of the node, of the `HTTP_Key_Value` and
of the two strings. -/
structure HeaderItem where
  header : HTTPKeyValue
  node : Block
  keyValue : Block
  key : Block
  value : Block
  deriving DecidableEq, Repr

/-- A header list. -/
structure HeaderList where
  list : Block
  items : List HeaderItem
  deriving DecidableEq, Repr

/-- The headers in the list. -/
def HeaderList.headers (l : HeaderList) : List HTTPKeyValue := l.items.map HeaderItem.header

/-- The blocks of the headers. -/
def headerBlocks : List HeaderItem → Multiset Block
  | [] => 0
  | x :: items => x.key ::ₘ x.value ::ₘ x.keyValue ::ₘ headerBlocks items

/-- The blocks of the nodes. -/
def nodeBlocks : List HeaderItem → Multiset Block
  | [] => 0
  | x :: items => x.node ::ₘ nodeBlocks items

/-- The blocks of a list. -/
def HeaderList.blocks (l : HeaderList) : Multiset Block :=
  l.list ::ₘ (headerBlocks l.items + nodeBlocks l.items)

/-- The blocks of a list that may be missing. -/
def listBlocks : Option HeaderList → Multiset Block
  | none => 0
  | some l => l.blocks

/-- `linked_list_item_add`, whose caller does not look at what it returns. -/
def linkedListItemAdd (l : HeaderList) (header : HTTPKeyValue) (keyValue key value : Block) :
    Allocated HeaderList := do
  match ← malloc .node with
  | none => pure l
  | some node => do
      use l.list
      pure { l with items := l.items ++ [⟨header, node, keyValue, key, value⟩] }

/-- The loop of `http_parser_dispose_linked_list` over the headers. -/
def disposeHeaders : List HeaderItem → Allocated Unit
  | [] => pure ()
  | x :: items => do
      use x.node
      use x.keyValue
      free x.key
      free x.value
      free x.keyValue
      disposeHeaders items

/-- `linked_list_items_dispose`. -/
def linkedListItemsDispose : List HeaderItem → Allocated Unit
  | [] => pure ()
  | x :: items => do
      free x.node
      linkedListItemsDispose items

/-- `http_parser_dispose_linked_list`. -/
def httpParserDisposeLinkedList : Option HeaderList → Allocated Unit
  | none => pure ()
  | some l => do
      disposeHeaders l.items
      linkedListItemsDispose l.items
      free l.list

/-- `http_parser_headers` ends with an error: the list is disposed of, and `*_headers_out` is
set to `NULL`. -/
def abandon (l : HeaderList) (code : ErrorCode) : Allocated (ErrorCode × Option HeaderList) := do
  httpParserDisposeLinkedList (some l)
  pure (code, none)

/-- The loop of `http_parser_headers`, with the code that is returned and `*_headers_out`. -/
def httpParserHeadersLoop : ℕ → ℕ → Bytes → HeaderList →
    Allocated (ErrorCode × Option HeaderList)
  | 0, _, _, l => pure (.success, some l)
  | fuel + 1, start, rest, l =>
      match List.firstOcc crlf rest with
      | none => pure (.success, some l)
      | some lineLen =>
          let lineEnd := toInt (start + lineLen)
          if lineEnd < 0 then pure (.success, some l)
          else if lineEnd ≠ start + lineLen then fail .headerIndex
          else if lineLen = 0 then pure (.success, some l)
          else do
            match ← malloc .line with
            | none => abandon l .noMemory
            | some line => do
                use line
                match httpParserHeaderLine (rest.take lineLen) with
                | none => do
                    free line
                    abandon l .badFormat
                | some header => do
                    match ← malloc .keyValue with
                    | none => do
                        free line
                        abandon l .noMemory
                    | some keyValue => do
                        let key ← malloc .text
                        let value ← malloc .text
                        match key, value with
                        | some key, some value => do
                            let l ← linkedListItemAdd l header keyValue key value
                            free line
                            httpParserHeadersLoop fuel (start + lineLen + 2)
                              (rest.drop (lineLen + 2)) l
                        | key, value => do
                            freeOpt key
                            freeOpt value
                            free keyValue
                            free line
                            abandon l .noMemory

/-- `http_parser_headers`. -/
def httpParserHeaders (buf : Bytes) : Allocated (ErrorCode × Option HeaderList) := do
  match ← malloc .list with
  | none => pure (.noMemory, none)
  | some list => httpParserHeadersLoop buf.length 0 buf ⟨list, []⟩

/-! ### The strings of a response -/

/-- The blocks of the strings of `HTTP_Response` that the status line fills. -/
structure ResponseBlocks where
  version : Option Block := none
  statusCodeString : Option Block := none
  reasonPhrase : Option Block := none
  deriving DecidableEq, Repr

/-- The blocks of the strings. -/
def ResponseBlocks.blocks (r : ResponseBlocks) : Multiset Block :=
  blockOf r.version + (blockOf r.reasonPhrase + blockOf r.statusCodeString)

/-- `http_parser_dispose(NULL, _Resp)`. The other strings of the response are never set. -/
def httpParserDisposeResponse (r : ResponseBlocks) : Allocated ResponseBlocks := do
  freeOpt r.version
  freeOpt r.reasonPhrase
  freeOpt r.statusCodeString
  pure {}

/-- `http_parser_response_firstline`, with the response as it is afterwards. -/
def httpParserResponseFirstline (line : Bytes) (resp : HTTPResponse) (r : ResponseBlocks) :
    Allocated (ErrorCode × HTTPResponse × ResponseBlocks) :=
  if line = [] then pure (.invalidArg, resp, r)
  else do
    match ← malloc .line with
    | none => pure (.noMemory, resp, r)
    | some lineCopy => do
        use lineCopy
        match strchr 32 (cstr line) with
        | none => do
            free lineCopy
            pure (.badFormat, resp, r)
        | some (version, target) =>
            match strchr 32 target with
            | none => do
                free lineCopy
                pure (.badFormat, resp, r)
            | some (status, reason) => do
                match ← malloc .text with
                | none => do
                    free lineCopy
                    pure (.noMemory, { resp with version := none }, { r with version := none })
                | some versionBlock => do
                    let r := { r with version := some versionBlock }
                    match ← malloc .text with
                    | none => do
                        free lineCopy
                        let r ← httpParserDisposeResponse { r with statusCodeString := none }
                        pure (.noMemory, {}, r)
                    | some statusBlock => do
                        let r := { r with statusCodeString := some statusBlock }
                        match ← malloc .text with
                        | none => do
                            free lineCopy
                            let r ← httpParserDisposeResponse { r with reasonPhrase := none }
                            pure (.noMemory, {}, r)
                        | some reasonBlock => do
                            let r := { r with reasonPhrase := some reasonBlock }
                            use statusBlock
                            let statusInt := (← lift (parseStringToInt status)).getD 0
                            match httpStatusReasonPhrase statusInt with
                            | none => fail .reasonPhraseNull
                            | some phrase =>
                                if reason = phrase then do
                                  free lineCopy
                                  pure (.success, ⟨some version, some status, some reason⟩, r)
                                else do
                                  free lineCopy
                                  let r ← httpParserDisposeResponse r
                                  pure (.badFormat, {}, r)

/-! ### The blocks that the parsers handle -/

/-- A header added at the end adds its key, its value and its pair to the blocks. -/
theorem headerBlocks_append (items : List HeaderItem) (x : HeaderItem) :
    headerBlocks (items ++ [x]) = x.key ::ₘ x.value ::ₘ x.keyValue ::ₘ headerBlocks items := by
  induction items with
  | nil => rfl
  | cons y items ih =>
      rw [List.cons_append, headerBlocks, ih, headerBlocks]
      simp only [← Multiset.singleton_add]
      abel

/-- A header added at the end adds its list node to the blocks. -/
theorem nodeBlocks_append (items : List HeaderItem) (x : HeaderItem) :
    nodeBlocks (items ++ [x]) = x.node ::ₘ nodeBlocks items := by
  induction items with
  | nil => rfl
  | cons y items ih => rw [List.cons_append, nodeBlocks, ih, nodeBlocks, Multiset.cons_swap]

/-- The node of every header is one of the list's node blocks. -/
theorem mem_nodeBlocks {items : List HeaderItem} {x : HeaderItem} (h : x ∈ items) :
    x.node ∈ nodeBlocks items := by
  induction items with
  | nil => cases h
  | cons y items ih =>
      rcases List.mem_cons.mp h with rfl | h
      · exact Multiset.mem_cons_self _ _
      · exact Multiset.mem_cons_of_mem (ih h)

section Disposal

variable {P : Multiset Block} {β : Type} {J : Multiset Block → Allocated β → Prop}

/-- Freeing the headers' strings and pairs is a legal disposal, while their nodes are still held to
reach them. -/
theorem disposal_headers (hJ : Disposal J) {f : Unit → Allocated β} {items : List HeaderItem}
    (hnodes : ∀ x ∈ items, x.node ∈ P) (hf : J P (f ())) :
    J (headerBlocks items + P) (disposeHeaders items >>= f) := by
  induction items with
  | nil =>
      rw [headerBlocks, zero_add]
      exact hf
  | cons x items ih =>
      have hrest := ih fun y hy => hnodes y (List.mem_cons_of_mem x hy)
      simp only [disposeHeaders, bind_assoc, headerBlocks, Multiset.cons_add]
      refine hJ.use ?_ (hJ.use ?_ (hJ.free (hJ.free (hJ.free hrest))))
      · have hnode := hnodes x List.mem_cons_self
        simp [hnode]
      · simp

/-- Freeing the list nodes in order is a legal disposal. -/
theorem disposal_items (hJ : Disposal J) {f : Unit → Allocated β} (items : List HeaderItem)
    (hf : J P (f ())) : J (nodeBlocks items + P) (linkedListItemsDispose items >>= f) := by
  induction items with
  | nil =>
      rw [nodeBlocks, zero_add]
      exact hf
  | cons x items ih =>
      simp only [linkedListItemsDispose, bind_assoc, nodeBlocks, Multiset.cons_add]
      exact hJ.free ih

/-- **A list is disposed of** with all its blocks. -/
theorem disposal_linkedList (hJ : Disposal J) {f : Unit → Allocated β} (o : Option HeaderList)
    (hf : J P (f ())) : J (listBlocks o + P) (httpParserDisposeLinkedList o >>= f) := by
  cases o with
  | none =>
      rw [listBlocks, zero_add]
      exact hf
  | some l =>
      simp only [httpParserDisposeLinkedList, bind_assoc]
      have hblocks : listBlocks (some l) + P =
          headerBlocks l.items + (nodeBlocks l.items + l.list ::ₘ P) := by
        rw [listBlocks, HeaderList.blocks]
        simp only [← Multiset.singleton_add]
        abel
      rw [hblocks]
      refine disposal_headers hJ ?_ (disposal_items hJ _ (hJ.free hf))
      intro x hx
      exact Multiset.mem_add.mpr (Or.inl (mem_nodeBlocks hx))

/-- The strings of the response are disposed of. -/
theorem disposal_response (hJ : Disposal J) {f : ResponseBlocks → Allocated β}
    (r : ResponseBlocks) (hf : J P (f {})) :
    J (r.blocks + P) (httpParserDisposeResponse r >>= f) := by
  simp only [httpParserDisposeResponse, bind_assoc, pure_bind, ResponseBlocks.blocks, add_assoc]
  exact hJ.freeOpt (hJ.freeOpt (hJ.freeOpt hf))

end Disposal

section Owns

variable {cost : Kind → ℕ} {P : Multiset Block} {β : Type} {S : β → Multiset Block → Prop}

/-- What the header parser hands over: a list with all its blocks exactly on success. -/
def HandsOver (r : ErrorCode × Option HeaderList) (R : Multiset Block) : Prop :=
  R = listBlocks r.2 ∧ (r.1 = .success ↔ r.2.isSome = true)

/-- A headers parse that gives up frees every block of its list and hands over nothing. -/
theorem owns_abandon (l : HeaderList) {code : ErrorCode} (h : code ≠ .success) :
    Owns cost l.blocks (abandon l code) HandsOver := by
  have hblocks : l.blocks = listBlocks (some l) + 0 := (add_zero _).symm
  rw [hblocks]
  exact disposal_linkedList Owns.disposal (some l) (.pure ⟨rfl, by simp [h]⟩)

/-- The end of the header parser when a string of a header is refused. -/
theorem owns_dropHeader (key value : Option Block) (keyValue line : Block) (l : HeaderList) :
    Owns cost (blockOf key + (blockOf value + keyValue ::ₘ line ::ₘ l.blocks))
      (do
        freeOpt key
        freeOpt value
        free keyValue
        free line
        abandon l .noMemory) HandsOver :=
  .freeOpt (.freeOpt (.free (.free (owns_abandon l (by simp)))))

/-- **A header is added to the list**, or its three blocks are lost. -/
theorem owns_itemAdd {f : HeaderList → Allocated β} {l : HeaderList} {header : HTTPKeyValue}
    {keyValue key value : Block} (hcost : Pricing cost)
    (hf : ∀ l', Owns cost (l'.blocks + P) (f l') S) :
    Owns cost (value ::ₘ key ::ₘ keyValue ::ₘ (l.blocks + P))
      (linkedListItemAdd l header keyValue key value >>= f) S := by
  simp only [linkedListItemAdd, bind_assoc]
  refine .malloc (fun node => ?_) ⟨l.blocks + P, {value, key, keyValue}, ?_, ?_, ?_⟩
  · simp only [bind_assoc, pure_bind]
    refine .use (by simp [HeaderList.blocks]) ((hf _).congr ?_)
    rw [HeaderList.blocks, HeaderList.blocks, headerBlocks_append, nodeBlocks_append]
    simp only [← Multiset.singleton_add]
    abel
  · simp only [Multiset.insert_eq_cons, ← Multiset.singleton_add]
    abel
  · rw [hcost.node]
    rfl
  · simp only [pure_bind]
    exact hf l

/-- **The loop of the header parser.** -/
theorem owns_headersLoop (hcost : Pricing cost) (fuel start : ℕ) (rest : Bytes) (l : HeaderList) :
    Owns cost l.blocks (httpParserHeadersLoop fuel start rest l) HandsOver := by
  have hsuccess : ∀ l : HeaderList, Owns cost l.blocks
      (pure (.success, some l) : Allocated (ErrorCode × Option HeaderList)) HandsOver :=
    fun l => .pure ⟨rfl, by simp⟩
  have hfree : ∀ k, k ≠ .node → k ≠ .response → cost k = 0 := hcost.other
  induction fuel generalizing start rest l with
  | zero => exact hsuccess l
  | succ fuel ih =>
      rw [httpParserHeadersLoop]
      split
      · exact hsuccess l
      · simp only
        split
        · exact hsuccess l
        · split
          · exact .fail
          · split
            · exact hsuccess l
            · refine .malloc_free (hfree _ (by simp) (by simp)) (fun line => ?_)
                (owns_abandon l (by simp))
              refine .use (Multiset.mem_cons_self _ _) ?_
              split
              · exact .free (owns_abandon l (by simp))
              · refine .malloc_free (hfree _ (by simp) (by simp)) (fun keyValue => ?_)
                  (.free (owns_abandon l (by simp)))
                refine .malloc_any (hfree _ (by simp) (by simp)) fun key => ?_
                refine .malloc_any (hfree _ (by simp) (by simp)) fun value => ?_
                split
                · rename_i key value
                  refine (owns_itemAdd (P := {line}) hcost fun l' => ?_).congr ?_
                  · rw [add_comm, Multiset.singleton_add]
                    exact .free (ih _ _ l')
                  · simp only [blockOf_some, ← Multiset.singleton_add]
                    abel
                · -- the key or the value is refused
                  refine (owns_dropHeader key value keyValue line l).congr ?_
                  rw [add_left_comm]

/-- **The header parser** hands over a list with all its blocks, or nothing. -/
theorem owns_headers (hcost : Pricing cost) (buf : Bytes) :
    Owns cost 0 (httpParserHeaders buf) HandsOver := by
  refine .malloc_free (hcost.other _ (by simp) (by simp)) (fun list => ?_)
    (.pure ⟨rfl, by simp⟩)
  exact owns_headersLoop hcost buf.length 0 buf ⟨list, []⟩

/-- What the status-line parser hands over: strings with all their blocks, and none of them after
an error. -/
def HandsOverStrings (p : ErrorCode × HTTPResponse × ResponseBlocks) (R : Multiset Block) : Prop :=
  R = p.2.2.blocks ∧ (p.1 ≠ .success → p.2.2 = {})

/-- A status line that is refused frees the copy of the line and every string of the response. -/
theorem owns_failFirstline (r : ResponseBlocks) {code : ErrorCode} (lineCopy : Block)
    {R : Multiset Block} (hR : R = lineCopy ::ₘ (r.blocks + 0)) :
    Owns cost R (do
        free lineCopy
        let r ← httpParserDisposeResponse r
        pure (code, {}, r) : Allocated (ErrorCode × HTTPResponse × ResponseBlocks))
      HandsOverStrings := by
  rw [hR]
  exact .free (disposal_response Owns.disposal r (.pure ⟨rfl, fun _ => rfl⟩))

/-- A status line that is accepted frees the copy of the line and hands over the three strings. -/
theorem owns_finishFirstline (r : ResponseBlocks) (resp : HTTPResponse) (lineCopy : Block)
    {R : Multiset Block} (hR : R = lineCopy ::ₘ r.blocks) :
    Owns cost R (do
        free lineCopy
        pure (.success, resp, r) : Allocated (ErrorCode × HTTPResponse × ResponseBlocks))
      HandsOverStrings := by
  rw [hR]
  exact .free (.pure ⟨rfl, fun h => absurd rfl h⟩)

/-- **The status-line parser** hands over the strings of the response, or nothing. -/
theorem owns_responseFirstline (hcost : Pricing cost) (line : Bytes) (resp : HTTPResponse) :
    Owns cost 0 (httpParserResponseFirstline line resp {}) HandsOverStrings := by
  have hnone : ∀ (code : ErrorCode) (resp : HTTPResponse), Owns cost 0
      (pure (code, resp, {}) : Allocated (ErrorCode × HTTPResponse × ResponseBlocks))
      HandsOverStrings := fun code resp => .pure ⟨rfl, fun _ => rfl⟩
  have hfree : ∀ k, k ≠ .node → k ≠ .response → cost k = 0 := hcost.other
  rw [httpParserResponseFirstline]
  split
  · exact hnone _ _
  · refine .malloc_free (hfree _ (by simp) (by simp)) (fun lineCopy => ?_) (hnone _ _)
    refine .use (Multiset.mem_cons_self _ _) ?_
    split
    · exact .free (hnone _ _)
    · split
      · exact .free (hnone _ _)
      · refine .malloc_free (hfree _ (by simp) (by simp)) (fun versionBlock => ?_)
          (.free (hnone _ _))
        refine .malloc_free (hfree _ (by simp) (by simp)) (fun statusBlock => ?_) ?_
        · refine .malloc_free (hfree _ (by simp) (by simp)) (fun reasonBlock => ?_) ?_
          · refine .use (by simp) (.bind (.lift (Q := fun _ R => R = _) fun _ _ => rfl) ?_)
            rintro statusInt R rfl
            simp only
            split
            · exact .fail
            · split
              · refine owns_finishFirstline _ _ lineCopy ?_
                simp only [ResponseBlocks.blocks, blockOf_some, ← Multiset.singleton_add]
                abel
              · refine owns_failFirstline _ lineCopy ?_
                simp only [ResponseBlocks.blocks, blockOf_some, ← Multiset.singleton_add]
                abel
          · refine owns_failFirstline _ lineCopy ?_
            simp only [ResponseBlocks.blocks, blockOf_some, blockOf_none, ← Multiset.singleton_add]
            abel
        · refine owns_failFirstline _ lineCopy ?_
          simp only [ResponseBlocks.blocks, blockOf_some, blockOf_none, ← Multiset.singleton_add]
          abel

end Owns

/-! ### Heaps that refuse nothing -/

section Refines

variable {β γ : Type} {T : β → γ → Prop} {r : Except Fault γ}

/-- Freeing the headers does not show in the result. -/
theorem refines_disposeHeaders {f : Unit → Allocated β} (items : List HeaderItem)
    (hf : Refines (f ()) r T) : Refines (disposeHeaders items >>= f) r T := by
  induction items with
  | nil => exact hf
  | cons x items ih =>
      simp only [disposeHeaders, bind_assoc]
      exact .use (.use (.free (.free (.free ih))))

/-- Freeing the list nodes does not show in the result. -/
theorem refines_itemsDispose {f : Unit → Allocated β} (items : List HeaderItem)
    (hf : Refines (f ()) r T) : Refines (linkedListItemsDispose items >>= f) r T := by
  induction items with
  | nil => exact hf
  | cons x items ih =>
      simp only [linkedListItemsDispose, bind_assoc]
      exact .free ih

/-- Freeing a header list, if there is one, does not show in the result. -/
theorem refines_disposeLinkedList {f : Unit → Allocated β} (o : Option HeaderList)
    (hf : Refines (f ()) r T) : Refines (httpParserDisposeLinkedList o >>= f) r T := by
  cases o with
  | none => exact hf
  | some l =>
      simp only [httpParserDisposeLinkedList, bind_assoc]
      exact refines_disposeHeaders _ (refines_itemsDispose _ (.free hf))

/-- The header parser has returned what the one without a heap does. -/
def SameHeaders (p : ErrorCode × Option HeaderList) : Except ErrorCode (List HTTPKeyValue) → Prop
  | .ok headers => p.1 = .success ∧ p.2.map HeaderList.headers = some headers
  | .error code => p.1 = code ∧ p.1 ≠ .success ∧ p.2 = none

/-- With every request granted the allocating headers loop parses the headers the plain loop parses.
-/
theorem refines_headersLoop (fuel start : ℕ) (rest : Bytes) (l : HeaderList) :
    Refines (httpParserHeadersLoop fuel start rest l)
      (MaestroCore.httpParserHeadersLoop fuel start rest l.headers) SameHeaders := by
  induction fuel generalizing start rest l with
  | zero => exact .pure ⟨rfl, rfl⟩
  | succ fuel ih =>
      rw [httpParserHeadersLoop, MaestroCore.httpParserHeadersLoop]
      cases List.firstOcc crlf rest with
      | none => exact .pure ⟨rfl, rfl⟩
      | some lineLen =>
          simp only
          split
          · exact .pure ⟨rfl, rfl⟩
          · split
            · exact .fail
            · split
              · exact .pure ⟨rfl, rfl⟩
              · refine .malloc fun line => .use ?_
                cases httpParserHeaderLine (rest.take lineLen) with
                | none =>
                    exact .free (refines_disposeLinkedList _ (.pure ⟨rfl, by simp, rfl⟩))
                | some header =>
                    refine .malloc fun keyValue => .malloc fun key => .malloc fun value => ?_
                    simp only [linkedListItemAdd, bind_assoc]
                    refine .malloc fun node => ?_
                    simp only [bind_assoc, pure_bind]
                    refine .use (.free ?_)
                    have hnext := ih (start + lineLen + 2) (rest.drop (lineLen + 2))
                      { l with items := l.items ++ [⟨header, node, keyValue, key, value⟩] }
                    rw [HeaderList.headers, List.map_append] at hnext
                    exact hnext

/-- **The header parser** on a heap that refuses nothing. -/
theorem refines_headers (buf : Bytes) :
    Refines (httpParserHeaders buf) (MaestroCore.httpParserHeaders buf) SameHeaders :=
  .malloc fun list => refines_headersLoop buf.length 0 buf ⟨list, []⟩

/-- Freeing the strings of a response does not show in the result. -/
theorem refines_disposeResponse {f : ResponseBlocks → Allocated β} (b : ResponseBlocks)
    (hf : Refines (f {}) r T) : Refines (httpParserDisposeResponse b >>= f) r T := by
  simp only [httpParserDisposeResponse, bind_assoc, pure_bind]
  exact .freeOpt (.freeOpt (.freeOpt hf))

/-- The status-line parser has returned what the one without a heap does. -/
def SameResponse (p : ErrorCode × HTTPResponse × ResponseBlocks) (q : ErrorCode × HTTPResponse) :
    Prop := p.1 = q.1 ∧ p.2.1 = q.2

/-- **The status-line parser** on a heap that refuses nothing. -/
theorem refines_responseFirstline (line : Bytes) (resp : HTTPResponse) (b : ResponseBlocks) :
    Refines (httpParserResponseFirstline line resp b)
      (MaestroCore.httpParserResponseFirstline line resp) SameResponse := by
  rw [httpParserResponseFirstline, MaestroCore.httpParserResponseFirstline]
  split
  · exact .pure ⟨rfl, rfl⟩
  · refine .malloc fun lineCopy => .use ?_
    cases strchr 32 (cstr line) with
    | none => exact .free (.pure ⟨rfl, rfl⟩)
    | some cut =>
        obtain ⟨version, target⟩ := cut
        simp only
        cases strchr 32 target with
        | none => exact .free (.pure ⟨rfl, rfl⟩)
        | some cut =>
            obtain ⟨status, reason⟩ := cut
            refine .malloc fun versionBlock => .malloc fun statusBlock =>
              .malloc fun reasonBlock => .use (.bind .lift ?_)
            rintro statusInt _ rfl
            cases httpStatusReasonPhrase (statusInt.getD 0) with
            | none => exact .fail
            | some phrase =>
                simp only
                split
                · exact .free (.pure ⟨rfl, rfl⟩)
                · exact .free (refines_disposeResponse _ (.pure ⟨rfl, rfl⟩))

end Refines

end Allocating

end MaestroCore
