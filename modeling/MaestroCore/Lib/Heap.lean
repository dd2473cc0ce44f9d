import Mathlib.Algebra.Order.BigOperators.Group.Finset
import Mathlib.Algebra.Order.Group.Multiset
import Mathlib.Data.Multiset.AddSub
import Mathlib.Tactic.Ring
import MaestroCore.Lib.CLang
import MaestroCore.Lib.Run

/-!
# Programs That Allocate

A heap knows which blocks are live and answers requests for more, each of which it may refuse.
A program frees and uses blocks; to free or use one that is not live is a fault. Every request
has a kind, and the heap keeps the list of the kinds that it has refused.

`Owns cost P m Q` is the triple of a program that starts with the blocks `P`: it follows and frees
no bad pointer, whatever the heap refuses and whatever else is live, and ends with blocks that `Q`
allows. It may lose blocks, but only when a request is refused, and then exactly `cost k` of them
for a request of the kind `k`. With no costs nothing is ever lost.

## Main results

* `Owns.bind`, `Owns.malloc`, `Owns.free`, `Owns.use`, `Owns.reallocTo`: the rules.
* `Owns.frame`: what a program does not own is untouched.
* `Owns.exact`: a program without costs loses nothing.
* `Misses.here` and `Misses.disposal`: a program that frees a block a second time.
* `Owns.run`: a loop that keeps its blocks owns them in every state of its runs.
* `Refines.bind`, `Refines.malloc`: a heap that refuses nothing makes no difference.
-/

open CLang (ptrdiffMax)

namespace Ownership

/-- The name of a block. -/
abbrev Block := ℕ

/-- A heap. The blocks that are live have been handed out, each once. -/
structure Heap (κ : Type) where
  live : Multiset Block
  /-- The next block to be handed out. -/
  next : Block
  fresh : ∀ b ∈ live, b < next
  nodup : live.Nodup
  /-- Whether each of the requests to come is granted. -/
  grants : ℕ → Bool
  /-- The kinds of the requests that have been refused. -/
  refused : List κ

/-- What stops a program. -/
inductive HeapFault (ε : Type)
  /-- A pointer is followed or freed that is null, or to a block that is not live. -/
  | pointer (o : Option Block)
  /-- A fault of the program's own. -/
  | program (e : ε)
  deriving DecidableEq, Repr

/-- A program that allocates. -/
abbrev HeapM (κ ε : Type) := StateT (Heap κ) (Except (HeapFault ε))

variable {κ ε α β : Type}

/-! ### The operations -/

/-- The heap after it has granted a request. -/
def Heap.grant (h : Heap κ) : Heap κ where
  live := h.next ::ₘ h.live
  next := h.next + 1
  fresh := by
    intro b hb
    rcases Multiset.mem_cons.mp hb with rfl | hb
    · exact Nat.lt_succ_self _
    · exact Nat.lt_succ_of_lt (h.fresh b hb)
  nodup := Multiset.nodup_cons.mpr ⟨fun hmem => Nat.lt_irrefl _ (h.fresh _ hmem), h.nodup⟩
  grants := fun k => h.grants (k + 1)
  refused := h.refused

/-- The heap after it has refused a request. -/
def Heap.refuse (h : Heap κ) (k : κ) : Heap κ :=
  { h with grants := fun k => h.grants (k + 1), refused := h.refused ++ [k] }

/-- The heap without a block. -/
def Heap.release (h : Heap κ) (b : Block) : Heap κ :=
  { h with
    live := h.live.erase b
    fresh := fun c hc => h.fresh c (Multiset.mem_of_mem_erase hc)
    nodup := h.nodup.erase b }

/-- A heap without a block. -/
def emptyHeap (κ : Type) (grants : ℕ → Bool) : Heap κ where
  live := 0
  next := 0
  fresh := nofun
  nodup := Multiset.nodup_zero
  grants := grants
  refused := []

/-- A granted request makes the next block live. -/
@[simp] theorem Heap.grant_live (h : Heap κ) : h.grant.live = h.next ::ₘ h.live := rfl

/-- A refused request leaves the blocks as they are. -/
@[simp] theorem Heap.refuse_live (h : Heap κ) (k : κ) : (h.refuse k).live = h.live := rfl

/-- A block that has been freed is not live any more. -/
@[simp] theorem Heap.release_live (h : Heap κ) (b : Block) :
    (h.release b).live = h.live.erase b := rfl

/-- A request for a block. -/
def malloc (k : κ) : HeapM κ ε (Option Block) := fun h =>
  if h.grants 0 then .ok (some h.next, h.grant) else .ok (none, h.refuse k)

/-- The end of a block. -/
def free (b : Block) : HeapM κ ε Unit := fun h =>
  if b ∈ h.live then .ok ((), h.release b) else .error (.pointer (some b))

/-- A read or a write through a pointer to a block. -/
def use (b : Block) : HeapM κ ε Unit := fun h =>
  if b ∈ h.live then .ok ((), h) else .error (.pointer (some b))

/-- A read or a write through a pointer that may be null. -/
def deref : Option Block → HeapM κ ε Unit
  | none => fun _ => .error (.pointer none)
  | some b => use b

/-- `free` of a pointer that may be null. -/
def freeOpt : Option Block → HeapM κ ε Unit
  | none => pure ()
  | some b => free b

/-- A block of a new size with the contents of the old one, if there was one. The old block is
kept when the request is refused. -/
def realloc (o : Option Block) (k : κ) : HeapM κ ε (Option Block) :=
  match o with
  | none => malloc k
  | some b => do
      use b
      match ← malloc k with
      | none => pure none
      | some new => do
          free b
          pure (some new)

/-- A request for a block of the given size in place of the old one. A block that is too large
is never granted, whatever the heap says, and a size of zero ends the old block. -/
def reallocTo (o : Option Block) (k : κ) (size : ℕ) : HeapM κ ε (Option Block) :=
  match o with
  | none => if ptrdiffMax < size then pure none else malloc k
  | some b =>
      if ptrdiffMax < size then pure none
      else if size = 0 then do
        free b
        pure none
      else realloc (some b) k

/-- The program stops with a fault of its own. -/
def fail (e : ε) : HeapM κ ε α := fun _ => .error (.program e)

/-- A computation without a heap. -/
def lift : Except ε α → HeapM κ ε α
  | .ok a => pure a
  | .error e => fail e

/-- The block of a pointer that may be null. -/
def blockOf : Option Block → Multiset Block
  | none => 0
  | some b => {b}

/-- A null pointer has no block. -/
@[simp] theorem blockOf_none : blockOf none = 0 := rfl

/-- A pointer has its block. -/
@[simp] theorem blockOf_some (b : Block) : blockOf (some b) = {b} := rfl

/-! ### The triple -/

/-- **The triple of a program that starts with the blocks `P`.** -/
def Owns (cost : κ → ℕ) (P : Multiset Block) (m : HeapM κ ε α) (Q : α → Multiset Block → Prop) :
    Prop :=
  ∀ (h : Heap κ) (F : Multiset Block), h.live = P + F →
    match m h with
    | .error (.pointer _) => False
    | .error (.program _) => True
    | .ok (a, h') => ∃ R L log, h'.live = R + L + F ∧ h'.refused = h.refused ++ log ∧
        L.card = (log.map cost).sum ∧ Q a R

/-- A program goes on with the result of its first part. -/
theorem bind_ok {m : HeapM κ ε α} {f : α → HeapM κ ε β} {h h' : Heap κ} {a : α}
    (hm : m h = .ok (a, h')) : (m >>= f) h = f a h' := by
  change (m h >>= _) = _
  rw [hm]
  rfl

/-- A program stops with its first part. -/
theorem bind_error {m : HeapM κ ε α} {f : α → HeapM κ ε β} {h : Heap κ} {e : HeapFault ε}
    (hm : m h = .error e) : (m >>= f) h = .error e := by
  change (m h >>= _) = _
  rw [hm]
  rfl

section Owns

variable {cost : κ → ℕ} {P : Multiset Block} {m : HeapM κ ε α} {f : α → HeapM κ ε β}
  {Q Q' : α → Multiset Block → Prop} {S : β → Multiset Block → Prop}

/-- A program that only returns owns what its postcondition allows. -/
theorem Owns.pure {a : α} (h : Q a P) : Owns cost P (pure a : HeapM κ ε α) Q :=
  fun g F hF => ⟨P, 0, [], by rw [add_zero]; exact hF, (List.append_nil _).symm, rfl, h⟩

/-- The postcondition can be weakened. -/
theorem Owns.mono (h : Owns cost P m Q) (hQ : ∀ a R, Q a R → Q' a R) : Owns cost P m Q' := by
  intro g F hF
  have hm := h g F hF
  split at hm
  · exact hm
  · trivial
  · obtain ⟨R, L, log, hlive, hlog, hcard, hpost⟩ := hm
    exact ⟨R, L, log, hlive, hlog, hcard, hQ _ _ hpost⟩

/-- **Sequencing.** -/
theorem Owns.bind (h : Owns cost P m Q) (hf : ∀ a R, Q a R → Owns cost R (f a) S) :
    Owns cost P (m >>= f) S := by
  intro g F hF
  have hm := h g F hF
  cases hr : m g with
  | error e =>
      rw [hr] at hm
      rw [bind_error hr]
      cases e with
      | pointer o => exact hm
      | program e => trivial
  | ok r =>
      obtain ⟨a, g'⟩ := r
      rw [hr] at hm
      obtain ⟨R, L, log, hlive, hlog, hcard, hpost⟩ := hm
      rw [bind_ok hr]
      have hnext := hf a R hpost g' (L + F) (by rw [hlive, add_assoc])
      split at hnext
      · exact hnext
      · trivial
      · obtain ⟨R', L', log', hlive', hlog', hcard', hpost'⟩ := hnext
        refine ⟨R', L' + L, log ++ log', ?_, ?_, ?_, hpost'⟩
        · rw [hlive']
          simp only [add_assoc]
        · rw [hlog', hlog, List.append_assoc]
        · rw [Multiset.card_add, hcard, hcard', List.map_append, List.sum_append, add_comm]

/-- **Framing**: what a program does not own is untouched. -/
theorem Owns.frame (h : Owns cost P m Q) (X : Multiset Block) :
    Owns cost (P + X) m fun a R => ∃ R', R = R' + X ∧ Q a R' := by
  intro g F hF
  have hm := h g (X + F) (by rw [hF, add_assoc])
  split at hm
  · exact hm
  · trivial
  · obtain ⟨R, L, log, hlive, hlog, hcard, hpost⟩ := hm
    refine ⟨R + X, L, log, ?_, hlog, hcard, R, rfl, hpost⟩
    rw [hlive, add_assoc, add_assoc, add_assoc, add_left_comm L X F]

/-- The blocks can be written in another way. -/
theorem Owns.congr {P' : Multiset Block} (h : Owns cost P m Q) (hP : P' = P) :
    Owns cost P' m Q := hP ▸ h

/-- **A request.** When it is refused, as many blocks are lost as the request costs. -/
theorem Owns.malloc {k : κ} {f : Option Block → HeapM κ ε β}
    (hsome : ∀ b, Owns cost (b ::ₘ P) (f (some b)) S)
    (hnone : ∃ R L, P = R + L ∧ L.card = cost k ∧ Owns cost R (f none) S) :
    Owns cost P (malloc k >>= f) S := by
  intro g F hF
  by_cases hgrant : g.grants 0 = true
  · rw [bind_ok (if_pos hgrant)]
    exact hsome g.next g.grant F (by rw [Heap.grant_live, Multiset.cons_add, hF])
  · obtain ⟨R, L, hP, hL, hrest⟩ := hnone
    rw [bind_ok (if_neg hgrant)]
    have hnext := hrest (g.refuse k) (L + F) (by rw [Heap.refuse_live, hF, hP, add_assoc])
    split at hnext
    · exact hnext
    · trivial
    · obtain ⟨R', L', log', hlive', hlog', hcard', hpost'⟩ := hnext
      refine ⟨R', L' + L, k :: log', ?_, ?_, ?_, hpost'⟩
      · rw [hlive']
        simp only [add_assoc]
      · rw [hlog', Heap.refuse, List.append_assoc]
        rfl
      · rw [Multiset.card_add, hcard', hL, List.map_cons, List.sum_cons, add_comm]

/-- A request that costs nothing when it is refused. -/
theorem Owns.malloc_free {k : κ} {f : Option Block → HeapM κ ε β} (hk : cost k = 0)
    (hsome : ∀ b, Owns cost (b ::ₘ P) (f (some b)) S) (hnone : Owns cost P (f none) S) :
    Owns cost P (Ownership.malloc k >>= f) S :=
  .malloc hsome ⟨P, 0, (add_zero P).symm, by rw [hk]; rfl, hnone⟩

/-- A request whose answer is looked at later. -/
theorem Owns.malloc_any {k : κ} {f : Option Block → HeapM κ ε β} (hk : cost k = 0)
    (hf : ∀ o, Owns cost (blockOf o + P) (f o) S) :
    Owns cost P (Ownership.malloc k >>= f) S :=
  .malloc_free hk (fun b => hf (some b)) ((hf none).congr (zero_add P).symm)

/-- The rule for the end of a block. -/
theorem Owns.free {b : Block} {f : Unit → HeapM κ ε β} (hf : Owns cost P (f ()) S) :
    Owns cost (b ::ₘ P) (free b >>= f) S := by
  intro g F hF
  have hmem : b ∈ g.live := by
    rw [hF]
    exact Multiset.mem_add.mpr (Or.inl (Multiset.mem_cons_self b P))
  rw [bind_ok (if_pos hmem)]
  exact hf (g.release b) F (by
    rw [Heap.release_live, hF, Multiset.cons_add, Multiset.erase_cons_head])

/-- The rule for a look into a block. -/
theorem Owns.use {b : Block} {f : Unit → HeapM κ ε β} (hb : b ∈ P) (hf : Owns cost P (f ()) S) :
    Owns cost P (use b >>= f) S := by
  intro g F hF
  have hmem : b ∈ g.live := by
    rw [hF]
    exact Multiset.mem_add.mpr (Or.inl hb)
  rw [bind_ok (if_pos hmem)]
  exact hf g F hF

/-- The rule for a pointer that has to have a block. -/
theorem Owns.deref {o : Option Block} {f : Unit → HeapM κ ε β} (hb : ∃ b ∈ P, o = some b)
    (hf : Owns cost P (f ()) S) : Owns cost P (deref o >>= f) S := by
  obtain ⟨b, hb, rfl⟩ := hb
  exact .use hb hf

/-- A program that stops with a fault of its own has nothing to answer for. -/
theorem Owns.fail {e : ε} : Owns cost P (fail e : HeapM κ ε α) Q := fun _ _ _ => trivial

/-- The rule for a computation without a heap. -/
theorem Owns.lift {r : Except ε α} (h : ∀ a, r = .ok a → Q a P) :
    Owns cost P (lift r : HeapM κ ε α) Q := by
  cases r with
  | error e => exact .fail
  | ok a => exact .pure (h a rfl)

/-- The last operation of a program is one before a program that does nothing. -/
theorem Owns.last (h : Owns cost P (m >>= Pure.pure) Q) : Owns cost P m Q := by
  rwa [bind_pure] at h

/-- The rule for the end of the block of a pointer that may be null. -/
theorem Owns.freeOpt {o : Option Block} {f : Unit → HeapM κ ε β}
    (hf : Owns cost P (f ()) S) : Owns cost (blockOf o + P) (freeOpt o >>= f) S := by
  cases o with
  | none =>
      rw [blockOf_none, zero_add]
      exact hf
  | some b =>
      rw [blockOf_some, Multiset.singleton_add]
      exact .free hf

/-- The rule for a block that is made larger: the old one is kept when it is refused. -/
theorem Owns.realloc {o : Option Block} {k : κ} {f : Option Block → HeapM κ ε β}
    (hk : cost k = 0) (hsome : ∀ b, Owns cost (b ::ₘ P) (f (some b)) S)
    (hnone : Owns cost (blockOf o + P) (f none) S) :
    Owns cost (blockOf o + P) (realloc o k >>= f) S := by
  cases o with
  | none =>
      rw [blockOf_none, zero_add] at hnone ⊢
      exact .malloc_free hk hsome hnone
  | some b =>
      rw [blockOf_some, Multiset.singleton_add] at hnone ⊢
      simp only [Ownership.realloc, bind_assoc]
      refine .use (Multiset.mem_cons_self b P) (.malloc_free hk (fun new => ?_) ?_)
      · simp only [bind_assoc, pure_bind]
        rw [Multiset.cons_swap]
        exact .free (hsome new)
      · simp only [pure_bind]
        exact hnone

/-- A request for another size, when it does not end the old block. -/
theorem Owns.reallocTo {o : Option Block} {k : κ} {size : ℕ} {f : Option Block → HeapM κ ε β}
    (hk : cost k = 0) (hsize : size = 0 → o = none)
    (hsome : ∀ b, Owns cost (b ::ₘ P) (f (some b)) S)
    (hnone : Owns cost (blockOf o + P) (f none) S) :
    Owns cost (blockOf o + P) (reallocTo o k size >>= f) S := by
  cases o with
  | none =>
      rw [Ownership.reallocTo]
      split
      · exact hnone
      · exact .realloc hk hsome hnone
  | some b =>
      rw [Ownership.reallocTo, if_neg fun hzero => Option.some_ne_none b (hsize hzero)]
      split
      · exact hnone
      · exact .realloc hk hsome hnone

/-- **Programs that lose nothing.** Without faults of its own and without costs, a program ends,
with the blocks that its postcondition allows beside those that it does not own. -/
theorem Owns.exact [IsEmpty ε] {g : Heap κ} {F : Multiset Block} (h : Owns (fun _ => 0) P m Q)
    (hF : g.live = P + F) : ∃ a g' R, m g = .ok (a, g') ∧ g'.live = R + F ∧ Q a R := by
  have hm := h g F hF
  cases hr : m g with
  | error e =>
      rw [hr] at hm
      cases e with
      | pointer o => exact hm.elim
      | program e => exact isEmptyElim e
  | ok r =>
      rw [hr] at hm
      obtain ⟨R, L, log, hlive, -, hcard, hpost⟩ := hm
      have hnone : L = 0 := by
        rw [← Multiset.card_eq_zero, hcard]
        exact List.sum_eq_zero fun n hn => (List.eq_of_mem_map_const hn)
      refine ⟨r.1, r.2, R, rfl, ?_, hpost⟩
      rw [hlive, hnone, add_zero]

end Owns

/-! ### The end of blocks -/

/-- A judgement that carries over from a program to one that first uses a block which it has,
or ends one. -/
structure Disposal (J : Multiset Block → HeapM κ ε β → Prop) : Prop where
  free : ∀ {b : Block} {P : Multiset Block} {f : Unit → HeapM κ ε β},
    J P (f ()) → J (b ::ₘ P) (Ownership.free b >>= f)
  use : ∀ {b : Block} {P : Multiset Block} {f : Unit → HeapM κ ε β},
    b ∈ P → J P (f ()) → J P (Ownership.use b >>= f)

/-- Ownership carries over from a program to one that first ends blocks. -/
theorem Owns.disposal {cost : κ → ℕ} {S : β → Multiset Block → Prop} :
    Disposal fun P (m : HeapM κ ε β) => Owns cost P m S where
  free := .free
  use := .use

/-- A pointer that may be null is freed. -/
theorem Disposal.freeOpt {J : Multiset Block → HeapM κ ε β → Prop} (hJ : Disposal J)
    {o : Option Block} {P : Multiset Block} {f : Unit → HeapM κ ε β} (hf : J P (f ())) :
    J (blockOf o + P) (Ownership.freeOpt o >>= f) := by
  cases o with
  | none =>
      rw [blockOf_none, zero_add]
      exact hf
  | some b =>
      rw [blockOf_some, Multiset.singleton_add]
      exact hJ.free hf

/-- A pointer that is not null is followed. -/
theorem Disposal.deref {J : Multiset Block → HeapM κ ε β → Prop} (hJ : Disposal J)
    {o : Option Block} {P : Multiset Block} {f : Unit → HeapM κ ε β} (hb : ∃ b ∈ P, o = some b)
    (hf : J P (f ())) : J P (Ownership.deref o >>= f) := by
  obtain ⟨b, hb, rfl⟩ := hb
  exact hJ.use hb hf

/-- **The program misses a block**: when `x` is not live, it comes to free `x` or to follow a
pointer to it, and no bad pointer before. -/
def Misses (x : Block) (P : Multiset Block) (m : HeapM κ ε α) : Prop :=
  ∀ (h : Heap κ) (F : Multiset Block), h.live = P + F → x ∉ h.live →
    m h = .error (.pointer (some x))

/-- The block is freed a second time. -/
theorem Misses.here {x : Block} {P : Multiset Block} {f : Unit → HeapM κ ε β} :
    Misses x P (freeOpt (some x) >>= f) :=
  fun _ _ _ hx => bind_error (if_neg hx)

/-- A block that a program misses is missed after others have been ended. -/
theorem Misses.disposal (x : Block) : Disposal fun P (m : HeapM κ ε β) => Misses x P m where
  free := by
    intro b P f hf h F hF hx
    have hmem : b ∈ h.live := by
      rw [hF]
      exact Multiset.mem_add.mpr (Or.inl (Multiset.mem_cons_self b P))
    rw [bind_ok (if_pos hmem)]
    refine hf (h.release b) F ?_ fun hmem' => hx (Multiset.mem_of_mem_erase hmem')
    rw [Heap.release_live, hF, Multiset.cons_add, Multiset.erase_cons_head]
  use := by
    intro b P f hb hf h F hF hx
    have hmem : b ∈ h.live := by
      rw [hF]
      exact Multiset.mem_add.mpr (Or.inl hb)
    rw [bind_ok (if_pos hmem)]
    exact hf h F hF hx

/-! ### Loops -/

/-- The step of a program together with its heap. -/
def heapStep {σ : Type} (step : σ → HeapM κ ε σ) (x : σ × Heap κ) :
    Except (HeapFault ε) (σ × Heap κ) :=
  step x.1 x.2

/-- The heap holds the blocks `P` and has lost, since `start`, what its refusals cost; the blocks
`F` are not touched. -/
def Holds (cost : κ → ℕ) (start : Heap κ) (P F : Multiset Block) (h : Heap κ) : Prop :=
  ∃ L log, h.live = P + L + F ∧ h.refused = start.refused ++ log ∧
    L.card = (log.map cost).sum

/-- At its start a program has its blocks, and has lost none. -/
theorem holds_start {cost : κ → ℕ} {start : Heap κ} {P F : Multiset Block}
    (h : start.live = P + F) : Holds cost start P F start :=
  ⟨0, [], by rw [add_zero]; exact h, (List.append_nil _).symm, rfl⟩

/-- A step of a program that owns its blocks accounts for all of them. -/
theorem Holds.step {cost : κ → ℕ} {start h h' : Heap κ} {P F : Multiset Block}
    {m : HeapM κ ε α} {Q : α → Multiset Block → Prop} {a : α} (hold : Holds cost start P F h)
    (hm : Owns cost P m Q) (hrun : m h = .ok (a, h')) :
    ∃ R, Q a R ∧ Holds cost start R F h' := by
  obtain ⟨L, log, hlive, hlog, hcard⟩ := hold
  have hnext := hm h (L + F) (by rw [hlive, add_assoc])
  rw [hrun] at hnext
  obtain ⟨R, L', log', hlive', hlog', hcard', hpost⟩ := hnext
  refine ⟨R, hpost, L' + L, log ++ log', ?_, ?_, ?_⟩
  · rw [hlive']
    simp only [add_assoc]
  · rw [hlog', hlog, List.append_assoc]
  · rw [Multiset.card_add, hcard, hcard', List.map_append, List.sum_append, add_comm]

/-- A program that owns its blocks follows no bad pointer. -/
theorem Holds.no_fault {cost : κ → ℕ} {start h : Heap κ} {P F : Multiset Block}
    {m : HeapM κ ε α} {Q : α → Multiset Block → Prop} (hold : Holds cost start P F h)
    (hm : Owns cost P m Q) (o : Option Block) : m h ≠ .error (.pointer o) := by
  obtain ⟨L, log, hlive, -, -⟩ := hold
  intro hfault
  have hnext := hm h (L + F) (by rw [hlive, add_assoc])
  rw [hfault] at hnext
  exact hnext

/-- **Loops.** A step that keeps its blocks and an invariant owns its blocks in every state of
its runs, and meets no fault of the heap. -/
theorem Owns.run {σ : Type} {cost : κ → ℕ} {step : σ → HeapM κ ε σ}
    {blocks : σ → Multiset Block} {I : σ → Prop} {x y : σ} {start h h' : Heap κ}
    {F : Multiset Block}
    (hstep : ∀ x, I x → Owns cost (blocks x) (step x) fun y R => R = blocks y ∧ I y) (hx : I x)
    (hold : Holds cost start (blocks x) F h)
    (hrun : Run.Reaches (heapStep step) (x, h) (y, h')) :
    I y ∧ Holds cost start (blocks y) F h' ∧ ∀ o, step y h' ≠ .error (.pointer o) := by
  have hinv := hrun.invariant
    (I := fun p : σ × Heap κ => I p.1 ∧ Holds cost start (blocks p.1) F p.2)
    (fun p q hpq hp => ?_) ⟨hx, hold⟩
  · exact ⟨hinv.1, hinv.2, hinv.2.no_fault (hstep y hinv.1)⟩
  · obtain ⟨R, ⟨rfl, hI⟩, hold⟩ := hp.2.step (hstep p.1 hp.1) hpq
    exact ⟨hI, hold⟩

/-! ### Heaps that refuse nothing -/

/-- On a heap that refuses nothing the program returns what the computation does, as far as `S`
can tell. -/
def Refines (m : HeapM κ ε α) (r : Except ε β) (S : α → β → Prop) : Prop :=
  ∀ h : Heap κ, (∀ k, h.grants k = true) →
    match m h with
    | .error (.pointer _) => True
    | .error (.program e) => r = .error e
    | .ok (a, h') =>
        (∀ k, h'.grants k = true) ∧ h'.refused = h.refused ∧ ∃ b, r = .ok b ∧ S a b

section Refines

variable {γ δ : Type} {m : HeapM κ ε α} {r : Except ε β} {S : α → β → Prop}
  {f : α → HeapM κ ε γ} {g : β → Except ε δ} {T : γ → δ → Prop}

/-- A result that is related to the other one. -/
theorem Refines.pure {a : α} {b : β} (h : S a b) :
    Refines (pure a : HeapM κ ε α) (.ok b) S := fun _ hg => ⟨hg, rfl, b, rfl, h⟩

/-- Both stop with the same fault. -/
theorem Refines.fail {e : ε} : Refines (fail e : HeapM κ ε α) (.error e : Except ε β) S :=
  fun _ _ => rfl

/-- The rule for one part after another. -/
theorem Refines.bind (h : Refines m r S) (hf : ∀ a b, S a b → Refines (f a) (g b) T) :
    Refines (m >>= f) (r >>= g) T := by
  intro k hk
  have hm := h k hk
  cases hr : m k with
  | error e =>
      rw [hr] at hm
      rw [bind_error hr]
      cases e with
      | pointer o => trivial
      | program e =>
          rw [hm]
          rfl
  | ok p =>
      rw [hr] at hm
      obtain ⟨hk', hlog, b, rfl, hS⟩ := hm
      rw [bind_ok hr]
      have hnext := hf p.1 b hS p.2 hk'
      rw [hlog] at hnext
      exact hnext

/-- What follows has no counterpart of its own. -/
theorem Refines.andThen {T : γ → β → Prop} (h : Refines m r S)
    (hf : ∀ a b, S a b → Refines (f a) (.ok b) T) : Refines (m >>= f) r T := by
  have hbind := h.bind hf
  cases r with
  | error e => exact hbind
  | ok b => exact hbind

/-- A weaker postcondition, of what the computation returns. -/
theorem Refines.mono {S' : α → β → Prop} (h : Refines m r S)
    (hS : ∀ a b, r = .ok b → S a b → S' a b) : Refines m r S' := by
  intro k hk
  have hm := h k hk
  split at hm
  · trivial
  · exact hm
  · obtain ⟨hk', hlog, b, hr, hpost⟩ := hm
    exact ⟨hk', hlog, b, hr, hS _ b hr hpost⟩

/-- A request has no counterpart, and is granted. -/
theorem Refines.malloc {k : κ} {f : Option Block → HeapM κ ε γ} {r : Except ε δ}
    (hf : ∀ b, Refines (f (some b)) r T) : Refines (malloc k >>= f) r T := by
  intro h hg
  rw [bind_ok (if_pos (hg 0))]
  exact hf h.next h.grant fun k => hg (k + 1)

/-- The end of a block has no part in the other program. -/
theorem Refines.free {b : Block} {f : Unit → HeapM κ ε γ} {r : Except ε δ}
    (hf : Refines (f ()) r T) : Refines (free b >>= f) r T := by
  intro h hg
  by_cases hmem : b ∈ h.live
  · rw [bind_ok (if_pos hmem)]
    exact hf (h.release b) hg
  · rw [bind_error (if_neg hmem)]
    trivial

/-- A look into a block has no part in the other program. -/
theorem Refines.use {b : Block} {f : Unit → HeapM κ ε γ} {r : Except ε δ}
    (hf : Refines (f ()) r T) : Refines (use b >>= f) r T := by
  intro h hg
  by_cases hmem : b ∈ h.live
  · rw [bind_ok (if_pos hmem)]
    exact hf h hg
  · rw [bind_error (if_neg hmem)]
    trivial

/-- Nor has one through a pointer that may be null. -/
theorem Refines.deref {o : Option Block} {f : Unit → HeapM κ ε γ} {r : Except ε δ}
    (hf : Refines (f ()) r T) : Refines (deref o >>= f) r T := by
  cases o with
  | none => exact fun _ _ => trivial
  | some b => exact .use hf

/-- The end of a block through a pointer that may be null has no part in it. -/
theorem Refines.freeOpt {o : Option Block} {f : Unit → HeapM κ ε γ} {r : Except ε δ}
    (hf : Refines (f ()) r T) : Refines (freeOpt o >>= f) r T := by
  cases o with
  | none => exact hf
  | some b => exact .free hf

/-- On a heap that refuses nothing a block is made larger. -/
theorem Refines.realloc {o : Option Block} {k : κ} {f : Option Block → HeapM κ ε γ}
    {r : Except ε δ} (hf : ∀ b, Refines (f (some b)) r T) :
    Refines (realloc o k >>= f) r T := by
  cases o with
  | none => exact .malloc hf
  | some b =>
      simp only [Ownership.realloc, bind_assoc]
      refine .use (.malloc fun new => ?_)
      simp only [bind_assoc, pure_bind]
      exact .free (hf new)

/-- A request for a size that blocks can have. -/
theorem Refines.reallocTo {o : Option Block} {k : κ} {size : ℕ} {f : Option Block → HeapM κ ε γ}
    {r : Except ε δ} (hpos : 0 < size) (hmax : size ≤ ptrdiffMax)
    (hf : ∀ b, Refines (f (some b)) r T) : Refines (reallocTo o k size >>= f) r T := by
  cases o with
  | none =>
      rw [Ownership.reallocTo, if_neg (Nat.not_lt.mpr hmax)]
      exact .malloc hf
  | some b =>
      rw [Ownership.reallocTo, if_neg (Nat.not_lt.mpr hmax), if_neg (Nat.pos_iff_ne_zero.mp hpos)]
      exact .realloc hf

/-- The last part of a program stands for itself. -/
theorem Refines.last {T : α → δ → Prop} {r : Except ε δ}
    (h : Refines (m >>= Pure.pure) r T) : Refines m r T := by
  rwa [bind_pure] at h

/-- A computation without a heap is the same in both. -/
theorem Refines.lift {r : Except ε α} : Refines (lift r : HeapM κ ε α) r Eq := by
  cases r with
  | error e => exact .fail
  | ok a => exact .pure rfl

end Refines

/-- **Runs on a heap that refuses nothing** are runs of the computation. -/
theorem Refines.run {σ τ : Type} {step : σ → HeapM κ ε σ} {step' : τ → Except ε τ}
    {R : σ → τ → Prop} {x y : σ} {x' : τ} {start h : Heap κ}
    (hstep : ∀ x x', R x x' → Refines (step x) (step' x') R) (hx : R x x')
    (hg : ∀ k, start.grants k = true)
    (hrun : Run.Reaches (heapStep step) (x, start) (y, h)) :
    h.refused = start.refused ∧ ∃ y', Run.Reaches step' x' y' ∧ R y y' := by
  have hinv := hrun.invariant (I := fun p => (∀ k, p.2.grants k = true) ∧
    p.2.refused = start.refused ∧ ∃ z, Run.Reaches step' x' z ∧ R p.1 z) ?_
    ⟨hg, rfl, x', .refl x', hx⟩
  · exact hinv.2
  · rintro p q hpq ⟨hgrants, hlog, z, hz, hR⟩
    have hnext := hstep p.1 z hR p.2 hgrants
    have hok : step p.1 p.2 = .ok (q.1, q.2) := hpq
    rw [hok] at hnext
    obtain ⟨hgrants', hlog', z', hz', hR'⟩ := hnext
    exact ⟨hgrants', hlog'.trans hlog, z', hz.tail hz', hR'⟩

/-- Runs of the computation are runs on a heap that refuses nothing, where no fault of the heap
is met. -/
theorem Refines.exists_run {σ τ : Type} {step : σ → HeapM κ ε σ} {step' : τ → Except ε τ}
    {R : σ → τ → Prop} {x : σ} {x' y' : τ} {start : Heap κ}
    (hstep : ∀ x x', R x x' → Refines (step x) (step' x') R) (hx : R x x')
    (hg : ∀ k, start.grants k = true)
    (hsafe : ∀ y h, Run.Reaches (heapStep step) (x, start) (y, h) →
      ∀ o, step y h ≠ .error (.pointer o)) (hrun : Run.Reaches step' x' y') :
    ∃ y h, Run.Reaches (heapStep step) (x, start) (y, h) ∧ R y y' := by
  have hinv := hrun.invariant (I := fun z' => ∃ z h,
    Run.Reaches (heapStep step) (x, start) (z, h) ∧ R z z' ∧ ∀ k, h.grants k = true) ?_
    ⟨x, start, .refl _, hx, hg⟩
  · obtain ⟨y, h, hreaches, hR, -⟩ := hinv
    exact ⟨y, h, hreaches, hR⟩
  · rintro z' w' hzw ⟨z, h, hreaches, hR, hgrants⟩
    have hnext := hstep z z' hR h hgrants
    cases hr : step z h with
    | error e =>
        rw [hr] at hnext
        cases e with
        | pointer o => exact absurd hr (hsafe z h hreaches o)
        | program e => cases hzw.symm.trans hnext
    | ok q =>
        rw [hr] at hnext
        obtain ⟨hgrants', -, w, hw, hR'⟩ := hnext
        obtain rfl := Except.ok.inj (hzw.symm.trans hw)
        exact ⟨q.1, q.2, hreaches.tail hr, hR', hgrants'⟩

end Ownership
