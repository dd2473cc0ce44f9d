import Mathlib.Algebra.Group.Nat.Defs
import MaestroCore.Lib.DoublyLinked
import MaestroCore.Lib.Run

/-!
# The Doubly Linked List

`linked_list.c` on an explicit heap of nodes. `malloc` gives an address at which there is
nothing, possibly one that was freed before, and a read or a write through a pointer to which
there is no node is a fault. `count` is an `unsigned int`.

The list represents a sequence of nodes with their items: an item is added at its end, and a
node is removed wherever it stands.

## Main results

* `Sequence.add` and `Sequence.remove`: the two operations do not fault, and do to the
  sequence what their names say.
* `Sequence.dispose`: the loop of `linked_list_items_dispose` ends with the empty list.
* `linked_list_refines_sequence`: this holds of every list after any sequence of calls.
-/

open Run DoublyLinked

namespace MaestroCore

/-- A read or write through a pointer to which there is no node. -/
inductive PointerFault
  | dangling
  deriving DecidableEq, Repr

/-- `Linked_List`, with the heap in which its nodes lie. -/
structure LinkedList (α β : Type) where
  head : Option α
  tail : Option α
  count : ℕ
  heap : Heap α β

section LinkedList

variable {α β : Type} [DecidableEq α]

/-- The node behind a pointer. -/
def loadItem (heap : Heap α β) (a : α) : Except PointerFault (Node α β) :=
  match heap a with
  | some node => .ok node
  | none => .error .dangling

/-- `linked_list_create`. -/
def linkedListCreate (heap : Heap α β) : LinkedList α β where
  head := none
  tail := none
  count := 0
  heap := heap

/-- `linked_list_item_add`, where `malloc` returns the address `new`. -/
def linkedListItemAdd (s : LinkedList α β) (new : α) (item : β) :
    Except PointerFault (LinkedList α β) :=
  match s.tail with
  | none =>
      .ok {
        head := some new
        tail := some new
        count := (s.count + 1) % 2 ^ 32
        heap := Function.update s.heap new (some ⟨none, none, item⟩) }
  | some t => do
      let heap := Function.update s.heap new (some ⟨some t, none, item⟩)
      let last ← loadItem heap t
      .ok {
        head := s.head
        tail := some new
        count := (s.count + 1) % 2 ^ 32
        heap := Function.update heap t (some { last with next := some new }) }

/-- `free(_Item)` and `_List->count--`. -/
def LinkedList.freeItem (s : LinkedList α β) (a : α) : LinkedList α β :=
  { s with heap := Function.update s.heap a none, count := (s.count + (2 ^ 32 - 1)) % 2 ^ 32 }

/-- `linked_list_item_remove`. -/
def linkedListItemRemove (s : LinkedList α β) (a : α) : Except PointerFault (LinkedList α β) := do
  let node ← loadItem s.heap a
  match node.prev, node.next with
  | none, none => .ok ({ s with head := none, tail := none }.freeItem a)
  | none, some n => do
      let next ← loadItem s.heap n
      .ok ({ s with
        head := some n
        heap := Function.update s.heap n (some { next with prev := none }) }.freeItem a)
  | some p, none => do
      let prev ← loadItem s.heap p
      .ok ({ s with
        tail := some p
        heap := Function.update s.heap p (some { prev with next := none }) }.freeItem a)
  | some p, some n => do
      let prev ← loadItem s.heap p
      let heap := Function.update s.heap p (some { prev with next := some n })
      let next ← loadItem heap n
      .ok ({ s with
        heap := Function.update heap n (some { next with prev := some p }) }.freeItem a)

/-- One iteration of the loop of `linked_list_items_dispose`; it stays where it ends. -/
def linkedListDisposeStep (s : LinkedList α β) : Except PointerFault (LinkedList α β) :=
  match s.head with
  | none => .ok s
  | some a => linkedListItemRemove s a

/-! ### Sequences -/

/-- The list represents the sequence of nodes and items. -/
structure Sequence (s : LinkedList α β) (l : List (α × β)) : Prop where
  segment : Segment s.heap none l none
  nodup : (l.map Prod.fst).Nodup
  head : s.head = firstOr l none
  tail : s.tail = lastOr l none
  short : l.length < 2 ^ 32
  count : s.count = l.length

variable {s s' : LinkedList α β} {l l₁ l₂ : List (α × β)} {a : α} {x : β}

omit [DecidableEq α] in
/-- A new list holds the empty sequence. -/
theorem sequence_create (heap : Heap α β) : Sequence (linkedListCreate heap) [] :=
  ⟨trivial, List.nodup_nil, rfl, rfl, Nat.two_pow_pos 32, rfl⟩

/-- Adding an item links its node behind the last one. -/
theorem itemAdd_eq (h : Sequence s l) (ha : s.heap a = none) :
    linkedListItemAdd s a x = .ok {
      head := firstOr (l ++ [(a, x)]) none
      tail := some a
      count := (s.count + 1) % 2 ^ 32
      heap := setNext (Function.update s.heap a (some ⟨lastOr l none, none, x⟩)) (lastOr l none)
        (some a) } := by
  rw [linkedListItemAdd, h.tail, h.head]
  cases hlast : lastOr l none with
  | none =>
      rw [lastOr_eq_none_iff.mp hlast]
      rfl
  | some t =>
      obtain ⟨node, hnode⟩ := h.segment.exists_node (mem_of_lastOr hlast)
      have hne : t ≠ a := by
        rintro rfl
        rw [ha] at hnode
        cases hnode
      have hfirst : firstOr (l ++ [(a, x)]) none = firstOr l none := by
        cases l with
        | nil => cases hlast
        | cons y l => rfl
      simp only [loadItem, Function.update_of_ne hne, hnode, hfirst, setNext, Option.map_some]
      rfl

/-- **An item is added at the end of the sequence.** -/
theorem Sequence.add (h : Sequence s l) (ha : s.heap a = none) (hshort : l.length + 1 < 2 ^ 32) :
    ∃ s', linkedListItemAdd s a x = .ok s' ∧ Sequence s' (l ++ [(a, x)]) := by
  have hfresh : a ∉ l.map Prod.fst := by
    intro hmem
    obtain ⟨node, hnode⟩ := h.segment.exists_node hmem
    rw [ha] at hnode
    cases hnode
  refine ⟨_, itemAdd_eq h ha, ?_, ?_, rfl, ?_, by simpa using hshort, ?_⟩
  · rw [segment_append]
    refine ⟨?_, ?_, trivial⟩
    · refine Segment.setNext (n := none) (h.segment.congr ?_) h.nodup
      intro b hb
      have hba : b ≠ a := by
        rintro rfl
        exact hfresh hb
      exact Function.update_of_ne hba _ _
    · have hlast : lastOr l none ≠ some a := fun hlast => hfresh (mem_of_lastOr hlast)
      exact (setNext_of_ne hlast).trans (Function.update_self _ _ _)
  · rw [List.map_append, List.nodup_append]
    refine ⟨h.nodup, List.nodup_singleton _, ?_⟩
    rintro b hb c hc rfl
    obtain rfl : b = a := List.mem_singleton.mp hc
    exact hfresh hb
  · rw [lastOr_append]
    rfl
  · rw [h.count, List.length_append, List.length_singleton, Nat.mod_eq_of_lt hshort]

/-- Removing a node links its two neighbours, as far as it has them. -/
theorem itemRemove_eq {p n : Option α} (ha : s.heap a = some ⟨p, n, x⟩)
    (hp : ∀ b, p = some b → ∃ node, s.heap b = some node)
    (hn : ∀ b, n = some b → ∃ node, s.heap b = some node) :
    linkedListItemRemove s a = .ok {
      head := if p = none then n else s.head
      tail := if n = none then p else s.tail
      count := (s.count + (2 ^ 32 - 1)) % 2 ^ 32
      heap := Function.update (setPrev (setNext s.heap p n) n p) a none } := by
  have hload : loadItem s.heap a = .ok ⟨p, n, x⟩ := by rw [loadItem, ha]
  rw [linkedListItemRemove, hload]
  cases p with
  | none =>
      cases n with
      | none => rfl
      | some n =>
          obtain ⟨next, hnext⟩ := hn n rfl
          simp only [bind, Except.bind, loadItem, hnext, setNext, setPrev, Option.map_some]
          rfl
  | some p =>
      obtain ⟨prev, hprev⟩ := hp p rfl
      cases n with
      | none =>
          simp only [bind, Except.bind, loadItem, hprev, setNext, setPrev, Option.map_some]
          rfl
      | some n =>
          obtain ⟨next, hnext⟩ := hn n rfl
          obtain ⟨next', hnext'⟩ : ∃ next', Function.update s.heap p
              (some { prev with next := some n }) n = some next' := by
            by_cases hnp : n = p
            · subst hnp
              exact ⟨_, Function.update_self _ _ _⟩
            · exact ⟨next, (Function.update_of_ne hnp _ _).trans hnext⟩
          simp only [bind, Except.bind, loadItem, hprev, hnext', setNext, setPrev, Option.map_some]
          rfl

/-- **A node is removed from the sequence, wherever it stands.** -/
theorem Sequence.remove (h : Sequence s (l₁ ++ (a, x) :: l₂)) :
    ∃ s', linkedListItemRemove s a = .ok s' ∧ Sequence s' (l₁ ++ l₂) := by
  obtain ⟨hseg₁, hnode, hseg₂⟩ := segment_append.mp h.segment
  have hnodup := h.nodup
  rw [List.map_append, List.map_cons, List.nodup_append, List.nodup_cons] at hnodup
  obtain ⟨hnodup₁, ⟨ha₂, hnodup₂⟩, hdisjoint⟩ := hnodup
  have ha₁ : a ∉ l₁.map Prod.fst := fun hmem => hdisjoint a hmem a List.mem_cons_self rfl
  have hp₂ : ∀ b ∈ l₂.map Prod.fst, lastOr l₁ none ≠ some b := fun b hb hlast =>
    hdisjoint b (mem_of_lastOr hlast) b (List.mem_cons_of_mem _ hb) rfl
  have hn₁ : ∀ b ∈ l₁.map Prod.fst, firstOr l₂ none ≠ some b := fun b hb hfirst =>
    hdisjoint b hb b (List.mem_cons_of_mem _ (mem_of_firstOr hfirst)) rfl
  have hfree : ∀ {heap : Heap α β} {b : α}, b ≠ a → Function.update heap a none b = heap b :=
    fun hb => Function.update_of_ne hb _ _
  refine ⟨_, itemRemove_eq hnode (fun b hb => hseg₁.exists_node (mem_of_lastOr hb))
    (fun b hb => hseg₂.exists_node (mem_of_firstOr hb)), ?_, ?_, ?_, ?_, ?_, ?_⟩
  · rw [segment_append]
    constructor
    · have hlink : Segment (setNext s.heap (lastOr l₁ none) (firstOr l₂ none)) none l₁
          (firstOr l₂ none) := hseg₁.setNext hnodup₁
      refine hlink.congr fun b hb => (hfree ?_).trans (setPrev_of_ne (hn₁ b hb))
      rintro rfl
      exact ha₁ hb
    · have hframe : Segment (setNext s.heap (lastOr l₁ none) (firstOr l₂ none)) (some a) l₂ none :=
        hseg₂.congr fun b hb => setNext_of_ne (hp₂ b hb)
      have hlink : Segment (setPrev (setNext s.heap (lastOr l₁ none) (firstOr l₂ none))
          (firstOr l₂ none) (lastOr l₁ none)) (lastOr l₁ none) l₂ none := hframe.setPrev hnodup₂
      refine hlink.congr fun b hb => hfree ?_
      rintro rfl
      exact ha₂ hb
  · rw [List.map_append, List.nodup_append]
    exact ⟨hnodup₁, hnodup₂, fun b hb c hc => hdisjoint b hb c (List.mem_cons_of_mem _ hc)⟩
  · rw [h.head]
    cases l₁ with
    | nil => rfl
    | cons y l₁ =>
        rw [if_neg fun hnone => List.cons_ne_nil y l₁ (lastOr_eq_none_iff.mp hnone)]
        rfl
  · rw [h.tail, lastOr_append, lastOr_append]
    cases l₂ with
    | nil => rfl
    | cons y l₂ => rfl
  · have hlength := h.short
    rw [List.length_append, List.length_cons] at hlength
    rw [List.length_append]
    omega
  · have hlength := h.short
    have hcount := h.count
    rw [List.length_append, List.length_cons] at hlength hcount
    rw [List.length_append]
    change (s.count + (2 ^ 32 - 1)) % 2 ^ 32 = l₁.length + l₂.length
    omega

/-- **The loop of `linked_list_items_dispose` ends with the empty list.** -/
theorem Sequence.dispose (h : Sequence s l) :
    ∃ s', Reaches linkedListDisposeStep s s' ∧ s'.head = none ∧ Sequence s' [] := by
  induction l generalizing s with
  | nil => exact ⟨s, .refl s, h.head, h⟩
  | cons y l ih =>
      obtain ⟨s₁, hremove, hs₁⟩ :
          ∃ s₁, linkedListItemRemove s y.1 = .ok s₁ ∧ Sequence s₁ ([] ++ l) :=
        Sequence.remove h
      obtain ⟨s', hreaches, hhead, hs'⟩ := ih hs₁
      have hstep : linkedListDisposeStep s = .ok s₁ := by
        rw [linkedListDisposeStep, h.head]
        exact hremove
      exact ⟨s', .head hstep hreaches, hhead, hs'⟩

/-! ### Runs of the list -/

/-- One call, with what it does to the sequence: `linked_list_item_add` on a list of fewer than
`2 ^ 32 - 1` items, with an address that `malloc` may return; `linked_list_item_remove` of a
node in the list; or `linked_list_items_dispose`, up to where its loop ends. -/
inductive ListStep :
    LinkedList α β × List (α × β) → LinkedList α β × List (α × β) → Prop
  | added {s s' : LinkedList α β} {l : List (α × β)} {a : α} {x : β} (hfresh : s.heap a = none)
      (hshort : l.length + 1 < 2 ^ 32) (hadd : linkedListItemAdd s a x = .ok s') :
      ListStep (s, l) (s', l ++ [(a, x)])
  | removed {s s' : LinkedList α β} {l : List (α × β)} {a : α} (hmem : a ∈ l.map Prod.fst)
      (hremove : linkedListItemRemove s a = .ok s') :
      ListStep (s, l) (s', l.filter fun y => y.1 ≠ a)
  | disposed {s s' : LinkedList α β} {l : List (α × β)}
      (hreaches : Reaches linkedListDisposeStep s s') (hhead : s'.head = none) :
      ListStep (s, l) (s', [])

/-- Deleting a node from a sequence without duplicates leaves what is on both its sides. -/
theorem filter_ne_eq_append (hnodup : ((l₁ ++ (a, x) :: l₂).map Prod.fst).Nodup) :
    ((l₁ ++ (a, x) :: l₂).filter fun y => y.1 ≠ a) = l₁ ++ l₂ := by
  rw [List.map_append, List.map_cons, List.nodup_append, List.nodup_cons] at hnodup
  obtain ⟨-, ⟨ha₂, -⟩, hdisjoint⟩ := hnodup
  have hside : ∀ l : List (α × β), a ∉ l.map Prod.fst → (l.filter fun y => y.1 ≠ a) = l := by
    intro l ha
    refine List.filter_eq_self.mpr fun y hy => decide_eq_true ?_
    rintro rfl
    exact ha (List.mem_map_of_mem hy)
  rw [List.filter_append, List.filter_cons_of_neg (by simp), hside l₂ ha₂, hside l₁]
  exact fun hmem => hdisjoint a hmem a List.mem_cons_self rfl

/-- A node of the list is removed, and the sequence loses it. -/
theorem Sequence.remove_mem (h : Sequence s l) (ha : a ∈ l.map Prod.fst) :
    ∃ s', linkedListItemRemove s a = .ok s' ∧ Sequence s' (l.filter fun y => y.1 ≠ a) := by
  obtain ⟨⟨b, x⟩, hmem, rfl⟩ := List.mem_map.mp ha
  obtain ⟨l₁, l₂, rfl⟩ := List.append_of_mem hmem
  rw [filter_ne_eq_append h.nodup]
  exact h.remove

/-- **Every call keeps the list and the sequence together.** -/
theorem ListStep.sequence {p q : LinkedList α β × List (α × β)} (h : ListStep p q)
    (hp : Sequence p.1 p.2) : Sequence q.1 q.2 := by
  cases h with
  | added hfresh hshort hadd =>
      obtain ⟨s', hs', hseq⟩ := hp.add hfresh hshort
      obtain rfl : s' = _ := Except.ok.inj (hs'.symm.trans hadd)
      exact hseq
  | removed hmem hremove =>
      obtain ⟨s', hs', hseq⟩ := hp.remove_mem hmem
      obtain rfl : s' = _ := Except.ok.inj (hs'.symm.trans hremove)
      exact hseq
  | @disposed _ s₂ _ hreaches hhead =>
      -- both states are where the loop ends, so they are one state
      obtain ⟨s', hs', hhead', hseq⟩ := hp.dispose
      have hfix : linkedListDisposeStep s' = .ok s' := by rw [linkedListDisposeStep, hhead']
      have hfix₂ : linkedListDisposeStep s₂ = .ok s₂ := by rw [linkedListDisposeStep, hhead]
      obtain rfl : s' = s₂ := (hs'.to_fixed hfix hreaches).eq_of_fixed hfix₂
      exact hseq

/-- **The doubly linked list refines a sequence.** After any calls on a list from
`linked_list_create`, following `next` from the head gives the sequence that the calls made, and
following `prev` from the tail gives it in the opposite order; nothing comes before the head or
after the tail; `count` is the length; and no further call faults: an item can be added, every
node of the list removed, and the loop of `linked_list_items_dispose` ends with the empty
list. -/
theorem linked_list_refines_sequence (heap : Heap α β) (s : LinkedList α β) (l : List (α × β))
    (h : Relation.ReflTransGen ListStep (linkedListCreate heap, []) (s, l)) :
    FollowsNext s.heap s.head l ∧ FollowsPrev s.heap s.tail l.reverse ∧
    (∀ a, s.head = some a → ∃ node, s.heap a = some node ∧ node.prev = none) ∧
    (∀ a, s.tail = some a → ∃ node, s.heap a = some node ∧ node.next = none) ∧
    s.count = l.length ∧
    (∀ a x, s.heap a = none → l.length + 1 < 2 ^ 32 →
      ∃ s', linkedListItemAdd s a x = .ok s') ∧
    (∀ a ∈ l.map Prod.fst, ∃ s', linkedListItemRemove s a = .ok s') ∧
    ∃ s', Reaches linkedListDisposeStep s s' ∧ s'.head = none ∧ s'.tail = none ∧
      s'.count = 0 := by
  have hseq : Sequence s l :=
    run_invariant (I := fun p => Sequence p.1 p.2) (fun _ _ hstep => hstep.sequence) h
      (sequence_create heap)
  refine ⟨?_, ?_, fun a ha => ?_, fun a ha => ?_, hseq.count, fun a x ha hshort => ?_,
    fun a ha => ?_, ?_⟩
  · rw [hseq.head]
    exact hseq.segment.followsNext
  · rw [hseq.tail]
    exact hseq.segment.followsPrev
  · exact hseq.segment.prev_first (hseq.head.symm.trans ha)
  · exact hseq.segment.next_last (hseq.tail.symm.trans ha)
  · obtain ⟨s', hs', -⟩ := hseq.add (x := x) ha hshort
    exact ⟨s', hs'⟩
  · obtain ⟨s', hs', -⟩ := hseq.remove_mem ha
    exact ⟨s', hs'⟩
  · obtain ⟨s', hs', hhead, hempty⟩ := hseq.dispose
    exact ⟨s', hs', hhead, hempty.tail, hempty.count⟩

end LinkedList

/-- Two items are added at the addresses 0 and 1, and the first node is removed. -/
theorem twoItems_remaining : ∃ s : LinkedList ℕ ℕ,
    FollowsNext s.heap s.head [(1, 8)] ∧ FollowsPrev s.heap s.tail [(1, 8)] ∧ s.count = 1 := by
  let s₀ : LinkedList ℕ ℕ := linkedListCreate fun _ => none
  obtain ⟨s₁, hadd₁, h₁⟩ := (sequence_create (fun _ : ℕ => (none : Option (Node ℕ ℕ)))).add
    (a := 0) (x := 7) rfl (by decide)
  obtain ⟨s₂, hadd₂, h₂⟩ : ∃ s₂, linkedListItemAdd s₁ 1 8 = .ok s₂ ∧
      Sequence s₂ [(0, 7), (1, 8)] := by
    refine h₁.add ?_ (by decide)
    obtain rfl : _ = s₁ := Except.ok.inj hadd₁
    rfl
  obtain ⟨s₃, hremove, -⟩ := h₂.remove_mem (a := 0) (by decide)
  have hfresh : s₁.heap 1 = none := by
    obtain rfl : _ = s₁ := Except.ok.inj hadd₁
    rfl
  have hrun : Relation.ReflTransGen ListStep (s₀, []) (s₃, [(1, 8)]) :=
    .tail (.tail (.single (.added rfl (by decide) hadd₁)) (.added hfresh (by decide) hadd₂))
      (.removed (by decide) hremove)
  obtain ⟨hnext, hprev, -, -, hcount, -⟩ := linked_list_refines_sequence _ s₃ [(1, 8)] hrun
  exact ⟨s₃, hnext, hprev, hcount⟩

end MaestroCore
