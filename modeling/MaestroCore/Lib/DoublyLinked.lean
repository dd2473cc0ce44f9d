import Mathlib.Data.List.Induction
import Mathlib.Data.List.Nodup
import Mathlib.Logic.Function.Basic

/-!
# Doubly Linked Segments on a Heap

A heap of nodes, each of them with two links and an item. `Segment h p l n` says that the
nodes of `l` are linked to each other in the order of `l`, in both directions, and that the
links that leave the segment are `p` at its front and `n` at its back.

Segments split and join like lists, and only the nodes at their ends know what is outside.

## Main results

* `segment_append`: a segment is two segments that are linked to each other.
* `Segment.setNext` and `Segment.setPrev`: writing the link at one end.
* `Segment.followsNext` and `Segment.followsPrev`: the links lead through the segment, from
  either end.
-/

namespace DoublyLinked

/-- A node with its links, `none` for a link that leads nowhere. -/
structure Node (α β : Type*) where
  prev : Option α
  next : Option α
  item : β
  deriving DecidableEq, Repr

/-- What lies at every address. -/
abbrev Heap (α β : Type*) := α → Option (Node α β)

variable {α β : Type*} {h h' : Heap α β} {p p' n n' : Option α} {l l₁ l₂ : List (α × β)}

/-- The address of the first node, or else the given link. -/
def firstOr : List (α × β) → Option α → Option α
  | [], n => n
  | (a, _) :: _, _ => some a

/-- The address of the last node, or else the given link. -/
def lastOr : List (α × β) → Option α → Option α
  | [], p => p
  | (a, _) :: l, _ => lastOr l (some a)

/-- The nodes of the list are linked in its order, between the two links. -/
def Segment (h : Heap α β) : Option α → List (α × β) → Option α → Prop
  | _, [], _ => True
  | p, (a, x) :: l, n => h a = some ⟨p, firstOr l n, x⟩ ∧ Segment h (some a) l n

/-- The first node of two segments is that of the first segment, or of the second when the first is
empty. -/
@[simp] theorem firstOr_append (l₁ l₂ : List (α × β)) (n : Option α) :
    firstOr (l₁ ++ l₂) n = firstOr l₁ (firstOr l₂ n) := by
  cases l₁ <;> rfl

/-- The last node of two segments is that of the second segment, or of the first when the second is
empty. -/
@[simp] theorem lastOr_append (l₁ l₂ : List (α × β)) (p : Option α) :
    lastOr (l₁ ++ l₂) p = lastOr l₂ (lastOr l₁ p) := by
  induction l₁ generalizing p with
  | nil => rfl
  | cons x l ih => exact ih (some x.1)

/-- A list that is not empty has a last node, whatever the link. -/
theorem lastOr_cons_mem (x : α × β) (l : List (α × β)) (p : Option α) :
    ∃ a ∈ (x :: l).map Prod.fst, lastOr (x :: l) p = some a := by
  induction l generalizing x p with
  | nil => exact ⟨x.1, List.mem_singleton_self _, rfl⟩
  | cons y l ih =>
      obtain ⟨a, ha, heq⟩ := ih y (some x.1)
      exact ⟨a, List.mem_cons_of_mem _ ha, heq⟩

/-- The address of the last node is one of the list. -/
theorem mem_of_lastOr {a : α} (ha : lastOr l none = some a) : a ∈ l.map Prod.fst := by
  cases l with
  | nil => cases ha
  | cons x l =>
      obtain ⟨b, hb, heq⟩ := lastOr_cons_mem x l none
      rw [heq] at ha
      exact Option.some.inj ha ▸ hb

/-- A segment's first node is one of its nodes. -/
theorem mem_of_firstOr {a : α} (ha : firstOr l none = some a) : a ∈ l.map Prod.fst := by
  cases l with
  | nil => cases ha
  | cons x l => exact Option.some.inj ha ▸ List.mem_cons_self

/-- Only the empty segment has no last node. -/
theorem lastOr_eq_none_iff : lastOr l none = none ↔ l = [] := by
  cases l with
  | nil => exact ⟨fun _ => rfl, fun _ => rfl⟩
  | cons x l =>
      obtain ⟨a, -, ha⟩ := lastOr_cons_mem x l none
      simp [ha]

/-- **A segment is two segments that are linked to each other.** -/
theorem segment_append :
    Segment h p (l₁ ++ l₂) n ↔ Segment h p l₁ (firstOr l₂ n) ∧ Segment h (lastOr l₁ p) l₂ n := by
  induction l₁ generalizing p with
  | nil => exact iff_and_self.mpr fun _ => trivial
  | cons x l ih =>
      simp only [List.cons_append, Segment, firstOr_append, ih, lastOr, and_assoc]

/-- Every node of the segment is in the heap. -/
theorem Segment.exists_node (hseg : Segment h p l n) {a : α} (ha : a ∈ l.map Prod.fst) :
    ∃ node, h a = some node := by
  induction l generalizing p with
  | nil => cases ha
  | cons x l ih =>
      rcases List.mem_cons.mp ha with rfl | ha
      · exact ⟨_, hseg.1⟩
      · exact ih hseg.2 ha

/-- The backward link of the first node leaves the segment. -/
theorem Segment.prev_first (hseg : Segment h p l n) {a : α} (ha : firstOr l none = some a) :
    ∃ node, h a = some node ∧ node.prev = p := by
  cases l with
  | nil => cases ha
  | cons x l =>
      obtain rfl : x.1 = a := Option.some.inj ha
      exact ⟨_, hseg.1, rfl⟩

/-- The forward link of the last node leaves the segment. -/
theorem Segment.next_last (hseg : Segment h p l n) {a : α} (ha : lastOr l none = some a) :
    ∃ node, h a = some node ∧ node.next = n := by
  rcases List.eq_nil_or_concat l with rfl | ⟨l, x, rfl⟩
  · cases ha
  · rw [List.concat_eq_append] at *
    rw [lastOr_append] at ha
    obtain rfl : x.1 = a := Option.some.inj ha
    exact ⟨_, (segment_append.mp hseg).2.1, rfl⟩

/-- Only the nodes of the segment matter. -/
theorem Segment.congr (hseg : Segment h p l n) (hsame : ∀ a ∈ l.map Prod.fst, h' a = h a) :
    Segment h' p l n := by
  induction l generalizing p with
  | nil => trivial
  | cons x l ih =>
      refine ⟨?_, ih hseg.2 fun a ha => hsame a (List.mem_cons_of_mem _ ha)⟩
      rw [hsame x.1 List.mem_cons_self]
      exact hseg.1

/-! ### Writing a link -/

section Links

variable [DecidableEq α]

/-- Write the forward link of a node, if there is one. -/
def setNext (h : Heap α β) (a : Option α) (n : Option α) : Heap α β :=
  match a with
  | none => h
  | some a => Function.update h a ((h a).map fun node => { node with next := n })

/-- Write the backward link of a node, if there is one. -/
def setPrev (h : Heap α β) (a : Option α) (p : Option α) : Heap α β :=
  match a with
  | none => h
  | some a => Function.update h a ((h a).map fun node => { node with prev := p })

/-- Setting one node's `next` leaves the other nodes as they were. -/
theorem setNext_of_ne {a : Option α} {b : α} (hb : a ≠ some b) : setNext h a n b = h b := by
  cases a with
  | none => rfl
  | some a => exact Function.update_of_ne (fun hab => hb (by rw [hab])) _ _

/-- Setting one node's `prev` leaves the other nodes as they were. -/
theorem setPrev_of_ne {a : Option α} {b : α} (hb : a ≠ some b) : setPrev h a p b = h b := by
  cases a with
  | none => rfl
  | some a => exact Function.update_of_ne (fun hab => hb (by rw [hab])) _ _

/-- Writing the forward link at the end of a segment. -/
theorem Segment.setNext (hseg : Segment h p l n) (hnodup : (l.map Prod.fst).Nodup) :
    Segment (setNext h (lastOr l none) n') p l n' := by
  rcases List.eq_nil_or_concat l with rfl | ⟨l, x, rfl⟩
  · trivial
  · rw [List.concat_eq_append] at *
    rw [segment_append] at hseg ⊢
    rw [List.map_append, List.nodup_append] at hnodup
    have hlast : lastOr (l ++ [x]) none = some x.1 := by rw [lastOr_append]; rfl
    rw [hlast]
    refine ⟨hseg.1.congr fun a ha => setNext_of_ne ?_, ?_, trivial⟩
    · intro hx
      exact hnodup.2.2 a ha x.1 (List.mem_singleton_self _) (Option.some.inj hx).symm
    · simp only [DoublyLinked.setNext, Function.update_self, hseg.2.1, Option.map_some]
      rfl

/-- Writing the backward link at the front of a segment. -/
theorem Segment.setPrev (hseg : Segment h p l n) (hnodup : (l.map Prod.fst).Nodup) :
    Segment (setPrev h (firstOr l none) p') p' l n := by
  cases l with
  | nil => trivial
  | cons x l =>
      rw [List.map_cons, List.nodup_cons] at hnodup
      refine ⟨?_, hseg.2.congr fun a ha => setPrev_of_ne ?_⟩
      · simp only [firstOr, DoublyLinked.setPrev, Function.update_self, hseg.1, Option.map_some]
      · intro hx
        exact hnodup.1 (Option.some.inj hx ▸ ha)

end Links

/-! ### Following the links -/

/-- Following the forward links from an address gives the nodes of the list, and ends. -/
inductive FollowsNext (h : Heap α β) : Option α → List (α × β) → Prop
  | nil : FollowsNext h none []
  | cons {a : α} {node : Node α β} {l : List (α × β)} (hnode : h a = some node)
      (hl : FollowsNext h node.next l) : FollowsNext h (some a) ((a, node.item) :: l)

/-- Following the backward links. -/
inductive FollowsPrev (h : Heap α β) : Option α → List (α × β) → Prop
  | nil : FollowsPrev h none []
  | cons {a : α} {node : Node α β} {l : List (α × β)} (hnode : h a = some node)
      (hl : FollowsPrev h node.prev l) : FollowsPrev h (some a) ((a, node.item) :: l)

/-- **The forward links lead through the segment.** -/
theorem Segment.followsNext (hseg : Segment h p l none) :
    FollowsNext h (firstOr l none) l := by
  induction l generalizing p with
  | nil => exact .nil
  | cons x l ih => exact .cons hseg.1 (ih hseg.2)

/-- **The backward links lead through the segment the other way.** -/
theorem Segment.followsPrev (hseg : Segment h none l n) :
    FollowsPrev h (lastOr l none) l.reverse := by
  induction l using List.reverseRecOn generalizing n with
  | nil => exact .nil
  | append_singleton l x ih =>
      rw [segment_append] at hseg
      rw [lastOr_append, List.reverse_append]
      exact .cons hseg.2.1 (ih hseg.1)

end DoublyLinked
