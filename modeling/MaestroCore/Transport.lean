import MaestroCore.Lib.CLang

/-!
# The Receiving Side of the Transport

`transport_read` hands over what has arrived from the server. The server's side of a
connection is the list of its arrivals in order: non-empty segments of bytes, failed
reads with their `errno`, and the close. A read returns at most the length it asks for;
the rest of a longer segment waits for the next read. So the lists of arrivals cover
every way of cutting a stream into reads that are no longer than requested, with failed
reads anywhere in between.

A connection is abstracted to two things: `pending`, the bytes that reads can still
obtain, and `ending`, what the reader meets after them.

## Main results

* `transportRead_cases`: a read moves bytes from the front of `pending` to the reader,
  or fails for now, and meets the ending only when nothing is pending.
-/

open CLang

namespace MaestroCore

/-- The values of `errno` that the code tells apart. -/
inductive Errno
  | EAGAIN
  | EWOULDBLOCK
  | EINTR
  | EINPROGRESS
  | EALREADY
  | EISCONN
  | other (code : ℕ)
  deriving DecidableEq, Repr

/-- The failures after which the client tries again:
`errno == EAGAIN || errno == EWOULDBLOCK || errno == EINTR`. -/
def Errno.transient : Errno → Bool
  | .EAGAIN | .EWOULDBLOCK | .EINTR => true
  | _ => false

/-- A non-empty run of bytes that arrives together. -/
structure Segment where
  bytes : Bytes
  nonempty : bytes ≠ []
  deriving DecidableEq, Repr

/-- One event on the receiving side of a connection. -/
inductive Arrival
  | data (segment : Segment)
  | failure (errno : Errno)
  | closed
  deriving DecidableEq, Repr

/-- `Transport`, as far as reading goes: what is still to arrive. -/
structure Transport where
  incoming : List Arrival
  deriving DecidableEq, Repr

/-- What `transport_read` returns: a positive count with the bytes, `0`, or a negative
value with `errno` set. -/
inductive ReadResult
  | bytes (b : Bytes)
  | zero
  | failed (errno : Errno)
  deriving DecidableEq, Repr

/-- What is left to arrive when the first `len` bytes of a segment have been read. -/
def leftover (b : Bytes) (len : ℕ) (later : List Arrival) : List Arrival :=
  if h : b.drop len = [] then later else .data ⟨b.drop len, h⟩ :: later

/-- `transport_read`. A closed connection stays closed, and a connection on which nothing
more arrives would block. -/
def transportRead (t : Transport) (len : ℕ) : ReadResult × Transport :=
  match t.incoming with
  | [] => (.failed .EAGAIN, t)
  | .closed :: _ => (.zero, t)
  | .failure e :: later => (.failed e, ⟨later⟩)
  | .data s :: later => (.bytes (s.bytes.take len), ⟨leftover s.bytes len later⟩)

/-! ### The abstract connection -/

/-- How a connection ends once its bytes are read. -/
inductive Ending
  /-- Nothing more arrives. -/
  | idle
  /-- The server has closed the connection. -/
  | closed
  /-- Reading fails for good. -/
  | broken
  deriving DecidableEq, Repr

/-- The bytes that arrive before the connection ends. -/
def pendingOf : List Arrival → Bytes
  | [] => []
  | .data s :: later => s.bytes ++ pendingOf later
  | .failure e :: later => if e.transient then pendingOf later else []
  | .closed :: _ => []

/-- What the reader meets after the last byte. -/
def endingOf : List Arrival → Ending
  | [] => .idle
  | .data _ :: later => endingOf later
  | .failure e :: later => if e.transient then endingOf later else .broken
  | .closed :: _ => .closed

/-- The number of reads a connection can still answer, and the bytes in them. -/
def loadOf : List Arrival → ℕ
  | [] => 0
  | .data s :: later => s.bytes.length + 1 + loadOf later
  | _ :: later => 1 + loadOf later

def Transport.pending (t : Transport) : Bytes := pendingOf t.incoming

def Transport.ending (t : Transport) : Ending := endingOf t.incoming

def Transport.load (t : Transport) : ℕ := loadOf t.incoming

/-- The bytes of an arrival that a read leaves over are still pending. -/
theorem pendingOf_leftover (b : Bytes) (len : ℕ) (later : List Arrival) :
    pendingOf (leftover b len later) = b.drop len ++ pendingOf later := by
  unfold leftover
  split
  · rename_i h
    rw [h, List.nil_append]
  · rfl

/-- A read does not change how the connection ends. -/
theorem endingOf_leftover (b : Bytes) (len : ℕ) (later : List Arrival) :
    endingOf (leftover b len later) = endingOf later := by
  unfold leftover
  split <;> rfl

/-- What a read leaves over counts at most its bytes and one more. -/
theorem loadOf_leftover_le (b : Bytes) (len : ℕ) (later : List Arrival) :
    loadOf (leftover b len later) ≤ (b.drop len).length + 1 + loadOf later := by
  unfold leftover
  split
  · omega
  · rfl

/-- The ways a read can go, each with its effect on the abstract connection. -/
inductive ReadCase (t : Transport) (len : ℕ) : ReadResult × Transport → Prop
  | bytes {b : Bytes} {t' : Transport} (hne : b ≠ []) (hlen : b.length ≤ len)
      (hpend : b ++ t'.pending = t.pending) (hend : t'.ending = t.ending)
      (hload : t'.load + b.length ≤ t.load) : ReadCase t len (.bytes b, t')
  | retry {e : Errno} {t' : Transport} (he : e.transient = true)
      (hpend : t'.pending = t.pending) (hend : t'.ending = t.ending)
      (hload : t'.load < t.load) : ReadCase t len (.failed e, t')
  | idle (hpend : t.pending = []) (hend : t.ending = .idle) :
      ReadCase t len (.failed .EAGAIN, t)
  | closed (hpend : t.pending = []) (hend : t.ending = .closed) : ReadCase t len (.zero, t)
  | broken {e : Errno} {t' : Transport} (he : e.transient = false) (hpend : t.pending = [])
      (hend : t.ending = .broken) : ReadCase t len (.failed e, t')

/-- **A read** takes bytes from the front of what is pending, or fails for now, and meets
the ending only when nothing is pending. -/
theorem transportRead_cases (t : Transport) {len : ℕ} (hlen : 0 < len) :
    ReadCase t len (transportRead t len) := by
  obtain ⟨incoming⟩ := t
  cases incoming with
  | nil => exact .idle rfl rfl
  | cons a later =>
      cases a with
      | closed => exact .closed rfl rfl
      | failure e =>
          cases he : e.transient with
          | false =>
              exact .broken he (by simp [Transport.pending, pendingOf, he])
                (by simp [Transport.ending, endingOf, he])
          | true =>
              exact .retry he (by simp [Transport.pending, pendingOf, he])
                (by simp [Transport.ending, endingOf, he])
                (by simp [Transport.load, loadOf])
      | data s =>
          have hb : s.bytes.length ≠ 0 := fun h => s.nonempty (List.length_eq_zero_iff.mp h)
          refine .bytes ?_ (by rw [List.length_take]; omega) ?_ ?_ ?_
          · intro h
            have := congrArg List.length h
            rw [List.length_take, List.length_nil] at this
            omega
          · simp only [Transport.pending, pendingOf, pendingOf_leftover]
            rw [← List.append_assoc, List.take_append_drop]
          · simp [Transport.ending, endingOf, endingOf_leftover]
          · have := loadOf_leftover_le s.bytes len later
            simp only [Transport.load, loadOf, List.length_take, List.length_drop] at this ⊢
            omega

end MaestroCore
