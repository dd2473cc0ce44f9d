import MaestroCore.Lib.Memory
import MaestroCore.Addresses
import MaestroCore.Descriptors

/-!
# The TCP Client and Its Memory

`TCP_Client` as a struct in memory, with `tcp_client_init` and `tcp_client_init_ptr` on it and
the growing buffer of `tcp_client_realloc_data`. The struct that `tcp_client_init_ptr` gets
from `malloc` has arbitrary contents, and so has every field that is not written.

What the socket calls do is taken from `tcpClientInit`. The remote address is left out; it is
only used by `tcp_client_connect_step`.

## Main results

* `init_ptr_hands_over_iff`: `tcp_client_init_ptr` loses the connection iff it is in progress.
* `appended_data_iff`: the buffer holds what was appended to it iff the size was zero before
  the client was initialised.
-/

open CLang Memory

namespace MaestroCore

/-- An access outside of a buffer. -/
inductive BufferFault
  | outOfBounds
  deriving DecidableEq, Repr

/-- `TCP_Data`. -/
structure TCPData where
  addr : Option (Block UInt8)
  size : UInt64
  deriving DecidableEq, Repr

/-- `TCP_Client`. A pointer to characters is an address. -/
structure TCPClient where
  fd : ℤ
  readData : Option ℕ
  writeData : Option ℕ
  data : TCPData
  hasRemoteAddr : ℤ
  deriving DecidableEq, Repr

/-- `tcp_client_init` on a struct with the given contents. -/
def tcpClientInitStruct (client : TCPClient) (host port : Option Bytes) (c : Connection) :
    ErrorCode × TCPClient × Connection :=
  if host = none ∨ port = none then (.invalidArg, client, c)
  else
    let (status, c) := tcpClientInit c
    (status,
      { client with
        fd := c.fd
        readData := none
        writeData := none
        data := { client.data with addr := none }
        hasRemoteAddr :=
          if status = .success ∨ status = .inProgress then 1 else client.hasRemoteAddr },
      c)

/-- `tcp_client_init_ptr`: its result, the client that it stores in `*_ClientPtr`, if it does,
and what was done with sockets. `memory` is what `malloc` returns. -/
def tcpClientInitPtr (clientPtr : Bool) (memory : Option TCPClient) (host port : Option Bytes)
    (c : Connection) : ErrorCode × Option TCPClient × Connection :=
  if clientPtr = false then (.invalidArg, none, c)
  else
    match memory with
    | none => (.noMemory, none, c)
    | some client =>
        let (result, client, c) := tcpClientInitStruct client host port c
        if result ≠ .success then (result, none, c) else (.success, some client, c)

/-- `tcp_client_realloc_data`: its result and the buffer, where `alloc` says that `realloc`
succeeds. -/
def tcpClientReallocData (d : TCPData) (input : Bytes) (alloc : Bool) :
    Except BufferFault (Except ErrorCode ℤ × TCPData) :=
  if input = [] then .ok (.error .invalidArg, d)
  else
    let newSize : UInt64 := .ofNat input.length
    if alloc = false then .ok (.error .noMemory, d)
    else
      match store (realloc d.addr (d.size + newSize + 1).toNat) d.size.toNat input with
      | none => .error .outOfBounds
      | some block =>
          match store block (d.size + newSize).toNat [0] with
          | none => .error .outOfBounds
          | some block =>
              .ok (.ok (toLong input.length), ⟨some block, d.size + newSize⟩)

/-- Calls of `tcp_client_realloc_data` one after the other, with `realloc` succeeding. -/
def appendAll (d : TCPData) (inputs : List Bytes) : Except BufferFault TCPData :=
  inputs.foldlM (fun d input => do
    let (_, d) ← tcpClientReallocData d input true
    .ok d) d

/-! ### Handing over the connection -/

/-- The sockets of addresses that are given up are closed. -/
theorem foldlM_closedSockets (attempts : List Attempt) (live : List ℤ) :
    (closedSockets attempts).foldlM trackDescriptor live = some live := by
  induction attempts generalizing live with
  | nil => rfl
  | cons a attempts ih =>
      rw [closedSockets, List.flatMap_cons, List.foldlM_append]
      cases a.socket with
      | none => exact ih live
      | some fd =>
          have hclosed : [FdEvent.opened fd, .closed fd].foldlM trackDescriptor live =
              some live := by
            simp [List.foldlM, trackDescriptor]
          rw [hclosed]
          exact ih live

/-- Sockets that are closed at once leave no descriptor open. -/
theorem openDescriptors_closedSockets (attempts : List Attempt) :
    openDescriptors (closedSockets attempts) = some [] :=
  foldlM_closedSockets attempts []

/-- What a call of `tcp_client_init_ptr` owes to its caller: a call that stores no client has
closed its sockets, and a connection that `tcp_client_init` has made or started comes with the
client that owns it. -/
structure HandsOver (init : ErrorCode × TCPClient × Connection)
    (result : ErrorCode × Option TCPClient × Connection) : Prop where
  closed : result.2.1 = none → openDescriptors result.2.2.events = some []
  received : init.1 = .success ∨ init.1 = .inProgress →
    ∃ client, result.2.1 = some client ∧ openDescriptors result.2.2.events = some [client.fd]

/-- **When the connection is handed over.** For every list of addresses and whatever the calls
for each of them return, `tcp_client_init_ptr` hands over the connection, and leaves no socket
open without a client, iff the first address that can be used, if there is one, is connected at
once. -/
theorem init_ptr_hands_over_iff (client : TCPClient) (host port : Bytes) (attempts : List Attempt)
    (c : Connection) :
    HandsOver
        (tcpClientInitStruct client (some host) (some port)
          { c with events := [], addresses := some attempts })
        (tcpClientInitPtr true (some client) (some host) (some port)
          { c with events := [], addresses := some attempts }) ↔
      ∀ a, attempts.find? Attempt.usableNonblocking = some a → a.connect = .connected := by
  generalize hc : { c with events := [], addresses := some attempts } = c₀
  have haddr : c₀.addresses = some attempts := by rw [← hc]
  have hnew : c₀.events = [] := by rw [← hc]
  cases hfind : attempts.find? Attempt.usableNonblocking with
  | none =>
      have hall : ∀ a ∈ attempts, a.usableNonblocking = false := by
        simpa [List.find?_eq_none] using hfind
      have hinit := tcpClientInit_of_none haddr hall
      refine iff_of_true ⟨fun _ => ?_, fun h => ?_⟩ fun a ha => (by cases ha)
      · simp only [tcpClientInitPtr, tcpClientInitStruct, hinit]
        simp [Connection.skipped, hnew, openDescriptors_closedSockets]
      · simp [tcpClientInitStruct, hinit] at h
  | some a =>
      obtain ⟨ha, pre, post, rfl, hpre⟩ := List.find?_eq_some_iff_append.mp hfind
      obtain ⟨fd, hfd, hinit⟩ := tcpClientInit_of_first haddr (by simpa using hpre) ha
      have hopen : openDescriptors (({ c₀ with fd := -1 }.skipped pre).kept fd).events =
          some [(fd : ℤ)] := by
        simp only [Connection.kept, Connection.skipped, hnew, List.nil_append]
        rw [openDescriptors_append, openDescriptors_closedSockets]
        rfl
      by_cases hconnect : a.connect = .connected
      · -- the client is stored with the socket
        rw [if_pos hconnect] at hinit
        refine iff_of_true ⟨fun h => ?_, fun _ => ?_⟩ fun b hb => ?_
        · simp [tcpClientInitPtr, tcpClientInitStruct, hinit] at h
        · simp only [tcpClientInitPtr, tcpClientInitStruct, hinit]
          exact ⟨_, rfl, hopen⟩
        · rw [← Option.some.inj hb]
          exact hconnect
      · -- the client is freed while its socket is open
        rw [if_neg hconnect] at hinit
        refine iff_of_false (fun h => ?_) fun h => hconnect (h a rfl)
        have hclosed := h.closed (by simp [tcpClientInitPtr, tcpClientInitStruct, hinit])
        simp only [tcpClientInitPtr, tcpClientInitStruct, hinit] at hclosed
        simp [hopen] at hclosed

/-- A struct as `malloc` may return it. -/
def mallocedClient (size : UInt64) : TCPClient where
  fd := 7
  readData := some 4096
  writeData := none
  data := ⟨some [], size⟩
  hasRemoteAddr := 0

/-- An address whose connect is in progress, on the socket 3. -/
def inProgressAddress : Attempt := { connects with connect := .failed .EINPROGRESS }

/-- A connection to a host with this address, before anything is done. -/
def inProgressHost : Connection :=
  { (reachableServer [] [] fun _ => 0).connection with addresses := some [inProgressAddress] }

/-- **A connection in progress is lost**: the caller gets no client, and the socket stays
open. -/
theorem connection_in_progress_lost :
    let init := tcpClientInitStruct (mallocedClient 0) (some (ascii "h")) (some (ascii "80"))
      inProgressHost
    let result := tcpClientInitPtr true (some (mallocedClient 0)) (some (ascii "h"))
      (some (ascii "80")) inProgressHost
    init.1 = .inProgress ∧ init.2.1.fd = 3 ∧ result.1 = .inProgress ∧ result.2.1 = none ∧
      openDescriptors result.2.2.events = some [3] ∧ ¬ HandsOver init result := by
  intro init result
  have hopen : openDescriptors result.2.2.events = some [3] := rfl
  refine ⟨rfl, rfl, rfl, rfl, hopen, fun h => ?_⟩
  have hclosed := h.closed rfl
  rw [hopen] at hclosed
  cases hclosed

/-! ### The growing buffer -/

section Buffer

variable {d d' : TCPData} {contents input : Bytes}

/-- The buffer holds the contents: there is none yet, or they stand in it with a NUL behind
them. -/
structure HoldsData (d : TCPData) (contents : Bytes) : Prop where
  size : d.size = .ofNat contents.length
  addr : contents = [] ∧ d.addr = none ∨ d.addr = some ((contents ++ [0]).map some)

/-- **One call appends its input.** -/
theorem HoldsData.append (h : HoldsData d contents) (hne : input ≠ [])
    (hfits : contents.length + input.length + 1 < 2 ^ 64) :
    ∃ r, tcpClientReallocData d input true = .ok r ∧ HoldsData r.2 (contents ++ input) ∧
      r.2.addr = some ((contents ++ input ++ [0]).map some) := by
  have hstart : (d.addr.getD []).take contents.length = contents.map some := by
    rcases h.addr with ⟨rfl, haddr⟩ | haddr
    · rfl
    · rw [haddr, Option.getD_some, List.map_append]
      exact List.take_left' (by rw [List.length_map])
  obtain ⟨block, hblock, hlast⟩ := store_realloc hstart input 0
  have hsize : d.size.toNat = contents.length := by
    rw [h.size, UInt64.toNat_ofNat', Nat.mod_eq_of_lt (by omega)]
  have hgrown : (d.size + .ofNat input.length).toNat = contents.length + input.length := by
    rw [UInt64.toNat_add, hsize, UInt64.toNat_ofNat',
      Nat.mod_eq_of_lt (a := input.length) (by omega), Nat.mod_eq_of_lt (by omega)]
  have hroom : (d.size + .ofNat input.length + 1).toNat =
      contents.length + input.length + 1 := by
    rw [UInt64.toNat_add, hgrown]
    exact Nat.mod_eq_of_lt (by simpa using hfits)
  rw [tcpClientReallocData, if_neg hne]
  simp only [hroom, hsize, hgrown, hblock, hlast, Bool.true_eq_false, if_false]
  refine ⟨_, rfl, ⟨?_, Or.inr rfl⟩, rfl⟩
  rw [List.length_append, UInt64.ofNat_add, ← h.size]

/-- Every call that comes to a result adds the length of its input to the size. -/
theorem size_reallocData {r : Except ErrorCode ℤ × TCPData}
    (h : tcpClientReallocData d input true = .ok r) :
    r.2.size = d.size + .ofNat input.length := by
  rw [tcpClientReallocData] at h
  split at h
  · rename_i hnil
    obtain rfl := Except.ok.inj h
    simp [hnil]
  · simp only [Bool.true_eq_false, if_false] at h
    split at h
    · cases h
    · split at h
      · cases h
      · obtain rfl := Except.ok.inj h
        rfl

/-- Appending a list of inputs appends the first and then the others. -/
theorem appendAll_cons (d : TCPData) (input : Bytes) (inputs : List Bytes) :
    appendAll d (input :: inputs) =
      (tcpClientReallocData d input true).bind fun r => appendAll r.2 inputs := by
  rw [appendAll, List.foldlM_cons]
  cases tcpClientReallocData d input true <;> rfl

/-- **Any number of calls append their inputs.** -/
theorem HoldsData.appendAll {inputs : List Bytes} (h : HoldsData d contents)
    (hne : ∀ x ∈ inputs, x ≠ [])
    (hfits : contents.length + inputs.flatten.length + 1 < 2 ^ 64) :
    ∃ d', appendAll d inputs = .ok d' ∧ HoldsData d' (contents ++ inputs.flatten) ∧
      (inputs ≠ [] → d'.addr = some ((contents ++ inputs.flatten ++ [0]).map some)) := by
  induction inputs generalizing d contents with
  | nil => exact ⟨d, rfl, by simpa using h, fun hnil => absurd rfl hnil⟩
  | cons input inputs ih =>
      rw [List.flatten_cons, List.length_append] at hfits
      obtain ⟨r, hr, hholds, haddr⟩ := h.append (hne input List.mem_cons_self) (by omega)
      obtain ⟨d', hd', hholds', haddr'⟩ := ih hholds
        (fun x hx => hne x (List.mem_cons_of_mem input hx)) (by rw [List.length_append]; omega)
      have hflat : contents ++ input ++ inputs.flatten = contents ++ (input :: inputs).flatten := by
        rw [List.append_assoc, List.flatten_cons]
      rw [hflat] at hholds' haddr'
      refine ⟨d', ?_, hholds', fun _ => ?_⟩
      · rw [appendAll_cons, hr]
        exact hd'
      · cases inputs with
        | nil =>
            obtain rfl := Except.ok.inj hd'
            simpa using haddr
        | cons x xs => exact haddr' (List.cons_ne_nil x xs)

/-- The size grows by the length of all that is appended. -/
theorem size_appendAll {inputs : List Bytes} (h : appendAll d inputs = .ok d') :
    d'.size = d.size + .ofNat inputs.flatten.length := by
  induction inputs generalizing d with
  | nil =>
      obtain rfl := Except.ok.inj h
      simp
  | cons input inputs ih =>
      rw [appendAll_cons] at h
      cases hr : tcpClientReallocData d input true with
      | error fault =>
          rw [hr] at h
          cases h
      | ok r =>
          rw [hr] at h
          rw [ih h, size_reallocData hr, List.flatten_cons, List.length_append,
            UInt64.ofNat_add, UInt64.add_assoc]

/-- The size is the length of the inputs, and the buffer holds the inputs with a NUL behind
them; without any calls there is no buffer. -/
def Appended (d : TCPData) (inputs : List Bytes) : Prop :=
  ∃ d', appendAll d inputs = .ok d' ∧ d'.size.toNat = inputs.flatten.length ∧
    d'.addr = if inputs = [] then none else some ((inputs.flatten ++ [0]).map some)

/-- **When the buffer holds what was appended.** For every prior content of the struct and
every `tcp_client_init`, among them all that do not fail, after any calls with inputs that are
not empty and fit into the memory, the size is the length of the inputs and the buffer holds
them with a NUL behind them, iff the size was zero before the struct was initialised. -/
theorem appended_data_iff (client : TCPClient) (host port : Bytes) (c : Connection)
    (inputs : List Bytes) (hne : ∀ x ∈ inputs, x ≠ [])
    (hfits : inputs.flatten.length + 1 < 2 ^ 64) :
    Appended (tcpClientInitStruct client (some host) (some port) c).2.1.data inputs ↔
      client.data.size = 0 := by
  have hdata : (tcpClientInitStruct client (some host) (some port) c).2.1.data =
      ⟨none, client.data.size⟩ := rfl
  rw [hdata]
  constructor
  · rintro ⟨d', hd', hsize, -⟩
    have hgrown := size_appendAll hd'
    have htotal : d'.size = .ofNat inputs.flatten.length := by
      rw [← hsize, UInt64.ofNat_toNat]
    rw [htotal] at hgrown
    exact UInt64.add_eq_right.mp hgrown.symm
  · intro hzero
    have hempty : HoldsData ⟨none, client.data.size⟩ [] :=
      ⟨by rw [hzero]; rfl, Or.inl ⟨rfl, rfl⟩⟩
    obtain ⟨d', hd', hholds, haddr⟩ := hempty.appendAll hne (by simpa using hfits)
    refine ⟨d', hd', ?_, ?_⟩
    · rw [hholds.size, List.nil_append, UInt64.toNat_ofNat', Nat.mod_eq_of_lt (by omega)]
    · cases inputs with
      | nil =>
          obtain rfl := Except.ok.inj hd'
          rfl
      | cons x xs => simpa using haddr (List.cons_ne_nil x xs)

/-- Two inputs, for a struct whose size was zero. -/
theorem zeroed_struct_appends :
    (tcpClientInitStruct (mallocedClient 0) (some (ascii "h")) (some (ascii "80"))
      inProgressHost).1 = .inProgress ∧
    Appended (tcpClientInitStruct (mallocedClient 0) (some (ascii "h")) (some (ascii "80"))
      inProgressHost).2.1.data [ascii "ab", ascii "c"] :=
  ⟨rfl, (appended_data_iff (mallocedClient 0) (ascii "h") (ascii "80") inProgressHost
    [ascii "ab", ascii "c"] (by decide) (by decide)).mpr rfl⟩

/-- **A size that is left over from before**: with a size of 5 in the memory from `malloc`, one
input of a byte gives a buffer of seven bytes, of which five are not written, and a size of
6. -/
theorem left_over_size_kept :
    let init := tcpClientInitStruct (mallocedClient 5) (some (ascii "h")) (some (ascii "80"))
      inProgressHost
    init.1 = .inProgress ∧
      appendAll init.2.1.data [ascii "a"] =
        .ok ⟨some [none, none, none, none, none, some 97, some 0], 6⟩ ∧
      ¬ Appended init.2.1.data [ascii "a"] := by
  intro init
  have hrun : appendAll init.2.1.data [ascii "a"] =
      .ok ⟨some [none, none, none, none, none, some 97, some 0], 6⟩ := by decide
  refine ⟨rfl, hrun, ?_⟩
  rintro ⟨d', hd', hsize, -⟩
  rw [hrun] at hd'
  obtain rfl := Except.ok.inj hd'
  exact absurd hsize (by decide)

end Buffer

end MaestroCore
