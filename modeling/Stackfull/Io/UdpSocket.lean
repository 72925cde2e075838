import Mathlib.Data.List.Basic
import Mathlib.Tactic.Common
import Stackfull.Io.BufReader
import Stackfull.Lib.Loop

/-!
# Datagram batches

`UdpSocket::recvManyImpl` and `sendMany` (`UdpSocket.cpp`) over `receivePiece` and `sendPiece`, and
`callWhenReady` (`Async.h`) on a datagram socket, where nothing is ever `exhausted`. The kernel
processes a prefix of the piece it is given. An error that has become pending is reported by the
next call that is not interrupted, and then it is cleared.

`reported`, `moved` and `calls` are history: the errors the kernel has reported, how many datagrams
it has handed over or accepted, and how often it was asked.
-/

set_option autoImplicit false
set_option relaxedAutoImplicit false
set_option linter.dupNamespace false

namespace Stackfull.Io

open Lib

universe u v w

/-- What a system call leaves in `errno`. -/
inductive Errno (ε : Type v)
  | again
  | interrupted
  | failed (error : ε)

/-- What there is when the kernel is asked: an error that has become pending, whether the call is
interrupted, and for how many datagrams there is room, or how many are queued. -/
structure Arrival (ε : Type v) where
  error : Option ε
  interrupted : Bool
  granted : ℕ

/-- The kernel's side of a datagram socket. A wait is looked up under the number of calls made
before it. -/
structure Socket (ε : Type v) where
  arrivals : ℕ → Arrival ε
  waits : ℕ → Option ε
  pending : Option ε
  reported : List ε
  moved : ℕ
  calls : ℕ

/-- `BatchResult`. -/
structure BatchResult (ε : Type v) where
  count : ℕ
  error : Option (Errc ε)

/-- The size of a piece, `kPiece`. -/
structure PieceSize where
  kPiece : ℕ
  kPiece_pos : 0 < kPiece

/-- What the system calls do to the entries of a batch: `apply start offset n` processes `n` of
them, from `offset` on, when `start` were processed on the socket before. -/
structure Effect (τ : Type u) where
  apply : ℕ → ℕ → ℕ → τ → τ
  apply_zero : ∀ start entries, apply start 0 0 entries = entries
  apply_add : ∀ start offset n entries,
    apply (start + offset) offset n (apply start 0 offset entries) =
      apply start 0 (offset + n) entries

/-- The entries of a batch and the socket. -/
structure Transfer (τ : Type u) (ε : Type v) where
  entries : τ
  socket : Socket ε

variable {τ : Type u} {ε : Type v}

namespace Socket

/-- A system call for `piece` datagrams. -/
def call (s : Socket ε) (piece : ℕ) : Except (Errno ε) ℕ × Socket ε :=
  let arrival := s.arrivals s.calls
  if arrival.interrupted then
    (.error .interrupted,
      { s with
        pending := arrival.error.or s.pending
        calls := s.calls + 1 })
  else
    match arrival.error.or s.pending with
    | some error =>
      (.error (.failed error),
        { s with
          pending := none
          reported := s.reported ++ [error]
          calls := s.calls + 1 })
    | none =>
      if min piece arrival.granted = 0 then
        (.error .again, { s with pending := none, calls := s.calls + 1 })
      else
        (.ok (min piece arrival.granted),
          { s with
            pending := none
            moved := s.moved + min piece arrival.granted
            calls := s.calls + 1 })

end Socket

section

variable (size : PieceSize) (effect : Effect τ)

def pieceOf (remaining : ℕ) : ℕ := if remaining < size.kPiece then remaining else size.kPiece

/-- `receivePiece` and `sendPiece`: one piece of the entries from `offset` on, of which there are
`count`. -/
def piece (offset count : ℕ) (t : Transfer τ ε) : Except (Errno ε) ℕ × Transfer τ ε :=
  match t.socket.call (pieceOf size count) with
  | (.ok n, socket) => (.ok n, ⟨effect.apply t.socket.moved offset n t.entries, socket⟩)
  | (.error errno, socket) => (.error errno, ⟨t.entries, socket⟩)

/-- One pass of `callWhenReady` over the first piece. -/
def firstPass (count : ℕ) (t : Transfer τ ε) :
    Transfer τ ε ⊕ (IoResult ε × Transfer τ ε) :=
  match piece size effect 0 count t with
  | (.ok n, t) => .inr (⟨n, none⟩, t)
  | (.error .interrupted, t) => .inl t
  | (.error .again, t) =>
    match t.socket.waits t.socket.calls with
    | some error => .inr (⟨0, some (.os error)⟩, t)
    | none => .inl t
  | (.error (.failed error), t) => .inr (⟨0, some (.os error)⟩, t)

/-- The loop over the other pieces. -/
def morePieces (count received lastAsked lastGot : ℕ) (t : Transfer τ ε) : ℕ × Transfer τ ε :=
  if received < count ∧ lastGot = lastAsked then
    match piece size effect received (count - received) t with
    | (.error _, t) => (received, t)
    | (.ok n, t) =>
      if n = 0 then (received, t)
      else morePieces count (received + n) (pieceOf size (count - received)) n t
  else (received, t)
  termination_by count - received

/-- `recvManyImpl` and `sendMany`, with so many passes for the first piece. -/
def batch (passes count : ℕ) (t : Transfer τ ε) : Option (BatchResult ε × Transfer τ ε) :=
  if count = 0 then some (⟨0, none⟩, t)
  else
    (loop (firstPass size effect count) passes t).map fun (first, t) ↦
      if first.error.isSome then (⟨0, first.error⟩, t)
      else
        let (received, t) := morePieces size effect count first.bytes (pieceOf size count)
          first.bytes t
        (⟨received, none⟩, t)

end

/-! ### Receiving -/

/-- `SocketAddress`. -/
structure SocketAddress (α : Type w) where
  storage : α
  length : ℕ

/-- `Datagram`, with the memory that `data` points to. -/
structure Datagram (β : Type u) (α : Type w) where
  data : List β
  capacity : ℕ
  size : ℕ
  truncated : Bool
  address : SocketAddress α

/-- A message header, with the memory that it points to: `msg_name`, `msg_namelen`, the vector, the
flag `MSG_TRUNC` and `msg_len`. -/
structure Header (β : Type u) (α : Type w) where
  name : Option α
  nameLength : ℕ
  data : List β
  length : ℕ
  truncated : Bool
  transferred : ℕ

/-- A datagram on its way. -/
structure Message (β : Type u) (α : Type w) where
  payload : List β
  address : SocketAddress α

variable {β : Type u} {α : Type w}

/-- The size of `sockaddr_storage`. -/
def storageSize : ℕ := 128

def describeReceive (datagram : Datagram β α) : Header β α where
  name := some datagram.address.storage
  nameLength := storageSize
  data := datagram.data
  length := datagram.capacity
  truncated := false
  transferred := 0

/-- What the kernel writes where a header points to. -/
def Header.deliver (header : Header β α) (message : Message β α) : Header β α where
  name := some message.address.storage
  nameLength := message.address.length
  data := message.payload.take header.length ++
    header.data.drop (min header.length message.payload.length)
  length := header.length
  truncated := header.length < message.payload.length
  transferred := min header.length message.payload.length

def recordReceive (datagram : Datagram β α) (header : Header β α) (bytes : ℕ) : Datagram β α where
  data := header.data
  capacity := datagram.capacity
  size := bytes
  truncated := header.truncated
  address := ⟨header.name.getD datagram.address.storage, header.nameLength⟩

/-- An entry that has received a message. -/
def Datagram.received (datagram : Datagram β α) (message : Message β α) : Datagram β α :=
  let header := (describeReceive datagram).deliver message
  recordReceive datagram header header.transferred

/-- It has the start of the payload, its size, whether that is all, and the sender. -/
theorem Datagram.received_eq (datagram : Datagram β α) (message : Message β α) :
    datagram.received message =
      { data := message.payload.take datagram.capacity ++
          datagram.data.drop (min datagram.capacity message.payload.length)
        capacity := datagram.capacity
        size := min datagram.capacity message.payload.length
        truncated := datagram.capacity < message.payload.length
        address := message.address } :=
  rfl

/-- `receivePiece` on the entries: the datagrams are handed over in the order in which they
arrive. -/
def receiving (incoming : ℕ → Message β α) : Effect (List (Datagram β α)) where
  apply start offset n datagrams := datagrams.mapIdx fun i datagram ↦
    if offset ≤ i ∧ i < offset + n then datagram.received (incoming (start + (i - offset)))
    else datagram
  apply_zero start datagrams := by
    refine List.ext_getElem? fun i ↦ ?_
    rw [List.getElem?_mapIdx]
    cases datagrams[i]? with
    | none => rfl
    | some datagram => exact congrArg some (if_neg (by omega))
  apply_add start offset n datagrams := by
    refine List.ext_getElem? fun i ↦ ?_
    rw [List.getElem?_mapIdx, List.getElem?_mapIdx, List.getElem?_mapIdx]
    cases datagrams[i]? with
    | none => rfl
    | some datagram =>
      refine congrArg some ?_
      dsimp only
      by_cases hfirst : i < offset
      · rw [if_neg (by omega), if_pos (by omega), if_pos (by omega)]
      · rw [if_neg (c := 0 ≤ i ∧ i < 0 + offset) (by omega)]
        by_cases hsecond : i < offset + n
        · rw [if_pos (by omega), if_pos (by omega)]
          congr 2
          omega
        · rw [if_neg (by omega), if_neg (by omega)]

def receivePiece (size : PieceSize) (incoming : ℕ → Message β α) (offset count : ℕ)
    (t : Transfer (List (Datagram β α)) ε) :
    Except (Errno ε) ℕ × Transfer (List (Datagram β α)) ε :=
  piece size (receiving incoming) offset count t

/-- `recvManyImpl`. -/
def recvManyImpl (size : PieceSize) (incoming : ℕ → Message β α) (passes count : ℕ)
    (t : Transfer (List (Datagram β α)) ε) :
    Option (BatchResult ε × Transfer (List (Datagram β α)) ε) :=
  batch size (receiving incoming) passes count t

/-! ### Sending -/

/-- `describeSend`: without a destination the datagram goes to the connected peer. -/
def describeSend (datagram : Datagram β α) : Header β α where
  name := if datagram.address.length ≠ 0 then some datagram.address.storage else none
  nameLength := if datagram.address.length ≠ 0 then datagram.address.length else 0
  data := datagram.data
  length := datagram.size
  truncated := false
  transferred := 0

/-- The bytes that are sent, and where to. -/
def Header.outgoing (header : Header β α) : List β × Option α × ℕ :=
  (header.data.take header.length, header.name, header.nameLength)

/-- `sendPiece` on what was sent. -/
def sending (datagrams : List (Datagram β α)) : Effect (List (List β × Option α × ℕ)) where
  apply _ offset n sent :=
    sent ++ ((datagrams.drop offset).take n).map fun datagram ↦ (describeSend datagram).outgoing
  apply_zero _ sent := List.append_nil sent
  apply_add _ offset n sent := by
    rw [List.drop_zero, List.append_assoc, ← List.map_append, List.take_add]

def sendPiece (size : PieceSize) (datagrams : List (Datagram β α)) (offset count : ℕ)
    (t : Transfer (List (List β × Option α × ℕ)) ε) :
    Except (Errno ε) ℕ × Transfer (List (List β × Option α × ℕ)) ε :=
  piece size (sending datagrams) offset count t

/-- `sendMany`. -/
def sendMany (size : PieceSize) (datagrams : List (Datagram β α)) (passes count : ℕ)
    (t : Transfer (List (List β × Option α × ℕ)) ε) :
    Option (BatchResult ε × Transfer (List (List β × Option α × ℕ)) ε) :=
  batch size (sending datagrams) passes count t

/-! ### One system call -/

variable {size : PieceSize} {effect : Effect τ} {count : ℕ} {s : Socket ε} {t : Transfer τ ε}

/-- What a system call returns, and the socket after it. -/
inductive Called (s : Socket ε) (piece : ℕ) : Except (Errno ε) ℕ → Socket ε → Prop
  | interrupted (hinterrupted : (s.arrivals s.calls).interrupted = true) :
    Called s piece (.error .interrupted)
      { s with
        pending := (s.arrivals s.calls).error.or s.pending
        calls := s.calls + 1 }
  | failed (error : ε) (hinterrupted : (s.arrivals s.calls).interrupted = false)
      (herror : (s.arrivals s.calls).error.or s.pending = some error) :
    Called s piece (.error (.failed error))
      { s with
        pending := none
        reported := s.reported ++ [error]
        calls := s.calls + 1 }
  | again (hinterrupted : (s.arrivals s.calls).interrupted = false)
      (herror : (s.arrivals s.calls).error = none) (hpending : s.pending = none)
      (hgranted : min piece (s.arrivals s.calls).granted = 0) :
    Called s piece (.error .again)
      { s with
        pending := none
        calls := s.calls + 1 }
  | moved (n : ℕ) (hinterrupted : (s.arrivals s.calls).interrupted = false)
      (herror : (s.arrivals s.calls).error = none) (hpending : s.pending = none)
      (hgranted : min piece (s.arrivals s.calls).granted = n) (hn : 0 < n) :
    Called s piece (.ok n)
      { s with
        pending := none
        moved := s.moved + n
        calls := s.calls + 1 }

theorem called_call (s : Socket ε) (piece : ℕ) :
    Called s piece (s.call piece).1 (s.call piece).2 := by
  cases hinterrupted : (s.arrivals s.calls).interrupted with
  | true =>
    simp only [Socket.call, hinterrupted, if_true]
    exact .interrupted hinterrupted
  | false =>
    cases herror : (s.arrivals s.calls).error.or s.pending with
    | some error =>
      simp only [Socket.call, hinterrupted, herror, Bool.false_eq_true, if_false]
      exact .failed error hinterrupted herror
    | none =>
      obtain ⟨hnone, hpending⟩ := Option.or_eq_none_iff.mp herror
      by_cases hgranted : min piece (s.arrivals s.calls).granted = 0
      · simp only [Socket.call, hinterrupted, herror, hgranted, Bool.false_eq_true, if_false,
          if_true]
        exact .again hinterrupted hnone hpending hgranted
      · simp only [Socket.call, hinterrupted, herror, hgranted, Bool.false_eq_true, if_false]
        exact .moved _ hinterrupted hnone hpending rfl (Nat.pos_of_ne_zero hgranted)

/-- What a piece does to the entries. -/
theorem piece_eq (offset : ℕ) (t : Transfer τ ε) :
    piece size effect offset count t =
      match (t.socket.call (pieceOf size count)).1 with
      | .ok n => (.ok n, ⟨effect.apply t.socket.moved offset n t.entries,
          (t.socket.call (pieceOf size count)).2⟩)
      | .error errno => (.error errno, ⟨t.entries, (t.socket.call (pieceOf size count)).2⟩) := by
  unfold piece
  rcases t.socket.call (pieceOf size count) with ⟨_ | _, _⟩ <;> rfl

theorem pieceOf_eq (remaining : ℕ) : pieceOf size remaining = min remaining size.kPiece := by
  unfold pieceOf
  split_ifs with h
  · exact (Nat.min_eq_left (Nat.le_of_lt h)).symm
  · exact (Nat.min_eq_right (Nat.le_of_not_lt h)).symm

/-! ### The calls of a batch -/

/-- A call of the first piece that is made again. -/
def Retried (s : Socket ε) (i : ℕ) : Prop :=
  (s.arrivals i).interrupted = true ∨ (s.arrivals i).granted = 0 ∧ s.waits (i + 1) = none

/-- A call that processes a full piece if no error is pending. -/
def Full (size : PieceSize) (s : Socket ε) (i : ℕ) : Prop :=
  (s.arrivals i).interrupted = false ∧ size.kPiece ≤ (s.arrivals i).granted

/-- Without an error, the calls up to call `i` are made for the first piece again and again, and
for `k` full pieces. -/
structure Fulls (size : PieceSize) (s : Socket ε) (k i : ℕ) : Prop where
  pending : s.pending = none
  errors : ∀ j, s.calls ≤ j → j < i → (s.arrivals j).error = none
  pieces : ∃ first, s.calls ≤ first ∧ first + k = i ∧
    (∀ j, s.calls ≤ j → j < first → Retried s j) ∧ ∀ j, first ≤ j → j < i → Full size s j

/-- Call `i` is made for a piece after the first. -/
def Late (size : PieceSize) (count : ℕ) (s : Socket ε) (i : ℕ) : Prop :=
  ∃ k, 0 < k ∧ k * size.kPiece < count ∧ Fulls size s k i

/-- An error is reported to a call for a piece after the first. -/
def LateError (size : PieceSize) (count : ℕ) (s : Socket ε) : Prop :=
  ∃ i error, Late size count s i ∧ (s.arrivals i).interrupted = false ∧
    (s.arrivals i).error = some error

/-- What a call of `recvManyImpl` or `sendMany` does, but for the errors. -/
structure Handed (effect : Effect τ) (count : ℕ) (t : Transfer τ ε) (r : BatchResult ε)
    (after : Transfer τ ε) : Prop where
  entries : after.entries = effect.apply t.socket.moved 0 r.count t.entries
  moved : after.socket.moved = t.socket.moved + r.count
  count_le : r.count ≤ count
  pieces : ∃ first, t.socket.calls ≤ first ∧
    (∀ i, t.socket.calls ≤ i → i < first → Retried t.socket i) ∧
    after.socket.calls ≤ first + count

/-- Every error that the kernel has reported in between is returned, or the kernel still has it. -/
def Kept (t : Transfer τ ε) (r : BatchResult ε) (after : Transfer τ ε) : Prop :=
  ∀ error ∈ after.socket.reported.drop t.socket.reported.length,
    r.error = some (.os error) ∨ after.socket.pending = some error

/-- The first piece is still waited for. -/
structure Waited (t now : Transfer τ ε) : Prop where
  entries : now.entries = t.entries
  arrivals : now.socket.arrivals = t.socket.arrivals
  waits : now.socket.waits = t.socket.waits
  reported : now.socket.reported = t.socket.reported
  moved : now.socket.moved = t.socket.moved
  calls_le : t.socket.calls ≤ now.socket.calls
  retried : ∀ i, t.socket.calls ≤ i → i < now.socket.calls → Retried t.socket i
  pending : now.socket.pending = none → t.socket.pending = none ∧
    ∀ i, t.socket.calls ≤ i → i < now.socket.calls → (t.socket.arrivals i).error = none

theorem Waited.refl (t : Transfer τ ε) : Waited t t where
  entries := rfl
  arrivals := rfl
  waits := rfl
  reported := rfl
  moved := rfl
  calls_le := Nat.le_refl _
  retried _ hle hlt := absurd hlt (Nat.not_lt.mpr hle)
  pending hpending := ⟨hpending, fun _ hle hlt ↦ absurd hlt (Nat.not_lt.mpr hle)⟩

/-- A pass that goes on has made a call that is made again. -/
theorem firstPass_inl {now next : Transfer τ ε} (hcount : 0 < count)
    (hpass : firstPass size effect count now = .inl next) :
    Retried now.socket now.socket.calls ∧ next.entries = now.entries ∧
      next.socket = { now.socket with
        pending := (now.socket.arrivals now.socket.calls).error.or now.socket.pending
        calls := now.socket.calls + 1 } := by
  have hsize := size.kPiece_pos
  have hcalled := called_call now.socket (pieceOf size count)
  rw [firstPass, piece_eq] at hpass
  generalize now.socket.call (pieceOf size count) = called at hcalled hpass
  obtain ⟨returned, socket⟩ := called
  cases hcalled with
  | interrupted hinterrupted =>
    obtain rfl := Sum.inl.inj hpass
    exact ⟨.inl hinterrupted, rfl, rfl⟩
  | failed error => exact nomatch hpass
  | again hinterrupted herror hpending hgranted =>
    dsimp only at hpass
    rw [pieceOf_eq] at hgranted
    split at hpass
    · exact nomatch hpass
    · obtain rfl := Sum.inl.inj hpass
      refine ⟨.inr ⟨by omega, ‹_›⟩, rfl, ?_⟩
      rw [herror, hpending]
      rfl
  | moved n => exact nomatch hpass

theorem Waited.next {now next : Transfer τ ε} (h : Waited t now) (hcount : 0 < count)
    (hpass : firstPass size effect count now = .inl next) : Waited t next := by
  obtain ⟨hretried, hentries, hsocket⟩ := firstPass_inl hcount hpass
  have hcalls : next.socket.calls = now.socket.calls + 1 := by rw [hsocket]
  rw [Retried, h.arrivals, h.waits] at hretried
  refine ⟨hentries.trans h.entries, by rw [hsocket, h.arrivals], by rw [hsocket, h.waits],
    by rw [hsocket, h.reported], by rw [hsocket, h.moved], ?_, fun i hle hlt ↦ ?_,
    fun hpending ↦ ?_⟩
  · rw [hcalls]
    exact Nat.le_succ_of_le h.calls_le
  · rcases Nat.lt_succ_iff_lt_or_eq.mp (hcalls ▸ hlt) with hbefore | rfl
    · exact h.retried i hle hbefore
    · exact hretried
  · rw [hsocket] at hpending
    obtain ⟨herror, hnone⟩ := Option.or_eq_none_iff.mp hpending
    obtain ⟨hbefore, herrors⟩ := h.pending hnone
    refine ⟨hbefore, fun i hle hlt ↦ ?_⟩
    rcases Nat.lt_succ_iff_lt_or_eq.mp (hcalls ▸ hlt) with hlast | rfl
    · exact herrors i hle hlast
    · rw [← h.arrivals]
      exact herror

/-! ### The pieces after the first -/

section

variable {offset received : ℕ} {t next : Transfer τ ε}

/-- A piece that fails changes neither the entries nor the count. -/
theorem piece_error {errno : Errno ε} (h : piece size effect offset count t = (.error errno, next))
    :
    next.entries = t.entries ∧ next.socket.moved = t.socket.moved ∧
      next.socket.calls = t.socket.calls + 1 ∧
      (next.socket.reported = t.socket.reported ∨
        ∃ error, (t.socket.arrivals t.socket.calls).interrupted = false ∧
          (t.socket.arrivals t.socket.calls).error.or t.socket.pending = some error) := by
  have hcalled := called_call t.socket (pieceOf size count)
  rw [piece_eq] at h
  generalize t.socket.call (pieceOf size count) = called at hcalled h
  obtain ⟨returned, socket⟩ := called
  cases hcalled with
  | interrupted =>
    obtain ⟨-, rfl⟩ := Prod.mk.inj h
    exact ⟨rfl, rfl, rfl, .inl rfl⟩
  | failed error hinterrupted herror =>
    obtain ⟨-, rfl⟩ := Prod.mk.inj h
    exact ⟨rfl, rfl, rfl, .inr ⟨error, hinterrupted, herror⟩⟩
  | again =>
    obtain ⟨-, rfl⟩ := Prod.mk.inj h
    exact ⟨rfl, rfl, rfl, .inl rfl⟩
  | moved => exact nomatch h

/-- A piece that does not fail. -/
theorem piece_ok {n : ℕ} (h : piece size effect offset count t = (.ok n, next)) :
    0 < n ∧ next.entries = effect.apply t.socket.moved offset n t.entries ∧
      next.socket = { t.socket with
        pending := none
        moved := t.socket.moved + n
        calls := t.socket.calls + 1 } ∧
      (t.socket.arrivals t.socket.calls).interrupted = false ∧
      (t.socket.arrivals t.socket.calls).error = none ∧ t.socket.pending = none ∧
      min (min count size.kPiece) (t.socket.arrivals t.socket.calls).granted = n := by
  have hcalled := called_call t.socket (pieceOf size count)
  rw [piece_eq] at h
  generalize t.socket.call (pieceOf size count) = called at hcalled h
  obtain ⟨returned, socket⟩ := called
  cases hcalled with
  | interrupted => exact nomatch h
  | failed => exact nomatch h
  | again => exact nomatch h
  | moved n hinterrupted herror hpending hgranted hn =>
    obtain ⟨hok, rfl⟩ := Prod.mk.inj h
    obtain rfl := Except.ok.inj hok
    rw [pieceOf_eq] at hgranted
    exact ⟨hn, rfl, rfl, hinterrupted, herror, hpending, hgranted⟩

/-- The loop processes entries behind those that were processed before, and each of its calls but
the last one processes at least one. -/
theorem morePieces_spec (size : PieceSize) (lastAsked lastGot : ℕ) {start : ℕ} {entries : τ}
    (hreceived : received ≤ count)
    (hentries : t.entries = effect.apply start 0 received entries)
    (hmoved : t.socket.moved = start + received) :
    (morePieces size effect count received lastAsked lastGot t).2.entries =
        effect.apply start 0 (morePieces size effect count received lastAsked lastGot t).1 entries ∧
      (morePieces size effect count received lastAsked lastGot t).2.socket.moved =
        start + (morePieces size effect count received lastAsked lastGot t).1 ∧
      (morePieces size effect count received lastAsked lastGot t).1 ≤ count ∧
      (morePieces size effect count received lastAsked lastGot t).2.socket.calls + received ≤
        t.socket.calls + count := by
  induction received, lastAsked, lastGot, t using morePieces.induct size effect count with
  | case1 received lastAsked lastGot t hmore errno next hpiece =>
    obtain ⟨hentries', hmoved', hcalls, -⟩ := piece_error hpiece
    rw [morePieces, if_pos hmore, hpiece]
    exact ⟨hentries'.trans hentries, hmoved'.trans hmoved, hreceived, by dsimp only; omega⟩
  | case2 received lastAsked lastGot t hmore next hpiece =>
    exact absurd (piece_ok hpiece).1 (Nat.lt_irrefl 0)
  | case3 received lastAsked lastGot t hmore n next hpiece hn ih =>
    obtain ⟨-, hentries', hsocket, -, -, -, hgranted⟩ := piece_ok hpiece
    rw [morePieces, if_pos hmore, hpiece]
    simp only [if_neg hn]
    have hcalls : next.socket.calls = t.socket.calls + 1 := by rw [hsocket]
    have hnext : next.socket.moved = start + (received + n) := by
      rw [hsocket, ← Nat.add_assoc, ← hmoved]
    obtain ⟨hdone, hcount, hle, hlimit⟩ := ih (by omega)
      (by rw [hentries', hentries, hmoved, effect.apply_add]) hnext
    exact ⟨hdone, hcount, hle, by omega⟩
  | case4 received lastAsked lastGot t hmore =>
    rw [morePieces, if_neg hmore]
    exact ⟨hentries, hmoved, hreceived, Nat.add_le_add_left hreceived _⟩

/-- After another full piece. -/
theorem Fulls.succ {k i : ℕ} (h : Fulls size s k i)
    (herror : (s.arrivals i).error = none) (hfull : Full size s i) :
    Fulls size s (k + 1) (i + 1) := by
  obtain ⟨hpending, herrors, first, hcalls, hk, hretried, hfulls⟩ := h
  refine ⟨hpending, fun j hle hlt ↦ ?_, first, hcalls, by omega, hretried, fun j hle hlt ↦ ?_⟩
  · rcases Nat.lt_succ_iff_lt_or_eq.mp hlt with hbefore | rfl
    · exact herrors j hle hbefore
    · exact herror
  · rcases Nat.lt_succ_iff_lt_or_eq.mp hlt with hbefore | rfl
    · exact hfulls j hle hbefore
    · exact hfull

/-- The loop hears of an error only if one is reported to a piece after the first. -/
theorem morePieces_reported (effect : Effect τ) (lastAsked lastGot : ℕ)
    (harrivals : t.socket.arrivals = s.arrivals)
    (hpending : t.socket.pending = none)
    (hfulls : received < count → lastGot = lastAsked →
      ∃ k, 0 < k ∧ received = k * size.kPiece ∧ Fulls size s k t.socket.calls) :
    (morePieces size effect count received lastAsked lastGot t).2.socket.reported =
        t.socket.reported ∨ LateError size count s := by
  induction received, lastAsked, lastGot, t using morePieces.induct size effect count with
  | case1 received lastAsked lastGot t hmore errno next hpiece =>
    obtain ⟨-, -, -, hreported | ⟨error, hinterrupted, herror⟩⟩ := piece_error hpiece
    · rw [morePieces, if_pos hmore, hpiece]
      exact .inl hreported
    · obtain ⟨k, hk, rfl, hfull⟩ := hfulls hmore.1 hmore.2
      rw [hpending, Option.or_none, harrivals] at herror
      rw [harrivals] at hinterrupted
      exact .inr ⟨_, error, ⟨k, hk, hmore.1, hfull⟩, hinterrupted, herror⟩
  | case2 received lastAsked lastGot t hmore next hpiece =>
    exact absurd (piece_ok hpiece).1 (Nat.lt_irrefl 0)
  | case3 received lastAsked lastGot t hmore n next hpiece hn ih =>
    obtain ⟨-, -, hsocket, hinterrupted, herror, -, hgranted⟩ := piece_ok hpiece
    rw [morePieces, if_pos hmore, hpiece]
    simp only [if_neg hn]
    have hreported : next.socket.reported = t.socket.reported := by rw [hsocket]
    rw [← hreported]
    refine ih (by rw [hsocket, harrivals]) (by rw [hsocket]) fun hless hasked ↦ ?_
    obtain ⟨k, hk, hreceived, hfull⟩ := hfulls hmore.1 hmore.2
    rw [pieceOf_eq] at hasked
    rw [harrivals] at hinterrupted herror hgranted
    have hpieces : n = size.kPiece := by omega
    refine ⟨k + 1, Nat.succ_pos k, by rw [hreceived, hpieces, Nat.succ_mul], ?_⟩
    rw [hsocket]
    exact hfull.succ herror ⟨hinterrupted, by omega⟩
  | case4 received lastAsked lastGot t hmore =>
    rw [morePieces, if_neg hmore]
    exact .inl rfl

/-- After a full piece. -/
def Transfer.moveFull (t : Transfer τ ε) (size : PieceSize) (effect : Effect τ) (offset : ℕ) :
    Transfer τ ε where
  entries := effect.apply t.socket.moved offset size.kPiece t.entries
  socket :=
    { t.socket with
      pending := none
      moved := t.socket.moved + size.kPiece
      calls := t.socket.calls + 1 }

theorem piece_of_full (effect : Effect τ) (offset : ℕ) (hcount : size.kPiece ≤ count)
    (hfull : Full size t.socket t.socket.calls)
    (herror : (t.socket.arrivals t.socket.calls).error = none) (hpending : t.socket.pending = none)
    :
    piece size effect offset count t = (.ok size.kPiece, t.moveFull size effect offset) := by
  obtain ⟨hthrough, hgranted⟩ := hfull
  have hasked : pieceOf size count = size.kPiece := by
    rw [pieceOf_eq]
    exact Nat.min_eq_right hcount
  have hmin : min size.kPiece (t.socket.arrivals t.socket.calls).granted = size.kPiece :=
    Nat.min_eq_left hgranted
  rw [piece_eq]
  simp only [Socket.call, hasked, hthrough, herror, hpending, Option.or_none, Bool.false_eq_true,
    if_false, hmin, Nat.ne_of_gt size.kPiece_pos]
  rfl

/-- When full pieces lead up to an error, the error is gone. -/
theorem morePieces_loses (effect : Effect τ) {k i asked : ℕ} {error : ε}
    (hi : t.socket.calls + k = i) (hcount : received + k * size.kPiece < count)
    (hpending : t.socket.pending = none)
    (herrors : ∀ j, t.socket.calls ≤ j → j < i → (t.socket.arrivals j).error = none)
    (hfulls : ∀ j, t.socket.calls ≤ j → j < i → Full size t.socket j)
    (hinterrupted : (t.socket.arrivals i).interrupted = false)
    (herror : (t.socket.arrivals i).error = some error) :
    (morePieces size effect count received asked asked t).2.socket.reported =
        t.socket.reported ++ [error] ∧
      (morePieces size effect count received asked asked t).2.socket.pending = none := by
  induction k generalizing received asked t with
  | zero =>
    obtain rfl : t.socket.calls = i := hi
    have hmore : received < count ∧ asked = asked := ⟨by omega, rfl⟩
    have hcall : piece size effect received (count - received) t =
        (.error (.failed error), ⟨t.entries, { t.socket with
          pending := none
          reported := t.socket.reported ++ [error]
          calls := t.socket.calls + 1 }⟩) := by
      rw [piece_eq]
      simp only [Socket.call, hinterrupted, herror, Option.some_or, Bool.false_eq_true, if_false]
    rw [morePieces, if_pos hmore, hcall]
    exact ⟨rfl, rfl⟩
  | succ k ih =>
    have hsize := size.kPiece_pos
    rw [Nat.succ_mul] at hcount
    have hnow : t.socket.calls < i := by omega
    have hmore : received < count ∧ asked = asked := ⟨by omega, rfl⟩
    have hasked : pieceOf size (count - received) = size.kPiece := by
      rw [pieceOf_eq]
      omega
    rw [morePieces, if_pos hmore, piece_of_full effect _ (by omega) (hfulls _ (Nat.le_refl _) hnow)
      (herrors _ (Nat.le_refl _) hnow) hpending, hasked]
    simp only [if_neg (Nat.ne_of_gt hsize)]
    exact ih (t := t.moveFull size effect received) (by simp only [Transfer.moveFull]; omega)
      (by omega) rfl (fun j hle hlt ↦ herrors j (Nat.le_of_succ_le hle) hlt)
      (fun j hle hlt ↦ hfulls j (Nat.le_of_succ_le hle) hlt) hinterrupted herror

end

/-! ### A whole call -/

section

variable {passes : ℕ} {t now : Transfer τ ε} {first : IoResult ε × Transfer τ ε}

/-- The wait for the first piece ends with a pass of its loop. -/
theorem loop_firstPass (hcount : 0 < count) (hwaited : Waited t now)
    (hloop : loop (firstPass size effect count) passes now = some first) :
    ∃ last, Waited t last ∧ firstPass size effect count last = .inr first := by
  induction passes generalizing now with
  | zero => exact nomatch hloop
  | succ passes ih =>
    rw [loop] at hloop
    cases hpass : firstPass size effect count now with
    | inl next =>
      rw [hpass] at hloop
      exact ih (hwaited.next hcount hpass) hloop
    | inr r =>
      rw [hpass] at hloop
      exact ⟨now, hwaited, hpass.trans (congrArg Sum.inr (Option.some.inj hloop))⟩

/-- The last pass has an error, of the socket or of the wait, or a piece. -/
theorem firstPass_inr (hpass : firstPass size effect count now = .inr first) :
    first.2.socket.calls = now.socket.calls + 1 ∧
      ((∃ error, first.1 = ⟨0, some (.os error)⟩ ∧ first.2.entries = now.entries ∧
          first.2.socket.moved = now.socket.moved ∧
          (first.2.socket.reported = now.socket.reported ∨
            first.2.socket.reported = now.socket.reported ++ [error])) ∨
        ∃ n, first.1 = ⟨n, none⟩ ∧ piece size effect 0 count now = (.ok n, first.2)) := by
  have hcalled := called_call now.socket (pieceOf size count)
  rw [firstPass] at hpass
  cases hpiece : piece size effect 0 count now with
  | mk returned next =>
    rw [hpiece] at hpass
    rw [piece_eq] at hpiece
    generalize now.socket.call (pieceOf size count) = called at hcalled hpiece
    obtain ⟨answer, socket⟩ := called
    cases hcalled with
    | interrupted =>
      obtain ⟨rfl, rfl⟩ := Prod.mk.inj hpiece
      exact nomatch hpass
    | failed error =>
      obtain ⟨rfl, rfl⟩ := Prod.mk.inj hpiece
      obtain rfl := Sum.inr.inj hpass
      exact ⟨rfl, .inl ⟨error, rfl, rfl, rfl, .inr rfl⟩⟩
    | again =>
      obtain ⟨rfl, rfl⟩ := Prod.mk.inj hpiece
      dsimp only at hpass
      split at hpass
      · obtain rfl := Sum.inr.inj hpass
        exact ⟨rfl, .inl ⟨_, rfl, rfl, rfl, .inl rfl⟩⟩
      · exact nomatch hpass
    | moved n =>
      obtain ⟨rfl, rfl⟩ := Prod.mk.inj hpiece
      obtain rfl := Sum.inr.inj hpass
      exact ⟨rfl, .inr ⟨n, rfl, rfl⟩⟩

/-- When the first piece is full and there may be more, it is the first of the full ones. -/
theorem Waited.fulls {n : ℕ} {next : Transfer τ ε} (h : Waited t now)
    (hpiece : piece size effect 0 count now = (.ok n, next)) (hless : n < count)
    (hasked : n = pieceOf size count) : n = 1 * size.kPiece ∧ Fulls size t.socket 1
    next.socket.calls := by
  obtain ⟨-, -, hsocket, hinterrupted, herror, hpending, hgranted⟩ := piece_ok hpiece
  rw [pieceOf_eq] at hasked
  obtain ⟨hnone, herrors⟩ := h.pending hpending
  have hfirst : Fulls size t.socket 0 now.socket.calls :=
    ⟨hnone, herrors, now.socket.calls, h.calls_le, rfl, h.retried,
      fun j hle hlt ↦ absurd hlt (Nat.not_lt.mpr hle)⟩
  rw [h.arrivals] at hinterrupted herror hgranted
  refine ⟨by omega, ?_⟩
  rw [hsocket]
  exact hfirst.succ herror ⟨hinterrupted, by omega⟩

/-- A call hands over what it says; and it keeps every error unless one is reported to a piece after
the first. -/
theorem batch_spec {r : BatchResult ε} {after : Transfer τ ε}
    (hbatch : batch size effect passes count t = some (r, after)) :
    Handed effect count t r after ∧ (Kept t r after ∨ LateError size count t.socket) := by
  by_cases hcount : count = 0
  · rw [batch, if_pos hcount] at hbatch
    obtain ⟨rfl, rfl⟩ := Prod.mk.inj (Option.some.inj hbatch)
    refine ⟨⟨(effect.apply_zero _ _).symm, rfl, Nat.zero_le _, t.socket.calls, Nat.le_refl _,
      fun i hle hlt ↦ absurd hlt (Nat.not_lt.mpr hle), Nat.le_add_right _ _⟩, .inl ?_⟩
    rw [Kept, List.drop_length]
    exact fun error herror ↦ absurd herror List.not_mem_nil
  have hpos := Nat.pos_of_ne_zero hcount
  rw [batch, if_neg hcount] at hbatch
  obtain ⟨⟨result, next⟩, hloop, hdone⟩ := Option.map_eq_some_iff.mp hbatch
  obtain ⟨last, hwaited, hpass⟩ := loop_firstPass hpos (.refl t) hloop
  obtain ⟨hcalls, ⟨error, rfl, hentries, hmoved, hreported⟩ | ⟨n, rfl, hpiece⟩⟩ := firstPass_inr
    hpass
  · obtain ⟨rfl, rfl⟩ := Prod.mk.inj hdone
    refine ⟨⟨?_, hmoved.trans hwaited.moved, Nat.zero_le _, last.socket.calls, hwaited.calls_le,
      hwaited.retried, ?_⟩, .inl fun e he ↦ .inl ?_⟩
    · rw [hentries, hwaited.entries, effect.apply_zero]
    · dsimp only at hcalls
      omega
    · rw [hwaited.reported] at hreported
      dsimp only at hreported
      rcases hreported with hsame | hnew
      · rw [hsame, List.drop_length] at he
        exact absurd he List.not_mem_nil
      · rw [hnew, List.drop_left] at he
        rw [List.mem_singleton.mp he]
  · obtain ⟨hn, hentries, hsocket, hinterrupted, herror, hpending, hgranted⟩ := piece_ok hpiece
    have hnext : next.entries = effect.apply t.socket.moved 0 n t.entries := by
      rw [hentries, hwaited.entries, hwaited.moved]
    have hmoved : next.socket.moved = t.socket.moved + n := by rw [hsocket, hwaited.moved]
    have hle : n ≤ count := by omega
    obtain ⟨rfl, rfl⟩ := Prod.mk.inj hdone
    obtain ⟨hentries', hmoved', hle', hcalls'⟩ :=
      morePieces_spec size (pieceOf size count) n hle hnext hmoved
    refine ⟨⟨hentries', hmoved', hle', last.socket.calls, hwaited.calls_le, hwaited.retried, ?_⟩,
      ?_⟩
    · dsimp only at hcalls hcalls' ⊢
      omega
    · have hreported : next.socket.reported = t.socket.reported := by
        rw [hsocket, hwaited.reported]
      have harrivals : next.socket.arrivals = t.socket.arrivals := by
        rw [hsocket, hwaited.arrivals]
      have hsilent : next.socket.pending = none := by rw [hsocket]
      have hfulls : n < count → n = pieceOf size count →
          ∃ k, 0 < k ∧ n = k * size.kPiece ∧ Fulls size t.socket k next.socket.calls :=
        fun hless hasked ↦ ⟨1, Nat.one_pos, hwaited.fulls hpiece hless hasked⟩
      rcases morePieces_reported effect (pieceOf size count) n harrivals hsilent hfulls with
        hsame | hlate
      · left
        rw [Kept, hsame, hreported, List.drop_length]
        exact fun error herror ↦ absurd herror List.not_mem_nil
      · exact .inr hlate

/-- The call returns at the latest when the kernel has something to hand over and does not
interrupt it. -/
theorem batch_returns {i : ℕ} (hle : t.socket.calls ≤ i)
    (hthrough : (t.socket.arrivals i).interrupted = false)
    (hgranted : 0 < (t.socket.arrivals i).granted) :
    ∃ passes, (batch size effect passes count t).isSome = true := by
  by_cases hcount : count = 0
  · exact ⟨0, by rw [batch, if_pos hcount]; rfl⟩
  have hpos := Nat.pos_of_ne_zero hcount
  suffices hloop : ∃ passes, (loop (firstPass size effect count) passes t).isSome = true by
    obtain ⟨passes, hsome⟩ := hloop
    refine ⟨passes, ?_⟩
    rw [batch, if_neg hcount, Option.isSome_map]
    exact hsome
  clear hcount
  obtain ⟨k, rfl⟩ := Nat.exists_eq_add_of_le hle
  induction k generalizing t with
  | zero =>
    refine ⟨1, ?_⟩
    rw [loop]
    cases hpass : firstPass size effect count t with
    | inl next =>
      obtain ⟨hretried | ⟨hnone, -⟩, -⟩ := firstPass_inl hpos hpass
      · exact absurd (hretried.symm.trans hthrough) (by decide)
      · exact absurd hnone (Nat.ne_of_gt hgranted)
    | inr r => rfl
  | succ k ih =>
    cases hpass : firstPass size effect count t with
    | inl next =>
      obtain ⟨-, -, hsocket⟩ := firstPass_inl hpos hpass
      have hcalls : next.socket.calls + k = t.socket.calls + (k + 1) := by
        rw [hsocket]
        dsimp only
        omega
      have harrivals : next.socket.arrivals = t.socket.arrivals := by rw [hsocket]
      obtain ⟨passes, hsome⟩ := ih (t := next) (Nat.le_add_right _ _)
        (by rw [harrivals, hcalls]; exact hthrough) (by rw [harrivals, hcalls]; exact hgranted)
      refine ⟨passes + 1, ?_⟩
      rw [loop, hpass]
      exact hsome
    | inr r =>
      refine ⟨1, ?_⟩
      rw [loop, hpass]
      rfl

/-- A call that has the last piece in hand. -/
theorem batch_of_pass (hcount : count ≠ 0) {n : ℕ} {next : Transfer τ ε}
    (hpiece : piece size effect 0 count t = (.ok n, next)) :
    batch size effect 1 count t =
      some (⟨(morePieces size effect count n (pieceOf size count) n next).1, none⟩,
        (morePieces size effect count n (pieceOf size count) n next).2) := by
  have hpass : firstPass size effect count t = .inr (⟨n, none⟩, next) := by
    rw [firstPass, hpiece]
  rw [batch, if_neg hcount, loop, hpass]
  rfl

/-- A call whose first piece is made again. -/
theorem batch_of_retry {next : Transfer τ ε} (hcount : count ≠ 0)
    (hpass : firstPass size effect count t = .inl next) (passes : ℕ) :
    batch size effect (passes + 1) count t = batch size effect passes count next := by
  rw [batch, batch, if_neg hcount, if_neg hcount, loop, hpass]

/-- After a call that is made again. -/
def Transfer.retry (t : Transfer τ ε) : Transfer τ ε where
  entries := t.entries
  socket := { t.socket with pending := none, calls := t.socket.calls + 1 }

theorem firstPass_of_retried (size : PieceSize) (effect : Effect τ) (count : ℕ)
    (hretried : Retried t.socket t.socket.calls)
    (herror : (t.socket.arrivals t.socket.calls).error = none) (hpending : t.socket.pending = none)
    :
    firstPass size effect count t = .inl t.retry := by
  rw [firstPass, piece_eq]
  cases hinterrupted : (t.socket.arrivals t.socket.calls).interrupted with
  | true =>
    simp only [Socket.call, hinterrupted, herror, hpending, Option.or_none, if_true]
    rfl
  | false =>
    obtain ⟨hgranted, hwait⟩ :=
      hretried.resolve_left (by rw [hinterrupted]; exact Bool.false_ne_true)
    simp only [Socket.call, hinterrupted, herror, hpending, hgranted, hwait, Option.or_none,
      Nat.min_zero, Bool.false_eq_true, if_false, if_true]
    rfl

/-- An error that is reported to a piece after the first is neither returned nor kept. -/
theorem not_kept_of_late (effect : Effect τ) (hlate : LateError size count t.socket) :
    ∃ passes r after, batch size effect passes count t = some (r, after) ∧ ¬ Kept t r after := by
  obtain ⟨i, error, ⟨k, hk, hless, hpending, herrors, first, hcalls, rfl, hretried, hfulls⟩,
    hthrough, herror⟩ := hlate
  have hone := Nat.le_mul_of_pos_left size.kPiece hk
  have hcount : count ≠ 0 := by omega
  suffices hloses : ∃ passes r after, batch size effect passes count t = some (r, after) ∧
      r.error = none ∧ after.socket.reported = t.socket.reported ++ [error] ∧
      after.socket.pending = none by
    obtain ⟨passes, r, after, hbatch, hnone, hreported, hgone⟩ := hloses
    refine ⟨passes, r, after, hbatch, fun hkept ↦ ?_⟩
    rw [Kept, hreported, List.drop_left, hnone, hgone] at hkept
    rcases hkept error (List.mem_singleton_self error) with h | h <;> cases h
  obtain ⟨waits, rfl⟩ := Nat.exists_eq_add_of_le hcalls
  clear hcalls
  induction waits generalizing t with
  | zero =>
    obtain ⟨k, rfl⟩ := Nat.exists_eq_succ_of_ne_zero (Nat.ne_of_gt hk)
    rw [Nat.succ_mul, Nat.add_comm] at hless
    have hpiece := piece_of_full effect 0 (by omega : size.kPiece ≤ count)
      (hfulls t.socket.calls (Nat.le_refl _) (by omega))
      (herrors t.socket.calls (Nat.le_refl _) (by omega)) hpending
    have hasked : pieceOf size count = size.kPiece := by
      rw [pieceOf_eq]
      omega
    refine ⟨1, _, _, batch_of_pass hcount hpiece, rfl, ?_⟩
    rw [hasked]
    exact morePieces_loses (t := t.moveFull size effect 0) (i := t.socket.calls + 0 + (k + 1))
      effect (by simp only [Transfer.moveFull]; omega) hless rfl
      (fun j hle hlt ↦ herrors j (Nat.le_of_succ_le hle) hlt)
      (fun j hle hlt ↦ hfulls j (Nat.le_of_succ_le hle) hlt) hthrough herror
  | succ waits ih =>
    have hpass := firstPass_of_retried size effect count
      (hretried t.socket.calls (Nat.le_refl _) (by omega))
      (herrors t.socket.calls (Nat.le_refl _) (by omega)) hpending
    have hnext : t.retry.socket.calls + waits = t.socket.calls + (waits + 1) := by
      simp only [Transfer.retry]
      omega
    obtain ⟨passes, r, after, hbatch, hdone⟩ := ih (t := t.retry) rfl
      (by rw [hnext]; exact fun j hle hlt ↦ herrors j (Nat.le_of_succ_le hle) hlt)
      (by rw [hnext]; exact fun j hle hlt ↦ hretried j (Nat.le_of_succ_le hle) hlt)
      (by rw [hnext]; exact hfulls) (by rw [hnext]; exact hthrough) (by rw [hnext]; exact herror)
    exact ⟨passes + 1, r, after, (batch_of_retry hcount hpass passes).trans hbatch, hdone⟩

end

/-! ### Neither datagrams nor errors are lost -/

/-- A call returns as soon as there is something to hand over and the kernel does not interrupt it;
it reports how many datagrams the kernel has handed over or accepted, leaves the entries as so many
make them, asks at most `count` times once it no longer waits, and keeps every error. -/
def LosesNothing (call : ℕ → Option (BatchResult ε × Transfer τ ε)) (entries : ℕ → τ) (count : ℕ)
    (t : Transfer τ ε) : Prop :=
  (∀ passes r after, call passes = some (r, after) →
      (after.entries = entries r.count ∧ after.socket.moved = t.socket.moved + r.count ∧
        r.count ≤ count) ∧
      (∃ first, t.socket.calls ≤ first ∧
        (∀ i, t.socket.calls ≤ i → i < first → Retried t.socket i) ∧
        after.socket.calls ≤ first + count) ∧
      Kept t r after) ∧
    ∀ i, t.socket.calls ≤ i → (t.socket.arrivals i).interrupted = false →
      0 < (t.socket.arrivals i).granted → ∃ passes, (call passes).isSome = true

theorem losesNothing_iff (effect : Effect τ) (t : Transfer τ ε) :
    LosesNothing (fun passes ↦ batch size effect passes count t)
        (fun n ↦ effect.apply t.socket.moved 0 n t.entries) count t ↔
      ¬ LateError size count t.socket := by
  constructor
  · rintro ⟨hcalls, -⟩ hlate
    obtain ⟨passes, r, after, hbatch, hnot⟩ := not_kept_of_late effect hlate
    exact hnot (hcalls passes r after hbatch).2.2
  · refine fun hlate ↦ ⟨fun passes r after hbatch ↦ ?_, fun i hle hthrough hgranted ↦
      batch_returns hle hthrough hgranted⟩
    obtain ⟨hhanded, hkept⟩ := batch_spec hbatch
    exact ⟨⟨hhanded.entries, hhanded.moved, hhanded.count_le⟩, hhanded.pieces,
      hkept.resolve_right hlate⟩

/-- `recvManyImpl` and `sendMany` lose nothing unless an error is reported to a piece after the
first: the loop stops there and returns without it, and the kernel has cleared it. -/
theorem batches_lose_nothing_iff (size : PieceSize) (count : ℕ) :
    (∀ (incoming : ℕ → Message β α) (t : Transfer (List (Datagram β α)) ε),
      LosesNothing (fun passes ↦ recvManyImpl size incoming passes count t)
          (fun n ↦ t.entries.mapIdx fun i datagram ↦
            if i < n then datagram.received (incoming (t.socket.moved + i)) else datagram)
          count t ↔
        ¬ LateError size count t.socket) ∧
      ∀ (datagrams : List (Datagram β α)) (t : Transfer (List (List β × Option α × ℕ)) ε),
        LosesNothing (fun passes ↦ sendMany size datagrams passes count t)
            (fun n ↦ t.entries ++
              (datagrams.take n).map fun datagram ↦ (describeSend datagram).outgoing)
            count t ↔
          ¬ LateError size count t.socket := by
  refine ⟨fun incoming t ↦ ?_, fun datagrams t ↦ losesNothing_iff (sending datagrams) t⟩
  have hentries (n : ℕ) :
      (t.entries.mapIdx fun i datagram ↦
        if i < n then datagram.received (incoming (t.socket.moved + i)) else datagram) =
        (receiving incoming).apply t.socket.moved 0 n t.entries := by
    simp only [receiving, Nat.zero_le, true_and, Nat.zero_add, Nat.sub_zero]
  simp only [hentries]
  exact losesNothing_iff (receiving incoming) t

/-- 64 datagrams are queued, and then an error becomes pending. -/
def refusedLate : Socket Unit where
  arrivals i := if i = 0 then ⟨none, false, 64⟩ else ⟨some (), false, 0⟩
  waits _ := none
  pending := none
  reported := []
  moved := 0
  calls := 0

/-- The second piece of a batch of 65 gets the error. -/
theorem batch_loses_error :
    ¬ ∀ (size : PieceSize) (count : ℕ) (incoming : ℕ → Message ℕ Unit)
      (t : Transfer (List (Datagram ℕ Unit)) Unit),
      LosesNothing (fun passes ↦ recvManyImpl size incoming passes count t)
        (fun n ↦ t.entries.mapIdx fun i datagram ↦
          if i < n then datagram.received (incoming (t.socket.moved + i)) else datagram)
        count t := by
  intro h
  let size : PieceSize := ⟨64, by decide⟩
  let t : Transfer (List (Datagram ℕ Unit)) Unit :=
    ⟨List.replicate 65 ⟨[0], 1, 0, false, ⟨(), 0⟩⟩, refusedLate⟩
  have hfulls : Fulls size refusedLate 1 1 := by
    refine ⟨rfl, fun j _ hlt ↦ ?_, 0, Nat.le_refl _, rfl, fun j _ hlt ↦ absurd hlt
      (Nat.not_lt_zero j),
      fun j _ hlt ↦ ?_⟩
    · obtain rfl := Nat.lt_one_iff.mp hlt
      rfl
    · obtain rfl := Nat.lt_one_iff.mp hlt
      exact ⟨rfl, Nat.le_refl _⟩
  have hlate : LateError size 65 t.socket := ⟨1, (), ⟨1, Nat.one_pos, by decide, hfulls⟩, rfl, rfl⟩
  obtain ⟨passes, r, after, hbatch, hnot⟩ :=
    not_kept_of_late (receiving fun _ ↦ (⟨[7], ⟨(), 0⟩⟩ : Message ℕ Unit)) hlate
  exact hnot ((h size 65 (fun _ ↦ ⟨[7], ⟨(), 0⟩⟩) t).1 passes r after hbatch).2.2

end Stackfull.Io
