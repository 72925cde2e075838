import Stackfull.Lib.LossyFifo
import Stackfull.Lib.RingBuffer
import Stackfull.Sync.Completion

/-!
# Streams

`Stream` (`sync/Stream.h`), with `Waiter::block` and `blockUntil` (`Waiter.cpp`). Any number of parties
push and close; one consumer takes the items, and waits in `next` or `nextUntil` (`timed`), in a
`select`, or with a callback that anybody may cancel. A critical section is one step. What is done
outside of it is a step of its own: counting an item that was refused, and waking the consumer whose
waker was taken. The wakers, and what may happen to a consumer that sleeps, are those of
`Completion`. Moving an item does not throw.

`delivered`, `pushes`, `pending` and `ended` are history: the slots read for the consumer, the calls of
`push`, the parties whose item is in no slot and has not been counted, and whether `next` or another
call has answered that the stream is closed and drained.
-/

set_option autoImplicit false
set_option relaxedAutoImplicit false
set_option linter.dupNamespace false

namespace Stackfull.Sync.Stream

open Stackfull.Lib
open Completion (Waker)

universe u v

/-- Where a producer stands: in `push`, about to count the item that was refused, in `close`, or about
to wake the consumer it has taken. -/
inductive ProducerPc (T : Type v)
  | idle
  | pushing (value : T)
  | counting
  | closing
  | waking (waker : Option Waker)
  deriving DecidableEq

/-- Where the consumer stands: in `next` or `nextUntil`, in a `select`, or with a callback waiter. -/
inductive ReaderPc
  | idle
  | taking (timed : Bool)
  | blocked (timed : Bool)
  | trying
  | detaching
  | selecting
  | armed
  | selectBlocked
  | selectDetaching
  | enqueued (waiter : ℕ)
  deriving DecidableEq

/-- The shared state, and where everybody stands. -/
structure State (π : Type u) (T : Type v) where
  ring : RingBuffer T
  closed : Bool
  consumer : Option Waker
  droppedCount : ℕ
  producer : π → ProducerPc T
  reader : ReaderPc
  token : Bool
  cancelled : ℕ → Bool
  delivered : List (Option T)
  pushes : ℕ
  pending : List π
  ended : Bool

/-- A step: a producer begins a call or goes on in it; the consumer begins to wait in one way or
another, tries, or goes on (`again` says what a `select` does next); its deadline passes, its `park`
returns for no reason, or it is unwound there; somebody cancels a callback waiter, or wakes the
consumer for another reason. -/
inductive Action (π : Type u) (T : Type v)
  | push (party : π) (value : T)
  | close (party : π)
  | produce (party : π)
  | next (timed : Bool)
  | tryNext
  | nextOrAttach (waiter : Option ℕ)
  | select
  | read (again : Bool)
  | timeout (takesToken : Bool)
  | spurious
  | unwind
  | cancel (waiter : ℕ)
  | staleWake

/-- A new `Stream`. -/
def initial (π : Type u) (T : Type v) (capacity : ℕ) : State π T where
  ring := RingBuffer.empty capacity
  closed := false
  consumer := none
  droppedCount := 0
  producer := fun _ ↦ .idle
  reader := .idle
  token := false
  cancelled := fun _ ↦ false
  delivered := []
  pushes := 0
  pending := []
  ended := false

namespace State

variable {π : Type u} {T : Type v}

/-- The full ring drops its first item. -/
def evict (s : State π T) : State π T :=
  { s with ring := s.ring.pop.2, droppedCount := s.droppedCount + 1 }

/-- `popLocked` for the consumer. -/
def popLocked (s : State π T) : State π T :=
  { s with ring := s.ring.pop.2, delivered := s.delivered ++ [s.ring.pop.1] }

/-- `tryNext`. -/
def tryNext (s : State π T) : State π T :=
  if s.ring.count = 0 then s else s.popLocked

/-- `next` and `nextUntil` under the lock. -/
def take (s : State π T) (timed : Bool) : State π T :=
  if s.ring.count ≠ 0 then { s.popLocked with reader := .detaching }
  else if s.closed then { s with reader := .detaching, ended := true }
  else { s with consumer := some .blocked, reader := .blocked timed }

/-- `attach` under the lock. -/
def attach (s : State π T) : State π T :=
  if s.ring.count ≠ 0 ∨ s.closed = true then { s with reader := .selectDetaching }
  else { s with consumer := some .blocked, reader := .armed }

/-- `detach` under the lock. -/
def detach (s : State π T) : State π T :=
  { s with consumer := if s.consumer = some .blocked then none else s.consumer }

/-- `nextOrAttach` under the lock. -/
def nextOrAttach (s : State π T) (waiter : Option ℕ) : State π T :=
  if s.ring.count ≠ 0 then s.popLocked
  else if s.closed then { s with ended := true }
  else
    match waiter with
    | none => s
    | some waiter =>
      if s.cancelled waiter then s
      else { s with consumer := some (.callback waiter), reader := .enqueued waiter }

/-- `cancel` under the lock. -/
def cancel (s : State π T) (waiter : ℕ) : State π T :=
  if s.consumer = some (.callback waiter) then
    { s with
      consumer := none
      reader := if s.reader = .enqueued waiter then .idle else s.reader }
  else { s with cancelled := Function.update s.cancelled waiter true }

/-- `Waker::wake`. -/
def wake (s : State π T) : Option Waker → State π T
  | none => s
  | some .blocked => { s with token := true }
  | some (.callback waiter) =>
    { s with reader := if s.reader = .enqueued waiter then .idle else s.reader }

variable [DecidableEq π]

/-- A producer goes on. -/
def goto (s : State π T) (p : π) (pc : ProducerPc T) : State π T :=
  { s with producer := Function.update s.producer p pc }

/-- The end of `push` under the lock: the item is constructed, and the consumer taken. -/
def construct (s : State π T) (p : π) (value : T) : State π T :=
  { s.goto p (.waking s.consumer) with
    ring := s.ring.push value
    consumer := none
    pending := s.pending.erase p }

/-- `push` under the lock. -/
def push (overflow : Overflow) (s : State π T) (p : π) (value : T) : State π T :=
  if s.closed = true ∨ s.ring.count = s.ring.capacity ∧ overflow = .dropNewest then
    s.goto p .counting
  else if s.ring.count = s.ring.capacity then s.evict.construct p value
  else s.construct p value

/-- A producer takes its next step. -/
def produce (overflow : Overflow) (s : State π T) (p : π) : Option (State π T) :=
  match s.producer p with
  | .idle => none
  | .pushing value => some (s.push overflow p value)
  | .counting =>
    some { s.goto p .idle with
      droppedCount := s.droppedCount + 1
      pending := s.pending.erase p }
  | .closing => some { s.goto p (.waking s.consumer) with closed := true, consumer := none }
  | .waking waker => some ((s.goto p .idle).wake waker)

omit [DecidableEq π] in
/-- The consumer takes its next step. -/
def read (s : State π T) (again : Bool) : Option (State π T) :=
  match s.reader with
  | .idle => none
  | .taking timed => some (s.take timed)
  | .blocked timed =>
    if s.token then some { s with token := false, reader := .taking timed } else none
  | .trying => some { s.tryNext with reader := .detaching }
  | .detaching => some { s.detach with reader := .idle }
  | .selecting => some s.attach
  | .armed => some { s with reader := if again then .selectBlocked else .selectDetaching }
  | .selectBlocked =>
    if s.token then some { s with token := false, reader := .selectDetaching } else none
  | .selectDetaching => some { s.detach with reader := if again then .selecting else .idle }
  | .enqueued _ => none

end State

variable {π : Type u} {T : Type v} [DecidableEq π]

/-- One step. -/
def step (overflow : Overflow) (s : State π T) : Action π T → Option (State π T)
  | .push p value =>
    if s.producer p matches .idle then
      some { s.goto p (.pushing value) with pushes := s.pushes + 1, pending := p :: s.pending }
    else none
  | .close p => if s.producer p matches .idle then some (s.goto p .closing) else none
  | .produce p => s.produce overflow p
  | .next timed => if s.reader = .idle then some { s with reader := .taking timed } else none
  | .tryNext => if s.reader = .idle then some s.tryNext else none
  | .nextOrAttach waiter => if s.reader = .idle then some (s.nextOrAttach waiter) else none
  | .select => if s.reader = .idle then some { s with reader := .selecting } else none
  | .read again => s.read again
  | .timeout takesToken =>
    match s.reader with
    | .blocked true => some { s with reader := .trying, token := s.token && !takesToken }
    | .selectBlocked => some { s with reader := .selectDetaching, token := s.token && !takesToken }
    | _ => none
  | .spurious =>
    match s.reader with
    | .blocked timed => some { s with reader := .taking timed }
    | .selectBlocked => some { s with reader := .selectDetaching }
    | _ => none
  | .unwind =>
    match s.reader with
    | .blocked _ => some { s with reader := .detaching }
    | .selectBlocked => some { s with reader := .selectDetaching }
    | _ => none
  | .cancel waiter => some (s.cancel waiter)
  | .staleWake => some { s with token := true }

omit [DecidableEq π] in
/-- The item that the consumer takes. -/
def item (s : State π T) : Option (LossyFifo.Event T) :=
  if s.ring.count = 0 then none else some (.pop s.ring.pop.1)

omit [DecidableEq π] in
/-- The push, the close or the item that a step shows. -/
def event (s : State π T) : Action π T → Option (LossyFifo.Event T)
  | .produce p =>
    match s.producer p with
    | .pushing value => some (.push value)
    | .closing => some .close
    | _ => none
  | .tryNext => item s
  | .nextOrAttach _ => item s
  | .read _ =>
    match s.reader with
    | .taking _ => item s
    | .trying => item s
    | _ => none
  | _ => none

/-- A stream with its producers and its consumer under every order of steps. -/
def system (π : Type u) (T : Type v) [DecidableEq π] (overflow : Overflow) (capacity : ℕ) :
    System (State π T) (Action π T) where
  init s := s = initial π T capacity
  step := step overflow

end Stackfull.Sync.Stream
