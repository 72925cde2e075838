import Stackfull.Lib.RingBuffer
import Stackfull.Lib.Transition
import Stackfull.Sync.Waiter
import Mathlib.Tactic.Simps.Basic

/-!
# The bounded channel

`sync/include/stackfull/sync/Channel.h`. Everything a channel holds sits behind one `SpinLock`, so
a critical section is one step; a notification happens after the lock is released and is a step of
its own, as is each return from `Waiter::wait`.

A party of `ι` is a task, a plain thread or an operation that waits with a callback. It performs
one call after another; `State.pc` says where in its call it stands. `send` and `recv` share
their shape, so a call carries what it wants to move (`Transfer`) and the two lists of waiters are
one family indexed by the `Side` a waiter waits on: `senders` is `queue .send` and `receivers` is
`queue .recv`.

`accepted` and `received` are history: which call moved which value into the channel and out of
it, in the order of the critical sections. No step reads them.
-/

set_option autoImplicit false
set_option relaxedAutoImplicit false
set_option linter.dupNamespace false

namespace Stackfull.Sync.Channel

open Stackfull.Lib

universe u v

/-- The two ends of the channel. -/
inductive Side
  | send
  | recv
  deriving DecidableEq, Repr

/-- The end that a transfer at this end can unblock. -/
def Side.peer : Side → Side
  | .send => .recv
  | .recv => .send

/-- What a call wants to move: a value into the channel, or the next value out of it. -/
inductive Transfer (T : Type v)
  | send (value : T)
  | recv

/-- The end a transfer happens at. -/
def Transfer.side {T : Type v} : Transfer T → Side
  | .send _ => .send
  | .recv => .recv

/-- What a call reports. `transferred` is `true` and `Done`; `closed` is `false` from `send` and
`recv`, and `Closed`; `refused` is `false` from `trySend` and `tryRecv`, and `WouldBlock`;
`stopped` is the completion of an operation another party took out of the queue; `unwound` is a
task that left by `ForcedUnwind`. -/
inductive Result
  | transferred
  | closed
  | refused
  | cancelled
  | stopped
  | unwound
  | cancelReturned (taken : Bool)
  | closeReturned
  deriving DecidableEq, Repr

/-- Where a party stands in its call. -/
inductive Pc (ι : Type u) (T : Type v)
  | idle
  | blocking (transfer : Transfer T)
  | waiting (transfer : Transfer T)
  | trying (transfer : Transfer T)
  | orEnqueue (transfer : Transfer T) (withWaiter : Bool)
  | enqueued (transfer : Transfer T)
  | cancelling (side : Side) (target : ι)
  | closing
  | notifying (chain : List ι) (result : Result)
  | unwinding (side : Side)
  | awaitingNotifier
  | returned (result : Result)

/-- A call a party can begin. -/
inductive Call (ι : Type u) (T : Type v)
  | send (value : T)
  | trySend (value : T)
  | recv
  | tryRecv
  | sendOrEnqueue (value : T) (withWaiter : Bool)
  | recvOrEnqueue (withWaiter : Bool)
  | cancelSend (target : ι)
  | cancelRecv (target : ι)
  | close

/-- A step of the system: a callback operation makes its waiter, a party begins a call, a party
takes the next step of its call, or the reaper throws `ForcedUnwind` at the `park` of a waiting
task. -/
inductive Action (ι : Type u) (T : Type v)
  | newWaiter (party : ι)
  | call (party : ι) (call : Call ι T)
  | act (party : ι)
  | forcedUnwind (party : ι)

/-- A channel's constant part: its capacity, which the constructor checks to be at least one, how
each party waits, and the end a callback operation transfers at. -/
structure Config (ι : Type u) where
  capacity : ℕ
  capacity_pos : 1 ≤ capacity
  kind : ι → Kind
  operationSide : ι → Side

/-- The channel, the waiters of the parties, and where every party stands. -/
structure State (ι : Type u) (T : Type v) where
  ring : RingBuffer T
  closed : Bool
  queue : Side → WaitList ι
  satisfied : ι → Bool
  cancelled : ι → Bool
  pc : ι → Pc ι T
  callCount : ι → ℕ
  accepted : List ((ι × ℕ) × T)
  received : List ((ι × ℕ) × T)
  acceptedAtClose : ℕ

variable {ι : Type u} {T : Type v} [DecidableEq ι]

/-- `Channel::Channel`: nothing buffered, nobody waiting, no call begun. -/
def initial (c : Config ι) : State ι T where
  ring := .empty c.capacity
  closed := false
  queue := fun _ ↦ []
  satisfied := fun _ ↦ false
  cancelled := fun _ ↦ false
  pc := fun _ ↦ .idle
  callCount := fun _ ↦ 0
  accepted := []
  received := []
  acceptedAtClose := 0

namespace State

/-- Moves one party to another point of its call. -/
@[simps]
def setPc (s : State ι T) (p : ι) (pc : Pc ι T) : State ι T :=
  { s with pc := Function.update s.pc p pc }

/-- Replaces the waiters of one end. -/
@[simps]
def setQueue (s : State ι T) (side : Side) (list : WaitList ι) : State ι T :=
  { s with queue := Function.update s.queue side list }

/-- The identity of the call a party is in. -/
def callOf (s : State ι T) (p : ι) : ι × ℕ := (p, s.callCount p)

/-- `pushLocked`. -/
@[simps]
def pushLocked (s : State ι T) (p : ι) (value : T) : State ι T :=
  { s with ring := s.ring.push value, accepted := s.accepted ++ [(s.callOf p, value)] }

/-- The channel after `popLocked` handed `value` to a party. -/
@[simps]
def popped (s : State ι T) (p : ι) (value : T) : State ι T :=
  { s with ring := s.ring.pop.2, received := s.received ++ [(s.callOf p, value)] }

/-- `popLocked`; stuck when the first slot holds no value. -/
def popLocked (s : State ι T) (p : ι) : Option (State ι T) :=
  s.ring.pop.1.map fun value ↦ s.popped p value

/-- The test the critical sections of `send` and `recv` make: the transfer can happen now. -/
def isReady (s : State ι T) : Transfer T → Bool
  | .send _ => !s.closed && decide (s.ring.count < s.ring.capacity)
  | .recv => decide (s.ring.count ≠ 0)

/-- The other test: the transfer cannot happen now nor later. For a receiver the channel must be
drained too. -/
def isOver (s : State ι T) : Transfer T → Bool
  | .send _ => s.closed
  | .recv => decide (s.ring.count = 0) && s.closed

/-- The critical section of a transfer that can happen: the value moves, the first waiter of the
other end is taken off its list, and is notified after the lock is released. -/
def transferNow (s : State ι T) (p : ι) (transfer : Transfer T) : Option (State ι T) :=
  let moved := match transfer with
    | .send value => some (s.pushLocked p value)
    | .recv => s.popLocked p
  moved.map fun m ↦
    let peer := transfer.side.peer
    let (taken, rest) := (m.queue peer).popFront
    (m.setQueue peer rest).setPc p (.notifying taken.toList .transferred)

/-- One pass through the loop of `send` or `recv` by a task or thread. -/
def stepBlocking (s : State ι T) (p : ι) (transfer : Transfer T) : Option (State ι T) :=
  if s.isReady transfer then s.transferNow p transfer
  else if s.isOver transfer then some (s.setPc p (.returned .closed))
  else
    let side := transfer.side
    some { (s.setQueue side ((s.queue side).pushBack p)).setPc p (.waiting transfer) with
      satisfied := Function.update s.satisfied p false }

/-- `trySend` and `tryRecv`. -/
def stepTrying (s : State ι T) (p : ι) (transfer : Transfer T) : Option (State ι T) :=
  if s.isReady transfer then s.transferNow p transfer
  else some (s.setPc p (.returned .refused))

/-- `sendOrEnqueue` and `recvOrEnqueue`, with `enqueueLocked`. -/
def stepOrEnqueue (s : State ι T) (p : ι) (transfer : Transfer T) (withWaiter : Bool) :
    Option (State ι T) :=
  if s.isReady transfer then s.transferNow p transfer
  else if s.isOver transfer then some (s.setPc p (.returned .closed))
  else if !withWaiter then some (s.setPc p (.returned .refused))
  else if s.cancelled p then some (s.setPc p (.returned .cancelled))
  else
    let side := transfer.side
    some ((s.setQueue side ((s.queue side).pushBack p)).setPc p (.enqueued transfer))

/-- `cancelSend` and `cancelRecv`, with `cancelWaiter`. An operation taken out of the queue is
completed as stopped by the caller. -/
def stepCancelling (s : State ι T) (p : ι) (side : Side) (target : ι) : State ι T :=
  if target ∈ s.queue side then
    ((s.setQueue side ((s.queue side).unlink target)).setPc target (.returned .stopped)).setPc p
      (.returned (.cancelReturned true))
  else
    { s.setPc p (.returned (.cancelReturned false)) with
      cancelled := Function.update s.cancelled target true }

/-- The critical section of `close`. Each waiter is prepended to the chain as it is popped. -/
@[simps]
def stepClosing (s : State ι T) (p : ι) : State ι T :=
  { s with
    closed := true
    queue := fun _ ↦ []
    acceptedAtClose := if s.closed then s.acceptedAtClose else s.accepted.length
    pc := Function.update s.pc p
      (.notifying ((s.queue .recv).reverse ++ (s.queue .send).reverse) .closeReturned) }

/-- `Waiter::notify`. A callback tries its operation again; a task or a thread may leave `wait`. -/
def notify (c : Config ι) (s : State ι T) (w : ι) : Option (State ι T) :=
  match c.kind w with
  | .callback =>
    match s.pc w with
    | .enqueued transfer => some (s.setPc w (.orEnqueue transfer true))
    | _ => none
  | _ => some { s with satisfied := Function.update s.satisfied w true }

/-- The next step of a party's call; none where the party is blocked or has no call. -/
def act (c : Config ι) (s : State ι T) (p : ι) : Option (State ι T) :=
  match s.pc p with
  | .idle => none
  | .blocking transfer => s.stepBlocking p transfer
  | .waiting transfer =>
    if s.satisfied p then some (s.setPc p (.blocking transfer)) else none
  | .trying transfer => s.stepTrying p transfer
  | .orEnqueue transfer withWaiter => s.stepOrEnqueue p transfer withWaiter
  | .enqueued _ => none
  | .cancelling side target => some (s.stepCancelling p side target)
  | .closing => some (s.stepClosing p)
  | .notifying [] result => some (s.setPc p (.returned result))
  | .notifying (w :: rest) result => (s.setPc p (.notifying rest result)).notify c w
  | .unwinding side =>
    if p ∈ s.queue side then
      some ((s.setQueue side ((s.queue side).unlink p)).setPc p (.returned .unwound))
    else some (s.setPc p .awaitingNotifier)
  | .awaitingNotifier => if s.satisfied p then some (s.setPc p (.returned .unwound)) else none
  | .returned _ => none

/-- The party can begin a call. -/
def isFree (s : State ι T) (p : ι) : Bool :=
  match s.pc p with
  | .idle => true
  | .returned _ => true
  | _ => false

/-- The point a call begins at, for the kind of party that may make it: tasks and threads block,
callback operations queue their waiter at their own end, and only the waiter of a callback
operation is cancelled, at that end. -/
def entry (c : Config ι) (p : ι) : Call ι T → Option (Pc ι T)
  | .send value => if c.kind p = .callback then none else some (.blocking (.send value))
  | .recv => if c.kind p = .callback then none else some (.blocking .recv)
  | .trySend value => some (.trying (.send value))
  | .tryRecv => some (.trying .recv)
  | .sendOrEnqueue value withWaiter =>
    if withWaiter = true → c.kind p = .callback ∧ c.operationSide p = .send then
      some (.orEnqueue (.send value) withWaiter)
    else none
  | .recvOrEnqueue withWaiter =>
    if withWaiter = true → c.kind p = .callback ∧ c.operationSide p = .recv then
      some (.orEnqueue .recv withWaiter)
    else none
  | .cancelSend target =>
    if c.kind target = .callback ∧ c.operationSide target = .send ∧ target ≠ p then
      some (.cancelling .send target)
    else none
  | .cancelRecv target =>
    if c.kind target = .callback ∧ c.operationSide target = .recv ∧ target ≠ p then
      some (.cancelling .recv target)
    else none
  | .close => some .closing

/-- Begins a call. -/
def begin (c : Config ι) (s : State ι T) (p : ι) (call : Call ι T) : Option (State ι T) :=
  if s.isFree p then
    (entry c p call).map fun pc ↦
      { s.setPc p pc with callCount := Function.update s.callCount p (s.callCount p + 1) }
  else none

/-- The forced unwind of a waiting task: it leaves `wait` and runs the destructor of its
`WaitGuard`. -/
def forcedUnwind (c : Config ι) (s : State ι T) (p : ι) : Option (State ι T) :=
  match c.kind p, s.pc p with
  | .task, .waiting transfer => some (s.setPc p (.unwinding transfer.side))
  | _, _ => none

/-- One step. -/
def step (c : Config ι) (s : State ι T) : Action ι T → Option (State ι T)
  | .newWaiter p =>
    if s.isFree p then some { s with cancelled := Function.update s.cancelled p false } else none
  | .call p call => s.begin c p call
  | .act p => s.act c p
  | .forcedUnwind p => s.forcedUnwind c p

/-! ### What an update leaves in place -/

attribute [grind =] setPc_ring setPc_closed setPc_queue setPc_satisfied setPc_pc setPc_callCount
  setPc_accepted setPc_received setPc_acceptedAtClose

attribute [grind =] setQueue_ring setQueue_closed setQueue_queue setQueue_satisfied setQueue_pc
  setQueue_callCount setQueue_accepted setQueue_received setQueue_acceptedAtClose

attribute [grind =] pushLocked_ring pushLocked_closed pushLocked_queue pushLocked_satisfied
  pushLocked_pc pushLocked_callCount pushLocked_accepted pushLocked_received
  pushLocked_acceptedAtClose

attribute [grind =] popped_ring popped_closed popped_queue popped_satisfied popped_pc
  popped_callCount popped_accepted popped_received popped_acceptedAtClose

attribute [grind =] stepClosing_ring stepClosing_closed stepClosing_queue stepClosing_satisfied
  stepClosing_pc stepClosing_callCount stepClosing_accepted stepClosing_received
  stepClosing_acceptedAtClose

end State

/-- The channel as a step system. -/
def system (c : Config ι) : System (State ι T) (Action ι T) where
  init s := s = initial c
  step s a := s.step c a

end Stackfull.Sync.Channel
