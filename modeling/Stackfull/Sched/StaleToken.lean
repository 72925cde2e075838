import Stackfull.Lib.Transition
import Stackfull.Lib.StoreBuffer
import Stackfull.Sched.Tasks

/-!
# Consuming a stale wake token under total store order

`Waiter::wait` loops `while (not satisfied) park()`, and `Waiter::notify` stores `satisfied` and
wakes. A token that an earlier wake left behind makes one `park` return at once: it loads the word,
finds the token and overwrites it with a plain store (`this_task::park` in `ThisTask.h`,
`onTaskParked` in `Runtime.h`, `FutexParker::park` in `Parker.cpp`). On x86 that store waits in the
buffer of its thread, so the waiter may test `satisfied` again before anybody else sees the token
gone.

There is one waiter and any number of notifiers, each a thread with a store buffer
(`Stackfull.Lib.Tso`). `Task` is the waiter that parks a task, `Futex` the one that blocks a thread.
In both, the store that consumes a token is the only one the waiter issues.

A task that is scheduled again runs once its pointer has been taken from a run queue. The pointer is
written behind the store of `Running` in the same buffer, or the buffer is emptied by the
`fetch_sub` on the pins before the notifier's worker switches to the task: `schedule` waits for the
notifier's buffer to be empty.
-/

set_option autoImplicit false
set_option relaxedAutoImplicit false
set_option linter.dupNamespace false

namespace Stackfull.Sched.StaleToken

open Stackfull.Lib
open Stackfull.Sched.Tasks (TaskState)

universe u

/-- The threads. -/
inductive Thread (ι : Type u)
  | waiter
  | notifier (i : ι)
  deriving DecidableEq

/-- The flag of the waiter and the word of its parker. -/
structure Memory (τ : Type) where
  satisfied : Bool
  word : τ

/-- The stores of the protocol: `satisfied = true`, and a plain store to the word. -/
inductive Store (τ : Type)
  | satisfied
  | word (value : τ)

variable {τ : Type}

/-- What a store does to memory. -/
def Store.apply : Store τ → Memory τ → Memory τ
  | .satisfied, m => { m with satisfied := true }
  | .word value, m => { m with word := value }

@[simp] theorem Store.apply_satisfied (m : Memory τ) :
    Store.apply .satisfied m = { m with satisfied := true } := rfl

@[simp] theorem Store.apply_word (value : τ) (m : Memory τ) :
    Store.apply (.word value) m = { m with word := value } := rfl

/-- A step: the waiter or a notifier takes its next access, a buffer gives up its oldest store, or
a blocked futex call returns by itself. -/
inductive Action (ι : Type u)
  | waiter
  | notifier (i : ι) (spurious : Bool)
  | drain (t : Thread ι)
  | interrupt

/-- Memory with its buffers, and where everybody stands. -/
structure State (ι : Type u) (τ π ν : Type) where
  tso : Tso (Thread ι) (Memory τ) (Store τ)
  waiter : π
  notifier : ι → ν

namespace State

variable {ι : Type u} {π ν : Type} [DecidableEq ι]

/-- The waiter goes on. -/
def gotoWaiter (s : State ι τ π ν) (pc : π) : State ι τ π ν :=
  { s with waiter := pc }

/-- A notifier goes on. -/
def goto (s : State ι τ π ν) (i : ι) (pc : ν) : State ι τ π ν :=
  { s with notifier := Function.update s.notifier i pc }

/-- A thread issues a store. -/
def store (s : State ι τ π ν) (t : Thread ι) (w : Store τ) : State ι τ π ν :=
  { s with tso := s.tso.store t w }

/-- A thread executes a read-modify-write. -/
def modify (s : State ι τ π ν) (t : Thread ι) (f : Memory τ → Memory τ) :
    Option (State ι τ π ν) :=
  (s.tso.modify t f).map fun tso ↦ { s with tso := tso }

/-- The oldest store of a thread reaches memory. -/
def drain (s : State ι τ π ν) (t : Thread ι) : Option (State ι τ π ν) :=
  (s.tso.drain Store.apply t).map fun tso ↦ { s with tso := tso }

/-- What a thread sees. -/
def view (s : State ι τ π ν) (t : Thread ι) : Memory τ :=
  s.tso.view Store.apply t

/-- The stores the waiter has issued and memory has not received. -/
def pending (s : State ι τ π ν) : List (Store τ) :=
  s.tso.buffer .waiter

/-- Nobody has begun, and a token may have been left behind in the word. -/
def start (word : τ) (waiter : π) (notifier : ν) : State ι τ π ν where
  tso := { memory := { satisfied := false, word := word }, buffer := fun _ ↦ [] }
  waiter := waiter
  notifier := fun _ ↦ notifier

end State

/-! ### A task as the waiter -/

namespace Task

/-- Where the waiter stands: at the test of `satisfied`, at the load of `parkState` in `park`, at
the store that consumes a token, at the exchange of `onTaskParked` or the store behind its failure,
parked, or back from `wait`. -/
inductive WaiterPc
  | test
  | load
  | consume
  | swap
  | restore
  | parked
  | returned
  deriving DecidableEq, Repr

/-- Where a notifier stands in `notify`, `WakeToken::wake` and `SchedulerCore::wake`. -/
inductive NotifierPc
  | begin
  | pin
  | load
  | swap (seen : TaskState)
  | store
  | schedule
  | unpin
  | finished
  deriving DecidableEq, Repr

/-- The states of the protocol. -/
abbrev TaskWait (ι : Type u) := State ι TaskState WaiterPc NotifierPc

variable {ι : Type u} [DecidableEq ι]

/-- The exchange of `onTaskParked`. -/
def parkSwap (m : Memory TaskState) : Memory TaskState :=
  if m.word = .running then { m with word := .parked } else m

/-- `wake` after it has read the word. -/
def afterRead : TaskState → NotifierPc
  | .notified => .unpin
  | .done => .unpin
  | seen => .swap seen

/-- The next access of the waiter. -/
def waiterStep (s : TaskWait ι) : Option (TaskWait ι) :=
  match s.waiter with
  | .test => some (s.gotoWaiter (if (s.view .waiter).satisfied then .returned else .load))
  | .load => some (s.gotoWaiter (if (s.view .waiter).word = .notified then .consume else .swap))
  | .consume => some ((s.store .waiter (.word .running)).gotoWaiter .test)
  | .swap =>
    (s.modify .waiter parkSwap).map fun t ↦
      t.gotoWaiter (if s.tso.memory.word = .running then .parked else .restore)
  | .restore => some ((s.store .waiter (.word .running)).gotoWaiter .test)
  | .parked => none
  | .returned => none

/-- The next access of a notifier. -/
def notifierStep (s : TaskWait ι) (i : ι) (spurious : Bool) : Option (TaskWait ι) :=
  match s.notifier i with
  | .begin => some ((s.store (.notifier i) .satisfied).goto i .pin)
  | .pin => (s.modify (.notifier i) id).map fun t ↦ t.goto i .load
  | .load => some (s.goto i (afterRead (s.view (.notifier i)).word))
  | .swap seen =>
    if s.tso.memory.word = seen ∧ spurious = false then
      (s.modify (.notifier i) fun m ↦ { m with word := .notified }).map fun t ↦
        t.goto i (if seen = .parked then .store else .unpin)
    else (s.modify (.notifier i) id).map fun t ↦ t.goto i (afterRead s.tso.memory.word)
  | .store => some ((s.store (.notifier i) (.word .running)).goto i .schedule)
  | .schedule =>
    (s.modify (.notifier i) id).map fun t ↦ (t.goto i .unpin).gotoWaiter .test
  | .unpin => (s.modify (.notifier i) id).map fun t ↦ t.goto i .finished
  | .finished => none

/-- One step. -/
def step (s : TaskWait ι) : Action ι → Option (TaskWait ι)
  | .waiter => waiterStep s
  | .notifier i spurious => notifierStep s i spurious
  | .drain t => s.drain t
  | .interrupt => none

/-- The waiter and its notifiers, with or without a token left behind. -/
def system (ι : Type u) [DecidableEq ι] : System (TaskWait ι) (Action ι) where
  init s := s = State.start .running .test .begin ∨ s = State.start .notified .test .begin
  step := step

/-- A lost wake: the notifiers are through, memory has every store, and the waiter is parked with
its flag set and no token. -/
def Lost (s : TaskWait ι) : Prop :=
  (∀ i, s.notifier i = .finished) ∧ s.tso.Drained ∧ s.waiter = .parked ∧
    s.tso.memory.word = .parked ∧ s.tso.memory.satisfied = true

/-- The waiter has tested `satisfied` again while the store that consumes a token is still in its
buffer. -/
def retestedEarly (s : TaskWait ι) : Bool :=
  !s.pending.isEmpty && (s.waiter = .load || s.waiter = .swap)

/-- No notifier reads the word while the waiter has tested `satisfied` too early. -/
def seesConsumption (s : TaskWait ι) : Action ι → Bool
  | .notifier i _ =>
    match s.notifier i with
    | .load => !retestedEarly s
    | .swap _ => !retestedEarly s
    | _ => true
  | _ => true

end Task

/-! ### A thread as the waiter -/

namespace Futex

/-- The states of the word of a `FutexParker`. -/
inductive ParkerState
  | empty
  | notified
  | parked
  deriving DecidableEq, Repr

/-- Where the waiter stands: at the test of `satisfied`, at the exchange of `park`, at the load of
its loop, at the futex call, blocked in it, at the store that consumes the token, or back from
`wait`. -/
inductive WaiterPc
  | test
  | swap
  | load
  | wait
  | asleep
  | consume
  | returned
  deriving DecidableEq, Repr

/-- Where a notifier stands in `notify` and `unpark`. -/
inductive NotifierPc
  | begin
  | exchange
  | wake
  | finished
  deriving DecidableEq, Repr

/-- The states of the protocol. -/
abbrev ThreadWait (ι : Type u) := State ι ParkerState WaiterPc NotifierPc

variable {ι : Type u} [DecidableEq ι]

/-- The exchange of `park`. -/
def parkSwap (m : Memory ParkerState) : Memory ParkerState :=
  if m.word = .empty then { m with word := .parked } else m

/-- The next access of the waiter. The futex call compares the word in the kernel. -/
def waiterStep (s : ThreadWait ι) : Option (ThreadWait ι) :=
  match s.waiter with
  | .test => some (s.gotoWaiter (if (s.view .waiter).satisfied then .returned else .swap))
  | .swap =>
    (s.modify .waiter parkSwap).map fun t ↦
      t.gotoWaiter (if s.tso.memory.word = .empty then .load else .consume)
  | .load => some (s.gotoWaiter (if (s.view .waiter).word = .parked then .wait else .consume))
  | .wait =>
    (s.modify .waiter id).map fun t ↦
      t.gotoWaiter (if s.tso.memory.word = .parked then .asleep else .load)
  | .asleep => none
  | .consume => some ((s.store .waiter (.word .empty)).gotoWaiter .test)
  | .returned => none

/-- The next access of a notifier. -/
def notifierStep (s : ThreadWait ι) (i : ι) : Option (ThreadWait ι) :=
  match s.notifier i with
  | .begin => some ((s.store (.notifier i) .satisfied).goto i .exchange)
  | .exchange =>
    (s.modify (.notifier i) fun m ↦ { m with word := .notified }).map fun t ↦
      t.goto i (if s.tso.memory.word = .parked then .wake else .finished)
  | .wake => some ((s.gotoWaiter (if s.waiter = .asleep then .load else s.waiter)).goto i .finished)
  | .finished => none

/-- One step. -/
def step (s : ThreadWait ι) : Action ι → Option (ThreadWait ι)
  | .waiter => waiterStep s
  | .notifier i _ => notifierStep s i
  | .drain t => s.drain t
  | .interrupt => if s.waiter = .asleep then some (s.gotoWaiter .load) else none

/-- The waiter and its notifiers, with or without a token left behind. -/
def system (ι : Type u) [DecidableEq ι] : System (ThreadWait ι) (Action ι) where
  init s := s = State.start .empty .test .begin ∨ s = State.start .notified .test .begin
  step := step

/-- A lost wake: the notifiers are through, memory has every store, and the waiter is blocked with
its flag set and no token. -/
def Lost (s : ThreadWait ι) : Prop :=
  (∀ i, s.notifier i = .finished) ∧ s.tso.Drained ∧ s.waiter = .asleep ∧
    s.tso.memory.word = .parked ∧ s.tso.memory.satisfied = true

/-- The waiter has tested `satisfied` again while the store that consumes a token is still in its
buffer. -/
def retestedEarly (s : ThreadWait ι) : Bool :=
  !s.pending.isEmpty && (s.waiter = .swap)

/-- No notifier exchanges the word while the waiter has tested `satisfied` too early. -/
def seesConsumption (s : ThreadWait ι) : Action ι → Bool
  | .notifier i _ =>
    match s.notifier i with
    | .exchange => !retestedEarly s
    | _ => true
  | _ => true

end Futex

end Stackfull.Sched.StaleToken
