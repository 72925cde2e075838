import Mathlib
import Stackfull.Lib.Transition
import Stackfull.Sync.Waiter

/-!
# The wait group

`sync/src/WaitGroup.cpp`, and `wait_group_source` (`exec/sync.hpp`) for a wait without a task. The
count is a bare atomic of 64 bits and the list stands behind a `SpinLock`, so each access to the
count, each access to the list and each lock and unlock is a step of its own. `done` that finds no
count aborts.

`sawZero` and `returns` are history: whether the count has been zero since the party began its call,
and how each call ended, with `sawZero` of that moment. An asynchronous wait calls `ready`, and
`waitOrEnqueue` if that fails; each counts as a call, so a zero before the second is not held in its
favour.
-/

set_option autoImplicit false
set_option relaxedAutoImplicit false
set_option linter.dupNamespace false

namespace Stackfull.Sync.WaitGroup

open Stackfull.Lib

universe u

/-- The values of a `size_t`. -/
def countModulus : ℕ := 2 ^ 64

/-- The two ways to wait for zero. -/
inductive Mode
  | wait
  | waitOrEnqueue
  deriving DecidableEq, Repr

/-- Where the count is read: in `ready`, at the beginning of a wait, and under its lock. -/
inductive Site
  | ready
  | fast (mode : Mode)
  | recheck (mode : Mode)
  deriving DecidableEq, Repr

/-- What a call reports. `completed` is a `wait` that returned, or a wait without a task that ended
with a value; `notReady` comes from `ready`; `cancelled` is `Cancelled` from `waitOrEnqueue`;
`stopped` is the completion of an operation that `cancel` took out of the list; `unwound` is a task
that left by `ForcedUnwind`, with the `wasLinked` of its guard. -/
inductive Result
  | completed
  | notReady
  | cancelled
  | stopped
  | added
  | done
  | cancelReturned (taken : Bool)
  | unwound (wasLinked : Bool)
  deriving DecidableEq, Repr

/-- The critical sections. -/
inductive Section (ι : Type u)
  | enqueue (mode : Mode)
  | release
  | cancel (target : ι)
  | guard

/-- What a party does once it has left its critical section. -/
inductive After (ι : Type u)
  | returned (result : Result)
  | waiting
  | enqueued
  | notifying (chain : List ι)
  | awaitingNotifier

/-- Where a party stands in its call. -/
inductive Pc (ι : Type u)
  | idle
  | loading (site : Site)
  | locking (part : Section ι)
  | pushing (mode : Mode)
  | popping (chain : List ι)
  | cancelling (target : ι)
  | guarding
  | unlocking (after : After ι)
  | waiting
  | enqueued
  | adding (count : ℕ)
  | subtracting
  | notifying (chain : List ι)
  | awaitingNotifier
  | returned (result : Result)

/-- The first point of a critical section. -/
def Section.entry {ι : Type u} : Section ι → Pc ι
  | .enqueue mode => .loading (.recheck mode)
  | .release => .popping []
  | .cancel target => .cancelling target
  | .guard => .guarding

/-- A call a party can begin. -/
inductive Call (ι : Type u)
  | add (count : ℕ)
  | done
  | wait
  | ready
  | waitOrEnqueue
  | cancel (target : ι)

/-- A step of the system: a callback operation makes its waiter, a party begins a call or takes the
next step of its call, or the reaper throws `ForcedUnwind` at the `park` of a waiting task. -/
inductive Action (ι : Type u)
  | newWaiter (party : ι)
  | call (party : ι) (call : Call ι)
  | act (party : ι)
  | forcedUnwind (party : ι)

/-- The group, the waiters of the parties, and where every party stands. -/
structure State (ι : Type u) where
  pending : ℕ
  lock : Option ι
  waiters : WaitList ι
  satisfied : ι → Bool
  cancelled : ι → Bool
  pc : ι → Pc ι
  sawZero : ι → Bool
  returns : List (ι × Result × Bool)

variable {ι : Type u} [DecidableEq ι]

/-- A group with a count that nobody has touched yet. -/
def initial (ι : Type u) (pending : ℕ) : State ι where
  pending := pending
  lock := none
  waiters := []
  satisfied := fun _ ↦ false
  cancelled := fun _ ↦ false
  pc := fun _ ↦ .idle
  sawZero := fun _ ↦ decide (pending = 0)
  returns := []

namespace State

/-- Moves one party to another point of its call. -/
@[simps]
def setPc (s : State ι) (p : ι) (pc : Pc ι) : State ι :=
  { s with pc := Function.update s.pc p pc }

/-- Ends the call of a party. -/
@[simps]
def finish (s : State ι) (p : ι) (result : Result) : State ι :=
  { s with
    pc := Function.update s.pc p (.returned result)
    returns := s.returns ++ [(p, result, s.sawZero p)] }

/-- What follows a load of the count. A blocking `wait` makes its waiter after the first; under the
lock `waitOrEnqueue` looks whether its waiter was cancelled before it loads. -/
def load (s : State ι) (p : ι) : Site → State ι
  | .ready => s.finish p (if s.pending = 0 then .completed else .notReady)
  | .fast mode =>
    if s.pending = 0 then s.finish p .completed
    else
      { s.setPc p (.locking (.enqueue mode)) with
        satisfied := Function.update s.satisfied p (decide (mode ≠ .wait) && s.satisfied p) }
  | .recheck mode =>
    if mode = .waitOrEnqueue ∧ s.cancelled p = true then
      s.setPc p (.unlocking (.returned .cancelled))
    else if s.pending = 0 then s.setPc p (.unlocking (.returned .completed))
    else s.setPc p (.pushing mode)

/-- `waiters.pushBack` of a party's own waiter. -/
def push (s : State ι) (p : ι) (mode : Mode) : State ι :=
  { s.setPc p (.unlocking (if mode = .wait then .waiting else .enqueued)) with
    waiters := s.waiters.pushBack p }

/-- `lock.unlock()` and what follows it. -/
def unlock (s : State ι) (p : ι) : After ι → State ι
  | .returned result => { s.finish p result with lock := none }
  | .waiting => { s.setPc p .waiting with lock := none }
  | .enqueued => { s.setPc p .enqueued with lock := none }
  | .notifying chain => { s.setPc p (.notifying chain) with lock := none }
  | .awaitingNotifier => { s.setPc p .awaitingNotifier with lock := none }

/-- The loop of `done` under the lock: the next waiter goes in front of the chain. -/
def stepPopping (s : State ι) (p : ι) (chain : List ι) : State ι :=
  match s.waiters with
  | [] => s.setPc p (.unlocking (.notifying chain))
  | w :: rest => { s.setPc p (.popping (w :: chain)) with waiters := rest }

/-- `cancel`, with `cancelWaiter`. An operation taken out of the list is completed as stopped. -/
def stepCancelling (s : State ι) (p target : ι) : State ι :=
  if target ∈ s.waiters then
    ({ s with waiters := s.waiters.unlink target }.finish target .stopped).setPc p
      (.unlocking (.returned (.cancelReturned true)))
  else
    { s.setPc p (.unlocking (.returned (.cancelReturned false))) with
      cancelled := Function.update s.cancelled target true }

/-- The destructor of `WaitGuard` under the lock. -/
def stepGuarding (s : State ι) (p : ι) : State ι :=
  if p ∈ s.waiters then
    { s.setPc p (.unlocking (.returned (.unwound true))) with waiters := s.waiters.unlink p }
  else s.setPc p (.unlocking .awaitingNotifier)

/-- `Waiter::notify`. The callback completes the operation; a task or a thread may leave `wait`. -/
def notify (kind : ι → Kind) (s : State ι) (w : ι) : Option (State ι) :=
  match kind w with
  | .callback =>
    match s.pc w with
    | .enqueued => some (s.finish w .completed)
    | _ => none
  | _ => some { s with satisfied := Function.update s.satisfied w true }

/-- The next step of a party's call; none where the party is blocked or has no call. -/
def act (kind : ι → Kind) (s : State ι) (p : ι) : Option (State ι) :=
  match s.pc p with
  | .idle => none
  | .loading site => some (s.load p site)
  | .locking part => if s.lock = none then some { s.setPc p part.entry with lock := some p } else
        none
  | .pushing mode => some (s.push p mode)
  | .popping chain => some (s.stepPopping p chain)
  | .cancelling target => some (s.stepCancelling p target)
  | .guarding => some (s.stepGuarding p)
  | .unlocking after => some (s.unlock p after)
  | .waiting => if s.satisfied p then some (s.finish p .completed) else none
  | .enqueued => none
  | .adding count => some { s.finish p .added with pending := (s.pending + count) % countModulus }
  | .subtracting =>
    match s.pending with
    | 0 => none
    | 1 => some { s.setPc p (.locking .release) with pending := 0 }
    | left + 2 => some { s.finish p .done with pending := left + 1 }
  | .notifying [] => some (s.finish p .done)
  | .notifying (w :: rest) => (s.setPc p (.notifying rest)).notify kind w
  | .awaitingNotifier => if s.satisfied p then some (s.finish p (.unwound false)) else none
  | .returned _ => none

/-- The party can begin a call. -/
def isFree (s : State ι) (p : ι) : Bool :=
  match s.pc p with
  | .idle => true
  | .returned _ => true
  | _ => false

/-- The point a call begins at, for the kind of party that may make it. -/
def entry (kind : ι → Kind) (p : ι) : Call ι → Option (Pc ι)
  | .add count => some (.adding count)
  | .done => some .subtracting
  | .wait => if kind p = .callback then none else some (.loading (.fast .wait))
  | .ready => some (.loading .ready)
  | .waitOrEnqueue => if kind p = .callback then some (.loading (.fast .waitOrEnqueue)) else none
  | .cancel target =>
    if kind target = .callback ∧ target ≠ p then some (.locking (.cancel target)) else none

/-- Begins a call. -/
def begin (kind : ι → Kind) (s : State ι) (p : ι) (call : Call ι) : Option (State ι) :=
  if s.isFree p then
    (entry kind p call).map fun pc ↦
      { s.setPc p pc with sawZero := Function.update s.sawZero p (decide (s.pending = 0)) }
  else none

/-- The forced unwind of a task in `wait`: it leaves its `park` and runs the destructor of its
`WaitGuard`. -/
def forcedUnwind (kind : ι → Kind) (s : State ι) (p : ι) : Option (State ι) :=
  match kind p, s.pc p with
  | .task, .waiting => some (s.setPc p (.locking .guard))
  | _, _ => none

/-- Every call under way has now seen a count of zero, if the count is zero. -/
def observe (s : State ι) : State ι :=
  { s with sawZero := fun p ↦ s.sawZero p || decide (s.pending = 0) }

/-- The step before the count is observed. -/
def move (kind : ι → Kind) (s : State ι) : Action ι → Option (State ι)
  | .newWaiter p =>
    if s.isFree p then some { s with cancelled := Function.update s.cancelled p false } else none
  | .call p call => s.begin kind p call
  | .act p => s.act kind p
  | .forcedUnwind p => s.forcedUnwind kind p

/-- One step. -/
def step (kind : ι → Kind) (s : State ι) (a : Action ι) : Option (State ι) :=
  (s.move kind a).map observe

end State

/-- A wait group that starts at zero. -/
def system (kind : ι → Kind) : System (State ι) (Action ι) where
  init s := s = initial ι 0
  step s a := s.step kind a

end Stackfull.Sync.WaitGroup
