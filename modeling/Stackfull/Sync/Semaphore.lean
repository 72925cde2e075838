import Stackfull.Lib.Transition
import Stackfull.Sync.Waiter
import Mathlib.Tactic.Simps.Basic

/-!
# The counting semaphore

`sync/src/Semaphore.cpp`. The fast paths work on the bare atomic `permits`, the slow paths on
`waiterCount` and on a list behind a `SpinLock`, so each atomic access, each access to the list
and each lock and unlock is a step of its own. A `compare_exchange_weak` may also fail for no
reason; the label `spurious` is that step.

`tryAcquire` runs in five places, and `Site` says in which: as a call of its own, as the fast path
of `acquire` and `acquireOrEnqueue`, and as their second look under the lock. A compare-exchange
that expects `left + 1` permits carries `left`.

`increments`, `grants`, `enqueued`, `handed` and `returns` are history: which release added its
permit, which call was given one, which call queued its waiter, which call a release popped and
gave a permit, and how each call ended. No step reads them. `Mutex` is the semaphore with one
permit.
-/

set_option autoImplicit false
set_option relaxedAutoImplicit false
set_option linter.dupNamespace false

namespace Stackfull.Sync.Semaphore

open Stackfull.Lib

universe u

/-- The two ways to wait for a permit. -/
inductive Mode
  | acquire
  | acquireOrEnqueue
  deriving DecidableEq, Repr

/-- Where `tryAcquire` was called from. -/
inductive Site
  | tryAcquire
  | fast (mode : Mode)
  | recheck (mode : Mode)
  deriving DecidableEq, Repr

/-- What a call reports. `refused` is `false` from `tryAcquire`; `cancelled` is `Cancelled` from
`acquireOrEnqueue`; `stopped` is the completion of an operation that `cancel` took out of the
list; `unwound` is a task that left by `ForcedUnwind`, with the `wasLinked` of its guard. -/
inductive Result
  | acquired
  | refused
  | cancelled
  | stopped
  | released
  | cancelReturned (taken : Bool)
  | unwound (wasLinked : Bool)
  deriving DecidableEq, Repr

/-- The critical sections. -/
inductive Section (ι : Type u)
  | enqueue (mode : Mode)
  | cancel (target : ι)
  | handOver
  | guard

/-- What a party does once it has left its critical section. -/
inductive After (ι : Type u)
  | returned (result : Result)
  | waiting
  | enqueued
  | notifying (chain : List ι)
  | awaitingNotifier

/-- Where a party stands in its call. -/
inductive Pc (ι : Type u)
  | idle
  | loading (site : Site)
  | swapping (site : Site) (left : ℕ)
  | locking (part : Section ι)
  | announcing (mode : Mode)
  | pushing (mode : Mode)
  | subtracting (result : Result)
  | unlocking (after : After ι)
  | waiting
  | enqueued
  | cancelling (target : ι)
  | adding
  | checking
  | handing (chain : List ι)
  | loadingFor (chain : List ι)
  | swappingFor (chain : List ι) (left : ℕ)
  | popping (chain : List ι)
  | fixing (chain : List ι)
  | notifying (chain : List ι)
  | guarding
  | awaitingNotifier
  | returned (result : Result)

/-- The first point of a critical section. -/
def Section.entry {ι : Type u} : Section ι → Pc ι
  | .enqueue mode => .announcing mode
  | .cancel target => .cancelling target
  | .handOver => .handing []
  | .guard => .guarding

/-- A call a party can begin. -/
inductive Call (ι : Type u)
  | acquire
  | tryAcquire
  | acquireOrEnqueue
  | cancel (target : ι)
  | release

/-- A step of the system: a callback operation makes its waiter, a party begins a call or takes
the next step of its call, its compare-exchange fails for no reason, or the reaper throws
`ForcedUnwind` at the `park` of a waiting task. -/
inductive Action (ι : Type u)
  | newWaiter (party : ι)
  | call (party : ι) (call : Call ι)
  | act (party : ι)
  | spurious (party : ι)
  | forcedUnwind (party : ι)

/-- The permits a semaphore starts with, and how each party waits. -/
structure Config (ι : Type u) where
  initialPermits : ℕ
  kind : ι → Kind

/-- `Mutex`: one permit. -/
def mutex {ι : Type u} (kind : ι → Kind) : Config ι where
  initialPermits := 1
  kind := kind

/-- The semaphore, the waiters of the parties, and where every party stands. -/
structure State (ι : Type u) where
  permits : ℕ
  waiterCount : ℕ
  lock : Option ι
  waiters : WaitList ι
  satisfied : ι → Bool
  cancelled : ι → Bool
  pc : ι → Pc ι
  callCount : ι → ℕ
  increments : List (ι × ℕ)
  grants : List (ι × ℕ)
  enqueued : List (ι × ℕ)
  handed : List (ι × ℕ)
  returns : List ((ι × ℕ) × Result)

variable {ι : Type u} [DecidableEq ι]

/-- `Semaphore::Semaphore`. -/
def initial (c : Config ι) : State ι where
  permits := c.initialPermits
  waiterCount := 0
  lock := none
  waiters := []
  satisfied := fun _ ↦ false
  cancelled := fun _ ↦ false
  pc := fun _ ↦ .idle
  callCount := fun _ ↦ 0
  increments := []
  grants := []
  enqueued := []
  handed := []
  returns := []

namespace State

/-- Moves one party to another point of its call. -/
@[simps]
def setPc (s : State ι) (p : ι) (pc : Pc ι) : State ι :=
  { s with pc := Function.update s.pc p pc }

/-- The identity of the call a party is in. -/
def callOf (s : State ι) (p : ι) : ι × ℕ := (p, s.callCount p)

/-- Ends the call of a party. -/
@[simps]
def finish (s : State ι) (p : ι) (result : Result) : State ι :=
  { s with
    pc := Function.update s.pc p (.returned result)
    returns := s.returns ++ [(s.callOf p, result)] }

/-- A permit leaves the counter for the call of a party. -/
@[simps]
def grant (s : State ι) (p : ι) (left : ℕ) : State ι :=
  { s with permits := left, grants := s.grants ++ [s.callOf p] }

/-- Replaces the list of waiters. -/
@[simps]
def setWaiters (s : State ι) (list : WaitList ι) : State ι :=
  { s with waiters := list }

/-- `waiters.pushBack` of a party's own waiter. -/
@[simps]
def push (s : State ι) (p : ι) : State ι :=
  { s with waiters := s.waiters.pushBack p, enqueued := s.enqueued ++ [s.callOf p] }

/-- A release popped `w` and gives it the permit it has in hand. -/
@[simps]
def handTo (s : State ι) (w : ι) (rest : WaitList ι) : State ι :=
  { s with
    waiters := rest
    grants := s.grants ++ [s.callOf w]
    handed := s.handed ++ [s.callOf w] }

/-- `tryAcquire` saw no permit. A blocking `acquire` makes its waiter here. -/
def tryFailed (s : State ι) (p : ι) : Site → State ι
  | .tryAcquire => s.finish p .refused
  | .fast .acquire =>
    { s.setPc p (.locking (.enqueue .acquire)) with
      satisfied := Function.update s.satisfied p false }
  | .fast .acquireOrEnqueue => s.setPc p (.locking (.enqueue .acquireOrEnqueue))
  | .recheck mode => s.setPc p (.pushing mode)

/-- `tryAcquire` took a permit. -/
def trySucceeded (s : State ι) (p : ι) (left : ℕ) : Site → State ι
  | .recheck _ => (s.grant p left).setPc p (.subtracting .acquired)
  | _ => (s.grant p left).finish p .acquired

/-- `tryAcquire` read `permits`, by its load or by a compare-exchange that failed. -/
def tryRead (s : State ι) (p : ι) (site : Site) : State ι :=
  match s.permits with
  | 0 => s.tryFailed p site
  | left + 1 => s.setPc p (.swapping site left)

/-- The loop of `release` read `permits`, by its load or by a compare-exchange that failed. -/
def handRead (s : State ι) (p : ι) (chain : List ι) : State ι :=
  match s.permits with
  | 0 => s.setPc p (.unlocking (.notifying chain))
  | left + 1 => s.setPc p (.swappingFor chain left)

/-- `waiterCount.fetch_add(1)`, the announcement; before it `acquireOrEnqueue` looks whether its
waiter was cancelled. -/
def announce (s : State ι) (p : ι) (mode : Mode) : State ι :=
  if mode = .acquireOrEnqueue ∧ s.cancelled p = true then
    s.setPc p (.unlocking (.returned .cancelled))
  else
    { s.setPc p (.loading (.recheck mode)) with waiterCount := s.waiterCount + 1 }

/-- `lock.unlock()` and what follows it. -/
def unlock (s : State ι) (p : ι) : After ι → State ι
  | .returned result => { s.finish p result with lock := none }
  | .waiting => { s.setPc p .waiting with lock := none }
  | .enqueued => { s.setPc p .enqueued with lock := none }
  | .notifying chain => { s.setPc p (.notifying chain) with lock := none }
  | .awaitingNotifier => { s.setPc p .awaitingNotifier with lock := none }

/-- `cancel`, with `cancelWaiter`. An operation taken out of the list is completed as stopped. -/
def stepCancelling (s : State ι) (p target : ι) : State ι :=
  if target ∈ s.waiters then
    ((s.setWaiters (s.waiters.unlink target)).finish target .stopped).setPc p
      (.subtracting (.cancelReturned true))
  else
    { s.setPc p (.unlocking (.returned (.cancelReturned false))) with
      cancelled := Function.update s.cancelled target true }

/-- The destructor of `WaitGuard` under the lock. -/
def stepGuarding (s : State ι) (p : ι) : State ι :=
  if p ∈ s.waiters then
    (s.setWaiters (s.waiters.unlink p)).setPc p (.subtracting (.unwound true))
  else s.setPc p (.unlocking .awaitingNotifier)

/-- `Waiter::notify`. The callback means that a permit was taken on the operation's behalf; a task
or a thread may leave `wait`. -/
def notify (c : Config ι) (s : State ι) (w : ι) : Option (State ι) :=
  match c.kind w with
  | .callback =>
    match s.pc w with
    | .enqueued => some (s.finish w .acquired)
    | _ => none
  | _ => some { s with satisfied := Function.update s.satisfied w true }

/-- The next step of a party's call; none where the party is blocked or has no call. -/
def act (c : Config ι) (s : State ι) (p : ι) : Option (State ι) :=
  match s.pc p with
  | .idle => none
  | .loading site => some (s.tryRead p site)
  | .swapping site left =>
    if s.permits = left + 1 then some (s.trySucceeded p left site) else some (s.tryRead p site)
  | .locking part => if s.lock = none then some { s.setPc p part.entry with lock := some p } else none
  | .announcing mode => some (s.announce p mode)
  | .pushing .acquire => some ((s.push p).setPc p (.unlocking .waiting))
  | .pushing .acquireOrEnqueue => some ((s.push p).setPc p (.unlocking .enqueued))
  | .subtracting result =>
    some { s.setPc p (.unlocking (.returned result)) with waiterCount := s.waiterCount - 1 }
  | .unlocking after => some (s.unlock p after)
  | .waiting => if s.satisfied p then some (s.finish p .acquired) else none
  | .enqueued => none
  | .cancelling target => some (s.stepCancelling p target)
  | .adding =>
    some { s.setPc p .checking with
      permits := s.permits + 1
      increments := s.increments ++ [s.callOf p] }
  | .checking =>
    if s.waiterCount = 0 then some (s.finish p .released)
    else some (s.setPc p (.locking .handOver))
  | .handing chain =>
    if s.waiters = [] then some (s.setPc p (.unlocking (.notifying chain)))
    else some (s.setPc p (.loadingFor chain))
  | .loadingFor chain => some (s.handRead p chain)
  | .swappingFor chain left =>
    if s.permits = left + 1 then some { s.setPc p (.popping chain) with permits := left }
    else some (s.handRead p chain)
  | .popping chain =>
    match s.waiters with
    | [] => none
    | w :: rest => some ((s.handTo w rest).setPc p (.fixing (chain ++ [w])))
  | .fixing chain => some { s.setPc p (.handing chain) with waiterCount := s.waiterCount - 1 }
  | .notifying [] => some (s.finish p .released)
  | .notifying (w :: rest) => (s.setPc p (.notifying rest)).notify c w
  | .guarding => some (s.stepGuarding p)
  | .awaitingNotifier => if s.satisfied p then some (s.finish p (.unwound false)) else none
  | .returned _ => none

/-- A `compare_exchange_weak` that fails although it found what it expected. -/
def spurious (s : State ι) (p : ι) : Option (State ι) :=
  match s.pc p with
  | .swapping site _ => some (s.tryRead p site)
  | .swappingFor chain _ => some (s.handRead p chain)
  | _ => none

/-- The party can begin a call. -/
def isFree (s : State ι) (p : ι) : Bool :=
  match s.pc p with
  | .idle => true
  | .returned _ => true
  | _ => false

/-- The point a call begins at, for the kind of party that may make it. -/
def entry (c : Config ι) (p : ι) : Call ι → Option (Pc ι)
  | .acquire => if c.kind p = .callback then none else some (.loading (.fast .acquire))
  | .tryAcquire => some (.loading .tryAcquire)
  | .acquireOrEnqueue =>
    if c.kind p = .callback then some (.loading (.fast .acquireOrEnqueue)) else none
  | .cancel target =>
    if c.kind target = .callback ∧ target ≠ p then some (.locking (.cancel target)) else none
  | .release => some .adding

/-- Begins a call. -/
def begin (c : Config ι) (s : State ι) (p : ι) (call : Call ι) : Option (State ι) :=
  if s.isFree p then
    (entry c p call).map fun pc ↦
      { s.setPc p pc with callCount := Function.update s.callCount p (s.callCount p + 1) }
  else none

/-- The forced unwind of a task in `acquire`: it leaves `wait` and runs the destructor of its
`WaitGuard`. -/
def forcedUnwind (c : Config ι) (s : State ι) (p : ι) : Option (State ι) :=
  match c.kind p, s.pc p with
  | .task, .waiting => some (s.setPc p (.locking .guard))
  | _, _ => none

/-- One step. -/
def step (c : Config ι) (s : State ι) : Action ι → Option (State ι)
  | .newWaiter p =>
    if s.isFree p then some { s with cancelled := Function.update s.cancelled p false } else none
  | .call p call => s.begin c p call
  | .act p => s.act c p
  | .spurious p => s.spurious p
  | .forcedUnwind p => s.forcedUnwind c p

end State

/-- The semaphore as a step system. -/
def system (c : Config ι) : System (State ι) (Action ι) where
  init s := s = initial c
  step s a := s.step c a

end Stackfull.Sync.Semaphore
