import Stackfull.Lib.Transition

/-!
# Completions

`CompletionState` and `Completion` (`sync/Completion.h`), with `Waiter::block` and `blockUntil`
(`Waiter.cpp`). Any number of parties produce: each claims, stores its outcome, publishes, and wakes
the consumer whose waker it has taken. A critical section is one step; `claimed` and `ready` are
also read outside of it. Constructing the value in `set` may throw.

There is one consumer. It waits with `get` or `getUntil` (`timed`), attaches itself in a `select`,
or queues callbacks, each with a waiter of its own, that anybody may cancel. Its wakers as a task or
as a thread are the same (`blocked`): a wake sets `token`, and a return from `park` takes it. A
deadline may pass at any moment, somebody else may wake the consumer, `park` may return for no
reason, and a task may be unwound there.

`claims`, `delivered`, `timeouts`, `calls`, `withdrawn` and `threw` are history: the calls in the
order of their claims; the outcomes moved out, none for one that had been moved out before; for each
`timed_out` what the final check had read; the waiters whose callback was called, and those for
which `cancel` returned true; and whether a `set` with the claim threw.
-/

set_option autoImplicit false
set_option relaxedAutoImplicit false
set_option linter.dupNamespace false

namespace Stackfull.Sync.Completion

open Stackfull.Lib

universe u v

/-- `Outcome`: a value, an error (the default one stands for none), and perhaps an exception. -/
@[ext]
structure Outcome (α ε χ : Type v) where
  value : α
  error : ε
  exception : Option χ
  deriving DecidableEq

/-- `set`, `fail` and `setException`. -/
inductive Call (α ε χ : Type v)
  | set (value : α)
  | fail (error : ε)
  | setException (exception : Option χ)
  deriving DecidableEq

variable {α ε χ : Type v}

/-- `Outcome{}`. -/
def Outcome.empty [Inhabited α] [Inhabited ε] : Outcome α ε χ where
  value := default
  error := default
  exception := none

/-- What a call with the claim writes. -/
def Call.store : Call α ε χ → Outcome α ε χ → Outcome α ε χ
  | .set value, o => { o with value := value }
  | .fail error, o => { o with error := error }
  | .setException exception, o => { o with exception := exception }

/-- The outcome of a call with the claim. -/
def Call.outcome [Inhabited α] [Inhabited ε] (call : Call α ε χ) : Outcome α ε χ :=
  call.store .empty

/-- `Waker`, unless it is empty: the consumer itself, or one of its callback waiters. -/
inductive Waker
  | blocked
  | callback (waiter : ℕ)
  deriving DecidableEq

/-- Where a producer stands. -/
inductive ProducerPc (α ε χ : Type v)
  | idle
  | claiming (call : Call α ε χ)
  | storing (call : Call α ε χ)
  | publishing
  | waking (waker : Option Waker)
  | returned
  | threw

/-- What follows `~DetachOnExit`. `ready` is what the final check of `getUntil` has read. -/
inductive Leave
  | deliver
  | timedOut (ready : Bool)
  | unwound
  deriving DecidableEq

/-- Where the consumer stands: in `get` or `getUntil`, in a `select`, or with a callback waiter. -/
inductive ReaderPc
  | idle
  | testing (timed : Bool)
  | attaching (timed : Bool)
  | blocked (timed : Bool)
  | checking
  | detaching (leave : Leave)
  | moving
  | selecting
  | armed
  | selectBlocked
  | selectDetaching
  | preparing (waiter : ℕ)
  | enqueued (waiter : ℕ)
  deriving DecidableEq

/-- The shared state, and where everybody stands. -/
structure State (π : Type u) (α ε χ : Type v) where
  claimed : Bool
  ready : Bool
  consumer : Option Waker
  outcome : Option (Outcome α ε χ)
  producer : π → ProducerPc α ε χ
  reader : ReaderPc
  token : Bool
  waiters : ℕ
  cancelled : ℕ → Bool
  claims : List (Call α ε χ)
  delivered : List (Option (Outcome α ε χ))
  timeouts : List Bool
  calls : List ℕ
  withdrawn : List ℕ
  threw : Bool

/-- A step: a producer begins a call, goes on in it, or throws while it makes its value; the
consumer begins to wait in one way or another, or goes on (`again` says what a `select` does next);
its deadline passes, its `park` returns for no reason, or it is unwound there; somebody cancels a
callback waiter, or wakes the consumer for another reason. -/
inductive Action (π : Type u) (α ε χ : Type v)
  | call (party : π) (call : Call α ε χ)
  | produce (party : π)
  | throws (party : π)
  | get (timed : Bool)
  | select
  | newWaiter
  | read (again : Bool)
  | timeout (takesToken : Bool)
  | spurious
  | unwind
  | cancel (waiter : ℕ)
  | staleWake

/-- A new `Completion`. -/
def initial (π : Type u) (α ε χ : Type v) [Inhabited α] [Inhabited ε] : State π α ε χ where
  claimed := false
  ready := false
  consumer := none
  outcome := some .empty
  producer := fun _ ↦ .idle
  reader := .idle
  token := false
  waiters := 0
  cancelled := fun _ ↦ false
  claims := []
  delivered := []
  timeouts := []
  calls := []
  withdrawn := []
  threw := false

namespace State

variable {π : Type u} [DecidableEq π]

/-- The call whose claim came first. -/
def winner (s : State π α ε χ) : Option (Call α ε χ) := s.claims.head?

/-- A producer goes on. -/
def goto (s : State π α ε χ) (p : π) (pc : ProducerPc α ε χ) : State π α ε χ :=
  { s with producer := Function.update s.producer p pc }

/-- `claim`. -/
def claim (s : State π α ε χ) (p : π) (call : Call α ε χ) : State π α ε χ :=
  if s.claimed then { s.goto p .returned with claims := s.claims ++ [call] }
  else { s.goto p (.storing call) with claimed := true, claims := s.claims ++ [call] }

/-- `Waker::wake`. -/
def wake (s : State π α ε χ) : Option Waker → State π α ε χ
  | none => s
  | some .blocked => { s with token := true }
  | some (.callback waiter) =>
    { s with
      calls := s.calls ++ [waiter]
      reader := if s.reader = .enqueued waiter then .idle else s.reader }

/-- A producer takes its next step. -/
def produce (s : State π α ε χ) (p : π) : Option (State π α ε χ) :=
  match s.producer p with
  | .idle => none
  | .claiming call => some (s.claim p call)
  | .storing call => some { s.goto p .publishing with outcome := s.outcome.map call.store }
  | .publishing => some { s.goto p (.waking s.consumer) with ready := true, consumer := none }
  | .waking waker => some ((s.goto p .returned).wake waker)
  | .returned => none
  | .threw => none

/-- The construction or the assignment of the value throws. -/
def throws (s : State π α ε χ) (p : π) : Option (State π α ε χ) :=
  match s.producer p with
  | .storing (.set _) => some { s.goto p .threw with threw := true }
  | _ => none

/-- `attach` under the lock: false if there is nothing to wait for. -/
def attach (s : State π α ε χ) (attached refused : ReaderPc) : State π α ε χ :=
  if s.ready then { s with reader := refused }
  else { s with consumer := some .blocked, reader := attached }

/-- `detach` under the lock. -/
def detach (s : State π α ε χ) : State π α ε χ :=
  { s with consumer := if s.consumer = some .blocked then none else s.consumer }

/-- `attachOrReady` under the lock. -/
def attachOrReady (s : State π α ε χ) (waiter : ℕ) : State π α ε χ :=
  if s.ready then { s with reader := .idle }
  else if s.cancelled waiter then { s with reader := .idle }
  else { s with consumer := some (.callback waiter), reader := .enqueued waiter }

/-- `cancel` under the lock. -/
def cancel (s : State π α ε χ) (waiter : ℕ) : State π α ε χ :=
  if s.consumer = some (.callback waiter) then
    { s with
      consumer := none
      withdrawn := s.withdrawn ++ [waiter]
      reader := if s.reader = .enqueued waiter then .idle else s.reader }
  else { s with cancelled := Function.update s.cancelled waiter true }

/-- What the consumer does once it has detached itself. -/
def leave (s : State π α ε χ) : Leave → State π α ε χ
  | .deliver => { s with reader := .moving }
  | .timedOut ready => { s with reader := .idle, timeouts := s.timeouts ++ [ready] }
  | .unwound => { s with reader := .idle }

/-- The consumer takes its next step. -/
def read (s : State π α ε χ) (again : Bool) : Option (State π α ε χ) :=
  match s.reader with
  | .idle => none
  | .testing timed => some { s with reader := if s.ready then .moving else .attaching timed }
  | .attaching timed =>
    some (s.attach (.blocked timed) (if timed then .checking else .detaching .deliver))
  | .blocked timed =>
    if s.token then some { s with token := false, reader := .attaching timed } else none
  | .checking =>
    some { s with reader := .detaching (if s.ready then .deliver else .timedOut s.ready) }
  | .detaching leave => some (s.detach.leave leave)
  | .moving =>
    some { s with reader := .idle, delivered := s.delivered ++ [s.outcome], outcome := none }
  | .selecting => some (s.attach .armed .selectDetaching)
  | .armed => some { s with reader := if again then .selectBlocked else .selectDetaching }
  | .selectBlocked =>
    if s.token then some { s with token := false, reader := .selectDetaching } else none
  | .selectDetaching => some { s.detach with reader := if again then .selecting else .idle }
  | .preparing waiter => some (s.attachOrReady waiter)
  | .enqueued _ => none

end State

variable {π : Type u} [DecidableEq π]

/-- One step. -/
def step (s : State π α ε χ) : Action π α ε χ → Option (State π α ε χ)
  | .call p call =>
    match s.producer p with
    | .idle | .returned | .threw => some (s.goto p (.claiming call))
    | _ => none
  | .produce p => s.produce p
  | .throws p => s.throws p
  | .get timed => if s.reader = .idle then some { s with reader := .testing timed } else none
  | .select => if s.reader = .idle then some { s with reader := .selecting } else none
  | .newWaiter =>
    if s.reader = .idle then
      some { s with
        reader := .preparing s.waiters
        waiters := s.waiters + 1
        cancelled := Function.update s.cancelled s.waiters false }
    else none
  | .read again => s.read again
  | .timeout takesToken =>
    match s.reader with
    | .blocked true => some { s with reader := .checking, token := s.token && !takesToken }
    | .selectBlocked => some { s with reader := .selectDetaching, token := s.token && !takesToken }
    | _ => none
  | .spurious =>
    match s.reader with
    | .blocked timed => some { s with reader := .attaching timed }
    | .selectBlocked => some { s with reader := .selectDetaching }
    | _ => none
  | .unwind =>
    match s.reader with
    | .blocked _ => some { s with reader := .detaching .unwound }
    | .selectBlocked => some { s with reader := .selectDetaching }
    | _ => none
  | .cancel waiter => some (s.cancel waiter)
  | .staleWake => some { s with token := true }

/-- A completion with its producers and its consumer under every order of steps. -/
def system (π : Type u) (α ε χ : Type v) [DecidableEq π] [Inhabited α] [Inhabited ε] :
    System (State π α ε χ) (Action π α ε χ) where
  init s := s = initial π α ε χ
  step := step

end Stackfull.Sync.Completion
