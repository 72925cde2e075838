import Stackfull.Lib.Refinement
import Mathlib.Data.Int.Notation

/-!
# Parkers

A `Parker` (`Parker.h`) blocks one thread until another unparks it. `Token` says what it is for: a
boolean token that `unpark` sets, `park` waits for and clears, and `parkFor` clears or leaves in
place. `Futex` is `FutexParker` and `Condvar` is `CondvarParker` (`Parker.cpp`), one step for each
access to the word, each futex call, each operation on the mutex and the condition variable and
each look at the clock.

One thread owns the parker and calls `park` and `parkFor`; any number of notifiers call `unpark`.
The system calls are modelled by what they promise: `FUTEX_WAIT` sleeps only if the word still has
the value it was given, it may return at any time, and `FUTEX_WAKE` ends it; a wait for a condition
gives up the mutex and begins to wait in one step, may end at any time, and reports a timeout only
after the deadline. Every access to the futex word is to one atomic location, so the order of the
steps is its modification order.
-/

set_option autoImplicit false
set_option relaxedAutoImplicit false
set_option linter.dupNamespace false

namespace Stackfull.Sched.Parker

open Stackfull.Lib

universe u

/-- What a user of a parker sees. -/
inductive Event (κ : Type u)
  | park
  | parkFor (timeout : ℤ)
  | parkReturned
  | parkForReturned (notified : Bool)
  | unpark (notifier : κ)
  | unparkReturned (notifier : κ)

/-- The end of `park` or of a `parkFor`. -/
def Event.returned {κ : Type u} (timed notified : Bool) : Event κ :=
  if timed then .parkForReturned notified else .parkReturned

/-! ### The token -/

namespace Token

/-- Where the owner stands. -/
inductive OwnerPc
  | idle
  | waiting (timed : Bool)
  | done (timed notified : Bool)
  deriving DecidableEq

/-- Where a notifier stands. -/
inductive NotifierPc
  | idle
  | calling
  | posted
  deriving DecidableEq

/-- The token and where everybody stands. -/
structure State (κ : Type u) where
  token : Bool
  owner : OwnerPc
  notifier : κ → NotifierPc

/-- Calls begin and end, a token is posted, taken, or not waited for any longer. -/
inductive Action (κ : Type u)
  | park
  | parkFor (timeout : ℤ)
  | take
  | giveUp
  | ownerReturn
  | unpark (notifier : κ)
  | post (notifier : κ)
  | notifierReturn (notifier : κ)

variable {κ : Type u} [DecidableEq κ]

/-- One step. -/
def step (s : State κ) : Action κ → Option (State κ)
  | .park => if s.owner = .idle then some { s with owner := .waiting false } else none
  | .parkFor _ => if s.owner = .idle then some { s with owner := .waiting true } else none
  | .take =>
    match s.owner with
    | .waiting timed =>
      if s.token then some { s with token := false, owner := .done timed true } else none
    | _ => none
  | .giveUp => if s.owner = .waiting true then some { s with owner := .done true false } else none
  | .ownerReturn =>
    match s.owner with
    | .done _ _ => some { s with owner := .idle }
    | _ => none
  | .unpark k =>
    if s.notifier k = .idle then
      some { s with notifier := Function.update s.notifier k .calling }
    else none
  | .post k =>
    if s.notifier k = .calling then
      some { s with token := true, notifier := Function.update s.notifier k .posted }
    else none
  | .notifierReturn k =>
    if s.notifier k = .posted then
      some { s with notifier := Function.update s.notifier k .idle }
    else none

/-- What a step shows. -/
def event (s : State κ) : Action κ → Option (Event κ)
  | .park => some .park
  | .parkFor timeout => some (.parkFor timeout)
  | .ownerReturn =>
    match s.owner with
    | .done timed notified => some (.returned timed notified)
    | _ => none
  | .unpark k => some (.unpark k)
  | .notifierReturn k => some (.unparkReturned k)
  | _ => none

/-- The one-token semaphore as a step system. -/
def system (κ : Type u) [DecidableEq κ] : System (State κ) (Action κ) where
  init s := s = ⟨false, .idle, fun _ ↦ .idle⟩
  step := step

end Token

/-- A step of an implementation. `interrupt` ends a wait early, or for its timeout. -/
inductive Action (κ : Type u)
  | tick (elapsed : ℕ)
  | park
  | parkFor (timeout : ℤ)
  | owner
  | interrupt (timedOut : Bool)
  | unpark (notifier : κ)
  | notifier (notifier : κ)

/-! ### `FutexParker` -/

namespace Futex

/-- `kEmpty`, `kNotified` and `kParked`. -/
inductive Word
  | empty
  | notified
  | parked
  deriving DecidableEq

/-- Where the owner stands; a deadline or a timeout is there in `parkFor` only. -/
inductive OwnerPc
  | idle
  | swap (timeout : Option ℤ)
  | clock (timeout : ℤ)
  | load (deadline : Option ℤ)
  | check (deadline : ℤ)
  | giveUp
  | wait (deadline : Option ℤ)
  | asleep (deadline : Option ℤ)
  | store (timed notified : Bool)
  | returning (timed notified : Bool)
  deriving DecidableEq

/-- Where a notifier stands. -/
inductive NotifierPc
  | idle
  | exchange
  | wake
  | returning
  deriving DecidableEq

/-- The word, the clock, and where everybody stands. -/
structure State (κ : Type u) where
  now : ℤ
  word : Word
  owner : OwnerPc
  notifier : κ → NotifierPc

/-- Nobody uses the parker. -/
def initial {κ : Type u} : State κ := ⟨0, .empty, .idle, fun _ ↦ .idle⟩

variable {κ : Type u}

/-- The next step of `park` or `parkFor`; none where the thread sleeps. -/
def ownerStep (s : State κ) : Option (State κ) :=
  match s.owner with
  | .idle => none
  | .swap timeout =>
    if s.word = .empty then
      some { s with
        word := .parked
        owner := match timeout with
          | none => .load none
          | some timeout => .clock timeout }
    else some { s with owner := .store timeout.isSome true }
  | .clock timeout => some { s with owner := .load (some (s.now + timeout)) }
  | .load deadline =>
    if s.word = .parked then
      some { s with
        owner := match deadline with
          | none => .wait none
          | some deadline => .check deadline }
    else some { s with owner := .store deadline.isSome true }
  | .check deadline =>
    some { s with owner := if deadline ≤ s.now then .giveUp else .wait (some deadline) }
  | .giveUp =>
    if s.word = .parked then some { s with word := .empty, owner := .store true false }
    else some { s with owner := .store true true }
  | .wait deadline =>
    some { s with owner := if s.word = .parked then .asleep deadline else .load deadline }
  | .asleep _ => none
  | .store timed notified => some { s with word := .empty, owner := .returning timed notified }
  | .returning _ _ => some { s with owner := .idle }

/-- `FUTEX_WAKE`. -/
def OwnerPc.woken : OwnerPc → OwnerPc
  | .asleep deadline => .load deadline
  | pc => pc

variable [DecidableEq κ]

/-- Moves a notifier. -/
def State.goto (s : State κ) (k : κ) (pc : NotifierPc) : State κ :=
  { s with notifier := Function.update s.notifier k pc }

/-- The next step of `unpark`. -/
def notifierStep (s : State κ) (k : κ) : Option (State κ) :=
  match s.notifier k with
  | .idle => none
  | .exchange =>
    some ({ s with word := .notified }.goto k (if s.word = Word.parked then .wake else .returning))
  | .wake => some ({ s with owner := s.owner.woken }.goto k .returning)
  | .returning => some (s.goto k .idle)

/-- One step. -/
def step (s : State κ) : Action κ → Option (State κ)
  | .tick elapsed => some { s with now := s.now + elapsed }
  | .park => if s.owner = .idle then some { s with owner := .swap none } else none
  | .parkFor timeout =>
    if s.owner = .idle then some { s with owner := .swap (some timeout) } else none
  | .owner => ownerStep s
  | .interrupt _ =>
    match s.owner with
    | .asleep deadline => some { s with owner := .load deadline }
    | _ => none
  | .unpark k => if s.notifier k = .idle then some (s.goto k .exchange) else none
  | .notifier k => notifierStep s k

/-- What a step shows. -/
def event (s : State κ) : Action κ → Option (Event κ)
  | .park => some .park
  | .parkFor timeout => some (.parkFor timeout)
  | .owner =>
    match s.owner with
    | .returning timed notified => some (.returned timed notified)
    | _ => none
  | .unpark k => some (.unpark k)
  | .notifier k => if s.notifier k = .returning then some (.unparkReturned k) else none
  | _ => none

/-- `FutexParker` as a step system. -/
def system (κ : Type u) [DecidableEq κ] : System (State κ) (Action κ) where
  init s := s = initial
  step := step

end Futex

/-! ### `CondvarParker` -/

namespace Condvar

/-- Where the owner stands; a deadline or a timeout is there in `parkFor` only. -/
inductive OwnerPc
  | idle
  | lock (timeout : Option ℤ)
  | test (deadline : Option ℤ)
  | waiting (deadline : Option ℤ)
  | relock (deadline : Option ℤ) (timedOut : Bool)
  | retest (deadline : Option ℤ) (timedOut : Bool)
  | clear (timed : Bool)
  | unlock (timed notified : Bool)
  | returning (timed notified : Bool)
  deriving DecidableEq

/-- Where a notifier stands. -/
inductive NotifierPc
  | idle
  | lock
  | set
  | unlock
  | notify
  | returning
  deriving DecidableEq

/-- Who holds the mutex. -/
inductive Holder (κ : Type u)
  | owner
  | notifier (notifier : κ)
  deriving DecidableEq

/-- The flag, the mutex, the clock, and where everybody stands. -/
structure State (κ : Type u) where
  now : ℤ
  notified : Bool
  mutex : Option (Holder κ)
  owner : OwnerPc
  notifier : κ → NotifierPc

/-- Nobody uses the parker. -/
def initial {κ : Type u} : State κ := ⟨0, false, none, .idle, fun _ ↦ .idle⟩

variable {κ : Type u} [DecidableEq κ]

/-- The next step of `park` or `parkFor`; none where the thread waits. -/
def ownerStep (s : State κ) : Option (State κ) :=
  match s.owner with
  | .idle => none
  | .lock timeout =>
    if s.mutex = none then
      some { s with mutex := some .owner, owner := .test (timeout.map fun t ↦ s.now + t) }
    else none
  | .test deadline =>
    if s.notified then some { s with owner := .clear deadline.isSome }
    else some { s with mutex := none, owner := .waiting deadline }
  | .waiting _ => none
  | .relock deadline timedOut =>
    if s.mutex = none then some { s with mutex := some .owner, owner := .retest deadline timedOut }
    else none
  | .retest deadline timedOut =>
    if deadline.isSome = true ∧ timedOut = true ∧ s.notified = false then
      some { s with owner := .unlock true false }
    else some { s with owner := .test deadline }
  | .clear timed => some { s with notified := false, owner := .unlock timed true }
  | .unlock timed notified => some { s with mutex := none, owner := .returning timed notified }
  | .returning _ _ => some { s with owner := .idle }

/-- A wait ends; for its timeout only after the deadline. -/
def interrupt (s : State κ) (timedOut : Bool) : Option (State κ) :=
  match s.owner with
  | .waiting deadline =>
    if timedOut = true → ∃ d ∈ deadline, d ≤ s.now then
      some { s with owner := .relock deadline timedOut }
    else none
  | _ => none

/-- `notify_one`. -/
def OwnerPc.woken : OwnerPc → OwnerPc
  | .waiting deadline => .relock deadline false
  | pc => pc

/-- Moves a notifier. -/
def State.goto (s : State κ) (k : κ) (pc : NotifierPc) : State κ :=
  { s with notifier := Function.update s.notifier k pc }

/-- The next step of `unpark`. -/
def notifierStep (s : State κ) (k : κ) : Option (State κ) :=
  match s.notifier k with
  | .idle => none
  | .lock =>
    if s.mutex = none then some ({ s with mutex := some (.notifier k) }.goto k .set) else none
  | .set => some ({ s with notified := true }.goto k .unlock)
  | .unlock => some ({ s with mutex := none }.goto k .notify)
  | .notify => some ({ s with owner := s.owner.woken }.goto k .returning)
  | .returning => some (s.goto k .idle)

/-- One step. -/
def step (s : State κ) : Action κ → Option (State κ)
  | .tick elapsed => some { s with now := s.now + elapsed }
  | .park => if s.owner = .idle then some { s with owner := .lock none } else none
  | .parkFor timeout =>
    if s.owner = .idle then some { s with owner := .lock (some timeout) } else none
  | .owner => ownerStep s
  | .interrupt timedOut => interrupt s timedOut
  | .unpark k => if s.notifier k = .idle then some (s.goto k .lock) else none
  | .notifier k => notifierStep s k

/-- What a step shows. -/
def event (s : State κ) : Action κ → Option (Event κ)
  | .park => some .park
  | .parkFor timeout => some (.parkFor timeout)
  | .owner =>
    match s.owner with
    | .returning timed notified => some (.returned timed notified)
    | _ => none
  | .unpark k => some (.unpark k)
  | .notifier k => if s.notifier k = .returning then some (.unparkReturned k) else none
  | _ => none

/-- `CondvarParker` as a step system. -/
def system (κ : Type u) [DecidableEq κ] : System (State κ) (Action κ) where
  init s := s = initial
  step := step

end Condvar

end Stackfull.Sched.Parker
