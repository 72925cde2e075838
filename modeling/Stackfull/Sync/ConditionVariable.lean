import Stackfull.Sync.Mutex

/-!
# The condition variable

`sync/src/ConditionVariable.cpp` without forced unwinds, over the steps of `Mutex`. The critical sections
of the condition variable's own `SpinLock` are one step each; the mutex is taken and given back by the
steps of its semaphore, in competition with whoever else uses it. A party waits and unlocks only while
it holds the mutex; anybody may notify.

`waits` and `notifies` number the calls of each party, and the logs are history: the waits in the order
of their `pushBack`, the waits that were notified with the notifying call, and those that have ended;
`found` is the queue that a party's last notification met.
-/

set_option autoImplicit false
set_option relaxedAutoImplicit false
set_option linter.dupNamespace false

namespace Stackfull.Sync.ConditionVariable

open Stackfull.Lib
open Semaphore (Holds Disciplined)

universe u

/-- Where a party stands: outside, in `wait`, or in `notifyAll` or `notifyOne` (`all`). -/
inductive Pc (ι : Type u)
  | idle
  | enqueueing
  | releasing
  | unlocking
  | waiting
  | relocking
  | locking
  | waited
  | popping (all : Bool)
  | notifying (all : Bool) (chain : List ι)
  | notified (all : Bool)

/-- The party can begin a call. -/
def Pc.isFree {ι : Type u} : Pc ι → Bool
  | .idle | .waited | .notified _ => true
  | _ => false

/-- A step: the mutex takes a step, a party begins to wait or to notify, or it goes on. -/
inductive Action (ι : Type u)
  | mutex (action : Semaphore.Action ι)
  | wait (party : ι)
  | notify (all : Bool) (party : ι)
  | act (party : ι)

/-- The mutex, the condition variable with the waiters of the parties, and where every party stands. -/
structure State (ι : Type u) where
  mutex : Semaphore.State ι
  waiters : WaitList ι
  satisfied : ι → Bool
  pc : ι → Pc ι
  waits : ι → ℕ
  notifies : ι → ℕ
  enqueued : List (ι × ℕ)
  notified : List ((ι × ℕ) × (ι × ℕ))
  ended : List (ι × ℕ)
  found : ι → List (ι × ℕ)

variable {ι : Type u} [DecidableEq ι]

/-- Nobody has called. -/
def initial (kind : ι → Kind) : State ι where
  mutex := Semaphore.initial (Semaphore.mutex kind)
  waiters := []
  satisfied := fun _ ↦ false
  pc := fun _ ↦ .idle
  waits := fun _ ↦ 0
  notifies := fun _ ↦ 0
  enqueued := []
  notified := []
  ended := []
  found := fun _ ↦ []

namespace State

/-- A party goes on. -/
def goto (s : State ι) (p : ι) (pc : Pc ι) : State ι :=
  { s with pc := Function.update s.pc p pc }

omit [DecidableEq ι] in
/-- The wait a party is in. -/
def waitOf (s : State ι) (p : ι) : ι × ℕ := (p, s.waits p)

omit [DecidableEq ι] in
/-- The notification a party is in. -/
def notifyOf (s : State ι) (p : ι) : ι × ℕ := (p, s.notifies p)

/-- What a party does to the mutex outside of `wait`: it calls only while it is free. A call of `unlock`
needs the mutex, and nobody is unwound. -/
def allows (s : State ι) : Semaphore.Action ι → Bool
  | .newWaiter p => (s.pc p).isFree
  | .call p .release => (s.pc p).isFree && decide (Holds s.mutex p)
  | .call p _ => (s.pc p).isFree
  | .act _ | .spurious _ => true
  | .forcedUnwind _ => false

/-- A party that begins a call on the mutex is no longer just back from another one. -/
def called (s : State ι) : Semaphore.Action ι → State ι
  | .call p _ => s.goto p .idle
  | _ => s

/-- A call of `Mutex` from `wait`. -/
def begin (kind : ι → Kind) (s : State ι) (p : ι) (call : Semaphore.Call ι) (pc : Pc ι) :
    Option (State ι) :=
  (s.mutex.step (Semaphore.mutex kind) (.call p call)).map fun mutex ↦ { s.goto p pc with mutex := mutex }

/-- `waiters.pushBack(waiter)`. -/
def pushBack (s : State ι) (p : ι) : State ι :=
  { s.goto p .releasing with
    waiters := s.waiters.pushBack p
    enqueued := s.enqueued ++ [s.waitOf p] }

/-- The waiters a notification takes: the first, or all, the last first. -/
def chain (s : State ι) (all : Bool) : List ι :=
  if all then s.waiters.reverse else s.waiters.popFront.1.toList

/-- The critical section of `notifyOne` and `notifyAll`. -/
def pop (s : State ι) (p : ι) (all : Bool) : State ι :=
  { s.goto p (.notifying all (s.chain all)) with
    waiters := if all then [] else s.waiters.popFront.2
    found := Function.update s.found p (s.waiters.map s.waitOf) }

/-- `Waiter::notify`, once the next one has been read. -/
def notify (s : State ι) (p : ι) (all : Bool) (w : ι) (rest : List ι) : State ι :=
  { s.goto p (.notifying all rest) with
    satisfied := Function.update s.satisfied w true
    notified := s.notified ++ [(s.notifyOf p, s.waitOf w)] }

/-- A party takes its next step. -/
def act (kind : ι → Kind) (s : State ι) (p : ι) : Option (State ι) :=
  match s.pc p with
  | .enqueueing => some (s.pushBack p)
  | .releasing => s.begin kind p .release .unlocking
  | .unlocking =>
    match s.mutex.pc p with
    | .returned .released => some (s.goto p .waiting)
    | _ => none
  | .waiting =>
    if s.satisfied p then some { s.goto p .relocking with ended := s.ended ++ [s.waitOf p] }
    else none
  | .relocking => s.begin kind p .acquire .locking
  | .locking =>
    match s.mutex.pc p with
    | .returned .acquired => some (s.goto p .waited)
    | _ => none
  | .popping all => some (s.pop p all)
  | .notifying all (w :: rest) => some (s.notify p all w rest)
  | .notifying all [] => some (s.goto p (.notified all))
  | _ => none

end State

/-- One step. -/
def step (kind : ι → Kind) (s : State ι) : Action ι → Option (State ι)
  | .mutex action =>
    if s.allows action then
      (s.mutex.step (Semaphore.mutex kind) action).map fun mutex ↦ { s.called action with mutex := mutex }
    else none
  | .wait p =>
    if (s.pc p).isFree = true ∧ s.mutex.isFree p = true ∧ Holds s.mutex p ∧ kind p ≠ .callback then
      some { s.goto p .enqueueing with
        satisfied := Function.update s.satisfied p false
        waits := Function.update s.waits p (s.waits p + 1) }
    else none
  | .notify all p =>
    if (s.pc p).isFree = true ∧ s.mutex.isFree p = true then
      some { s.goto p (.popping all) with
        notifies := Function.update s.notifies p (s.notifies p + 1) }
    else none
  | .act p => s.act kind p

/-- A condition variable and its mutex under every order of steps. -/
def system (kind : ι → Kind) : System (State ι) (Action ι) where
  init s := s = initial kind
  step := step kind

end Stackfull.Sync.ConditionVariable
