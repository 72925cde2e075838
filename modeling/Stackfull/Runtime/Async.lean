import Stackfull.Sched.Tasks

/-!
# `async`

`async`, `runGuarded` and `runInto` (`runtime/Runtime.h`) over the tasks of a scheduler, with the
two sides of a `Completion` (`sync/Completion.h`) and with what `runTaskBody` (`Task.cpp`) and
`reapParkedTasks` (`Worker.cpp`) do to the task.

A task of the scheduler is one of `async` or another one. The body is any code: it opens and closes
guards, parks, yields, wakes and starts others, and ends in any way. A forced unwinding arrives in
it at its `park`; the body may let it go on or swallow it. The reaper may come at any time, not only
after `Scheduler::stop()`. Storing the value of a body may throw.

One thread or task waits for a completion at a time. `notified` says that its `block` returns; it
may also return for no reason.
-/

set_option autoImplicit false
set_option relaxedAutoImplicit false
set_option linter.dupNamespace false

namespace Stackfull.Runtime.Async

open Stackfull.Lib
open Stackfull.Sched
open Stackfull.Sched.Tasks (Agent)

universe u v

/-- What a completion delivers. -/
inductive Result
  | value
  | exception
  | error
  deriving DecidableEq, Repr

/-- Where `set`, `setException` or `fail` stands: before `claim`, before it stores the result, in
`publish` before its lock, and before the wake. -/
inductive Stage
  | claim (result : Result)
  | store (result : Result)
  | publish
  | wake (attached : Bool)
  deriving DecidableEq

/-- How a body ends. -/
inductive Ending
  | returned
  | threw
  | unwound
  deriving DecidableEq, Repr

/-- Where the code of a call of `async` stands: in `async` before the spawn and in `fail`, in the
body, and in `set` or `setException`. A task that is unwound out of its body is `cut`, and one that
is dropped is `lost`. -/
inductive Code (n : ℕ) (κ : Type u)
  | unstarted
  | spawning (caller : Agent n κ)
  | failing (caller : Agent n κ) (stage : Stage)
  | failed
  | body
  | setting (stage : Stage)
  | returned
  | cut
  | lost
  deriving DecidableEq

/-- Where the consumer stands in `get`. -/
inductive GetPc
  | idle
  | isReady
  | attach
  | blocked
  | returned
  deriving DecidableEq, Repr

/-- The tasks, the calls of `async`, their completions and who waits for them. -/
structure State (n : ℕ) (κ : Type u) (τ : Type v) where
  tasks : Tasks.State n κ τ
  code : τ → Code n κ
  thrown : τ → Bool
  claimed : τ → Bool
  ready : τ → Bool
  outcome : τ → Option Result
  attached : τ → Bool
  getter : τ → GetPc
  notified : τ → Bool

/-- How the library is built and which tasks are those of `async`. -/
structure Config (τ : Type v) extends Tasks.Config where
  operation : τ → Bool

/-- A step: something happens to the tasks, a thread calls `async` and goes on in it, the body of a
worker's task ends, its `set` goes on, or the consumer goes on in `get` or gives up. -/
inductive Action (n : ℕ) (κ : Type u) (τ : Type v)
  | task (action : Tasks.Action n κ τ)
  | async (caller : Agent n κ) (task : τ)
  | spawn (caller : Agent n κ) (task : τ)
  | refuse (caller : Agent n κ) (task : τ)
  | fail (caller : Agent n κ) (task : τ)
  | finishBody (worker : Fin n) (ending : Ending)
  | set (worker : Fin n)
  | storeThrows (worker : Fin n)
  | get (task : τ)
  | unblock (task : τ) (spurious : Bool)
  | leave (task : τ)

variable {n : ℕ} {κ : Type u} {τ : Type v}

/-- Nobody has called `async`. -/
def initial : State n κ τ where
  tasks := Tasks.initial
  code := fun _ ↦ .unstarted
  thrown := fun _ ↦ false
  claimed := fun _ ↦ false
  ready := fun _ ↦ false
  outcome := fun _ ↦ none
  attached := fun _ ↦ false
  getter := fun _ ↦ .idle
  notified := fun _ ↦ false

namespace Code

/-- The task runs the body. -/
def isUser : Code n κ → Bool
  | .body => true
  | _ => false

/-- The body and the completion are behind the task. -/
def isOver : Code n κ → Bool
  | .returned | .cut => true
  | _ => false

/-- `async` has returned the completion. -/
def hasHandle : Code n κ → Bool
  | .unstarted | .spawning _ | .failing _ _ => false
  | _ => true

end Code

namespace State

variable [DecidableEq κ] [DecidableEq τ]

/-- The code goes on. -/
def goto (s : State n κ τ) (x : τ) (code : Code n κ) : State n κ τ :=
  { s with code := Function.update s.code x code }

/-- One step of `set`, `setException` or `fail`: the completion after it, and the next stage. -/
def produce (s : State n κ τ) (x : τ) : Stage → State n κ τ × Option Stage
  | .claim result =>
    if s.claimed x then (s, none)
    else ({ s with claimed := Function.update s.claimed x true }, some (.store result))
  | .store result =>
    ({ s with outcome := Function.update s.outcome x (some result) }, some .publish)
  | .publish =>
    ({ s with
      ready := Function.update s.ready x true
      attached := Function.update s.attached x false }, some (.wake (s.attached x)))
  | .wake true => ({ s with notified := Function.update s.notified x true }, none)
  | .wake false => (s, none)

/-- What a task may do depends on where its code stands. -/
def allows (c : Config τ) (s : State n κ τ) : Tasks.Action n κ τ → Bool
  | .spawn _ x => !c.operation x
  | .shield w | .unshield w | .pinToCurrentWorker w | .unpin w | .park w | .yield w _ =>
    (s.tasks.runningTask w).all fun x ↦ !c.operation x || (s.code x).isUser
  | .finish w => (s.tasks.runningTask w).all fun x ↦ !c.operation x || (s.code x).isOver
  | _ => true

/-- `reapParkedTasks` ends a task that is not shielded: it throws `ForcedUnwind` at the task's
`park`, or it destroys the body. -/
def reaped (c : Config τ) (s : State n κ τ) (x : τ) : State n κ τ :=
  if c.hasExceptions then { s with thrown := Function.update s.thrown x true } else s.goto x .lost

/-- The task of `async` that a step of the tasks unwinds or drops. -/
def reaps (c : Config τ) (s : State n κ τ) : Tasks.Action n κ τ → Option τ
  | .advance (.worker w) _ =>
    match s.tasks.op (.worker w) with
    | .reapShields x => if c.operation x ∧ s.tasks.forcedStopShields x = 0 then some x else none
    | _ => none
  | _ => none

/-- Something happens to the tasks. -/
def act (c : Config τ) (s : State n κ τ) (action : Tasks.Action n κ τ) : Option (State n κ τ) :=
  if s.allows c action then
    (s.tasks.step c.toConfig action).map fun after ↦
      { (s.reaps c action).elim s (s.reaped c) with tasks := after }
  else none

/-- `scheduler.spawn` in `async` succeeds. -/
def spawn (c : Config τ) (s : State n κ τ) (a : Agent n κ) (x : τ) : Option (State n κ τ) :=
  if s.code x = .spawning a then
    (s.tasks.step c.toConfig (.spawn a x)).map fun after ↦ { s.goto x .body with tasks := after }
  else none

/-- `completion.fail(spawned.error)`. -/
def fail (s : State n κ τ) (a : Agent n κ) (x : τ) : Option (State n κ τ) :=
  match s.code x with
  | .failing b stage =>
    if a = b then
      some ((s.produce x stage).1.goto x
        ((s.produce x stage).2.elim Code.failed fun next ↦ .failing a next))
    else none
  | _ => none

/-- The task of `async` that a worker runs. -/
def running (c : Config τ) (s : State n κ τ) (w : Fin n) : Option τ :=
  (s.tasks.runningTask w).filter fun x ↦ c.operation x

/-- The body ends: `runGuarded` sets the completion or lets `ForcedUnwind` go on. -/
def finishBody (c : Config τ) (s : State n κ τ) (w : Fin n) (ending : Ending) :
    Option (State n κ τ) :=
  (s.running c w).bind fun x ↦
    if s.code x = .body then
      match ending with
      | .returned => some (s.goto x (.setting (.claim .value)))
      | .threw => if c.hasExceptions then some (s.goto x (.setting (.claim .exception))) else none
      | .unwound => if s.thrown x then some (s.goto x .cut) else none
    else none

/-- The task goes on in `set` or `setException`. -/
def set (c : Config τ) (s : State n κ τ) (w : Fin n) : Option (State n κ τ) :=
  (s.running c w).bind fun x ↦
    match s.code x with
    | .setting stage =>
      some ((s.produce x stage).1.goto x
        ((s.produce x stage).2.elim Code.returned fun next ↦ .setting next))
    | _ => none

/-- Storing the value throws, and `runGuarded` calls `setException`. -/
def storeThrows (c : Config τ) (s : State n κ τ) (w : Fin n) : Option (State n κ τ) :=
  (s.running c w).bind fun x ↦
    if s.code x = .setting (.store .value) ∧ c.hasExceptions then
      some (s.goto x (.setting (.claim .exception)))
    else none

omit [DecidableEq κ] in
/-- The consumer goes on in `get`. -/
def get (s : State n κ τ) (x : τ) : Option (State n κ τ) :=
  match s.getter x with
  | .idle =>
    if (s.code x).hasHandle then
      some { s with
        getter := Function.update s.getter x .isReady
        notified := Function.update s.notified x false }
    else none
  | .isReady =>
    some { s with getter := Function.update s.getter x (if s.ready x then .returned else .attach) }
  | .attach =>
    if s.ready x then some { s with getter := Function.update s.getter x .returned }
    else
      some { s with
        getter := Function.update s.getter x .blocked
        attached := Function.update s.attached x true }
  | _ => none

omit [DecidableEq κ] in
/-- `block` returns. -/
def unblock (s : State n κ τ) (x : τ) (spurious : Bool) : Option (State n κ τ) :=
  if s.getter x = .blocked ∧ (s.notified x || spurious) then
    some { s with
      getter := Function.update s.getter x .attach
      notified := Function.update s.notified x false }
  else none

omit [DecidableEq κ] in
/-- The consumer gives up at its deadline, or is unwound: it detaches. -/
def leave (s : State n κ τ) (x : τ) : Option (State n κ τ) :=
  if s.getter x = .blocked then
    some { s with
      getter := Function.update s.getter x .idle
      attached := Function.update s.attached x false }
  else none

end State

variable [DecidableEq κ] [DecidableEq τ]

/-- One step. -/
def step (c : Config τ) (s : State n κ τ) : Action n κ τ → Option (State n κ τ)
  | .task action => s.act c action
  | .async a x =>
    if s.code x = .unstarted ∧ c.operation x then some (s.goto x (.spawning a)) else none
  | .spawn a x => s.spawn c a x
  | .refuse a x =>
    if s.code x = .spawning a then some (s.goto x (.failing a (.claim .error))) else none
  | .fail a x => s.fail a x
  | .finishBody w ending => s.finishBody c w ending
  | .set w => s.set c w
  | .storeThrows w => s.storeThrows c w
  | .get x => s.get x
  | .unblock x spurious => s.unblock x spurious
  | .leave x => s.leave x

/-- The calls of `async` on a scheduler under every order of steps. -/
def system (n : ℕ) (κ : Type u) (τ : Type v) [DecidableEq κ] [DecidableEq τ] (c : Config τ) :
    System (State n κ τ) (Action n κ τ) where
  init s := s = initial
  step := step c

/-- What is expected of a call of `async`: once the spawn has failed or the task has ended, in
whatever way, and when it is released, the completion is ready and a consumer that is blocked is
woken. -/
def Delivers (s : State n κ τ) (x : τ) : Prop :=
  s.code x = .failed ∨ (s.code x).isOver = true ∨ s.code x = .lost ∨ s.tasks.parkState x = .done →
    s.ready x = true ∧ (s.getter x = .blocked → s.notified x = true)

/-- The step does not end a task without its completion: `ForcedUnwind` does not leave the body, the
value can be stored, and the reaper does not drop the task. -/
def spares (c : Config τ) (s : State n κ τ) : Action n κ τ → Bool
  | .finishBody _ .unwound => false
  | .storeThrows _ => false
  | .task action => c.hasExceptions || (s.reaps c action).isNone
  | _ => true

end Stackfull.Runtime.Async
