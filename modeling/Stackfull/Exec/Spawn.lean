import Mathlib
import Stackfull.Sched.Tasks

/-!
# `exec::spawn`

`spawn_operation` (`exec/include/stackfull/exec/spawn.hpp`) over the tasks of a scheduler: `start`,
`run`, `run_fn`, `complete`, `dropped` and `stop_forwarding`, with what `reapParkedTasks`
(`Worker.cpp`) does to the task's context.

A task of the scheduler is that of an operation or another one. The body of an operation's task and
the code of its receiver are any code: they open and close guards, park, yield, wake and start
others, and end in any way. A forced unwinding arrives in the task at its `park`; the body may let
it go on or swallow it. The reaper may come at any time, not only after `Scheduler::stop()`.
Destructors do not throw.

Of the stop token this takes what its library promises: a callback runs at most once, one that is
constructed after the request runs inside its constructor, and destroying one waits for a run of it
on another thread.

`ending` and `completions` are not in the code: what became of the operation, and the calls of its
receiver's completion functions.
-/

set_option autoImplicit false
set_option relaxedAutoImplicit false
set_option linter.dupNamespace false

namespace Stackfull.Exec.Spawn

open Stackfull.Lib
open Stackfull.Sched
open Stackfull.Sched.Tasks (Agent)

universe u v w

/-- Why `Scheduler::spawn` has not spawned a task. -/
inductive SpawnError
  | operationCanceled
  | other (code : ℕ)
  deriving DecidableEq, Repr

/-- A call of the receiver. -/
inductive Completion (ν : Type w)
  | setValue (value : ν)
  | setException (error : ℕ)
  | setErrorCode (error : SpawnError)
  | setStopped
  deriving DecidableEq, Repr

/-- What becomes of an operation. -/
inductive Ending (ν : Type w)
  | returned (value : ν)
  | threw (error : ℕ)
  | threwStopped
  | unwound
  | dropped
  | refused (error : SpawnError)
  deriving DecidableEq, Repr

/-- The completion that goes with an ending. -/
inductive Matches {ν : Type w} : Ending ν → Completion ν → Prop
  | returned (value : ν) : Matches (.returned value) (.setValue value)
  | threw (error : ℕ) : Matches (.threw error) (.setException error)
  | threwStopped : Matches .threwStopped .setStopped
  | unwound : Matches .unwound .setStopped
  | dropped : Matches .dropped .setStopped
  | canceled : Matches (.refused .operationCanceled) .setStopped
  | refused (code : ℕ) : Matches (.refused (.other code)) (.setErrorCode (.other code))

/-- The callback that forwards the receiver's stop requests. -/
inductive Callback (n : ℕ) (κ : Type u)
  | absent
  | registered
  | running (agent : Agent n κ)
  | ran
  deriving DecidableEq

/-- Where the code of an operation stands. `spawning`, `refused` and `refusing` are in `start`,
before the spawn, before `stop_forwarding` and before the completion; `entry` and `body` are `run`
before `setContext` and inside `fn`; `completing`, `clearing`, `shielding` and `calling` are the
steps of `complete`, and `receiver` is the receiver's code, with the guards alive when it was
called; `dropping` and `dropCalling` are `dropped`. A task that is unwound or dropped out of the
receiver's code is `cut` or `lost`. -/
inductive Code (n : ℕ) (κ : Type u) (ν : Type w)
  | unstarted
  | spawning (caller : Agent n κ)
  | refused (caller : Agent n κ) (error : SpawnError)
  | refusing (caller : Agent n κ) (error : SpawnError)
  | failed
  | entry
  | body
  | completing (completion : Completion ν)
  | clearing (completion : Completion ν)
  | shielding (completion : Completion ν)
  | calling (completion : Completion ν)
  | receiver (guards : ℕ)
  | returned
  | dropping (worker : Fin n)
  | dropCalling (worker : Fin n)
  | dropped
  | cut
  | lost
  deriving DecidableEq

/-- The tasks and the operations. -/
structure State (n : ℕ) (κ : Type u) (τ : Type v) (ν : Type w) where
  tasks : Tasks.State n κ τ
  code : τ → Code n κ ν
  callback : τ → Callback n κ
  requested : τ → Bool
  source : τ → Bool
  context : τ → Bool
  thrown : τ → Bool
  ending : τ → Option (Ending ν)
  completions : τ → List (Completion ν)

/-- How the library is built, which tasks are those of operations, and whose receivers have a stop
token that can be stopped. -/
structure Config (τ : Type v) extends Tasks.Config where
  operation : τ → Bool
  forwardsStop : τ → Bool

/-- A step: something happens to the tasks, a thread calls `start` and goes on in it, the body or
the receiver's code of a worker's task ends, the code of an operation goes on, a worker drops a
task, or the receiver's stop token is requested and its callback runs. -/
inductive Action (n : ℕ) (κ : Type u) (τ : Type v) (ν : Type w)
  | task (action : Tasks.Action n κ τ)
  | start (caller : Agent n κ) (task : τ)
  | spawn (caller : Agent n κ) (task : τ)
  | refuse (caller : Agent n κ) (task : τ) (error : SpawnError)
  | fail (caller : Agent n κ) (task : τ)
  | finishBody (worker : Fin n) (ending : Ending ν)
  | run (worker : Fin n)
  | finishReceiver (worker : Fin n)
  | drop (worker : Fin n) (task : τ)
  | requestStop (task : τ)
  | invoke (agent : Agent n κ) (task : τ)
  | forward (agent : Agent n κ) (task : τ)

variable {n : ℕ} {κ : Type u} {τ : Type v} {ν : Type w}

/-- No operation was started. -/
def initial : State n κ τ ν where
  tasks := Tasks.initial
  code := fun _ ↦ .unstarted
  callback := fun _ ↦ .absent
  requested := fun _ ↦ false
  source := fun _ ↦ false
  context := fun _ ↦ false
  thrown := fun _ ↦ false
  ending := fun _ ↦ none
  completions := fun _ ↦ []

/-- The task runs code of its body or of its receiver. -/
def Code.isUser : Code n κ ν → Bool
  | .body | .receiver _ => true
  | _ => false

/-- The task may close a guard: those that were alive when the receiver was called stay. -/
def Code.mayUnshield (guards : ℕ) : Code n κ ν → Bool
  | .body => true
  | .receiver base => decide (base < guards)
  | _ => false

/-- The worker that drops the task has not come to its end yet. -/
def Code.isDropping : Code n κ ν → Bool
  | .dropping _ | .dropCalling _ => true
  | _ => false

/-- Destroying the callback need not wait. -/
def Callback.mayDestroy [DecidableEq κ] (a : Agent n κ) : Callback n κ → Bool
  | .running b => decide (a = b)
  | _ => true

namespace State

variable [DecidableEq κ] [DecidableEq τ]

/-- The code of an operation goes on. -/
def goto (s : State n κ τ ν) (x : τ) (code : Code n κ ν) : State n κ τ ν :=
  { s with code := Function.update s.code x code }

/-- A completion function of the receiver is called. -/
def complete (s : State n κ τ ν) (x : τ) (completion : Completion ν) : State n κ τ ν :=
  { s with completions := Function.update s.completions x (s.completions x ++ [completion]) }

/-- What became of an operation. -/
def ends (s : State n κ τ ν) (x : τ) (ending : Ending ν) : State n κ τ ν :=
  { s with ending := Function.update s.ending x (some ending) }

/-- `stop_forwarding`. -/
def stopForwarding (s : State n κ τ ν) (a : Agent n κ) (x : τ) : Option (State n κ τ ν) :=
  if (s.callback x).mayDestroy a then
    some { s with callback := Function.update s.callback x .absent }
  else none

/-- What a task may do depends on where its code stands: the task of an operation is spawned by its
`start`, does what it likes in its body and in the receiver's code, and ends when `run` has
returned; and a worker that drops a task releases it when `dropped` has returned. -/
def allows (c : Config τ) (s : State n κ τ ν) : Tasks.Action n κ τ → Bool
  | .spawn _ x => !c.operation x
  | .shield w | .pinToCurrentWorker w | .unpin w | .park w | .yield w _ =>
    (s.tasks.runningTask w).all fun x ↦ !c.operation x || (s.code x).isUser
  | .unshield w =>
    (s.tasks.runningTask w).all fun x ↦
      !c.operation x || (s.code x).mayUnshield (s.tasks.guards x)
  | .finish w =>
    (s.tasks.runningTask w).all fun x ↦
      !c.operation x || (match s.code x with | .returned => true | _ => false)
  | .advance a _ =>
    match s.tasks.op a with
    | .release x => !c.operation x || !(s.code x).isDropping
    | _ => true
  | _ => true

/-- `reapParkedTasks` ends a task that is not shielded: it throws `ForcedUnwind` at the task's
`park`, which `complete` does not let through, or it calls `onDropped` of the task's context. -/
def reaped (c : Config τ) (s : State n κ τ ν) (w : Fin n) (x : τ) : State n κ τ ν :=
  if c.hasExceptions then
    match s.code x with
    | .receiver _ => s.goto x .cut
    | _ => { s with thrown := Function.update s.thrown x true }
  else if s.context x then (s.goto x (.dropping w)).ends x .dropped
  else s.goto x .lost

/-- What a step of the tasks does to the operations. -/
def follow (c : Config τ) (s : State n κ τ ν) : Tasks.Action n κ τ → State n κ τ ν
  | .advance (.worker w) _ =>
    match s.tasks.op (.worker w) with
    | .reapShields x =>
      if c.operation x ∧ s.tasks.forcedStopShields x = 0 then s.reaped c w x else s
    | _ => s
  | _ => s

/-- Something happens to the tasks. -/
def act (c : Config τ) (s : State n κ τ ν) (action : Tasks.Action n κ τ) :
    Option (State n κ τ ν) :=
  if s.allows c action then
    (s.tasks.step c.toConfig action).map fun after ↦ { s.follow c action with tasks := after }
  else none

/-- `start` constructs the callback. -/
def start (c : Config τ) (s : State n κ τ ν) (a : Agent n κ) (x : τ) : Option (State n κ τ ν) :=
  match s.code x with
  | .unstarted =>
    if c.operation x then
      if c.forwardsStop x then
        if s.requested x then
          some ({ s with
            callback := Function.update s.callback x .ran
            source := Function.update s.source x true }.goto x (.spawning a))
        else some ({ s with
          callback := Function.update s.callback x .registered }.goto x (.spawning a))
      else some (s.goto x (.spawning a))
    else none
  | _ => none

/-- `target->spawn` in `start` succeeds. -/
def spawn (c : Config τ) (s : State n κ τ ν) (a : Agent n κ) (x : τ) : Option (State n κ τ ν) :=
  match s.code x with
  | .spawning b =>
    if a = b then
      (s.tasks.step c.toConfig (.spawn a x)).map fun after ↦ { s.goto x .entry with tasks := after }
    else none
  | _ => none

/-- `target->spawn` in `start` fails. -/
def refuse (s : State n κ τ ν) (a : Agent n κ) (x : τ) (error : SpawnError) :
    Option (State n κ τ ν) :=
  match s.code x with
  | .spawning b => if a = b then some ((s.goto x (.refused a error)).ends x (.refused error)) else none
  | _ => none

/-- The rest of `start` after a spawn that has failed. -/
def fail (s : State n κ τ ν) (a : Agent n κ) (x : τ) : Option (State n κ τ ν) :=
  match s.code x with
  | .refused b error =>
    if a = b then (s.stopForwarding a x).map fun t ↦ t.goto x (.refusing a error) else none
  | .refusing b error =>
    if a = b then
      some ((s.complete x (match error with
        | .operationCanceled => .setStopped
        | .other code => .setErrorCode (.other code))).goto x .failed)
    else none
  | _ => none

/-- `fn` ends, and `run` comes to `complete` with what it catches. -/
def finishBody (c : Config τ) (s : State n κ τ ν) (w : Fin n) (ending : Ending ν) :
    Option (State n κ τ ν) :=
  ((s.tasks.runningTask w).filter fun x ↦ c.operation x).bind fun x ↦
    match s.code x, ending with
    | .body, .returned value =>
      some ((s.ends x ending).goto x (.completing (.setValue value)))
    | .body, .threw error =>
      if c.hasExceptions then some ((s.ends x ending).goto x (.completing (.setException error)))
      else none
    | .body, .threwStopped =>
      if c.hasExceptions then some ((s.ends x ending).goto x (.completing .setStopped)) else none
    | .body, .unwound =>
      if s.thrown x then some ((s.ends x ending).goto x (.completing .setStopped)) else none
    | _, _ => none

/-- The next step of `run` and of `complete`. -/
def run (c : Config τ) (s : State n κ τ ν) (w : Fin n) : Option (State n κ τ ν) :=
  ((s.tasks.runningTask w).filter fun x ↦ c.operation x).bind fun x ↦
    match s.code x with
    | .entry => some ({ s with context := Function.update s.context x true }.goto x .body)
    | .completing completion =>
      (s.stopForwarding (.worker w) x).map fun t ↦ t.goto x (.clearing completion)
    | .clearing completion =>
      some ({ s with context := Function.update s.context x false }.goto x (.shielding completion))
    | .shielding completion =>
      (s.tasks.step c.toConfig (.shield w)).map fun after ↦
        { s.goto x (.calling completion) with tasks := after }
    | .calling completion =>
      some ((s.complete x completion).goto x (.receiver (s.tasks.guards x)))
    | _ => none

/-- The receiver's code returns, with its own guards closed, and `complete` closes its guard. -/
def finishReceiver (c : Config τ) (s : State n κ τ ν) (w : Fin n) : Option (State n κ τ ν) :=
  ((s.tasks.runningTask w).filter fun x ↦ c.operation x).bind fun x ↦
    match s.code x with
    | .receiver base =>
      if s.tasks.guards x = base then
        (s.tasks.step c.toConfig (.unshield w)).map fun after ↦
          { s.goto x .returned with tasks := after }
      else none
    | _ => none

/-- The next step of `dropped`. -/
def drop (s : State n κ τ ν) (w : Fin n) (x : τ) : Option (State n κ τ ν) :=
  match s.code x with
  | .dropping v =>
    if w = v then (s.stopForwarding (.worker w) x).map fun t ↦ t.goto x (.dropCalling w) else none
  | .dropCalling v =>
    if w = v then some ((s.complete x .setStopped).goto x .dropped) else none
  | _ => none

/-- A stop request comes to the callback. -/
def invoke (s : State n κ τ ν) (a : Agent n κ) (x : τ) : Option (State n κ τ ν) :=
  if s.requested x ∧ s.callback x = .registered then
    some { s with callback := Function.update s.callback x (.running a) }
  else none

/-- The callback requests the task's stop source to stop, and returns. -/
def forward (s : State n κ τ ν) (a : Agent n κ) (x : τ) : Option (State n κ τ ν) :=
  if s.callback x = .running a then
    some { s with
      source := Function.update s.source x true
      callback := Function.update s.callback x .ran }
  else none

end State

variable [DecidableEq κ] [DecidableEq τ]

/-- One step. -/
def step (c : Config τ) (s : State n κ τ ν) : Action n κ τ ν → Option (State n κ τ ν)
  | .task action => s.act c action
  | .start a x => s.start c a x
  | .spawn a x => s.spawn c a x
  | .refuse a x error => s.refuse a x error
  | .fail a x => s.fail a x
  | .finishBody w ending => s.finishBody c w ending
  | .run w => s.run c w
  | .finishReceiver w => s.finishReceiver c w
  | .drop w x => s.drop w x
  | .requestStop x => some { s with requested := Function.update s.requested x true }
  | .invoke a x => s.invoke a x
  | .forward a x => s.forward a x

/-- The operations of a scheduler under every order of steps. -/
def system (n : ℕ) (κ : Type u) (τ : Type v) (ν : Type w) [DecidableEq κ] [DecidableEq τ]
    (c : Config τ) : System (State n κ τ ν) (Action n κ τ ν) where
  init s := s = initial
  step := step c

/-- What is promised of an operation. Its receiver is completed at most once, with the completion
that goes with its ending, and exactly once when its task is gone or `start` has returned without
one. By then the callback is destroyed and, unless the task was dropped, its context is cleared. A
guard of the task is alive while the receiver's code runs in it, and the reaper ends the task there
only with a multiple of 256 guards alive. -/
structure Contract (s : State n κ τ ν) (x : τ) : Prop where
  once : (s.completions x).length ≤ 1
  ended : s.tasks.parkState x = .done ∨ s.code x = .failed → (s.completions x).length = 1
  matching : ∀ completion ∈ s.completions x, ∃ ending, s.ending x = some ending ∧
    Matches ending completion
  forwarding : s.completions x ≠ [] → s.callback x = .absent
  cleared : s.completions x ≠ [] → s.context x = false ∨ s.ending x = some .dropped
  guarded : ∀ base, s.code x = .receiver base → 0 < s.tasks.guards x
  uncut : s.code x = .cut ∨ s.code x = .lost →
    ∃ guards, 0 < guards ∧ guards % 2 ^ 8 = 0 ∧ (x, guards) ∈ s.tasks.history.unwound

end Stackfull.Exec.Spawn
