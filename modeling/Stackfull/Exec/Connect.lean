import Mathlib
import Stackfull.Lib.Transition

/-!
# `async_connect` and its stop callback

`connect_operation` in `exec/include/stackfull/exec/io.hpp` over `waiting_operation` and
`stop_listener` (`exec/detail/waiting_operation.hpp`) and `Registration::watch`, `unwatch` and
`collect` (`io/src/Registration.cpp`).

Three parties meet: the thread that calls `start()`, the thread that polls the descriptor and
reports it writable, and the thread that requests stop. The operation owns its stream through a
`unique_ptr`, and the stop callback goes through that pointer to take the waiter back.

Of the stop token this takes what its library promises: a stop request runs the callback that is
registered, once; a callback that is constructed after the request runs at once, inside its
constructor; and destroying a callback waits for a run of it on another thread. The critical
sections of `Registration` are one step each. `startConnect` and the outcome of the handshake are
in the label. After a completion the receiver may destroy the operation at any moment.
-/

set_option autoImplicit false
set_option relaxedAutoImplicit false
set_option linter.dupNamespace false

namespace Stackfull.Exec.Connect

open Stackfull.Lib

/-- The threads. -/
inductive Agent
  | starter
  | poller
  | stopper
  deriving DecidableEq, Repr

/-- How an operation completes. -/
inductive Ending
  | value
  | error
  | stopped
  deriving DecidableEq, Repr

/-- What `Stream::startConnect` reports. -/
inductive Started
  | failed
  | connected
  | inProgress
  deriving DecidableEq, Repr

/-- Where a thread stands. `begin`, `tryNow`, `listen` and `drive` are `start()`; `deref` and
`unwatch` are `cancel_wait()` in the stop callback, and `callbackDone` its return; `finish` is the
call of `finishConnect`, `reset` that of `stream.reset()`, and the last two are `finish_value`,
`finish_error` and `finish_stopped`. -/
inductive Pc
  | idle
  | begin
  | tryNow
  | listen
  | drive
  | returned
  | deref
  | unwatch
  | callbackDone
  | finish
  | reset
  | stopListener (ending : Ending)
  | complete (ending : Ending)
  deriving DecidableEq, Repr

/-- The stop callback: not constructed, registered, run by a thread, run to its end, destroyed. -/
inductive Callback
  | absent
  | registered
  | running (agent : Agent)
  | ran
  | destroyed
  deriving DecidableEq, Repr

/-- Who holds the stream of the operation: nobody yet, the operation, the receiver; or it is
closed. -/
inductive Stream
  | absent
  | owned
  | handedOut
  | closed
  deriving DecidableEq, Repr

/-- The operation, its registration and its threads. `closes`, `handOuts` and `completions` record
what has happened, and `fault` that a party went through a stream the operation does not own. -/
structure State where
  stopRequested : Bool
  callback : Callback
  stream : Stream
  waker : Bool
  cancelled : Bool
  events : ℕ
  pc : Agent → Pc
  destroyed : Bool
  closes : ℕ
  handOuts : ℕ
  completions : List Ending
  fault : Bool

/-- A step: `start()` is called, stop is requested, the poller reports the descriptor writable, a
thread takes its next step, or the receiver destroys the completed operation. -/
inductive Action
  | start
  | requestStop
  | report
  | step (agent : Agent) (started : Started) (failed : Bool)
  | destroy
  deriving DecidableEq, Repr

/-- The operation is connected to its receiver. -/
def initial : State where
  stopRequested := false
  callback := .absent
  stream := .absent
  waker := false
  cancelled := false
  events := 0
  pc := fun _ ↦ .idle
  destroyed := false
  closes := 0
  handOuts := 0
  completions := []
  fault := false

namespace State

/-- A thread goes on. -/
def goto (s : State) (agent : Agent) (pc : Pc) : State :=
  { s with pc := Function.update s.pc agent pc }

/-- The operation no longer owns its stream, which is closed. -/
def close (s : State) : State :=
  if s.stream = .owned then { s with stream := .closed, closes := s.closes + 1 } else s

/-- A thread goes through `stream`. -/
def touch (s : State) : State :=
  if s.stream = .owned ∧ s.destroyed = false then s else { s with fault := true }

/-- What a thread does after it has completed the receiver: a stop callback returns, the others are
through. -/
def afterComplete : Agent → Pc
  | .starter => .returned
  | .poller => .idle
  | .stopper => .callbackDone

/-- `try_now()`. -/
def tryNow (s : State) (agent : Agent) : Started → State
  | .failed => s.goto agent (.stopListener .error)
  | .connected => { s with stream := .owned }.goto agent (.stopListener .value)
  | .inProgress => { s with stream := .owned }.goto agent .listen

/-- `listen()`: the callback is registered, or run at once. -/
def listen (s : State) (agent : Agent) (stoppable : Bool) : State :=
  if !stoppable then s.goto agent .drive
  else if s.stopRequested then { s with callback := .running agent }.goto agent .deref
  else { s with callback := .registered }.goto agent .drive

/-- `Registration::watch` and what `settle` does with its result. -/
def drive (s : State) (agent : Agent) : State :=
  if s.cancelled then s.goto agent (.stopListener .stopped)
  else if s.events % 2 ^ 32 ≠ 0 then s.goto agent .finish
  else { s with waker := true }.goto agent .returned

/-- `Registration::unwatch` inside the stop callback. -/
def unwatch (s : State) (agent : Agent) : State :=
  if s.waker then { s.touch with waker := false }.goto agent (.stopListener .stopped)
  else { s.touch with cancelled := true }.goto agent .callbackDone

/-- The stop callback returns. On the starting thread `start()` goes on. -/
def callbackReturns (s : State) (agent : Agent) : State :=
  let after : Callback := if s.callback = .running agent then .ran else s.callback
  { s with callback := after }.goto agent (if agent = Agent.starter then .drive else .idle)

/-- `listener.stop()`, unless it has to wait for a run of the callback on another thread. -/
def stopListener (s : State) (agent : Agent) (ending : Ending) : Option State :=
  match s.callback with
  | .absent => some (s.goto agent (.complete ending))
  | .running other =>
    if other = agent then some ({ s with callback := .destroyed }.goto agent (.complete ending))
    else none
  | _ => some ({ s with callback := .destroyed }.goto agent (.complete ending))

/-- The receiver is completed; with a value, it gets the stream. -/
def complete (s : State) (agent : Agent) (ending : Ending) : State :=
  let completed := { s with completions := s.completions ++ [ending] }
  match ending with
  | .value =>
    { completed with stream := .handedOut, handOuts := s.handOuts + 1 }.goto agent
      (afterComplete agent)
  | _ => completed.goto agent (afterComplete agent)

/-- The next step of a thread. -/
def advance (s : State) (stoppable : Bool) (agent : Agent) (started : Started) (failed : Bool) :
    Option State :=
  match s.pc agent with
  | .idle => none
  | .returned => none
  | .begin =>
    some (if s.stopRequested then s.goto agent (.complete .stopped) else s.goto agent .tryNow)
  | .tryNow => some (s.tryNow agent started)
  | .listen => some (s.listen agent stoppable)
  | .drive => some (s.drive agent)
  | .deref => some (s.touch.goto agent .unwatch)
  | .unwatch => some (s.unwatch agent)
  | .callbackDone => some (s.callbackReturns agent)
  | .finish =>
    some (s.touch.goto agent (if failed then .reset else .stopListener .value))
  | .reset => some (s.close.goto agent (.stopListener .error))
  | .stopListener ending => s.stopListener agent ending
  | .complete ending => some (s.complete agent ending)

/-- One step. -/
def step (stoppable : Bool) (s : State) : Action → Option State
  | .start =>
    if s.pc .starter = .idle then some (s.goto .starter .begin) else none
  | .requestStop =>
    if stoppable ∧ s.stopRequested = false ∧ s.pc .stopper = .idle then
      some (if s.callback = .registered then
          { s with stopRequested := true, callback := .running .stopper }.goto .stopper .deref
        else { s with stopRequested := true })
    else none
  | .report =>
    if s.pc .poller = .idle ∧ s.stream = .owned ∧ s.destroyed = false then
      some (if s.waker then
          { s with events := s.events + 1, waker := false }.goto .poller .finish
        else { s with events := s.events + 1 })
    else none
  | .step agent started failed => s.advance stoppable agent started failed
  | .destroy =>
    if s.completions ≠ [] ∧ s.destroyed = false then some { s.close with destroyed := true }
    else none

/-- `finishConnect` reports no error while a stop callback exists. -/
def handshakeHolds (s : State) : Action → Bool
  | .step agent _ failed =>
    decide (s.pc agent = .finish) && failed && decide (s.callback ≠ .absent) |>.not
  | _ => true

end State

/-- An `async_connect` as a step system, for a token that may be stopped or one that may not. -/
def system (stoppable : Bool) : System State Action where
  init s := s = initial
  step := State.step stoppable

/-- Nobody has a step to take. -/
def State.AtRest (s : State) : Prop :=
  s.pc .starter = .returned ∧ s.pc .poller = .idle ∧ s.pc .stopper = .idle

/-- What `async_connect` owes in every state: while its stop callback exists it owns a live stream,
and nobody goes through a stream it does not own; the receiver is completed at most once, and
exactly once when nobody has a step left, unless the connect still waits and no stop was requested;
a stream that was opened is handed out once if the connect succeeds, and closed once, with the
operation, if it fails or is stopped. -/
structure State.Contract (s : State) : Prop where
  owns : s.callback ≠ .absent → s.callback ≠ .destroyed → s.stream = .owned ∧ s.destroyed = false
  noFault : s.fault = false
  once : s.completions.length ≤ 1
  completes : s.AtRest → s.completions.length = 1 ∨
    s.completions = [] ∧ s.waker = true ∧ s.stopRequested = false
  succeeds : s.completions = [.value] → s.handOuts = 1 ∧ s.closes = 0
  releases : s.completions ≠ [] → s.completions ≠ [.value] →
    s.handOuts = 0 ∧ s.closes ≤ 1 ∧
      (s.destroyed = true → s.stream ≠ .absent → s.closes = 1)
  pending : s.completions = [] → s.handOuts = 0

end Stackfull.Exec.Connect
