import Stackfull.Lib.Transition

/-!
# A timer that a stop request takes back

`timer_operation` (`exec/include/stackfull/exec/timer.hpp`), which `schedule_after` and
`schedule_at` start, over `stop_listener` (`exec/detail/waiting_operation.hpp`), the callback
timers of `sched/src/TimerQueue.cpp` and `Scheduler::stop()`.

Four parties meet: the thread that calls `start()`, the thread that requests stop, the thread that
fires the entry (a worker when it is due, or the one that calls `Scheduler::stop()`), and the task
that is spawned then. Each section under the lock of the queue is one step. Of the stop token this
takes what its library promises: a stop request runs the callback that is registered, once; a
callback that is constructed after the request runs at once, inside its constructor; and destroying
a callback waits for a run of it on another thread. After a completion the receiver may destroy the
operation at any moment.
-/

set_option autoImplicit false
set_option relaxedAutoImplicit false
set_option linter.dupNamespace false

namespace Stackfull.Exec.Timer

open Stackfull.Lib

/-- The threads. -/
inductive Agent
  | starter
  | stopper
  | firer
  | task
  deriving DecidableEq

/-- How an operation completes. -/
inductive Ending
  | value
  | error
  | stopped
  deriving DecidableEq

/-- Where a thread stands. `begin`, `listen` and `add` are `start()`; `request` is a stop request
that has yet to look for a callback, `cancel` is `cancelTimer` in the callback, and `callbackDone`
its return; `spawn` is `fired`; `run` and `decide` are the task; the last two are `finish_stopped`
and the other calls of the receiver. -/
inductive Pc
  | idle
  | request
  | begin
  | listen
  | add
  | returned
  | cancel
  | callbackDone
  | spawn
  | run
  | decide
  | stopListener (ending : Ending)
  | complete (ending : Ending)
  deriving DecidableEq

/-- The stop callback: not constructed, registered, run by a thread, run to its end, destroyed. -/
inductive Callback
  | absent
  | registered
  | running (agent : Agent)
  | ran
  | destroyed
  deriving DecidableEq

/-- The operation, its entry, and who is at it. `queued` and `cancelled` are the entry, `closed` is
its queue. `expired` records that the entry was due, `completions` what the receiver got, and
`fault` that a thread used an operation that was destroyed. -/
structure State where
  stopRequested : Bool
  stopping : Bool
  closed : Bool
  queued : Bool
  cancelled : Bool
  expired : Bool
  callback : Callback
  pc : Agent → Pc
  completions : List Ending
  destroyed : Bool
  fault : Bool

/-- A step: `start()` is called, stop is requested of the operation or of the scheduler, the entry
is due, `fireCallbacksAndClose` looks at the queue, a thread takes its next step (and the scheduler
has what a task needs, or has not), or the receiver destroys the completed operation. -/
inductive Action
  | start
  | requestStop
  | stop
  | expire
  | close
  | step (agent : Agent) (room : Bool)
  | destroy

/-- The operation is connected to its receiver. -/
def initial : State where
  stopRequested := false
  stopping := false
  closed := false
  queued := false
  cancelled := false
  expired := false
  callback := .absent
  pc _ := .idle
  completions := []
  destroyed := false
  fault := false

namespace State

variable (s : State)

/-- A thread goes on. -/
def goto (agent : Agent) (pc : Pc) : State :=
  { s with pc := Function.update s.pc agent pc }

/-- A thread uses the operation. -/
def touch : State :=
  { s with fault := s.fault || s.destroyed }

/-- Stop was requested of the receiver or of the scheduler. -/
def isStopped : Bool := s.stopRequested || s.stopping

/-- `listener.listen()`: the callback is registered, or run at once. -/
def listen (agent : Agent) (stoppable : Bool) : State :=
  if !stoppable then s.goto agent .add
  else if s.stopRequested then { s with callback := .running agent }.goto agent .cancel
  else { s with callback := .registered }.goto agent .add

/-- `addUnlessCancelled`, and what `start()` does with its answer. -/
def add (agent : Agent) : State :=
  if s.cancelled || s.closed then s.goto agent (.stopListener .stopped)
  else { s with queued := true }.goto agent .returned

/-- `cancelTimer` inside the stop callback. -/
def cancel (agent : Agent) : State :=
  if s.queued then { s with queued := false }.goto agent (.stopListener .stopped)
  else { s with cancelled := true }.goto agent .callbackDone

/-- The stop callback returns. On the starting thread `start()` goes on. -/
def callbackReturns (agent : Agent) : State :=
  { s with callback := .ran }.goto agent (if agent = Agent.starter then .add else .idle)

/-- `fired`: the task is spawned, unless the scheduler stops or has no room for it. -/
def spawn (agent : Agent) (room : Bool) : State :=
  if s.stopping then s.goto agent (.stopListener .stopped)
  else if room then (s.goto agent .idle).goto .task .run
  else s.goto agent (.stopListener .error)

/-- `listener.stop()`, unless it has to wait for a run of the callback on another thread. -/
def stopListener (agent : Agent) : Option State :=
  match s.callback with
  | .absent => some s
  | .running other => if other = agent then some { s with callback := .destroyed } else none
  | _ => some { s with callback := .destroyed }

/-- The receiver is completed. -/
def complete (agent : Agent) (ending : Ending) : State :=
  { s with completions := s.completions ++ [ending] }.goto agent
    (if agent = Agent.starter then .returned else .idle)

/-- A stop request runs the callback that it finds. -/
def request (agent : Agent) : State :=
  if s.callback = .registered then { s with callback := .running agent }.goto agent .cancel
  else s.goto agent .idle

/-- The next step of a thread that is at the operation. -/
def act (stoppable : Bool) (agent : Agent) (room : Bool) : Pc → Option State
  | .idle => none
  | .request => none
  | .returned => none
  | .begin => some (s.goto agent (if s.isStopped then .complete .stopped else .listen))
  | .listen => some (s.listen agent stoppable)
  | .add => some (s.add agent)
  | .cancel => some (s.cancel agent)
  | .callbackDone => some (s.callbackReturns agent)
  | .spawn => some (s.spawn agent room)
  | .run => (s.stopListener agent).map (·.goto agent .decide)
  | .decide => some (s.goto agent (.complete (if s.isStopped then .stopped else .value)))
  | .stopListener ending => (s.stopListener agent).map (·.goto agent (.complete ending))
  | .complete ending => some (s.complete agent ending)

/-- The next step of a thread. -/
def advance (stoppable : Bool) (agent : Agent) (room : Bool) : Option State :=
  if s.pc agent = .request then some (s.request agent)
  else s.touch.act stoppable agent room (s.pc agent)

/-- A thread fires the entry. -/
def fire : State :=
  { s.touch with queued := false }.goto .firer .spawn

/-- One step. -/
def step (stoppable : Bool) : Action → Option State
  | .start => if s.pc .starter = .idle then some (s.goto .starter .begin) else none
  | .requestStop =>
    if stoppable = true ∧ s.stopRequested = false ∧ s.pc .stopper = .idle then
      some ({ s with stopRequested := true }.goto .stopper .request)
    else none
  | .stop => some { s with stopping := true }
  | .expire => if s.queued then some { s with expired := true }.fire else none
  | .close =>
    if s.stopping then some { (if s.queued then s.fire else s) with closed := true } else none
  | .step agent room => s.advance stoppable agent room
  | .destroy =>
    if s.completions ≠ [] ∧ s.destroyed = false then some { s with destroyed := true } else none

end State

/-- A timer as a step system, for a token that may be stopped or one that may not. -/
def system (stoppable : Bool) : System State Action where
  init s := s = initial
  step s := s.step stoppable

/-- `start()` was called, and nobody has a step to take. -/
def State.AtRest (s : State) : Prop :=
  s.pc .starter = .returned ∧ ∀ agent, agent ≠ .starter → s.pc agent = .idle

/-- What makes a completion right. -/
def State.Justified (s : State) : Ending → Prop
  | .value => s.expired = true
  | .error => s.expired = true
  | .stopped => s.stopRequested = true ∨ s.stopping = true

/-- What a timer owes in every state: nobody uses it once the receiver may have destroyed it; it
completes at most once, with a value or an error only after its deadline, and as stopped only when
it was told to stop; threads that wait for each other's callbacks do not wait in a circle; and when
nobody has a step to take it has completed, or waits for its deadline, and nobody has told it to
stop. -/
structure State.Contract (s : State) : Prop where
  noFault : s.fault = false
  once : s.completions.length ≤ 1
  justified : ∀ ending ∈ s.completions, s.Justified ending
  progress : ∀ agent, s.pc agent ≠ .idle → s.pc agent ≠ .returned →
    ∃ other, ∀ stoppable room, (s.advance stoppable other room).isSome = true
  completes : s.AtRest → s.completions.length = 1 ∨
    s.queued = true ∧ s.stopRequested = false ∧ s.closed = false

end Stackfull.Exec.Timer
