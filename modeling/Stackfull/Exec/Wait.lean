import Stackfull.Lib.Transition
import Stackfull.Sched.Tasks

/-!
# `exec::wait`

`exec/include/stackfull/exec/wait.hpp`. A task that waits for a sender keeps a `wait_state` in its
frame, announces the state in the thread-local `starting_wait` while it starts the operation, puts
the old value back, and then parks until `done` is set. A completion on a thread whose
`starting_wait` is the state sets `done` only; any other completion sets `done` and wakes the task.

Threads are `θ`, tasks `τ` and the addresses of wait states `ρ`; an address is used again once the
wait that had it is over. What `start()` and `request_stop()` run is user code: it may wait itself,
which stacks wait states, and it may park, after which the task may go on on any thread.

The accesses to `starting_wait` of one thread are not seen by another, so the two of `run_wait` that
follow each other are one step. A completion is a call that a thread executes from its first access
to its last one before the task on that thread goes on. A sender completes at most once, and not
before it is started.
-/

set_option autoImplicit false
set_option relaxedAutoImplicit false
set_option linter.dupNamespace false

namespace Stackfull.Exec.Wait

open Stackfull.Lib
open Stackfull.Sched.Tasks (TaskState)

universe u v w

/-- Where a wait stands: inside `start()`, at the test of `done`, or inside `request_stop()`. -/
inductive Phase
  | starting
  | testing
  | forwarding
  deriving DecidableEq, Repr

/-- A wait in progress: its task, the value of `starting_wait` it found, and `wait_state::done`.
`claimed` says that its sender has begun to complete. -/
structure WaitState (τ : Type v) (ρ : Type w) where
  waiter : τ
  outer : Option ρ
  phase : Phase
  forwarded : Bool
  done : Bool
  claimed : Bool

/-- Where a task stands: in its own code or in `run_wait`, at the accesses of `park` and
`onTaskParked`, parked, or in a run queue. -/
inductive TaskPc
  | running
  | parkLoad
  | parkStore
  | arrived
  | arrivedStore
  | parked
  | queued
  deriving DecidableEq, Repr

/-- The call a thread executes: `wait_receiver::finish` up to the store of `done`, or
`SchedulerCore::wake`. -/
inductive CallPc (τ : Type v) (ρ : Type w)
  | idle
  | compare (state : ρ)
  | storeInline (state : ρ)
  | storeDone (state : ρ)
  | wakeLoad (task : τ)
  | wakeSwap (task : τ) (seen : TaskState)
  | wakeStore (task : τ)
  | wakeSchedule (task : τ)

/-- The thread-locals, the waits, the tasks and the threads. -/
structure State (θ : Type u) (τ : Type v) (ρ : Type w) where
  startingWait : θ → Option ρ
  wait : ρ → Option (WaitState τ ρ)
  stack : τ → List ρ
  parkState : τ → TaskState
  pc : τ → TaskPc
  host : θ → Option τ
  call : θ → CallPc τ ρ

/-- A step. `begin` enters `run_wait`; `goOn` is the next access of the task on a thread, with
`stopRequested` read where it is read; `park` is a `park` of user code; `leave` ends `start()` or
`request_stop()`; `complete` and `wake` begin a call, and `advance` takes its next access. -/
inductive Action (θ : Type u) (τ : Type v) (ρ : Type w)
  | resume (t : θ) (task : τ)
  | begin (t : θ) (state : ρ)
  | park (t : θ)
  | leave (t : θ)
  | goOn (t : θ) (stopRequested : Bool)
  | complete (t : θ) (state : ρ)
  | wake (t : θ) (task : τ)
  | advance (t : θ) (spurious : Bool)

variable {θ : Type u} {τ : Type v} {ρ : Type w}

/-- No task waits, and every task is in a run queue. -/
def initial : State θ τ ρ where
  startingWait := fun _ ↦ none
  wait := fun _ ↦ none
  stack := fun _ ↦ []
  parkState := fun _ ↦ .running
  pc := fun _ ↦ .queued
  host := fun _ ↦ none
  call := fun _ ↦ .idle

/-- The thread is not inside a call. -/
def CallPc.isIdle : CallPc τ ρ → Bool
  | .idle => true
  | _ => false

namespace State

variable [DecidableEq θ] [DecidableEq τ] [DecidableEq ρ]

/-- The task on a thread, unless the thread is inside a call. -/
def current (s : State θ τ ρ) (t : θ) : Option τ :=
  if (s.call t).isIdle then s.host t else none

/-- The innermost wait of a task. -/
def innermost (s : State θ τ ρ) (task : τ) : Option (ρ × WaitState τ ρ) :=
  match s.stack task with
  | [] => none
  | state :: _ => (s.wait state).map fun w ↦ (state, w)

/-- The task is in code that may begin a wait or park: outside every wait, or inside `start()` or
`request_stop()`. -/
def inUserCode (s : State θ τ ρ) (task : τ) : Bool :=
  match s.innermost task with
  | none => true
  | some (_, w) => w.phase ≠ .testing

/-- A task goes on. -/
def goto (s : State θ τ ρ) (task : τ) (pc : TaskPc) : State θ τ ρ :=
  { s with pc := Function.update s.pc task pc }

/-- A thread goes on with a call. -/
def setCall (s : State θ τ ρ) (t : θ) (pc : CallPc τ ρ) : State θ τ ρ :=
  { s with call := Function.update s.call t pc }

/-- A wait state changes. -/
def setWait (s : State θ τ ρ) (state : ρ) (w : WaitState τ ρ) : State θ τ ρ :=
  { s with wait := Function.update s.wait state (some w) }

/-- Writes a task's `parkState`. -/
def setParkState (s : State θ τ ρ) (task : τ) (value : TaskState) : State θ τ ρ :=
  { s with parkState := Function.update s.parkState task value }

/-- The thread has switched away from its task. -/
def release (s : State θ τ ρ) (t : θ) : State θ τ ρ :=
  { s with host := Function.update s.host t none }

/-- `run_wait` up to the call of `start()`, with a state at an address that is not in use. -/
def enterWait (s : State θ τ ρ) (t : θ) (task : τ) (state : ρ) : State θ τ ρ :=
  { s with
    startingWait := Function.update s.startingWait t (some state)
    wait := Function.update s.wait state (some
      { waiter := task, outer := s.startingWait t, phase := .starting, forwarded := false
        done := false, claimed := false })
    stack := Function.update s.stack task (state :: s.stack task) }

/-- `start()` or `request_stop()` returns. After `start()` the old value of `starting_wait` is put
back, on the thread that executes the task now. -/
def leaveUserCode (s : State θ τ ρ) (t : θ) (state : ρ) (w : WaitState τ ρ) :
    Option (State θ τ ρ) :=
  match w.phase with
  | .starting =>
    some { s.setWait state { w with phase := .testing } with
      startingWait := Function.update s.startingWait t w.outer }
  | .forwarding => some (s.setWait state { w with phase := .testing })
  | .testing => none

/-- The loop of `run_wait`: `done` ends the wait; else a stop request is passed on once, or the task
parks. -/
def testDone (s : State θ τ ρ) (task : τ) (state : ρ) (w : WaitState τ ρ) (stopRequested : Bool) :
    State θ τ ρ :=
  if w.done then
    { s with
      wait := Function.update s.wait state none
      stack := Function.update s.stack task (s.stack task).tail }
  else if !w.forwarded && stopRequested then
    s.setWait state { w with phase := .forwarding, forwarded := true }
  else s.goto task .parkLoad

/-- The next access of a task. -/
def taskStep (s : State θ τ ρ) (t : θ) (task : τ) (stopRequested : Bool) : Option (State θ τ ρ) :=
  match s.pc task with
  | .running =>
    match s.innermost task with
    | some (state, w) =>
      if w.phase = .testing then some (s.testDone task state w stopRequested) else none
    | none => none
  | .parkLoad =>
    some (s.goto task (if s.parkState task = .notified then .parkStore else .arrived))
  | .parkStore => some ((s.setParkState task .running).goto task .running)
  | .arrived =>
    if s.parkState task = .running then
      some (((s.setParkState task .parked).goto task .parked).release t)
    else some (s.goto task .arrivedStore)
  | .arrivedStore => some (((s.setParkState task .running).goto task .queued).release t)
  | .parked => none
  | .queued => none

/-- `wake` after it has read the word. -/
def wakeRead (s : State θ τ ρ) (t : θ) (task : τ) : State θ τ ρ :=
  match s.parkState task with
  | .notified => s.setCall t .idle
  | .done => s.setCall t .idle
  | seen => s.setCall t (.wakeSwap task seen)

/-- The exchange of `wake`. -/
def wakeSwap (s : State θ τ ρ) (t : θ) (task : τ) (seen : TaskState) (spurious : Bool) :
    State θ τ ρ :=
  if s.parkState task = seen ∧ spurious = false then
    (s.setParkState task .notified).setCall t (if seen = .parked then .wakeStore task else .idle)
  else s.wakeRead t task

/-- The next access of a call. -/
def callStep (s : State θ τ ρ) (t : θ) (spurious : Bool) : Option (State θ τ ρ) :=
  match s.call t with
  | .idle => none
  | .compare state =>
    some (s.setCall t
      (if s.startingWait t = some state then .storeInline state else .storeDone state))
  | .storeInline state =>
    (s.wait state).map fun w ↦ (s.setWait state { w with done := true }).setCall t .idle
  | .storeDone state =>
    (s.wait state).map fun w ↦
      (s.setWait state { w with done := true }).setCall t (.wakeLoad w.waiter)
  | .wakeLoad task => some (s.wakeRead t task)
  | .wakeSwap task seen => some (s.wakeSwap t task seen spurious)
  | .wakeStore task => some ((s.setParkState task .running).setCall t (.wakeSchedule task))
  | .wakeSchedule task => some ((s.goto task .queued).setCall t .idle)

/-- One step. -/
def step (s : State θ τ ρ) : Action θ τ ρ → Option (State θ τ ρ)
  | .resume t task =>
    if (s.call t).isIdle ∧ s.host t = none ∧ s.pc task = .queued then
      some ({ s with host := Function.update s.host t (some task) }.goto task .running)
    else none
  | .begin t state =>
    match s.current t with
    | some task =>
      if s.pc task = .running ∧ s.inUserCode task ∧ (s.wait state).isNone then
        some (s.enterWait t task state)
      else none
    | none => none
  | .park t =>
    match s.current t with
    | some task =>
      if s.pc task = .running ∧ s.inUserCode task then some (s.goto task .parkLoad) else none
    | none => none
  | .leave t =>
    match s.current t with
    | some task =>
      if s.pc task = .running then
        (s.innermost task).bind fun (state, w) ↦ s.leaveUserCode t state w
      else none
    | none => none
  | .goOn t stopRequested =>
    match s.current t with
    | some task => s.taskStep t task stopRequested
    | none => none
  | .complete t state =>
    if (s.call t).isIdle then
      ((s.wait state).filter fun w ↦ !w.claimed).map fun w ↦
        (s.setWait state { w with claimed := true }).setCall t (.compare state)
    else none
  | .wake t task => if (s.call t).isIdle then some (s.setCall t (.wakeLoad task)) else none
  | .advance t spurious => s.callStep t spurious

/-- The task that returns from `start()` finds its own wait in `starting_wait` of the thread it is
on. -/
def restoresOwn (s : State θ τ ρ) : Action θ τ ρ → Bool
  | .leave t =>
    match (s.current t).bind s.innermost with
    | some (state, w) => w.phase ≠ .starting || s.startingWait t = some state
    | none => true
  | _ => true

end State

/-- Tasks that wait for senders, as a step system. -/
def system (θ : Type u) (τ : Type v) (ρ : Type w) [DecidableEq θ] [DecidableEq τ] [DecidableEq ρ] :
    System (State θ τ ρ) (Action θ τ ρ) where
  init s := s = initial
  step := State.step

/-- A lost completion: every call has returned, a wait is done, and its task is parked in
`run_wait`. -/
def State.Lost (s : State θ τ ρ) : Prop :=
  (∀ t, s.call t = .idle) ∧
    ∃ state w, s.innermost w.waiter = some (state, w) ∧ w.phase = .testing ∧ w.done = true ∧
      s.parkState w.waiter = .parked

end Stackfull.Exec.Wait
