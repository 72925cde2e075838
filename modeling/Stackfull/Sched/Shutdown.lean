import Stackfull.Sched.Tasks

/-!
# Spawning while the scheduler stops

`createTask` and `spawn` (`TaskFactory.h`, `Scheduler.h`), `SchedulerImpl::stop` (`Scheduler.cpp`),
`Worker::run` (`Worker.cpp`) and `liveTasks`, `countCreated`, `countFinished` and `releaseTask`
(`SchedulerCore.cpp`, `Runtime.h`).

The live tasks are counted in shards, one pair of counters for each worker and one for all other
threads; each read and each write of a counter is one step. A spawn tests `stopping`, builds the
task, counts it and schedules it. A worker that finds nothing to do while the scheduler stops reads
all finished counters and then all created counters, and leaves `run` when they agree.

Where a task is counts as one word of the task (`Phase`): the queues and `parkState` stand behind
it, and any thread may wake a parked task. Whether a spawn gets a slot and a stack is in the label.
The counters are 64 bits wide and do not wrap.

`creator`, `reported` and, in a scan, `foreign` are not in the code: who spawns a task, whether its
spawn has reported success, and which value of `foreignCreated` the scan has read.
-/

set_option autoImplicit false
set_option relaxedAutoImplicit false
set_option linter.dupNamespace false

namespace Stackfull.Sched.Shutdown

open Stackfull.Lib
open Stackfull.Sched.Tasks (Agent)

universe u v

/-- Where a task is. `creating` and `counted` are inside its spawn, before and after
`countCreated`; `releasing` is inside `releaseTask`, before `countFinished`. -/
inductive Phase (n : ℕ) (κ : Type u)
  | absent
  | creating (agent : Agent n κ)
  | counted (agent : Agent n κ)
  | queued
  | running (worker : Fin n)
  | parked
  | releasing (worker : Fin n)
  | released
  deriving DecidableEq

/-- What a spawn does next. -/
inductive Call (τ : Type v)
  | idle
  | build (task : τ)
  | count (task : τ)
  | schedule (task : τ)
  deriving DecidableEq

/-- Where a worker stands: before `run`, in its dispatcher or a task, in `releaseTask`, in
`liveTasks`, or gone. -/
inductive WorkerPc (n : ℕ) (τ : Type v)
  | launching
  | dispatch
  | finishJoin (task : τ)
  | countFinished (task : τ)
  | scanForeignFinished
  | scanFinished (rest : List (Fin n)) (finished : ℕ)
  | scanForeignCreated (finished : ℕ)
  | scanCreated (rest : List (Fin n)) (finished foreign created : ℕ)
  | left
  deriving DecidableEq

/-- The scheduler and its threads. -/
structure State (n : ℕ) (κ : Type u) (τ : Type v) where
  stopping : Bool
  parkedWoken : Bool
  foreignCreated : ℕ
  foreignFinished : ℕ
  tasksCreated : Fin n → ℕ
  tasksFinished : Fin n → ℕ
  phase : τ → Phase n κ
  joinable : τ → Bool
  joinDone : τ → Bool
  host : Fin n → Option τ
  worker : Fin n → WorkerPc n τ
  call : Agent n κ → Call τ
  creator : τ → Option (Agent n κ)
  reported : τ → Bool

/-- A step. -/
inductive Action (n : ℕ) (κ : Type u) (τ : Type v)
  | spawn (agent : Agent n κ) (task : τ) (joinable : Bool)
  | advance (agent : Agent n κ) (succeeds : Bool)
  | stop
  | parkedWoken
  | wake (task : τ)
  | enter (worker : Fin n)
  | resume (worker : Fin n) (task : τ)
  | yield (worker : Fin n)
  | park (worker : Fin n)
  | finish (worker : Fin n)
  | reap (worker : Fin n) (task : τ)
  | look (worker : Fin n)
  | work (worker : Fin n)
  deriving DecidableEq

/-- Whether the library is built with exceptions. -/
structure Config where
  hasExceptions : Bool

variable {n : ℕ} {κ : Type u} {τ : Type v}

/-- No worker has started. -/
def initial : State n κ τ where
  stopping := false
  parkedWoken := false
  foreignCreated := 0
  foreignFinished := 0
  tasksCreated := fun _ ↦ 0
  tasksFinished := fun _ ↦ 0
  phase := fun _ ↦ .absent
  joinable := fun _ ↦ false
  joinDone := fun _ ↦ false
  host := fun _ ↦ none
  worker := fun _ ↦ .launching
  call := fun _ ↦ .idle
  creator := fun _ ↦ none
  reported := fun _ ↦ false

namespace State

variable [DecidableEq κ] [DecidableEq τ]

/-- A worker goes on. -/
def goto (s : State n κ τ) (w : Fin n) (pc : WorkerPc n τ) : State n κ τ :=
  { s with worker := Function.update s.worker w pc }

/-- A spawn goes on. -/
def gotoCall (s : State n κ τ) (a : Agent n κ) (call : Call τ) : State n κ τ :=
  { s with call := Function.update s.call a call }

/-- A task gets somewhere else. -/
def setPhase (s : State n κ τ) (task : τ) (phase : Phase n κ) : State n κ τ :=
  { s with phase := Function.update s.phase task phase }

/-- The agent may call: a worker while it is in `run`, outside `releaseTask` and `liveTasks`. -/
def mayCall (s : State n κ τ) : Agent n κ → Bool
  | .foreign _ => true
  | .worker w => decide (s.worker w = .dispatch)

/-- A worker is in `run`, between two steps of its own. -/
def atWork (s : State n κ τ) (w : Fin n) : Bool :=
  decide (s.worker w = .dispatch) && decide (s.call (.worker w) = .idle)

/-- `countCreated`. -/
def countCreated (s : State n κ τ) : Agent n κ → State n κ τ
  | .foreign _ => { s with foreignCreated := s.foreignCreated + 1 }
  | .worker w => { s with
      tasksCreated := Function.update s.tasksCreated w (s.tasksCreated w + 1) }

/-- `createTask` tests `stopping`; with it set, the spawn fails and nothing has happened. -/
def spawn (s : State n κ τ) (a : Agent n κ) (task : τ) (joinable : Bool) : State n κ τ :=
  if s.stopping then s
  else
    { s.setPhase task (.creating a) with
      joinable := Function.update s.joinable task joinable
      creator := Function.update s.creator task (some a) }.gotoCall a (.build task)

/-- The next step of a spawn: the rest of `createTask`, then `schedule`. -/
def advance (s : State n κ τ) (a : Agent n κ) (succeeds : Bool) : Option (State n κ τ) :=
  match s.call a with
  | .idle => none
  | .build task =>
    some (if succeeds then s.gotoCall a (.count task)
      else (s.setPhase task .absent).gotoCall a .idle)
  | .count task => some (((s.countCreated a).setPhase task (.counted a)).gotoCall a (.schedule task))
  | .schedule task =>
    some ({ s.setPhase task .queued with
      reported := Function.update s.reported task true }.gotoCall a .idle)

/-- The running task leaves its worker. -/
def leave (s : State n κ τ) (w : Fin n) (phase : Phase n κ) (pc : τ → WorkerPc n τ) :
    Option (State n κ τ) :=
  match s.host w with
  | some task =>
    some ({ s.setPhase task phase with host := Function.update s.host w none }.goto w (pc task))
  | none => none

/-- `reapParkedTasks` claims a task: it unwinds, or is released as it is. -/
def reap (c : Config) (s : State n κ τ) (w : Fin n) (task : τ) : State n κ τ :=
  if c.hasExceptions then
    { s.setPhase task (.running w) with host := Function.update s.host w (some task) }
  else (s.setPhase task (.releasing w)).goto w (.finishJoin task)

/-- The next step of a worker inside `releaseTask` or `liveTasks`. -/
def work (s : State n κ τ) (w : Fin n) : Option (State n κ τ) :=
  match s.worker w with
  | .launching => none
  | .dispatch => none
  | .finishJoin task =>
    some ({ s with joinDone := Function.update s.joinDone task (s.joinable task) }.goto w
      (.countFinished task))
  | .countFinished task =>
    some ({ s.setPhase task .released with
      tasksFinished := Function.update s.tasksFinished w (s.tasksFinished w + 1) }.goto w .dispatch)
  | .scanForeignFinished => some (s.goto w (.scanFinished (List.finRange n) s.foreignFinished))
  | .scanFinished (v :: rest) finished =>
    some (s.goto w (.scanFinished rest (finished + s.tasksFinished v)))
  | .scanFinished [] finished => some (s.goto w (.scanForeignCreated finished))
  | .scanForeignCreated finished =>
    some (s.goto w (.scanCreated (List.finRange n) finished s.foreignCreated s.foreignCreated))
  | .scanCreated (v :: rest) finished foreign created =>
    some (s.goto w (.scanCreated rest finished foreign (created + s.tasksCreated v)))
  | .scanCreated [] finished _ created =>
    some (s.goto w (if created = finished then .left else .dispatch))
  | .left => none

/-- One step. -/
def step (c : Config) (s : State n κ τ) : Action n κ τ → Option (State n κ τ)
  | .spawn a task joinable =>
    if s.mayCall a ∧ s.call a = .idle ∧ s.phase task = .absent then some (s.spawn a task joinable)
    else none
  | .advance a succeeds => s.advance a succeeds
  | .stop => some { s with stopping := true }
  | .parkedWoken => if s.stopping then some { s with parkedWoken := true } else none
  | .wake task => if s.phase task = .parked then some (s.setPhase task .queued) else none
  | .enter w => if s.worker w = .launching then some (s.goto w .dispatch) else none
  | .resume w task =>
    if s.atWork w ∧ s.host w = none ∧ s.phase task = .queued then
      some { s.setPhase task (.running w) with host := Function.update s.host w (some task) }
    else none
  | .yield w => if s.atWork w then s.leave w .queued fun _ ↦ .dispatch else none
  | .park w => if s.atWork w then s.leave w .parked fun _ ↦ .dispatch else none
  | .finish w => if s.atWork w then s.leave w (.releasing w) .finishJoin else none
  | .reap w task =>
    if s.atWork w ∧ s.host w = none ∧ s.stopping ∧ s.parkedWoken ∧ s.phase task = .parked then
      some (s.reap c w task)
    else none
  | .look w =>
    if s.atWork w ∧ s.host w = none ∧ s.stopping then some (s.goto w .scanForeignFinished) else none
  | .work w => s.work w

/-- A thread outside the scheduler counts its task while some worker is still in `run`, and the last
worker leaves only if no such thread has counted a task since it read `foreignCreated`. -/
def countsInTime (s : State n κ τ) : Action n κ τ → Bool
  | .advance (.foreign k) _ =>
    match s.call (.foreign k) with
    | .count _ => decide (∃ w, s.worker w ≠ .left)
    | _ => true
  | .work w =>
    match s.worker w with
    | .scanCreated [] finished foreign created =>
      decide (created = finished → (∀ v, v ≠ w → s.worker v = .left) →
        s.foreignCreated = foreign)
    | _ => true
  | _ => true

end State

/-- The scheduler as a step system, for any number of workers and other threads. -/
def system [DecidableEq κ] [DecidableEq τ] (c : Config) :
    System (State n κ τ) (Action n κ τ) where
  init s := s = initial
  step := State.step c

/-- Once every worker has left `run` and every spawn has returned, each task whose spawn reported
success is released and its join state, if it has one, is done. -/
def State.Settled (s : State n κ τ) : Prop :=
  (∀ w, s.worker w = .left) → (∀ a, s.call a = .idle) → ∀ task, s.reported task = true →
    s.phase task = .released ∧ (s.joinable task = true → s.joinDone task = true)

end Stackfull.Sched.Shutdown
