import Stackfull.Sched.Tasks

/-!
# Stopping a scheduler with parked tasks

`SchedulerImpl::stop` (`Scheduler.cpp`), `wakeAllParked` (`SchedulerCore.cpp`) and the condition
under which `Worker::run` calls `reapParkedTasks` (`Worker.cpp`), over the tasks of `Tasks`.

`stop` sets `stopping`, wakes the task of every slot and sets `parkedWoken`; a worker looks at
`parkedWoken` before it reaps. Each look at a slot is one step, and the wake of its task is that of
`Tasks`, in any interleaving with everything else that happens to the tasks. Between two of its
steps the thread that stops may do other things, as the callbacks of `fireCallbackTimersAndClose`
do. A second `stop` returns at once and is left out.

`early`, `asleep` and `runs` are not in the code: whether a task is in a call of `park` that began
before `stopping` was set, whether it was parked at that time, and how often it had been resumed.
-/

set_option autoImplicit false
set_option relaxedAutoImplicit false
set_option linter.dupNamespace false

namespace Stackfull.Sched.Tasks

universe u v

variable {n : ℕ} {κ : Type u} {τ : Type v} [DecidableEq τ]

/-- The worker is inside the running task's call of `park`. -/
def Op.parks : Op τ → Bool
  | .parkStore | .leave .parked _ | .switch .parked _ => true
  | _ => false

/-- The task is in a call of `park`. -/
def State.inPark (s : State n κ τ) (x : τ) : Bool :=
  s.published x &&
    (s.history.parking x ||
      decide (∃ w, s.current w = some x ∧ (s.op (.worker w)).parks = true))

/-- The call that an agent made has returned. -/
def Op.returned : Op τ → Bool
  | .idle | .release _ => true
  | _ => false

end Stackfull.Sched.Tasks

namespace Stackfull.Sched.Sweep

open Stackfull.Lib
open Stackfull.Sched.Tasks (Agent Op Config)

universe u v

/-- Where `stop` stands: before it looks at a slot of `wakeAllParked`, inside the wake of that
slot's task, or at its end. -/
inductive Stop (n : ℕ) (κ : Type u)
  | notCalled
  | looking (caller : Agent n κ) (index : ℕ)
  | waking (caller : Agent n κ) (index : ℕ)
  | returned

/-- The tasks, the slots they are in, and `stop`. -/
structure State (n m : ℕ) (κ : Type u) (τ : Type v) where
  tasks : Tasks.State n κ τ
  slots : Fin m → Option τ
  stopping : Bool
  parkedWoken : Bool
  stop : Stop n κ
  early : τ → Bool
  asleep : τ → Bool
  runs : τ → ℕ

/-- A step: anything that happens to the tasks (a new task with the slot it gets), the beginning of
`stop`, or its next step. -/
inductive Action (n m : ℕ) (κ : Type u) (τ : Type v)
  | task (action : Tasks.Action n κ τ) (slot : Fin m)
  | stop (caller : Agent n κ)
  | sweep

variable {n m : ℕ} {κ : Type u} {τ : Type v}

/-- No task exists and nobody has called `stop`. -/
def initial : State n m κ τ where
  tasks := Tasks.initial
  slots := fun _ ↦ none
  stopping := false
  parkedWoken := false
  stop := .notCalled
  early := fun _ ↦ false
  asleep := fun _ ↦ false
  runs := fun _ ↦ 0

variable [DecidableEq κ] [DecidableEq τ]

namespace State

/-- A worker reaps only after `parkedWoken`, and a new task gets a free slot. -/
def allows (s : State n m κ τ) (slot : Fin m) : Tasks.Action n κ τ → Bool
  | .reap _ _ => s.parkedWoken
  | .spawn _ _ => (s.slots slot).isNone
  | _ => true

/-- The slots after a step: a new task takes its slot, and a released one leaves it. -/
def place (s : State n m κ τ) (slot : Fin m) (after : Tasks.State n κ τ) :
    Tasks.Action n κ τ → Fin m → Option τ
  | .spawn _ task => Function.update s.slots slot (some task)
  | _ => fun i ↦ (s.slots i).filter fun x ↦ after.published x

/-- Something happens to the tasks. -/
def act (c : Config) (s : State n m κ τ) (action : Tasks.Action n κ τ) (slot : Fin m) :
    Option (State n m κ τ) :=
  if s.allows slot action then
    (s.tasks.step c action).map fun after ↦
      { s with
        tasks := after
        slots := s.place slot after action
        early := fun x ↦ s.early x && after.inPark x }
  else none

/-- `stop` sets `stopping`. -/
def begin (s : State n m κ τ) (caller : Agent n κ) : Option (State n m κ τ) :=
  if s.stopping then none
  else
    some { s with
      stopping := true
      stop := .looking caller 0
      early := fun x ↦ s.tasks.inPark x
      asleep := fun x ↦ decide (s.tasks.parkState x = .parked)
      runs := s.tasks.history.resumed }

/-- The next step of `stop`. -/
def sweep (c : Config) (s : State n m κ τ) : Option (State n m κ τ) :=
  match s.stop with
  | .looking caller index =>
    if h : index < m then
      match s.slots ⟨index, h⟩ with
      | none => some { s with stop := .looking caller (index + 1) }
      | some x =>
        (s.act c (.wake caller x) ⟨index, h⟩).map fun t ↦ { t with stop := .waking caller index }
    else some { s with parkedWoken := true, stop := .returned }
  | .waking caller index =>
    if (s.tasks.op caller).returned then some { s with stop := .looking caller (index + 1) }
    else none
  | _ => none

end State

/-- One step. -/
def step (c : Config) (s : State n m κ τ) : Action n m κ τ → Option (State n m κ τ)
  | .task action slot => s.act c action slot
  | .stop caller => s.begin caller
  | .sweep => s.sweep c

/-- A scheduler that is stopped as a step system. -/
def system (n m : ℕ) (κ : Type u) (τ : Type v) [DecidableEq κ] [DecidableEq τ] (c : Config) :
    System (State n m κ τ) (Action n m κ τ) where
  init s := s = initial
  step := step c

end Stackfull.Sched.Sweep
