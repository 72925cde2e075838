import Mathlib
import Stackfull.Sched.Tasks

/-!
# The slab of task slots and the wake tokens

`TaskSlot` in `sched/include/stackfull/sched/detail/SchedulerCore.h`, `WakeToken::wake`
(`WakeToken.cpp`), `wakeAllParked` and `releaseTask` (`SchedulerCore.cpp`), `reapParkedTasks`
(`Worker.cpp`), `forEachTask` (`Scheduler.cpp`), `createTask` (`TaskFactory.h`), and of the running
tasks what decides when one of them ends.

A slot holds one task after the other. The incarnations of a slot are numbered by how often the slot
was released before; the word `generation` is that number modulo `2 ^ 32`. Each access of `task`,
`generation`, `pins` and of a task's `parkState` is one step. A thread executes one call at a time,
inside the task it runs (`host`) or outside any; `reaping` is the place of a `reapParkedTasks` in
the dispatcher that an unwinding task has interrupted.

`use` says in whose hands a slot and its task are: it stands for the free list, the queues and the
running tasks. Whether a task is shielded, and whether a weak exchange fails, is in the label.

`memory`, `touched`, `acts`, `results` and `fault` are not in the code. They record which tasks are
built and freed, which tasks a call of `wake` has read, what wakers wrote and to which task, what
`wake` returned, and whether somebody went to a task that is not there.
-/

set_option autoImplicit false
set_option relaxedAutoImplicit false
set_option linter.dupNamespace false

namespace Stackfull.Sched.Slots

open Stackfull.Lib
open Stackfull.Sched.Tasks (TaskState)

universe u

/-- A `Task *`: the slot of the task and the number of the incarnation. -/
structure Ref where
  slot : ℕ
  incarnation : ℕ
  deriving DecidableEq, Repr

/-- `Task::generation` and the word of the slot: the number of the incarnation in 32 bits. -/
def word (count : ℕ) : ℕ :=
  count % 2 ^ 32

/-- `WakeToken`; `core` is whether the pointer to the scheduler is set. -/
structure Token where
  core : Bool
  slot : ℕ
  generation : ℕ
  deriving DecidableEq, Repr

/-- The calls that go through a slot, the loops with their index. -/
inductive Call
  | wake (token : Token)
  | wakeAllParked (i : ℕ)
  | reapParkedTasks (i : ℕ)
  | forEachTask (i : ℕ)
  deriving DecidableEq, Repr

/-- The slot a call is at. -/
def Call.slot : Call → ℕ
  | .wake token => token.slot
  | .wakeAllParked i => i
  | .reapParkedTasks i => i
  | .forEachTask i => i

/-- Where a thread stands, before its next access. -/
inductive Pc
  | idle
  | peek (i : ℕ)
  | pin (call : Call)
  | loadGeneration (token : Token)
  | loadTask (call : Call)
  | wakeLoad (call : Call) (task : Ref)
  | wakeSwap (call : Call) (task : Ref) (seen : TaskState)
  | wakeStore (call : Call) (task : Ref)
  | wakeSchedule (call : Call) (task : Ref)
  | readInfo (i : ℕ) (task : Ref)
  | claim (i : ℕ) (task : Ref)
  | unpin (call : Call) (woke : Bool)
  | unpinClaimed (i : ℕ) (task : Ref)
  | shields (i : ℕ) (task : Ref)
  | putBack (i : ℕ) (task : Ref)
  | putStore (i : ℕ) (task : Ref)
  | putSchedule (i : ℕ) (task : Ref)
  | createGeneration (slot : ℕ)
  | createStore (task : Ref)
  | spawned (task : Ref)
  | parkLoad
  | parkStore
  | parkedSwap (task : Ref)
  | parkedStore (task : Ref)
  | parkedSchedule (task : Ref)
  | releaseDone (task : Ref)
  | releaseStore (task : Ref)
  | releaseGeneration (task : Ref)
  | releaseWait (task : Ref)
  | releaseFree (task : Ref)
  | releaseSlot (slot : ℕ)
  deriving DecidableEq, Repr

/-- Where a registered task is: in the hand of a thread that will schedule it, in a queue, running,
parked, claimed by a reaper, or on its way out. -/
inductive Place (θ : Type u)
  | hand (thread : θ)
  | queued
  | running (thread : θ)
  | parked
  | claimed (thread : θ)
  | releasing (thread : θ)
  deriving DecidableEq

/-- What a slot is used for. -/
inductive Use (θ : Type u)
  | free
  | taken (thread : θ)
  | building (thread : θ) (incarnation : ℕ)
  | live (incarnation : ℕ) (place : Place θ)
  | gone (thread : θ)
  deriving DecidableEq

/-- Whether a task's memory is there. -/
inductive Memory
  | absent
  | built
  | freed
  deriving DecidableEq, Repr

/-- A write of a waker to a task: the token it came with, if any, and whether the task was still
registered in its slot. -/
structure Act where
  token : Option Token
  task : Ref
  registered : Bool
  deriving DecidableEq, Repr

/-- A call of `wake` that has returned: its token, what it returned, and the tasks it read. -/
structure Result where
  token : Token
  woke : Bool
  touched : List Ref
  deriving DecidableEq, Repr

/-- The slots, the tasks and the threads. -/
structure State (θ : Type u) where
  task : ℕ → Option ℕ
  generation : ℕ → ℕ
  pins : ℕ → ℕ
  use : ℕ → Use θ
  parkState : Ref → TaskState
  host : θ → Option Ref
  reaping : θ → Option ℕ
  pc : θ → Pc
  memory : Ref → Memory
  touched : θ → List Ref
  acts : List Act
  results : List Result
  fault : Bool

/-- A step: a thread begins something or takes its next access. -/
inductive Action (θ : Type u)
  | wake (t : θ) (token : Token)
  | wakeAllParked (t : θ)
  | reapParkedTasks (t : θ)
  | forEachTask (t : θ)
  | createTask (t : θ) (slot : ℕ)
  | abandon (t : θ)
  | resume (t : θ) (task : Ref)
  | park (t : θ)
  | yield (t : θ)
  | finish (t : θ)
  | advance (t : θ) (flag : Bool)
  deriving DecidableEq

/-- `maxTasks`, and whether the library is built with exceptions. -/
structure Config where
  maxTasks : ℕ
  hasExceptions : Bool

variable {θ : Type u}

/-- All slots are free. -/
def initial : State θ where
  task := fun _ ↦ none
  generation := fun _ ↦ 0
  pins := fun _ ↦ 0
  use := fun _ ↦ .free
  parkState := fun _ ↦ .running
  host := fun _ ↦ none
  reaping := fun _ ↦ none
  pc := fun _ ↦ .idle
  memory := fun _ ↦ .absent
  touched := fun _ ↦ []
  acts := []
  results := []
  fault := false

/-- What a call does when it is through with its slot: the loops go on. -/
def Call.next (c : Config) : Call → Pc
  | .wake _ => .idle
  | .wakeAllParked i => if i + 1 < c.maxTasks then .pin (.wakeAllParked (i + 1)) else .idle
  | .reapParkedTasks i => if i + 1 < c.maxTasks then .pin (.reapParkedTasks (i + 1)) else .idle
  | .forEachTask i => if i + 1 < c.maxTasks then .peek (i + 1) else .idle

/-- What a call does once its slot is pinned. -/
def Call.afterPin : Call → Pc
  | .wake token => .loadGeneration token
  | call => .loadTask call

/-- The token of a call. -/
def Call.token? : Call → Option Token
  | .wake token => some token
  | _ => none

namespace State

variable [DecidableEq θ]

/-- A thread goes on. -/
def goto (s : State θ) (t : θ) (pc : Pc) : State θ :=
  { s with pc := Function.update s.pc t pc }

/-- A slot's task gets to another place. -/
def place (s : State θ) (task : Ref) (p : Place θ) : State θ :=
  { s with use := Function.update s.use task.slot (.live task.incarnation p) }

/-- Writes a task's `parkState`. -/
def setParkState (s : State θ) (task : Ref) (state : TaskState) : State θ :=
  { s with parkState := Function.update s.parkState task state }

/-- Somebody goes to a task. -/
def touch (s : State θ) (task : Ref) : State θ :=
  { s with fault := s.fault || decide (s.memory task ≠ .built) }

/-- A waker writes to a task. -/
def act (s : State θ) (call : Call) (task : Ref) : State θ :=
  { s.touch task with
    acts := s.acts ++ [⟨call.token?, task, decide (s.task task.slot = some task.incarnation)⟩] }

/-! ### Wakers -/

/-- The load of the task pointer, of a pinned slot. -/
def loadTask (s : State θ) (t : θ) (call : Call) : State θ :=
  match s.task call.slot, call with
  | none, _ => s.goto t (.unpin call false)
  | some n, .reapParkedTasks i => s.goto t (.claim i ⟨i, n⟩)
  | some n, .forEachTask i => s.goto t (.readInfo i ⟨i, n⟩)
  | some n, call => s.goto t (.wakeLoad call ⟨call.slot, n⟩)

/-- `SchedulerCore::wake` after it has read the word: nothing to do, or a try at the exchange. -/
def wakeRead (s : State θ) (t : θ) (call : Call) (task : Ref) : State θ :=
  let read := { s.touch task with touched := Function.update s.touched t (s.touched t ++ [task]) }
  match s.parkState task with
  | .notified => read.goto t (.unpin call true)
  | .done => read.goto t (.unpin call true)
  | seen => read.goto t (.wakeSwap call task seen)

/-- The exchange of `SchedulerCore::wake`. -/
def wakeSwap (s : State θ) (t : θ) (call : Call) (task : Ref) (seen : TaskState)
    (spurious : Bool) : State θ :=
  if s.parkState task = seen ∧ spurious = false then
    if seen = .parked then
      (((s.act call task).setParkState task .notified).place task (.hand t)).goto t
        (.wakeStore call task)
    else ((s.act call task).setParkState task .notified).goto t (.unpin call true)
  else s.wakeRead t call task

/-- A thread lets go of a slot. A `wake` returns. -/
def unpin (c : Config) (s : State θ) (t : θ) (call : Call) (woke : Bool) : State θ :=
  let unpinned := { s with pins := Function.update s.pins call.slot (s.pins call.slot - 1) }
  match call with
  | .wake token =>
    { unpinned with
      results := s.results ++ [(⟨token, woke, s.touched t⟩ : Result)] }.goto t .idle
  | call => unpinned.goto t (call.next c)

/-! ### The reaper -/

/-- `reapParkedTasks` claims a task. -/
def claim (s : State θ) (t : θ) (i : ℕ) (task : Ref) : State θ :=
  if s.parkState task = .parked then
    (((s.touch task).setParkState task .running).place task (.claimed t)).goto t
      (.unpinClaimed i task)
  else (s.touch task).goto t (.unpin (.reapParkedTasks i) false)

/-- `reapParkedTasks` looks at the shields of the task it has claimed: it puts the task back, or
unwinds it on top of the dispatcher, or drops it. -/
def shields (c : Config) (s : State θ) (t : θ) (i : ℕ) (task : Ref) (shielded : Bool) : State θ :=
  if shielded then (s.touch task).goto t (.putBack i task)
  else if c.hasExceptions then
    { (s.touch task).place task (.running t) with
      host := Function.update s.host t (some task)
      reaping := Function.update s.reaping t (some i) }.goto t .idle
  else
    { (s.touch task).place task (.releasing t) with
      reaping := Function.update s.reaping t (some i) }.goto t (.releaseDone task)

/-- `reapParkedTasks` puts a shielded task back. -/
def putBack (c : Config) (s : State θ) (t : θ) (i : ℕ) (task : Ref) : State θ :=
  if s.parkState task = .running then
    (((s.touch task).setParkState task .parked).place task .parked).goto t
      ((Call.reapParkedTasks i).next c)
  else (s.touch task).goto t (.putStore i task)

/-! ### Tasks -/

/-- `createTask` reads the generation and builds the task. -/
def createGeneration (s : State θ) (t : θ) (slot : ℕ) : State θ :=
  let task : Ref := ⟨slot, s.generation slot⟩
  { s.setParkState task .running with
    memory := Function.update s.memory task .built
    use := Function.update s.use slot (.building t (s.generation slot)) }.goto t (.createStore task)

/-- The running task's `park`. -/
def parkLoad (s : State θ) (t : θ) : Option (State θ) :=
  match s.host t with
  | some task =>
    some (if s.parkState task = .notified then (s.touch task).goto t .parkStore
      else { (s.touch task).place task (.hand t) with
        host := Function.update s.host t none }.goto t (.parkedSwap task))
  | none => none

/-- The running task's `park` consumes a pending token. -/
def parkStore (s : State θ) (t : θ) : Option (State θ) :=
  match s.host t with
  | some task => some (((s.touch task).setParkState task .running).goto t .idle)
  | none => none

/-- `onTaskParked`. -/
def parkedSwap (s : State θ) (t : θ) (task : Ref) : State θ :=
  if s.parkState task = .running then
    (((s.touch task).setParkState task .parked).place task .parked).goto t .idle
  else (s.touch task).goto t (.parkedStore task)

/-- A task in hand is put into a queue. -/
def schedule (s : State θ) (t : θ) (task : Ref) (pc : Pc) : State θ :=
  ((s.touch task).place task .queued).goto t pc

/-- A task in hand is `Running` again. -/
def storeRunning (s : State θ) (t : θ) (task : Ref) (pc : Pc) : State θ :=
  ((s.touch task).setParkState task .running).goto t pc

/-- The last part of `releaseTask`: the memory goes, then the slot is free. -/
def releaseFree (s : State θ) (t : θ) (task : Ref) : State θ :=
  { s.touch task with
    memory := Function.update s.memory task .freed
    use := Function.update s.use task.slot (.gone t) }.goto t (.releaseSlot task.slot)

/-- The next access of a thread. -/
def advance (c : Config) (s : State θ) (t : θ) (flag : Bool) : Option (State θ) :=
  match s.pc t with
  | .idle => none
  | .peek i =>
    some (s.goto t (if s.task i = none then (Call.forEachTask i).next c else .pin (.forEachTask i)))
  | .pin call =>
    some ({ s with pins := Function.update s.pins call.slot (s.pins call.slot + 1) }.goto t
      call.afterPin)
  | .loadGeneration token =>
    some (s.goto t (if word (s.generation token.slot) = token.generation then
      .loadTask (.wake token) else .unpin (.wake token) false))
  | .loadTask call => some (s.loadTask t call)
  | .wakeLoad call task => some (s.wakeRead t call task)
  | .wakeSwap call task seen => some (s.wakeSwap t call task seen flag)
  | .wakeStore call task =>
    some (((s.act call task).setParkState task .running).goto t (.wakeSchedule call task))
  | .wakeSchedule call task =>
    some (((s.act call task).place task .queued).goto t (.unpin call true))
  | .readInfo i task => some ((s.touch task).goto t (.unpin (.forEachTask i) false))
  | .claim i task => some (s.claim t i task)
  | .unpin call woke => some (s.unpin c t call woke)
  | .unpinClaimed i task =>
    some ({ s with pins := Function.update s.pins i (s.pins i - 1) }.goto t (.shields i task))
  | .shields i task => some (s.shields c t i task flag)
  | .putBack i task => some (s.putBack c t i task)
  | .putStore i task => some (s.storeRunning t task (.putSchedule i task))
  | .putSchedule i task => some (s.schedule t task ((Call.reapParkedTasks i).next c))
  | .createGeneration slot => some (s.createGeneration t slot)
  | .createStore task =>
    some ({ s.place task (.hand t) with
      task := Function.update s.task task.slot (some task.incarnation) }.goto t (.spawned task))
  | .spawned task => some (s.schedule t task .idle)
  | .parkLoad => s.parkLoad t
  | .parkStore => s.parkStore t
  | .parkedSwap task => some (s.parkedSwap t task)
  | .parkedStore task => some (s.storeRunning t task (.parkedSchedule task))
  | .parkedSchedule task => some (s.schedule t task .idle)
  | .releaseDone task => some (((s.touch task).setParkState task .done).goto t (.releaseStore task))
  | .releaseStore task =>
    some ({ s with task := Function.update s.task task.slot none }.goto t (.releaseGeneration task))
  | .releaseGeneration task =>
    some ({ s with
      generation := Function.update s.generation task.slot (s.generation task.slot + 1) }.goto t
        (.releaseWait task))
  | .releaseWait task =>
    if s.pins task.slot = 0 then some (s.goto t (.releaseFree task)) else none
  | .releaseFree task => some (s.releaseFree t task)
  | .releaseSlot slot =>
    some ({ s with use := Function.update s.use slot .free }.goto t .idle)

/-! ### Beginning something -/

/-- `WakeToken::wake` is called. -/
def wake (s : State θ) (t : θ) (token : Token) : State θ :=
  if token.core then
    { s with touched := Function.update s.touched t [] }.goto t (.pin (.wake token))
  else { s with results := s.results ++ [⟨token, false, []⟩] }

/-- `reapParkedTasks` begins, or goes on where an unwinding task has interrupted it. -/
def reapParkedTasks (c : Config) (s : State θ) (t : θ) : State θ :=
  match s.reaping t with
  | some i =>
    { s with reaping := Function.update s.reaping t none }.goto t ((Call.reapParkedTasks i).next c)
  | none => s.goto t (if 0 < c.maxTasks then .pin (.reapParkedTasks 0) else .idle)

/-- `acquireSlot` has found a free slot. -/
def createTask (s : State θ) (t : θ) (slot : ℕ) : Option (State θ) :=
  if s.use slot = .free then
    some ({ s with use := Function.update s.use slot (.taken t) }.goto t (.createGeneration slot))
  else none

/-- `createTask` gets no stack and gives the slot back. -/
def abandon (s : State θ) (t : θ) : Option (State θ) :=
  match s.pc t with
  | .createGeneration slot =>
    some ({ s with use := Function.update s.use slot .free }.goto t .idle)
  | _ => none

/-- A task is taken from a queue and continues. -/
def resume (s : State θ) (t : θ) (task : Ref) : Option (State θ) :=
  if s.host t = none ∧ s.use task.slot = .live task.incarnation .queued then
    some { s.place task (.running t) with host := Function.update s.host t (some task) }
  else none

/-- The running task leaves its worker, to a queue or for good. -/
def leave (s : State θ) (t : θ) (p : Place θ) (pc : Ref → Pc) : Option (State θ) :=
  match s.host t with
  | some task =>
    some ({ s.place task p with host := Function.update s.host t none }.goto t (pc task))
  | none => none

/-- One step. -/
def step (c : Config) (s : State θ) : Action θ → Option (State θ)
  | .wake t token => if s.pc t = .idle then some (s.wake t token) else none
  | .wakeAllParked t =>
    if s.pc t = .idle then
      some (s.goto t (if 0 < c.maxTasks then .pin (.wakeAllParked 0) else .idle))
    else none
  | .reapParkedTasks t =>
    if s.pc t = .idle ∧ s.host t = none then some (s.reapParkedTasks c t) else none
  | .forEachTask t =>
    if s.pc t = .idle then some (s.goto t (if 0 < c.maxTasks then .peek 0 else .idle)) else none
  | .createTask t slot => if s.pc t = .idle ∧ slot < c.maxTasks then s.createTask t slot else none
  | .abandon t => s.abandon t
  | .resume t task => if s.pc t = .idle then s.resume t task else none
  | .park t => if s.pc t = .idle ∧ s.host t ≠ none then some (s.goto t .parkLoad) else none
  | .yield t => if s.pc t = .idle then s.leave t .queued fun _ ↦ .idle else none
  | .finish t => if s.pc t = .idle then s.leave t (.releasing t) .releaseDone else none
  | .advance t flag => s.advance c t flag

end State

/-- The slab as a step system, for any number of threads. -/
def system [DecidableEq θ] (c : Config) : System (State θ) (Action θ) where
  init s := s = initial
  step := State.step c

/-- The thread is pinned and holds the pointer of this task. -/
def Pc.holds : Pc → Option Ref
  | .wakeLoad _ task => some task
  | .wakeSwap _ task _ => some task
  | .wakeStore _ task => some task
  | .wakeSchedule _ task => some task
  | .readInfo _ task => some task
  | .claim _ task => some task
  | .unpinClaimed _ task => some task
  | _ => none

/-- What the slab owes in every state. Whatever a waker wrote went to a task that was still
registered, and with a token to the incarnation that was created with its generation; `wake` reads
no other task, and returns `true` only if it read that one. No pinned caller holds a task that is
about to be freed or is freed, no slot leads to it, and no later incarnation has its number. Nobody
goes to a task that is not there. -/
structure State.Contract (s : State θ) : Prop where
  acts : ∀ act ∈ s.acts, act.registered = true ∧ ∀ token, act.token = some token →
    act.task.slot = token.slot ∧ word act.task.incarnation = token.generation
  results : ∀ result ∈ s.results,
    (∀ task ∈ result.touched, task.slot = result.token.slot ∧
      word task.incarnation = result.token.generation) ∧
    (result.woke = true → result.touched ≠ [])
  freeing : ∀ t task, s.pc t = .releaseFree task →
    (∀ u, (s.pc u).holds ≠ some task) ∧ s.task task.slot ≠ some task.incarnation
  freed : ∀ task, s.memory task = .freed →
    (∀ u, (s.pc u).holds ≠ some task) ∧ s.task task.slot ≠ some task.incarnation ∧
      task.incarnation < s.generation task.slot
  noFault : s.fault = false

end Stackfull.Sched.Slots
