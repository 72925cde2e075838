import Mathlib
import Stackfull.Lib.Transition

/-!
# Tasks on their way through the scheduler

`sched/include/stackfull/sched/detail/Runtime.h`, `ThisTask.h` and `Worker.cpp`: the word
`parkState` of a task, which wakers, the worker a task parked on and the reaper change, and the
containers its pointer moves through (LIFO slot, local queue, pinned inbox, gathered batch,
injection queue).

An agent is a worker or a thread outside the scheduler. It executes one operation at a time (`Op`),
and `After` is what it goes on with when the operation has ended. Each access of a `parkState` is
one step, and so is each operation on a queue; the LIFO slot and the gathered batch are their
worker's own. What the steps leave open (whether a queue call succeeds, which entries a thief gets,
whether peers are idle) is in the label.

A switch runs the hook of the task it leaves before the task it goes to continues, so that task
counts as in the worker's hand until then. A task keeps its identity after it is released: the
pins and generations of the slots, which keep wakers off its memory, are left out.

`History` is not in the code: how often a task was made runnable, scheduled and resumed, whether a
wake has arrived that no `park` has returned for, and which tasks were unwound with how many
`NoForcedStop` guards alive.
-/

set_option autoImplicit false
set_option relaxedAutoImplicit false
set_option linter.dupNamespace false

namespace Stackfull.Sched.Tasks

open Stackfull.Lib

universe u v

/-- `TaskState`. -/
inductive TaskState
  | running
  | parked
  | notified
  | done
  deriving DecidableEq, Repr

/-- The post-switch hooks: `onTaskParked`, `onTaskYielded` and `onTaskFinished`. -/
inductive Hook
  | parked
  | yielded
  | finished
  deriving DecidableEq, Repr

/-- Who executes operations. -/
inductive Agent (n : ℕ) (κ : Type u)
  | foreign (caller : κ)
  | worker (index : Fin n)
  deriving DecidableEq

/-- An operation, before its next access. -/
inductive Op (τ : Type v)
  | idle
  | schedule (task : τ)
  | pushLifo (task : τ)
  | pushFifo (task : τ) (slot : Option τ)
  | overflow (task : τ) (slot : Option τ)
  | inject (tasks : List τ) (slot : Option τ)
  | restock (tasks : List τ)
  | found (task : τ)
  | wakeLoad (task : τ)
  | wakeSwap (task : τ) (seen : TaskState)
  | wakeStore (task : τ)
  | parkStore
  | leave (hook : Hook) (fairnessTick : Bool)
  | yieldPop (fairnessTick : Bool)
  | switch (hook : Hook) (next : Option τ)
  | arrived (hook : Hook) (task : τ)
  | parkedStore (task : τ)
  | reapClaim (task : τ)
  | reapShields (task : τ)
  | reapPutBack (task : τ)
  | reapStore (task : τ)
  | release (task : τ)

/-- What an agent goes on with. `place` is the rest of `placeGathered`, `yielding` the rest of
`yield` and `releasing` that of `releaseTask`. -/
inductive After (τ : Type v)
  | none
  | found (task : τ)
  | place (tasks : List τ) (feedPeers : Bool) (kept : Option τ)
  | yielding
  | releasing (task : τ) (next : Option τ)

/-- What the queue calls of a step report, and the other choices a step leaves open. -/
structure Choice where
  flag : Bool
  hasEntries : Bool
  popped : Bool
  pinned : Bool
  count : ℕ

/-- A step: an agent begins an operation or takes the next access of the one in progress. -/
inductive Action (n : ℕ) (κ : Type u) (τ : Type v)
  | wake (agent : Agent n κ) (task : τ)
  | spawn (agent : Agent n κ) (task : τ)
  | shield (worker : Fin n)
  | unshield (worker : Fin n)
  | pinToCurrentWorker (worker : Fin n)
  | unpin (worker : Fin n)
  | park (worker : Fin n)
  | yield (worker : Fin n) (fairnessTick : Bool)
  | finish (worker : Fin n)
  | takeLocal (worker : Fin n) (choice : Choice)
  | popInjection (worker : Fin n)
  | steal (worker victim : Fin n) (start : ℕ)
  | stealBlock (worker victim : Fin n) (start count : ℕ)
  | setGathering (worker : Fin n) (gathering : Bool)
  | placeGathered (worker : Fin n) (keepFirst feedPeers hasLocalWork : Bool)
  | reap (worker : Fin n) (task : τ)
  | advance (agent : Agent n κ) (choice : Choice)

/-- What has happened to the tasks. -/
structure History (τ : Type v) where
  made : τ → ℕ
  scheduled : τ → ℕ
  resumed : τ → ℕ
  owed : τ → Bool
  parking : τ → Bool
  unwound : List (τ × ℕ)

/-- The tasks, the containers and where everybody stands. -/
structure State (n : ℕ) (κ : Type u) (τ : Type v) where
  parkState : τ → TaskState
  published : τ → Bool
  pinnedTo : τ → Option (Fin n)
  guards : τ → ℕ
  lifoSlot : Fin n → Option τ
  lifoStreak : Fin n → ℕ
  queue : Fin n → List τ
  inbox : Fin n → List τ
  gathered : Fin n → List τ
  gathering : Fin n → Bool
  injection : List τ
  current : Fin n → Option τ
  op : Agent n κ → Op τ
  after : Agent n κ → After τ
  history : History τ

/-- Whether the library is built with exceptions (`STACKFULL_HAS_EXCEPTIONS`). -/
structure Config where
  hasExceptions : Bool

variable {n : ℕ} {κ : Type u} {τ : Type v}

/-- No task exists, and the workers are in their dispatchers. -/
def initial : State n κ τ where
  parkState := fun _ ↦ .running
  published := fun _ ↦ false
  pinnedTo := fun _ ↦ none
  guards := fun _ ↦ 0
  lifoSlot := fun _ ↦ none
  lifoStreak := fun _ ↦ 0
  queue := fun _ ↦ []
  inbox := fun _ ↦ []
  gathered := fun _ ↦ []
  gathering := fun _ ↦ false
  injection := []
  current := fun _ ↦ none
  op := fun _ ↦ .idle
  after := fun _ ↦ .none
  history :=
    { made := fun _ ↦ 0
      scheduled := fun _ ↦ 0
      resumed := fun _ ↦ 0
      owed := fun _ ↦ false
      parking := fun _ ↦ false
      unwound := [] }

/-- `kLifoCap`. -/
def lifoCap : ℕ := 3

/-- `forcedStopShields`, a `std::uint8_t` that counts the live guards. -/
def State.forcedStopShields (s : State n κ τ) (task : τ) : ℕ :=
  s.guards task % 2 ^ 8

/-- The next operation. -/
def After.next : After τ → Op τ
  | .none => .idle
  | .found task => .found task
  | .place (task :: _) true _ => .inject [task] .none
  | .place (task :: _) false _ => .pushFifo task .none
  | .place [] _ (some kept) => .found kept
  | .place [] _ .none => .idle
  | .yielding => .leave .yielded true
  | .releasing task _ => .release task

/-- What is left after the next operation. -/
def After.rest : After τ → After τ
  | .place (_ :: tasks) feedPeers kept => .place tasks feedPeers kept
  | .releasing _ (some next) => .found next
  | _ => .none

namespace History

variable [DecidableEq τ]

/-- A task becomes runnable. -/
@[simps]
def make (h : History τ) (task : τ) : History τ :=
  { h with made := Function.update h.made task (h.made task + 1) }

/-- A task that became runnable is enqueued. -/
@[simps]
def schedule (h : History τ) (task : τ) : History τ :=
  { h with scheduled := Function.update h.scheduled task (h.scheduled task + 1) }

/-- A wake arrives. -/
@[simps]
def wake (h : History τ) (task : τ) : History τ :=
  { h with owed := Function.update h.owed task true }

/-- A `park` returns at once. -/
@[simps]
def consume (h : History τ) (task : τ) : History τ :=
  { h with owed := Function.update h.owed task false }

/-- A task switches out in `park`. -/
@[simps]
def park (h : History τ) (task : τ) : History τ :=
  { h with parking := Function.update h.parking task true }

/-- A task continues. If it was in `park`, that returns. -/
@[simps]
def carryOn (h : History τ) (task : τ) : History τ :=
  { h with
    owed := Function.update h.owed task (h.owed task && !h.parking task)
    parking := Function.update h.parking task false }

/-- A task is taken from a queue and continues. -/
@[simps!]
def resume (h : History τ) (task : τ) : History τ :=
  { h.carryOn task with resumed := Function.update h.resumed task (h.resumed task + 1) }

/-- A task begins to exist. -/
@[simps]
def spawn (h : History τ) (task : τ) : History τ :=
  { h with
    made := Function.update h.made task (h.made task + 1)
    owed := Function.update h.owed task false
    parking := Function.update h.parking task false }

end History

namespace State

variable [DecidableEq κ] [DecidableEq τ]

/-- Goes on with another access or operation. -/
@[simps]
def goto (s : State n κ τ) (a : Agent n κ) (op : Op τ) : State n κ τ :=
  { s with op := Function.update s.op a op }

/-- Goes on with an operation and something after it. -/
@[simps]
def gotoThen (s : State n κ τ) (a : Agent n κ) (op : Op τ) (after : After τ) : State n κ τ :=
  { s with op := Function.update s.op a op, after := Function.update s.after a after }

/-- The operation has ended. -/
@[simps!]
def ended (s : State n κ τ) (a : Agent n κ) : State n κ τ :=
  s.gotoThen a (s.after a).next (s.after a).rest

/-- Writes a task's `parkState`. -/
@[simps]
def setParkState (s : State n κ τ) (task : τ) (state : TaskState) : State n κ τ :=
  { s with parkState := Function.update s.parkState task state }

/-- Records something. -/
@[simps]
def record (s : State n κ τ) (f : History τ → History τ) : State n κ τ :=
  { s with history := f s.history }

/-! ### Containers -/

/-- `takeLocal`: the LIFO slot, unless it had its turn, then the local queue, then the inbox, then
the LIFO slot after all. -/
def takeLocal (s : State n κ τ) (w : Fin n) (choice : Choice) : Option τ × State n κ τ :=
  match s.lifoSlot w, decide (s.lifoStreak w < lifoCap) || !choice.hasEntries with
  | some task, true =>
    (some task, { s with
      lifoSlot := Function.update s.lifoSlot w none
      lifoStreak := Function.update s.lifoStreak w (s.lifoStreak w + 1) })
  | slot, _ =>
    match choice.popped, s.queue w with
    | true, task :: rest =>
      (some task, { s with
        lifoStreak := Function.update s.lifoStreak w 0
        queue := Function.update s.queue w rest })
    | _, _ =>
      match choice.pinned, s.inbox w with
      | true, task :: rest =>
        (some task, { s with
          lifoStreak := Function.update s.lifoStreak w 0
          inbox := Function.update s.inbox w rest })
      | _, _ =>
        (slot, { s with
          lifoSlot := Function.update s.lifoSlot w none
          lifoStreak := Function.update s.lifoStreak w 0 })

/-- `schedule`: a pinned task to its worker's inbox; else a gathering worker gathers it, a worker
without idle peers keeps it in its LIFO slot, and anyone else injects it. -/
def schedule (s : State n κ τ) (a : Agent n κ) (task : τ) (hasIdleWorkers : Bool) :
    State n κ τ :=
  match s.pinnedTo task, a with
  | some target, _ =>
    { s with inbox := Function.update s.inbox target (s.inbox target ++ [task]) }.ended a
  | none, .foreign _ => s.goto a (.inject [task] none)
  | none, .worker w =>
    if s.gathering w then
      { s with gathered := Function.update s.gathered w (s.gathered w ++ [task]) }.ended a
    else if hasIdleWorkers then s.goto a (.inject [task] none) else s.goto a (.pushLifo task)

/-- `pushLocalLifo`. The occupant of the slot goes to the local queue first; the slot is read by its
worker only, which does not look at it before it is overwritten. -/
def pushLifo (s : State n κ τ) (w : Fin n) (task : τ) : State n κ τ :=
  match s.lifoSlot w with
  | some occupant =>
    { s with lifoSlot := Function.update s.lifoSlot w none }.goto (.worker w)
      (.pushFifo occupant (some task))
  | none => { s with lifoSlot := Function.update s.lifoSlot w (some task) }.ended (.worker w)

/-- `pushLocalFifo`, as far as `local.push`. -/
def pushFifo (s : State n κ τ) (w : Fin n) (task : τ) (slot : Option τ) (pushed : Bool) :
    State n κ τ :=
  if pushed then
    { s with queue := Function.update s.queue w (s.queue w ++ [task]) }.goto (.worker w)
      (.inject [] slot)
  else s.goto (.worker w) (.overflow task slot)

/-- `pushLocalFifo` with a full queue: a block and the newcomer go to the injection queue, or only
the newcomer. -/
def overflow (s : State n κ τ) (w : Fin n) (task : τ) (slot : Option τ)
    (hasActiveStealers : Bool) (count : ℕ) : State n κ τ :=
  if hasActiveStealers then s.goto (.worker w) (.inject [task] slot)
  else
    { s with queue := Function.update s.queue w ((s.queue w).drop count) }.goto (.worker w)
      (.inject ((s.queue w).take count ++ [task]) slot)

/-- `inject` on each task of a list. At its end `pushLocalFifo` has ended too, and a `pushLocalLifo`
that called it fills the slot. -/
def inject (s : State n κ τ) (a : Agent n κ) (tasks : List τ) (slot : Option τ) : State n κ τ :=
  match tasks, slot, a with
  | task :: rest, _, _ => { s with injection := s.injection ++ [task] }.goto a (.inject rest slot)
  | [], some task, .worker w =>
    { s with lifoSlot := Function.update s.lifoSlot w (some task) }.ended a
  | [], _, _ => s.ended a

/-- The rest of a stolen block: `pushBatch`, and what does not fit is injected. -/
def restock (s : State n κ τ) (w : Fin n) (tasks : List τ) (count : ℕ) : State n κ τ :=
  { s with queue := Function.update s.queue w (s.queue w ++ tasks.take count) }.goto (.worker w)
    (.inject (tasks.drop count) none)

/-- `placeGathered`. -/
def placeGathered (s : State n κ τ) (w : Fin n) (keepFirst feedPeers hasLocalWork : Bool) :
    State n κ τ :=
  let cleared := { s with gathered := Function.update s.gathered w [] }
  match s.gathered w, keepFirst, hasLocalWork with
  | [], _, _ => s
  | first :: rest, true, _ =>
    { cleared with
      after := Function.update s.after (.worker w) (.place rest feedPeers (some first)) }.ended
        (.worker w)
  | [task], false, false => cleared.goto (.worker w) (.pushLifo task)
  | tasks, false, _ =>
    { cleared with
      after := Function.update s.after (.worker w) (.place tasks feedPeers none) }.ended (.worker w)

/-! ### The word of a task -/

/-- `wake` after it has read the word: nothing to do, or a try at the exchange. -/
def wakeRead (s : State n κ τ) (a : Agent n κ) (task : τ) : State n κ τ :=
  match s.parkState task with
  | .notified => (s.record fun h ↦ h.wake task).ended a
  | .done => s.ended a
  | seen => s.goto a (.wakeSwap task seen)

/-- The exchange of `wake`. -/
def wakeSwap (s : State n κ τ) (a : Agent n κ) (task : τ) (seen : TaskState) (spurious : Bool) :
    State n κ τ :=
  if s.parkState task = seen ∧ spurious = false then
    if seen = .parked then
      ((s.setParkState task .notified).record fun h ↦ (h.wake task).make task).goto a
        (.wakeStore task)
    else ((s.setParkState task .notified).record fun h ↦ h.wake task).ended a
  else s.wakeRead a task

/-- A task that was made runnable is `Running` again, and is scheduled. -/
def storeRunning (s : State n κ τ) (a : Agent n κ) (task : τ) : State n κ τ :=
  (s.setParkState task .running).goto a (.schedule task)

/-- The running task's `park` consumes a pending token. -/
def parkStore (s : State n κ τ) (w : Fin n) : Option (State n κ τ) :=
  match s.current w with
  | some task =>
    some (((s.setParkState task .running).record fun h ↦ h.consume task).ended (.worker w))
  | none => none

/-- A task that was taken from a queue continues on the worker. -/
def switchTo (s : State n κ τ) (w : Fin n) (task : τ) : State n κ τ :=
  { s with
    current := Function.update s.current w (some task)
    history := s.history.resume task }.ended (.worker w)

/-- A worker switches from the running task to the next one or to its dispatcher. -/
def switchOut (s : State n κ τ) (w : Fin n) (hook : Hook) (next : Option τ) :
    Option (State n κ τ) :=
  match s.current w with
  | some task =>
    some ({ s with
        current := Function.update s.current w none
        history := if hook = Hook.parked then s.history.park task else s.history }.gotoThen
      (.worker w) (.arrived hook task) (next.elim .none .found))
  | none => none

/-- The look for the next task of `park`, `yield` and a task that has ended. -/
def leave (s : State n κ τ) (w : Fin n) (hook : Hook) (fairnessTick : Bool) (choice : Choice) :
    State n κ τ :=
  match s.takeLocal w choice with
  | (some next, taken) => taken.goto (.worker w) (.switch hook (some next))
  | (none, taken) =>
    if hook = .yielded then taken.goto (.worker w) (.yieldPop fairnessTick)
    else taken.goto (.worker w) (.switch hook none)

/-- `yield` with nothing local: `popInjection`, and without a task it returns or goes to the
dispatcher. -/
def yieldPop (s : State n κ τ) (w : Fin n) (fairnessTick popped : Bool) : State n κ τ :=
  match popped, s.injection with
  | true, next :: rest =>
    { s with injection := rest }.goto (.worker w) (.switch .yielded (some next))
  | _, _ =>
    if fairnessTick then s.goto (.worker w) (.switch .yielded none) else s.ended (.worker w)

/-- The post-switch hooks. -/
def arrived (s : State n κ τ) (w : Fin n) (task : τ) : Hook → State n κ τ
  | .parked =>
    if s.parkState task = .running then (s.setParkState task .parked).ended (.worker w)
    else (s.record fun h ↦ h.make task).goto (.worker w) (.parkedStore task)
  | .yielded =>
    let made := s.record fun h ↦ (h.make task).schedule task
    match s.pinnedTo task with
    | some target =>
      { made with inbox := Function.update s.inbox target (s.inbox target ++ [task]) }.ended
        (.worker w)
    | none => made.goto (.worker w) (.pushFifo task none)
  | .finished => s.goto (.worker w) (.release task)

/-- `reapParkedTasks` claims a task. -/
def reapClaim (s : State n κ τ) (w : Fin n) (task : τ) : State n κ τ :=
  if s.parkState task = .parked then
    (s.setParkState task .running).goto (.worker w) (.reapShields task)
  else s.ended (.worker w)

/-- `reapParkedTasks` looks at the shields of the task it has claimed, and unwinds or drops it. -/
def reapShields (c : Config) (s : State n κ τ) (w : Fin n) (task : τ) : State n κ τ :=
  if s.forcedStopShields task ≠ 0 then s.goto (.worker w) (.reapPutBack task)
  else if c.hasExceptions then
    { s with
      current := Function.update s.current w (some task)
      history := { s.history.carryOn task with
        unwound := s.history.unwound ++ [(task, s.guards task)] } }.ended (.worker w)
  else
    { s with
      history := { s.history with
        unwound := s.history.unwound ++ [(task, s.guards task)] } }.goto (.worker w)
          (.release task)

/-- `reapParkedTasks` puts a shielded task back. -/
def reapPutBack (s : State n κ τ) (w : Fin n) (task : τ) : State n κ τ :=
  if s.parkState task = .running then (s.setParkState task .parked).ended (.worker w)
  else (s.record fun h ↦ h.make task).goto (.worker w) (.reapStore task)

/-- The part of `releaseTask` after which nobody finds the task. -/
def release (s : State n κ τ) (a : Agent n κ) (task : τ) : State n κ τ :=
  { s.setParkState task .done with published := Function.update s.published task false }.ended a

/-- The next access of the operation in progress. -/
def advance (c : Config) (s : State n κ τ) (a : Agent n κ) (choice : Choice) :
    Option (State n κ τ) :=
  match s.op a, a with
  | .idle, _ => none
  | .schedule task, _ =>
    some ((s.record fun h ↦ h.schedule task).schedule a task choice.flag)
  | .inject tasks slot, _ => some (s.inject a tasks slot)
  | .wakeLoad task, _ => some (s.wakeRead a task)
  | .wakeSwap task seen, _ => some (s.wakeSwap a task seen choice.flag)
  | .wakeStore task, _ => some (s.storeRunning a task)
  | .parkedStore task, _ => some (s.storeRunning a task)
  | .reapStore task, _ => some (s.storeRunning a task)
  | .release task, _ => some (s.release a task)
  | .pushLifo task, .worker w => some (s.pushLifo w task)
  | .pushFifo task slot, .worker w => some (s.pushFifo w task slot choice.flag)
  | .overflow task slot, .worker w => some (s.overflow w task slot choice.flag choice.count)
  | .restock tasks, .worker w => some (s.restock w tasks choice.count)
  | .found task, .worker w => some (s.switchTo w task)
  | .parkStore, .worker w => s.parkStore w
  | .leave hook fairnessTick, .worker w => some (s.leave w hook fairnessTick choice)
  | .yieldPop fairnessTick, .worker w => some (s.yieldPop w fairnessTick choice.popped)
  | .switch hook next, .worker w => s.switchOut w hook next
  | .arrived hook task, .worker w => some (s.arrived w task hook)
  | .reapClaim task, .worker w => some (s.reapClaim w task)
  | .reapShields task, .worker w => some (s.reapShields c w task)
  | .reapPutBack task, .worker w => some (s.reapPutBack w task)
  | _, .foreign _ => none

/-! ### Beginning an operation -/

/-- The agent has nothing to do. -/
def isIdle (s : State n κ τ) (a : Agent n κ) : Bool :=
  match s.op a with
  | .idle => true
  | _ => false

/-- A call by an agent that is idle, or by what `releaseTask` runs before the task is gone. -/
def enter (s : State n κ τ) (a : Agent n κ) (op : Op τ) : Option (State n κ τ) :=
  match s.op a, s.after a with
  | .idle, _ => some (s.goto a op)
  | .release task, .none => some (s.gotoThen a op (.releasing task none))
  | .release task, .found next => some (s.gotoThen a op (.releasing task (some next)))
  | _, _ => none

/-- The worker is in its dispatcher, outside the part that gathers. -/
def inDispatcher (s : State n κ τ) (w : Fin n) : Bool :=
  s.isIdle (.worker w) && (s.current w).isNone && !s.gathering w

/-- The task that the worker executes. -/
def runningTask (s : State n κ τ) (w : Fin n) : Option τ :=
  if s.isIdle (.worker w) then s.current w else none

/-- `park`: a look at the word, then the consumption of a token or the switch. -/
def park (s : State n κ τ) (w : Fin n) (task : τ) : State n κ τ :=
  if s.parkState task = .notified then s.goto (.worker w) .parkStore
  else s.goto (.worker w) (.leave .parked false)

/-- `yield`. At a fairness tick an injected task goes to the local queue first. -/
def yield (s : State n κ τ) (w : Fin n) (fairnessTick : Bool) : State n κ τ :=
  match fairnessTick, s.injection with
  | true, injected :: rest =>
    { s with injection := rest }.gotoThen (.worker w) (.pushFifo injected none) .yielding
  | _, _ => s.goto (.worker w) (.leave .yielded fairnessTick)

/-- One step. -/
def step (c : Config) (s : State n κ τ) : Action n κ τ → Option (State n κ τ)
  | .wake a task => if s.published task then s.enter a (.wakeLoad task) else none
  | .spawn a task =>
    if s.published task = false ∧ s.parkState task ≠ .done then
      { (s.setParkState task .running).record (fun h ↦ h.spawn task) with
        published := Function.update s.published task true
        pinnedTo := Function.update s.pinnedTo task none
        guards := Function.update s.guards task 0 }.enter a (.schedule task)
    else none
  | .shield w =>
    (s.runningTask w).map fun task ↦
      { s with guards := Function.update s.guards task (s.guards task + 1) }
  | .unshield w =>
    ((s.runningTask w).filter fun task ↦ 0 < s.guards task).map fun task ↦
      { s with guards := Function.update s.guards task (s.guards task - 1) }
  | .pinToCurrentWorker w =>
    (s.runningTask w).map fun task ↦
      { s with pinnedTo := Function.update s.pinnedTo task (some w) }
  | .unpin w =>
    (s.runningTask w).map fun task ↦ { s with pinnedTo := Function.update s.pinnedTo task none }
  | .park w => (s.runningTask w).map fun task ↦ s.park w task
  | .yield w fairnessTick => (s.runningTask w).map fun _ ↦ s.yield w fairnessTick
  | .finish w =>
    (s.runningTask w).map fun _ ↦ s.goto (.worker w) (.leave .finished false)
  | .takeLocal w choice =>
    if s.inDispatcher w then
      match s.takeLocal w choice with
      | (some task, taken) => some (taken.goto (.worker w) (.found task))
      | (none, taken) => some (taken.goto (.worker w) .idle)
    else none
  | .popInjection w =>
    if s.inDispatcher w then
      match s.injection with
      | [] => none
      | task :: rest => some ({ s with injection := rest }.goto (.worker w) (.found task))
    else none
  | .steal w victim start =>
    if s.inDispatcher w then
      match (s.queue victim).drop start with
      | [] => none
      | task :: rest =>
        some ({ s with
          queue := Function.update s.queue victim ((s.queue victim).take start ++ rest) }.goto
            (.worker w) (.found task))
    else none
  | .stealBlock w victim start count =>
    if s.inDispatcher w then
      match (s.queue victim).drop start with
      | [] => none
      | task :: rest =>
        some ({ s with
          queue := Function.update s.queue victim
            ((s.queue victim).take start ++ rest.drop count) }.gotoThen (.worker w)
              (.restock (rest.take count)) (.found task))
    else none
  | .setGathering w gathering =>
    if s.isIdle (.worker w) ∧ s.current w = none then
      some { s with gathering := Function.update s.gathering w gathering }
    else none
  | .placeGathered w keepFirst feedPeers hasLocalWork =>
    if s.inDispatcher w then some (s.placeGathered w keepFirst feedPeers hasLocalWork) else none
  | .reap w task =>
    if s.inDispatcher w ∧ s.published task = true then some (s.goto (.worker w) (.reapClaim task))
    else none
  | .advance a choice => s.advance c a choice

end State

/-- The tasks of a scheduler as a step system. -/
def system (n : ℕ) (κ : Type u) (τ : Type v) [DecidableEq κ] [DecidableEq τ] (c : Config) :
    System (State n κ τ) (Action n κ τ) where
  init s := s = initial
  step s a := s.step c a

end Stackfull.Sched.Tasks
