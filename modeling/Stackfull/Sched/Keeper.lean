import Stackfull.Sched.Tasks
import Mathlib.Data.Finset.Max
import Mathlib.Data.Fintype.Basic
import Mathlib.Order.WithBot

/-!
# Idle workers, leftover tasks and pending timers

The run loop of a worker (`Worker::run`, `searchForWork`, `wakePeerForLeftovers`, `spinForWork`,
`parkIdle`, `sleepIdle`, `maintain`, `placeGathered`, in `Worker.cpp`) with the calls that decide
who looks after injected tasks and timers: `inject`, `notifyIdleWorker`, `notifyWorker`,
`unparkWorker`, `addTimer`, `addCallbackTimer`, `ensureTimekeeper` and `requestRampUp`
(`SchedulerCore.cpp`, `Runtime.h`). Each access to a shared word is one step.

Only whether there is a task or a timer matters here, so the queues are counts: the injection
queue, and for each worker its own queue with the LIFO slot (`ready`), its inbox, and what it
gathers while it fires timers or polls the driver. Left open are which dispatch is the 61st, how
long a spin lasts, when a timer is due or cancelled, the earliest deadline a timekeeper finds, and
when the driver has something to report. A `Parker` is its token and the `Driver` its sticky wake.
Shutdown is not modelled.

`relies` of a task about to park says that its `addTimer` found neither a timekeeper nor other work
on its worker.
-/

set_option autoImplicit false
set_option relaxedAutoImplicit false
set_option linter.dupNamespace false

namespace Stackfull.Sched.Keeper

open Stackfull.Lib
open Stackfull.Sched.Tasks (Agent)

universe u

/-- A time, or none: `kNoDeadline` and `kScanningTimers` are the greatest. -/
abbrev Deadline := WithTop ℤ

-- the order of `ℤ` that computes, whatever other instances there are
instance Deadline.linearOrder : LinearOrder Deadline := @WithTop.linearOrder ℤ Int.instLinearOrder

instance : Preorder Deadline := Deadline.linearOrder.toPreorder

instance : Min Deadline := Deadline.linearOrder.toMin

instance : DecidableLE Deadline := Deadline.linearOrder.toDecidableLE

instance : DecidableLT Deadline := Deadline.linearOrder.toDecidableLT

/-- Whether there is a driver, whether idle workers spin, and `options.rampUpDelay`. -/
structure Config where
  hasDriver : Bool
  idleSpin : Bool
  rampUpDelay : ℕ

/-- Where a worker stands in its loop. -/
inductive WorkerPc
  | top
  | maintaining
  | maintainClaim
  | maintainPoll
  | maintainRelease
  | maintainPlace
  | popTop
  | takeLocal
  | searchLoad
  | searchSwap (current : ℕ)
  | searchPop (searcher : Bool)
  | searchSteal
  | searchPopAgain
  | searchEnd (found : Bool)
  | leftovers
  | starting
  | running
  | sleepTimer (relies : Bool)
  | parkStart
  | spinLoad
  | spinSwap (current : ℕ)
  | spinLook
  | spinTime
  | spinEnd (found : Bool)
  | spinLeave (wasLast : Bool)
  | spinLeavePop (wasLast : Bool)
  | marking
  | parkTake
  | parkPop
  | parkClear
  | parkDrain
  | sleepClaim
  | parked
  | mark
  | scan
  | loadRampUp (earliest : Deadline)
  | publish (wakeAt : Deadline)
  | asleep (wakeAt : Deadline)
  | release
  | fire
  | answer
  | answerSwap (due : Deadline)
  | clearing
  | placing
  deriving DecidableEq

/-- Where an agent stands in its call. -/
inductive CallPc (n : ℕ)
  | idle
  | inject (count : ℕ)
  | notifySearching
  | notifyMask
  | notifyKeeper (mask : Finset (Fin n))
  | notifySwap (mask : Finset (Fin n)) (index : Fin n)
  | notifyWorker (target : Fin n)
  | pokeLoad (target : Fin n)
  | pokeDriver (target : Fin n)
  | pokeToken (target : Fin n)
  | rampIdle
  | rampLoad (due : ℤ)
  | rampSwap (due : ℤ) (current : Deadline)
  | rampKeeper (due : ℤ)
  | rampDeadline (due : ℤ) (keeper : Fin n)
  | ensureKeeper
  | ensureIdle
  | ensureTimers
  | ensureLimit
  | ensureSwap (last : Option ℤ) (now : ℤ)
  | addLoad (deadline : ℤ)
  | addDeadline (deadline : ℤ) (keeper : Fin n)
  | addLocal
  deriving DecidableEq

/-- The shared words, the queues, and where everybody stands. -/
structure State (n : ℕ) (κ : Type u) where
  now : ℤ
  injection : ℕ
  idleMask : Finset (Fin n)
  searching : ℕ
  timekeeper : Option (Fin n)
  keeperDeadline : Deadline
  rampUpDeadline : Deadline
  lastKeeperWake : Option ℤ
  timers : ℕ
  driverWake : Bool
  token : Fin n → Bool
  ready : Fin n → ℕ
  inbox : Fin n → ℕ
  gathered : Fin n → ℕ
  pc : Fin n → WorkerPc
  call : Agent n κ → CallPc n

/-- What a running task does: it parks or ends, yields, pulls an injected task into its worker's
queue as `yield` does, schedules a task, or sleeps until a deadline. -/
inductive TaskOp
  | leave
  | yield
  | pull
  | schedule
  | sleep (deadline : ℤ)
  deriving DecidableEq

/-- A call from outside the loop: `schedule` of a task, of a task pinned to a worker, or
`addCallbackTimer`. -/
inductive Call (n : ℕ)
  | inject
  | pin (target : Fin n)
  | addCallbackTimer (deadline : ℤ)
  deriving DecidableEq

/-- A step. The flag resolves what the model leaves open at that point. -/
inductive Action (n : ℕ) (κ : Type u)
  | tick (elapsed : ℕ)
  | expire
  | gather (worker : Fin n)
  | steal (worker victim : Fin n) (count : ℕ)
  | scanned (worker : Fin n) (earliest : Deadline)
  | work (worker : Fin n) (flag : Bool)
  | task (worker : Fin n) (op : TaskOp)
  | call (agent : Agent n κ) (call : Call n)
  | act (agent : Agent n κ) (flag : Bool)

/-- `kMaxSpinners`. -/
def maxSpinners : ℕ := 2

variable {n : ℕ} {κ : Type u}

/-- The workers are at the top of their loops and nothing is queued. -/
def initial : State n κ where
  now := 0
  injection := 0
  idleMask := ∅
  searching := 0
  timekeeper := none
  keeperDeadline := ⊤
  rampUpDeadline := ⊤
  lastKeeperWake := none
  timers := 0
  driverWake := false
  token := fun _ ↦ false
  ready := fun _ ↦ 0
  inbox := fun _ ↦ 0
  gathered := fun _ ↦ 0
  pc := fun _ ↦ .top
  call := fun _ ↦ .idle

/-- The worker fires timers or dispatches what the driver reports: it gathers the tasks it wakes,
and callbacks run. -/
def WorkerPc.gathers : WorkerPc → Bool
  | .maintaining | .maintainRelease | .release | .fire => true
  | _ => false

/-- Tasks and callbacks run, and may make calls. -/
def WorkerPc.mayCall (pc : WorkerPc) : Bool :=
  pc.gathers || decide (pc = .running)

namespace State

/-- Moves a worker to another point. -/
def goto (s : State n κ) (w : Fin n) (pc : WorkerPc) : State n κ :=
  { s with pc := Function.update s.pc w pc }

/-- `hasLocalWork`. -/
def hasLocalWork (s : State n κ) (w : Fin n) : Bool :=
  decide (0 < s.ready w) || decide (0 < s.inbox w)

/-- `takeLocal`, and where the worker goes with a task and without. -/
def takeLocal (s : State n κ) (w : Fin n) (found missed : WorkerPc) : State n κ :=
  if 0 < s.ready w then { s with ready := Function.update s.ready w (s.ready w - 1) }.goto w found
  else if 0 < s.inbox w then
    { s with inbox := Function.update s.inbox w (s.inbox w - 1) }.goto w found
  else s.goto w missed

/-- `popInjection`, and where the worker goes with a task and without. -/
def popInjection (s : State n κ) (w : Fin n) (found missed : WorkerPc) : State n κ :=
  if 0 < s.injection then { s with injection := s.injection - 1 }.goto w found else s.goto w missed

/-- The bound `searchForWork` puts on searchers. -/
def searchLimit (_ : State n κ) : ℕ := n / 2 + 1

/-- `searchForWork` after a look at `searching`. -/
def searchRead (s : State n κ) (w : Fin n) : State n κ :=
  if s.searching < s.searchLimit then s.goto w (.searchSwap s.searching)
  else s.goto w (.searchPop false)

/-- `spinForWork` after a look at `searching`. -/
def spinRead (s : State n κ) (w : Fin n) : State n κ :=
  if maxSpinners ≤ s.searching then s.goto w .marking else s.goto w (.spinSwap s.searching)

/-- Becomes a searcher. -/
def enterSearch (s : State n κ) (w : Fin n) (pc : WorkerPc) : State n κ :=
  { s with searching := s.searching + 1 }.goto w pc

/-- Ceases to be a searcher. -/
def leaveSearch (s : State n κ) (w : Fin n) (pc : WorkerPc) : State n κ :=
  { s with searching := s.searching - 1 }.goto w pc

/-- `releaseTimekeeper`. -/
def releaseTimekeeper (s : State n κ) (w : Fin n) (pc : WorkerPc) : State n κ :=
  { s with timekeeper := if s.timekeeper = some w then none else s.timekeeper }.goto w pc

variable [DecidableEq κ]

/-- Moves an agent to another point of its call. -/
def setCall (s : State n κ) (a : Agent n κ) (pc : CallPc n) : State n κ :=
  { s with call := Function.update s.call a pc }

/-- The rest of a gathered batch: to the injection queue behind one wakeup if a peer is idle, else
to the worker's own queue. -/
def placeRest (s : State n κ) (w : Fin n) (count : ℕ) (pc : WorkerPc) : State n κ :=
  if s.idleMask.Nonempty then
    ({ s with gathered := Function.update s.gathered w 0 }.goto w pc).setCall (.worker w)
      (.inject count)
  else
    { s with
      gathered := Function.update s.gathered w 0
      ready := Function.update s.ready w (s.ready w + count) }.goto w pc

/-- `placeGathered(false)`. -/
def placeMaintained (s : State n κ) (w : Fin n) : State n κ :=
  if s.gathered w = 0 then s.goto w .popTop
  else if s.gathered w = 1 ∧ s.hasLocalWork w = false then
    { s with
      gathered := Function.update s.gathered w 0
      ready := Function.update s.ready w (s.ready w + 1) }.goto w .popTop
  else s.placeRest w (s.gathered w) .popTop

/-- `placeGathered(true)`: the worker runs the first task itself. -/
def placeKeeping (s : State n κ) (w : Fin n) : State n κ :=
  if s.gathered w = 0 then s.goto w .top
  else if s.gathered w = 1 then
    { s with gathered := Function.update s.gathered w 0 }.goto w .starting
  else s.placeRest w (s.gathered w - 1) .starting

/-- `requestRampUp` begins. -/
def requestRampUp (c : Config) (s : State n κ) (a : Agent n κ) : State n κ :=
  s.setCall a (if c.rampUpDelay = 0 then .notifySearching else .rampIdle)

/-- The timekeeper's sleep: a wake, its timeout, or the driver's report ends it. -/
def wakeUp (c : Config) (s : State n κ) (w : Fin n) (wakeAt : Deadline) (flag : Bool) :
    Option (State n κ) :=
  if c.hasDriver then
    if s.driverWake || flag then some ({ s with driverWake := false }.goto w .release) else none
  else if s.token w then
    some ({ s with token := Function.update s.token w false }.goto w .release)
  else if flag = true ∧ wakeAt ≤ s.now then some (s.goto w .release)
  else none

/-- The next step of a worker's loop; none where it is blocked. -/
def work (c : Config) (s : State n κ) (w : Fin n) (flag : Bool) : Option (State n κ) :=
  match s.pc w with
  | .top => some (s.goto w (if flag then .maintaining else .takeLocal))
  | .maintaining => some (s.goto w (if c.hasDriver then .maintainClaim else .maintainPlace))
  | .maintainClaim =>
    some (if s.timekeeper = none then { s with timekeeper := some w }.goto w .maintainPoll
      else s.goto w .maintainPlace)
  | .maintainPoll => some ({ s with driverWake := false }.goto w .maintainRelease)
  | .maintainRelease => some (s.releaseTimekeeper w .maintainPlace)
  | .maintainPlace => some (s.placeMaintained w)
  | .popTop => some (s.popInjection w .starting .takeLocal)
  | .takeLocal => some (s.takeLocal w .starting .searchLoad)
  | .searchLoad => some (s.searchRead w)
  | .searchSwap current =>
    some (if s.searching = current ∧ flag = false then s.enterSearch w (.searchPop true)
      else s.searchRead w)
  | .searchPop true => some (s.popInjection w (.searchEnd true) .searchSteal)
  | .searchPop false => some (s.popInjection w .starting .parkStart)
  | .searchSteal => some (s.goto w .searchPopAgain)
  | .searchPopAgain => some (s.popInjection w (.searchEnd true) (.searchEnd false))
  | .searchEnd true => some (s.leaveSearch w (if s.searching = 1 then .leftovers else .starting))
  | .searchEnd false => some (s.leaveSearch w .parkStart)
  | .leftovers =>
    some (if decide (0 < s.injection) || s.hasLocalWork w then
      (s.goto w .starting).requestRampUp c (.worker w) else s.goto w .starting)
  | .starting =>
    some (if s.timekeeper = none then (s.goto w .running).setCall (.worker w) .ensureKeeper
      else s.goto w .running)
  | .running => none
  | .sleepTimer _ => some (s.takeLocal w .running .top)
  | .parkStart =>
    some (s.goto w (if c.idleSpin = false ∨ (c.hasDriver = true ∧ s.timekeeper = none) ∨
      flag = true then .marking else .spinLoad))
  | .spinLoad => some (s.spinRead w)
  | .spinSwap current =>
    some (if s.searching = current ∧ flag = false then s.enterSearch w .spinLook else s.spinRead w)
  | .spinLook =>
    some (if s.hasLocalWork w then s.takeLocal w (.spinEnd true) .spinTime
      else s.popInjection w (.spinEnd true) .spinTime)
  | .spinTime => some (s.goto w (if flag then .spinEnd false else .spinLook))
  | .spinEnd true => some (s.leaveSearch w (if s.searching = 1 then .leftovers else .starting))
  | .spinEnd false => some (s.leaveSearch w (.spinLeave (s.searching = 1)))
  | .spinLeave wasLast =>
    some (s.takeLocal w (if wasLast then .leftovers else .starting) (.spinLeavePop wasLast))
  | .spinLeavePop wasLast =>
    some (s.popInjection w (if wasLast then .leftovers else .starting) .marking)
  | .marking => some ({ s with idleMask := insert w s.idleMask }.goto w .parkTake)
  | .parkTake => some (s.takeLocal w .parkClear .parkPop)
  | .parkPop => some (s.popInjection w .parkClear .sleepClaim)
  | .parkClear =>
    some ({ s with idleMask := s.idleMask.erase w }.goto w
      (if w ∈ s.idleMask then .starting else .parkDrain))
  | .parkDrain => some ({ s with token := Function.update s.token w false }.goto w .starting)
  | .sleepClaim =>
    some (if s.timekeeper = none then { s with timekeeper := some w }.goto w .mark
      else s.goto w .parked)
  | .parked =>
    if s.token w then some ({ s with token := Function.update s.token w false }.goto w .clearing)
    else none
  | .mark => some ({ s with keeperDeadline := ⊤ }.goto w .scan)
  | .scan => none
  | .loadRampUp earliest => some (s.goto w (.publish (min s.rampUpDeadline earliest)))
  | .publish wakeAt => some ({ s with keeperDeadline := wakeAt }.goto w (.asleep wakeAt))
  | .asleep wakeAt => s.wakeUp c w wakeAt flag
  | .release => some (s.releaseTimekeeper w .fire)
  | .fire => some (s.goto w .answer)
  | .answer =>
    some (s.goto w (if s.rampUpDeadline ≤ s.now then .answerSwap s.rampUpDeadline else .clearing))
  | .answerSwap due =>
    some ({ s with
      rampUpDeadline := if s.rampUpDeadline = due then ⊤ else s.rampUpDeadline }.goto w .clearing)
  | .clearing => some ({ s with idleMask := s.idleMask.erase w }.goto w .placing)
  | .placing => some (s.placeKeeping w)

/-- `steal`: the first task of a block is returned, the others go to the thief's queue. -/
def steal (s : State n κ) (w victim : Fin n) (count : ℕ) : Option (State n κ) :=
  if victim ≠ w ∧ 0 < count ∧ count ≤ s.ready victim then
    let moved := Function.update (Function.update s.ready victim (s.ready victim - count)) w
      (s.ready w + (count - 1))
    match s.pc w with
    | .searchSteal => some ({ s with ready := moved }.goto w (.searchEnd true))
    | .spinTime => some ({ s with ready := moved }.goto w (.spinEnd true))
    | _ => none
  else none

/-- What a running task does. -/
def task (s : State n κ) (w : Fin n) : TaskOp → State n κ
  | .leave => s.takeLocal w .running .top
  | .yield => { s with ready := Function.update s.ready w (s.ready w + 1) }.takeLocal w .running .top
  | .pull =>
    if 0 < s.injection then
      { s with
        injection := s.injection - 1
        ready := Function.update s.ready w (s.ready w + 1) }
    else s
  | .schedule =>
    if s.idleMask.Nonempty then s.setCall (.worker w) (.inject 1)
    else { s with ready := Function.update s.ready w (s.ready w + 1) }
  | .sleep deadline =>
    ({ s with timers := s.timers + 1 }.goto w (.sleepTimer false)).setCall (.worker w)
      (.addLoad deadline)

/-! ### Calls -/

/-- The workers `notifyIdleWorker` picks from: the timekeeper only if it is the sole one. -/
def candidates (mask : Finset (Fin n)) : Option (Fin n) → Finset (Fin n)
  | some keeper => if (mask.erase keeper).Nonempty then mask.erase keeper else mask
  | none => mask

/-- `notifyIdleWorker` after a look at the idle mask. -/
def maskRead (s : State n κ) (a : Agent n κ) : State n κ :=
  s.setCall a (if s.idleMask = ∅ then .idle else .notifyKeeper s.idleMask)

/-- A bit of the idle mask is cleared by an agent that will wake the worker. -/
def claimIdle (s : State n κ) (a : Agent n κ) (target : Fin n) : State n κ :=
  { s with idleMask := s.idleMask.erase target }.setCall a (.pokeLoad target)

/-- `requestRampUp` after a look at `rampUpDeadline`. -/
def rampRead (s : State n κ) (a : Agent n κ) (due : ℤ) : State n κ :=
  s.setCall a (if s.rampUpDeadline ≤ due then .idle else .rampSwap due s.rampUpDeadline)

/-- The rate limit of `ensureTimekeeper` forbids a wakeup now. -/
def limited (c : Config) (s : State n κ) : Bool :=
  match s.lastKeeperWake with
  | none => false
  | some last => decide (s.now - last < c.rampUpDelay)

/-- The end of `addTimer` and `addCallbackTimer` without a timekeeper: a worker with nothing else
to do claims the role on its way to sleep. -/
def addLocal (s : State n κ) : Agent n κ → State n κ
  | .foreign k => s.setCall (.foreign k) .ensureKeeper
  | .worker w =>
    if s.hasLocalWork w then s.setCall (.worker w) .ensureKeeper
    else
      (s.setCall (.worker w) .idle).goto w
        (if s.pc w = .sleepTimer false then .sleepTimer true else s.pc w)

/-- The next step of an agent's call. -/
def act (c : Config) (s : State n κ) (a : Agent n κ) (flag : Bool) : Option (State n κ) :=
  match s.call a with
  | .idle => none
  | .inject 0 => some (s.setCall a .notifySearching)
  | .inject (count + 1) =>
    some ({ s with injection := s.injection + 1 }.setCall a (.inject count))
  | .notifySearching => some (s.setCall a (if 0 < s.searching then .idle else .notifyMask))
  | .notifyMask => some (s.maskRead a)
  | .notifyKeeper mask =>
    if h : (candidates mask s.timekeeper).Nonempty then
      some (s.setCall a (.notifySwap mask ((candidates mask s.timekeeper).min' h)))
    else none
  | .notifySwap mask index =>
    some (if s.idleMask = mask ∧ flag = false then s.claimIdle a index else s.maskRead a)
  | .notifyWorker target =>
    some (if target ∈ s.idleMask then s.claimIdle a target else s.setCall a .idle)
  | .pokeLoad target =>
    some (s.setCall a (if c.hasDriver = true ∧ s.timekeeper = some target then .pokeDriver target
      else .pokeToken target))
  | .pokeDriver target => some ({ s with driverWake := true }.setCall a (.pokeToken target))
  | .pokeToken target =>
    some ({ s with token := Function.update s.token target true }.setCall a .idle)
  | .rampIdle =>
    some (s.setCall a (if s.idleMask = ∅ then .idle else .rampLoad (s.now + c.rampUpDelay)))
  | .rampLoad due => some (s.rampRead a due)
  | .rampSwap due current =>
    some (if s.rampUpDeadline = current ∧ flag = false then
      { s with rampUpDeadline := due }.setCall a (.rampKeeper due) else s.rampRead a due)
  | .rampKeeper due =>
    some (s.setCall a (match s.timekeeper with
      | some keeper => .rampDeadline due keeper
      | none => .notifySearching))
  | .rampDeadline due keeper =>
    some (s.setCall a (if due < s.keeperDeadline then .pokeLoad keeper else .idle))
  | .ensureKeeper => some (s.setCall a (if s.timekeeper = none then .ensureIdle else .idle))
  | .ensureIdle => some (s.setCall a (if s.idleMask = ∅ then .idle else .ensureTimers))
  | .ensureTimers =>
    some (s.setCall a (if s.timers = 0 then .idle
      else if c.rampUpDelay = 0 then .notifySearching else .ensureLimit))
  | .ensureLimit =>
    some (s.setCall a (if s.limited c then .idle else .ensureSwap s.lastKeeperWake s.now))
  | .ensureSwap last now =>
    some (if s.lastKeeperWake = last then
      { s with lastKeeperWake := some now }.setCall a .notifySearching else s.setCall a .idle)
  | .addLoad deadline =>
    some (s.setCall a (match s.timekeeper with
      | some keeper => .addDeadline deadline keeper
      | none => .addLocal))
  | .addDeadline deadline keeper =>
    some (s.setCall a (if deadline < s.keeperDeadline then .pokeLoad keeper else .idle))
  | .addLocal => some (s.addLocal a)

/-- The agent can begin a call: it is in none, and a worker stands where it may. -/
def isFree (s : State n κ) (a : Agent n κ) : Bool :=
  decide (s.call a = .idle) &&
    match a with
    | .foreign _ => true
    | .worker w => (s.pc w).mayCall

/-- Begins a call. -/
def begin (s : State n κ) (a : Agent n κ) : Call n → State n κ
  | .inject => s.setCall a (.inject 1)
  | .pin target =>
    { s with inbox := Function.update s.inbox target (s.inbox target + 1) }.setCall a
      (.notifyWorker target)
  | .addCallbackTimer deadline =>
    { s with timers := s.timers + 1 }.setCall a (.addLoad deadline)

end State

variable [DecidableEq κ]

/-- One step. A worker goes on with its loop, and a task with its work, only when it is not in a
call. -/
def step (c : Config) (s : State n κ) : Action n κ → Option (State n κ)
  | .tick elapsed => some { s with now := s.now + elapsed }
  | .expire => some { s with timers := s.timers - 1 }
  | .gather w =>
    if (s.pc w).gathers then
      some { s with gathered := Function.update s.gathered w (s.gathered w + 1) }
    else none
  | .steal w victim count =>
    if s.call (.worker w) = .idle then s.steal w victim count else none
  | .scanned w earliest =>
    if s.pc w = .scan then some (s.goto w (.loadRampUp earliest)) else none
  | .work w flag => if s.call (.worker w) = .idle then s.work c w flag else none
  | .task w op =>
    if s.call (.worker w) = .idle ∧ s.pc w = .running then some (s.task w op) else none
  | .call a call => if s.isFree a then some (s.begin a call) else none
  | .act a flag => s.act c a flag

/-- The scheduler as a step system. -/
def system (n : ℕ) (κ : Type u) [DecidableEq κ] (c : Config) :
    System (State n κ) (Action n κ) where
  init s := s = initial
  step := step c

end Stackfull.Sched.Keeper
