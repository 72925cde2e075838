import Stackfull.Lib.Transition
import Stackfull.Sched.MpscQueue
import Mathlib.Data.Finset.Max
import Mathlib.Data.Fintype.Basic
import Mathlib.Data.List.FinRange
import Mathlib.Tactic.Simps.Basic

/-!
# Idle workers and the wakeups that reach them

`sched/src/Worker.cpp` and `sched/src/SchedulerCore.cpp`: the run loop of a worker with
`searchForWork`, `spinForWork`, `parkIdle` and `sleepIdle`, and the calls that give it work or end
it, `schedule`, `notifyIdleWorker`, `notifyWorker`, `unparkWorker`, `stop` and `releaseTask`. Each
atomic access is one step. A `Parker` is its token, the `Driver` its sticky wake, and the injection
queue a list.

Workers are `Fin n`. Calls are made by `Agent`s: callers outside the scheduler, of which there may
be any number, and the workers themselves, at the points of their loop where tasks, timers or the
driver run. A worker's queue of its own, its LIFO slot, stealing, timers and the clock are left
open: a label carries the outcome where the code looks at one of them.

`place` is history: where the enqueue of a task has got to. It only keeps a task from being
scheduled while it is already queued.
-/

set_option autoImplicit false
set_option relaxedAutoImplicit false
set_option linter.dupNamespace false

namespace Stackfull.Sched.Idle

open Stackfull.Lib

universe u v

/-- Where `takeLocal` was called from. After a spin it is known whether the worker was the last
searcher. -/
inductive Site
  | loop
  | spin
  | spinLeave (wasLast : Bool)
  | park
  | switch
  deriving DecidableEq, Repr

/-- Where a worker stands in its loop. -/
inductive WorkerPc (τ : Type v)
  | top
  | maintaining
  | maintainClaim
  | maintainPoll
  | maintainDispatch
  | maintainRelease
  | maintainPlace
  | popTop
  | takeLocal (site : Site)
  | popInbox (site : Site) (pop : PopPc τ)
  | searchLoad
  | searchSwap (current : ℕ)
  | searchPop (searcher : Bool)
  | searchSteal
  | searchPopAgain
  | searchEnd (found : Bool)
  | leftovers
  | starting
  | running
  | stopCheck
  | reapCheck
  | reaping
  | liveCheck
  | exited
  | parkStart
  | spinStart
  | spinLoad
  | spinSwap (current : ℕ)
  | spinProbe
  | spinPop
  | spinSteal
  | spinTime
  | spinEnd (found : Bool)
  | spinLeavePop (wasLast : Bool)
  | marking
  | parkPop
  | parkClear
  | parkDrain
  | sleepSample
  | sleepClaim (stopping : Bool)
  | parked (timed : Bool)
  | scanning (stopping : Bool)
  | keeping (timed : Bool)
  | inDriver (timed : Bool)
  | dispatching
  | releasing
  | firing
  | clearing
  | placing

/-- Why a worker is poked. -/
inductive Reason
  | handOff
  | request
  | stop
  | release
  deriving DecidableEq, Repr

/-- The accesses of `unparkWorker`. -/
inductive Stage
  | load
  | wake
  | unpark
  deriving DecidableEq, Repr

/-- Where an agent stands in its call. -/
inductive CallPc (n : ℕ) (τ : Type v)
  | idle
  | injecting (tasks : List τ)
  | notifySearching
  | notifyMask
  | notifyKeeper (mask : Finset (Fin n))
  | notifySwap (mask : Finset (Fin n)) (index : Fin n)
  | pushing (target : Fin n) (task : τ) (push : PushPc τ)
  | notifyWorker (target : Fin n)
  | poke (stage : Stage) (target : Fin n) (rest : List (Fin n)) (reason : Reason)
  | stopSet
  | stopWake
  | stopWoken
  | create
  | releaseCount
  | releaseLoad
  | releaseSwap
  | releaseLive

/-- Who makes calls. -/
inductive Agent (n : ℕ) (κ : Type u)
  | foreign (caller : κ)
  | worker (index : Fin n)
  deriving DecidableEq

/-- A call. `inject` pushes a batch to the injection queue and notifies one worker; `pin` is
`schedule` of a task pinned to a worker; `notify` is `notifyIdleWorker` alone; `poke` is
`unparkWorker` alone; `create` counts a task that begins to exist and `release` is `releaseTask`. -/
inductive Call (n : ℕ) (τ : Type v)
  | inject (tasks : List τ)
  | pin (target : Fin n) (task : τ)
  | notify
  | poke (target : Fin n)
  | stop
  | create
  | release

/-- A step: a worker takes the next step of its loop, an agent begins a call or takes the next
step of its call. The flag resolves what the model leaves open at that point. -/
inductive Action (n : ℕ) (κ : Type u) (τ : Type v)
  | work (worker : Fin n) (flag : Bool)
  | call (agent : Agent n κ) (call : Call n τ)
  | act (agent : Agent n κ) (flag : Bool)

/-- Where the enqueue of a task has got to. -/
inductive Place (n : ℕ) (κ : Type u)
  | free
  | carried (agent : Agent n κ)
  | linking (agent : Agent n κ) (target : Fin n)
  | resting (target : Fin n)
  | injected
  deriving DecidableEq

/-- Whether there is a `Driver`, and whether idle workers spin (`options.idleSpin`). -/
structure Config where
  hasDriver : Bool
  idleSpin : Bool

/-- The shared words of the scheduler, the inboxes, and where everybody stands. -/
structure State (n : ℕ) (κ : Type u) (τ : Type v) where
  injection : List τ
  idleMask : Finset (Fin n)
  searching : ℕ
  timekeeper : Option (Fin n)
  token : Fin n → Bool
  driverWake : Bool
  stopping : Bool
  parkedWoken : Bool
  liveTasks : ℕ
  inbox : Fin n → MpscQueue τ
  tick : Fin n → ℕ
  pc : Fin n → WorkerPc τ
  call : Agent n κ → CallPc n τ
  place : τ → Place n κ

/-- `kInjectionCheckPeriod`. -/
def injectionCheckPeriod : ℕ := 61

/-- `kMaxSpinners`. -/
def maxSpinners : ℕ := 2

variable {n : ℕ} {κ : Type u} {τ : Type v}

/-- The workers are at the top of their loops and nothing is queued. -/
def initial : State n κ τ where
  injection := []
  idleMask := ∅
  searching := 0
  timekeeper := none
  token := fun _ ↦ false
  driverWake := false
  stopping := false
  parkedWoken := false
  liveTasks := 0
  inbox := fun _ ↦ .empty
  tick := fun _ ↦ 0
  pc := fun _ ↦ .top
  call := fun _ ↦ .idle
  place := fun _ ↦ .free

/-- The points where a worker may make calls: a task, a timer or the driver runs, or it places what
was gathered. -/
def WorkerPc.mayCall : WorkerPc τ → Bool
  | .maintaining => true
  | .maintainDispatch => true
  | .maintainPlace => true
  | .searchSteal => true
  | .leftovers => true
  | .starting => true
  | .running => true
  | .reaping => true
  | .spinSteal => true
  | .dispatching => true
  | .firing => true
  | .placing => true
  | _ => false

/-- Where a worker goes when `takeLocal` found nothing. -/
def Site.missed : Site → WorkerPc τ
  | .loop => .searchLoad
  | .spin => .spinProbe
  | .spinLeave wasLast => .spinLeavePop wasLast
  | .park => .parkPop
  | .switch => .top

/-- Where a worker goes when `takeLocal` found a task. -/
def Site.found : Site → WorkerPc τ
  | .loop => .starting
  | .spin => .spinEnd true
  | .spinLeave true => .leftovers
  | .spinLeave false => .starting
  | .park => .parkClear
  | .switch => .running

namespace State

/-- Moves a worker to another point. -/
@[simps]
def setPc (s : State n κ τ) (w : Fin n) (pc : WorkerPc τ) : State n κ τ :=
  { s with pc := Function.update s.pc w pc }

/-- `searching.fetch_add(1)` by a worker. -/
@[simps]
def enterSearch (s : State n κ τ) (w : Fin n) (pc : WorkerPc τ) : State n κ τ :=
  { s with searching := s.searching + 1, pc := Function.update s.pc w pc }

/-- `searching.fetch_sub(1)` by a worker. -/
@[simps]
def leaveSearch (s : State n κ τ) (w : Fin n) (pc : WorkerPc τ) : State n κ τ :=
  { s with searching := s.searching - 1, pc := Function.update s.pc w pc }

/-- `markIdle`. -/
@[simps]
def mark (s : State n κ τ) (w : Fin n) (pc : WorkerPc τ) : State n κ τ :=
  { s with idleMask := insert w s.idleMask, pc := Function.update s.pc w pc }

/-- A worker's own `clearIdle`. -/
@[simps]
def unmark (s : State n κ τ) (w : Fin n) (pc : WorkerPc τ) : State n κ τ :=
  { s with idleMask := s.idleMask.erase w, pc := Function.update s.pc w pc }

/-- `tryBecomeTimekeeper` that succeeds. -/
@[simps]
def claim (s : State n κ τ) (w : Fin n) (pc : WorkerPc τ) : State n κ τ :=
  { s with timekeeper := some w, pc := Function.update s.pc w pc }

/-- `releaseTimekeeper`. -/
@[simps]
def yieldRole (s : State n κ τ) (w : Fin n) (pc : WorkerPc τ) : State n κ τ :=
  { s with
    timekeeper := if s.timekeeper = some w then none else s.timekeeper
    pc := Function.update s.pc w pc }

/-- A return from the worker's `Parker` that takes the token. -/
@[simps]
def takeToken (s : State n κ τ) (w : Fin n) (pc : WorkerPc τ) : State n κ τ :=
  { s with token := Function.update s.token w false, pc := Function.update s.pc w pc }

/-- A return from `Driver::wait`. -/
@[simps]
def leaveDriver (s : State n κ τ) (w : Fin n) (pc : WorkerPc τ) : State n κ τ :=
  { s with driverWake := false, pc := Function.update s.pc w pc }

/-- Replaces a worker's inbox. -/
@[simps]
def setInbox (s : State n κ τ) (w : Fin n) (q : MpscQueue τ) (pc : WorkerPc τ) : State n κ τ :=
  { s with inbox := Function.update s.inbox w q, pc := Function.update s.pc w pc }

variable [DecidableEq τ]

/-- A task leaves the injection queue. -/
@[simps]
def popped (s : State n κ τ) (w : Fin n) (task : τ) (rest : List τ) (pc : WorkerPc τ) :
    State n κ τ :=
  { s with
    injection := rest
    place := Function.update s.place task .free
    pc := Function.update s.pc w pc }

/-- A task leaves a worker's inbox. -/
@[simps]
def taken (s : State n κ τ) (w : Fin n) (task : τ) (q : MpscQueue τ) (pc : WorkerPc τ) :
    State n κ τ :=
  { s with
    inbox := Function.update s.inbox w q
    place := Function.update s.place task .free
    pc := Function.update s.pc w pc }

attribute [grind =] setPc_injection setPc_idleMask setPc_searching setPc_timekeeper setPc_token
  setPc_driverWake setPc_stopping setPc_inbox setPc_pc setPc_call setPc_place
  enterSearch_injection enterSearch_idleMask enterSearch_searching enterSearch_timekeeper
  enterSearch_token enterSearch_driverWake enterSearch_stopping enterSearch_inbox enterSearch_pc
  enterSearch_call enterSearch_place leaveSearch_injection leaveSearch_idleMask
  leaveSearch_searching leaveSearch_timekeeper leaveSearch_token leaveSearch_driverWake
  leaveSearch_stopping leaveSearch_inbox leaveSearch_pc leaveSearch_call leaveSearch_place
  mark_injection mark_idleMask mark_searching mark_timekeeper mark_token mark_driverWake
  mark_stopping mark_inbox mark_pc mark_call mark_place unmark_injection unmark_idleMask
  unmark_searching unmark_timekeeper unmark_token unmark_driverWake unmark_stopping unmark_inbox
  unmark_pc unmark_call unmark_place claim_injection claim_idleMask claim_searching
  claim_timekeeper claim_token claim_driverWake claim_stopping claim_inbox claim_pc claim_call
  claim_place yieldRole_injection yieldRole_idleMask yieldRole_searching yieldRole_timekeeper
  yieldRole_token yieldRole_driverWake yieldRole_stopping yieldRole_inbox yieldRole_pc
  yieldRole_call yieldRole_place takeToken_injection takeToken_idleMask takeToken_searching
  takeToken_timekeeper takeToken_token takeToken_driverWake takeToken_stopping takeToken_inbox
  takeToken_pc takeToken_call takeToken_place leaveDriver_injection leaveDriver_idleMask
  leaveDriver_searching leaveDriver_timekeeper leaveDriver_token leaveDriver_driverWake
  leaveDriver_stopping leaveDriver_inbox leaveDriver_pc leaveDriver_call leaveDriver_place
  setInbox_injection setInbox_idleMask setInbox_searching setInbox_timekeeper setInbox_token
  setInbox_driverWake setInbox_stopping setInbox_inbox setInbox_pc setInbox_call setInbox_place
  popped_injection popped_idleMask popped_searching popped_timekeeper popped_token
  popped_driverWake popped_stopping popped_inbox popped_pc popped_call popped_place
  taken_injection taken_idleMask taken_searching taken_timekeeper taken_token taken_driverWake
  taken_stopping taken_inbox taken_pc taken_call taken_place

/-- `popInjection`, and where the worker goes with a task and without. -/
def popInjection (s : State n κ τ) (w : Fin n) (found missed : WorkerPc τ) : State n κ τ :=
  match s.injection with
  | [] => s.setPc w missed
  | task :: rest => s.popped w task rest found

/-- One access of `pinnedInbox.pop()` inside `takeLocal`. -/
def popInbox (s : State n κ τ) (w : Fin n) (site : Site) (pop : PopPc τ) :
    Option (State n κ τ) :=
  match (s.inbox w).popStep pop with
  | (q, .inl next) => some (s.setInbox w q (.popInbox site next))
  | (q, .inr none) => some (s.setInbox w q site.missed)
  | (q, .inr (some (.task task))) => some (s.taken w task q site.found)
  | (_, .inr (some .stub)) => none

/-- The bound `searchForWork` puts on searchers. -/
def searchLimit (_ : State n κ τ) : ℕ := n / 2 + 1

/-- `searchForWork` after a look at `searching`. -/
def searchRead (s : State n κ τ) (w : Fin n) : State n κ τ :=
  if s.searching < s.searchLimit then s.setPc w (.searchSwap s.searching)
  else s.setPc w (.searchPop false)

/-- `spinForWork` after a look at `searching`. -/
def spinRead (s : State n κ τ) (w : Fin n) : State n κ τ :=
  if maxSpinners ≤ s.searching then s.setPc w .marking
  else s.setPc w (.spinSwap s.searching)

/-- The next step of a worker's loop; none where it is blocked or has ended. -/
def work (c : Config) (s : State n κ τ) (w : Fin n) (flag : Bool) : Option (State n κ τ) :=
  match s.pc w with
  | .top =>
    if s.tick w % injectionCheckPeriod = 0 then some (s.setPc w .maintaining)
    else some (s.setPc w (.takeLocal .loop))
  | .maintaining =>
    if c.hasDriver then some (s.setPc w .maintainClaim) else some (s.setPc w .maintainPlace)
  | .maintainClaim =>
    if s.timekeeper = none then some (s.claim w .maintainPoll)
    else some (s.setPc w .maintainPlace)
  | .maintainPoll => some (s.leaveDriver w .maintainDispatch)
  | .maintainDispatch => some (s.setPc w .maintainRelease)
  | .maintainRelease => some (s.yieldRole w .maintainPlace)
  | .maintainPlace => some (s.setPc w .popTop)
  | .popTop => some (s.popInjection w .starting (.takeLocal .loop))
  | .takeLocal site =>
    if flag then some (s.setPc w site.found) else some (s.setPc w (.popInbox site .start))
  | .popInbox site pop => s.popInbox w site pop
  | .searchLoad => some (s.searchRead w)
  | .searchSwap current =>
    if s.searching = current ∧ flag = false then some (s.enterSearch w (.searchPop true))
    else some (s.searchRead w)
  | .searchPop true => some (s.popInjection w (.searchEnd true) .searchSteal)
  | .searchPop false => some (s.popInjection w .starting .stopCheck)
  | .searchSteal =>
    if flag then some (s.setPc w (.searchEnd true)) else some (s.setPc w .searchPopAgain)
  | .searchPopAgain => some (s.popInjection w (.searchEnd true) (.searchEnd false))
  | .searchEnd found =>
    if found then
      some (s.leaveSearch w (if s.searching = 1 then .leftovers else .starting))
    else some (s.leaveSearch w .stopCheck)
  | .leftovers => some (s.setPc w .starting)
  | .starting =>
    some { s.setPc w .running with tick := Function.update s.tick w (s.tick w + 1) }
  | .running => some (s.setPc w (.takeLocal .switch))
  | .stopCheck => if s.stopping then some (s.setPc w .reapCheck) else some (s.setPc w .parkStart)
  | .reapCheck => if s.parkedWoken then some (s.setPc w .reaping) else some (s.setPc w .liveCheck)
  | .reaping => some (s.setPc w .liveCheck)
  | .liveCheck =>
    if flag then if s.liveTasks = 0 then some (s.setPc w .exited) else none
    else some (s.setPc w .parkStart)
  | .exited => none
  | .parkStart => if s.stopping then some (s.setPc w .marking) else some (s.setPc w .spinStart)
  | .spinStart =>
    if c.idleSpin = false ∨ (c.hasDriver = true ∧ s.timekeeper = none) ∨ flag = true then
      some (s.setPc w .marking)
    else some (s.setPc w .spinLoad)
  | .spinLoad => some (s.spinRead w)
  | .spinSwap current =>
    if s.searching = current ∧ flag = false then some (s.enterSearch w (.takeLocal .spin))
    else some (s.spinRead w)
  | .spinProbe => if flag then some (s.setPc w .spinPop) else some (s.setPc w .spinSteal)
  | .spinPop => some (s.popInjection w (.spinEnd true) .spinSteal)
  | .spinSteal => if flag then some (s.setPc w (.spinEnd true)) else some (s.setPc w .spinTime)
  | .spinTime =>
    if flag then some (s.setPc w (.spinEnd false)) else some (s.setPc w (.takeLocal .spin))
  | .spinEnd found =>
    if found then
      some (s.leaveSearch w (if s.searching = 1 then .leftovers else .starting))
    else some (s.leaveSearch w (.takeLocal (.spinLeave (s.searching = 1))))
  | .spinLeavePop wasLast =>
    some (s.popInjection w (if wasLast then .leftovers else .starting) .marking)
  | .marking => some (s.mark w (.takeLocal .park))
  | .parkPop => some (s.popInjection w .parkClear .sleepSample)
  | .parkClear => some (s.unmark w (if w ∈ s.idleMask then .starting else .parkDrain))
  | .parkDrain => some (s.takeToken w .starting)
  | .sleepSample => some (s.setPc w (.sleepClaim s.stopping))
  | .sleepClaim stopping =>
    if s.timekeeper = none then some (s.claim w (.scanning stopping))
    else some (s.setPc w (.parked stopping))
  | .parked timed =>
    if s.token w then some (s.takeToken w .clearing)
    else if timed ∧ flag then some (s.setPc w .clearing) else none
  | .scanning stopping =>
    if c.hasDriver then some (s.setPc w (.inDriver (stopping || flag)))
    else some (s.setPc w (.keeping (stopping || flag)))
  | .keeping timed =>
    if s.token w then some (s.takeToken w .releasing)
    else if timed ∧ flag then some (s.setPc w .releasing) else none
  | .inDriver _ =>
    if s.driverWake ∨ flag then some (s.leaveDriver w .dispatching) else none
  | .dispatching => some (s.setPc w .releasing)
  | .releasing => some (s.yieldRole w .firing)
  | .firing => some (s.setPc w .clearing)
  | .clearing => some (s.unmark w .placing)
  | .placing => if flag then some (s.setPc w .starting) else some (s.setPc w .top)

end State

/-! ### Calls -/

/-- The agent is not in a call. -/
def CallPc.isIdle : CallPc n τ → Bool
  | .idle => true
  | _ => false

/-- The worker `notifyIdleWorker` picks: the first of the mask, the timekeeper only if it is the
sole one. -/
def candidates (mask : Finset (Fin n)) : Option (Fin n) → Finset (Fin n)
  | some keeper => if (mask.erase keeper).Nonempty then mask.erase keeper else mask
  | none => mask

/-- `unparkWorker` on each worker of a list in turn. -/
def pokeAll (workers : List (Fin n)) (reason : Reason) : CallPc n τ :=
  match workers with
  | [] => .idle
  | target :: rest => .poke .load target rest reason

namespace State

variable [DecidableEq κ] [DecidableEq τ]

/-- Moves an agent to another point of its call. -/
@[simps]
def setCall (s : State n κ τ) (a : Agent n κ) (pc : CallPc n τ) : State n κ τ :=
  { s with call := Function.update s.call a pc }

/-- A push to the injection queue. -/
@[simps]
def inject (s : State n κ τ) (a : Agent n κ) (task : τ) (pc : CallPc n τ) : State n κ τ :=
  { s with
    injection := s.injection ++ [task]
    place := Function.update s.place task .injected
    call := Function.update s.call a pc }

/-- A bit of the idle mask is cleared by an agent that will wake the worker. -/
@[simps]
def claimIdle (s : State n κ τ) (a : Agent n κ) (target : Fin n) (pc : CallPc n τ) :
    State n κ τ :=
  { s with idleMask := s.idleMask.erase target, call := Function.update s.call a pc }

/-- `parker->unpark()`. -/
@[simps]
def unpark (s : State n κ τ) (a : Agent n κ) (target : Fin n) (pc : CallPc n τ) : State n κ τ :=
  { s with
    token := Function.update s.token target true
    call := Function.update s.call a pc }

/-- `driver->wake()`. -/
@[simps]
def wakeDriver (s : State n κ τ) (a : Agent n κ) (pc : CallPc n τ) : State n κ τ :=
  { s with driverWake := true, call := Function.update s.call a pc }

/-- An access of a push to a worker's inbox. -/
@[simps]
def setInboxBy (s : State n κ τ) (a : Agent n κ) (target : Fin n) (q : MpscQueue τ) (task : τ)
    (place : Place n κ) (pc : CallPc n τ) : State n κ τ :=
  { s with
    inbox := Function.update s.inbox target q
    place := Function.update s.place task place
    call := Function.update s.call a pc }

attribute [grind =] setCall_injection setCall_idleMask setCall_searching setCall_timekeeper
  setCall_token setCall_driverWake setCall_stopping setCall_inbox setCall_pc setCall_call
  setCall_place inject_injection inject_idleMask inject_searching inject_timekeeper inject_token
  inject_driverWake inject_stopping inject_inbox inject_pc inject_call inject_place
  claimIdle_injection claimIdle_idleMask claimIdle_searching claimIdle_timekeeper claimIdle_token
  claimIdle_driverWake claimIdle_stopping claimIdle_inbox claimIdle_pc claimIdle_call
  claimIdle_place unpark_injection unpark_idleMask unpark_searching unpark_timekeeper unpark_token
  unpark_driverWake unpark_stopping unpark_inbox unpark_pc unpark_call unpark_place
  wakeDriver_injection wakeDriver_idleMask wakeDriver_searching wakeDriver_timekeeper
  wakeDriver_token wakeDriver_driverWake wakeDriver_stopping wakeDriver_inbox wakeDriver_pc
  wakeDriver_call wakeDriver_place setInboxBy_injection setInboxBy_idleMask setInboxBy_searching
  setInboxBy_timekeeper setInboxBy_token setInboxBy_driverWake setInboxBy_stopping
  setInboxBy_inbox setInboxBy_pc setInboxBy_call setInboxBy_place

/-- `notifyIdleWorker` after a look at the idle mask. -/
def maskRead (s : State n κ τ) (a : Agent n κ) : State n κ τ :=
  if s.idleMask = ∅ then s.setCall a .idle else s.setCall a (.notifyKeeper s.idleMask)

/-- The push of a task to its worker's inbox, one access at a time. -/
def pushInbox (s : State n κ τ) (a : Agent n κ) (target : Fin n) (task : τ) :
    PushPc τ → State n κ τ
  | .reset =>
    s.setInboxBy a target ((s.inbox target).reset (.task task)) task (.carried a)
      (.pushing target task .swap)
  | .swap =>
    s.setInboxBy a target ((s.inbox target).swap (.task task)) task (.linking a target)
      (.pushing target task (.link (s.inbox target).head))
  | .link previous =>
    s.setInboxBy a target ((s.inbox target).link previous (.task task)) task (.resting target)
      (.notifyWorker target)

/-- `notifyWorker`. -/
def notifyWorker (s : State n κ τ) (a : Agent n κ) (target : Fin n) : State n κ τ :=
  if target ∈ s.idleMask then s.claimIdle a target (.poke .load target [] .handOff)
  else s.setCall a .idle

/-- `unparkWorker`, one access at a time. -/
def pokeStep (c : Config) (s : State n κ τ) (a : Agent n κ) (target : Fin n)
    (rest : List (Fin n)) (reason : Reason) : Stage → State n κ τ
  | .load =>
    if c.hasDriver = true ∧ s.timekeeper = some target then
      s.setCall a (.poke .wake target rest reason)
    else s.setCall a (.poke .unpark target rest reason)
  | .wake => s.wakeDriver a (.poke .unpark target rest reason)
  | .unpark => s.unpark a target (pokeAll rest reason)

/-- The next step of an agent's call. -/
def act (c : Config) (s : State n κ τ) (a : Agent n κ) (flag : Bool) : Option (State n κ τ) :=
  match s.call a with
  | .idle => none
  | .injecting [] => some (s.setCall a .notifySearching)
  | .injecting (task :: rest) => some (s.inject a task (.injecting rest))
  | .notifySearching =>
    if 0 < s.searching then some (s.setCall a .idle) else some (s.setCall a .notifyMask)
  | .notifyMask => some (s.maskRead a)
  | .notifyKeeper mask =>
    if h : (candidates mask s.timekeeper).Nonempty then
      some (s.setCall a (.notifySwap mask ((candidates mask s.timekeeper).min' h)))
    else none
  | .notifySwap mask index =>
    if s.idleMask = mask ∧ flag = false then
      some (s.claimIdle a index (.poke .load index [] .handOff))
    else some (s.maskRead a)
  | .pushing target task push => some (s.pushInbox a target task push)
  | .notifyWorker target => some (s.notifyWorker a target)
  | .poke stage target rest reason => some (s.pokeStep c a target rest reason stage)
  | .stopSet =>
    if s.stopping then some (s.setCall a .idle)
    else some { s.setCall a .stopWake with stopping := true }
  | .stopWake => some (s.setCall a .stopWoken)
  | .stopWoken =>
    some { s.setCall a (pokeAll (List.finRange n) .stop) with parkedWoken := true }
  | .create => some { s.setCall a .idle with liveTasks := s.liveTasks + 1 }
  | .releaseCount =>
    if s.liveTasks = 0 then none
    else some { s.setCall a .releaseLoad with liveTasks := s.liveTasks - 1 }
  | .releaseLoad =>
    if s.stopping then some (s.setCall a .releaseSwap) else some (s.setCall a .idle)
  | .releaseSwap => some { s.setCall a .releaseLive with stopping := true }
  | .releaseLive =>
    if flag then
      if s.liveTasks = 0 then some (s.setCall a (pokeAll (List.finRange n) .release)) else none
    else some (s.setCall a .idle)

/-- The agent can begin a call: it is in none, and a worker stands where it may. -/
def isFree (s : State n κ τ) (a : Agent n κ) : Bool :=
  (s.call a).isIdle &&
    match a with
    | .foreign _ => true
    | .worker w => (s.pc w).mayCall

/-- Begins a call. A task is scheduled only while it is not queued. -/
def begin (s : State n κ τ) (a : Agent n κ) : Call n τ → Option (State n κ τ)
  | .inject tasks =>
    if tasks ≠ [] ∧ tasks.Nodup ∧ ∀ task ∈ tasks, s.place task = .free then
      some { s.setCall a (.injecting tasks) with
        place := fun task ↦ if task ∈ tasks then .carried a else s.place task }
    else none
  | .pin target task =>
    if s.place task = .free then
      some { s.setCall a (.pushing target task .reset) with
        place := Function.update s.place task (.carried a) }
    else none
  | .notify => some (s.setCall a .notifySearching)
  | .poke target => some (s.setCall a (.poke .load target [] .request))
  | .stop => some (s.setCall a .stopSet)
  | .create => some (s.setCall a .create)
  | .release => some (s.setCall a .releaseCount)

/-- One step. A worker goes on with its loop only when it is not in a call. -/
def step (c : Config) (s : State n κ τ) : Action n κ τ → Option (State n κ τ)
  | .work w flag => if (s.call (.worker w)).isIdle then s.work c w flag else none
  | .call a call => if s.isFree a then s.begin a call else none
  | .act a flag => s.act c a flag

end State

/-- The scheduler as a step system. -/
def system (n : ℕ) (κ : Type u) (τ : Type v) [DecidableEq κ] [DecidableEq τ] (c : Config) :
    System (State n κ τ) (Action n κ τ) where
  init s := s = initial
  step s a := s.step c a

end Stackfull.Sched.Idle
