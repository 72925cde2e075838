import Stackfull.Lib.IntrusiveHeap
import Stackfull.Sched.Tasks

/-!
# The timekeeper and the timer queues

`TimerQueue` (`TimerQueue.cpp`), `addTimer`, `addCallbackTimer`, `nextDeadline`, `unparkWorker` and
the timekeeper's role (`SchedulerCore.cpp`), and the sleep of the worker that has it
(`Worker::sleepIdle` and `Worker::maintain`, `Worker.cpp`).

A step is one access to a shared word, or a change of a queue's heap when its lock is taken; the
parts of `publishLocked` are steps of their own. An entry is one deadline object with its one
deadline. Times are compared and never computed with here, so they are any linear order with a
greatest element; that element is `kNoDeadline` and `kScanningTimers`.

What the rest of the scheduler does to these words is left open: it may unpark a worker or wake the
driver at any time, request a ramp-up, and end a worker's sleep early. The words of the handshake
are sequentially consistent in the source, the others are accessed under a queue's lock or by one
worker.
-/

set_option autoImplicit false
set_option relaxedAutoImplicit false
set_option linter.dupNamespace false

namespace Stackfull.Sched.Timekeeper

open Stackfull.Lib
open Stackfull.Sched.Tasks (Agent)

universe u v w

/-- Whether there is a driver, and the entries' constant fields. -/
structure Config (ε : Type v) (T : Type w) where
  hasDriver : Bool
  deadline : ε → T
  callback : ε → Bool

/-- What a thread under a queue's lock has done to the heap. -/
inductive Job (ε : Type v)
  | added (entry : ε)
  | removed
  deriving DecidableEq

/-- Where a thread stands: outside, in `publishLocked`, in the rest of `addTimer` or
`addCallbackTimer`, in `unparkWorker`, in `sleepIdle` with the role, or in `maintain` with it. -/
inductive Pc (n : ℕ) (ε : Type v) (T : Type w)
  | idle
  | publishMask (queue : Fin n) (job : Job ε)
  | publishEarliest (queue : Fin n) (job : Job ε)
  | unlock (queue : Fin n) (job : Job ε)
  | loadKeeper (entry : ε)
  | loadDeadline (entry : ε) (keeper : Fin n)
  | unparkWorker (entry : ε) (keeper : Fin n)
  | wakeDriver (entry : ε) (keeper : Fin n)
  | unpark (entry : ε) (keeper : Fin n)
  | mark
  | loadMask
  | scan (rest : List (Fin n)) (earliest : T)
  | loadRampUp (earliest : T)
  | publish (wakeAt : T)
  | asleep (wakeAt : T)
  | poll
  | release
  deriving DecidableEq

/-- The queues with their locks and mirrors, the words of the handshake, the pending wakes and the
threads. -/
structure State (n : ℕ) (κ : Type u) (ε : Type v) (T : Type w) where
  heap : Fin n → IntrusiveHeap ε
  lock : Fin n → Option (Agent n κ)
  closed : Fin n → Bool
  size : Fin n → ℕ
  earliest : Fin n → T
  timerMask : Fin n → Bool
  queue : ε → Option (Fin n)
  cancelled : ε → Bool
  timekeeper : Option (Fin n)
  keeperDeadline : T
  rampUpDeadline : T
  driverWoken : Bool
  token : Fin n → Bool
  pc : Agent n κ → Pc n ε T

/-- A step. -/
inductive Action (n : ℕ) (κ : Type u) (ε : Type v) (T : Type w)
  | construct (entry : ε) (queue : Fin n)
  | addTimer (worker : Fin n) (entry : ε)
  | addCallbackTimer (agent : Agent n κ) (entry : ε)
  | cancel (agent : Agent n κ) (entry : ε)
  | fireExpired (agent : Agent n κ) (queue : Fin n) (now : T)
  | fireCallbacksAndClose (agent : Agent n κ) (queue : Fin n)
  | work (agent : Agent n κ)
  | becomeTimekeeper (worker : Fin n)
  | maintain (worker : Fin n)
  | wakeUp (worker : Fin n) (consumes : Bool)
  | rampUp (due : T)
  | unparkOther (worker : Fin n)
  | wakeDriver
  | consumeToken (worker : Fin n)

variable {n : ℕ} {κ : Type u} {ε : Type v} {T : Type w}

/-- Nothing is queued and nobody has the role. -/
def initial [Inhabited ε] [LinearOrder T] [OrderTop T] : State n κ ε T where
  heap := fun _ ↦ IntrusiveHeap.empty
  lock := fun _ ↦ none
  closed := fun _ ↦ false
  size := fun _ ↦ 0
  earliest := fun _ ↦ ⊤
  timerMask := fun _ ↦ false
  queue := fun _ ↦ none
  cancelled := fun _ ↦ false
  timekeeper := none
  keeperDeadline := ⊤
  rampUpDeadline := ⊤
  driverWoken := false
  token := fun _ ↦ false
  pc := fun _ ↦ .idle

namespace State

variable [DecidableEq κ] [DecidableEq ε] [LinearOrder T] [OrderTop T]

/-- A thread goes on. -/
def goto (s : State n κ ε T) (a : Agent n κ) (pc : Pc n ε T) : State n κ ε T :=
  { s with pc := Function.update s.pc a pc }

/-- A thread has changed a heap under its lock; `publishLocked` comes next. -/
def change (s : State n κ ε T) (a : Agent n κ) (q : Fin n) (heap : IntrusiveHeap ε) (job : Job ε) :
    State n κ ε T :=
  { s with
    heap := Function.update s.heap q heap
    lock := Function.update s.lock q (some a) }.goto a (.publishMask q job)

/-- The thread is outside, and the queue's lock is free. -/
def canLock (s : State n κ ε T) (a : Agent n κ) (q : Fin n) : Bool :=
  decide (s.pc a = .idle) && decide (s.lock q = none)

/-- An entry's owner sets its queue before it adds it. -/
def construct (s : State n κ ε T) (e : ε) (q : Fin n) : Option (State n κ ε T) :=
  if ∀ q, (s.heap q).index e = none then
    some { s with
      queue := Function.update s.queue e (some q)
      cancelled := Function.update s.cancelled e false }
  else none

/-- `addTimer` up to the unlock in `TimerQueue::add`; the entry is not queued. -/
def addTimer (c : Config ε T) (s : State n κ ε T) (w : Fin n) (e : ε) : Option (State n κ ε T) :=
  if s.canLock (.worker w) w && decide ((s.heap w).index e = none) then
    some ({ s with queue := Function.update s.queue e (some w) }.change (.worker w) w
      ((s.heap w).push c.deadline e) (.added e))
  else none

/-- `addCallbackTimer` up to the unlock in `addUnlessCancelled`; the entry is not queued. -/
def addCallbackTimer (c : Config ε T) (s : State n κ ε T) (a : Agent n κ) (e : ε) :
    Option (State n κ ε T) :=
  match s.queue e with
  | none => none
  | some q =>
    if s.canLock a q && decide ((s.heap q).index e = none) then
      some (if s.cancelled e || s.closed q then s
        else s.change a q ((s.heap q).push c.deadline e) (.added e))
    else none

/-- `cancelTimer`. -/
def cancel (c : Config ε T) (s : State n κ ε T) (a : Agent n κ) (e : ε) : Option (State n κ ε T) :=
  match s.queue e with
  | none => none
  | some q =>
    if s.canLock a q then
      some (match (s.heap q).index e with
        | none => { s with cancelled := Function.update s.cancelled e true }
        | some i => s.change a q ((s.heap q).removeAt c.deadline i) .removed)
    else none

/-- One round of `fireExpired` up to its unlock. -/
def fireExpired (c : Config ε T) (s : State n κ ε T) (a : Agent n κ) (q : Fin n) (now : T) :
    Option (State n κ ε T) :=
  if s.canLock a q then
    some (if (s.heap q).size = 0 ∨ now < c.deadline ((s.heap q).slot 0) then s
      else s.change a q ((s.heap q).removeAt c.deadline 0) .removed)
  else none

/-- The first callback entry of a heap. -/
def firstCallback (c : Config ε T) (heap : IntrusiveHeap ε) : Option ℕ :=
  (List.range heap.size).find? fun i ↦ c.callback (heap.slot i)

/-- One round of `fireCallbacksAndClose` up to its unlock. -/
def fireCallbacksAndClose (c : Config ε T) (s : State n κ ε T) (a : Agent n κ) (q : Fin n) :
    Option (State n κ ε T) :=
  if s.canLock a q then
    some (match firstCallback c (s.heap q) with
      | none => { s with closed := Function.update s.closed q true }
      | some i => { s with closed := Function.update s.closed q true }.change a q
          ((s.heap q).removeAt c.deadline i) .removed)
  else none

/-- The mask's bit changes only when the queue gets its first entry or loses its last. -/
def nextMask (s : State n κ ε T) (q : Fin n) : Bool :=
  if s.size q = 0 ∧ (s.heap q).size ≠ 0 then true
  else if s.size q ≠ 0 ∧ (s.heap q).size = 0 then false
  else s.timerMask q

/-- The earliest deadline of a queue's heap. -/
def top (c : Config ε T) (s : State n κ ε T) (q : Fin n) : T :=
  if (s.heap q).size = 0 then ⊤ else c.deadline ((s.heap q).slot 0)

/-- The next step of a thread that is not outside or asleep. -/
def work (c : Config ε T) (s : State n κ ε T) (a : Agent n κ) : Option (State n κ ε T) :=
  match s.pc a with
  | .idle => none
  | .publishMask q job =>
    some ({ s with timerMask := Function.update s.timerMask q (s.nextMask q) }.goto a
      (.publishEarliest q job))
  | .publishEarliest q job =>
    some ({ s with
      size := Function.update s.size q (s.heap q).size
      earliest := Function.update s.earliest q (s.top c q) }.goto a (.unlock q job))
  | .unlock q job =>
    some ({ s with lock := Function.update s.lock q none }.goto a
      (match job with
        | .added e => .loadKeeper e
        | .removed => .idle))
  | .loadKeeper e =>
    some (s.goto a (match s.timekeeper with
      | some keeper => .loadDeadline e keeper
      | none => .idle))
  | .loadDeadline e keeper =>
    some (s.goto a (if c.deadline e < s.keeperDeadline then .unparkWorker e keeper else .idle))
  | .unparkWorker e keeper =>
    some (s.goto a (if c.hasDriver && decide (s.timekeeper = some keeper) then .wakeDriver e keeper
      else .unpark e keeper))
  | .wakeDriver e keeper => some ({ s with driverWoken := true }.goto a (.unpark e keeper))
  | .unpark _ keeper =>
    some ({ s with token := Function.update s.token keeper true }.goto a .idle)
  | .mark => some ({ s with keeperDeadline := ⊤ }.goto a .loadMask)
  | .loadMask => some (s.goto a (.scan ((List.finRange n).filter fun q ↦ s.timerMask q) ⊤))
  | .scan [] earliest => some (s.goto a (.loadRampUp earliest))
  | .scan (q :: rest) earliest =>
    some (s.goto a (.scan rest (if s.earliest q < earliest then s.earliest q else earliest)))
  | .loadRampUp earliest =>
    some (s.goto a (.publish
      (if s.rampUpDeadline < earliest then s.rampUpDeadline else earliest)))
  | .publish wakeAt => some ({ s with keeperDeadline := wakeAt }.goto a (.asleep wakeAt))
  | .asleep _ => none
  | .poll => some ({ s with driverWoken := false }.goto a .release)
  | .release =>
    some ({ s with
      timekeeper := if (s.timekeeper.map Agent.worker) = some a then none else s.timekeeper }.goto a
        .idle)

/-- `tryBecomeTimekeeper`, to sleep or in `maintain`. -/
def tryBecomeTimekeeper (s : State n κ ε T) (w : Fin n) (pc : Pc n ε T) :
    Option (State n κ ε T) :=
  if s.pc (.worker w) = .idle ∧ s.timekeeper = none then
    some ({ s with timekeeper := some w }.goto (.worker w) pc)
  else none

/-- The timekeeper's sleep ends, by a wake, which it takes, or by its timeout. -/
def wakeUp (c : Config ε T) (s : State n κ ε T) (w : Fin n) (consumes : Bool) :
    Option (State n κ ε T) :=
  match s.pc (.worker w) with
  | .asleep _ =>
    some ({ s with
      driverWoken := s.driverWoken && !(c.hasDriver && consumes)
      token := Function.update s.token w (s.token w && !(!c.hasDriver && consumes)) }.goto
        (.worker w) .release)
  | _ => none

end State

variable [DecidableEq κ] [DecidableEq ε] [LinearOrder T] [OrderTop T]

/-- One step. -/
def step (c : Config ε T) (s : State n κ ε T) : Action n κ ε T → Option (State n κ ε T)
  | .construct e q => s.construct e q
  | .addTimer w e => s.addTimer c w e
  | .addCallbackTimer a e => s.addCallbackTimer c a e
  | .cancel a e => s.cancel c a e
  | .fireExpired a q now => s.fireExpired c a q now
  | .fireCallbacksAndClose a q => s.fireCallbacksAndClose c a q
  | .work a => s.work c a
  | .becomeTimekeeper w => s.tryBecomeTimekeeper w .mark
  | .maintain w => if c.hasDriver then s.tryBecomeTimekeeper w .poll else none
  | .wakeUp w consumes => s.wakeUp c w consumes
  | .rampUp due => some { s with rampUpDeadline := due }
  | .unparkOther w => some { s with token := Function.update s.token w true }
  | .wakeDriver => some { s with driverWoken := true }
  | .consumeToken w =>
    if s.pc (.worker w) = .idle then some { s with token := Function.update s.token w false }
    else none

/-- The timer queues and the timekeeper under every order of the threads' steps. -/
def system [Inhabited ε] (c : Config ε T) : System (State n κ ε T) (Action n κ ε T) where
  init s := s = initial
  step := step c

/-! ### What the handshake promises -/

/-- The thread is inside `addTimer` or `addCallbackTimer`. -/
def Pc.adds : Pc n ε T → Bool
  | .publishMask _ (.added _) | .publishEarliest _ (.added _) | .unlock _ (.added _)
  | .loadKeeper _ | .loadDeadline _ _ | .unparkWorker _ _ | .wakeDriver _ _ | .unpark _ _ => true
  | _ => false

/-- The worker has a wake that its sleep with the role observes. -/
def State.woken (c : Config ε T) (s : State n κ ε T) (w : Fin n) : Bool :=
  if c.hasDriver then s.driverWoken else s.token w

/-- A timekeeper that sleeps until `wakeAt` while nobody is adding an entry sleeps past no queued
deadline, or has a wake pending. -/
def Contract (c : Config ε T) (s : State n κ ε T) : Prop :=
  ∀ w wakeAt, s.pc (.worker w) = .asleep wakeAt → (∀ a, (s.pc a).adds = false) →
    ∀ q e, (s.heap q).Mem e → wakeAt ≤ c.deadline e ∨ s.woken c w = true

end Stackfull.Sched.Timekeeper
