import Stackfull.Sched.Tasks
import Mathlib.Algebra.BigOperators.Group.Finset.Basic
import Mathlib.Data.Fintype.Option

/-!
# Slots, slot caches and the live-task counters

`acquireSlot`, `tryAcquireSlot`, `releaseSlot`, `liveTasks` and `releaseTask` (`SchedulerCore.cpp`),
`countCreated` and `countFinished` (`Runtime.h`), `Worker::SlotCache` (`Worker.h`) and `createTask`
with its guards (`TaskFactory.h`).

There are `m` slots (`maxTasks`), `n` workers with a cache each, and any number of other threads.
Each lock operation, each operation on the free list and each access to a counter or to the slot
table is one step. A cache is the list of its slots, the next one to be taken at its end; the code
inside a cache's lock is one step for each slot that moves. The free list is the list of what was
pushed and not popped yet; a pop may report it empty (the flag), which covers every answer of the
queue. The flag also decides whether the allocator fails, whether the layout does not fit, and
whether the body's constructor throws. A thread executes one call at a time.

`use` says in whose hands a slot is; it is the record of the tasks, which have no other one here.
`wrote` and `watch` are not in the code: whether a call of `createTask` has written the slot table
or a counter, and what a thread's call would have seen had it counted the tasks at each instant.
The counters are 64 bits wide and do not wrap.
-/

set_option autoImplicit false
set_option relaxedAutoImplicit false
set_option linter.dupNamespace false

namespace Stackfull.Sched.SlotCache

open Stackfull.Lib
open Stackfull.Sched.Tasks (Agent)

universe u

/-- `SlotCache::kCapacity`. -/
def capacity : ℕ := 64

/-- `SlotCache::kBatch`. -/
def batch : ℕ := 32

/-- A pair of counters: that of a worker, or that of all other threads. -/
abbrev Shard (n : ℕ) := Option (Fin n)

/-- The order in which `liveTasks` reads the counters. -/
def shards (n : ℕ) : List (Shard n) :=
  none :: (List.finRange n).map some

/-- In whose hands a slot is: the free list, a cache, a call that acquires or releases it, a task
being created, a task, or a task inside `releaseTask` that is not counted as finished yet. -/
inductive Use (n : ℕ) (κ : Type u)
  | free
  | cached (worker : Fin n)
  | held (agent : Agent n κ)
  | building (agent : Agent n κ)
  | live
  | ending (agent : Agent n κ)
  deriving DecidableEq

/-- The slot is that of a task that is created and not finished. -/
def Use.isAlive {n : ℕ} {κ : Type u} : Use n κ → Bool
  | .live | .ending _ => true
  | _ => false

/-- The slot is that of a task that is alive or being created. -/
def Use.isUsed {n : ℕ} {κ : Type u} : Use n κ → Bool
  | .live | .ending _ | .building _ => true
  | _ => false

/-- How a `createTask` fails. -/
inductive Failure
  | canceled
  | unavailable
  | noStack
  | invalid
  | threw
  deriving DecidableEq

/-- Why `liveTasks` is called: by `acquireSlot`, by `releaseTask`, or for its own sake. -/
inductive Purpose
  | acquire
  | release
  | count
  deriving DecidableEq

/-- What follows a `releaseSlot`. -/
inductive After
  | failed (failure : Failure)
  | released
  deriving DecidableEq

/-- Where a thread stands, before its next access. -/
inductive Pc (n m : ℕ)
  | idle
  | checkStop
  | lockOwn
  | testOwn
  | refill
  | takeOwn
  | unlockOwn (got : Option (Fin m))
  | popFirst
  | raidLock (todo : List (Fin n))
  | raidTake (victim : Fin n) (todo : List (Fin n))
  | raidUnlock (victim : Fin n) (todo : List (Fin n)) (got : Option (Fin m))
  | popLast
  | scanFinished (todo : List (Shard n)) (finished : ℕ) (purpose : Purpose)
  | scanCreated (todo : List (Shard n)) (created finished : ℕ) (purpose : Purpose)
  | scanned (result : ℤ) (purpose : Purpose)
  | allocate (slot : Fin m)
  | carve (slot : Fin m)
  | construct (slot : Fin m)
  | register (slot : Fin m)
  | countLoad (slot : Fin m)
  | countStore (slot : Fin m) (value : ℕ)
  | dropStack (slot : Fin m) (failure : Failure)
  | dropSlot (slot : Fin m) (failure : Failure)
  | failed (failure : Failure)
  | clearTable (slot : Fin m)
  | freeStack (slot : Fin m)
  | finishLoad (slot : Fin m)
  | finishStore (slot : Fin m) (value : ℕ)
  | putLock (slot : Fin m) (after : After)
  | putTest (slot : Fin m) (after : After)
  | handBack (i : ℕ) (slot : Fin m) (after : After)
  | putStore (slot : Fin m) (after : After)
  | putUnlock (after : After)
  | putFree (slot : Fin m) (after : After)
  | checkStopping
  deriving DecidableEq

/-- The least number of live tasks since a thread's `liveTasks` began, the greatest number of tasks
alive or being created since its `acquireSlot` began, and whether no task was created or finished
since the `liveTasks` began. -/
structure Watch where
  least : ℕ
  most : ℕ
  still : Bool

/-- The free list, the caches with who locked them, the slot table, the stacks, the counters, and
where everybody stands. -/
structure State (n m : ℕ) (κ : Type u) where
  stopping : Bool
  free : List (Fin m)
  cache : Fin n → List (Fin m)
  lock : Fin n → Option (Agent n κ)
  table : Fin m → Bool
  stack : Fin m → Bool
  created : Shard n → ℕ
  finished : Shard n → ℕ
  use : Fin m → Use n κ
  pc : Agent n κ → Pc n m
  wrote : Agent n κ → Bool
  watch : Agent n κ → Watch

/-- A step: `stop` sets its flag, a thread begins a call, or goes on with it. -/
inductive Action (n m : ℕ) (κ : Type u)
  | stop
  | createTask (agent : Agent n κ)
  | releaseTask (agent : Agent n κ) (slot : Fin m)
  | liveTasks (agent : Agent n κ)
  | act (agent : Agent n κ) (flag : Bool)

variable {n m : ℕ} {κ : Type u}

/-- The constructor has pushed every slot to the free list. -/
def initial : State n m κ where
  stopping := false
  free := List.finRange m
  cache := fun _ ↦ []
  lock := fun _ ↦ none
  table := fun _ ↦ false
  stack := fun _ ↦ false
  created := fun _ ↦ 0
  finished := fun _ ↦ 0
  use := fun _ ↦ .free
  pc := fun _ ↦ .idle
  wrote := fun _ ↦ false
  watch := fun _ ↦ ⟨0, 0, false⟩

/-- Where `tryAcquireSlot` begins. -/
def tryAcquireSlot : Agent n κ → Pc n m
  | .worker _ => .lockOwn
  | .foreign _ => .popFirst

/-- Where `releaseSlot` begins. -/
def releaseSlot (slot : Fin m) (after : After) : Agent n κ → Pc n m
  | .worker _ => .putLock slot after
  | .foreign _ => .putFree slot after

/-- Where `releaseSlot` returns to. -/
def After.pc : After → Pc n m
  | .failed failure => .failed failure
  | .released => .checkStopping

namespace State

/-- The number of tasks that are created and not finished. -/
def alive (s : State n m κ) : ℕ :=
  ∑ i, (s.use i).isAlive.toNat

/-- The number of tasks that are alive or being created. -/
def used (s : State n m κ) : ℕ :=
  ∑ i, (s.use i).isUsed.toNat

variable [DecidableEq κ]

/-- Moves a thread. -/
def goto (s : State n m κ) (a : Agent n κ) (pc : Pc n m) : State n m κ :=
  { s with pc := Function.update s.pc a pc }

/-- A slot changes hands. -/
def pass (s : State n m κ) (slot : Fin m) (use : Use n κ) : State n m κ :=
  { s with use := Function.update s.use slot use }

/-- `acquireSlot` begins. -/
def startAcquire (s : State n m κ) (a : Agent n κ) : State n m κ :=
  { s with watch := Function.update s.watch a { s.watch a with most := 0 } }.goto a
    (tryAcquireSlot a)

/-- `liveTasks` begins. -/
def startScan (s : State n m κ) (a : Agent n κ) (purpose : Purpose) : State n m κ :=
  { s with
    watch := Function.update s.watch a { s.watch a with least := s.alive, still := true } }.goto a
      (.scanFinished (shards n) 0 purpose)

/-- `popFreeSlot`, and where the thread goes with a slot and without. -/
def popFree (s : State n m κ) (empty : Bool) (found : Fin m → State n m κ → State n m κ)
    (missed : State n m κ) : State n m κ :=
  match s.free with
  | [] => missed
  | slot :: rest => if empty then missed else found slot { s with free := rest }

/-- `acquireSlot` returns a slot. -/
def acquired (a : Agent n κ) (slot : Fin m) (s : State n m κ) : State n m κ :=
  (s.pass slot (.building a)).goto a (.allocate slot)

/-- A slot goes to the end of a cache. -/
def cachePush (s : State n m κ) (w : Fin n) (slot : Fin m) : State n m κ :=
  { s with cache := Function.update s.cache w (s.cache w ++ [slot]) }.pass slot (.cached w)

/-- The slot at the end of a cache goes to a thread, if there is one. -/
def cacheTake (s : State n m κ) (a : Agent n κ) (w : Fin n) (next : Option (Fin m) → Pc n m) :
    State n m κ :=
  match (s.cache w).getLast? with
  | none => s.goto a (next none)
  | some slot =>
    ({ s with cache := Function.update s.cache w (s.cache w).dropLast }.pass slot (.held a)).goto a
      (next (some slot))

/-- `pushFreeSlot`. -/
def freePush (s : State n m κ) (slot : Fin m) : State n m κ :=
  { s with free := s.free ++ [slot] }.pass slot .free

/-- `SlotCacheGuard` is constructed, if the lock is free. -/
def acquireLock (s : State n m κ) (a : Agent n κ) (w : Fin n) (pc : Pc n m) :
    Option (State n m κ) :=
  if s.lock w = none then
    some ({ s with lock := Function.update s.lock w (some a) }.goto a pc)
  else none

/-- `SlotCacheGuard` is destroyed. -/
def unlock (s : State n m κ) (w : Fin n) : State n m κ :=
  { s with lock := Function.update s.lock w none }

/-- The code a worker executes inside its own cache's lock, and around it. -/
def actOwn (s : State n m κ) (w : Fin n) (flag : Bool) : Option (State n m κ) :=
  match s.pc (.worker w) with
  | .lockOwn => s.acquireLock (.worker w) w .testOwn
  | .testOwn => some (s.goto (.worker w) (if s.cache w = [] then .refill else .takeOwn))
  | .refill =>
    some (s.popFree flag
      (fun slot s ↦ (s.cachePush w slot).goto (.worker w)
        (if (s.cache w).length + 1 < batch then .refill else .takeOwn))
      (s.goto (.worker w) .takeOwn))
  | .takeOwn => some (s.cacheTake (.worker w) w .unlockOwn)
  | .unlockOwn (some slot) => some ((s.unlock w).acquired (.worker w) slot)
  | .unlockOwn none => some ((s.unlock w).goto (.worker w) (.raidLock (List.finRange n)))
  | .countLoad slot => some (s.goto (.worker w) (.countStore slot (s.created (some w))))
  | .countStore slot value =>
    some (({ s with
      created := Function.update s.created (some w) (value + 1)
      wrote := Function.update s.wrote (.worker w) true }.pass slot .live).goto (.worker w) .idle)
  | .finishLoad slot => some (s.goto (.worker w) (.finishStore slot (s.finished (some w))))
  | .finishStore slot value =>
    some (({ s with finished := Function.update s.finished (some w) (value + 1) }.pass slot
      (.held (.worker w))).goto (.worker w) (.putLock slot .released))
  | .putLock slot after => s.acquireLock (.worker w) w (.putTest slot after)
  | .putTest slot after =>
    some (s.goto (.worker w)
      (if (s.cache w).length = capacity then .handBack 0 slot after else .putStore slot after))
  | .handBack i slot after =>
    if i < batch then
      ((s.cache w)[i]?).map fun old ↦ (s.freePush old).goto (.worker w) (.handBack (i + 1) slot after)
    else
      some ({ s with cache := Function.update s.cache w ((s.cache w).drop batch) }.goto (.worker w)
        (.putStore slot after))
  | .putStore slot after => some ((s.cachePush w slot).goto (.worker w) (.putUnlock after))
  | .putUnlock after => some ((s.unlock w).goto (.worker w) after.pc)
  | _ => none

/-- What only a thread that is not a worker executes. -/
def actForeign (s : State n m κ) (k : κ) (flag : Bool) : Option (State n m κ) :=
  match s.pc (.foreign k) with
  | .popFirst =>
    some (s.popFree flag (acquired (.foreign k)) (s.goto (.foreign k) (.raidLock (List.finRange n))))
  | .countLoad slot =>
    some (({ s with
      created := Function.update s.created none (s.created none + 1)
      wrote := Function.update s.wrote (.foreign k) true }.pass slot .live).goto (.foreign k) .idle)
  | .finishLoad slot =>
    some (({ s with finished := Function.update s.finished none (s.finished none + 1) }.pass slot
      (.held (.foreign k))).goto (.foreign k) (.putFree slot .released))
  | .putFree slot after => some ((s.freePush slot).goto (.foreign k) after.pc)
  | _ => none

/-- The next step of a thread's call. -/
def act (s : State n m κ) (a : Agent n κ) (flag : Bool) : Option (State n m κ) :=
  match s.pc a with
  | .checkStop =>
    some (if s.stopping then s.goto a (.failed .canceled) else s.startAcquire a)
  | .raidLock [] => some (s.goto a .popLast)
  | .raidLock (victim :: todo) =>
    if a = .worker victim then some (s.goto a (.raidLock todo))
    else s.acquireLock a victim (.raidTake victim todo)
  | .raidTake victim todo => some (s.cacheTake a victim (.raidUnlock victim todo))
  | .raidUnlock victim _ (some slot) => some ((s.unlock victim).acquired a slot)
  | .raidUnlock victim todo none => some ((s.unlock victim).goto a (.raidLock todo))
  | .popLast => some (s.popFree flag (acquired a) (s.startScan a .acquire))
  | .scanFinished (x :: todo) finished purpose =>
    some (s.goto a (.scanFinished todo (finished + s.finished x) purpose))
  | .scanFinished [] finished purpose => some (s.goto a (.scanCreated (shards n) 0 finished purpose))
  | .scanCreated (x :: todo) created finished purpose =>
    some (s.goto a (.scanCreated todo (created + s.created x) finished purpose))
  | .scanCreated [] created finished purpose =>
    some (s.goto a (.scanned ((created : ℤ) - finished) purpose))
  | .scanned result .acquire =>
    some (s.goto a (if (m : ℤ) ≤ result then .failed .unavailable else tryAcquireSlot a))
  | .scanned _ _ => some (s.goto a .idle)
  | .allocate slot =>
    some (if flag then s.goto a (.dropSlot slot .noStack)
      else { s with stack := Function.update s.stack slot true }.goto a (.carve slot))
  | .carve slot => some (s.goto a (if flag then .dropStack slot .invalid else .construct slot))
  | .construct slot => some (s.goto a (if flag then .dropStack slot .threw else .register slot))
  | .register slot =>
    some ({ s with
      table := Function.update s.table slot true
      wrote := Function.update s.wrote a true }.goto a (.countLoad slot))
  | .dropStack slot failure =>
    some ({ s with stack := Function.update s.stack slot false }.goto a (.dropSlot slot failure))
  | .dropSlot slot failure =>
    some ((s.pass slot (.held a)).goto a (releaseSlot slot (.failed failure) a))
  | .failed _ => some (s.goto a .idle)
  | .clearTable slot =>
    some ({ s with table := Function.update s.table slot false }.goto a (.freeStack slot))
  | .freeStack slot =>
    some ({ s with stack := Function.update s.stack slot false }.goto a (.finishLoad slot))
  | .checkStopping => some (if s.stopping then s.startScan a .release else s.goto a .idle)
  | _ =>
    match a with
    | .worker w => s.actOwn w flag
    | .foreign k => s.actForeign k flag

omit [DecidableEq κ] in
/-- Everybody's watch after a step. -/
def observe (old new : State n m κ) : State n m κ :=
  { new with
    watch := fun a ↦
      { least := min (new.watch a).least new.alive
        most := max (new.watch a).most new.used
        still := (new.watch a).still && decide (new.alive = old.alive) } }

end State

variable [DecidableEq κ]

/-- One step, before the watches are set. -/
def move (s : State n m κ) : Action n m κ → Option (State n m κ)
  | .stop => some { s with stopping := true }
  | .createTask a =>
    if s.pc a = .idle then
      some ({ s with wrote := Function.update s.wrote a false }.goto a .checkStop)
    else none
  | .releaseTask a slot =>
    if s.pc a = .idle ∧ s.use slot = .live then
      some ((s.pass slot (.ending a)).goto a (.clearTable slot))
    else none
  | .liveTasks a => if s.pc a = .idle then some (s.startScan a .count) else none
  | .act a flag => s.act a flag

/-- One step. -/
def step (s : State n m κ) (a : Action n m κ) : Option (State n m κ) :=
  (move s a).map (State.observe s)

/-- The slots of a scheduler as a step system. -/
def system (n m : ℕ) (κ : Type u) [DecidableEq κ] : System (State n m κ) (Action n m κ) where
  init s := s = initial
  step := step

end Stackfull.Sched.SlotCache
