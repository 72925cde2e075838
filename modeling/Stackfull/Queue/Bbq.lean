import Stackfull.Lib.Transition
import Stackfull.Queue.PackedCursor
import Mathlib.Data.Finset.Card

/-!
# The block-based bounded queue

`queue/include/stackfull/queue/BbqQueue.h`, `BbqQueue::push` and `BbqQueue::pop` by any number of
threads. Every atomic access is one step, and so are the write and the read of an entry; a weak
exchange may fail spuriously, which is in the label. `atomicMax` is the load and the exchanges of
its loop (`Pc.raise`).

Words are as wide as `Width` says: all arithmetic of the code that could overflow goes through
`Width.wrap`.

`Log` is not in the code, nor are `clock`, `began` and `ticket`. The log numbers the pushes in the
order in which they got their slots and the pops in the order in which they reserved theirs, and
records which of them have returned and what. The clock counts the steps, so that it can be said
which call came before which.
-/

set_option autoImplicit false
set_option relaxedAutoImplicit false
set_option linter.dupNamespace false

namespace Stackfull.Queue.Bbq

open Stackfull.Lib

universe u v

/-- `PushStatus`. -/
inductive PushStatus
  | ok
  | full
  | busy
  deriving DecidableEq, Repr

/-- `PopStatus`. -/
inductive PopStatus
  | ok
  | empty
  | busy
  deriving DecidableEq, Repr

/-- The template parameters, with the static assertions on them. -/
structure Params where
  numBlocks : ℕ
  blockSize : ℕ
  isPowerOfTwo : ∃ k, numBlocks = 2 ^ k
  two_le_numBlocks : 2 ≤ numBlocks
  blockSize_pos : 1 ≤ blockSize

/-- `kOverflowBits`. -/
def overflowBits : ℕ := 10

/-- The index field of `Head`. -/
def Params.headBits (p : Params) : ℕ :=
  bitsToHold (p.numBlocks - 1)

/-- The index field of `Cursor`. -/
def Params.cursorBits (p : Params) : ℕ :=
  bitsToHold p.blockSize + overflowBits

/-- `kCapacity`. -/
def Params.capacity (p : Params) : ℕ :=
  (p.numBlocks - 1) * p.blockSize

/-- The block of a head. -/
def Params.block (p : Params) (head : ℕ) : ℕ :=
  PackedCursor.index p.headBits head

/-- The block after that of a head. -/
def Params.nextBlock (p : Params) (head : ℕ) : ℕ :=
  (p.block head + 1) &&& (p.numBlocks - 1)

/-- The index of a cursor. -/
def Params.index (p : Params) (cursor : ℕ) : ℕ :=
  PackedCursor.index p.cursorBits cursor

/-- The version of a cursor. -/
def Params.version (p : Params) (cursor : ℕ) : ℕ :=
  PackedCursor.version p.cursorBits cursor

/-- The version of a head. -/
def Params.headVersion (p : Params) (head : ℕ) : ℕ :=
  PackedCursor.version p.headBits head

variable {ι : Type u} {α : Type v}

/-- A call. -/
inductive Call (α : Type v)
  | push (value : α)
  | pop

/-- What a call returned. -/
inductive Result (α : Type v)
  | pushed (status : PushStatus)
  | popped (status : PopStatus) (out : Option α)
  deriving DecidableEq

/-- The words that `atomicMax` is applied to. -/
inductive Target
  | committed
  | allocated
  | producerHead
  | consumed
  | reserved
  | consumerHead
  deriving DecidableEq

/-- Where a thread stands, before its next access. -/
inductive Pc (α : Type v)
  | ready (last : Option (Result α))
  | loadHead (call : Call α)
  | peek (value : α) (head : ℕ)
  | add (value : α) (head : ℕ)
  | write (value : α) (block slot : ℕ)
  | commit (value : α) (block slot : ℕ)
  | checkConsumed (value : α) (head : ℕ)
  | checkReserved (next consumed : ℕ)
  | raise (call : Call α) (head : ℕ) (target : Target) (current : Option ℕ)
  | reserve (head : ℕ)
  | checkCommitted (head reserved : ℕ)
  | checkAllocated (head reserved committed : ℕ)
  | swap (head reserved : ℕ)
  | read (block reserved : ℕ)
  | consume (block reserved : ℕ) (out : Option α)
  | checkNext (head : ℕ)

/-- The data members: the heads, and for each block its cursors and its entries. -/
structure Queue (α : Type v) where
  producerHead : ℕ
  consumerHead : ℕ
  allocated : ℕ → ℕ
  committed : ℕ → ℕ
  reserved : ℕ → ℕ
  consumed : ℕ → ℕ
  entries : ℕ → ℕ → Option α

/-- A push that got a slot, and when its call began. -/
structure Push (ι : Type u) (α : Type v) where
  thread : ι
  value : α
  began : ℕ

/-- The pushes that got a slot, in that order; those that returned, with the time; the threads that
reserved a slot, in that order; and the reservations that returned, with their value. -/
structure Log (ι : Type u) (α : Type v) where
  pushes : List (Push ι α)
  returned : List (ℕ × ℕ)
  pops : List ι
  popped : List (ℕ × Option α)

/-- The queue, where everybody stands, and what has happened. Of the latter, `began` is the time at
which a thread's call began and `ticket` the number of the slot that it got or reserved. -/
structure State (ι : Type u) (α : Type v) where
  queue : Queue α
  pc : ι → Pc α
  inside : Finset ι
  log : Log ι α
  clock : ℕ
  began : ι → ℕ
  ticket : ι → ℕ

/-- A step: a thread begins a call or takes its next access. -/
inductive Action (ι : Type u) (α : Type v)
  | call (thread : ι) (call : Call α)
  | advance (thread : ι) (spurious : Bool)

/-- A cursor of a new block: the first is empty in round 0, the others are used up. -/
def Params.initialCursor (p : Params) (width : Width) (block : ℕ) : ℕ :=
  PackedCursor.make width p.cursorBits 0 (if block = 0 then 0 else p.blockSize)

/-- The constructor. -/
def Queue.initial (p : Params) (width : Width) : Queue α where
  producerHead := 0
  consumerHead := 0
  allocated := p.initialCursor width
  committed := p.initialCursor width
  reserved := p.initialCursor width
  consumed := p.initialCursor width
  entries := fun _ _ ↦ none

/-- A new queue that nobody uses. -/
def initial (p : Params) (width : Width) : State ι α where
  queue := .initial p width
  pc := fun _ ↦ .ready none
  inside := ∅
  log := ⟨[], [], [], []⟩
  clock := 0
  began := fun _ ↦ 0
  ticket := fun _ ↦ 0

/-- The word that `atomicMax` is applied to. -/
def Queue.word (p : Params) (q : Queue α) (head : ℕ) : Target → ℕ
  | .committed => q.committed (p.nextBlock head)
  | .allocated => q.allocated (p.nextBlock head)
  | .producerHead => q.producerHead
  | .consumed => q.consumed (p.nextBlock head)
  | .reserved => q.reserved (p.nextBlock head)
  | .consumerHead => q.consumerHead

/-- Writes the word that `atomicMax` is applied to. -/
def Queue.setWord (p : Params) (q : Queue α) (head : ℕ) (target : Target) (value : ℕ) : Queue α :=
  match target with
  | .committed => { q with committed := Function.update q.committed (p.nextBlock head) value }
  | .allocated => { q with allocated := Function.update q.allocated (p.nextBlock head) value }
  | .producerHead => { q with producerHead := value }
  | .consumed => { q with consumed := Function.update q.consumed (p.nextBlock head) value }
  | .reserved => { q with reserved := Function.update q.reserved (p.nextBlock head) value }
  | .consumerHead => { q with consumerHead := value }

/-- The value that `atomicMax` is called with: the next head, or a cursor at the start of the next
round. -/
def Params.goal (p : Params) (width : Width) (head : ℕ) : Target → ℕ
  | .producerHead => width.wrap (head + 1)
  | .consumerHead => width.wrap (head + 1)
  | _ => PackedCursor.make width p.cursorBits (width.wrap (p.headVersion head + 1)) 0

/-- What follows an `atomicMax`: the next one, or the loop begins again. -/
def Target.next (call : Call α) (head : ℕ) : Target → Pc α
  | .committed => .raise call head .allocated none
  | .allocated => .raise call head .producerHead none
  | .producerHead => .loadHead call
  | .consumed => .raise call head .reserved none
  | .reserved => .raise call head .consumerHead none
  | .consumerHead => .loadHead call

/-- The loop condition of `atomicMax`. -/
def Params.raised (p : Params) (width : Width) (call : Call α) (head : ℕ) (target : Target)
    (current : ℕ) : Pc α :=
  if current < p.goal width head target then .raise call head target (some current)
  else target.next call head

/-- The loop condition of `pop`. -/
def Params.reserving (p : Params) (head reserved : ℕ) : Pc α :=
  if p.index reserved < p.blockSize then .checkCommitted head reserved else .checkNext head

/-- A write to a slot. -/
def Queue.write (q : Queue α) (block slot : ℕ) (value : α) : Queue α :=
  { q with
    entries := Function.update q.entries block
      (Function.update (q.entries block) slot (some value)) }

/-- `allocated.fetch_add`. -/
def Queue.addAllocated (width : Width) (q : Queue α) (block : ℕ) : Queue α :=
  { q with
    allocated := Function.update q.allocated block (width.wrap (q.allocated block + 1)) }

/-- `committed.fetch_add`. -/
def Queue.addCommitted (width : Width) (q : Queue α) (block : ℕ) : Queue α :=
  { q with
    committed := Function.update q.committed block (width.wrap (q.committed block + 1)) }

/-- `consumed.fetch_add`. -/
def Queue.addConsumed (width : Width) (q : Queue α) (block : ℕ) : Queue α :=
  { q with consumed := Function.update q.consumed block (width.wrap (q.consumed block + 1)) }

/-- The exchange on `reserved` succeeds. -/
def Queue.addReserved (width : Width) (q : Queue α) (block reserved : ℕ) : Queue α :=
  { q with
    reserved := Function.update q.reserved block (PackedCursor.addIndex width reserved 1) }

namespace State

variable [DecidableEq ι]

/-- Goes on. -/
def goto (s : State ι α) (t : ι) (pc : Pc α) : State ι α :=
  { s with pc := Function.update s.pc t pc }

/-- Returns to the caller. -/
def leave (s : State ι α) (t : ι) (result : Result α) : State ι α :=
  { s with pc := Function.update s.pc t (.ready (some result)), inside := s.inside.erase t }

/-- A push got a slot. -/
def allocate (s : State ι α) (t : ι) (value : α) : State ι α :=
  { s with
    ticket := Function.update s.ticket t s.log.pushes.length
    log := { s.log with pushes := s.log.pushes ++ [⟨t, value, s.began t⟩] } }

/-- A push has written its slot. -/
def returnOk (s : State ι α) (t : ι) : State ι α :=
  { s with log := { s.log with returned := s.log.returned ++ [(s.ticket t, s.clock)] } }

/-- A pop reserves a slot. -/
def reserve (s : State ι α) (t : ι) : State ι α :=
  { s with
    ticket := Function.update s.ticket t s.log.pops.length
    log := { s.log with pops := s.log.pops ++ [t] } }

/-- A pop has read its slot. -/
def deliver (s : State ι α) (t : ι) (out : Option α) : State ι α :=
  { s with log := { s.log with popped := s.log.popped ++ [(s.ticket t, out)] } }

/-- `allocated.fetch_add` in `push`, whose result is authoritative. -/
def fetchAdd (p : Params) (width : Width) (s : State ι α) (t : ι) (value : α) (head : ℕ) :
    State ι α :=
  let slot := s.queue.allocated (p.block head)
  let added := { s with queue := s.queue.addAllocated width (p.block head) }
  if p.index slot < p.blockSize then
    (added.allocate t value).goto t (.write value (p.block head) slot)
  else added.goto t (.checkConsumed value head)

/-- The look of `push` at `consumed` of the next block. -/
def checkConsumed (p : Params) (s : State ι α) (t : ι) (value : α) (head : ℕ) : State ι α :=
  let consumed := s.queue.consumed (p.nextBlock head)
  let previousRoundLeft := p.version consumed = p.headVersion head ∧ p.index consumed = p.blockSize
  let laterRound := p.version consumed > p.headVersion head
  if ¬ previousRoundLeft ∧ ¬ laterRound then s.goto t (.checkReserved (p.nextBlock head) consumed)
  else s.goto t (.raise (.push value) head .committed none)

/-- An exchange in the loop of `atomicMax`. -/
def raise (p : Params) (width : Width) (s : State ι α) (t : ι) (call : Call α) (head : ℕ)
    (target : Target) (current : ℕ) (spurious : Bool) : State ι α :=
  if s.queue.word p head target = current ∧ spurious = false then
    { s with queue := s.queue.setWord p head target (p.goal width head target) }.goto t
      (target.next call head)
  else s.goto t (p.raised width call head target (s.queue.word p head target))

/-- The look of `pop` at `committed`. -/
def checkCommitted (p : Params) (s : State ι α) (t : ι) (head reserved : ℕ) : State ι α :=
  let committed := s.queue.committed (p.block head)
  if p.index reserved = p.index committed then s.leave t (.popped .empty none)
  else if p.index committed ≠ p.blockSize then s.goto t (.checkAllocated head reserved committed)
  else s.goto t (.swap head reserved)

/-- The exchange on `reserved` in `pop`. -/
def swap (p : Params) (width : Width) (s : State ι α) (t : ι) (head reserved : ℕ)
    (spurious : Bool) : State ι α :=
  if s.queue.reserved (p.block head) = reserved ∧ spurious = false then
    ({ s with queue := s.queue.addReserved width (p.block head) reserved }.reserve t).goto t
      (.read (p.block head) reserved)
  else s.goto t (p.reserving head (s.queue.reserved (p.block head)))

/-- The look of `pop` at `committed` of the next block. -/
def checkNext (p : Params) (width : Width) (s : State ι α) (t : ι) (head : ℕ) : State ι α :=
  if p.version (s.queue.committed (p.nextBlock head)) ≠ width.wrap (p.headVersion head + 1) then
    s.leave t (.popped .empty none)
  else s.goto t (.raise .pop head .consumed none)

/-- The next access of a thread. -/
def advance (p : Params) (width : Width) (s : State ι α) (t : ι) (spurious : Bool) :
    Option (State ι α) :=
  match s.pc t with
  | .ready _ => none
  | .loadHead (.push value) => some (s.goto t (.peek value s.queue.producerHead))
  | .loadHead .pop => some (s.goto t (.reserve s.queue.consumerHead))
  | .peek value head =>
    if p.index (s.queue.allocated (p.block head)) < p.blockSize then
      some (s.goto t (.add value head))
    else some (s.goto t (.checkConsumed value head))
  | .add value head => some (s.fetchAdd p width t value head)
  | .write value block slot =>
    some ({ s with queue := s.queue.write block (p.index slot) value }.goto t
      (.commit value block slot))
  | .commit _ block _ =>
    some (({ s with queue := s.queue.addCommitted width block }.returnOk t).leave t (.pushed .ok))
  | .checkConsumed value head => some (s.checkConsumed p t value head)
  | .checkReserved next consumed =>
    some (s.leave t (.pushed
      (if p.index (s.queue.reserved next) = p.index consumed then .full else .busy)))
  | .raise call head target none =>
    some (s.goto t (p.raised width call head target (s.queue.word p head target)))
  | .raise call head target (some current) =>
    some (s.raise p width t call head target current spurious)
  | .reserve head => some (s.goto t (p.reserving head (s.queue.reserved (p.block head))))
  | .checkCommitted head reserved => some (s.checkCommitted p t head reserved)
  | .checkAllocated head reserved committed =>
    if p.index (s.queue.allocated (p.block head)) ≠ p.index committed then
      some (s.leave t (.popped .busy none))
    else some (s.goto t (.swap head reserved))
  | .swap head reserved => some (s.swap p width t head reserved spurious)
  | .read block reserved =>
    some (s.goto t (.consume block reserved (s.queue.entries block (p.index reserved))))
  | .consume block _ out =>
    some (({ s with queue := s.queue.addConsumed width block }.deliver t out).leave t
      (.popped .ok out))
  | .checkNext head => some (s.checkNext p width t head)

/-- A thread that is in no call begins one. -/
def call (s : State ι α) (t : ι) (call : Call α) : Option (State ι α) :=
  match s.pc t with
  | .ready _ =>
    some { s with
      pc := Function.update s.pc t (.loadHead call)
      inside := insert t s.inside
      began := Function.update s.began t s.clock }
  | _ => none

/-- A step ends. -/
def tick (s : State ι α) : State ι α :=
  { s with clock := s.clock + 1 }

/-- One step. -/
def step (p : Params) (width : Width) (s : State ι α) : Action ι α → Option (State ι α)
  | .call t call => (s.call t call).map tick
  | .advance t spurious => (s.advance p width t spurious).map tick

end State

/-- The queue as a step system. -/
def system (ι : Type u) (α : Type v) [DecidableEq ι] (p : Params) (width : Width) :
    System (State ι α) (Action ι α) where
  init s := s = initial p width
  step s a := s.step p width a

end Stackfull.Queue.Bbq
