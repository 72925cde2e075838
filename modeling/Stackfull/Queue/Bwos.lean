import Stackfull.Lib.Loop
import Stackfull.Queue.PackedCursor

/-!
# The block-based work-stealing queue

`BwosQueue` (`queue/include/stackfull/queue/BwosQueue.h`), each operation as a function on the data
members, so one that nothing interrupts. Words are as wide as `Width` says. A weak exchange that
nothing interrupts and that fails spuriously makes the operation start over, so it is taken to
succeed; so is the exchange of `stealPosition`, which the thieves try once in each pass.

The loops without a bound (`push`, `pushBatch`, `steal`, `stealBlock`) make at most so many passes;
`apply` gives them as many as they can need.
-/

set_option autoImplicit false
set_option relaxedAutoImplicit false
set_option linter.dupNamespace false

namespace Stackfull.Queue

universe u

/-- `value - 1` in `std::size_t`. Without a width nothing is below zero. -/
def Width.pred : Width → ℕ → Option ℕ
  | .unbounded, value => if value = 0 then none else some (value - 1)
  | .bits width, value => some ((value + 2 ^ width - 1) % 2 ^ width)

theorem Width.pred_unbounded (value : ℕ) :
    Width.unbounded.pred value = if value = 0 then none else some (value - 1) :=
  rfl

namespace Bwos

open Stackfull.Lib

/-- The template parameters, with the static assertions on them. -/
structure Params where
  numBlocks : ℕ
  entriesPerBlock : ℕ
  isPowerOfTwo : ∃ k, numBlocks = 2 ^ k
  two_le_numBlocks : 2 ≤ numBlocks
  entriesPerBlock_pos : 1 ≤ entriesPerBlock

/-- `block.isHead`. -/
def isHead (block : ℕ) : Bool := block = 0

namespace Params

variable (p : Params)

/-- The index field of `Cursor`. -/
def indexBits : ℕ := bitsToHold p.entriesPerBlock

/-- The index of a cursor. -/
def index (cursor : ℕ) : ℕ := PackedCursor.index p.indexBits cursor

/-- The version of a cursor. -/
def version (cursor : ℕ) : ℕ := PackedCursor.version p.indexBits cursor

/-- `Cursor::make`. -/
def make (width : Width) (version index : ℕ) : ℕ :=
  PackedCursor.make width p.indexBits version index

/-- `nextRound`. -/
def nextRound (width : Width) (cursor : ℕ) (bump : Bool) : ℕ :=
  width.wrap (PackedCursor.nextRound p.indexBits cursor bump)

/-- `block.next`. -/
def next (block : ℕ) : ℕ := (block + 1) % p.numBlocks

/-- The block of a thief position. -/
def block (position : ℕ) : ℕ := position &&& (p.numBlocks - 1)

/-- The owner's cursors of a new queue: the head block is empty in round 1, the others are used up
in round 0. -/
def owner (width : Width) (block : ℕ) : ℕ :=
  if isHead block then p.make width 1 0 else p.make width 0 p.entriesPerBlock

/-- The thieves' cursors of a new queue: every block is fully reserved. -/
def thief (width : Width) (block : ℕ) : ℕ :=
  p.make width (if isHead block then 1 else 0) p.entriesPerBlock

/-- The version that the block after that of a cursor has in the same lap, or in the next one. -/
def nextVersion (next cursor : ℕ) : ℕ := p.version cursor + if isHead next then 1 else 0

end Params

/-- The data members: where the producer, the consumer and the thieves are, and for each block its
cursors and its entries. -/
@[ext]
structure BwosQueue (α : Type u) where
  producerBlock : ℕ
  consumerBlock : ℕ
  stealPosition : ℕ
  committed : ℕ → ℕ
  consumed : ℕ → ℕ
  reserved : ℕ → ℕ
  stolen : ℕ → ℕ
  entries : ℕ → ℕ → α

variable {α : Type u} (p : Params) (width : Width)

namespace BwosQueue

/-- The constructor. -/
def initial [Inhabited α] : BwosQueue α where
  producerBlock := 0
  consumerBlock := 0
  stealPosition := 0
  committed := p.owner width
  consumed := p.owner width
  reserved := p.thief width
  stolen := p.thief width
  entries := fun _ _ ↦ default

variable (q : BwosQueue α)

/-! ### The producer -/

/-- `isNextBlockWritable`. -/
def isNextBlockWritable (next nextVersion : ℕ) : Bool :=
  p.index (q.consumed next) = p.entriesPerBlock ∧
    width.pred nextVersion = some (p.version (q.consumed next)) ∧
    p.index (q.stolen next) = p.entriesPerBlock ∧
    width.pred nextVersion = some (p.version (q.stolen next))

/-- `advanceProducer`. -/
def advanceProducer (block committed : ℕ) : Option (BwosQueue α) :=
  let next := p.next block
  let round := p.nextRound width committed (isHead next)
  if q.isNextBlockWritable p width next (p.version round) then
    some { q with
      committed := Function.update q.committed next round
      stolen := Function.update q.stolen next round
      reserved := Function.update q.reserved next round
      producerBlock := next }
  else none

/-- Writes entries of a block from an index on. -/
def write (block index : ℕ) (values : List α) : BwosQueue α :=
  { q with entries := Function.update q.entries block (fill (q.entries block) index values) }
where
  /-- The slots with values from an index on. -/
  fill (slots : ℕ → α) (index : ℕ) : List α → ℕ → α
    | [] => slots
    | value :: rest => fill (Function.update slots index value) (index + 1) rest

/-- A pass of `push`. -/
def pushPass (value : α) : BwosQueue α ⊕ (Bool × BwosQueue α) :=
  let block := q.producerBlock
  let committed := q.committed block
  let index := p.index committed
  if index < p.entriesPerBlock then
    let q := q.write block index [value]
    .inr (true, { q with
      committed := Function.update q.committed block (PackedCursor.addIndex width committed 1) })
  else
    match q.advanceProducer p width block committed with
    | none => .inr (false, q)
    | some q => .inl q

/-- `push`. -/
def push (passes : ℕ) (value : α) : Option (Bool × BwosQueue α) :=
  loop (fun q ↦ q.pushPass p width value) passes q

/-- A pass of `pushBatch`: the values that are left, how many were pushed, and the queue. -/
def pushBatchPass : List α × ℕ × BwosQueue α → (List α × ℕ × BwosQueue α) ⊕ (ℕ × BwosQueue α)
  | ([], pushed, q) => .inr (pushed, q)
  | (values, pushed, q) =>
    let block := q.producerBlock
    let committed := q.committed block
    let index := p.index committed
    let count := min (p.entriesPerBlock - index) values.length
    let q := q.write block index (values.take count)
    let full := PackedCursor.addIndex width committed count
    let q :=
      if count = 0 then q else { q with committed := Function.update q.committed block full }
    let pushed := pushed + count
    match values.drop count with
    | [] => .inr (pushed, q)
    | rest =>
      match q.advanceProducer p width block full with
      | none => .inr (pushed, q)
      | some q => .inl (rest, pushed, q)

/-- `pushBatch`. -/
def pushBatch (passes : ℕ) (values : List α) : Option (ℕ × BwosQueue α) :=
  loop (pushBatchPass p width) passes (values, 0, q)

/-- `minRemainingSlots`. -/
def minRemainingSlots : ℕ :=
  let free := p.entriesPerBlock - p.index (q.committed q.producerBlock)
  let next := p.next q.producerBlock
  if q.isNextBlockWritable p width next (p.version (q.committed next)) then
    free + p.entriesPerBlock
  else free

/-- `hasStealable`. -/
def hasStealable : Bool :=
  q.producerBlock ≠ q.consumerBlock ∧ q.reserved q.producerBlock ≠ q.committed q.producerBlock

/-- `producerBlockHasActiveStealers`. -/
def producerBlockHasActiveStealers : Bool :=
  q.reserved q.producerBlock ≠ q.stolen q.producerBlock

/-! ### The consumer -/

/-- `consumerMayAdvance`. -/
def consumerMayAdvance (next consumed : ℕ) : Bool :=
  p.version (q.reserved next) = p.nextVersion next consumed

/-- `takeOverConsumerBlock`. -/
def takeOverConsumerBlock (next consumed : ℕ) : Option (BwosQueue α) :=
  if q.consumerMayAdvance p next consumed then
    let fullyReserved := p.make width (p.nextVersion next consumed) p.entriesPerBlock
    let previous := q.reserved next
    let claimedByThieves := min (p.index previous) p.entriesPerBlock
    some { q with
      reserved := Function.update q.reserved next fullyReserved
      stolen := Function.update q.stolen next
        (width.wrap (q.stolen next + (p.entriesPerBlock - claimedByThieves)))
      consumed := Function.update q.consumed next previous
      consumerBlock := next }
  else none

/-- `locateConsumer` with so many blocks left to visit: whether it found an entry. The block it
found it in is the consumer's. -/
def locateConsumer : ℕ → BwosQueue α → Bool × BwosQueue α
  | 0, q => (false, q)
  | blocks + 1, q =>
    let block := q.consumerBlock
    let consumed := q.consumed block
    if p.index consumed < p.entriesPerBlock then
      (p.index consumed ≠ p.index (q.committed block), q)
    else
      match q.takeOverConsumerBlock p width (p.next block) consumed with
      | none => (false, q)
      | some q => locateConsumer blocks q

/-- `pop`. -/
def pop : Option α × BwosQueue α :=
  match q.locateConsumer p width (p.numBlocks + 1) with
  | (false, q) => (none, q)
  | (true, q) =>
    let block := q.consumerBlock
    let consumed := q.consumed block
    (some (q.entries block (p.index consumed)), { q with
      consumed := Function.update q.consumed block (PackedCursor.addIndex width consumed 1) })

/-- The entries of a block from `first` up to `last`. -/
def copy (block first last : ℕ) : List α :=
  (List.range (last - first)).map fun i ↦ q.entries block (first + i)

/-- `popBlock`. -/
def popBlock : List α × BwosQueue α :=
  match q.locateConsumer p width (p.numBlocks + 1) with
  | (false, q) => ([], q)
  | (true, q) =>
    let block := q.consumerBlock
    let consumed := q.consumed block
    let committed := q.committed block
    (q.copy block (p.index consumed) (p.index committed), { q with
      consumed := Function.update q.consumed block committed })

/-- The walk of `hasEntries` with so many blocks left to visit, from a block and its `consumed`. -/
def hasEntriesFrom : ℕ → ℕ → ℕ → Bool
  | 0, _, _ => false
  | blocks + 1, block, consumed =>
    if p.index consumed < p.entriesPerBlock then
      p.index consumed ≠ p.index (q.committed block)
    else
      let next := p.next block
      if q.consumerMayAdvance p next consumed then
        if p.index (q.reserved next) < p.index (q.committed next) then true
        else if p.index (q.reserved next) < p.entriesPerBlock then false
        else hasEntriesFrom blocks next
          (p.make width (p.nextVersion next consumed) p.entriesPerBlock)
      else false

/-- `hasEntries`. -/
def hasEntries : Bool :=
  q.hasEntriesFrom p width (p.numBlocks + 1) q.consumerBlock (q.consumed q.consumerBlock)

/-! ### The thieves -/

/-- `thiefMayAdvance`. -/
def thiefMayAdvance (block reserved : ℕ) : Bool :=
  p.version (q.reserved (p.next block)) = p.nextVersion (p.next block) reserved

/-- A pass of `steal`. -/
def stealPass : BwosQueue α ⊕ (Option α × BwosQueue α) :=
  let block := p.block q.stealPosition
  let reserved := q.reserved block
  let index := p.index reserved
  if index < p.entriesPerBlock then
    if index = p.index (q.committed block) then .inr (none, q)
    else .inr (some (q.entries block index), { q with
      reserved := Function.update q.reserved block (PackedCursor.addIndex width reserved 1)
      stolen := Function.update q.stolen block (width.wrap (q.stolen block + 1)) })
  else if q.thiefMayAdvance p block reserved then
    .inl { q with stealPosition := width.wrap (q.stealPosition + 1) }
  else .inr (none, q)

/-- `steal`. -/
def steal (passes : ℕ) : Option (Option α × BwosQueue α) :=
  loop (stealPass p width) passes q

/-- A pass of `stealBlock`. -/
def stealBlockPass : BwosQueue α ⊕ (List α × BwosQueue α) :=
  let block := p.block q.stealPosition
  let reserved := q.reserved block
  let first := p.index reserved
  if first < p.entriesPerBlock then
    let committed := q.committed block
    let last := p.index committed
    if first = last then .inr ([], q)
    else .inr (q.copy block first last, { q with
      reserved := Function.update q.reserved block committed
      stolen := Function.update q.stolen block (width.wrap (q.stolen block + (last - first))) })
  else if q.thiefMayAdvance p block reserved then
    .inl { q with stealPosition := width.wrap (q.stealPosition + 1) }
  else .inr ([], q)

/-- `stealBlock`. -/
def stealBlock (passes : ℕ) : Option (List α × BwosQueue α) :=
  loop (stealBlockPass p width) passes q

/-- The scan of `isEmptyForThief` with so many blocks left to visit, from a position. -/
def isEmptyForThiefFrom : ℕ → ℕ → Bool
  | 0, _ => true
  | blocks + 1, position =>
    let block := p.block position
    let reserved := q.reserved block
    if p.index reserved < p.entriesPerBlock then
      p.index reserved = p.index (q.committed block)
    else if q.thiefMayAdvance p block reserved then
      isEmptyForThiefFrom blocks (width.wrap (position + 1))
    else true

/-- `isEmptyForThief`. -/
def isEmptyForThief : Bool :=
  q.isEmptyForThiefFrom p width (p.numBlocks + 1) q.stealPosition

end BwosQueue

/-! ### Operations -/

/-- An operation. -/
inductive Op (α : Type u)
  | push (value : α)
  | pushBatch (values : List α)
  | pop
  | popBlock
  | minRemainingSlots
  | hasStealable
  | hasEntries
  | producerBlockHasActiveStealers
  | steal
  | stealBlock
  | isEmptyForThief

/-- What an operation returns. -/
inductive Answer (α : Type u)
  | flag (yes : Bool)
  | count (n : ℕ)
  | value (out : Option α)
  | values (out : List α)
  deriving DecidableEq

/-- An operation that nothing interrupts: its answer, if it returns, and the queue after it. -/
def BwosQueue.apply (q : BwosQueue α) (op : Op α) : Option (Answer α × BwosQueue α) :=
  match op with
  | .push value => (q.push p width 2 value).map (Prod.map .flag id)
  | .pushBatch values => (q.pushBatch p width (values.length + 2) values).map (Prod.map .count id)
  | .pop => some (Prod.map .value id (q.pop p width))
  | .popBlock => some (Prod.map .values id (q.popBlock p width))
  | .minRemainingSlots => some (.count (q.minRemainingSlots p width), q)
  | .hasStealable => some (.flag q.hasStealable, q)
  | .hasEntries => some (.flag (q.hasEntries p width), q)
  | .producerBlockHasActiveStealers => some (.flag q.producerBlockHasActiveStealers, q)
  | .steal => (q.steal p width p.numBlocks).map (Prod.map .value id)
  | .stealBlock => (q.stealBlock p width p.numBlocks).map (Prod.map .values id)
  | .isEmptyForThief => some (.flag (q.isEmptyForThief p width), q)

/-- The answers of operations one after another, if all of them return. -/
def BwosQueue.answers :
    List (Op α) → BwosQueue α → Option (List (Answer α))
  | [], _ => some []
  | op :: ops, q =>
    match q.apply p width op with
    | none => none
    | some (answer, q') => (answers ops q').map (answer :: ·)

end Bwos

end Stackfull.Queue
