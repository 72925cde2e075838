import Stackfull.Lib.Transition
import Stackfull.Queue.Bwos

/-!
# The work-stealing queue and its threads

The operations of `BwosQueue` that change it, interrupted anywhere: the owner's `push`, `pushBatch`,
`pop` and `popBlock`, and `steal` and `stealBlock` of any number of thieves. Every access to a
cursor that another thread writes, every store that another thread can see and every access of a
thief to an entry is one step. What only the owner writes (`committed`, `consumed`, the entries and
where its two ends are) it reads without a step. Versions are unbounded.

Entries are numbered in the order in which they are committed; the ticket of an entry is its number,
read off the cursor that an operation found. `pushed`, `popped` and `stolen` are history: the values
in the order of the stores of `committed`, and what the owner and the thieves returned, with
tickets.
-/

set_option autoImplicit false
set_option relaxedAutoImplicit false
set_option linter.dupNamespace false

namespace Stackfull.Queue.Bwos

open Stackfull.Lib

universe u v

/-- A call of the owner that may change the queue. -/
inductive Call (α : Type u)
  | push (value : α)
  | pushBatch (values : List α)
  | pop
  | popBlock

/-- The points of the owner's calls, before each step: the pushes before they write the next entry,
store `committed`, ask whether the next block may be written to, and store its `committed`, `stolen`
and `reserved`; the takers before they look at the consumer's block, exchange the next block's
`reserved` and credit its `stolen`. -/
inductive Owner (α : Type u)
  | idle (last : Option (Answer α))
  | write (batch : Bool) (index : ℕ) (written : List α) (value : α) (rest : List α) (pushed : ℕ)
  | commit (batch : Bool) (written rest : List α) (pushed : ℕ)
  | check (batch : Bool) (values : List α) (pushed : ℕ)
  | openNext (batch : Bool) (values : List α) (pushed : ℕ)
  | resetNext (batch : Bool) (values : List α) (pushed : ℕ)
  | enter (batch : Bool) (values : List α) (pushed : ℕ)
  | locate (batch : Bool) (blocks : ℕ)
  | exchange (batch : Bool) (blocks : ℕ)
  | credit (batch : Bool) (blocks previous : ℕ)
  deriving DecidableEq

/-- The points of a thief's call, before each step: before it loads `stealPosition`, `reserved` and
`committed`, exchanges `reserved`, reads the next entry and adds to `stolen`; and before it loads
the next block's `reserved` and exchanges `stealPosition`. -/
inductive Thief (α : Type u)
  | idle (last : Option (List α))
  | look (batch : Bool)
  | reserve (batch : Bool) (position : ℕ)
  | check (batch : Bool) (position reserved : ℕ)
  | claim (batch : Bool) (position reserved committed : ℕ)
  | copy (block reserved last : ℕ) (got : List α)
  | leave (block reserved : ℕ) (got : List α)
  | advance (batch : Bool) (position reserved : ℕ)
  | move (batch : Bool) (position : ℕ)
  deriving DecidableEq

/-- No call of the owner is in progress. -/
def Owner.isIdle {α : Type u} : Owner α → Bool
  | .idle _ => true
  | _ => false

/-- What a push answers that has pushed so many values. -/
def Answer.pushed {α : Type u} (batch : Bool) (pushed : ℕ) : Answer α :=
  if batch then .count pushed else .flag (0 < pushed)

/-- What a taker answers. -/
def Answer.taken {α : Type u} (batch : Bool) (got : List α) : Answer α :=
  if batch then .values got else .value got.head?

/-- The queue, and where everybody stands. -/
structure State (ι : Type v) (α : Type u) where
  queue : BwosQueue α
  owner : Owner α
  thief : ι → Thief α
  pushed : List α
  popped : List (α × ℕ)
  stolen : List (α × ℕ)

/-- The owner begins a call or goes on with it, or a thief does; an exchange may fail for no reason.
-/
inductive Action (ι : Type v) (α : Type u)
  | call (call : Call α)
  | own
  | steal (a : ι) (batch : Bool)
  | act (a : ι) (spurious : Bool)

/-- The ticket of an entry, if the version is that of a cursor. -/
def Params.ticket (p : Params) (block cursor i : ℕ) : ℕ :=
  ((p.version cursor - 1) * p.numBlocks + block) * p.entriesPerBlock + i

variable {ι : Type v} {α : Type u} (p : Params)

/-- A new queue. -/
def State.initial [Inhabited α] : State ι α where
  queue := .initial p .unbounded
  owner := .idle none
  thief := fun _ ↦ .idle none
  pushed := []
  popped := []
  stolen := []

/-! ### The owner -/

/-- The loop of a push goes on with the values that are left. -/
def Owner.fill (q : BwosQueue α) (batch : Bool) (values : List α) (pushed : ℕ) : Owner α :=
  match values with
  | [] => .idle (some (.pushed batch pushed))
  | value :: rest =>
    let index := p.index (q.committed q.producerBlock)
    if index < p.entriesPerBlock then .write batch index [] value rest pushed
    else .check batch (value :: rest) pushed

/-- The inner loop goes on as long as the block has room. -/
def Owner.afterWrite (batch : Bool) (index : ℕ) (written rest : List α) (pushed : ℕ) : Owner α :=
  match rest with
  | value :: rest' =>
    if index + 1 < p.entriesPerBlock then .write batch (index + 1) written value rest' pushed
    else .commit batch written rest pushed
  | [] => .commit batch written [] pushed

/-- The loop ends with the values, and goes on to the next block otherwise. -/
def Owner.afterCommit (batch : Bool) (rest : List α) (pushed : ℕ) : Owner α :=
  match rest with
  | [] => .idle (some (.pushed batch pushed))
  | _ => .check batch rest pushed

/-- Where a call of the owner begins. -/
def Owner.begin (q : BwosQueue α) : Call α → Owner α
  | .push value => .fill p q false [value] 0
  | .pushBatch values => .fill p q true values 0
  | .pop => .locate false (p.numBlocks + 1)
  | .popBlock => .locate true (p.numBlocks + 1)

namespace State

variable (s : State ι α)

/-- The entries of the consumer's block that the call asks for. -/
def take (batch : Bool) : State ι α :=
  let q := s.queue
  let block := q.consumerBlock
  let consumed := q.consumed block
  let last := if batch then q.committed block else PackedCursor.addIndex .unbounded consumed 1
  let got := q.copy block (p.index consumed) (p.index last)
  { s with
    queue := { q with consumed := Function.update q.consumed block last }
    owner := .idle (some (.taken batch got))
    popped := s.popped ++ got.zipIdx (p.ticket block consumed (p.index consumed)) }

/-- The owner's next step. -/
def own : Option (State ι α) :=
  let q := s.queue
  let next := p.next q.producerBlock
  let round := p.nextRound .unbounded (q.committed q.producerBlock) (isHead next)
  match s.owner with
  | .idle _ => none
  | .write batch index written value rest pushed =>
    some { s with
      queue := q.write q.producerBlock index [value]
      owner := .afterWrite p batch index (written ++ [value]) rest pushed }
  | .commit batch written rest pushed =>
    let full := PackedCursor.addIndex .unbounded (q.committed q.producerBlock) written.length
    some { s with
      queue := { q with committed := Function.update q.committed q.producerBlock full }
      owner := .afterCommit batch rest (pushed + written.length)
      pushed := s.pushed ++ written }
  | .check batch values pushed =>
    some { s with
      owner :=
        if q.isNextBlockWritable p .unbounded next (p.version round) then
          .openNext batch values pushed
        else .idle (some (.pushed batch pushed)) }
  | .openNext batch values pushed =>
    some { s with
      queue := { q with committed := Function.update q.committed next round }
      owner := .resetNext batch values pushed }
  | .resetNext batch values pushed =>
    some { s with
      queue := { q with stolen := Function.update q.stolen next round }
      owner := .enter batch values pushed }
  | .enter batch values pushed =>
    let q' : BwosQueue α := { q with
      reserved := Function.update q.reserved next round
      producerBlock := next }
    some { s with
      queue := q'
      owner := .fill p q' batch values pushed }
  | .locate batch 0 => some { s with owner := .idle (some (.taken batch [])) }
  | .locate batch (blocks + 1) =>
    let block := q.consumerBlock
    let consumed := q.consumed block
    if p.index consumed < p.entriesPerBlock then
      if p.index consumed = p.index (q.committed block) then
        some { s with owner := .idle (some (.taken batch [])) }
      else some (s.take p batch)
    else if q.consumerMayAdvance p (p.next block) consumed then
      some { s with owner := .exchange batch blocks }
    else some { s with owner := .idle (some (.taken batch [])) }
  | .exchange batch blocks =>
    let block := p.next q.consumerBlock
    let version := p.nextVersion block (q.consumed q.consumerBlock)
    some { s with
      queue := { q with
        reserved := Function.update q.reserved block
          (p.make .unbounded version p.entriesPerBlock) }
      owner := .credit batch blocks (q.reserved block) }
  | .credit batch blocks previous =>
    let block := p.next q.consumerBlock
    let claimedByThieves := min (p.index previous) p.entriesPerBlock
    some { s with
      queue := { q with
        stolen := Function.update q.stolen block
          (q.stolen block + (p.entriesPerBlock - claimedByThieves))
        consumed := Function.update q.consumed block previous
        consumerBlock := block }
      owner := .locate batch blocks }

/-! ### The thieves -/

variable [DecidableEq ι]

/-- A thief goes on. -/
def goto (a : ι) (thief : Thief α) : State ι α :=
  { s with thief := Function.update s.thief a thief }

/-- A thief's next step. -/
def act (a : ι) (spurious : Bool) : Option (State ι α) :=
  let q := s.queue
  match s.thief a with
  | .idle _ => none
  | .look batch => some (s.goto a (.reserve batch q.stealPosition))
  | .reserve batch position =>
    let reserved := q.reserved (p.block position)
    if p.index reserved < p.entriesPerBlock then some (s.goto a (.check batch position reserved))
    else some (s.goto a (.advance batch position reserved))
  | .check batch position reserved =>
    let committed := q.committed (p.block position)
    if p.index reserved = p.index committed then some (s.goto a (.idle (some [])))
    else some (s.goto a (.claim batch position reserved committed))
  | .claim batch position reserved committed =>
    let block := p.block position
    let claimed := if batch then committed else PackedCursor.addIndex .unbounded reserved 1
    if q.reserved block = reserved ∧ spurious = false then
      some ({ s with
        queue := { q with reserved := Function.update q.reserved block claimed } }.goto a
        (.copy block reserved (p.index claimed) []))
    else some (s.goto a (.look batch))
  | .copy block reserved last got =>
    let index := p.index reserved + got.length
    let got := got ++ [q.entries block index]
    if index + 1 < last then some (s.goto a (.copy block reserved last got))
    else some (s.goto a (.leave block reserved got))
  | .leave block reserved got =>
    some ({ s with
      queue := { q with
        stolen := Function.update q.stolen block (q.stolen block + got.length) }
      stolen := s.stolen ++ got.zipIdx (p.ticket block reserved (p.index reserved)) }.goto a
      (.idle (some got)))
  | .advance batch position reserved =>
    if q.thiefMayAdvance p (p.block position) reserved then some (s.goto a (.move batch position))
    else some (s.goto a (.idle (some [])))
  | .move batch position =>
    if q.stealPosition = position ∧ spurious = false then
      some ({ s with queue := { q with stealPosition := position + 1 } }.goto a (.look batch))
    else some (s.goto a (.look batch))

/-- One step. -/
def step : Action ι α → Option (State ι α)
  | .call call =>
    match s.owner with
    | .idle _ => some { s with owner := .begin p s.queue call }
    | _ => none
  | .own => s.own p
  | .steal a batch =>
    match s.thief a with
    | .idle _ => some (s.goto a (.look batch))
    | _ => none
  | .act a spurious => s.act p a spurious

end State

/-- The queue and its threads as a step system. -/
def threads (ι : Type v) (α : Type u) [DecidableEq ι] [Inhabited α] (p : Params) :
    System (State ι α) (Action ι α) where
  init := (· = .initial p)
  step := fun s action ↦ s.step p action

/-! ### What is promised -/

/-- The entries that a thief holds. -/
def Thief.Holds : Thief α → ℕ → Prop
  | .copy block reserved last _, k =>
    p.ticket block reserved (p.index reserved) ≤ k ∧ k < p.ticket block reserved last
  | .leave block reserved got, k =>
    p.ticket block reserved (p.index reserved) ≤ k ∧
      k < p.ticket block reserved (p.index reserved + got.length)
  | _, _ => False

/-- What a thief has copied. -/
def Thief.got : Thief α → List α
  | .copy _ _ _ got => got
  | .leave _ _ got => got
  | _ => []

/-- The ticket of the first entry that a thief has claimed. -/
def Thief.first : Thief α → ℕ
  | .copy block reserved _ _ => p.ticket block reserved (p.index reserved)
  | .leave block reserved _ => p.ticket block reserved (p.index reserved)
  | _ => 0

/-- A thief has copied what was pushed. -/
def Thief.Copied (pushed : List α) (thief : Thief α) : Prop :=
  ∀ j x, thief.got[j]? = some x → pushed[thief.first p + j]? = some x

/-- The tickets in a history. -/
def tickets (history : List (α × ℕ)) : List ℕ := history.map Prod.snd

namespace State

variable (s : State ι α)

/-- The value with a ticket has been returned. -/
def Returned (k : ℕ) : Prop := k ∈ tickets (s.popped ++ s.stolen)

/-- A thief has claimed the value with a ticket and not returned it yet. -/
def Copying (k : ℕ) : Prop := ∃ a, (s.thief a).Holds p k

/-- An entry is committed, and neither a thief nor the consumer has claimed it: in the block that
the consumer is in, in another one, or in the one that the consumer is about to move to. -/
def InQueue (block i : ℕ) : Prop :=
  i < p.index (s.queue.committed block) ∧
    (block = s.queue.consumerBlock ∧ p.index (s.queue.consumed block) ≤ i ∨
      p.index (s.queue.reserved block) ≤ i ∨
      block = p.next s.queue.consumerBlock ∧
        ∃ batch blocks previous, s.owner = .credit batch blocks previous ∧ p.index previous ≤ i)

/-- The value with a ticket is in the queue. -/
def Waiting (k : ℕ) : Prop :=
  ∃ block i, block < p.numBlocks ∧ s.InQueue p block i ∧
    p.ticket block (s.queue.committed block) i = k ∧
    s.pushed[k]? = some (s.queue.entries block i)

/-- What is expected of the queue. Every pushed value has been returned, by one call, or is being
copied, by one thief, or is in the queue, and nothing else is returned; the owner's pops are in the
order of the pushes; and what a thief has claimed stays in its slots until the thief has copied it,
which the owner never writes to. -/
structure Contract : Prop where
  values : ∀ x k, (x, k) ∈ s.popped ++ s.stolen → s.pushed[k]? = some x
  once : (tickets (s.popped ++ s.stolen)).Nodup
  order : (tickets s.popped).Pairwise (· < ·)
  placed : ∀ k, k < s.pushed.length ↔ s.Returned k ∨ s.Copying p k ∨ s.Waiting p k
  exclusive : ∀ k, ¬ (s.Returned k ∧ s.Copying p k) ∧ ¬ (s.Returned k ∧ s.Waiting p k) ∧
    ¬ (s.Copying p k ∧ s.Waiting p k)
  holder : ∀ a b k, (s.thief a).Holds p k → (s.thief b).Holds p k → a = b
  copied : ∀ a, (s.thief a).Copied p s.pushed
  intact : ∀ a block reserved last got j, s.thief a = .copy block reserved last got →
    p.index reserved ≤ j → j < last →
    s.pushed[p.ticket block reserved j]? = some (s.queue.entries block j)
  apart : ∀ a block reserved last got batch index written value rest pushed,
    s.thief a = .copy block reserved last got →
    s.owner = .write batch index written value rest pushed → block = s.queue.producerBlock →
    last ≤ index

end State

end Stackfull.Queue.Bwos
