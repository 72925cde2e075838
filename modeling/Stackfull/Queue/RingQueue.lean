import Mathlib
import Stackfull.Lib.Transition

/-!
# The ring queue

`RingQueue` (`queue/include/stackfull/queue/RingQueue.h`): a ring of `Capacity` slots with counters
of `w` bits that wrap around. The owner pushes behind `tail`; the owner and any number of thieves
take from `head`, one entry or half of what they see, by copying the slots and then exchanging
`head` from where they loaded it. Every load, store and exchange of the counters and the slots is
one step. `tail` is written by the owner only, so its own loads of it are no steps.

`pushed` and `handed` are history: the values in the order of the stores of `tail`, and the batches
in the order of the successful exchanges. `loaded` is how many entries had been handed out when a
call loaded `head`, and `overlap` how many calls have overlapped the one in progress.
-/

set_option autoImplicit false
set_option relaxedAutoImplicit false
set_option linter.dupNamespace false

namespace Stackfull.Queue.Ring

open Stackfull.Lib

universe u v

/-- The template's `Capacity`, a power of two of at least 2 that fits in a counter. -/
structure Params (w : ℕ) where
  exponent : ℕ
  two_le : 1 ≤ exponent
  fits : exponent < w

/-- `kCapacity`. -/
def Params.capacity {w : ℕ} (p : Params w) : ℕ := 2 ^ p.exponent

/-- `kEntriesPerBlock`. -/
def Params.entriesPerBlock {w : ℕ} (p : Params w) : ℕ := p.capacity / 2

/-- The owner or a thief. -/
inductive Agent (ι : Type u)
  | owner
  | thief (index : ι)
  deriving DecidableEq

/-- A call: `push` and `pushBatch`, and `pop` and `steal` or `popBlock` and `stealBlock`. -/
inductive Call (α : Type v)
  | push (values : List α)
  | take (block : Bool)

/-- What a call returned: how many values were pushed, or the values that were taken. -/
inductive Result (α : Type v)
  | pushed (count : ℕ)
  | taken (values : List α)
  deriving DecidableEq

/-- The points of the calls, before each step: `push` before it loads `head`, stores the slot and
stores `tail`; the takers before they load `head`, load `tail`, read a slot and exchange `head`. -/
inductive Pc (w : ℕ) (α : Type v)
  | idle (last : Option (Result α))
  | pushHead (values : List α) (count : ℕ)
  | pushStore (value : α) (rest : List α) (count : ℕ)
  | pushTail (value : α) (rest : List α) (count : ℕ)
  | takeHead (block : Bool)
  | takeTail (block : Bool) (head : BitVec w)
  | takeRead (block : Bool) (head : BitVec w) (n : ℕ) (got : List α)
  | takeExchange (block : Bool) (head : BitVec w) (got : List α)
  deriving DecidableEq

/-- No call is in progress. -/
def Pc.isIdle {w : ℕ} {α : Type v} : Pc w α → Bool
  | .idle _ => true
  | _ => false

/-- The queue, and where everybody stands. -/
structure State (w : ℕ) (ι : Type u) (α : Type v) where
  head : BitVec w
  tail : BitVec w
  buffer : ℕ → α
  pc : Agent ι → Pc w α
  pushed : List α
  handed : List (List α)
  loaded : Agent ι → ℕ
  active : ℕ
  overlap : Agent ι → ℕ

/-- A call begins, or goes on with its next step; an exchange may fail for no reason. -/
inductive Action (ι : Type u) (α : Type v)
  | call (agent : Agent ι) (call : Call α)
  | act (agent : Agent ι) (spurious : Bool)

variable {w : ℕ} {ι : Type u} {α : Type v}

/-- An empty queue. -/
def initial [Inhabited α] : State w ι α where
  head := 0
  tail := 0
  buffer := fun _ ↦ default
  pc := fun _ ↦ .idle none
  pushed := []
  handed := []
  loaded := fun _ ↦ 0
  active := 0
  overlap := fun _ ↦ 0

/-- The slot of a counter, `counter & kMask`. -/
def Params.slot (p : Params w) (counter : BitVec w) : ℕ := counter.toNat % p.capacity

/-- How many entries a taker takes that sees `available` of them. -/
def Params.batch (p : Params w) (block : Bool) (available : ℕ) : ℕ :=
  if block then min (available - available / 2) p.entriesPerBlock else 1

namespace State

variable [DecidableEq ι]

/-- The agent goes on. -/
def goto (s : State w ι α) (a : Agent ι) (pc : Pc w α) : State w ι α :=
  { s with pc := Function.update s.pc a pc }

/-- The call returns. -/
def ret (s : State w ι α) (a : Agent ι) (result : Result α) : State w ι α :=
  { s.goto a (.idle (some result)) with active := s.active - 1 }

/-- How many entries have been handed out. -/
def taken (s : State w ι α) : ℕ := s.handed.flatten.length

/-- A call begins. Only the owner pushes. -/
def call (s : State w ι α) (a : Agent ι) (call : Call α) : Option (State w ι α) :=
  match s.pc a, call, a with
  | .idle _, .push values, .owner => some (begun (.pushHead values 0))
  | .idle _, .take block, _ => some (begun (.takeHead block))
  | _, _, _ => none
where
  /-- The call overlaps those in progress. -/
  begun (pc : Pc w α) : State w ι α :=
    { s.goto a pc with
      active := s.active + 1
      overlap := fun b ↦
        if b = a then s.active else if (s.pc b).isIdle then s.overlap b else s.overlap b + 1 }

/-- The next step of a call. -/
def act (p : Params w) (s : State w ι α) (a : Agent ι) (spurious : Bool) : Option (State w ι α) :=
  match s.pc a with
  | .idle _ => none
  | .pushHead [] count => some (s.ret a (.pushed count))
  | .pushHead (value :: rest) count =>
    if p.capacity ≤ (s.tail - s.head).toNat then some (s.ret a (.pushed count))
    else some (s.goto a (.pushStore value rest count))
  | .pushStore value rest count =>
    some ({ s with buffer := Function.update s.buffer (p.slot s.tail) value }.goto a
      (.pushTail value rest count))
  | .pushTail value rest count =>
    some ({ s with tail := s.tail + 1, pushed := s.pushed ++ [value] }.goto a
      (.pushHead rest (count + 1)))
  | .takeHead block =>
    some ({ s with loaded := Function.update s.loaded a s.taken }.goto a (.takeTail block s.head))
  | .takeTail block head =>
    if (s.tail - head).toNat = 0 then some (s.ret a (.taken []))
    else some (s.goto a (.takeRead block head (p.batch block (s.tail - head).toNat) []))
  | .takeRead block head n got =>
    let value := s.buffer (p.slot (head + BitVec.ofNat w got.length))
    if got.length + 1 < n then some (s.goto a (.takeRead block head n (got ++ [value])))
    else some (s.goto a (.takeExchange block head (got ++ [value])))
  | .takeExchange block head got =>
    if s.head = head ∧ spurious = false then
      some ({ s with
        head := head + BitVec.ofNat w got.length
        handed := s.handed ++ [got] }.ret a (.taken got))
    else some (s.goto a (.takeHead block))

/-- One step. -/
def step (p : Params w) (s : State w ι α) : Action ι α → Option (State w ι α)
  | .call a call => s.call a call
  | .act a spurious => s.act p a spurious

/-- The entries in the ring, from `head` to `tail`. -/
def ring (p : Params w) (s : State w ι α) : List α :=
  (List.range (s.tail - s.head).toNat).map fun i ↦ s.buffer (p.slot (s.head + BitVec.ofNat w i))

end State

/-- The ring queue as a step system. -/
def system (ι : Type u) (α : Type v) [DecidableEq ι] [Inhabited α] (p : Params w) :
    System (State w ι α) (Action ι α) where
  init := (· = initial)
  step := State.step p

variable [DecidableEq ι]

/-- Where the exchange of `head` is next, it has moved by fewer than `2 ^ w` entries since it was
loaded. -/
def near (s : State w ι α) : Action ι α → Bool
  | .act a _ =>
    match s.pc a with
    | .takeExchange _ _ _ => s.taken < s.loaded a + 2 ^ w
    | _ => true
  | _ => true

/-- Fewer than `2 ^ w` calls have overlapped each call in progress. -/
def FewOverlap (s : State w ι α) : Prop :=
  ∀ a, (s.pc a).isIdle = false → s.overlap a < 2 ^ w

/-- What is expected of the queue: what was handed out, in the order of the exchanges, and what is
in the ring are the values in the order in which they were pushed, the ring is never overfull, and
where an exchange of `head` can succeed the slots still hold what was copied from them. -/
structure Contract (p : Params w) (s : State w ι α) : Prop where
  once : s.handed.flatten ++ s.ring p = s.pushed
  room : (s.tail - s.head).toNat ≤ p.capacity
  fresh : ∀ a block head got, s.pc a = .takeExchange block head got → s.head = head →
    near s (.act a false : Action ι α) = true → got <+: s.ring p

end Stackfull.Queue.Ring
