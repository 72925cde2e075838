import Stackfull.Lib.Regions
import Stackfull.Lib.Transition

/-!
# The pool of stacks

`PooledStackAllocator.cpp`: the caches of the threads, the shared tier, the reserve and the allocator
upstream, on any number of threads, with the thread-specific key created. A free stack holds the
node that chains it in its own last bytes, so the lists are in the memory that the stacks are made
of; a task that runs on a stack may overwrite all of it.

A step ends at an access to what the threads share: the shared tier, a section under the mutex of
the reserve, a call upstream. What these answer is part of the label. The shared tier may be full,
busy or empty at any time while calls are in progress. Upstream returns stacks of the size that it
is asked for, as `MmapStackAllocator` does for whole pages, that have no byte in common with those
it has given out and not got back. The destructor runs when no call is in progress.
-/

set_option autoImplicit false
set_option relaxedAutoImplicit false
set_option linter.dupNamespace false

namespace Stackfull.Stack

open Stackfull.Lib

universe u

/-! ### Stacks and their nodes -/

/-- `StackView`. -/
abbrev StackView : Type := Region

/-- The null pointer. -/
def null : ℕ := 0

/-- `sizeof(FreeNode)`. -/
def nodeSize : ℕ := 8

/-- `topOf`. -/
def topOf (stack : StackView) : ℕ := stack.base + stack.size

/-- `nodeOf`. -/
def nodeOf (stack : StackView) : ℕ := topOf stack - nodeSize

/-- `viewOf`. -/
def viewOf (node size : ℕ) : StackView := ⟨node + nodeSize - size, size⟩

/-- One past the largest `std::size_t`, and the end of the memory. -/
def sizeLimit : ℕ := 2 ^ 64

/-- `PooledStackOptions`, and the page size. -/
structure Options where
  maxCachedStacksPerThread : ℕ
  maxCachedBytesPerThread : ℕ
  page : ℕ
  node_fits : nodeSize ≤ page

/-- `roundUpToPage`. -/
def Options.roundUpToPage (o : Options) (bytes : ℕ) : ℕ :=
  (bytes + o.page - 1) % sizeLimit / o.page * o.page

/-! ### Size classes -/

/-- `kMaxSizeClasses`. -/
def kMaxSizeClasses : ℕ := 8

/-- `kReserveBatch`. -/
def kReserveBatch : ℕ := 32

/-- `kChunk`. -/
def kChunk : ℕ := 256

/-- `SizeClass`. The size 0 marks a class that is free. -/
structure SizeClass where
  size : ℕ
  head : ℕ
  count : ℕ

/-- `ReserveClass`. -/
structure ReserveClass extends SizeClass where
  target : ℕ

/-- A class as it is made. -/
def SizeClass.free : SizeClass := ⟨0, null, 0⟩

/-- The stack whose node is at the head. -/
def SizeClass.first (c : SizeClass) : StackView := viewOf c.head c.size

/-- A stack is put in front; its node has been written. -/
def SizeClass.push (c : SizeClass) (stack : StackView) : SizeClass :=
  { c with head := nodeOf stack, count := c.count + 1 }

/-- The first stack is taken off. -/
def SizeClass.pop (memory : ℕ → ℕ) (c : SizeClass) : SizeClass :=
  { c with head := memory c.head, count := c.count - 1 }

/-- The first class of a size: `findClass`. -/
def findClass (classes : Fin kMaxSizeClasses → SizeClass) (size : ℕ) : Option (Fin kMaxSizeClasses) :=
  (List.finRange kMaxSizeClasses).find? fun i ↦ (classes i).size = size

/-- The class of a size, or else the first free one, whose size is set by the caller:
`findOrAddClass` and `findOrAddReserve`. -/
def findOrAdd (classes : Fin kMaxSizeClasses → SizeClass) (size : ℕ) : Option (Fin kMaxSizeClasses) :=
  (findClass classes size).or (findClass classes 0)

/-- The first class that holds a stack. -/
def firstFilled (classes : Fin kMaxSizeClasses → SizeClass) : Option (Fin kMaxSizeClasses) :=
  (List.finRange kMaxSizeClasses).find? fun i ↦ (classes i).head ≠ null

/-- `ThreadCache`. -/
structure ThreadCache where
  classes : Fin kMaxSizeClasses → SizeClass
  cachedStacks : ℕ
  cachedBytes : ℕ

/-- A cache as it is made. -/
def ThreadCache.new : ThreadCache := ⟨fun _ ↦ .free, 0, 0⟩

/-- `canCache`, for a stack of this size. -/
def ThreadCache.canCache (o : Options) (cache : ThreadCache) (size : ℕ) : Prop :=
  cache.cachedStacks < o.maxCachedStacksPerThread ∧
    (cache.cachedBytes + size) % sizeLimit ≤ o.maxCachedBytesPerThread

instance (o : Options) (cache : ThreadCache) (size : ℕ) : Decidable (cache.canCache o size) :=
  inferInstanceAs (Decidable (_ ∧ _))

/-! ### The tiers -/

/-- Where the stacks are. A thread has a cache if it is registered. The last four fields are history:
what upstream has given out and not got back, all that it gave out, all that it got back, and what
callers have. -/
structure Pool (Θ : Type u) where
  memory : ℕ → ℕ
  cache : Θ → ThreadCache
  registry : List Θ
  shared : List StackView
  reserves : Fin kMaxSizeClasses → ReserveClass
  mapped : List StackView
  obtained : List StackView
  returned : List StackView
  handedOut : List StackView

namespace Pool

variable {Θ : Type u} [DecidableEq Θ] (p : Pool Θ) (thread : Θ) (i : Fin kMaxSizeClasses)

/-- The classes of the reserve, without their targets. -/
def reserveClasses : Fin kMaxSizeClasses → SizeClass := fun i ↦ (p.reserves i).toSizeClass

/-- `currentCache`: makes the thread's cache if there is none, unless that fails. -/
def currentCache (created : Bool) : Pool Θ :=
  if thread ∉ p.registry ∧ created then { p with registry := p.registry ++ [thread] } else p

/-- A class of the thread's cache changes. -/
def setClass (c : SizeClass) : Pool Θ :=
  let cache := p.cache thread
  { p with
    cache := Function.update p.cache thread
      { cache with classes := Function.update cache.classes i c } }

/-- `pushFront`. -/
def pushFront (stack : StackView) : Pool Θ :=
  let cache := p.cache thread
  { p with
    memory := Function.update p.memory (nodeOf stack) (cache.classes i).head
    cache := Function.update p.cache thread
      { classes := Function.update cache.classes i ((cache.classes i).push stack)
        cachedStacks := cache.cachedStacks + 1
        cachedBytes := (cache.cachedBytes + stack.size) % sizeLimit } }

/-- `popFront`. -/
def popFront : Pool Θ :=
  let cache := p.cache thread
  { p with
    cache := Function.update p.cache thread
      { classes := Function.update cache.classes i ((cache.classes i).pop p.memory)
        cachedStacks := cache.cachedStacks - 1
        cachedBytes := cache.cachedBytes - (cache.classes i).size } }

omit [DecidableEq Θ] in
/-- A class of the reserve changes. -/
def setReserve (c : ReserveClass) : Pool Θ := { p with reserves := Function.update p.reserves i c }

/-- `pushReserve`. -/
def pushReserve (stack : StackView) : Pool Θ :=
  { p with
    memory := Function.update p.memory (nodeOf stack) (p.reserves i).head
    reserves := Function.update p.reserves i
      { (p.reserves i) with toSizeClass := (p.reserves i).push stack } }

/-- `popReserve`. -/
def popReserve : Pool Θ :=
  p.setReserve i { (p.reserves i) with toSizeClass := (p.reserves i).pop p.memory }

/-- A stack in hand goes into the cache, if there is one that takes it. -/
def keep (o : Options) (stack : StackView) : Option (Pool Θ) :=
  if thread ∈ p.registry ∧ (p.cache thread).canCache o stack.size then
    (findOrAdd (p.cache thread).classes stack.size).map fun i ↦
      (p.setClass thread i { (p.cache thread).classes i with size := stack.size }).pushFront thread i
        stack
  else none

/-- The loop of `takeFromReserve`: a batch goes from a class of the reserve into one of the cache. -/
def refill (o : Options) (reserveClass sizeClass : Fin kMaxSizeClasses) (size : ℕ) :
    ℕ → Pool Θ → Pool Θ
  | 0, p => p
  | n + 1, p =>
    if (p.reserves reserveClass).head ≠ null ∧ (p.cache thread).canCache o size then
      refill o reserveClass sizeClass size n
        ((p.popReserve reserveClass).pushFront thread sizeClass (p.reserves reserveClass).first)
    else p

/-- `takeFromReserve`. -/
def takeFromReserve (o : Options) (size : ℕ) : Pool Θ × Option StackView :=
  match findOrAdd p.reserveClasses size with
  | none => (p, none)
  | some i =>
    let found := p.setReserve i { p.reserves i with size := size }
    if (found.reserves i).head = null then (found, none)
    else
      let out := (found.reserves i).first
      let popped := found.popReserve i
      match if thread ∈ p.registry then findOrAdd (p.cache thread).classes size else none with
      | none => (popped, some out)
      | some j =>
        let added := popped.setClass thread j { (p.cache thread).classes j with size := size }
        (refill thread o i j size (kReserveBatch - 1) added, some out)

/-- Upstream gives a stack. -/
def obtain (stack : StackView) : Pool Θ :=
  { p with mapped := stack :: p.mapped, obtained := stack :: p.obtained }

/-- `upstream.deallocate`. -/
def discard (stack : StackView) : Pool Θ :=
  { p with mapped := p.mapped.erase stack, returned := stack :: p.returned }

/-- What upstream may give when it is asked for a size. -/
def Fresh (size : ℕ) (stack : StackView) : Prop :=
  stack.size = size ∧ 0 < size ∧ 0 < stack.base ∧ topOf stack ≤ sizeLimit ∧
    ∀ other ∈ p.mapped, stack.Apart other

instance (size : ℕ) (stack : StackView) : Decidable (p.Fresh size stack) :=
  inferInstanceAs (Decidable (_ ∧ _))

/-- `upstream.allocateMany`: one fresh stack after the other. -/
def obtainMany (size : ℕ) : List StackView → Pool Θ → Option (Pool Θ)
  | [], p => some p
  | stack :: batch, p =>
    if p.Fresh size stack then obtainMany size batch (p.obtain stack) else none

end Pool

/-! ### Calls in progress -/

/-- Where a thread is in a call. The size that it was called with is `State.argument`. -/
inductive Pc
  | idle
  | scan (attempts : ℕ)
  | evict (candidate : StackView) (attempts : ℕ)
  | takeReserve
  | obtain
  | share (stack : StackView) (spins : ℕ)
  | giveReserve (stack : StackView)
  | giveUpstream (stack : StackView)
  | prewarm (missing : ℕ)
  | stow (missing wanted : ℕ) (batch : List StackView)
  | count (asked : Bool)
  | exiting
  deriving DecidableEq

/-- The stacks that a call has in hand. -/
def Pc.hand : Pc → List StackView
  | .evict stack _ | .share stack _ | .giveReserve stack | .giveUpstream stack => [stack]
  | .stow _ _ batch => batch
  | _ => []

/-- The life of the pool. -/
inductive Phase
  | live
  | destroying
  | destroyed
  deriving DecidableEq

/-- What `reserve` returned: the size it was called with, whether it has asked upstream, and the
number. -/
structure ReserveReturn where
  size : ℕ
  asked : Bool
  result : ℕ
  deriving DecidableEq

/-- The pool with the calls. The last four fields are history: who is in a call, what `allocate`
returned for which size, the sizes (rounded) and counts that were reserved, and what `reserve`
returned. -/
structure State (Θ : Type u) where
  pool : Pool Θ
  pc : Θ → Pc
  argument : Θ → ℕ
  phase : Phase
  calling : List Θ
  granted : List (ℕ × StackView)
  requests : List (ℕ × ℕ)
  reserved : List ReserveReturn

/-- What a shared object answers. -/
inductive Answer
  | done
  | busy
  | full
  | empty
  | stack (stack : StackView)
  | batch (batch : List StackView)

/-- What a thread does. `write` is a write of a byte by a task: a word that the byte belongs to may
have any value after it. -/
inductive Action
  | allocate (size : ℕ) (created : Bool)
  | deallocate (stack : StackView) (created : Bool)
  | reserve (size count : ℕ)
  | exit
  | advance (answer : Answer)
  | write (address : ℕ) (values : ℕ → ℕ)
  | destroy
  | drain (answer : Answer)

variable {Θ : Type u} [DecidableEq Θ]

namespace State

variable (o : Options) (s : State Θ) (thread : Θ)

/-- The tiers change. -/
def withPool (pool : Pool Θ) : State Θ := { s with pool := pool }

/-- The thread goes on to another place. -/
def goto (pc : Pc) : State Θ :=
  { s with
    pc := Function.update s.pc thread pc
    calling := if pc = .idle then s.calling.filter (· ≠ thread) else thread :: s.calling }

/-- `allocate` returns a stack. -/
def grant (stack : StackView) : State Θ :=
  { s with
    pool := { s.pool with handedOut := stack :: s.pool.handedOut }
    granted := (s.argument thread, stack) :: s.granted }.goto thread .idle

/-- `allocate`, up to the shared tier. -/
def allocate (size : ℕ) (created : Bool) : State Θ :=
  let pool := s.pool.currentCache thread created
  let called := { s with pool := pool, argument := Function.update s.argument thread size }
  match if thread ∈ pool.registry then
      findClass (pool.cache thread).classes (o.roundUpToPage size) else none with
  | none => called.goto thread (.scan 0)
  | some i =>
    if ((pool.cache thread).classes i).head = null then called.goto thread (.scan 0)
    else (called.withPool (pool.popFront thread i)).grant thread ((pool.cache thread).classes i).first

/-- `deallocate`, up to the shared tier. -/
def deallocate (stack : StackView) (created : Bool) : Option (State Θ) :=
  if stack.base = null then some s
  else if stack ∈ s.pool.handedOut then
    let pool := { s.pool with handedOut := s.pool.handedOut.erase stack }.currentCache thread created
    match pool.keep thread o stack with
    | some kept => some ((s.withPool kept).goto thread .idle)
    | none => some ((s.withPool pool).goto thread (.share stack 0))
  else none

/-- `reserve`, up to the end of its first section under the mutex. -/
def reserve (size count : ℕ) : State Θ :=
  let rounded := o.roundUpToPage size
  let called := { s with
    argument := Function.update s.argument thread size
    requests := (rounded, count) :: s.requests }
  match findOrAdd s.pool.reserveClasses rounded with
  | none => { called with reserved := ⟨size, false, 0⟩ :: s.reserved }
  | some i =>
    let target := max (s.pool.reserves i).target count
    let found := called.withPool
      (s.pool.setReserve i { s.pool.reserves i with size := rounded, target := target })
    if (s.pool.reserves i).count < target then
      found.goto thread (.prewarm (target - (s.pool.reserves i).count))
    else found.goto thread (.count false)

/-- The next round of `takeFromShared`, unless that was the last. -/
def rescan (attempts : ℕ) : State Θ :=
  s.goto thread (if attempts + 1 < 4 then .scan (attempts + 1) else .takeReserve)

/-- `shared.pop` in `takeFromShared`, and what is done with the stack. -/
def scan (attempts : ℕ) : Answer → Option (State Θ)
  | .empty => some (s.goto thread .takeReserve)
  | .busy => some (s.rescan thread attempts)
  | .stack candidate =>
    if candidate ∈ s.pool.shared then
      let pool := { s.pool with shared := s.pool.shared.erase candidate }
      if candidate.size = o.roundUpToPage (s.argument thread) then
        some ((s.withPool pool).grant thread candidate)
      else
        match pool.keep thread o candidate with
        | some kept => some ((s.withPool kept).rescan thread attempts)
        | none => some ((s.withPool pool).goto thread (.evict candidate attempts))
    else none
  | _ => none

/-- The part of `allocate` on the reserve. -/
def takeReserve : State Θ :=
  match s.pool.takeFromReserve thread o (o.roundUpToPage (s.argument thread)) with
  | (pool, some stack) => (s.withPool pool).grant thread stack
  | (pool, none) => (s.withPool pool).goto thread .obtain

/-- `upstream.allocate`. -/
def obtain : Answer → Option (State Θ)
  | .empty => some (s.goto thread .idle)
  | .stack stack =>
    if s.pool.Fresh (o.roundUpToPage (s.argument thread)) stack then
      some ((s.withPool (s.pool.obtain stack)).grant thread stack)
    else none
  | _ => none

/-- `shared.push` in `giveToShared`. -/
def share (stack : StackView) (spins : ℕ) : Answer → Option (State Θ)
  | .done =>
    some ((s.withPool { s.pool with shared := stack :: s.pool.shared }).goto thread .idle)
  | .full => some (s.goto thread (.giveReserve stack))
  | .busy =>
    some (s.goto thread (if spins + 1 < 8 then .share stack (spins + 1) else .giveReserve stack))
  | _ => none

/-- `giveToReserve`. -/
def giveReserve (stack : StackView) : State Θ :=
  match findClass s.pool.reserveClasses stack.size with
  | none => s.goto thread (.giveUpstream stack)
  | some i =>
    if (s.pool.reserves i).target ≤ (s.pool.reserves i).count then
      s.goto thread (.giveUpstream stack)
    else (s.withPool (s.pool.pushReserve i stack)).goto thread .idle

/-- `upstream.allocateMany` in `reserve`. -/
def prewarm (missing : ℕ) : Answer → Option (State Θ)
  | .batch batch =>
    let wanted := min missing kChunk
    if batch.length ≤ wanted then
      (s.pool.obtainMany (o.roundUpToPage (s.argument thread)) batch).map fun pool ↦
        (s.withPool pool).goto thread (.stow missing wanted batch)
    else none
  | _ => none

/-- The section of `reserve` that stores a batch. There is no step if no class is found: the code
would follow a null pointer. -/
def stow (missing wanted : ℕ) (batch : List StackView) : Option (State Θ) :=
  let size := o.roundUpToPage (s.argument thread)
  (findOrAdd s.pool.reserveClasses size).map fun i ↦
    let pool := batch.foldl (fun pool stack ↦ pool.pushReserve i stack)
      (s.pool.setReserve i { s.pool.reserves i with size := size })
    let left := missing - batch.length
    (s.withPool pool).goto thread
      (if batch.length < wanted ∨ left = 0 then .count true else .prewarm left)

/-- The last section of `reserve`. -/
def count (asked : Bool) : Option (State Θ) :=
  let size := o.roundUpToPage (s.argument thread)
  (findOrAdd s.pool.reserveClasses size).map fun i ↦
    { (s.withPool (s.pool.setReserve i { s.pool.reserves i with size := size })).goto thread .idle with
      reserved := ⟨s.argument thread, asked, (s.pool.reserves i).count⟩ :: s.reserved }

/-- `onThreadExit`: a stack of the cache goes upstream, or the cache is forgotten. -/
def exiting : State Θ :=
  match firstFilled (s.pool.cache thread).classes with
  | some i =>
    s.withPool ((s.pool.popFront thread i).discard ((s.pool.cache thread).classes i).first)
  | none =>
    (s.withPool { s.pool with
      registry := s.pool.registry.erase thread
      cache := Function.update s.pool.cache thread .new }).goto thread .idle

/-- A thread in a call goes on. -/
def advance (answer : Answer) : Option (State Θ) :=
  match s.pc thread with
  | .idle => none
  | .scan attempts => s.scan o thread attempts answer
  | .evict candidate attempts =>
    some ((s.withPool (s.pool.discard candidate)).rescan thread attempts)
  | .takeReserve => some (s.takeReserve o thread)
  | .obtain => s.obtain o thread answer
  | .share stack spins => s.share thread stack spins answer
  | .giveReserve stack => some (s.giveReserve thread stack)
  | .giveUpstream stack => some ((s.withPool (s.pool.discard stack)).goto thread .idle)
  | .prewarm missing => s.prewarm o thread missing answer
  | .stow missing wanted batch => s.stow o thread missing wanted batch
  | .count asked => s.count o thread asked
  | .exiting => some (s.exiting thread)

/-- The destructor: the caches, then the shared tier, then the reserve. -/
def drain (answer : Answer) : Option (State Θ) :=
  match s.pool.registry with
  | owner :: registry =>
    match firstFilled (s.pool.cache owner).classes with
    | some i =>
      some (s.withPool
        ((s.pool.popFront owner i).discard ((s.pool.cache owner).classes i).first))
    | none =>
      some (s.withPool { s.pool with
        registry := registry
        cache := Function.update s.pool.cache owner .new })
  | [] =>
    match answer with
    | .stack leftover =>
      if leftover ∈ s.pool.shared then
        some (s.withPool
          ({ s.pool with shared := s.pool.shared.erase leftover }.discard leftover))
      else none
    | .empty =>
      if s.pool.shared = [] then
        match firstFilled s.pool.reserveClasses with
        | some i => some (s.withPool ((s.pool.popReserve i).discard (s.pool.reserves i).first))
        | none => some { s with phase := .destroyed }
      else none
    | _ => none

/-- One step. -/
def step (s : State Θ) : Θ × Action → Option (State Θ)
  | (thread, .allocate size created) =>
    if s.phase = .live ∧ s.pc thread = .idle then some (s.allocate o thread size created) else none
  | (thread, .deallocate stack created) =>
    if s.phase = .live ∧ s.pc thread = .idle then s.deallocate o thread stack created else none
  | (thread, .reserve size count) =>
    if s.phase = .live ∧ s.pc thread = .idle then some (s.reserve o thread size count) else none
  | (thread, .exit) =>
    if s.phase = .live ∧ s.pc thread = .idle ∧ thread ∈ s.pool.registry then
      some (s.goto thread .exiting) else none
  | (thread, .advance answer) => if s.phase = .live then s.advance o thread answer else none
  | (_, .write address values) =>
    if ∃ stack ∈ s.pool.handedOut, stack.base ≤ address ∧ address < topOf stack then
      some (s.withPool { s.pool with
        memory := fun word ↦
          if word ≤ address ∧ address < word + nodeSize then values word else s.pool.memory word })
    else none
  | (_, .destroy) =>
    if s.phase = .live ∧ s.calling = [] then some { s with phase := .destroying } else none
  | (_, .drain answer) => if s.phase = .destroying then s.drain answer else none

/-- A pool as it is made. -/
def initial : State Θ where
  pool :=
    { memory := fun _ ↦ 0
      cache := fun _ ↦ .new
      registry := []
      shared := []
      reserves := fun _ ↦ { toSizeClass := .free, target := 0 }
      mapped := []
      obtained := []
      returned := []
      handedOut := [] }
  pc _ := .idle
  argument _ := 0
  phase := .live
  calling := []
  granted := []
  requests := []
  reserved := []

end State

/-- The pool and its callers. -/
def system (Θ : Type u) [DecidableEq Θ] (o : Options) : System (State Θ) (Θ × Action) where
  init s := s = State.initial
  step := State.step o

end Stackfull.Stack
