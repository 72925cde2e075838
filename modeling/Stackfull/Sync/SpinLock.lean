import Stackfull.Lib.ReleaseAcquire
import Stackfull.Lib.Transition

/-!
# The lock around critical sections

`SpinLock` (`sync/SpinLock.h`) and the memory that it guards, access by access, with the memory
orders of the source: the load of `locked` is relaxed, the `exchange` acquires, the store of
`unlock` releases, and what a critical section reads and writes has no order of its own. Any number
of threads lock, try to, and run whatever `Program` they have between `lock` and `unlock`.

`Sections` is what the other modules of this development take it for: a critical section is one
step on memory that everybody sees. The yield of a thread that has spun for a while changes nothing
here.
-/

set_option autoImplicit false
set_option relaxedAutoImplicit false
set_option linter.dupNamespace false

namespace Stackfull.Sync.SpinLock

open Stackfull.Lib

universe u v x

/-- The next access of a critical section, and the local state after it. -/
inductive Access (X : Type v) (A : Type) (L : Type x)
  | read (location : X) (next : A → L)
  | write (location : X) (value : A) (next : L)
  | leave (next : L)

/-- The critical sections: what a local state does next. -/
abbrev Program (X : Type v) (A : Type) (L : Type x) := L → Access X A L

/-- What is observed: the local state after a critical section, and a `tryLock` that failed. -/
inductive Event (Θ : Type u) (L : Type x)
  | leaves (thread : Θ) (state : L)
  | refused (thread : Θ)
  deriving DecidableEq

/-! ### Critical sections as single steps -/

/-- The guarded memory, and the local states of the threads. -/
structure Sections (Θ : Type u) (X : Type v) (A : Type) (L : Type x) where
  data : X → A
  state : Θ → L

/-- A step: a thread goes on outside of critical sections, runs one of so many accesses, or is
refused. -/
inductive Sections.Action (Θ : Type u) (L : Type x)
  | compute (thread : Θ) (state : L)
  | critical (thread : Θ) (accesses : ℕ)
  | refuse (thread : Θ)

variable {Θ : Type u} {X : Type v} {A : Type} {L : Type x} [DecidableEq Θ] [DecidableEq X]

/-- One access that does not leave the section. -/
def Program.access (P : Program X A L) (state : L) (data : X → A) : Option (L × (X → A)) :=
  match P state with
  | .read location next => some (next (data location), data)
  | .write location value next => some (next, Function.update data location value)
  | .leave _ => none

/-- So many accesses. -/
def Program.accesses (P : Program X A L) : ℕ → L → (X → A) → Option (L × (X → A))
  | 0, state, data => some (state, data)
  | n + 1, state, data => (P.accesses n state data).bind fun after ↦ P.access after.1 after.2

namespace Sections

variable (P : Program X A L) (s : Sections Θ X A L)

/-- One step. -/
def step : Action Θ L → Option (Sections Θ X A L)
  | .compute thread state => some { s with state := Function.update s.state thread state }
  | .critical thread accesses =>
    match P.accesses accesses (s.state thread) s.data with
    | some (state, data) =>
      match P state with
      | .leave next => some { data := data, state := Function.update s.state thread next }
      | _ => none
    | none => none
  | .refuse _ => some s

/-- What a step shows. -/
def event : Action Θ L → Option (Event Θ L)
  | .compute _ _ => none
  | .critical thread accesses =>
    (s.step P (.critical thread accesses)).map fun t ↦ .leaves thread (t.state thread)
  | .refuse thread => some (.refused thread)

/-- Critical sections, on these values and from these local states. -/
def system (P : Program X A L) (values : X → A) (start : Θ → L) :
    System (Sections Θ X A L) (Action Θ L) where
  init s := s = ⟨values, start⟩
  step s := s.step P

end Sections

/-! ### The code -/

/-- `locked`, and what it guards. -/
inductive Cell (X : Type v)
  | locked
  | data (location : X)
  deriving DecidableEq

/-- What is in a cell. -/
abbrev Cell.Content (A : Type) : Cell X → Type
  | .locked => Bool
  | .data _ => A

/-- Where a thread is: outside, in `lock` or `tryLock` before the load or the `exchange`, or in its
critical section. -/
inductive Pc
  | outside
  | test (trying : Bool)
  | exchange (trying : Bool)
  | inside
  deriving DecidableEq

/-- The lock is taken: `tryLock` returns, and `lock` looks again. -/
def Pc.retry (trying : Bool) : Pc := if trying then .outside else .test false

/-- The memory and the threads. -/
structure State (Θ : Type u) (X : Type v) (A : Type) (L : Type x) where
  memory : ReleaseAcquire Θ (Cell X) (Cell.Content A)
  state : Θ → L
  pc : Θ → Pc

/-- A step: a thread goes on outside of critical sections, calls `lock` or `tryLock`, or makes its
next access, with the message of this time. -/
inductive Action (Θ : Type u) (L : Type x)
  | compute (thread : Θ) (state : L)
  | call (thread : Θ) (trying : Bool)
  | access (thread : Θ) (time : ℕ)

namespace State

variable (P : Program X A L) (s : State Θ X A L)

/-- A thread has made an access. -/
def go (thread : Θ) (memory : ReleaseAcquire Θ (Cell X) (Cell.Content A)) (state : L) (pc : Pc) :
    State Θ X A L :=
  ⟨memory, Function.update s.state thread state, Function.update s.pc thread pc⟩

/-- The next access of a thread. -/
def access (thread : Θ) (time : ℕ) : Option (State Θ X A L) :=
  match s.pc thread with
  | .outside => none
  | .test trying =>
    (s.memory.read thread .locked time false).map fun (locked, memory) ↦
      s.go thread memory (s.state thread) (if locked then .retry trying else .exchange trying)
  | .exchange trying =>
    (s.memory.exchange thread .locked time true true false).map fun (locked, memory) ↦
      s.go thread memory (s.state thread) (if locked then .retry trying else .inside)
  | .inside =>
    match P (s.state thread) with
    | .read location next =>
      (s.memory.read thread (.data location) time false).map fun (value, memory) ↦
        s.go thread memory (next value) .inside
    | .write location value next =>
      (s.memory.write thread (.data location) time value false).map fun memory ↦
        s.go thread memory next .inside
    | .leave next =>
      (s.memory.write thread .locked time false true).map fun memory ↦
        s.go thread memory next .outside

/-- One step. -/
def step : Action Θ L → Option (State Θ X A L)
  | .compute thread state =>
    if s.pc thread = .outside then some (s.go thread s.memory state .outside) else none
  | .call thread trying =>
    if s.pc thread = .outside then some (s.go thread s.memory (s.state thread) (.test trying))
    else none
  | .access thread time => s.access P thread time

/-- What a step shows: a thread is outside again. -/
def event : Action Θ L → Option (Event Θ L)
  | .access thread time =>
    match s.access P thread time with
    | some t =>
      if t.pc thread = .outside then
        if s.pc thread = .inside then some (.leaves thread (t.state thread))
        else some (.refused thread)
      else none
    | none => none
  | _ => none

/-- Nobody has done anything, and the lock is free. -/
def initial (values : X → A) (start : Θ → L) : State Θ X A L where
  memory := .initial fun
    | .locked => false
    | .data location => values location
  state := start
  pc _ := .outside

/-- Threads that keep the guarded memory to their critical sections. -/
def system (P : Program X A L) (values : X → A) (start : Θ → L) :
    System (State Θ X A L) (Action Θ L) where
  init s := s = initial values start
  step s := s.step P

end State

end Stackfull.Sync.SpinLock
