import Mathlib.Data.List.Basic
import Stackfull.Lib.Transition

/-!
# Resuming and leaving coroutines

`Coroutine::resume` and `yield` (`Coroutine.h`), the switches (`Switch.h`) and the life of a
coroutine (`Lifecycle.cpp`), on any number of threads, in a build with exceptions. A context is a
thread's native one or the block of a coroutine. Bodies are arbitrary: whatever runs on a thread may
make, resume and destroy coroutines, yield, return or throw. Calls on one handle are sequenced, so
each is one step.

Where a context that does not run stands is its frame: in a call that has entered another coroutine,
or in a `yield`. The calls are numbered. The numbers and the logs of what was returned to and
switched to are history.
-/

set_option autoImplicit false
set_option relaxedAutoImplicit false
set_option linter.dupNamespace false

namespace Stackfull.Coro

open Stackfull.Lib

universe u v

/-- `CoroutineState`. -/
inductive CoroutineState
  | created
  | running
  | suspended
  | done
  deriving DecidableEq

/-- A `ContextBlock`: a thread's `mainBlock`, or the one of a coroutine. -/
inductive Context (Θ : Type u) (κ : Type v)
  | native (thread : Θ)
  | coroutine (block : κ)
  deriving DecidableEq

/-- How a call enters a coroutine: `resume()`, or the unwinding that a destructor starts. -/
inductive Entry
  | resume
  | unwind
  deriving DecidableEq

/-- Where a context stands that has switched away. -/
inductive Frame (κ : Type v)
  | call (entry : Entry) (block : κ) (number : ℕ)
  | yield
  deriving DecidableEq

/-- A block was left: the call that had entered it last, and the call that control returned to, if
that was a call that had entered this block. -/
structure Return where
  entered : ℕ
  returnedTo : Option ℕ
  deriving DecidableEq

/-- The threads and the contexts. -/
structure State (Θ : Type u) (κ : Type v) where
  current : Θ → Context Θ κ
  state : Context Θ κ → CoroutineState
  resumer : κ → Option (Context Θ κ)
  allocated : κ → Bool
  /-- An exception is parked in the block. -/
  exception : κ → Bool
  frame : Context Θ κ → Option (Frame κ)
  /-- How many calls have entered a coroutine. -/
  calls : ℕ
  /-- The number of the last one that entered the block. -/
  entered : κ → ℕ
  returns : List Return
  /-- The states in which the contexts were that were switched to. -/
  targets : List CoroutineState

/-- What a thread does. -/
inductive Move (κ : Type v)
  | make (block : κ)
  | resume (block : κ)
  | yield
  | finish (threw : Bool)
  | destroy (block : κ)

variable {Θ : Type u} {κ : Type v} [DecidableEq Θ] [DecidableEq κ]

namespace State

variable (s : State Θ κ)

/-- `makeCoroutine`. -/
def make (block : κ) : State Θ κ :=
  { s with
    state := Function.update s.state (.coroutine block) .created
    resumer := Function.update s.resumer block none
    allocated := Function.update s.allocated block true
    exception := Function.update s.exception block false
    frame := Function.update s.frame (.coroutine block) none }

/-- `prepareDeparture` and the jump. -/
def switchTo (thread : Θ) (target : Context Θ κ) (fromState : CoroutineState)
    (standing : Option (Frame κ)) : State Θ κ :=
  { s with
    current := Function.update s.current thread target
    state := Function.update (Function.update s.state (s.current thread) fromState) target .running
    frame := Function.update s.frame (s.current thread) standing
    targets := s.state target :: s.targets }

/-- A call enters a block: the caller is its resumer from now on. -/
def enter (thread : Θ) (entry : Entry) (block : κ) : State Θ κ :=
  let entering := s.switchTo thread (.coroutine block) .suspended (some (.call entry block s.calls))
  { entering with
    resumer := Function.update s.resumer block (some (s.current thread))
    frame := Function.update entering.frame (.coroutine block) none
    calls := s.calls + 1
    entered := Function.update s.entered block s.calls }

/-- `resume()`, with its checks. -/
def resume (thread : Θ) (block : κ) : Option (State Θ κ) :=
  if s.allocated block ∧ (s.state (.coroutine block) = .created ∨
      s.state (.coroutine block) = .suspended) then
    some (s.enter thread .resume block)
  else none

/-- `releaseStack`. -/
def release (block : κ) : State Θ κ := { s with allocated := Function.update s.allocated block false }

/-- What a context does when control is back in it: the end of `resume()`, which rethrows, or of
`unwindSuspended` and `destroyBlock`. -/
def arrive (target : Context Θ κ) : State Θ κ :=
  let arrived := { s with frame := Function.update s.frame target none }
  match s.frame target with
  | some (.call .resume block _) =>
    { arrived with exception := Function.update s.exception block false }
  | some (.call .unwind block _) =>
    { arrived with exception := Function.update s.exception block false }.release block
  | _ => arrived

/-- The call in which a context stands, if it is one that entered the block. -/
def callOn (target : Context Θ κ) (block : κ) : Option ℕ :=
  match s.frame target with
  | some (.call _ callee number) => if callee = block then some number else none
  | _ => none

/-- A coroutine goes back to its resumer: `yield()` and the end of `contextEntry`. -/
def leave (thread : Θ) (block : κ) (fromState : CoroutineState) (standing : Option (Frame κ)) :
    Option (State Θ κ) :=
  match s.resumer block with
  | some target =>
    let left := s.switchTo thread target fromState standing
    some ({ left with
      returns := ⟨s.entered block, s.callOn target block⟩ :: s.returns }.arrive target)
  | none => none

/-- `Coroutine::yield`. -/
def yield (thread : Θ) : Option (State Θ κ) :=
  match s.current thread with
  | .coroutine block => s.leave thread block .suspended (some .yield)
  | .native _ => none

/-- The end of a body, with what escaped from it parked in the block. -/
def finish (thread : Θ) (threw : Bool) : Option (State Θ κ) :=
  match s.current thread with
  | .coroutine block =>
    { s with exception := Function.update s.exception block threw }.leave thread block .done none
  | .native _ => none

/-- `destroyBlock`. -/
def destroy (thread : Θ) (block : κ) : Option (State Θ κ) :=
  if s.allocated block then
    match s.state (.coroutine block) with
    | .running => none
    | .suspended => some (s.enter thread .unwind block)
    | .created | .done => some (s.release block)
  else none

/-- One step of a thread. -/
def step (s : State Θ κ) : Θ × Move κ → Option (State Θ κ)
  | (_, .make block) => if s.allocated block then none else some (s.make block)
  | (thread, .resume block) => s.resume thread block
  | (thread, .yield) => s.yield thread
  | (thread, .finish threw) => s.finish thread threw
  | (thread, .destroy block) => s.destroy thread block

/-- Every thread runs its native context, and there are no coroutines. -/
def initial : State Θ κ where
  current := .native
  state
    | .native _ => .running
    | .coroutine _ => .done
  resumer _ := none
  allocated _ := false
  exception _ := false
  frame _ := none
  calls := 0
  entered _ := 0
  returns := []
  targets := []

end State

/-- The coroutine layer. -/
def system (Θ : Type u) (κ : Type v) [DecidableEq Θ] [DecidableEq κ] :
    System (State Θ κ) (Θ × Move κ) where
  init s := s = State.initial
  step := State.step

end Stackfull.Coro
