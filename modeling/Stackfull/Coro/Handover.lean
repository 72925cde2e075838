import Stackfull.Coro.Resume

/-!
# Handing a thread over from one context to the next

`Switch.h` access by access. A context that leaves writes who comes next into the state of the
thread, and gives its own block along with the jump; the context that arrives learns from that
block on which thread it is, puts away what the other left in it, and runs the hook that lets others
have the block. Threads take their steps in any order.

`State` is what the code works on: blocks, the states of the threads, the exception record that the
runtime keeps for a thread, and what stands at an `fcontext_t`. A jump goes to whatever stands
there; which stack a thread is on is not decided by the blocks. `Coroutines` is the same without any
of it: a context has a thread or has none, exceptions of its own, and a switch is one step.

Who may switch to a context is history, kept for `Contract` and for the comparison. A context that
has left belongs to the thread that it left on, or with a hook to whoever takes it.
-/

set_option autoImplicit false
set_option relaxedAutoImplicit false
set_option linter.dupNamespace false

namespace Stackfull.Coro.Handover

open Stackfull.Lib

universe u v w x

/-- `EhGlobals`: the chain of caught exceptions and the number of uncaught ones. -/
structure EhGlobals where
  caughtExceptions : BitVec 64
  uncaughtExceptions : BitVec 32
  deriving DecidableEq

/-- Who may switch to a context. -/
inductive Right (Θ : Type u)
  | absent
  | running (thread : Θ)
  | held (thread : Θ)
  | free
  deriving DecidableEq

/-- The context stands somewhere. -/
def Right.Idle {Θ : Type u} : Right Θ → Prop
  | .held _ | .free => True
  | .absent | .running _ => False

/-- What the program on a thread does: the runtime changes its record of exceptions, the program
looks around, sets the hook of its block, hands contexts to other threads and takes them, makes and
destroys them, and switches. A switch saves its registers at `fctx`. -/
inductive Move (κ : Type v) (α : Type w) (H : Type x)
  | raise (exceptions : EhGlobals)
  | look
  | arm (hook : H)
  | acquire (context : κ)
  | release (context : κ)
  | make (context : κ) (fctx : α)
  | destroy (context : κ)
  | switchTo (target : κ) (onTop : Bool) (fctx : α)
  | finishAndSwitchTo (target : κ) (fctx : α)

/-- What can be observed: who the program on a thread thinks it is, on which thread, with which
exceptions; on which stack it arrives and as whom, what it is told about its thread, and whose hook
it runs; and that a thread is lost. -/
inductive Event (Θ : Type u) (κ : Type v) (H : Type x)
  | sees (thread : Θ) (stack current : κ) (on : Option Θ) (exceptions : EhGlobals)
  | arrives (thread : Θ) (stack self : κ) (on : Θ) (previous : κ) (hook : Option H)
  | lost (thread : Θ)
  deriving DecidableEq

/-! ### What the switches mean -/

/-- The threads and the contexts. -/
structure Coroutines (Θ : Type u) (κ : Type v) (H : Type x) where
  running : Θ → κ
  right : κ → Right Θ
  state : κ → CoroutineState
  exceptions : κ → EhGlobals
  hook : κ → Option H

/-- A step of a thread, where a switch is one. The context that leaves is finished, or it is not. -/
inductive Coroutines.Action (Θ : Type u) (κ : Type v) (H : Type x)
  | raise (thread : Θ) (exceptions : EhGlobals)
  | look (thread : Θ)
  | arm (thread : Θ) (hook : H)
  | acquire (thread : Θ) (context : κ)
  | release (thread : Θ) (context : κ)
  | make (thread : Θ) (context : κ)
  | destroy (thread : Θ) (context : κ)
  | switch (thread : Θ) (target : κ) (fate : CoroutineState)

/-- A context that can go on. -/
def Resumable (state : CoroutineState) : Prop := state = .created ∨ state = .suspended

instance (state : CoroutineState) : Decidable (Resumable state) :=
  inferInstanceAs (Decidable (_ ∨ _))

/-- A context whose stack has no frames to unwind. -/
def Unstarted (state : CoroutineState) : Prop := state = .created ∨ state = .done

instance (state : CoroutineState) : Decidable (Unstarted state) :=
  inferInstanceAs (Decidable (_ ∨ _))

namespace Coroutines

variable {Θ : Type u} {κ : Type v} {H : Type x} [DecidableEq Θ] [DecidableEq κ]
  (s : Coroutines Θ κ H)

/-- The running context leaves its thread to another. -/
def switch (thread : Θ) (target : κ) (fate : CoroutineState) : Coroutines Θ κ H :=
  let previous := s.running thread
  { s with
    running := Function.update s.running thread target
    right := Function.update (Function.update s.right previous
      (if (s.hook previous).isSome then .free else .held thread)) target (.running thread)
    state := Function.update (Function.update s.state previous fate) target .running
    hook := Function.update s.hook previous none }

/-- One step. -/
def step : Action Θ κ H → Option (Coroutines Θ κ H)
  | .raise thread exceptions =>
    some { s with exceptions := Function.update s.exceptions (s.running thread) exceptions }
  | .look _ => some s
  | .arm thread hook =>
    some { s with hook := Function.update s.hook (s.running thread) (some hook) }
  | .acquire thread context =>
    if s.right context = .free then
      some { s with right := Function.update s.right context (.held thread) }
    else none
  | .release thread context =>
    if s.right context = .held thread then
      some { s with right := Function.update s.right context .free }
    else none
  | .make thread context =>
    if s.right context = .absent then
      some { s with
        right := Function.update s.right context (.held thread)
        state := Function.update s.state context .created
        exceptions := Function.update s.exceptions context ⟨0, 0⟩
        hook := Function.update s.hook context none }
    else none
  | .destroy thread context =>
    if s.right context = .held thread ∧ Unstarted (s.state context) then
      some { s with right := Function.update s.right context .absent }
    else none
  | .switch thread target fate =>
    if s.right target = .held thread ∧ Resumable (s.state target) then
      some (s.switch thread target fate)
    else none

/-- What a step shows: a context is itself, on the thread that it is on, with its own exceptions. -/
def event : Action Θ κ H → Option (Event Θ κ H)
  | .look thread =>
    let c := s.running thread
    some (.sees thread c c (some thread) (s.exceptions c))
  | .switch thread target _ =>
    let previous := s.running thread
    some (.arrives thread target target thread previous (s.hook previous))
  | _ => none

/-- Each thread runs a context of its own, and there are no others. -/
def Initial : Prop :=
  (∀ thread, let c := s.running thread
    s.right c = .running thread ∧ s.hook c = none) ∧
    ∀ c, s.right c = .absent ∨ ∃ thread, c = s.running thread

/-- The contexts of a program. -/
def system (Θ : Type u) (κ : Type v) (H : Type x) [DecidableEq Θ] [DecidableEq κ] :
    System (Coroutines Θ κ H) (Action Θ κ H) where
  init := Initial
  step := step

end Coroutines

/-! ### The code -/

/-- `ContextBlock`, as far as the switches read it. -/
structure ContextBlock (Θ : Type u) (α : Type w) (H : Type x) where
  fctx : α
  thread : Option Θ
  state : CoroutineState
  postSwitch : Option H
  ehGlobals : EhGlobals

/-- What stands at an `fcontext_t`: a context about to enter `contextEntry` on its stack, or a call
of `jump` or `ontop`, with the variable `from` of `switchTo` or `finishAndSwitchTo`. -/
inductive Frame (κ : Type v)
  | entry (stack : κ)
  | call (stack fromVar : κ) (finished : Bool)

/-- A departure under way: the stack it is on, the arguments, and where the registers go. -/
structure Departure (κ : Type v) (α : Type w) where
  stack : κ
  fromBlock : κ
  target : κ
  fromState : CoroutineState
  onTop : Bool
  fctx : α

/-- The next line of a departure. -/
inductive Departing
  | current
  | fromState
  | targetState
  | jump
  deriving DecidableEq

/-- An arrival under way: the stack it is on, `self`, and `transfer`. -/
structure Arrival (κ : Type v) (α : Type w) where
  stack : κ
  self : κ
  previous : κ
  fctx : α

/-- The next line of `onArrival`, with its variables `thread` and `hook`. -/
inductive Arriving (Θ : Type u) (H : Type x)
  | save
  | adopt
  | stash (on : Θ)
  | restore (on : Θ)
  | hook (on : Θ)
  | publish (on : Θ) (hook : H)

/-- Where a thread is: in the program, in a departure, at the first line of `contextEntry` or of
`throwForcedUnwind`, or in an arrival. A thread is lost that jumps where nothing stands or returns
to a finished context. -/
inductive Control (Θ : Type u) (κ : Type v) (α : Type w) (H : Type x)
  | body (stack : κ)
  | departs (departure : Departure κ α) (line : Departing)
  | enters (stack previous : κ) (fctx : α) (fresh : Bool)
  | arrives (arrival : Arrival κ α) (line : Arriving Θ H)
  | lost

def Control.isLost {Θ : Type u} {κ : Type v} {α : Type w} {H : Type x} : Control Θ κ α H → Bool
  | .lost => true
  | _ => false

/-- The stack on which the thread runs the program. -/
def Control.stack {Θ : Type u} {κ : Type v} {α : Type w} {H : Type x} :
    Control Θ κ α H → Option κ
  | .body stack => some stack
  | _ => none

/-- The memory and the threads. -/
structure State (Θ : Type u) (κ : Type v) (α : Type w) (H : Type x) where
  block : κ → ContextBlock Θ α H
  /-- `ThreadState::current`. -/
  current : Θ → κ
  /-- What `currentEhGlobals()` refers to. -/
  live : Θ → EhGlobals
  frame : α → Option (Frame κ)
  /-- The variable `self` of `contextEntry` on a stack. -/
  entered : κ → Option κ
  control : Θ → Control Θ κ α H
  right : κ → Right Θ

/-- A step of a thread: of the program, or the next line of a switch. -/
inductive Action (Θ : Type u) (κ : Type v) (α : Type w) (H : Type x)
  | move (thread : Θ) (move : Move κ α H)
  | advance (thread : Θ)

namespace State

variable {Θ : Type u} {κ : Type v} {α : Type w} {H : Type x} [DecidableEq Θ] [DecidableEq κ]
  [DecidableEq α] (s : State Θ κ α H)

/-- Assigns to a field of a block. -/
def assign (c : κ) (f : ContextBlock Θ α H → ContextBlock Θ α H) : State Θ κ α H :=
  { s with block := Function.update s.block c (f (s.block c)) }

/-- A thread goes on elsewhere. -/
def goto (thread : Θ) (control : Control Θ κ α H) : State Θ κ α H :=
  { s with control := Function.update s.control thread control }

/-- `fcontext::jump` and `ontop`: the registers are saved, and what stands at the `fcontext_t` of
the target goes on. A function on top of a context that has not begun has nobody to throw to. -/
def jump (thread : Θ) (d : Departure κ α) : State Θ κ α H :=
  let saved := { s with
    frame := Function.update s.frame d.fctx
      (some (.call d.stack d.fromBlock (decide (d.fromState = CoroutineState.done)))) }
  match saved.frame (s.block d.target).fctx with
  | none => saved.goto thread .lost
  | some (.entry stack) =>
    if d.onTop then saved.goto thread .lost
    else saved.goto thread (.enters stack d.fromBlock d.fctx true)
  | some (.call stack fromVar finished) =>
    if d.onTop then saved.goto thread (.enters stack d.fromBlock d.fctx false)
    else if finished then saved.goto thread .lost
    else saved.goto thread (.arrives ⟨stack, fromVar, d.fromBlock, d.fctx⟩ .save)

/-- `prepareDeparture`, and the jump after it. -/
def depart (thread : Θ) (d : Departure κ α) : Departing → State Θ κ α H
  | .current =>
    match (s.block d.fromBlock).thread with
    | some on =>
      { s with current := Function.update s.current on d.target }.goto thread
        (.departs d .fromState)
    | none => s.goto thread .lost
  | .fromState =>
    (s.assign d.fromBlock fun b ↦ { b with state := d.fromState }).goto thread
      (.departs d .targetState)
  | .targetState =>
    (s.assign d.target fun b ↦ { b with state := .running }).goto thread (.departs d .jump)
  | .jump => s.jump thread d

/-- The first line of `contextEntry` and `throwForcedUnwind`: `self` is `*prev.thread->current`. -/
def enter (thread : Θ) (stack previous : κ) (fctx : α) (fresh : Bool) : State Θ κ α H :=
  match (s.block previous).thread with
  | some on =>
    let self := s.current on
    { s with
      entered := if fresh then Function.update s.entered stack (some self) else s.entered }.goto
        thread (.arrives ⟨stack, self, previous, fctx⟩ .save)
  | none => s.goto thread .lost

/-- `onArrival`. The hook lets anybody take the previous context. -/
def onArrival (thread : Θ) (a : Arrival κ α) : Arriving Θ H → State Θ κ α H
  | .save =>
    (s.assign a.previous fun b ↦ { b with fctx := a.fctx }).goto thread (.arrives a .adopt)
  | .adopt =>
    match (s.block a.previous).thread with
    | some on =>
      (s.assign a.self fun b ↦ { b with thread := some on }).goto thread (.arrives a (.stash on))
    | none => s.goto thread .lost
  | .stash on =>
    (s.assign a.previous fun b ↦ { b with ehGlobals := s.live thread }).goto thread
      (.arrives a (.restore on))
  | .restore on =>
    { s with live := Function.update s.live thread (s.block a.self).ehGlobals }.goto thread
      (.arrives a (.hook on))
  | .hook on =>
    match (s.block a.previous).postSwitch with
    | some hook =>
      (s.assign a.previous fun b ↦ { b with postSwitch := none }).goto thread
        (.arrives a (.publish on hook))
    | none =>
      { s with
        right := Function.update (Function.update s.right a.previous (.held thread)) a.self
          (.running thread) }.goto thread (.body a.stack)
  | .publish _ _ =>
    { s with
      right := Function.update (Function.update s.right a.previous .free) a.self
        (.running thread) }.goto thread (.body a.stack)

/-- What the program does. It finds out through its thread which context it is, except that
`contextEntry` remembers. -/
def move (thread : Θ) (stack : κ) : Move κ α H → Option (State Θ κ α H)
  | .raise exceptions => some { s with live := Function.update s.live thread exceptions }
  | .look => some s
  | .arm hook => some (s.assign (s.current thread) fun b ↦ { b with postSwitch := some hook })
  | .acquire context => some { s with right := Function.update s.right context (.held thread) }
  | .release context => some { s with right := Function.update s.right context .free }
  | .make context fctx =>
    some { s with
      block := Function.update s.block context ⟨fctx, none, .created, none, ⟨0, 0⟩⟩
      frame := Function.update s.frame fctx (some (.entry context))
      right := Function.update s.right context (.held thread) }
  | .destroy context => some { s with right := Function.update s.right context .absent }
  | .switchTo target onTop fctx =>
    some (s.goto thread
      (.departs ⟨stack, s.current thread, target, .suspended, onTop, fctx⟩ .current))
  | .finishAndSwitchTo target fctx =>
    (s.entered stack).map fun self ↦
      s.goto thread (.departs ⟨stack, self, target, .done, false, fctx⟩ .current)

/-- One step. -/
def step : Action Θ κ α H → Option (State Θ κ α H)
  | .move thread move =>
    match s.control thread with
    | .body stack => s.move thread stack move
    | _ => none
  | .advance thread =>
    match s.control thread with
    | .departs d line => some (s.depart thread d line)
    | .enters stack previous fctx fresh => some (s.enter thread stack previous fctx fresh)
    | .arrives a line => some (s.onArrival thread a line)
    | .body _ | .lost => none

/-- What a step shows. -/
def event : Action Θ κ α H → Option (Event Θ κ H)
  | .move thread .look =>
    match s.control thread with
    | .body stack =>
      let c := s.current thread
      some (.sees thread stack c (s.block c).thread (s.live thread))
    | _ => none
  | .move _ _ => none
  | .advance thread =>
    match s.control thread with
    | .arrives a (.hook on) =>
      if (s.block a.previous).postSwitch.isNone then
        some (.arrives thread a.stack a.self on a.previous none)
      else none
    | .arrives a (.publish on hook) =>
      some (.arrives thread a.stack a.self on a.previous (some hook))
    | _ =>
      match s.step (.advance thread) with
      | some t => if (t.control thread).isLost then some (.lost thread) else none
      | none => none

/-- **What the program promises**, where `home` says whose stack an `fcontext_t` is on: it switches
to a context that it holds and that can go on, on top of one only if that has begun; it saves
registers on its own stack; it makes contexts that there are not, and destroys those it holds that
have nothing to unwind. -/
def Contract (home : α → κ) : Action Θ κ α H → Prop
  | .move _ (.acquire context) => s.right context = .free
  | .move thread (.release context) => s.right context = .held thread
  | .move _ (.make context fctx) => s.right context = .absent ∧ home fctx = context
  | .move thread (.destroy context) =>
    s.right context = .held thread ∧ Unstarted (s.block context).state
  | .move thread (.switchTo target onTop fctx) =>
    s.right target = .held thread ∧ Resumable (s.block target).state ∧
      (onTop → (s.block target).state = .suspended) ∧
        (s.control thread).stack = some (home fctx)
  | .move thread (.finishAndSwitchTo target fctx) =>
    s.right target = .held thread ∧ Resumable (s.block target).state ∧
      (s.control thread).stack = some (home fctx)
  | _ => True

instance (home : α → κ) (a : Action Θ κ α H) : Decidable (s.Contract home a) :=
  match a with
  | .advance _ | .move _ (.raise _) | .move _ .look | .move _ (.arm _) =>
    inferInstanceAs (Decidable True)
  | .move _ (.acquire _) | .move _ (.release _) => inferInstanceAs (Decidable (_ = _))
  | .move _ (.make _ _) | .move _ (.destroy _) => inferInstanceAs (Decidable (_ ∧ _))
  | .move _ (.switchTo _ _ _) => inferInstanceAs (Decidable (_ ∧ _ ∧ (_ → _) ∧ _))
  | .move _ (.finishAndSwitchTo _ _) => inferInstanceAs (Decidable (_ ∧ _ ∧ _))

/-- Each thread runs its native context, the `mainBlock` of its `ThreadState`. -/
def Initial : Prop :=
  (∀ thread, let c := s.current thread
    s.control thread = .body c ∧ s.right c = .running thread ∧ s.entered c = none ∧
      (s.block c).thread = some thread ∧ (s.block c).state = .running ∧
      (s.block c).postSwitch = none) ∧
    ∀ c, s.right c = .absent ∨ ∃ thread, c = s.current thread

/-- A program on the switches. -/
def system (Θ : Type u) (κ : Type v) (α : Type w) (H : Type x) [DecidableEq Θ] [DecidableEq κ]
    [DecidableEq α] : System (State Θ κ α H) (Action Θ κ α H) where
  init := Initial
  step := step

end State

end Stackfull.Coro.Handover
