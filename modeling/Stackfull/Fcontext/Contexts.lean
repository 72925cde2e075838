import Stackfull.Fcontext.Assembly
import Stackfull.Lib.Transition

/-!
# What the switches of `fcontext` mean

The description of `make`, `jump` and `ontop` in `Fcontext.h` as a step system: a switch is one
step, there are no frames, and a context that does not run is the point where it stands. A jump
gives the context that it continues the registers with which that context left, and tells it who
jumped and with which data. The program does what it likes with its registers and its memory in
between.

Of the memory, what is known is what the program stored there. The part of a stack below the stack
pointer at a call is not known afterwards.
-/

set_option autoImplicit false
set_option relaxedAutoImplicit false
set_option linter.dupNamespace false

namespace Stackfull.Fcontext

open Stackfull.Lib

universe u v

/-- The registers that the calling convention speaks of: those that a callee keeps, the stack
pointer, where the code goes on, and those of the results and the arguments. -/
@[ext]
structure View where
  saved : Saved
  rsp : BitVec 64
  rip : BitVec 64
  rax : BitVec 64
  rdx : BitVec 64
  rdi : BitVec 64
  rsi : BitVec 64
  deriving DecidableEq

def Cpu.view (c : Cpu) : View :=
  ⟨c.saved, c.regs .rsp, c.rip, c.regs .rax, c.regs .rdx, c.regs .rdi, c.regs .rsi⟩

/-- Where a context stands that does not run: in a call that returns with these registers to this
address, or before its function, which is in `rbx`, on an empty stack with this top. -/
inductive Point
  | returns (saved : Saved) (rsp rip : BitVec 64)
  | starts (saved : Saved) (top : BitVec 64)
  deriving DecidableEq

namespace Point

variable (k : Point)

def saved : Point → Saved
  | .returns saved _ _ | .starts saved _ => saved

/-- The stack pointer to go on with. -/
def rsp : Point → BitVec 64
  | .returns _ rsp _ => rsp
  | .starts _ top => top

/-- The context is in a call. -/
def inCall : Point → Bool
  | .returns .. => true
  | .starts .. => false

/-- The `fcontext_t` by which the context is known. -/
def fctx : BitVec 64 := frameBelow k.rsp

/-- What a context sees that is jumped to: the call returns `transfer_t{sender, data}`, or the
function is called with it. -/
def transfer (sender data : BitVec 64) : Point → View
  | .returns saved rsp rip => ⟨saved, rsp, rip, sender, data, sender, data⟩
  | .starts saved top => ⟨saved, top - 8, saved.rbx, sender, data, sender, data⟩

/-- What the function of `ontop` sees: it is called from where the context stands. -/
def interrupt (function sender data : BitVec 64) : View :=
  ⟨k.saved, k.rsp - 8, function, sender, data, sender, data⟩

/-- The return address of a function that the switch calls. -/
def calledFrom (onTop : Bool) : Point → Option (BitVec 64)
  | .returns _ _ rip => if onTop then some rip else none
  | .starts saved _ => some saved.rbp

end Point

/-- A context: there is none yet, a thread runs it, or it stands somewhere. -/
inductive Stage (Θ : Type u)
  | absent
  | running (thread : Θ)
  | suspended (point : Point)
  deriving DecidableEq

/-- A switch to a context, by `jump` or `ontop`, or the making of one. -/
inductive Operation (κ : Type v)
  | switch (onTop : Bool) (target : κ)
  | make (context : κ)
  deriving DecidableEq

/-- What the program observes: the registers after an operation, and a byte of memory. -/
inductive Event (Θ : Type u) (κ : Type v)
  | sees (thread : Θ) (context : κ) (view : View)
  | loads (thread : Θ) (address : BitVec 64) (byte : BitVec 8)
  deriving DecidableEq

/-- The threads and the contexts. -/
structure Contexts (Θ : Type u) (κ : Type v) where
  view : Θ → View
  memory : PartialBytes 64
  current : Θ → κ
  stage : κ → Stage Θ

/-- A step of a thread. What `make` leaves in the registers of the new context that it does not set
is open. -/
inductive Contexts.Action (Θ : Type u) (κ : Type v)
  | compute (thread : Θ) (view : View)
  | load (thread : Θ) (address : BitVec 64) (byte : BitVec 8)
  | store (thread : Θ) (address : BitVec 64) (byte : BitVec 8)
  | call (thread : Θ) (operation : Operation κ) (returnAddress : BitVec 64) (left : Saved)

namespace Contexts

variable {Θ : Type u} {κ : Type v} [DecidableEq Θ] [DecidableEq κ] (s : Contexts Θ κ)

/-- A thread leaves its context at a call of `jump` or `ontop`, and continues another. -/
def switch (thread : Θ) (onTop : Bool) (target : κ) (k : Point) (returnAddress : BitVec 64) :
    Contexts Θ κ :=
  let self := s.view thread
  let sender := frameBelow self.rsp
  let forgotten := s.memory.forget sender 0x48
  { view := Function.update s.view thread
      (if onTop then k.interrupt self.rdx sender self.rsi else k.transfer sender self.rsi)
    memory := match k.calledFrom onTop with
      | some caller => forgotten.write (k.rsp - 8) 8 caller.toNat
      | none => forgotten
    current := Function.update s.current thread target
    stage := Function.update (Function.update s.stage (s.current thread)
      (.suspended (.returns self.saved self.rsp returnAddress))) target (.running thread) }

/-- A thread makes a context for the stack whose top it gives. The function is `rdx`. -/
def make (L : Layout) (thread : Θ) (context : κ) (returnAddress : BitVec 64) (left : Saved) :
    Contexts Θ κ :=
  let self := s.view thread
  let top := self.rdi &&& -16
  { s with
    view := Function.update s.view thread { self with rip := returnAddress, rax := frameBelow top }
    memory := (s.memory.forget (self.rsp - 8) 8).forget (frameBelow top) 0x48
    stage := Function.update s.stage context (.suspended (.starts
      { left with
        mxcsr := self.saved.mxcsr, fpucw := self.saved.fpucw, rbx := self.rdx, rbp := L.finish }
      top)) }

/-- One step. A switch needs the `fcontext_t` of the context in `rdi`, and `ontop` interrupts a
call. -/
def step (L : Layout) : Action Θ κ → Option (Contexts Θ κ)
  | .compute thread view => some { s with view := Function.update s.view thread view }
  | .load _ address byte => if ∀ known ∈ s.memory address, known = byte then some s else none
  | .store _ address byte => some { s with memory := Function.update s.memory address (some byte) }
  | .call thread (.switch onTop target) returnAddress _ =>
    match s.stage target with
    | .suspended k =>
      if (s.view thread).rdi = k.fctx ∧ (onTop → k.inCall) then
        some (s.switch thread onTop target k returnAddress)
      else none
    | _ => none
  | .call thread (.make context) returnAddress left =>
    match s.stage context with
    | .absent => some (s.make L thread context returnAddress left)
    | _ => none

/-- What a step shows. -/
def event (L : Layout) : Action Θ κ → Option (Event Θ κ)
  | .load thread address byte => some (.loads thread address byte)
  | .call thread operation returnAddress left =>
    (s.step L (.call thread operation returnAddress left)).map fun t ↦
      .sees thread (t.current thread) (t.view thread)
  | _ => none

/-- Each thread runs a context of its own. -/
def Initial : Prop :=
  (∀ thread, s.stage (s.current thread) = .running thread) ∧
    (∀ c k, s.stage c ≠ .suspended k) ∧ ∀ address, s.memory address = none

/-- The contexts of a program. -/
def system (Θ : Type u) (κ : Type v) [DecidableEq Θ] [DecidableEq κ] (L : Layout) :
    System (Contexts Θ κ) (Action Θ κ) where
  init := Initial
  step s := s.step L

end Contexts

end Stackfull.Fcontext
