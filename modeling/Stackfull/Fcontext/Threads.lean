import Stackfull.Fcontext.Contexts

/-!
# Threads that run the assembly

Any number of threads on one memory, each with registers of its own, an instruction of one of them
at a time. Between calls of the routines a thread runs the program, which may do anything to its
registers and the memory, within `Contract`: what a program keeps to that is compiled for the System
V calling convention and uses `Fcontext.h` as it says. The frames are on the stacks of their
contexts, which do not overlap.

Which contexts there are and where they stand is history, kept for the contract and for comparison
with `Contexts`; it changes when a routine is left.
-/

set_option autoImplicit false
set_option relaxedAutoImplicit false
set_option linter.dupNamespace false

namespace Stackfull.Fcontext

open Stackfull.Lib

universe u v

/-- A call of a routine that is under way: what the caller saw, and the return address. -/
structure Pending (κ : Type v) where
  operation : Operation κ
  site : View
  returnAddress : BitVec 64

/-- The threads. -/
structure Threads (Θ : Type u) (κ : Type v) where
  cpu : Θ → Cpu
  memory : Bytes 64
  /-- What is left of the routine that the thread is in. -/
  code : Θ → List Instr
  pending : Θ → Option (Pending κ)
  current : Θ → κ
  stage : κ → Stage Θ
  /-- The thread that has begun to switch to the context, or to make it. -/
  claim : κ → Option Θ

/-- A step of a thread. -/
inductive Threads.Action (Θ : Type u) (κ : Type v)
  | compute (thread : Θ) (cpu : Cpu)
  | load (thread : Θ) (address : BitVec 64) (byte : BitVec 8)
  | store (thread : Θ) (address : BitVec 64) (byte : BitVec 8)
  | call (thread : Θ) (operation : Operation κ) (returnAddress : BitVec 64)
  | instruction (thread : Θ)

namespace Operation

variable {κ : Type v}

/-- The context that the operation is about. -/
def target : Operation κ → κ
  | .switch _ target => target
  | .make context => context

/-- The routine. -/
def routine : Operation κ → List Instr
  | .switch false _ => jumpFcontext
  | .switch true _ => ontopFcontext
  | .make _ => makeFcontext

end Operation

namespace Pending

variable {κ : Type v} (p : Pending κ)

/-- What the routine uses of the stack of the caller: the return address, and for a switch the frame
below it. -/
def own : Set (BitVec 64) :=
  match p.operation with
  | .switch _ _ => span (frameBelow p.site.rsp) 0x48
  | .make _ => span (p.site.rsp - 8) 8

/-- The frame of the context that the operation is about. -/
def other : Set (BitVec 64) :=
  match p.operation with
  | .switch _ _ => span p.site.rdi 0x48
  | .make _ => span (frameBelow (p.site.rdi &&& -16)) 0x48

def owns : Set (BitVec 64) := p.own ∪ p.other

end Pending

namespace Threads

variable {Θ : Type u} {κ : Type v} (s : Threads Θ κ)

/-- The bytes that are in use by a routine. -/
def busy : Set (BitVec 64) := {x | ∃ thread p, s.pending thread = some p ∧ x ∈ p.owns}

/-- The bytes that the program leaves alone: what a routine uses, and the frames of the contexts
that stand somewhere. -/
def guarded : Set (BitVec 64) :=
  s.busy ∪ {x | ∃ c k, s.stage c = .suspended k ∧ x ∈ span k.fctx 0x48}

variable [DecidableEq Θ] [DecidableEq κ]

/-- `call`: the return address is pushed. -/
def call (thread : Θ) (operation : Operation κ) (returnAddress : BitVec 64) : Threads Θ κ :=
  let c := s.cpu thread
  { s with
    cpu := Function.update s.cpu thread (c.set .rsp (c.regs .rsp - 8))
    memory := s.memory.write (c.regs .rsp - 8) 8 returnAddress.toNat
    code := Function.update s.code thread operation.routine
    pending := Function.update s.pending thread (some ⟨operation, c.view, returnAddress⟩)
    claim := Function.update s.claim operation.target (some thread) }

/-- A routine is left. -/
def complete (thread : Θ) : Threads Θ κ :=
  match s.pending thread with
  | some ⟨.switch _ target, site, returnAddress⟩ =>
    { s with
      pending := Function.update s.pending thread none
      current := Function.update s.current thread target
      stage := Function.update (Function.update s.stage (s.current thread)
        (.suspended (.returns site.saved site.rsp returnAddress))) target (.running thread)
      claim := Function.update s.claim target none }
  | some ⟨.make context, site, _⟩ =>
    let top := site.rdi &&& -16
    { s with
      pending := Function.update s.pending thread none
      stage := Function.update s.stage context
        (.suspended (.starts (frameAt s.memory (frameBelow top)) top))
      claim := Function.update s.claim context none }
  | none => s

/-- An instruction, with what is left of the code afterwards. -/
def execute (L : Layout) (thread : Θ) (i : Instr) (rest : List Instr) : Threads Θ κ :=
  let x := exec L i (s.cpu thread, s.memory)
  { s with
    cpu := Function.update s.cpu thread x.1
    memory := x.2
    code := Function.update s.code thread rest }

/-- An instruction of a routine. Where a routine goes at its end, there may be the trampoline, or
the program. -/
def instruction (L : Layout) (thread : Θ) : Option (Threads Θ κ) :=
  match s.code thread with
  | [] => none
  | i :: rest =>
    if rest = [] then
      if (exec L i (s.cpu thread, s.memory)).1.rip = L.trampoline then
        some (s.execute L thread i trampoline)
      else some ((s.execute L thread i []).complete thread)
    else some (s.execute L thread i rest)

/-- One step. -/
def step (L : Layout) : Action Θ κ → Option (Threads Θ κ)
  | .compute thread cpu =>
    if s.code thread = [] then some { s with cpu := Function.update s.cpu thread cpu } else none
  | .load thread address byte =>
    if s.code thread = [] ∧ s.memory address = byte then some s else none
  | .store thread address byte =>
    if s.code thread = [] then some { s with memory := Function.update s.memory address byte }
    else none
  | .call thread operation returnAddress =>
    if s.code thread = [] then some (s.call thread operation returnAddress) else none
  | .instruction thread => s.instruction L thread

/-- What a step shows. -/
def event (L : Layout) : Action Θ κ → Option (Event Θ κ)
  | .load thread address byte => some (.loads thread address byte)
  | .instruction thread =>
    match s.instruction L thread with
    | some t =>
      if t.code thread = [] then some (.sees thread (t.current thread) (t.cpu thread).view)
      else none
    | none => none
  | _ => none

/-- **What the program promises**, with a stack for each context: it leaves the frames alone; a
switch goes to a context that stands somewhere and that no other thread switches to, by its
`fcontext_t`; a context is made once; there is room on the stacks; and nobody but a frame of
`make_fcontext` returns to the trampoline. -/
def Contract (L : Layout) (stack : κ → Set (BitVec 64)) : Action Θ κ → Prop
  | .load _ address _ | .store _ address _ => address ∉ s.guarded
  | .call thread (.switch onTop target) returnAddress =>
    let c := s.cpu thread
    ∃ k, s.stage target = .suspended k ∧ s.claim target = none ∧ c.regs .rdi = k.fctx ∧
      span (frameBelow (c.regs .rsp)) 0x48 ⊆ stack (s.current thread) ∧
      returnAddress ≠ L.trampoline ∧ (onTop → k.inCall ∧ c.regs .rdx ≠ L.trampoline)
  | .call thread (.make context) returnAddress =>
    let c := s.cpu thread
    s.stage context = .absent ∧ s.claim context = none ∧
      span (frameBelow (c.regs .rdi &&& -16)) 0x48 ⊆ stack context ∧
      span (c.regs .rsp - 8) 8 ⊆ stack (s.current thread) ∧
      returnAddress ≠ L.trampoline ∧ c.regs .rdx ≠ L.trampoline
  | _ => True

/-- Each thread runs a context of its own. -/
def Initial : Prop :=
  (∀ thread, s.code thread = [] ∧ s.pending thread = none ∧
    s.stage (s.current thread) = .running thread) ∧
    ∀ c, s.claim c = none ∧ ∀ k, s.stage c ≠ .suspended k

/-- A program that runs on the assembly. -/
def system (Θ : Type u) (κ : Type v) [DecidableEq Θ] [DecidableEq κ] (L : Layout) :
    System (Threads Θ κ) (Action Θ κ) where
  init := Initial
  step s := s.step L

end Threads

end Stackfull.Fcontext
