import Stackfull.Lib.Bytes
import Stackfull.Lib.Confined

/-!
# The assembly of `fcontext`

`jump_fcontext`, `ontop_fcontext` and `make_fcontext` for x86-64
(`fcontext/asm/*_x86_64_sysv_elf_gas.S`) as lists of instructions, with the registers that they use,
on a memory of bytes. The build defines neither `BOOST_USE_TSX` nor `BOOST_CONTEXT_TLS_STACK_PROTECTOR` nor `SHADOW_STACK_SYSCALL`, and is
not one for ILP32; `endbr64` does nothing.

A frame is what `jump_fcontext` leaves below the return address of its caller: the registers that a
callee has to keep (`Saved`).
-/

set_option autoImplicit false
set_option relaxedAutoImplicit false
set_option linter.dupNamespace false

namespace Stackfull.Fcontext

open Stackfull.Lib

/-! ### The machine -/

/-- The registers that the code names. -/
inductive Reg
  | rax
  | rbx
  | rcx
  | rdx
  | rsi
  | rdi
  | rbp
  | rsp
  | r8
  | r12
  | r13
  | r14
  | r15
  deriving DecidableEq

/-- The registers of a thread, with the control words of the two floating point units. -/
@[ext]
structure Cpu where
  regs : Reg → BitVec 64
  mxcsr : BitVec 32
  fpucw : BitVec 16
  rip : BitVec 64

/-- Where the code is that a context made by `make_fcontext` runs before and after its function. -/
structure Layout where
  trampoline : BitVec 64
  finish : BitVec 64

inductive Label
  | trampoline
  | finish

def Layout.address (L : Layout) : Label → BitVec 64
  | .trampoline => L.trampoline
  | .finish => L.finish

/-- Instructions, with their operands in the order of the source. -/
inductive Instr
  | lea (disp : BitVec 64) (base dst : Reg)
  | leaLabel (label : Label) (dst : Reg)
  | mov (src dst : Reg)
  | load (disp : ℕ) (base dst : Reg)
  | store (src : Reg) (disp : ℕ) (base : Reg)
  | and (imm : BitVec 64) (dst : Reg)
  | stmxcsr (disp : ℕ) (base : Reg)
  | ldmxcsr (disp : ℕ) (base : Reg)
  | fnstcw (disp : ℕ) (base : Reg)
  | fldcw (disp : ℕ) (base : Reg)
  | push (src : Reg)
  | jmp (target : Reg)
  | ret

namespace Cpu

variable (c : Cpu)

def set (dst : Reg) (value : BitVec 64) : Cpu := { c with regs := Function.update c.regs dst value }

/-- The address of an operand in memory. -/
def address (disp : ℕ) (base : Reg) : BitVec 64 := c.regs base + BitVec.ofNat 64 disp

end Cpu

/-- What an instruction does. -/
def exec (L : Layout) : Instr → Cpu × Bytes 64 → Cpu × Bytes 64
  | .lea disp base dst, (c, m) => (c.set dst (c.regs base + disp), m)
  | .leaLabel label dst, (c, m) => (c.set dst (L.address label), m)
  | .mov src dst, (c, m) => (c.set dst (c.regs src), m)
  | .load disp base dst, (c, m) =>
    (c.set dst (BitVec.ofNat 64 (m.read (c.address disp base) 8)), m)
  | .store src disp base, (c, m) => (c, m.write (c.address disp base) 8 (c.regs src).toNat)
  | .and imm dst, (c, m) => (c.set dst (c.regs dst &&& imm), m)
  | .stmxcsr disp base, (c, m) => (c, m.write (c.address disp base) 4 c.mxcsr.toNat)
  | .ldmxcsr disp base, (c, m) =>
    ({ c with mxcsr := BitVec.ofNat 32 (m.read (c.address disp base) 4) }, m)
  | .fnstcw disp base, (c, m) => (c, m.write (c.address disp base) 2 c.fpucw.toNat)
  | .fldcw disp base, (c, m) =>
    ({ c with fpucw := BitVec.ofNat 16 (m.read (c.address disp base) 2) }, m)
  | .push src, (c, m) =>
    (c.set .rsp (c.regs .rsp - 8), m.write (c.regs .rsp - 8) 8 (c.regs src).toNat)
  | .jmp target, (c, m) => ({ c with rip := c.regs target }, m)
  | .ret, (c, m) =>
    ({ c.set .rsp (c.regs .rsp + 8) with rip := BitVec.ofNat 64 (m.read (c.regs .rsp) 8) }, m)

/-- The bytes that an instruction reads or writes. -/
def uses : Instr → Cpu → Set (BitVec 64)
  | .load disp base _, c | .store _ disp base, c => span (c.address disp base) 8
  | .stmxcsr disp base, c | .ldmxcsr disp base, c => span (c.address disp base) 4
  | .fnstcw disp base, c | .fldcw disp base, c => span (c.address disp base) 2
  | .push _, c => span (c.regs .rsp - 8) 8
  | .ret, c => span (c.regs .rsp) 8
  | _, _ => ∅

/-- The machine. -/
def machine (L : Layout) : Machine Instr Cpu (BitVec 64) (BitVec 8) where
  exec := exec L
  uses := uses
  congr i c m m' h := by
    cases i with
    | load | ldmxcsr | fldcw | ret =>
      refine ⟨?_, h⟩
      simp only [exec]
      rw [Bytes.read_congr h]
    | store | stmxcsr | fnstcw | push => exact ⟨rfl, Bytes.write_congr h⟩
    | _ => exact ⟨rfl, h⟩
  frame i c m := by
    cases i with
    | store | stmxcsr | fnstcw | push => exact Bytes.write_eqOn
    | _ => exact fun _ _ ↦ rfl

/-! ### The code -/

/-- `jump_fcontext`. -/
def jumpFcontext : List Instr :=
  [.lea (-0x40) .rsp .rsp,
    .stmxcsr 0x0 .rsp, .fnstcw 0x4 .rsp,
    .store .r12 0x10 .rsp, .store .r13 0x18 .rsp, .store .r14 0x20 .rsp,
    .store .r15 0x28 .rsp, .store .rbx 0x30 .rsp, .store .rbp 0x38 .rsp,
    .mov .rsp .rax, .mov .rdi .rsp,
    .load 0x40 .rsp .r8,
    .ldmxcsr 0x0 .rsp, .fldcw 0x4 .rsp,
    .load 0x10 .rsp .r12, .load 0x18 .rsp .r13, .load 0x20 .rsp .r14,
    .load 0x28 .rsp .r15, .load 0x30 .rsp .rbx, .load 0x38 .rsp .rbp,
    .lea 0x48 .rsp .rsp,
    .mov .rsi .rdx, .mov .rax .rdi,
    .jmp .r8]

/-- `ontop_fcontext`. -/
def ontopFcontext : List Instr :=
  [.mov .rdx .r8,
    .lea (-0x40) .rsp .rsp,
    .stmxcsr 0x0 .rsp, .fnstcw 0x4 .rsp,
    .store .r12 0x10 .rsp, .store .r13 0x18 .rsp, .store .r14 0x20 .rsp,
    .store .r15 0x28 .rsp, .store .rbx 0x30 .rsp, .store .rbp 0x38 .rsp,
    .mov .rsp .rax, .mov .rdi .rsp,
    .ldmxcsr 0x0 .rsp, .fldcw 0x4 .rsp,
    .load 0x10 .rsp .r12, .load 0x18 .rsp .r13, .load 0x20 .rsp .r14,
    .load 0x28 .rsp .r15, .load 0x30 .rsp .rbx, .load 0x38 .rsp .rbp,
    .lea 0x40 .rsp .rsp,
    .mov .rsi .rdx, .mov .rax .rdi,
    .jmp .r8]

/-- `make_fcontext`. -/
def makeFcontext : List Instr :=
  [.mov .rdi .rax, .and (-16) .rax, .lea (-0x48) .rax .rax,
    .store .rdx 0x30 .rax,
    .stmxcsr 0x0 .rax, .fnstcw 0x4 .rax,
    .leaLabel .trampoline .rcx, .store .rcx 0x40 .rax,
    .leaLabel .finish .rcx, .store .rcx 0x38 .rax,
    .ret]

/-- `trampoline`. -/
def trampoline : List Instr := [.push .rbp, .jmp .rbx]

/-! ### Frames -/

/-- What a callee keeps for its caller. -/
@[ext]
structure Saved where
  mxcsr : BitVec 32
  fpucw : BitVec 16
  r12 : BitVec 64
  r13 : BitVec 64
  r14 : BitVec 64
  r15 : BitVec 64
  rbx : BitVec 64
  rbp : BitVec 64
  deriving DecidableEq

def Cpu.saved (c : Cpu) : Saved :=
  ⟨c.mxcsr, c.fpucw, c.regs .r12, c.regs .r13, c.regs .r14, c.regs .r15, c.regs .rbx, c.regs .rbp⟩

/-- A word of the frame. -/
def word (m : Bytes 64) (frame : BitVec 64) (disp : ℕ) : BitVec 64 :=
  BitVec.ofNat 64 (m.read (frame + BitVec.ofNat 64 disp) 8)

/-- What a frame holds. -/
def frameAt (m : Bytes 64) (frame : BitVec 64) : Saved where
  mxcsr := BitVec.ofNat 32 (m.read (frame + BitVec.ofNat 64 0x0) 4)
  fpucw := BitVec.ofNat 16 (m.read (frame + BitVec.ofNat 64 0x4) 2)
  r12 := word m frame 0x10
  r13 := word m frame 0x18
  r14 := word m frame 0x20
  r15 := word m frame 0x28
  rbx := word m frame 0x30
  rbp := word m frame 0x38

/-- Where the frame of a call of `jump_fcontext` or `ontop_fcontext` is, from the stack pointer at
the call. -/
def frameBelow (rsp : BitVec 64) : BitVec 64 := rsp - 0x48

end Stackfull.Fcontext
