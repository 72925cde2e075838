import Stackfull.Fcontext.Assembly

/-!
# What the routines of `fcontext` do

The run of each routine on a memory that nobody else writes to: which registers it ends with, what
is in the frames, and that it is confined to them. The registers that a callee keeps come from the
frame that is jumped to, and those of the caller are in the new one (`run_jump`, `run_ontop`). A
made context has the frame of a call of `jump_fcontext` that returns to the trampoline (`run_make`),
which calls the function (`run_trampoline`).
-/

set_option autoImplicit false
set_option relaxedAutoImplicit false
set_option linter.dupNamespace false

namespace Stackfull.Fcontext

open Stackfull.Lib

variable {L : Layout} {c : Cpu} {m m' : Bytes 64} {a b : BitVec 64} {k : Saved}

/-! ### Frames -/

theorem word_congr {disp n : ℕ} (h : Set.EqOn m m' (span a n)) (hdisp : disp + 8 ≤ n) :
    word m a disp = word m' a disp := by
  rw [word, word, Bytes.read_congr (h.mono (span_add_subset hdisp))]

/-- A frame is what is in its bytes. -/
theorem frameAt_congr (h : Set.EqOn m m' (span a 0x40)) : frameAt m a = frameAt m' a := by
  have hmxcsr := Bytes.read_congr (h.mono (span_add_subset (i := 0x0) (n := 4) (by decide)))
  have hfpucw := Bytes.read_congr (h.mono (span_add_subset (i := 0x4) (n := 2) (by decide)))
  simp only [frameAt, hmxcsr, hfpucw, word_congr h (by decide : 0x10 + 8 ≤ 0x40),
    word_congr h (by decide : 0x18 + 8 ≤ 0x40), word_congr h (by decide : 0x20 + 8 ≤ 0x40),
    word_congr h (by decide : 0x28 + 8 ≤ 0x40), word_congr h (by decide : 0x30 + 8 ≤ 0x40),
    word_congr h (by decide : 0x38 + 8 ≤ 0x40)]

/-- The stores of `jump_fcontext`. -/
def saveFrame (m : Bytes 64) (a : BitVec 64) (k : Saved) : Bytes 64 :=
  ((((((((m.write (a + BitVec.ofNat 64 0x0) 4 k.mxcsr.toNat).write
    (a + BitVec.ofNat 64 0x4) 2 k.fpucw.toNat).write
    (a + BitVec.ofNat 64 0x10) 8 k.r12.toNat).write
    (a + BitVec.ofNat 64 0x18) 8 k.r13.toNat).write
    (a + BitVec.ofNat 64 0x20) 8 k.r14.toNat).write
    (a + BitVec.ofNat 64 0x28) 8 k.r15.toNat).write
    (a + BitVec.ofNat 64 0x30) 8 k.rbx.toNat).write
    (a + BitVec.ofNat 64 0x38) 8 k.rbp.toNat)

theorem word_write (m : Bytes 64) (a : BitVec 64) (disp : ℕ) (value : BitVec 64) :
    word (m.write (a + BitVec.ofNat 64 disp) 8 value.toNat) a disp = value :=
  Bytes.ofNat_read_write (by decide) (by decide) value

theorem word_write_beside {disp i n value : ℕ} (hfit : disp + 8 ≤ 2 ^ 64) (hfit' : i + n ≤ 2 ^ 64)
    (h : i + n ≤ disp ∨ disp + 8 ≤ i) :
    word (m.write (a + BitVec.ofNat 64 i) n value) a disp = word m a disp := by
  rw [word, word, Bytes.read_write_beside hfit hfit' h]

/-- The registers are where the stores of the frame put them. -/
theorem frameAt_saveFrame : frameAt (saveFrame m a k) a = k := by
  ext : 1
  case mxcsr =>
    simp (disch := decide) only [frameAt, saveFrame, Bytes.read_write_beside]
    exact Bytes.ofNat_read_write (by decide) (by decide) k.mxcsr
  case fpucw =>
    simp (disch := decide) only [frameAt, saveFrame, Bytes.read_write_beside]
    exact Bytes.ofNat_read_write (by decide) (by decide) k.fpucw
  all_goals simp (disch := decide) only [frameAt, saveFrame, word_write_beside, word_write]

theorem saveFrame_eqOn : Set.EqOn (saveFrame m a k) m (span a 0x40)ᶜ := by
  intro x hx
  have hother (m : Bytes 64) (disp n value : ℕ) (h : disp + n ≤ 0x40) :
      m.write (a + BitVec.ofNat 64 disp) n value x = m x :=
    Bytes.write_of_notMem fun hin ↦ hx (span_add_subset h hin)
  simp (disch := decide) only [saveFrame, hother]

/-! ### The routines -/

theorem run_jump : let x := (machine L).run jumpFcontext (c, m)
    let frame := c.regs .rsp + -0x40
    x.2 = saveFrame m frame c.saved ∧ x.1.saved = frameAt x.2 (c.regs .rdi) ∧
      x.1.rip = word x.2 (c.regs .rdi) 0x40 ∧ x.1.regs .rsp = c.regs .rdi + 0x48 ∧
      x.1.regs .rax = frame ∧ x.1.regs .rdi = frame ∧ x.1.regs .rdx = c.regs .rsi ∧
      x.1.regs .rsi = c.regs .rsi :=
  ⟨rfl, rfl, rfl, rfl, rfl, rfl, rfl, rfl⟩

/-- The routine uses the new frame and the one that is jumped to. -/
theorem confined_jump : (machine L).Confined
    (span (c.regs .rsp + -0x40) 0x40 ∪ span (c.regs .rdi) 0x48) jumpFcontext (c, m) := by
  have hown (disp n : ℕ) (h : disp + n ≤ 0x40) :
      span (c.regs .rsp + -0x40 + BitVec.ofNat 64 disp) n ⊆
        span (c.regs .rsp + -0x40) 0x40 ∪ span (c.regs .rdi) 0x48 :=
    (span_add_subset h).trans Set.subset_union_left
  have htarget (disp n : ℕ) (h : disp + n ≤ 0x48) :
      span (c.regs .rdi + BitVec.ofNat 64 disp) n ⊆
        span (c.regs .rsp + -0x40) 0x40 ∪ span (c.regs .rdi) 0x48 :=
    (span_add_subset h).trans Set.subset_union_right
  exact ⟨Set.empty_subset _, hown 0x0 4 (by decide), hown 0x4 2 (by decide),
    hown 0x10 8 (by decide), hown 0x18 8 (by decide), hown 0x20 8 (by decide),
    hown 0x28 8 (by decide), hown 0x30 8 (by decide), hown 0x38 8 (by decide),
    Set.empty_subset _, Set.empty_subset _, htarget 0x40 8 (by decide),
    htarget 0x0 4 (by decide), htarget 0x4 2 (by decide), htarget 0x10 8 (by decide),
    htarget 0x18 8 (by decide), htarget 0x20 8 (by decide), htarget 0x28 8 (by decide),
    htarget 0x30 8 (by decide), htarget 0x38 8 (by decide), Set.empty_subset _,
    Set.empty_subset _, Set.empty_subset _, Set.empty_subset _, trivial⟩

/-- `ontop_fcontext` leaves the return address of the target on its stack, and goes to the
function. -/
theorem run_ontop : let x := (machine L).run ontopFcontext (c, m)
    let frame := c.regs .rsp + -0x40
    x.2 = saveFrame m frame c.saved ∧ x.1.saved = frameAt x.2 (c.regs .rdi) ∧
      x.1.rip = c.regs .rdx ∧ x.1.regs .rsp = c.regs .rdi + 0x40 ∧ x.1.regs .rax = frame ∧
      x.1.regs .rdi = frame ∧ x.1.regs .rdx = c.regs .rsi ∧ x.1.regs .rsi = c.regs .rsi :=
  ⟨rfl, rfl, rfl, rfl, rfl, rfl, rfl, rfl⟩

theorem confined_ontop : (machine L).Confined
    (span (c.regs .rsp + -0x40) 0x40 ∪ span (c.regs .rdi) 0x48) ontopFcontext (c, m) := by
  have hown (disp n : ℕ) (h : disp + n ≤ 0x40) :
      span (c.regs .rsp + -0x40 + BitVec.ofNat 64 disp) n ⊆
        span (c.regs .rsp + -0x40) 0x40 ∪ span (c.regs .rdi) 0x48 :=
    (span_add_subset h).trans Set.subset_union_left
  have htarget (disp n : ℕ) (h : disp + n ≤ 0x48) :
      span (c.regs .rdi + BitVec.ofNat 64 disp) n ⊆
        span (c.regs .rsp + -0x40) 0x40 ∪ span (c.regs .rdi) 0x48 :=
    (span_add_subset h).trans Set.subset_union_right
  exact ⟨Set.empty_subset _, Set.empty_subset _, hown 0x0 4 (by decide), hown 0x4 2 (by decide),
    hown 0x10 8 (by decide), hown 0x18 8 (by decide), hown 0x20 8 (by decide),
    hown 0x28 8 (by decide), hown 0x30 8 (by decide), hown 0x38 8 (by decide),
    Set.empty_subset _, Set.empty_subset _, htarget 0x0 4 (by decide), htarget 0x4 2 (by decide),
    htarget 0x10 8 (by decide), htarget 0x18 8 (by decide), htarget 0x20 8 (by decide),
    htarget 0x28 8 (by decide), htarget 0x30 8 (by decide), htarget 0x38 8 (by decide),
    Set.empty_subset _, Set.empty_subset _, Set.empty_subset _, Set.empty_subset _, trivial⟩

/-- `make_fcontext` writes a frame that stands in a call that returns to the trampoline. -/
theorem run_make (hret : Disjoint (span (c.regs .rsp) 8)
    (span ((c.regs .rdi &&& -16) + -0x48) 0x48)) :
    let x := (machine L).run makeFcontext (c, m)
    let frame := (c.regs .rdi &&& -16) + -0x48
    (frameAt x.2 frame).rbx = c.regs .rdx ∧ (frameAt x.2 frame).rbp = L.finish ∧
      (frameAt x.2 frame).mxcsr = c.mxcsr ∧ (frameAt x.2 frame).fpucw = c.fpucw ∧
      word x.2 frame 0x40 = L.trampoline ∧ x.1.saved = c.saved ∧
      x.1.rip = BitVec.ofNat 64 (m.read (c.regs .rsp) 8) ∧ x.1.regs .rsp = c.regs .rsp + 8 ∧
      x.1.regs .rax = frame ∧ x.1.regs .rdx = c.regs .rdx ∧ x.1.regs .rdi = c.regs .rdi ∧
      x.1.regs .rsi = c.regs .rsi := by
  intro x frame
  have hmemory : x.2 = (((((m.write (frame + BitVec.ofNat 64 0x30) 8 (c.regs .rdx).toNat).write
      (frame + BitVec.ofNat 64 0x0) 4 c.mxcsr.toNat).write
      (frame + BitVec.ofNat 64 0x4) 2 c.fpucw.toNat).write
      (frame + BitVec.ofNat 64 0x40) 8 L.trampoline.toNat).write
      (frame + BitVec.ofNat 64 0x38) 8 L.finish.toNat) := rfl
  have hrip : x.1.rip = BitVec.ofNat 64 (Bytes.read x.2 (c.regs .rsp) 8) := rfl
  have hslot (m : Bytes 64) (disp n value : ℕ) (h : disp + n ≤ 0x48) :
      (m.write (frame + BitVec.ofNat 64 disp) n value).read (c.regs .rsp) 8 =
        m.read (c.regs .rsp) 8 :=
    Bytes.read_write_of_disjoint (hret.mono_right (span_add_subset h))
  refine ⟨?_, ?_, ?_, ?_, ?_, rfl, ?_, rfl, rfl, rfl, rfl, rfl⟩
  · rw [hmemory]
    simp (disch := decide) only [frameAt, word_write_beside, word_write]
  · rw [hmemory]
    simp (disch := decide) only [frameAt, word_write]
  · rw [hmemory]
    simp (disch := decide) only [frameAt, Bytes.read_write_beside]
    exact Bytes.ofNat_read_write (by decide) (by decide) c.mxcsr
  · rw [hmemory]
    simp (disch := decide) only [frameAt, Bytes.read_write_beside]
    exact Bytes.ofNat_read_write (by decide) (by decide) c.fpucw
  · rw [hmemory]
    simp (disch := decide) only [word_write_beside, word_write]
  · rw [hrip, hmemory]
    simp (disch := decide) only [hslot]

theorem confined_make : (machine L).Confined
    (span (c.regs .rsp) 8 ∪ span ((c.regs .rdi &&& -16) + -0x48) 0x48) makeFcontext (c, m) := by
  have hframe (disp n : ℕ) (h : disp + n ≤ 0x48) :
      span ((c.regs .rdi &&& -16) + -0x48 + BitVec.ofNat 64 disp) n ⊆
        span (c.regs .rsp) 8 ∪ span ((c.regs .rdi &&& -16) + -0x48) 0x48 :=
    (span_add_subset h).trans Set.subset_union_right
  exact ⟨Set.empty_subset _, Set.empty_subset _, Set.empty_subset _, hframe 0x30 8 (by decide),
    hframe 0x0 4 (by decide), hframe 0x4 2 (by decide), Set.empty_subset _,
    hframe 0x40 8 (by decide), Set.empty_subset _, hframe 0x38 8 (by decide),
    Set.subset_union_left, trivial⟩

/-- The trampoline calls the function, which returns to `finish` if it returns. -/
theorem run_trampoline : let x := (machine L).run trampoline (c, m)
    x.2 = m.write (c.regs .rsp - 8) 8 (c.regs .rbp).toNat ∧ x.1.saved = c.saved ∧
      x.1.rip = c.regs .rbx ∧ x.1.regs .rsp = c.regs .rsp - 8 ∧ x.1.regs .rax = c.regs .rax ∧
      x.1.regs .rdx = c.regs .rdx ∧ x.1.regs .rdi = c.regs .rdi ∧ x.1.regs .rsi = c.regs .rsi :=
  ⟨rfl, rfl, rfl, rfl, rfl, rfl, rfl, rfl⟩

theorem confined_trampoline : (machine L).Confined (span (c.regs .rsp - 8) 8) trampoline (c, m) :=
  ⟨subset_rfl, Set.empty_subset _, trivial⟩

end Stackfull.Fcontext
