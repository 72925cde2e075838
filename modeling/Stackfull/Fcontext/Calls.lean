import Stackfull.Fcontext.Routines
import Stackfull.Fcontext.Threads

/-!
# Calls of the routines

A routine that is called, from the push of the return address to where it goes, in the terms of the
contexts. If the frame of a context holds the point where it stands (`Holds`), a switch to it ends
in what that point sees of a transfer, and leaves a frame that holds the call of the sender
(`switched_of_run`). A jump to a context that has not begun passes through the trampoline
(`Switched.trampoline`). What `make_fcontext` leaves is the frame of such a context (`made_of_run`).
-/

set_option autoImplicit false
set_option relaxedAutoImplicit false
set_option linter.dupNamespace false

namespace Stackfull.Fcontext

open Stackfull.Lib

universe u v

variable {L : Layout} {c : Cpu} {m m' : Bytes 64} {k : Point}

/-! ### Addresses -/

theorem push_add (rsp : BitVec 64) : rsp - 8 + -0x40 = frameBelow rsp := by
  rw [frameBelow]
  bv_omega

theorem add_neg_eq_frameBelow (top : BitVec 64) : top + -0x48 = frameBelow top := by
  rw [frameBelow]
  bv_omega

theorem frameBelow_add (rsp : BitVec 64) : frameBelow rsp + 0x48 = rsp := by
  rw [frameBelow]
  bv_omega

theorem frameBelow_add_slot (rsp : BitVec 64) : frameBelow rsp + 0x40 = rsp - 8 := by
  rw [frameBelow]
  bv_omega

/-- The return address is above the registers. -/
theorem slot_subset (rsp : BitVec 64) : span (rsp - 8) 8 ⊆ span (frameBelow rsp) 0x48 := by
  rw [← frameBelow_add_slot]
  exact span_add_subset (i := 0x40) (by decide)

theorem word_slot (m : Bytes 64) (rsp : BitVec 64) :
    word m (frameBelow rsp) 0x40 = BitVec.ofNat 64 (m.read (rsp - 8) 8) := by
  rw [word, ← frameBelow_add_slot]
  rfl

/-! ### Frames -/

/-- Where a jump to the context goes. -/
def Point.resumes (L : Layout) : Point → BitVec 64
  | .returns _ _ rip => rip
  | .starts _ _ => L.trampoline

/-- The frame of a context that stands somewhere. -/
def Holds (L : Layout) (m : Bytes 64) (k : Point) : Prop :=
  frameAt m k.fctx = k.saved ∧ word m k.fctx 0x40 = k.resumes L

theorem Holds.congr (h : Holds L m k) (heq : Set.EqOn m m' (span k.fctx 0x48)) : Holds L m' k :=
  ⟨(frameAt_congr (heq.mono (span_mono (by decide)))).symm.trans h.1,
    (word_congr heq (by decide)).symm.trans h.2⟩

/-- Only what was made goes to the trampoline, and its function is elsewhere. -/
def Point.Proper (L : Layout) : Point → Prop
  | .returns _ _ rip => rip ≠ L.trampoline
  | .starts saved _ => saved.rbx ≠ L.trampoline

/-! ### How the routines end -/

/-- The stores of a switch: the return address, and the registers below it. -/
def leaveFrame (m : Bytes 64) (rsp returnAddress : BitVec 64) (saved : Saved) : Bytes 64 :=
  saveFrame (m.write (rsp - 8) 8 returnAddress.toNat) (frameBelow rsp) saved

theorem leaveFrame_eqOn (m : Bytes 64) (rsp returnAddress : BitVec 64) (saved : Saved) :
    Set.EqOn (leaveFrame m rsp returnAddress saved) m (span (frameBelow rsp) 0x48)ᶜ := by
  intro x hx
  rw [leaveFrame, saveFrame_eqOn fun h ↦ hx (span_mono (by decide) h)]
  exact Bytes.write_of_notMem fun h ↦ hx (slot_subset rsp h)

/-- The caller stands in its call. -/
theorem holds_leaveFrame (m : Bytes 64) (rsp returnAddress : BitVec 64) (saved : Saved) :
    Holds L (leaveFrame m rsp returnAddress saved) (.returns saved rsp returnAddress) := by
  refine ⟨frameAt_saveFrame, ?_⟩
  have heq : Set.EqOn (leaveFrame m rsp returnAddress saved)
      (m.write (rsp - 8) 8 returnAddress.toNat) (span (rsp - 8) 8) := by
    intro x hx
    refine saveFrame_eqOn fun hin ↦ ?_
    rw [← frameBelow_add_slot] at hx
    have hbeside : Disjoint (span (frameBelow rsp + BitVec.ofNat 64 0x0) 0x40)
        (span (frameBelow rsp + BitVec.ofNat 64 0x40) 8) :=
      disjoint_span_add (by decide) (by decide)
    rw [BitVec.add_zero] at hbeside
    exact Set.disjoint_left.mp hbeside hin hx
  change word _ (frameBelow rsp) 0x40 = returnAddress
  rw [word_slot, Bytes.read_congr heq]
  exact Bytes.ofNat_read_write (by decide) (by decide) returnAddress

/-- A switch ends in the context that it continues, or on the way there in the trampoline. -/
structure Switched (L : Layout) (onTop : Bool) (k : Point) (site : View)
    (returnAddress : BitVec 64) (y : Cpu × Bytes 64) : Prop where
  left : Holds L y.2 (.returns site.saved site.rsp returnAddress)
  arrives : (y.1.rip ≠ L.trampoline ∧
      y.1.view = (if onTop then k.interrupt site.rdx (frameBelow site.rsp) site.rsi
        else k.transfer (frameBelow site.rsp) site.rsi) ∧
      ∀ caller ∈ k.calledFrom onTop, word y.2 k.fctx 0x40 = caller) ∨
    ∃ saved top, k = .starts saved top ∧ onTop = false ∧
      y.1.view = ⟨saved, top, L.trampoline, frameBelow site.rsp, site.rsi, frameBelow site.rsp,
        site.rsi⟩

theorem switched_of_run {κ : Type v} {onTop : Bool} {target : κ} {returnAddress : BitVec 64}
    (hk : Holds L m k) (hproper : k.Proper L) (hrdi : c.regs .rdi = k.fctx)
    (hdisjoint : Disjoint (span (frameBelow (c.regs .rsp)) 0x48) (span k.fctx 0x48))
    (honTop : onTop → k.inCall ∧ c.regs .rdx ≠ L.trampoline) :
    Switched L onTop k c.view returnAddress ((machine L).run
      (Operation.switch onTop target).routine
      (c.set .rsp (c.regs .rsp - 8), m.write (c.regs .rsp - 8) 8 returnAddress.toNat)) := by
  have hkeep : Set.EqOn m (leaveFrame m (c.regs .rsp) returnAddress c.saved) (span k.fctx 0x48) :=
    fun x hx ↦ (leaveFrame_eqOn _ _ _ _ (Set.disjoint_right.mp hdisjoint hx)).symm
  obtain ⟨hsaved, hword⟩ := hk.congr hkeep
  have hcalled : leaveFrame m (c.regs .rsp) returnAddress c.saved =
      saveFrame (m.write (c.regs .rsp - 8) 8 returnAddress.toNat) (c.regs .rsp - 8 + -0x40)
        c.saved := by
    rw [push_add]
    rfl
  have hleft := holds_leaveFrame (L := L) m (c.regs .rsp) returnAddress c.saved
  rw [hcalled] at hsaved hword hleft
  cases onTop with
  | false =>
    obtain ⟨hm, hs, hrip, hrsp, hrax, hrdi', hrdx, hrsi⟩ := run_jump (L := L)
      (c := c.set .rsp (c.regs .rsp - 8)) (m := m.write (c.regs .rsp - 8) 8 returnAddress.toNat)
    change Switched L false k c.view returnAddress ((machine L).run jumpFcontext _)
    generalize (machine L).run jumpFcontext (_, _) = x at *
    change _ = saveFrame _ (c.regs .rsp - 8 + -0x40) c.saved at hm
    change _ = frameAt _ (c.regs .rdi) at hs
    change _ = word _ (c.regs .rdi) 0x40 at hrip
    change _ = c.regs .rdi + 0x48 at hrsp
    change _ = c.regs .rsp - 8 + -0x40 at hrax hrdi'
    rw [hm, hrdi, hsaved] at hs
    rw [hm, hrdi, hword] at hrip
    rw [hrdi, Point.fctx, frameBelow_add] at hrsp
    rw [push_add] at hrax hrdi'
    refine ⟨hm ▸ hleft, ?_⟩
    cases k with
    | returns saved rsp rip =>
      exact .inl ⟨hrip ▸ hproper, View.ext hs hrsp hrip hrax hrdx hrdi' hrsi, nofun⟩
    | starts saved top =>
      exact .inr ⟨saved, top, rfl, rfl, View.ext hs hrsp hrip hrax hrdx hrdi' hrsi⟩
  | true =>
    obtain ⟨hm, hs, hrip, hrsp, hrax, hrdi', hrdx, hrsi⟩ := run_ontop (L := L)
      (c := c.set .rsp (c.regs .rsp - 8)) (m := m.write (c.regs .rsp - 8) 8 returnAddress.toNat)
    change Switched L true k c.view returnAddress ((machine L).run ontopFcontext _)
    generalize (machine L).run ontopFcontext (_, _) = x at *
    change _ = saveFrame _ (c.regs .rsp - 8 + -0x40) c.saved at hm
    change _ = frameAt _ (c.regs .rdi) at hs
    change _ = c.regs .rdx at hrip
    change _ = c.regs .rdi + 0x40 at hrsp
    change _ = c.regs .rsp - 8 + -0x40 at hrax hrdi'
    rw [hm, hrdi, hsaved] at hs
    rw [hrdi, Point.fctx, frameBelow_add_slot] at hrsp
    rw [push_add] at hrax hrdi'
    refine ⟨hm ▸ hleft, .inl ⟨hrip ▸ (honTop rfl).2, ?_, fun caller hcaller ↦ ?_⟩⟩
    · exact View.ext hs hrsp hrip hrax hrdx hrdi' hrsi
    · cases k with
      | returns saved rsp rip =>
        cases hcaller
        rw [hm]
        exact hword
      | starts saved top => cases (honTop rfl).1

/-- A switch uses the frame that it leaves and the one that it goes to. -/
theorem confined_switch {κ : Type v} (onTop : Bool) (target : κ) : (machine L).Confined
    (span (frameBelow (c.regs .rsp)) 0x48 ∪ span (c.regs .rdi) 0x48)
    (Operation.switch onTop target).routine (c.set .rsp (c.regs .rsp - 8), m) := by
  have hframe : span ((c.set .rsp (c.regs .rsp - 8)).regs .rsp + -0x40) 0x40 ⊆
      span (frameBelow (c.regs .rsp)) 0x48 := by
    change span (c.regs .rsp - 8 + -0x40) 0x40 ⊆ _
    rw [push_add]
    exact span_mono (by decide)
  cases onTop with
  | false =>
    exact (confined_jump (c := c.set .rsp (c.regs .rsp - 8))).mono
      (Set.union_subset_union_left _ hframe)
  | true =>
    exact (confined_ontop (c := c.set .rsp (c.regs .rsp - 8))).mono
      (Set.union_subset_union_left _ hframe)

/-- The trampoline ends in the function. -/
theorem Switched.trampoline {site : View} {returnAddress : BitVec 64} {saved : Saved}
    {top : BitVec 64} (hview : c.view = ⟨saved, top, L.trampoline, frameBelow site.rsp, site.rsi,
      frameBelow site.rsp, site.rsi⟩)
    (hleft : Holds L m (.returns site.saved site.rsp returnAddress))
    (hdisjoint : Disjoint (span (frameBelow site.rsp) 0x48) (span (frameBelow top) 0x48))
    (hproper : (Point.starts saved top).Proper L) :
    Switched L false (.starts saved top) site returnAddress
      ((machine L).run trampoline (c, m)) := by
  obtain ⟨hm, hs, hrip, hrsp, hrax, hrdx, hrdi, hrsi⟩ := run_trampoline (L := L) (c := c) (m := m)
  obtain ⟨hsaved, htop, -, hrax', hrdx', hrdi', hrsi'⟩ := View.mk.inj hview
  have hrbx : c.regs .rbx = saved.rbx := congrArg Saved.rbx hsaved
  have hrbp : c.regs .rbp = saved.rbp := congrArg Saved.rbp hsaved
  rw [htop, hrbp] at hm
  refine ⟨?_, .inl ⟨?_, ?_, fun caller hcaller ↦ ?_⟩⟩
  · refine hleft.congr fun x hx ↦ ?_
    rw [hm]
    exact (Bytes.write_of_notMem fun hin ↦
      Set.disjoint_left.mp hdisjoint hx (slot_subset top hin)).symm
  · rw [hrip, hrbx]
    exact hproper
  · refine View.ext (hs.trans hsaved) ?_ (hrip.trans hrbx) (hrax.trans hrax') (hrdx.trans hrdx')
      (hrdi.trans hrdi') (hrsi.trans hrsi')
    rw [← htop]
    exact hrsp
  · cases hcaller
    change word _ (frameBelow top) 0x40 = saved.rbp
    rw [word_slot, hm]
    exact Bytes.ofNat_read_write (by decide) (by decide) saved.rbp

/-- A made context stands before its function. -/
structure Made (L : Layout) (site : View) (returnAddress : BitVec 64) (y : Cpu × Bytes 64) :
    Prop where
  view : y.1.view = { site with rip := returnAddress, rax := frameBelow (site.rdi &&& -16) }
  entry : word y.2 (frameBelow (site.rdi &&& -16)) 0x40 = L.trampoline
  frame : frameAt y.2 (frameBelow (site.rdi &&& -16)) =
    { frameAt y.2 (frameBelow (site.rdi &&& -16)) with
      mxcsr := site.saved.mxcsr, fpucw := site.saved.fpucw, rbx := site.rdx, rbp := L.finish }

theorem made_of_run {returnAddress : BitVec 64}
    (hdisjoint : Disjoint (span (c.regs .rsp - 8) 8)
      (span (frameBelow (c.regs .rdi &&& -16)) 0x48)) :
    Made L c.view returnAddress ((machine L).run makeFcontext
      (c.set .rsp (c.regs .rsp - 8), m.write (c.regs .rsp - 8) 8 returnAddress.toNat)) := by
  have hret : Disjoint (span ((c.set .rsp (c.regs .rsp - 8)).regs .rsp) 8)
      (span (((c.set .rsp (c.regs .rsp - 8)).regs .rdi &&& -16) + -0x48) 0x48) := by
    rw [add_neg_eq_frameBelow]
    exact hdisjoint
  obtain ⟨hrbx, hrbp, hmxcsr, hfpucw, hentry, hs, hrip, hrsp, hrax, hrdx, hrdi, hrsi⟩ :=
    run_make (L := L) (m := m.write (c.regs .rsp - 8) 8 returnAddress.toNat) hret
  generalize (machine L).run makeFcontext (_, _) = x at *
  rw [add_neg_eq_frameBelow] at hrbx hrbp hmxcsr hfpucw hentry hrax
  refine ⟨View.ext hs ?_ ?_ hrax hrdx hrdi hrsi, hentry, ?_⟩
  · exact hrsp.trans (BitVec.sub_add_cancel ..)
  · exact hrip.trans (Bytes.ofNat_read_write (by decide) (by decide) returnAddress)
  · exact Saved.ext hmxcsr hfpucw rfl rfl rfl rfl hrbx hrbp

theorem confined_make_call {κ : Type v} (context : κ) : (machine L).Confined
    (span (c.regs .rsp - 8) 8 ∪ span (frameBelow (c.regs .rdi &&& -16)) 0x48)
    (Operation.make context).routine (c.set .rsp (c.regs .rsp - 8), m) := by
  rw [← add_neg_eq_frameBelow]
  exact confined_make (c := c.set .rsp (c.regs .rsp - 8))

end Stackfull.Fcontext
