import Stackfull.Lib.Words
import Mathlib.Tactic.Linarith

/-!
# The records at the top of a stack

`StackLayout.h`: `carveStack` puts the body of a coroutine and its control record at the top of a
fresh stack, each below what is above it and at a multiple of its alignment; the rest is the stack
that the coroutine runs on. The addresses are words of `w` bits, and each of the two subtractions
may wrap below zero.

`placeBelow` is the same placement in whole numbers, where nothing wraps. `fits` accepts exactly
when that placement leaves enough of the stack (`carveStack_fits_iff`), and then the addresses are
those of the placement, so that `Sound` says of the words what is plain of the numbers
(`carveStack_sound`).
-/

set_option autoImplicit false
set_option relaxedAutoImplicit false
set_option linter.dupNamespace false

namespace Stackfull.Coro

open Stackfull.Lib

variable {w : ℕ}

/-! ### The code -/

/-- `StackView`, in words. -/
abbrev StackView (w : ℕ) : Type := WordRange w

/-- `topOf`. -/
def topOf (stack : StackView w) : BitVec w := stack.base + stack.size

/-- `StackLayout`. A null pointer is 0. -/
structure StackLayout (w : ℕ) where
  block : BitVec w
  entry : BitVec w
  stackTop : BitVec w
  usableSize : BitVec w
  fits : Bool
  deriving DecidableEq

/-- A layout as it is made. -/
def StackLayout.new : StackLayout w := ⟨0, 0, 0, 0, false⟩

/-- `kMinUsableStack`. -/
def kMinUsableStack : BitVec w := BitVec.ofNat w 4096

/-- `stackAlign`. -/
def stackAlign : BitVec w := BitVec.ofNat w 16

/-- `alignDown`. -/
def alignDown (value alignment : BitVec w) : BitVec w := value &&& ~~~(alignment - 1)

/-- `align` and `recordAlign`: the alignment asked for, and no less than `stackAlign`. -/
def alignAtLeast (requested : BitVec w) : BitVec w :=
  if requested > stackAlign then requested else stackAlign

section

variable (stack : StackView w) (entrySize entryAlign blockSize blockAlign : BitVec w)

/-- `entryAddr`. -/
def entryAddr : BitVec w := alignDown (topOf stack - entrySize) (alignAtLeast entryAlign)

/-- `blockAddr`. -/
def blockAddr : BitVec w :=
  alignDown (entryAddr stack entrySize entryAlign - blockSize) (alignAtLeast blockAlign)

/-- The test of the addresses. -/
def Accepts (stack : StackView w) (entryAddr blockAddr : BitVec w) : Prop :=
  entryAddr ≤ topOf stack ∧ blockAddr < entryAddr ∧ blockAddr > stack.base ∧
    blockAddr - stack.base ≥ kMinUsableStack

instance (stack : StackView w) (entryAddr blockAddr : BitVec w) :
    Decidable (Accepts stack entryAddr blockAddr) :=
  inferInstanceAs (Decidable (_ ∧ _))

/-- `carveStack`. -/
def carveStack : StackLayout w :=
  let entryAddr := entryAddr stack entrySize entryAlign
  let blockAddr := blockAddr stack entrySize entryAlign blockSize blockAlign
  if Accepts stack entryAddr blockAddr then
    { block := blockAddr, entry := entryAddr, stackTop := blockAddr,
      usableSize := blockAddr - stack.base, fits := true }
  else
    .new

/-! ### The placement in whole numbers -/

/-- The largest multiple of the alignment with room for the record below `top`. -/
def placeBelow (top size alignment : ℤ) : ℤ := (top - size) / alignment * alignment

/-- Where the entry is put. -/
def entryPlace : ℤ :=
  placeBelow (stack.base.toNat + stack.size.toNat) entrySize.toNat (max entryAlign.toNat 16 : ℕ)

/-- Where the control record is put. -/
def blockPlace : ℤ :=
  placeBelow (entryPlace stack entrySize entryAlign) blockSize.toNat (max blockAlign.toNat 16 : ℕ)

/-- The records fit, with 4096 bytes left below them. -/
def Fits : Prop :=
  stack.base.toNat + 4096 ≤ blockPlace stack entrySize entryAlign blockSize blockAlign

instance : Decidable (Fits stack entrySize entryAlign blockSize blockAlign) :=
  inferInstanceAs (Decidable (_ ≤ _))

/-- What a layout that fits is to be. -/
structure StackLayout.Sound (layout : StackLayout w) : Prop where
  enough_usable : stack.base.toNat + 4096 ≤ layout.block.toNat
  stackTop_eq : layout.stackTop = layout.block
  base_add_usableSize : stack.base.toNat + layout.usableSize.toNat = layout.stackTop.toNat
  records_apart : Region.Apart ⟨layout.block.toNat, blockSize.toNat⟩
    ⟨layout.entry.toNat, entrySize.toNat⟩
  block_inside : stack.base.toNat ≤ layout.block.toNat ∧
    layout.block.toNat + blockSize.toNat ≤ stack.base.toNat + stack.size.toNat
  entry_inside : stack.base.toNat ≤ layout.entry.toNat ∧
    layout.entry.toNat + entrySize.toNat ≤ stack.base.toNat + stack.size.toNat
  entry_aligned : entryAlign.toNat ∣ layout.entry.toNat ∧ 16 ∣ layout.entry.toNat
  block_aligned : blockAlign.toNat ∣ layout.block.toNat ∧ 16 ∣ layout.block.toNat

theorem dvd_of_eq_placeBelow {top size : ℤ} {address alignment : ℕ}
    (h : address = placeBelow top size alignment) : alignment ∣ address := by
  have hdvd : (alignment : ℤ) ∣ address := h ▸ Int.dvd_mul_left _ _
  exact_mod_cast hdvd

theorem placeBelow_add_le (top size : ℤ) {alignment : ℤ} (h : 0 < alignment) :
    placeBelow top size alignment + size ≤ top := by
  have := Int.ediv_mul_le (top - size) h.ne'
  rw [placeBelow]
  linarith

theorem entryPlace_add_le :
    entryPlace stack entrySize entryAlign + entrySize.toNat ≤
      stack.base.toNat + stack.size.toNat :=
  placeBelow_add_le _ _ (Nat.cast_pos.mpr (lt_max_of_lt_right (by decide)))

theorem blockPlace_add_le :
    blockPlace stack entrySize entryAlign blockSize blockAlign + blockSize.toNat ≤
      entryPlace stack entrySize entryAlign :=
  placeBelow_add_le _ _ (Nat.cast_pos.mpr (lt_max_of_lt_right (by decide)))

end

/-! ### Alignments -/

section Carve

variable {size requested alignment : BitVec w} {k : ℕ}

theorem toNat_stackAlign (hw : 12 < w) : (stackAlign : BitVec w).toNat = 16 :=
  toNat_ofNat_of_lt (n := 2 ^ 4) (Nat.pow_lt_pow_right (by decide) (by omega))

theorem toNat_kMinUsableStack (hw : 12 < w) : (kMinUsableStack : BitVec w).toNat = 4096 :=
  toNat_ofNat_of_lt (n := 2 ^ 12) (Nat.pow_lt_pow_right (by decide) hw)

theorem toNat_alignAtLeast (hw : 12 < w) :
    (alignAtLeast requested).toNat = max requested.toNat 16 := by
  have h16 := toNat_stackAlign hw
  rw [alignAtLeast]
  split_ifs with hgt <;> rw [gt_iff_lt, BitVec.lt_def, h16] at hgt
  · exact (max_eq_left hgt.le).symm
  · exact h16.trans (max_eq_right (not_lt.mp hgt)).symm

/-- The larger of two powers of two is one, and a multiple of both. -/
theorem isPowerOfTwo_max {n : ℕ} (h : n.isPowerOfTwo) :
    (max n 16).isPowerOfTwo ∧ n ∣ max n 16 ∧ 16 ∣ max n 16 := by
  obtain ⟨k, rfl⟩ := h
  rcases le_total 4 k with hle | hle
  · have hdvd : 16 ∣ 2 ^ k := Nat.pow_dvd_pow 2 hle
    rw [max_eq_left (Nat.le_of_dvd (Nat.two_pow_pos k) hdvd)]
    exact ⟨⟨k, rfl⟩, dvd_rfl, hdvd⟩
  · have hdvd : 2 ^ k ∣ 16 := Nat.pow_dvd_pow 2 hle
    rw [max_eq_right (Nat.le_of_dvd (by decide) hdvd)]
    exact ⟨⟨4, rfl⟩, hdvd, dvd_rfl⟩

/-! ### Words and numbers -/

/-- An address below another is where the numbers put it, unless the difference wraps; then it is
above, and the number is negative. -/
theorem alignDown_sub (top : BitVec w) (h : alignment.toNat = 2 ^ k)
    (hsize : size.toNat < 2 ^ (w - 1)) :
    ((alignDown (top - size) alignment).toNat = placeBelow top.toNat size.toNat alignment.toNat ∧
        size ≤ top) ∨
      (placeBelow top.toNat size.toNat alignment.toNat < 0 ∧
        top < alignDown (top - size) alignment) := by
  have hpos : (0 : ℤ) < alignment.toNat := by rw [h]; exact_mod_cast Nat.two_pow_pos k
  rcases Nat.lt_or_ge top.toNat size.toNat with hlt | hle
  · refine Or.inr ⟨?_, ?_⟩
    · have := placeBelow_add_le top.toNat size.toNat hpos
      linarith [(Nat.cast_lt (α := ℤ)).mpr hlt]
    · have := le_toNat_alignDown_sub h (BitVec.lt_def.mpr hlt) hsize
      rw [BitVec.lt_def, alignDown]
      omega
  · refine Or.inl ⟨?_, BitVec.le_def.mpr hle⟩
    rw [alignDown, toNat_alignDown h, BitVec.toNat_sub_of_le (BitVec.le_def.mpr hle), placeBelow, h]
    push_cast [hle]
    rfl

end Carve

/-! ### What is accepted -/

section Sound

variable {stack : StackView w} {entrySize entryAlign blockSize blockAlign : BitVec w} (hw : 12 < w)
  (hstack : stack.base.toNat + stack.size.toNat < 2 ^ w)
  (hentryAlign : entryAlign.toNat.isPowerOfTwo) (hblockAlign : blockAlign.toNat.isPowerOfTwo)
  (hentrySize : entrySize.toNat < 2 ^ (w - 1)) (hblockSize : blockSize.toNat < 2 ^ (w - 1))

include hstack in
theorem toNat_topOf : (topOf stack).toNat = stack.base.toNat + stack.size.toNat :=
  BitVec.toNat_add_of_lt hstack

include hw hstack hentryAlign hblockAlign hentrySize hblockSize in
/-- The addresses are those of the placement; or one of them wraps, and then nothing is accepted,
nor does anything fit. -/
theorem placed_or_refused :
    ((entryAddr stack entrySize entryAlign).toNat = entryPlace stack entrySize entryAlign ∧
        (blockAddr stack entrySize entryAlign blockSize blockAlign).toNat =
          blockPlace stack entrySize entryAlign blockSize blockAlign) ∨
      (¬ Accepts stack (entryAddr stack entrySize entryAlign)
          (blockAddr stack entrySize entryAlign blockSize blockAlign) ∧
        ¬ Fits stack entrySize entryAlign blockSize blockAlign) := by
  obtain ⟨⟨k, hk⟩, -, -⟩ := isPowerOfTwo_max hentryAlign
  obtain ⟨⟨l, hl⟩, -, -⟩ := isPowerOfTwo_max hblockAlign
  have hbelow := blockPlace_add_le stack entrySize entryAlign blockSize blockAlign
  have hentry := alignDown_sub (topOf stack) ((toNat_alignAtLeast hw).trans hk) hentrySize
  rw [toNat_topOf hstack, Nat.cast_add, toNat_alignAtLeast hw] at hentry
  have hblock := alignDown_sub (entryAddr stack entrySize entryAlign)
    ((toNat_alignAtLeast hw).trans hl) hblockSize
  rw [toNat_alignAtLeast hw] at hblock
  rcases hentry with ⟨hplace, -⟩ | ⟨hneg, hwrap⟩
  · rw [entryAddr, hplace] at hblock
    rcases hblock with ⟨hplace', -⟩ | ⟨hneg, hwrap⟩
    · exact Or.inl ⟨hplace, hplace'⟩
    · refine Or.inr ⟨fun haccepts ↦ ?_, fun hfits ↦ ?_⟩
      · exact absurd haccepts.2.1 (BitVec.lt_asymm hwrap)
      · rw [Fits, blockPlace, entryPlace] at hfits
        linarith
  · refine Or.inr ⟨fun haccepts ↦ ?_, fun hfits ↦ ?_⟩
    · exact absurd hwrap (BitVec.not_lt.mpr haccepts.1)
    · rw [Fits] at hfits
      rw [entryPlace] at hbelow
      linarith

include hw hstack in
/-- What the test asks of addresses that are those of the placement. -/
theorem accepts_iff_of_placed
    (hentry : (entryAddr stack entrySize entryAlign).toNat = entryPlace stack entrySize entryAlign)
    (hblock : (blockAddr stack entrySize entryAlign blockSize blockAlign).toNat =
      blockPlace stack entrySize entryAlign blockSize blockAlign) :
    Accepts stack (entryAddr stack entrySize entryAlign)
        (blockAddr stack entrySize entryAlign blockSize blockAlign) ↔
      Fits stack entrySize entryAlign blockSize blockAlign ∧
        blockPlace stack entrySize entryAlign blockSize blockAlign <
          entryPlace stack entrySize entryAlign := by
  have htop := entryPlace_add_le stack entrySize entryAlign
  rw [← hentry] at htop
  rw [Accepts, Fits, ← hentry, ← hblock]
  norm_cast at htop ⊢
  constructor
  · rintro ⟨-, hlt, hbase, henough⟩
    rw [ge_iff_le, BitVec.le_def, BitVec.toNat_sub_of_le (BitVec.le_of_lt hbase),
      toNat_kMinUsableStack hw] at henough
    exact ⟨by omega, BitVec.lt_def.mp hlt⟩
  · rintro ⟨hfits, hlt⟩
    have hbase : stack.base < blockAddr stack entrySize entryAlign blockSize blockAlign :=
      BitVec.lt_def.mpr (by omega)
    refine ⟨?_, BitVec.lt_def.mpr hlt, hbase, ?_⟩
    · rw [BitVec.le_def, toNat_topOf hstack]
      omega
    · rw [ge_iff_le, BitVec.le_def, BitVec.toNat_sub_of_le (BitVec.le_of_lt hbase),
        toNat_kMinUsableStack hw]
      omega

theorem carveStack_fits_iff_accepts :
    (carveStack stack entrySize entryAlign blockSize blockAlign).fits = true ↔
      Accepts stack (entryAddr stack entrySize entryAlign)
        (blockAddr stack entrySize entryAlign blockSize blockAlign) := by
  rw [carveStack]
  split_ifs with h
  · exact iff_of_true rfl h
  · exact iff_of_false Bool.false_ne_true h

include hw hstack hentryAlign hblockAlign hentrySize hblockSize in
/-- **The words accept what fits in whole numbers**, except that a control record of no bytes has to
be given room by its alignment. -/
theorem carveStack_fits_iff :
    (carveStack stack entrySize entryAlign blockSize blockAlign).fits = true ↔
      Fits stack entrySize entryAlign blockSize blockAlign ∧
        blockPlace stack entrySize entryAlign blockSize blockAlign <
          entryPlace stack entrySize entryAlign := by
  rw [carveStack_fits_iff_accepts]
  rcases placed_or_refused hw hstack hentryAlign hblockAlign hentrySize hblockSize with
    ⟨hentry, hblock⟩ | ⟨hrefused, hunfit⟩
  · exact accepts_iff_of_placed hw hstack hentry hblock
  · exact iff_of_false hrefused fun h ↦ hunfit h.1

include hw hstack hentryAlign hblockAlign in
/-- Addresses that are those of the placement and that the test accepts make a sound layout. -/
theorem sound_of_accepts
    (hentry : (entryAddr stack entrySize entryAlign).toNat = entryPlace stack entrySize entryAlign)
    (hblock : (blockAddr stack entrySize entryAlign blockSize blockAlign).toNat =
      blockPlace stack entrySize entryAlign blockSize blockAlign)
    (haccepts : Accepts stack (entryAddr stack entrySize entryAlign)
      (blockAddr stack entrySize entryAlign blockSize blockAlign)) :
    (carveStack stack entrySize entryAlign blockSize blockAlign).Sound stack entrySize entryAlign
      blockSize blockAlign := by
  obtain ⟨hfits, -⟩ := (accepts_iff_of_placed hw hstack hentry hblock).mp haccepts
  have htop := entryPlace_add_le stack entrySize entryAlign
  have hbelow := blockPlace_add_le stack entrySize entryAlign blockSize blockAlign
  obtain ⟨-, hentryAlign', hentry16⟩ := isPowerOfTwo_max hentryAlign
  obtain ⟨-, hblockAlign', hblock16⟩ := isPowerOfTwo_max hblockAlign
  have hentryDvd := dvd_of_eq_placeBelow hentry
  have hblockDvd := dvd_of_eq_placeBelow hblock
  rw [Fits, ← hblock] at hfits
  rw [← hblock, ← hentry] at hbelow
  rw [← hentry] at htop
  norm_cast at hfits htop hbelow
  have husable : stack.base.toNat + (blockAddr stack entrySize entryAlign blockSize blockAlign -
      stack.base).toNat = (blockAddr stack entrySize entryAlign blockSize blockAlign).toNat := by
    rw [BitVec.toNat_sub_of_le (BitVec.le_of_lt haccepts.2.2.1)]
    omega
  have hblockInside : stack.base.toNat ≤
        (blockAddr stack entrySize entryAlign blockSize blockAlign).toNat ∧
      (blockAddr stack entrySize entryAlign blockSize blockAlign).toNat + blockSize.toNat ≤
        stack.base.toNat + stack.size.toNat := by omega
  have hentryInside : stack.base.toNat ≤ (entryAddr stack entrySize entryAlign).toNat ∧
      (entryAddr stack entrySize entryAlign).toNat + entrySize.toNat ≤
        stack.base.toNat + stack.size.toNat := by omega
  rw [carveStack, if_pos haccepts]
  exact
    { enough_usable := hfits
      stackTop_eq := rfl
      base_add_usableSize := husable
      records_apart := Or.inl hbelow
      block_inside := hblockInside
      entry_inside := hentryInside
      entry_aligned := ⟨hentryAlign'.trans hentryDvd, hentry16.trans hentryDvd⟩
      block_aligned := ⟨hblockAlign'.trans hblockDvd, hblock16.trans hblockDvd⟩ }

include hw hstack hentryAlign hblockAlign hentrySize hblockSize in
/-- **What fits is sound, and what does not fit is refused.** -/
theorem carveStack_sound :
    ((carveStack stack entrySize entryAlign blockSize blockAlign).fits = true →
        (carveStack stack entrySize entryAlign blockSize blockAlign).Sound stack entrySize
          entryAlign blockSize blockAlign) ∧
      (¬ Fits stack entrySize entryAlign blockSize blockAlign →
        (carveStack stack entrySize entryAlign blockSize blockAlign).fits = false) := by
  constructor
  · intro hfits
    rw [carveStack_fits_iff_accepts] at hfits
    rcases placed_or_refused hw hstack hentryAlign hblockAlign hentrySize hblockSize with
      ⟨hentry, hblock⟩ | ⟨hrefused, -⟩
    · exact sound_of_accepts hw hstack hentryAlign hblockAlign hentry hblock hfits
    · exact absurd hfits hrefused
  · intro hunfit
    rw [← Bool.not_eq_true,
      carveStack_fits_iff hw hstack hentryAlign hblockAlign hentrySize hblockSize]
    exact fun h ↦ hunfit h.1

/-- A task of 200 bytes and a body of 48 on a stack of 16 KiB; and a body that is larger than the
address of the top. -/
theorem carveStack_sound_here :
    (carveStack (w := 64) ⟨0x7f0000001000, 0x4000⟩ 48 8 200 16).Sound ⟨0x7f0000001000, 0x4000⟩
        48 8 200 16 ∧
      (carveStack (w := 64) ⟨0x1000, 0x4000⟩ 0x6000 8 200 16).fits = false :=
  ⟨(carveStack_sound (by decide) (by decide) ⟨3, by decide⟩ ⟨4, by decide⟩ (by decide)
      (by decide)).1 (by decide),
    (carveStack_sound (by decide) (by decide) ⟨3, by decide⟩ ⟨4, by decide⟩ (by decide)
      (by decide)).2 (by decide)⟩

end Sound

end Stackfull.Coro
