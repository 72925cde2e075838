import Mathlib.Data.Nat.Bitwise
import Stackfull.Lib.Regions

/-!
# Addresses in machine words

Arithmetic of `w` bits on addresses and sizes, and the numbers that it stands for: what a mask does
that clears the low bits (`toNat_alignDown`), where a difference lands that wraps below zero
(`le_toNat_alignDown_sub`), what rounding up does near the end of the range (`toNat_roundUp`), when
a product or a sum is caught before it wraps. A `WordRange` is a region whose ends are words.
-/

set_option autoImplicit false
set_option relaxedAutoImplicit false
set_option linter.dupNamespace false

namespace Stackfull.Lib

variable {w k : ℕ} {a b value alignment page : BitVec w}

/-! ### Ranges -/

/-- The bytes from `base` up to `base + size`, in words. -/
structure WordRange (w : ℕ) where
  base : BitVec w
  size : BitVec w
  deriving DecidableEq

/-- The region, in numbers. -/
def WordRange.toRegion (r : WordRange w) : Region := ⟨r.base.toNat, r.size.toNat⟩

@[simp] theorem WordRange.toRegion_base (r : WordRange w) : r.toRegion.base = r.base.toNat := rfl

@[simp] theorem WordRange.toRegion_size (r : WordRange w) : r.toRegion.size = r.size.toNat := rfl

/-! ### Sums and differences -/

/-- A number that fits is its word. -/
theorem toNat_ofNat_of_lt {n : ℕ} (h : n < 2 ^ w) : (BitVec.ofNat w n).toNat = n := by
  rw [BitVec.toNat_ofNat, Nat.mod_eq_of_lt h]

theorem eq_zero_iff_toNat : value = 0 ↔ value.toNat = 0 := by
  rw [← BitVec.toNat_inj]
  exact Iff.of_eq (congrArg _ (Nat.zero_mod _))

theorem toNat_add_one (h : value.toNat + 1 < 2 ^ w) : (value + 1).toNat = value.toNat + 1 := by
  have hone : (BitVec.ofNat w 1).toNat = 1 := toNat_ofNat_of_lt (by omega)
  have hlt : value.toNat + (BitVec.ofNat w 1).toNat < 2 ^ w := by rwa [hone]
  exact (BitVec.toNat_add_of_lt hlt).trans (congrArg _ hone)

theorem toNat_sub_one (h : 0 < value.toNat) : (value - 1).toNat = value.toNat - 1 := by
  have hlt := value.isLt
  have hone : (BitVec.ofNat w 1).toNat = 1 := toNat_ofNat_of_lt (by omega)
  have hle : BitVec.ofNat w 1 ≤ value := by rw [BitVec.le_def, hone]; exact h
  exact (BitVec.toNat_sub_of_le hle).trans (by rw [hone])

/-- A difference of small words that wraps is a large word. -/
theorem le_toNat_sub (hlt : a < b) (hb : b.toNat < 2 ^ (w - 1)) : 2 ^ (w - 1) ≤ (a - b).toNat := by
  rw [BitVec.lt_def] at hlt
  have hw : 2 ^ w = 2 ^ (w - 1) * 2 := by
    rw [← Nat.pow_succ]
    congr 1
    have := b.isLt
    rcases Nat.eq_zero_or_pos w with rfl | hpos
    · omega
    · omega
  rw [BitVec.toNat_sub, Nat.mod_eq_of_lt (by omega)]
  omega

/-- A sum that would wrap is caught by a difference. -/
theorem allOnes_sub_lt_iff : BitVec.allOnes w - b < a ↔ 2 ^ w ≤ a.toNat + b.toNat := by
  have hb := b.isLt
  have hle : b ≤ BitVec.allOnes w := by
    rw [BitVec.le_def, BitVec.toNat_allOnes]
    omega
  rw [BitVec.lt_def, BitVec.toNat_sub_of_le hle, BitVec.toNat_allOnes]
  omega

/-- A product that would wrap is caught by a quotient. -/
theorem allOnes_div_lt_iff (h : 0 < b.toNat) :
    BitVec.allOnes w / b < a ↔ 2 ^ w ≤ a.toNat * b.toNat := by
  rw [BitVec.lt_def, BitVec.toNat_udiv, BitVec.toNat_allOnes, Nat.div_lt_iff_lt_mul h]
  have := Nat.two_pow_pos w
  omega

/-! ### Alignment -/

/-- A power of two among the words. -/
theorem lt_width_of_toNat (h : alignment.toNat = 2 ^ k) : k < w :=
  (Nat.pow_lt_pow_iff_right (by decide)).mp (h ▸ alignment.isLt)

/-- The mask rounds down to a multiple. -/
theorem toNat_alignDown (h : alignment.toNat = 2 ^ k) :
    (value &&& ~~~(alignment - 1)).toNat = value.toNat / 2 ^ k * 2 ^ k := by
  have hk := lt_width_of_toNat h
  have hpos : 0 < 2 ^ k := Nat.two_pow_pos k
  have hle : 2 ^ k ≤ 2 ^ w := Nat.pow_le_pow_right (by decide) hk.le
  have hmask : (~~~(alignment - 1)).toNat = 2 ^ w - (2 ^ k - 1 + 1) := by
    rw [BitVec.toNat_not, toNat_sub_one (h ▸ hpos), h]
    omega
  refine Nat.eq_of_testBit_eq fun i ↦ ?_
  rw [BitVec.toNat_and, hmask, Nat.testBit_and, Nat.testBit_two_pow_sub_succ (by omega),
    Nat.testBit_two_pow_sub_one, Nat.testBit_mul_two_pow, Nat.testBit_div_two_pow]
  rcases Nat.lt_or_ge i k with hik | hki
  · simp [hik]
  · rw [Nat.sub_add_cancel hki]
    rcases Nat.lt_or_ge i w with hiw | hwi
    · simp [hki, hiw]
    · simp [Nat.testBit_lt_two_pow
        (value.isLt.trans_le (Nat.pow_le_pow_right (by decide) hwi))]

/-- Aligning does not bring a wrapped difference back among the small words. -/
theorem le_toNat_alignDown_sub (h : alignment.toNat = 2 ^ k) (hlt : a < b)
    (hb : b.toNat < 2 ^ (w - 1)) : 2 ^ (w - 1) ≤ ((a - b) &&& ~~~(alignment - 1)).toNat := by
  rw [toNat_alignDown h]
  have hk : k ≤ w - 1 := Nat.le_sub_one_of_lt (lt_width_of_toNat h)
  calc 2 ^ (w - 1) = 2 ^ (w - 1) / 2 ^ k * 2 ^ k :=
        (Nat.div_mul_cancel (Nat.pow_dvd_pow 2 hk)).symm
    _ ≤ (a - b).toNat / 2 ^ k * 2 ^ k :=
        Nat.mul_le_mul_right _ (Nat.div_le_div_right (le_toNat_sub hlt hb))

/-! ### Rounding up -/

/-- The least multiple of `page` from `bytes` on. -/
def roundUp (bytes page : ℕ) : ℕ := (bytes + page - 1) / page * page

theorem dvd_roundUp (bytes page : ℕ) : page ∣ roundUp bytes page := Nat.dvd_mul_left _ _

theorem roundUp_le (bytes page : ℕ) : roundUp bytes page ≤ bytes + page - 1 := Nat.div_mul_le_self _
    _

theorem le_roundUp {bytes page : ℕ} (h : 0 < page) : bytes ≤ roundUp bytes page := by
  have := Nat.lt_div_mul_add h (a := bytes + page - 1)
  rw [roundUp]
  omega

/-- The sum with one less does not wrap in between. -/
theorem toNat_add_sub_one (h : 0 < page.toNat) :
    (value + page - 1).toNat = (value.toNat + page.toNat - 1) % 2 ^ w := by
  rw [BitVec.add_comm, BitVec.add_sub_comm, BitVec.add_comm, BitVec.toNat_add, toNat_sub_one h,
    Nat.add_sub_assoc h]

/-- Rounding up in words is exact, or it comes to nothing since the sum wraps. -/
theorem toNat_roundUp (h : 0 < page.toNat) :
    ((value + page - 1) / page * page).toNat =
      if value.toNat + page.toNat - 1 < 2 ^ w then roundUp value.toNat page.toNat else 0 := by
  have hv := value.isLt
  have hp := page.isLt
  rw [BitVec.toNat_mul, BitVec.toNat_udiv, toNat_add_sub_one h]
  split_ifs with hlt
  · rw [Nat.mod_eq_of_lt hlt]
    exact Nat.mod_eq_of_lt ((roundUp_le _ _).trans_lt hlt)
  · have hwrap : (value.toNat + page.toNat - 1) % 2 ^ w = value.toNat + page.toNat - 1 - 2 ^ w := by
      rw [Nat.mod_eq_sub_mod (by omega), Nat.mod_eq_of_lt (by omega)]
    rw [hwrap, Nat.div_eq_of_lt (by omega), Nat.zero_mul, Nat.zero_mod]

end Stackfull.Lib
