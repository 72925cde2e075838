import Mathlib.Data.Nat.Bitwise
import Mathlib.Tactic.Common

/-!
# Cursors packed into a machine word

`queue/include/stackfull/queue/detail/PackedCursor.h`: a word holds `version << IndexBits | index`.
A `Width` says how wide `std::size_t` is; the queues are verified with unbounded words, and the
effect of truncation is studied against that.

A cursor whose index fits its field is the number `version * 2 ^ bits + index`, so that words of one
field width are ordered by version first, and adding to the index is adding to the word.
-/

set_option autoImplicit false
set_option relaxedAutoImplicit false
set_option linter.dupNamespace false

namespace Stackfull.Queue

/-- The width of `std::size_t`. -/
inductive Width
  | unbounded
  | bits (width : ℕ)

/-- What is left of a number that is stored in a word. -/
def Width.wrap : Width → ℕ → ℕ
  | .unbounded, value => value
  | .bits width, value => value % 2 ^ width

@[simp]
theorem Width.wrap_unbounded (value : ℕ) : Width.unbounded.wrap value = value :=
  rfl

/-- `bitsToHold`. -/
def bitsToHold (maxValue : ℕ) : ℕ :=
  if maxValue = 0 then 0 else 1 + bitsToHold (maxValue >>> 1)
decreasing_by omega

theorem lt_two_pow_bitsToHold (maxValue : ℕ) : maxValue < 2 ^ bitsToHold maxValue := by
  induction maxValue using bitsToHold.induct with
  | case1 =>
    rw [bitsToHold]
    simp
  | case2 maxValue hpos ih =>
    rw [bitsToHold, if_neg hpos, Nat.pow_add, Nat.pow_one]
    rw [Nat.shiftRight_one] at ih ⊢
    omega

theorem bitsToHold_two_pow_sub_one (k : ℕ) : bitsToHold (2 ^ k - 1) = k := by
  induction k with
  | zero =>
    rw [bitsToHold]
    simp
  | succ k ih =>
    have hpos := Nat.two_pow_pos k
    have hhalf : (2 ^ (k + 1) - 1) >>> 1 = 2 ^ k - 1 := by
      rw [Nat.shiftRight_one, Nat.pow_succ]
      omega
    have hne : 2 ^ (k + 1) - 1 ≠ 0 := by
      rw [Nat.pow_succ]
      omega
    rw [bitsToHold, if_neg hne, hhalf, ih]
    omega

namespace PackedCursor

/-- `make`. -/
def make (width : Width) (bits version index : ℕ) : ℕ :=
  width.wrap (version <<< bits) ||| index

/-- `index`. -/
def index (bits raw : ℕ) : ℕ :=
  raw &&& (2 ^ bits - 1)

/-- `version`. -/
def version (bits raw : ℕ) : ℕ :=
  raw >>> bits

/-- `addIndex`. -/
def addIndex (width : Width) (raw count : ℕ) : ℕ :=
  width.wrap (raw + count)

/-- `nextRound`. -/
def nextRound (bits raw : ℕ) (bump : Bool) : ℕ :=
  (raw - index bits raw) + if bump then 1 <<< bits else 0

variable {bits v v' i i' : ℕ}

theorem index_eq_mod (bits raw : ℕ) : index bits raw = raw % 2 ^ bits :=
  Nat.and_two_pow_sub_one_eq_mod raw bits

theorem version_eq_div (bits raw : ℕ) : version bits raw = raw / 2 ^ bits :=
  Nat.shiftRight_eq_div_pow raw bits

theorem make_eq (hi : i < 2 ^ bits) : make .unbounded bits v i = v * 2 ^ bits + i := by
  unfold make
  rw [Width.wrap_unbounded, ← Nat.shiftLeft_add_eq_or_of_lt hi, Nat.shiftLeft_eq]

theorem index_pack (hi : i < 2 ^ bits) : index bits (v * 2 ^ bits + i) = i := by
  rw [index_eq_mod, Nat.add_comm, Nat.add_mul_mod_self_right, Nat.mod_eq_of_lt hi]

theorem version_pack (hi : i < 2 ^ bits) : version bits (v * 2 ^ bits + i) = v := by
  rw [version_eq_div, Nat.add_comm, Nat.add_mul_div_right _ _ (Nat.two_pow_pos bits),
    Nat.div_eq_of_lt hi, Nat.zero_add]

theorem version_mul_add_index (bits raw : ℕ) :
    version bits raw * 2 ^ bits + index bits raw = raw := by
  rw [version_eq_div, index_eq_mod, Nat.mul_comm]
  exact Nat.div_add_mod raw (2 ^ bits)

theorem index_lt (bits raw : ℕ) : index bits raw < 2 ^ bits := by
  rw [index_eq_mod]
  exact Nat.mod_lt raw (Nat.two_pow_pos bits)

/-- An index that stays in its field does not touch the version. -/
theorem add_one_of_lt {raw : ℕ} (hi : index bits raw + 1 < 2 ^ bits) :
    index bits (raw + 1) = index bits raw + 1 ∧ version bits (raw + 1) = version bits raw := by
  have hraw : raw + 1 = version bits raw * 2 ^ bits + (index bits raw + 1) := by
    rw [← Nat.add_assoc, version_mul_add_index]
  constructor
  · rw [hraw, index_pack hi]
  · rw [hraw, version_pack hi]

/-- Words of one field width are ordered by version first. -/
theorem pack_lt_of_version_lt (hi : i < 2 ^ bits) (hv : v < v') :
    v * 2 ^ bits + i < v' * 2 ^ bits + i' := by
  have hstep : (v + 1) * 2 ^ bits ≤ v' * 2 ^ bits := Nat.mul_le_mul_right _ hv
  rw [Nat.add_mul, Nat.one_mul] at hstep
  omega

theorem nextRound_pack (hi : i < 2 ^ bits) (bump : Bool) :
    nextRound bits (v * 2 ^ bits + i) bump = (v + if bump then 1 else 0) * 2 ^ bits := by
  unfold nextRound
  rw [index_pack hi, Nat.add_sub_cancel]
  cases bump
  · simp
  · simp [Nat.shiftLeft_eq, Nat.add_mul]

end PackedCursor

end Stackfull.Queue
