import Mathlib.Algebra.Group.Nat.Defs
import Mathlib.Data.Set.BooleanAlgebra
import Mathlib.Data.Set.Function
import Mathlib.Order.CompletePartialOrder
import Mathlib.Tactic.Common

/-!
# Memories of bytes

A memory gives a byte to each address of `w` bits. Numbers are stored with the least byte first
(`Bytes.write`, `Bytes.read`), at the addresses of a `span`, which goes around the end of the range
if it has to. What is read is what was written there last (`Bytes.read_write_self`), and a write
is seen by nobody who reads elsewhere (`Bytes.read_write_of_disjoint`).

A partial memory leaves bytes open. It is right about a memory if that has the bytes it names.
-/

set_option autoImplicit false
set_option relaxedAutoImplicit false
set_option linter.dupNamespace false

namespace Stackfull.Lib

variable {w : ℕ}

/-- A byte for each address. -/
abbrev Bytes (w : ℕ) := BitVec w → BitVec 8

/-- The addresses of `n` bytes from `a` on. -/
def span (a : BitVec w) (n : ℕ) : Set (BitVec w) := {x | (x - a).toNat < n}

section Spans

variable {a b x : BitVec w} {i j n k : ℕ}

instance : Decidable (x ∈ span a n) := inferInstanceAs (Decidable ((x - a).toNat < n))

theorem toNat_ofNat_le (i : ℕ) : (BitVec.ofNat w i).toNat ≤ i :=
  (BitVec.toNat_ofNat ..).trans_le (Nat.mod_le ..)

theorem mem_span_iff : x ∈ span a n ↔ ∃ i < n, x = a + BitVec.ofNat w i := by
  constructor
  · intro hx
    refine ⟨(x - a).toNat, hx, ?_⟩
    rw [BitVec.ofNat_toNat, BitVec.setWidth_eq, BitVec.add_comm, BitVec.sub_add_cancel]
  · rintro ⟨i, hi, rfl⟩
    change (a + BitVec.ofNat w i - a).toNat < n
    rw [BitVec.add_comm, BitVec.add_sub_cancel]
    exact (toNat_ofNat_le i).trans_lt hi

theorem span_mono (h : n ≤ k) : span a n ⊆ span a k := fun _ hx ↦ Nat.lt_of_lt_of_le hx h

/-- A part of a span. -/
theorem span_add_subset (h : i + n ≤ k) : span (a + BitVec.ofNat w i) n ⊆ span a k := by
  intro x hx
  obtain ⟨j, hj, rfl⟩ := mem_span_iff.mp hx
  refine mem_span_iff.mpr ⟨i + j, by omega, ?_⟩
  rw [BitVec.add_assoc, BitVec.ofNat_add]

/-- Parts of a span that follow each other have no byte in common. -/
theorem disjoint_span_add (h : i + n ≤ j) (hj : j + k ≤ 2 ^ w) :
    Disjoint (span (a + BitVec.ofNat w i) n) (span (a + BitVec.ofNat w j) k) := by
  rw [Set.disjoint_left]
  intro x hx hx'
  obtain ⟨p, hp, rfl⟩ := mem_span_iff.mp hx
  obtain ⟨q, hq, heq⟩ := mem_span_iff.mp hx'
  rw [BitVec.add_assoc, BitVec.add_assoc, BitVec.add_right_inj, ← BitVec.ofNat_add,
    ← BitVec.ofNat_add] at heq
  have hnat := congrArg BitVec.toNat heq
  rw [BitVec.toNat_ofNat, BitVec.toNat_ofNat, Nat.mod_eq_of_lt (by omega),
    Nat.mod_eq_of_lt (by omega)] at hnat
  omega

end Spans

/-! ### Numbers as bytes -/

/-- The `n` low bytes of a number, the least first. -/
def encode : ℕ → ℕ → List (BitVec 8)
  | 0, _ => []
  | n + 1, value => BitVec.ofNat 8 value :: encode n (value / 256)

/-- The number of which these are the bytes. -/
def decode : List (BitVec 8) → ℕ
  | [] => 0
  | b :: rest => b.toNat + 256 * decode rest

@[simp] theorem length_encode (n value : ℕ) : (encode n value).length = n := by
  induction n generalizing value with
  | zero => rfl
  | succ n ih => rw [encode, List.length_cons, ih]

theorem decode_encode (n value : ℕ) : decode (encode n value) = value % 256 ^ n := by
  induction n generalizing value with
  | zero => rw [encode, decode, Nat.pow_zero, Nat.mod_one]
  | succ n ih =>
    have hpow : 256 ^ (n + 1) = 256 * 256 ^ n := Nat.pow_succ'
    rw [encode, decode, ih, BitVec.toNat_ofNat, hpow, Nat.mod_mul]

theorem decode_lt (bytes : List (BitVec 8)) : decode bytes < 256 ^ bytes.length := by
  induction bytes with
  | nil => exact Nat.one_pos
  | cons b rest ih =>
    have hb := b.isLt
    rw [decode, List.length_cons, Nat.pow_succ]
    omega

theorem encode_decode (bytes : List (BitVec 8)) : encode bytes.length (decode bytes) = bytes := by
  induction bytes with
  | nil => rfl
  | cons b rest ih =>
    have hb := b.isLt
    have hlow : BitVec.ofNat 8 (b.toNat + 256 * decode rest) = b := by
      refine BitVec.eq_of_toNat_eq ?_
      rw [BitVec.toNat_ofNat]
      omega
    have hrest : (b.toNat + 256 * decode rest) / 256 = decode rest := by omega
    rw [List.length_cons, encode, decode, hlow, hrest, ih]

namespace Bytes

variable {m m' : Bytes w} {a b x : BitVec w} {n k value : ℕ} {S : Set (BitVec w)}

/-- The number in `n` bytes. -/
def read (m : Bytes w) (a : BitVec w) (n : ℕ) : ℕ :=
  decode ((List.range n).map fun i ↦ m (a + BitVec.ofNat w i))

/-- A number is stored in `n` bytes. -/
def write (m : Bytes w) (a : BitVec w) (n value : ℕ) : Bytes w :=
  fun x ↦ (encode n value)[(x - a).toNat]?.getD (m x)

theorem write_of_notMem (hx : x ∉ span a n) : m.write a n value x = m x := by
  have hlen : (encode n value).length ≤ (x - a).toNat := by
    rw [length_encode]
    exact Nat.le_of_not_lt hx
  rw [write, List.getElem?_eq_none hlen, Option.getD_none]

/-- The same bytes are written whatever was there. -/
theorem write_of_mem (hx : x ∈ span a n) : m.write a n value x = m'.write a n value x := by
  have hlen : (x - a).toNat < (encode n value).length := by rwa [length_encode]
  rw [write, write, List.getElem?_eq_getElem hlen, Option.getD_some, Option.getD_some]

/-- A write changes nothing elsewhere. -/
theorem write_eqOn : Set.EqOn (m.write a n value) m (span a n)ᶜ := fun _ hx ↦ write_of_notMem hx

theorem write_congr (h : Set.EqOn m m' S) :
    Set.EqOn (m.write a n value) (m'.write a n value) S := by
  intro x hx
  by_cases hspan : x ∈ span a n
  · exact write_of_mem hspan
  · rw [write_of_notMem hspan, write_of_notMem hspan]
    exact h hx

/-- What is read depends on the bytes that are read. -/
theorem read_congr (h : Set.EqOn m m' (span a n)) : m.read a n = m'.read a n := by
  refine congrArg decode (List.map_congr_left fun i hi ↦ h ?_)
  exact mem_span_iff.mpr ⟨i, List.mem_range.mp hi, rfl⟩

/-- **What was written is read.** -/
theorem read_write_self (h : n ≤ 2 ^ w) : (m.write a n value).read a n = value % 256 ^ n := by
  rw [← decode_encode]
  refine congrArg decode (List.ext_getElem (by simp) fun i hi hi' ↦ ?_)
  rw [length_encode] at hi'
  rw [List.getElem_map, List.getElem_range, write, BitVec.add_comm, BitVec.add_sub_cancel,
    BitVec.toNat_ofNat, Nat.mod_eq_of_lt (by omega),
    List.getElem?_eq_getElem (by rwa [length_encode]), Option.getD_some]

/-- **What is read elsewhere does not change.** -/
theorem read_write_of_disjoint (h : Disjoint (span a n) (span b k)) :
    (m.write b k value).read a n = m.read a n :=
  read_congr fun _ hx ↦ write_of_notMem (Set.disjoint_left.mp h hx)

/-- A word that is stored comes back. -/
theorem ofNat_read_write {v : ℕ} (hn : n ≤ 2 ^ w) (hv : 256 ^ n = 2 ^ v) (word : BitVec v) :
    BitVec.ofNat v ((m.write a n word.toNat).read a n) = word := by
  rw [read_write_self hn, hv, Nat.mod_eq_of_lt word.isLt, BitVec.ofNat_toNat, BitVec.setWidth_eq]

/-- A write beside what is read. -/
theorem read_write_beside {i j : ℕ} (hfit : i + n ≤ 2 ^ w) (hfit' : j + k ≤ 2 ^ w)
    (h : j + k ≤ i ∨ i + n ≤ j) :
    (m.write (a + BitVec.ofNat w j) k value).read (a + BitVec.ofNat w i) n =
      m.read (a + BitVec.ofNat w i) n :=
  read_write_of_disjoint (h.elim (fun h ↦ (disjoint_span_add h hfit).symm)
    fun h ↦ disjoint_span_add h hfit')

/-- Writing back what is read changes nothing. -/
theorem write_read (h : n ≤ 2 ^ w) : m.write a n (m.read a n) = m := by
  funext x
  by_cases hx : x ∈ span a n
  · obtain ⟨i, hi, rfl⟩ := mem_span_iff.mp hx
    have hbytes := encode_decode ((List.range n).map fun i ↦ m (a + BitVec.ofNat w i))
    rw [List.length_map, List.length_range] at hbytes
    rw [write, read, hbytes, BitVec.add_comm, BitVec.add_sub_cancel, BitVec.toNat_ofNat,
      Nat.mod_eq_of_lt (by omega), List.getElem?_map, List.getElem?_range hi, BitVec.add_comm]
    rfl
  · exact write_of_notMem hx

/-- A word that is read may be stored again. -/
theorem write_ofNat_read {v : ℕ} (hn : n ≤ 2 ^ w) (hv : 256 ^ n = 2 ^ v) :
    m.write a n (BitVec.ofNat v (m.read a n)).toNat = m := by
  have hlt : m.read a n < 2 ^ v := by
    have h := decode_lt ((List.range n).map fun i ↦ m (a + BitVec.ofNat w i))
    rwa [List.length_map, List.length_range, hv] at h
  rw [BitVec.toNat_ofNat, Nat.mod_eq_of_lt hlt]
  exact write_read hn

end Bytes

/-! ### Partial memories -/

/-- A byte for some of the addresses. -/
abbrev PartialBytes (w : ℕ) := BitVec w → Option (BitVec 8)

namespace PartialBytes

variable {h : PartialBytes w} {m m' : Bytes w} {a x : BitVec w} {n value : ℕ} {S : Set (BitVec w)}

/-- Nothing is known of a span any more. -/
def forget (h : PartialBytes w) (a : BitVec w) (n : ℕ) : PartialBytes w :=
  fun x ↦ if x ∈ span a n then none else h x

/-- A number is stored. -/
def write (h : PartialBytes w) (a : BitVec w) (n value : ℕ) : PartialBytes w :=
  fun x ↦ (encode n value)[(x - a).toNat]?.orElse fun _ ↦ h x

/-- The memory has the bytes that are named in a set of addresses. -/
def RightOn (h : PartialBytes w) (m : Bytes w) (S : Set (BitVec w)) : Prop :=
  ∀ x ∈ S, ∀ b ∈ h x, m x = b

theorem forget_of_mem (hx : x ∈ span a n) : h.forget a n x = none := if_pos hx

theorem forget_of_notMem (hx : x ∉ span a n) : h.forget a n x = h x := if_neg hx

theorem write_of_notMem (hx : x ∉ span a n) : h.write a n value x = h x := by
  have hlen : (encode n value).length ≤ (x - a).toNat := by
    rw [length_encode]
    exact Nat.le_of_not_lt hx
  rw [write, List.getElem?_eq_none hlen]
  rfl

/-- The bytes that are written are those of the memory that the number is in. -/
theorem write_of_mem (hx : x ∈ span a n) : h.write a n value x = some (m.write a n value x) := by
  have hlen : (x - a).toNat < (encode n value).length := by rwa [length_encode]
  rw [write, Bytes.write, List.getElem?_eq_getElem hlen]
  rfl

end PartialBytes

end Stackfull.Lib
