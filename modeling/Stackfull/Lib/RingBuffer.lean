import Mathlib.Data.List.Basic
import Mathlib.Data.Nat.ModEq
import Mathlib.Logic.Function.Basic
import Mathlib.Tactic.Common

/-!
# A circular buffer as a bounded FIFO

Storage of `capacity` slots, the index of the first occupied slot and the number of occupied
slots. An empty slot holds `none`, so a read of storage nothing was constructed in is visible.

`RingBuffer.contents` lists the occupied slots in order; `RingBuffer.contents_push` and
`RingBuffer.contents_pop` say that a push appends to it and that a pop takes its first element. Both
need the buffer to be well formed (`RingBuffer.WellFormed`), which both operations preserve.
-/

set_option autoImplicit false
set_option relaxedAutoImplicit false
set_option linter.dupNamespace false

namespace Stackfull.Lib

universe u

/-- A circular buffer of slots that hold a value or nothing. -/
structure RingBuffer (T : Type u) where
  capacity : ℕ
  slots : ℕ → Option T
  head : ℕ
  count : ℕ

namespace RingBuffer

variable {T : Type u}

/-- The buffer with every slot empty. -/
def empty (capacity : ℕ) : RingBuffer T where
  capacity := capacity
  slots := fun _ ↦ none
  head := 0
  count := 0

/-- Constructs a value in the slot behind the last occupied one. -/
def push (r : RingBuffer T) (value : T) : RingBuffer T :=
  { r with
    slots := Function.update r.slots ((r.head + r.count) % r.capacity) (some value)
    count := r.count + 1 }

/-- Moves the value out of the first occupied slot and leaves the slot empty. -/
def pop (r : RingBuffer T) : Option T × RingBuffer T :=
  (r.slots r.head,
    { r with
      slots := Function.update r.slots r.head none
      head := (r.head + 1) % r.capacity
      count := r.count - 1 })

/-- The slots in use, first to last. -/
def contents (r : RingBuffer T) : List (Option T) :=
  (List.range r.count).map fun i ↦ r.slots ((r.head + i) % r.capacity)

/-- The indices of a buffer lie inside its storage. -/
structure WellFormed (r : RingBuffer T) : Prop where
  head_lt : r.head < r.capacity
  count_le : r.count ≤ r.capacity

@[simp]
theorem contents_empty (capacity : ℕ) : (empty capacity : RingBuffer T).contents = [] := rfl

@[simp]
theorem length_contents (r : RingBuffer T) : r.contents.length = r.count := by
  simp [contents]

@[simp]
theorem push_count (r : RingBuffer T) (value : T) : (r.push value).count = r.count + 1 := rfl

@[simp]
theorem push_capacity (r : RingBuffer T) (value : T) : (r.push value).capacity = r.capacity := rfl

@[simp]
theorem pop_count (r : RingBuffer T) : r.pop.2.count = r.count - 1 := rfl

@[simp]
theorem pop_capacity (r : RingBuffer T) : r.pop.2.capacity = r.capacity := rfl

theorem wellFormed_empty {capacity : ℕ} (hcapacity : 0 < capacity) :
    (empty capacity : RingBuffer T).WellFormed :=
  ⟨hcapacity, Nat.zero_le _⟩

theorem WellFormed.push {r : RingBuffer T} (hr : r.WellFormed) (hroom : r.count < r.capacity)
    (value : T) : (r.push value).WellFormed :=
  ⟨hr.head_lt, hroom⟩

theorem WellFormed.pop {r : RingBuffer T} (hr : r.WellFormed) : r.pop.2.WellFormed :=
  ⟨Nat.mod_lt _ (Nat.zero_lt_of_lt hr.head_lt), le_trans (Nat.sub_le _ _) hr.count_le⟩

/-- Two offsets below the capacity name the same slot only when they are equal. -/
theorem slot_injective {capacity head i j : ℕ} (hi : i < capacity) (hj : j < capacity)
    (hslot : (head + i) % capacity = (head + j) % capacity) : i = j := by
  have hmod : i ≡ j [MOD capacity] := Nat.ModEq.add_left_cancel' head hslot
  rwa [Nat.ModEq, Nat.mod_eq_of_lt hi, Nat.mod_eq_of_lt hj] at hmod

/-- A push with room left appends to the contents. -/
theorem contents_push {r : RingBuffer T} (hroom : r.count < r.capacity) (value : T) :
    (r.push value).contents = r.contents ++ [some value] := by
  simp only [contents, push, List.range_succ, List.map_append, List.map_cons, List.map_nil,
    Function.update_self]
  congr 1
  refine List.map_congr_left fun i hi ↦ ?_
  have hcount : i < r.count := List.mem_range.mp hi
  have hne : (r.head + i) % r.capacity ≠ (r.head + r.count) % r.capacity := fun hslot ↦
    absurd (slot_injective (by omega) hroom hslot) (by omega)
  exact Function.update_of_ne hne _ _

/-- A pop of a nonempty buffer takes the first element of the contents. -/
theorem contents_pop {r : RingBuffer T} (hr : r.WellFormed) (hcount : r.count ≠ 0) :
    r.contents = r.pop.1 :: r.pop.2.contents := by
  obtain ⟨rest, hrest⟩ := Nat.exists_eq_succ_of_ne_zero hcount
  have hbound := hr.count_le
  have hpos : 0 < r.capacity := Nat.zero_lt_of_lt hr.head_lt
  simp only [contents, pop, hrest, List.range_succ_eq_map, List.map_cons, List.map_map,
    Nat.succ_sub_one, Nat.add_zero, Nat.mod_eq_of_lt hr.head_lt]
  congr 1
  refine List.map_congr_left fun i hi ↦ ?_
  have hlt : i < rest := List.mem_range.mp hi
  have hslot : ((r.head + 1) % r.capacity + i) % r.capacity = (r.head + (i + 1)) % r.capacity := by
    rw [Nat.mod_add_mod, Nat.add_assoc, Nat.add_comm 1 i]
  have hne : (r.head + (i + 1)) % r.capacity ≠ r.head := by
    intro heq
    have hzero : (r.head + (i + 1)) % r.capacity = (r.head + 0) % r.capacity := by
      rw [heq, Nat.add_zero, Nat.mod_eq_of_lt hr.head_lt]
    exact absurd (slot_injective (by omega) hpos hzero) (by omega)
  simp only [Function.comp_apply, hslot, Nat.succ_eq_add_one]
  exact (Function.update_of_ne hne _ _).symm

end RingBuffer

end Stackfull.Lib
