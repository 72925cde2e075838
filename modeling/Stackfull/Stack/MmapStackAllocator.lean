import Stackfull.Lib.Words

/-!
# Stacks from the kernel

`MmapStackAllocator.cpp`, in words of `w` bits: a mapping is one stack with its guard below it
(`allocate`), or so many slots of a guard and a stack (`allocateMany`), and a stack is unmapped with
its guard (`deallocate`). Rounding up to pages, the guard and the product of slots can each
overflow, and a guard that cannot be protected ends the batch: the stacks before it are handed out,
the rest of the mapping goes back.

The calls that are made to the kernel are a trace. What the kernel answers is a `Kernel`: any
answers at all, but that a mapping is where a mapping can be. `noReserve` and the other flags of a
mapping do not change which bytes it has and are left out.

`Partitions` is what a call is to do with a request, in whole numbers. The loop is followed slot by
slot (`carve_carved`): what has been handed out, and what goes back at once, tiles the mapping.
-/

set_option autoImplicit false
set_option relaxedAutoImplicit false
set_option linter.dupNamespace false

namespace Stackfull.Stack.Mmap

open Stackfull.Lib

/-! ### The kernel -/

variable {w : ℕ}

/-- `errno`. -/
abbrev Errno : Type := ℕ

/-- A call to the kernel, with its answer. `munmap` is not asked whether it failed. -/
inductive SysCall (w : ℕ)
  | mmap (length : BitVec w) (answer : Except Errno (BitVec w))
  | mprotect (range : WordRange w) (answer : Option Errno)
  | munmap (range : WordRange w)

/-- What a call maps. -/
def SysCall.mapped : SysCall w → Option Region
  | .mmap length (.ok mapping) => some ⟨mapping.toNat, length.toNat⟩
  | _ => none

/-- What a call unmaps. -/
def SysCall.unmapped : SysCall w → Option Region
  | .munmap range => some range.toRegion
  | _ => none

/-- `MmapStackAllocatorImpl`: `options.guardPages` and `page`. The guard does not overflow. -/
structure MmapStackAllocator (w : ℕ) where
  guardPages : BitVec w
  page : BitVec w
  page_pos : 0 < page.toNat
  guard_lt : guardPages.toNat * page.toNat < 2 ^ w

/-- The answers of the kernel. A mapping starts at a page, is not at 0 and ends within the memory.
-/
structure Kernel (a : MmapStackAllocator w) where
  mmap : BitVec w → Except Errno (BitVec w)
  mprotect : WordRange w → Option Errno
  mapping_spec : ∀ length mapping, mmap length = .ok mapping →
    0 < mapping.toNat ∧ a.page.toNat ∣ mapping.toNat ∧ mapping.toNat + length.toNat ≤ 2 ^ w

/-! ### The allocator -/

/-- `StackAllocation.error`. -/
inductive AllocationError
  | invalidArgument
  | os (errno : Errno)
  deriving DecidableEq

/-- `StackView`, in words. -/
abbrev StackView (w : ℕ) : Type := WordRange w

/-- `isEmpty`. -/
def isEmpty (stack : StackView w) : Prop := stack.base = 0

instance (stack : StackView w) : Decidable (isEmpty stack) :=
  inferInstanceAs (Decidable (_ = _))

namespace MmapStackAllocator

variable (a : MmapStackAllocator w) (kernel : Kernel a)

/-- `roundUpToPage`. -/
def roundUpToPage (bytes : BitVec w) : BitVec w := (bytes + a.page - 1) / a.page * a.page

/-- `guard`. -/
def guard : BitVec w := a.guardPages * a.page

/-- `guard != 0 and mprotect(start, guard, PROT_NONE) != 0`: the error, and the calls made. -/
def protectGuard (start : BitVec w) : Option Errno × List (SysCall w) :=
  if a.guard ≠ 0 then
    let answer := kernel.mprotect ⟨start, a.guard⟩
    (answer, [.mprotect ⟨start, a.guard⟩ answer])
  else
    (none, [])

/-- `allocate`. -/
def allocate (size : BitVec w) : Except AllocationError (StackView w) × List (SysCall w) :=
  let usable := a.roundUpToPage size
  if usable = 0 ∨ usable > BitVec.allOnes w - a.guard then
    (.error .invalidArgument, [])
  else
    let total := usable + a.guard
    match kernel.mmap total with
    | .error errno => (.error (.os errno), [.mmap total (.error errno)])
    | .ok mapping =>
      match a.protectGuard kernel mapping with
      | (some errno, calls) =>
        (.error (.os errno), .mmap total (.ok mapping) :: calls ++ [.munmap ⟨mapping, total⟩])
      | (none, calls) =>
        (.ok ⟨mapping + a.guard, usable⟩, .mmap total (.ok mapping) :: calls)

/-- The loop of `allocateMany`, with so many slots remaining. -/
def carve (mapping usable slot count : BitVec w) :
    ℕ → BitVec w → List (StackView w) × List (SysCall w)
  | 0, _ => ([], [])
  | remaining + 1, done =>
    let start := mapping + done * slot
    match a.protectGuard kernel start with
    | (some _, calls) => ([], calls ++ [.munmap ⟨start, (count - done) * slot⟩])
    | (none, calls) =>
      let rest := carve mapping usable slot count remaining (done + 1)
      (⟨start + a.guard, usable⟩ :: rest.1, calls ++ rest.2)

/-- `allocateMany`: the stacks written to `out`, which are as many as it returns. -/
def allocateMany (size count : BitVec w) : List (StackView w) × List (SysCall w) :=
  let usable := a.roundUpToPage size
  if count = 0 ∨ usable = 0 ∨ usable > BitVec.allOnes w - a.guard then
    ([], [])
  else
    let slot := usable + a.guard
    if slot > BitVec.allOnes w / count then
      ([], [])
    else
      match kernel.mmap (slot * count) with
      | .error errno => ([], [.mmap (slot * count) (.error errno)])
      | .ok mapping =>
        let carved := a.carve kernel mapping usable slot count count.toNat 0
        (carved.1, .mmap (slot * count) (.ok mapping) :: carved.2)

/-- `deallocate`. -/
def deallocate (stack : StackView w) : List (SysCall w) :=
  if isEmpty stack then
    []
  else
    [.munmap ⟨stack.base - a.guard, stack.size + a.guard⟩]

/-! ### What a call is to do -/

/-- The bytes of a stack, in whole numbers. -/
def usableBytes (size : BitVec w) : ℕ := roundUp size.toNat a.page.toNat

/-- The bytes of a guard. -/
def guardBytes : ℕ := a.guardPages.toNat * a.page.toNat

/-- The bytes of a slot. -/
def slotBytes (size : BitVec w) : ℕ := a.usableBytes size + a.guardBytes

/-- Neither the rounding nor the slot nor the total overflows, or is zero. -/
structure Serviceable (size : BitVec w) (count : ℕ) : Prop where
  rounding_lt : size.toNat + a.page.toNat - 1 < 2 ^ w
  usable_pos : 0 < a.usableBytes size
  slot_lt : a.slotBytes size < 2 ^ w
  count_pos : 0 < count
  total_lt : a.slotBytes size * count < 2 ^ w

/-- The guard of a stack: the bytes below it. -/
def guardOf (stack : StackView w) : Region := ⟨stack.base.toNat - a.guardBytes, a.guardBytes⟩

/-- What is unmapped in the end: with each stack, and at once. -/
def released (views : List (StackView w)) (calls : List (SysCall w)) : List Region :=
  (views.flatMap a.deallocate ++ calls).filterMap SysCall.unmapped

/-- A request is refused, or it is for one mapping, which is partitioned among the stacks that are
handed out and what is given back at once. -/
structure Partitions (size : BitVec w) (count : ℕ) (views : List (StackView w))
    (calls : List (SysCall w)) : Prop where
  refused : ¬ a.Serviceable size count → views = [] ∧ calls = []
  asked : a.Serviceable size count →
    calls.head? = some (.mmap (BitVec.ofNat w (a.slotBytes size * count))
      (kernel.mmap (BitVec.ofNat w (a.slotBytes size * count))))
  aligned : ∀ s ∈ views, a.page.toNat ∣ s.base.toNat
  rounded : ∀ s ∈ views, s.size.toNat = a.usableBytes size
  guarded : ∀ s ∈ views, a.guardBytes ≤ s.base.toNat ∧
    ∃ mapping ∈ calls.filterMap SysCall.mapped, (a.guardOf s).Inside mapping ∧
      s.toRegion.Inside mapping
  guard_protected : 0 < a.guardBytes → ∀ s ∈ views,
    ∃ range, range.toRegion = a.guardOf s ∧ .mprotect range none ∈ calls
  apart : (views.flatMap fun s ↦ [a.guardOf s, s.toRegion]).Pairwise Region.Apart
  released_apart : (a.released views calls).Pairwise Region.Apart
  released_pages : ∀ r ∈ a.released views calls, a.page.toNat ∣ r.base ∧ a.page.toNat ∣ r.size
  released_bytes : Region.bytes (a.released views calls) =
    Region.bytes (calls.filterMap SysCall.mapped)

/-! ### Sizes in words -/

section Sizes

variable {a} {size count : BitVec w} {n : ℕ}

theorem toNat_guard : a.guard.toNat = a.guardBytes := BitVec.toNat_mul_of_lt a.guard_lt

theorem toNat_roundUpToPage (h : size.toNat + a.page.toNat - 1 < 2 ^ w) :
    (a.roundUpToPage size).toNat = a.usableBytes size := by
  rw [roundUpToPage, toNat_roundUp a.page_pos, if_pos h, usableBytes]

/-- What the first test of both functions lets pass. -/
theorem roundUpToPage_accepted_iff :
    ¬ (a.roundUpToPage size = 0 ∨ a.roundUpToPage size > BitVec.allOnes w - a.guard) ↔
      size.toNat + a.page.toNat - 1 < 2 ^ w ∧ 0 < a.usableBytes size ∧
        a.slotBytes size < 2 ^ w := by
  rw [not_or, gt_iff_lt, allOnes_sub_lt_iff, toNat_guard, eq_zero_iff_toNat, roundUpToPage,
    toNat_roundUp a.page_pos, slotBytes, usableBytes]
  split_ifs with h
  · omega
  · omega

theorem toNat_slot (hrounding : size.toNat + a.page.toNat - 1 < 2 ^ w)
    (hslot : a.slotBytes size < 2 ^ w) :
    (a.roundUpToPage size + a.guard).toNat = a.slotBytes size := by
  have hsum : (a.roundUpToPage size).toNat + a.guard.toNat = a.slotBytes size := by
    rw [toNat_roundUpToPage hrounding, toNat_guard, slotBytes]
  rw [BitVec.toNat_add_of_lt (by rw [hsum]; exact hslot), hsum]

end Sizes

/-! ### Slots -/

/-- A stack and its guard. -/
def slotOf (view : StackView w) : Region :=
  ⟨view.base.toNat - a.guardBytes, view.size.toNat + a.guardBytes⟩

/-- There is a guard below the stack, and neither address wraps. -/
structure HasGuard (view : StackView w) : Prop where
  base_pos : 0 < view.base.toNat
  guard_le : a.guardBytes ≤ view.base.toNat
  slot_lt : view.size.toNat + a.guardBytes < 2 ^ w

section Slots

variable {a kernel} {view : StackView w} {views : List (StackView w)} {calls : List (SysCall w)}

theorem unmapped_deallocate (h : a.HasGuard view) :
    (a.deallocate view).filterMap SysCall.unmapped = [a.slotOf view] := by
  have hnonempty : ¬ isEmpty view := fun hempty ↦
    h.base_pos.ne' (eq_zero_iff_toNat.mp hempty)
  have hbase : (view.base - a.guard).toNat = view.base.toNat - a.guardBytes := by
    rw [BitVec.toNat_sub_of_le (by rw [BitVec.le_def, toNat_guard]; exact h.guard_le), toNat_guard]
  have hsize : (view.size + a.guard).toNat = view.size.toNat + a.guardBytes := by
    rw [BitVec.toNat_add_of_lt (by rw [toNat_guard]; exact h.slot_lt), toNat_guard]
  rw [deallocate, if_neg hnonempty, slotOf, ← hbase, ← hsize]
  rfl

/-- Each stack gives back its slot. -/
theorem released_eq (h : ∀ v ∈ views, a.HasGuard v) :
    a.released views calls = views.map a.slotOf ++ calls.filterMap SysCall.unmapped := by
  rw [released, List.filterMap_append, List.filterMap_flatMap, List.append_left_inj]
  induction views with
  | nil => rfl
  | cons v views ih =>
    rw [List.flatMap_cons, List.map_cons, unmapped_deallocate (h v List.mem_cons_self),
      ih fun u hu ↦ h u (List.mem_cons_of_mem _ hu)]
    rfl

theorem guardOf_inside (h : a.HasGuard view) : (a.guardOf view).Inside (a.slotOf view) := by
  refine ⟨le_rfl, ?_⟩
  have := h.guard_le
  simp only [guardOf, slotOf]
  omega

theorem toRegion_inside (h : a.HasGuard view) : view.toRegion.Inside (a.slotOf view) := by
  have := h.guard_le
  simp only [Region.Inside, WordRange.toRegion, slotOf]
  omega

theorem guardOf_apart (h : a.HasGuard view) : (a.guardOf view).Apart view.toRegion := by
  have := h.guard_le
  exact Or.inl (by simp only [guardOf, WordRange.toRegion]; omega)

/-- Slots that are apart keep their guards and their stacks apart. -/
theorem pairwise_guards (h : ∀ v ∈ views, a.HasGuard v)
    (hapart : (views.map a.slotOf).Pairwise Region.Apart) :
    (views.flatMap fun v ↦ [a.guardOf v, v.toRegion]).Pairwise Region.Apart := by
  refine List.pairwise_flatMap.mpr ⟨fun v hv ↦ ?_, ?_⟩
  · exact List.pairwise_pair.mpr (guardOf_apart (h v hv))
  · refine (List.pairwise_map.mp hapart).imp_of_mem fun {u v} hu hv huv r hr q hq ↦ ?_
    refine huv.mono ?_ ?_
    · rcases List.mem_pair.mp hr with rfl | rfl
      · exact guardOf_inside (h u hu)
      · exact toRegion_inside (h u hu)
    · rcases List.mem_pair.mp hq with rfl | rfl
      · exact guardOf_inside (h v hv)
      · exact toRegion_inside (h v hv)

end Slots

/-! ### One slot after the other -/

section Carve

variable {a kernel} {start : BitVec w}

theorem protectGuard_mapped :
    (a.protectGuard kernel start).2.filterMap SysCall.mapped = [] := by
  rw [protectGuard]
  split_ifs <;> rfl

theorem protectGuard_unmapped :
    (a.protectGuard kernel start).2.filterMap SysCall.unmapped = [] := by
  rw [protectGuard]
  split_ifs <;> rfl

/-- A guard that there is has been protected. -/
theorem protectGuard_protects (h : (a.protectGuard kernel start).1 = none)
    (hguard : 0 < a.guardBytes) :
    .mprotect ⟨start, a.guard⟩ none ∈ (a.protectGuard kernel start).2 := by
  have hne : a.guard ≠ 0 := fun hzero ↦ by
    rw [eq_zero_iff_toNat, toNat_guard] at hzero
    exact hguard.ne' hzero
  rw [protectGuard, if_pos hne] at h ⊢
  exact List.mem_singleton.mpr (by rw [show kernel.mprotect ⟨start, a.guard⟩ = none from h])

/-- The mapping has room for the slots, which are whole pages. -/
structure Carvable (a : MmapStackAllocator w) (mapping usable slot count : BitVec w) : Prop where
  slot_eq : slot.toNat = usable.toNat + a.guardBytes
  usable_pos : 0 < usable.toNat
  mapping_pos : 0 < mapping.toNat
  fits : mapping.toNat + count.toNat * slot.toNat ≤ 2 ^ w
  mapping_pages : a.page.toNat ∣ mapping.toNat
  usable_pages : a.page.toNat ∣ usable.toNat

/-- What has come of the mapping from `start` to `stop`. -/
structure Carved (a : MmapStackAllocator w) (usable : BitVec w) (stop start : ℕ)
    (views : List (StackView w)) (calls : List (SysCall w)) : Prop where
  tiles : Region.Tiles stop start
    (views.map a.slotOf ++ calls.filterMap SysCall.unmapped)
  guards : ∀ v ∈ views, a.HasGuard v
  aligned : ∀ v ∈ views, a.page.toNat ∣ v.base.toNat
  sizes : ∀ v ∈ views, v.size = usable
  guard_protected : 0 < a.guardBytes → ∀ v ∈ views,
    ∃ range, range.toRegion = a.guardOf v ∧ .mprotect range none ∈ calls
  pages : ∀ r ∈ calls.filterMap SysCall.unmapped, a.page.toNat ∣ r.base ∧ a.page.toNat ∣ r.size
  mapped : calls.filterMap SysCall.mapped = []

variable {mapping usable slot count done : BitVec w} {remaining : ℕ}

theorem dvd_guardBytes : a.page.toNat ∣ a.guardBytes := Nat.dvd_mul_left _ _

namespace Carvable

variable (h : a.Carvable mapping usable slot count)

include h

theorem slot_pages : a.page.toNat ∣ slot.toNat := by
  rw [h.slot_eq]
  exact Nat.dvd_add h.usable_pages dvd_guardBytes

/-- A slot that is not yet carved lies in the mapping. -/
theorem slot_fits (hdone : done.toNat < count.toNat) :
    mapping.toNat + done.toNat * slot.toNat + slot.toNat ≤ 2 ^ w := by
  have := Nat.mul_le_mul_right slot.toNat (Nat.succ_le_of_lt hdone)
  rw [Nat.succ_mul] at this
  have := h.fits
  omega

theorem toNat_start (hdone : done.toNat < count.toNat) :
    (mapping + done * slot).toNat = mapping.toNat + done.toNat * slot.toNat := by
  have hfits := h.slot_fits hdone
  have hmapping := h.mapping_pos
  have hslot := h.slot_eq
  have husable := h.usable_pos
  have hmul : (done * slot).toNat = done.toNat * slot.toNat :=
    BitVec.toNat_mul_of_lt (by omega)
  rw [BitVec.toNat_add_of_lt (by omega), hmul]

theorem toNat_rest (hdone : done.toNat ≤ count.toNat) :
    ((count - done) * slot).toNat = (count.toNat - done.toNat) * slot.toNat := by
  have hsub := BitVec.toNat_sub_of_le (BitVec.le_def.mpr hdone)
  have hle := Nat.mul_le_mul_right slot.toNat (Nat.sub_le count.toNat done.toNat)
  have hfits := h.fits
  have hmapping := h.mapping_pos
  rw [BitVec.toNat_mul_of_lt (by rw [hsub]; omega), hsub]

end Carvable

/-- The stack of a slot, with its guard. -/
theorem carvedView_spec (h : a.Carvable mapping usable slot count)
    (hdone : done.toNat < count.toNat) :
    a.HasGuard ⟨mapping + done * slot + a.guard, usable⟩ ∧
      (mapping + done * slot + a.guard).toNat =
        mapping.toNat + done.toNat * slot.toNat + a.guardBytes := by
  have hfits := h.slot_fits hdone
  have hslot := h.slot_eq
  have husable := h.usable_pos
  have hmapping := h.mapping_pos
  have hbase : (mapping + done * slot + a.guard).toNat =
      mapping.toNat + done.toNat * slot.toNat + a.guardBytes := by
    rw [BitVec.toNat_add_of_lt, h.toNat_start hdone, toNat_guard]
    rw [h.toNat_start hdone, toNat_guard]
    omega
  have hsize : usable.toNat + a.guardBytes < 2 ^ w := by omega
  refine ⟨⟨?_, ?_, hsize⟩, hbase⟩
  · rw [hbase]
    omega
  · rw [hbase]
    omega

theorem carve_of_error {errno : Errno}
    (hprotect : (a.protectGuard kernel (mapping + done * slot)).1 = some errno) :
    a.carve kernel mapping usable slot count (remaining + 1) done =
      ([], (a.protectGuard kernel (mapping + done * slot)).2 ++
        [SysCall.munmap ⟨mapping + done * slot, (count - done) * slot⟩]) := by
  rw [carve]
  rcases h : a.protectGuard kernel (mapping + done * slot) with ⟨answer, calls⟩
  rw [h] at hprotect
  obtain rfl : answer = some errno := hprotect
  rfl

theorem carve_of_protected (hprotect : (a.protectGuard kernel (mapping + done * slot)).1 = none) :
    a.carve kernel mapping usable slot count (remaining + 1) done =
      (⟨mapping + done * slot + a.guard, usable⟩ ::
          (a.carve kernel mapping usable slot count remaining (done + 1)).1,
        (a.protectGuard kernel (mapping + done * slot)).2 ++
          (a.carve kernel mapping usable slot count remaining (done + 1)).2) := by
  rw [carve]
  rcases h : a.protectGuard kernel (mapping + done * slot) with ⟨answer, calls⟩
  rw [h] at hprotect
  obtain rfl : answer = none := hprotect
  rfl

/-- The slot that could not be protected, and all after it, go back at once. -/
theorem Carved.of_error (h : a.Carvable mapping usable slot count)
    (hdone : done.toNat < count.toNat) :
    a.Carved usable (mapping.toNat + count.toNat * slot.toNat)
      (mapping.toNat + done.toNat * slot.toNat) []
      ((a.protectGuard kernel (mapping + done * slot)).2 ++
        [SysCall.munmap ⟨mapping + done * slot, (count - done) * slot⟩]) := by
  have hunmapped : ((a.protectGuard kernel (mapping + done * slot)).2 ++
      [SysCall.munmap ⟨mapping + done * slot, (count - done) * slot⟩]).filterMap SysCall.unmapped =
        [⟨mapping.toNat + done.toNat * slot.toNat, (count.toNat - done.toNat) * slot.toNat⟩] := by
    rw [List.filterMap_append, protectGuard_unmapped, ← h.toNat_start hdone,
      ← h.toNat_rest hdone.le]
    rfl
  have hsplit : done.toNat * slot.toNat + (count.toNat - done.toNat) * slot.toNat =
      count.toNat * slot.toNat := by
    rw [← Nat.add_mul, Nat.add_sub_cancel' hdone.le]
  exact
    { tiles := by
        rw [hunmapped]
        exact ⟨rfl, by rw [← hsplit, ← Nat.add_assoc]; rfl⟩
      guards := List.forall_mem_nil _
      aligned := List.forall_mem_nil _
      sizes := List.forall_mem_nil _
      guard_protected := fun _ ↦ List.forall_mem_nil _
      pages := by
        rw [hunmapped]
        exact List.forall_mem_singleton.mpr
          ⟨Nat.dvd_add h.mapping_pages (h.slot_pages.mul_left _), h.slot_pages.mul_left _⟩
      mapped := by
        rw [List.filterMap_append, protectGuard_mapped]
        rfl }

/-- A protected slot is handed out. -/
theorem Carved.of_protected (h : a.Carvable mapping usable slot count)
    (hdone : done.toNat < count.toNat)
    (hprotect : (a.protectGuard kernel (mapping + done * slot)).1 = none)
    {views : List (StackView w)} {calls : List (SysCall w)} {stop : ℕ}
    (hcarved : a.Carved usable stop (mapping.toNat + (done.toNat + 1) * slot.toNat) views calls) :
    a.Carved usable stop (mapping.toNat + done.toNat * slot.toNat)
      (⟨mapping + done * slot + a.guard, usable⟩ :: views)
      ((a.protectGuard kernel (mapping + done * slot)).2 ++ calls) := by
  obtain ⟨hguard, hbase⟩ := carvedView_spec h hdone
  have hunmapped : ((a.protectGuard kernel (mapping + done * slot)).2 ++ calls).filterMap
      SysCall.unmapped = calls.filterMap SysCall.unmapped := by
    rw [List.filterMap_append, protectGuard_unmapped, List.nil_append]
  have hslot : a.slotOf ⟨mapping + done * slot + a.guard, usable⟩ =
      ⟨mapping.toNat + done.toNat * slot.toNat, slot.toNat⟩ := by
    rw [slotOf, hbase, Nat.add_sub_cancel, h.slot_eq]
  exact
    { tiles := by
        rw [hunmapped, List.map_cons, hslot]
        refine ⟨rfl, ?_⟩
        rw [Nat.add_assoc, ← Nat.succ_mul]
        exact hcarved.tiles
      guards := List.forall_mem_cons.mpr ⟨hguard, hcarved.guards⟩
      aligned := by
        refine List.forall_mem_cons.mpr ⟨?_, hcarved.aligned⟩
        rw [hbase]
        exact Nat.dvd_add (Nat.dvd_add h.mapping_pages (h.slot_pages.mul_left _)) dvd_guardBytes
      sizes := List.forall_mem_cons.mpr ⟨rfl, hcarved.sizes⟩
      guard_protected := fun hpos ↦ by
        refine List.forall_mem_cons.mpr ⟨?_, fun v hv ↦ ?_⟩
        · refine ⟨⟨mapping + done * slot, a.guard⟩, ?_,
            List.mem_append_left _ (protectGuard_protects hprotect hpos)⟩
          rw [guardOf, hbase, Nat.add_sub_cancel, WordRange.toRegion, h.toNat_start hdone,
            toNat_guard]
        · obtain ⟨range, hrange, hmem⟩ := hcarved.guard_protected hpos v hv
          exact ⟨range, hrange, List.mem_append_right _ hmem⟩
      pages := hunmapped ▸ hcarved.pages
      mapped := by
        rw [List.filterMap_append, protectGuard_mapped, hcarved.mapped]
        rfl }

/-- **The loop carves what it is given.** -/
theorem carve_carved (kernel : Kernel a) (h : a.Carvable mapping usable slot count)
    (hdone : done.toNat + remaining = count.toNat) :
    a.Carved usable (mapping.toNat + count.toNat * slot.toNat)
      (mapping.toNat + done.toNat * slot.toNat)
      (a.carve kernel mapping usable slot count remaining done).1
      (a.carve kernel mapping usable slot count remaining done).2 := by
  induction remaining generalizing done with
  | zero =>
    have hend : done.toNat = count.toNat := hdone
    rw [hend]
    exact ⟨rfl, List.forall_mem_nil _, List.forall_mem_nil _, List.forall_mem_nil _,
      fun _ ↦ List.forall_mem_nil _, List.forall_mem_nil _, rfl⟩
  | succ remaining ih =>
    have hlt : done.toNat < count.toNat := by omega
    have hnext : (done + 1).toNat = done.toNat + 1 :=
      toNat_add_one ((Nat.succ_le_of_lt hlt).trans_lt count.isLt)
    cases hprotect : (a.protectGuard kernel (mapping + done * slot)).1 with
    | some errno =>
      rw [carve_of_error hprotect]
      exact .of_error h hlt
    | none =>
      rw [carve_of_protected hprotect]
      refine .of_protected h hlt hprotect ?_
      rw [← hnext]
      exact ih (by omega)

end Carve

/-! ### Whole calls -/

section Calls

variable {a kernel} {size count length mapping usable : BitVec w} {n : ℕ}
  {views : List (StackView w)} {calls : List (SysCall w)}

theorem Partitions.refusal (h : ¬ a.Serviceable size n) : a.Partitions kernel size n [] [] where
  refused _ := ⟨rfl, rfl⟩
  asked hs := absurd hs h
  aligned := List.forall_mem_nil _
  rounded := List.forall_mem_nil _
  guarded := List.forall_mem_nil _
  guard_protected _ := List.forall_mem_nil _
  apart := List.Pairwise.nil
  released_apart := List.Pairwise.nil
  released_pages := List.forall_mem_nil _
  released_bytes := rfl

/-- The length that is asked for is the total. -/
theorem ofNat_total (hlength : length.toNat = a.slotBytes size * n) :
    BitVec.ofNat w (a.slotBytes size * n) = length := by
  rw [← hlength, BitVec.ofNat_toNat, BitVec.setWidth_eq]

theorem Partitions.no_mapping (h : a.Serviceable size n)
    (hlength : length.toNat = a.slotBytes size * n) {errno : Errno}
    (hmmap : kernel.mmap length = .error errno) :
    a.Partitions kernel size n [] [.mmap length (.error errno)] where
  refused hs := absurd h hs
  asked _ := by rw [ofNat_total hlength, hmmap]; rfl
  aligned := List.forall_mem_nil _
  rounded := List.forall_mem_nil _
  guarded := List.forall_mem_nil _
  guard_protected _ := List.forall_mem_nil _
  apart := List.Pairwise.nil
  released_apart := List.Pairwise.nil
  released_pages := List.forall_mem_nil _
  released_bytes := rfl

/-- **A mapping that is carved is partitioned.** -/
theorem Partitions.of_carved (h : a.Serviceable size n)
    (hlength : length.toNat = a.slotBytes size * n) (hmmap : kernel.mmap length = .ok mapping)
    (husable : usable.toNat = a.usableBytes size)
    (hcarved : a.Carved usable (mapping.toNat + length.toNat) mapping.toNat views calls) :
    a.Partitions kernel size n views (.mmap length (.ok mapping) :: calls) := by
  have hreleased : a.released views (.mmap length (.ok mapping) :: calls) =
      views.map a.slotOf ++ calls.filterMap SysCall.unmapped := released_eq hcarved.guards
  have hmapped : (SysCall.mmap length (.ok mapping) :: calls).filterMap SysCall.mapped =
      [⟨mapping.toNat, length.toNat⟩] := by
    rw [List.filterMap_cons, hcarved.mapped]
    rfl
  have hinside : ∀ v ∈ views, (a.slotOf v).Inside ⟨mapping.toNat, length.toNat⟩ := fun v hv ↦
    hcarved.tiles.inside (List.mem_append_left _ (List.mem_map_of_mem hv))
  exact
    { refused := fun hs ↦ absurd h hs
      asked := fun _ ↦ by rw [ofNat_total hlength, hmmap]; rfl
      aligned := hcarved.aligned
      rounded := fun v hv ↦ by rw [hcarved.sizes v hv, husable]
      guarded := fun v hv ↦ by
        refine ⟨(hcarved.guards v hv).guard_le, ⟨mapping.toNat, length.toNat⟩, ?_, ?_, ?_⟩
        · rw [hmapped]
          exact List.mem_singleton_self _
        · exact (guardOf_inside (hcarved.guards v hv)).trans (hinside v hv)
        · exact (toRegion_inside (hcarved.guards v hv)).trans (hinside v hv)
      guard_protected := fun hpos v hv ↦ by
        obtain ⟨range, hrange, hmem⟩ := hcarved.guard_protected hpos v hv
        exact ⟨range, hrange, List.mem_cons_of_mem _ hmem⟩
      apart := pairwise_guards hcarved.guards
        (List.pairwise_append.mp hcarved.tiles.pairwise_apart).1
      released_apart := hreleased ▸ hcarved.tiles.pairwise_apart
      released_pages := by
        rw [hreleased]
        refine List.forall_mem_append.mpr
          ⟨List.forall_mem_map.mpr fun v hv ↦ ⟨?_, ?_⟩, hcarved.pages⟩
        · exact Nat.dvd_sub (hcarved.aligned v hv) dvd_guardBytes
        · rw [slotOf, hcarved.sizes v hv, husable]
          exact Nat.dvd_add (dvd_roundUp _ _) dvd_guardBytes
      released_bytes := by
        rw [hreleased, hmapped, hcarved.tiles.bytes_eq]
        exact (Finset.union_empty _).symm }

/-- The tests of `allocateMany` let pass what can be served. -/
theorem serviceable_iff :
    a.Serviceable size count.toNat ↔
      ¬ (count = 0 ∨ a.roundUpToPage size = 0 ∨
          a.roundUpToPage size > BitVec.allOnes w - a.guard) ∧
        ¬ a.roundUpToPage size + a.guard > BitVec.allOnes w / count := by
  rw [not_or, roundUpToPage_accepted_iff, eq_zero_iff_toNat, gt_iff_lt]
  constructor
  · intro h
    rw [allOnes_div_lt_iff h.count_pos, toNat_slot h.rounding_lt h.slot_lt]
    exact ⟨⟨h.count_pos.ne', h.rounding_lt, h.usable_pos, h.slot_lt⟩, not_le.mpr h.total_lt⟩
  · rintro ⟨⟨hcount, hrounding, husable, hslot⟩, htotal⟩
    have hpos := Nat.pos_of_ne_zero hcount
    rw [allOnes_div_lt_iff hpos, toNat_slot hrounding hslot] at htotal
    exact ⟨hrounding, husable, hslot, hpos, not_le.mp htotal⟩

/-- A mapping for a request that can be served has room for its slots. -/
theorem Carvable.of_mmap (h : a.Serviceable size count.toNat)
    (hmmap : kernel.mmap ((a.roundUpToPage size + a.guard) * count) = .ok mapping) :
    a.Carvable mapping (a.roundUpToPage size) (a.roundUpToPage size + a.guard) count := by
  have hslot := toNat_slot h.rounding_lt h.slot_lt
  have husable := toNat_roundUpToPage h.rounding_lt
  obtain ⟨hpos, hpage, hfits⟩ := kernel.mapping_spec _ _ hmmap
  rw [BitVec.toNat_mul_of_lt (by rw [hslot]; exact h.total_lt), Nat.mul_comm] at hfits
  exact
    { slot_eq := by rw [hslot, husable, slotBytes]
      usable_pos := by rw [husable]; exact h.usable_pos
      mapping_pos := hpos
      fits := hfits
      mapping_pages := hpage
      usable_pages := by rw [husable]; exact dvd_roundUp _ _ }

theorem allocateMany_partitions (kernel : Kernel a) (size count : BitVec w) :
    a.Partitions kernel size count.toNat (a.allocateMany kernel size count).1
      (a.allocateMany kernel size count).2 := by
  by_cases h : a.Serviceable size count.toNat
  · obtain ⟨hfirst, hsecond⟩ := serviceable_iff.mp h
    have hslot := toNat_slot h.rounding_lt h.slot_lt
    have hlength : ((a.roundUpToPage size + a.guard) * count).toNat =
        a.slotBytes size * count.toNat := by
      rw [BitVec.toNat_mul_of_lt (by rw [hslot]; exact h.total_lt), hslot]
    simp only [allocateMany, if_neg hfirst, if_neg hsecond]
    cases hmmap : kernel.mmap ((a.roundUpToPage size + a.guard) * count) with
    | error errno => exact .no_mapping h hlength hmmap
    | ok mapping =>
      have hzero : (0 : BitVec w).toNat = 0 := eq_zero_iff_toNat.mp rfl
      have hcarved := carve_carved kernel (.of_mmap h hmmap)
        (hzero.symm ▸ Nat.zero_add count.toNat)
      rw [hzero, Nat.zero_mul, Nat.add_zero, hslot, Nat.mul_comm, ← hlength] at hcarved
      exact .of_carved h hlength hmmap (toNat_roundUpToPage h.rounding_lt) hcarved
  · have hrefused : a.allocateMany kernel size count = ([], []) := by
      rw [serviceable_iff, not_and_or, not_not, not_not] at h
      rw [allocateMany]
      rcases h with hfirst | hsecond
      · rw [if_pos hfirst]
      · dsimp only
        rw [if_pos hsecond, ite_self]
    rw [hrefused]
    exact .refusal h

/-- A single stack is a batch of one. -/
theorem allocateMany_one :
    a.allocateMany kernel size 1 =
      ((a.allocate kernel size).1.toOption.toList, (a.allocate kernel size).2) := by
  have hone : (1 : BitVec w).toNat = 1 :=
    toNat_ofNat_of_lt (Nat.lt_of_le_of_lt (Nat.succ_le_of_lt a.page_pos) a.page.isLt)
  have hne : ¬ (1 : BitVec w) = 0 := by
    rw [eq_zero_iff_toNat, hone]
    decide
  rw [allocateMany, allocate]
  by_cases hrefused : a.roundUpToPage size = 0 ∨
      a.roundUpToPage size > BitVec.allOnes w - a.guard
  · rw [if_pos (Or.inr hrefused), if_pos hrefused]
    rfl
  · have hproduct : ¬ a.roundUpToPage size + a.guard > BitVec.allOnes w / 1 := by
      rw [gt_iff_lt, allOnes_div_lt_iff (hone ▸ Nat.one_pos), hone, Nat.mul_one, not_le]
      exact BitVec.isLt _
    rw [if_neg (not_or.mpr ⟨hne, hrefused⟩), if_neg hrefused]
    dsimp only
    rw [if_neg hproduct, BitVec.ofNat_eq_ofNat, BitVec.mul_one, ← BitVec.ofNat_eq_ofNat, hone]
    cases kernel.mmap (a.roundUpToPage size + a.guard) with
    | error errno => rfl
    | ok mapping =>
      have hstart : mapping + 0 * (a.roundUpToPage size + a.guard) = mapping := by simp
      have hrest : (1 - 0) * (a.roundUpToPage size + a.guard) = a.roundUpToPage size + a.guard := by
        simp
      simp only [carve, hstart, hrest]
      rcases a.protectGuard kernel mapping with ⟨_ | errno, calls⟩
      · dsimp only
        rw [List.append_nil]
        rfl
      · rfl

end Calls

end MmapStackAllocator

end Stackfull.Stack.Mmap
