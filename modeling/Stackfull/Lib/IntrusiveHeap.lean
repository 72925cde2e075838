import Mathlib

/-!
# Binary heaps whose elements know their place

A binary min-heap in an array, where each element also stores the index it stands at, so that an
element can be taken out from anywhere. Elements are compared by a key.

`Valid` says that the stored indices are right and that no element is before its parent. `push` and
`removeAt` keep it, `push` adds one element and `removeAt` takes one out (`mem_push`,
`mem_removeAt`), and the first element of a valid heap is the least (`Valid.top_le`).
-/

set_option autoImplicit false
set_option relaxedAutoImplicit false
set_option linter.dupNamespace false

namespace Stackfull.Lib

universe u v

/-- An array of elements with its length, and for each element the index it stands at. -/
structure IntrusiveHeap (ε : Type u) where
  size : ℕ
  slot : ℕ → ε
  index : ε → Option ℕ

namespace IntrusiveHeap

variable {ε : Type u} {T : Type v}

/-- The parent of a place. -/
def parent (i : ℕ) : ℕ := (i - 1) / 2

/-- No elements. -/
def empty [Inhabited ε] : IntrusiveHeap ε where
  size := 0
  slot := fun _ ↦ default
  index := fun _ ↦ none

variable [DecidableEq ε]

/-- Exchanges two elements. -/
def swapAt (h : IntrusiveHeap ε) (a b : ℕ) : IntrusiveHeap ε where
  size := h.size
  slot := Function.update (Function.update h.slot a (h.slot b)) b (h.slot a)
  index := Function.update (Function.update h.index (h.slot b) (some a)) (h.slot a) (some b)

section Operations

variable [LinearOrder T] (key : ε → T)

/-- Moves an element towards the root while it is before its parent. -/
def siftUp (h : IntrusiveHeap ε) (i : ℕ) : IntrusiveHeap ε :=
  if i = 0 then h
  else if key (h.slot i) < key (h.slot (parent i)) then siftUp (h.swapAt i (parent i)) (parent i)
  else h
termination_by i
decreasing_by unfold parent; omega

/-- The least of a place and its two children. -/
def smallest (h : IntrusiveHeap ε) (i : ℕ) : ℕ :=
  let left := 2 * i + 1
  let right := left + 1
  let least := if left < h.size ∧ key (h.slot left) < key (h.slot i) then left else i
  if right < h.size ∧ key (h.slot right) < key (h.slot least) then right else least

omit [DecidableEq ε] in
/-- The least is the place itself or a child in the heap. -/
theorem smallest_cases (h : IntrusiveHeap ε) (i : ℕ) :
    h.smallest key i = i ∨ h.smallest key i < h.size ∧
      (h.smallest key i = 2 * i + 1 ∨ h.smallest key i = 2 * i + 2) := by
  unfold smallest
  dsimp only
  split_ifs <;> omega

/-- Moves an element away from the root while a child is before it. -/
def siftDown (h : IntrusiveHeap ε) (i : ℕ) : IntrusiveHeap ε :=
  if h.smallest key i = i then h else siftDown (h.swapAt i (h.smallest key i)) (h.smallest key i)
termination_by h.size - i
decreasing_by
  have := smallest_cases key h i
  simp only [swapAt]
  omega

/-- Adds an element. -/
def push (h : IntrusiveHeap ε) (e : ε) : IntrusiveHeap ε :=
  siftUp key ⟨h.size + 1, Function.update h.slot h.size e,
    Function.update h.index e (some h.size)⟩ h.size

/-- Drops the last element. -/
def pop (h : IntrusiveHeap ε) : IntrusiveHeap ε :=
  ⟨h.size - 1, h.slot, Function.update h.index (h.slot (h.size - 1)) none⟩

/-- Takes out the element at an index: the last one takes its place and moves to where it
belongs. -/
def removeAt (h : IntrusiveHeap ε) (i : ℕ) : IntrusiveHeap ε :=
  if i = h.size - 1 then h.pop
  else siftUp key (siftDown key (h.swapAt i (h.size - 1)).pop i) i

/-- Moving up keeps the length. -/
theorem size_siftUp (h : IntrusiveHeap ε) (i : ℕ) : (h.siftUp key i).size = h.size := by
  induction h, i using siftUp.induct key with
  | case1 h => rw [siftUp, if_pos rfl]
  | case2 h i hzero hlt ih =>
    rw [siftUp, if_neg hzero, if_pos hlt, ih]
    rfl
  | case3 h i hzero hlt => rw [siftUp, if_neg hzero, if_neg hlt]

/-- Moving down keeps the length. -/
theorem size_siftDown (h : IntrusiveHeap ε) (i : ℕ) : (h.siftDown key i).size = h.size := by
  induction h, i using siftDown.induct key with
  | case1 h i hstop => rw [siftDown, if_pos hstop]
  | case2 h i hmove ih =>
    rw [siftDown, if_neg hmove, ih]
    rfl

/-- Taking an element out makes the heap one shorter. -/
theorem size_removeAt (h : IntrusiveHeap ε) (i : ℕ) : (h.removeAt key i).size = h.size - 1 := by
  unfold removeAt
  split_ifs
  · rfl
  · rw [size_siftUp, size_siftDown]
    rfl

end Operations

/-! ### The stored indices -/

/-- The element is in the heap. -/
def Mem (h : IntrusiveHeap ε) (e : ε) : Prop := ∃ i, h.index e = some i

/-- Every element stands where its index says, and only elements of the heap have an index. -/
structure Indexed (h : IntrusiveHeap ε) : Prop where
  located : ∀ i, i < h.size → h.index (h.slot i) = some i
  placed : ∀ e i, h.index e = some i → i < h.size ∧ h.slot i = e

omit [DecidableEq ε] in
/-- Nothing is in the empty heap. -/
theorem indexed_empty [Inhabited ε] : (empty : IntrusiveHeap ε).Indexed :=
  ⟨fun _ hi ↦ absurd hi (Nat.not_lt_zero _), fun _ _ h ↦ nomatch h⟩

omit [DecidableEq ε] in
/-- Different places hold different elements. -/
theorem Indexed.slot_inj {h : IntrusiveHeap ε} (hh : h.Indexed) {i j : ℕ} (hi : i < h.size)
    (hj : j < h.size) (heq : h.slot i = h.slot j) : i = j := by
  have := hh.located i hi
  rw [heq, hh.located j hj] at this
  exact (Option.some.inj this).symm

/-- An exchange keeps the indices right. -/
theorem Indexed.swapAt {h : IntrusiveHeap ε} (hh : h.Indexed) {a b : ℕ} (ha : a < h.size)
    (hb : b < h.size) : (h.swapAt a b).Indexed := by
  constructor
  · intro i hi
    simp only [IntrusiveHeap.swapAt] at hi ⊢
    by_cases hib : i = b
    · subst hib
      simp only [Function.update_self]
    · by_cases hia : i = a
      · subst hia
        have hne : h.slot b ≠ h.slot i := fun heq ↦ hib (hh.slot_inj hb ha heq).symm
        simp only [Function.update_of_ne hib, Function.update_self, Function.update_of_ne hne]
      · have hnea : h.slot i ≠ h.slot a := fun heq ↦ hia (hh.slot_inj hi ha heq)
        have hneb : h.slot i ≠ h.slot b := fun heq ↦ hib (hh.slot_inj hi hb heq)
        simp only [Function.update_of_ne hib, Function.update_of_ne hia, Function.update_of_ne hnea,
          Function.update_of_ne hneb, hh.located i hi]
  · intro e i he
    simp only [IntrusiveHeap.swapAt] at he ⊢
    by_cases hea : e = h.slot a
    · subst hea
      rw [Function.update_self] at he
      obtain rfl := Option.some.inj he
      exact ⟨hb, Function.update_self ..⟩
    · rw [Function.update_of_ne hea] at he
      by_cases heb : e = h.slot b
      · subst heb
        rw [Function.update_self] at he
        obtain rfl := Option.some.inj he
        have hne : a ≠ b := by
          rintro rfl
          exact hea rfl
        exact ⟨ha, by rw [Function.update_of_ne hne, Function.update_self]⟩
      · rw [Function.update_of_ne heb] at he
        obtain ⟨hi, hslot⟩ := hh.placed e i he
        have hia : i ≠ a := by
          rintro rfl
          exact hea hslot.symm
        have hib : i ≠ b := by
          rintro rfl
          exact heb hslot.symm
        exact ⟨hi, by rw [Function.update_of_ne hib, Function.update_of_ne hia, hslot]⟩

/-- An exchange keeps the elements. -/
theorem Indexed.mem_swapAt {h : IntrusiveHeap ε} (hh : h.Indexed) {a b : ℕ} (ha : a < h.size)
    (hb : b < h.size) (e : ε) : (h.swapAt a b).Mem e ↔ h.Mem e := by
  have hla : h.Mem (h.slot a) := ⟨a, hh.located a ha⟩
  have hlb : h.Mem (h.slot b) := ⟨b, hh.located b hb⟩
  simp only [Mem, IntrusiveHeap.swapAt, Function.update_apply] at hla hlb ⊢
  split_ifs with hea heb
  · subst hea
    exact ⟨fun _ ↦ hla, fun _ ↦ ⟨b, rfl⟩⟩
  · subst heb
    exact ⟨fun _ ↦ hlb, fun _ ↦ ⟨a, rfl⟩⟩
  · exact Iff.rfl

/-- The same elements, in another order. -/
structure Rearranged (h h' : IntrusiveHeap ε) : Prop where
  indexed : h'.Indexed
  size : h'.size = h.size
  mem : ∀ e, h'.Mem e ↔ h.Mem e

/-- An exchange rearranges. -/
theorem Indexed.rearranged_swapAt {h : IntrusiveHeap ε} (hh : h.Indexed) {a b : ℕ}
    (ha : a < h.size) (hb : b < h.size) : Rearranged h (h.swapAt a b) :=
  ⟨hh.swapAt ha hb, rfl, hh.mem_swapAt ha hb⟩

omit [DecidableEq ε] in
/-- Rearranging twice rearranges. -/
theorem Rearranged.trans {h h' h'' : IntrusiveHeap ε} (hfirst : Rearranged h h')
    (hsecond : Rearranged h' h'') : Rearranged h h'' :=
  ⟨hsecond.indexed, hsecond.size.trans hfirst.size,
    fun e ↦ (hsecond.mem e).trans (hfirst.mem e)⟩

omit [DecidableEq ε] in
/-- Nothing moves. -/
theorem Indexed.rearranged_self {h : IntrusiveHeap ε} (hh : h.Indexed) : Rearranged h h :=
  ⟨hh, rfl, fun _ ↦ Iff.rfl⟩

section Order

variable [LinearOrder T] {key : ε → T}

/-- Moving up rearranges. -/
theorem rearranged_siftUp (key : ε → T) {h : IntrusiveHeap ε} (hh : h.Indexed) {i : ℕ}
    (hi : i < h.size) : Rearranged h (h.siftUp key i) := by
  induction h, i using siftUp.induct key with
  | case1 h =>
    rw [siftUp, if_pos rfl]
    exact hh.rearranged_self
  | case2 h i hzero hlt ih =>
    rw [siftUp, if_neg hzero, if_pos hlt]
    have hparent : parent i < h.size := by unfold parent; omega
    exact (hh.rearranged_swapAt hi hparent).trans (ih (hh.swapAt hi hparent) hparent)
  | case3 h i hzero hlt =>
    rw [siftUp, if_neg hzero, if_neg hlt]
    exact hh.rearranged_self

/-- Moving down rearranges. -/
theorem rearranged_siftDown (key : ε → T) {h : IntrusiveHeap ε} (hh : h.Indexed) {i : ℕ}
    (hi : i < h.size) : Rearranged h (h.siftDown key i) := by
  induction h, i using siftDown.induct key with
  | case1 h i hstop =>
    rw [siftDown, if_pos hstop]
    exact hh.rearranged_self
  | case2 h i hmove ih =>
    rw [siftDown, if_neg hmove]
    have hchild : h.smallest key i < h.size :=
      ((smallest_cases key h i).resolve_left hmove).1
    exact (hh.rearranged_swapAt hi hchild).trans (ih (hh.swapAt hi hchild) hchild)

/-! ### The order -/

/-- The place is not before its parent. -/
def After (key : ε → T) (h : IntrusiveHeap ε) (i : ℕ) : Prop :=
  key (h.slot (parent i)) ≤ key (h.slot i)

/-- No element is before its parent. -/
def Ordered (key : ε → T) (h : IntrusiveHeap ε) : Prop :=
  ∀ i, 0 < i → i < h.size → After key h i

/-- Only the element at `i` may be before its parent; its children are not before that parent. -/
structure UpOrdered (key : ε → T) (h : IntrusiveHeap ε) (i : ℕ) : Prop where
  others : ∀ j, 0 < j → j < h.size → j ≠ i → After key h j
  below : ∀ j, 0 < i → 0 < j → j < h.size → parent j = i →
    key (h.slot (parent i)) ≤ key (h.slot j)

/-- Only the element at `i` may be out of order, with its parent or with its children; the
children are not before that parent. -/
structure DownOrdered (key : ε → T) (h : IntrusiveHeap ε) (i : ℕ) : Prop where
  others : ∀ j, 0 < j → j < h.size → j ≠ i → parent j ≠ i → After key h j
  below : ∀ j, 0 < i → 0 < j → j < h.size → parent j = i →
    key (h.slot (parent i)) ≤ key (h.slot j)

/-- What stands where after an exchange. -/
theorem slot_swapAt (h : IntrusiveHeap ε) {a b : ℕ} (hab : a ≠ b) (i : ℕ) :
    (h.swapAt a b).slot i = if i = a then h.slot b else if i = b then h.slot a else h.slot i := by
  simp only [swapAt, Function.update_apply]
  split_ifs with h1 h2
  · exact absurd (h2.symm.trans h1) hab
  all_goals rfl

omit [DecidableEq ε] in
/-- An ordered heap is ordered up to any place. -/
theorem Ordered.upOrdered {h : IntrusiveHeap ε} (ho : Ordered key h) (i : ℕ) :
    UpOrdered key h i := by
  refine ⟨fun j h0 hj _ ↦ ho j h0 hj, ?_⟩
  intro j hi h0 hj hp
  have hchild := ho j h0 hj
  have hself := ho i hi (by unfold parent at hp; omega)
  unfold After at hchild hself
  rw [hp] at hchild
  exact hself.trans hchild

/-- One exchange of the way up. -/
theorem UpOrdered.swapAt {h : IntrusiveHeap ε} {i : ℕ} (ho : UpOrdered key h i) (hi : 0 < i)
    (hlt : key (h.slot i) < key (h.slot (parent i))) (hsize : i < h.size) :
    UpOrdered key (h.swapAt i (parent i)) (parent i) := by
  have hne : i ≠ parent i := by unfold parent; omega
  constructor
  · intro j h0 hj hjp
    unfold After
    rw [slot_swapAt h hne, slot_swapAt h hne]
    by_cases hji : j = i
    · subst hji
      simp only [if_true, hne.symm, if_false]
      exact hlt.le
    · simp only [hji, if_false, hjp]
      by_cases hpi : parent j = i
      · rw [if_pos hpi]
        exact ho.below j hi h0 hj hpi
      · rw [if_neg hpi]
        have hafter := ho.others j h0 hj hji
        unfold After at hafter
        by_cases hpp : parent j = parent i
        · rw [if_pos hpp]
          rw [hpp] at hafter
          exact hlt.le.trans hafter
        · rw [if_neg hpp]
          exact hafter
  · intro j hp0 h0 hj hjp
    have hgrand := ho.others (parent i) hp0 (by unfold parent at *; omega) hne.symm
    unfold After at hgrand
    have hppi : parent (parent i) ≠ i := by unfold parent at *; omega
    have hppp : parent (parent i) ≠ parent i := by unfold parent at *; omega
    rw [slot_swapAt h hne, slot_swapAt h hne, if_neg hppi, if_neg hppp]
    by_cases hji : j = i
    · rw [if_pos hji]
      exact hgrand
    · have hjne : j ≠ parent i := by unfold parent at *; omega
      rw [if_neg hji, if_neg hjne]
      have hafter := ho.others j h0 hj hji
      unfold After at hafter
      rw [hjp] at hafter
      exact hgrand.trans hafter

/-- Moving up puts the heap in order. -/
theorem ordered_siftUp {h : IntrusiveHeap ε} {i : ℕ} (ho : UpOrdered key h i) (hi : i < h.size) :
    Ordered key (h.siftUp key i) := by
  induction h, i using siftUp.induct key with
  | case1 h =>
    rw [siftUp, if_pos rfl]
    exact fun j h0 hj ↦ ho.others j h0 hj (Nat.pos_iff_ne_zero.mp h0)
  | case2 h i hzero hlt ih =>
    rw [siftUp, if_neg hzero, if_pos hlt]
    have hparent : parent i < h.size := by unfold parent; omega
    exact ih (ho.swapAt (Nat.pos_of_ne_zero hzero) hlt hi) hparent
  | case3 h i hzero hlt =>
    rw [siftUp, if_neg hzero, if_neg hlt]
    intro j h0 hj
    by_cases hji : j = i
    · subst hji
      exact not_lt.mp hlt
    · exact ho.others j h0 hj hji

omit [DecidableEq ε] in
/-- The least of a place and its children is not after any of them. -/
theorem key_smallest_le (key : ε → T) (h : IntrusiveHeap ε) (i : ℕ) :
    key (h.slot (h.smallest key i)) ≤ key (h.slot i) ∧
      ∀ j, 0 < j → j < h.size → parent j = i →
        key (h.slot (h.smallest key i)) ≤ key (h.slot j) := by
  have hchild (j : ℕ) (h0 : 0 < j) (hp : parent j = i) : j = 2 * i + 1 ∨ j = 2 * i + 1 + 1 := by
    unfold parent at hp
    omega
  unfold smallest
  dsimp only
  split_ifs with hleft hright hright
  · refine ⟨hright.2.le.trans hleft.2.le, ?_⟩
    intro j h0 _ hp
    rcases hchild j h0 hp with rfl | rfl
    · exact hright.2.le
    · exact le_rfl
  · refine ⟨hleft.2.le, ?_⟩
    intro j h0 hj hp
    rcases hchild j h0 hp with rfl | rfl
    · exact le_rfl
    · exact not_lt.mp fun hlt ↦ hright ⟨hj, hlt⟩
  · refine ⟨hright.2.le, ?_⟩
    intro j h0 hj hp
    rcases hchild j h0 hp with rfl | rfl
    · exact hright.2.le.trans (not_lt.mp fun hlt ↦ hleft ⟨hj, hlt⟩)
    · exact le_rfl
  · refine ⟨le_rfl, ?_⟩
    intro j h0 hj hp
    rcases hchild j h0 hp with rfl | rfl
    · exact not_lt.mp fun hlt ↦ hleft ⟨hj, hlt⟩
    · exact not_lt.mp fun hlt ↦ hright ⟨hj, hlt⟩

omit [DecidableEq ε] in
/-- Where the least moves to is a child, and it is in order. -/
theorem parent_smallest {h : IntrusiveHeap ε} {i : ℕ} (hmove : h.smallest key i ≠ i) :
    0 < h.smallest key i ∧ h.smallest key i < h.size ∧ parent (h.smallest key i) = i := by
  have := (smallest_cases key h i).resolve_left hmove
  unfold parent
  omega

/-- One exchange of the way down. -/
theorem DownOrdered.swapAt {h : IntrusiveHeap ε} {i : ℕ} (ho : DownOrdered key h i)
    (hmove : h.smallest key i ≠ i) :
    DownOrdered key (h.swapAt i (h.smallest key i)) (h.smallest key i) ∧
      After key (h.swapAt i (h.smallest key i)) (h.smallest key i) := by
  obtain ⟨hs0, hsize, hparent⟩ := parent_smallest hmove
  obtain ⟨hself, hleast⟩ := key_smallest_le key h i
  generalize h.smallest key i = m at *
  have hne : i ≠ m := hmove.symm
  refine ⟨⟨?_, ?_⟩, ?_⟩
  · intro j h0 hj hjm hpm
    unfold After
    rw [slot_swapAt h hne, slot_swapAt h hne, if_neg hpm, if_neg hjm]
    by_cases hji : j = i
    · subst hji
      have hpj : parent j ≠ j := by unfold parent; omega
      rw [if_neg hpj, if_pos rfl]
      exact ho.below m h0 hs0 hsize hparent
    · rw [if_neg hji]
      by_cases hpi : parent j = i
      · rw [if_pos hpi]
        exact hleast j h0 hj hpi
      · rw [if_neg hpi]
        exact ho.others j h0 hj hji hpi
  · intro j _ h0 hj hpj
    have hji : j ≠ i := by unfold parent at *; omega
    have hjm : j ≠ m := by unfold parent at *; omega
    rw [hparent, slot_swapAt h hne, slot_swapAt h hne, if_pos rfl, if_neg hji, if_neg hjm]
    have hafter := ho.others j h0 hj hji (by rw [hpj]; exact hmove)
    unfold After at hafter
    rwa [hpj] at hafter
  · unfold After
    rw [hparent, slot_swapAt h hne, slot_swapAt h hne, if_pos rfl, if_neg hmove, if_pos rfl]
    exact hself

/-- Moving an element down that is not before its parent puts the heap in order. -/
theorem ordered_siftDown {h : IntrusiveHeap ε} {i : ℕ} (ho : DownOrdered key h i)
    (hafter : 0 < i → After key h i) : Ordered key (h.siftDown key i) := by
  induction h, i using siftDown.induct key with
  | case1 h i hstop =>
    rw [siftDown, if_pos hstop]
    intro j h0 hj
    by_cases hji : j = i
    · subst hji
      exact hafter h0
    · by_cases hpi : parent j = i
      · have hleast := (key_smallest_le key h i).2 j h0 hj hpi
        rw [hstop] at hleast
        unfold After
        rwa [hpi]
      · exact ho.others j h0 hj hji hpi
  | case2 h i hmove ih =>
    rw [siftDown, if_neg hmove]
    obtain ⟨hdown, hplaced⟩ := ho.swapAt hmove
    exact ih hdown fun _ ↦ hplaced

/-- Moving an element down leaves at most it before its parent. -/
theorem upOrdered_siftDown {h : IntrusiveHeap ε} {i : ℕ} (ho : DownOrdered key h i) :
    UpOrdered key (h.siftDown key i) i := by
  by_cases hstop : h.smallest key i = i
  · rw [siftDown, if_pos hstop]
    refine ⟨?_, ho.below⟩
    intro j h0 hj hji
    by_cases hpi : parent j = i
    · have hleast := (key_smallest_le key h i).2 j h0 hj hpi
      rw [hstop] at hleast
      unfold After
      rwa [hpi]
    · exact ho.others j h0 hj hji hpi
  · rw [siftDown, if_neg hstop]
    obtain ⟨hdown, hplaced⟩ := ho.swapAt hstop
    exact (ordered_siftDown hdown fun _ ↦ hplaced).upOrdered i

/-! ### Adding and taking out -/

/-- The indices are right and the elements are in order. -/
structure Valid (key : ε → T) (h : IntrusiveHeap ε) : Prop where
  indexed : h.Indexed
  ordered : Ordered key h

omit [DecidableEq ε] in
/-- The empty heap is valid. -/
theorem valid_empty [Inhabited ε] : Valid key (empty : IntrusiveHeap ε) :=
  ⟨indexed_empty, fun _ _ hi ↦ absurd hi (Nat.not_lt_zero _)⟩

omit [DecidableEq ε] in
/-- The first element of a valid heap is the least. -/
theorem Valid.top_le {h : IntrusiveHeap ε} (hv : Valid key h) {e : ε} (he : h.Mem e) :
    key (h.slot 0) ≤ key e := by
  obtain ⟨i, hindex⟩ := he
  obtain ⟨hi, rfl⟩ := hv.indexed.placed e i hindex
  clear hindex
  induction i using Nat.strongRecOn with
  | ind i ih =>
    rcases Nat.eq_zero_or_pos i with rfl | h0
    · exact le_rfl
    · have hlt : parent i < i := by unfold parent; omega
      exact (ih (parent i) hlt (Nat.lt_trans hlt hi)).trans (hv.ordered i h0 hi)

omit [DecidableEq ε] in
/-- A heap with elements is not empty. -/
theorem Indexed.size_pos {h : IntrusiveHeap ε} (hh : h.Indexed) {e : ε} (he : h.Mem e) :
    0 < h.size := by
  obtain ⟨i, hindex⟩ := he
  exact Nat.zero_lt_of_lt (hh.placed e i hindex).1

/-- An added element goes to the end. -/
theorem Indexed.append {h : IntrusiveHeap ε} (hh : h.Indexed) {e : ε} (he : ¬ h.Mem e) :
    Indexed ⟨h.size + 1, Function.update h.slot h.size e,
      Function.update h.index e (some h.size)⟩ := by
  constructor
  · intro i hi
    dsimp only at hi ⊢
    rcases eq_or_ne i h.size with rfl | hne
    · rw [Function.update_self, Function.update_self]
    · have hlt : i < h.size := by omega
      have hse : h.slot i ≠ e := by
        rintro rfl
        exact he ⟨i, hh.located i hlt⟩
      rw [Function.update_of_ne hne, Function.update_of_ne hse]
      exact hh.located i hlt
  · intro f i hf
    dsimp only at hf ⊢
    rcases eq_or_ne f e with rfl | hne
    · rw [Function.update_self] at hf
      obtain rfl := Option.some.inj hf
      exact ⟨Nat.lt_succ_self _, Function.update_self ..⟩
    · rw [Function.update_of_ne hne] at hf
      obtain ⟨hi, hslot⟩ := hh.placed f i hf
      exact ⟨Nat.lt_succ_of_lt hi, by rw [Function.update_of_ne (Nat.ne_of_lt hi), hslot]⟩

/-- Adding keeps a heap valid and adds just the element. -/
theorem Valid.push {h : IntrusiveHeap ε} (hv : Valid key h) {e : ε} (he : ¬ h.Mem e) :
    Valid key (h.push key e) ∧ (h.push key e).size = h.size + 1 ∧
      ∀ f, (h.push key e).Mem f ↔ f = e ∨ h.Mem f := by
  have happend := hv.indexed.append he
  have hup : UpOrdered key ⟨h.size + 1, Function.update h.slot h.size e,
      Function.update h.index e (some h.size)⟩ h.size := by
    constructor
    · intro j h0 hj hne
      have hlt : j < h.size := by dsimp only at hj; omega
      have hparent : parent j ≠ h.size := by unfold parent; omega
      unfold After
      dsimp only
      rw [Function.update_of_ne hne, Function.update_of_ne hparent]
      exact hv.ordered j h0 hlt
    · intro j h0 hj0 hj hp
      dsimp only at hj
      unfold parent at hp
      omega
  have hlast : h.size < h.size + 1 := Nat.lt_succ_self _
  have hrearranged := rearranged_siftUp key happend hlast
  refine ⟨⟨hrearranged.indexed, ordered_siftUp hup hlast⟩, hrearranged.size, ?_⟩
  intro f
  refine (hrearranged.mem f).trans ?_
  rcases eq_or_ne f e with rfl | hne
  · exact ⟨fun _ ↦ Or.inl rfl, fun _ ↦ ⟨h.size, Function.update_self ..⟩⟩
  · simp only [Mem, Function.update_of_ne hne, hne, false_or]

/-- Dropping the last element keeps the indices right. -/
theorem Indexed.pop {h : IntrusiveHeap ε} (hh : h.Indexed) (h0 : 0 < h.size) :
    h.pop.Indexed ∧ ∀ f, h.pop.Mem f ↔ h.Mem f ∧ f ≠ h.slot (h.size - 1) := by
  have hlast : h.size - 1 < h.size := by omega
  refine ⟨⟨?_, ?_⟩, ?_⟩
  · intro i hi
    simp only [IntrusiveHeap.pop] at hi ⊢
    have hne : h.slot i ≠ h.slot (h.size - 1) := by
      intro heq
      have := hh.slot_inj (by omega) hlast heq
      omega
    rw [Function.update_of_ne hne]
    exact hh.located i (by omega)
  · intro f i hf
    simp only [IntrusiveHeap.pop] at hf ⊢
    rcases eq_or_ne f (h.slot (h.size - 1)) with rfl | hne
    · rw [Function.update_self] at hf
      nomatch hf
    · rw [Function.update_of_ne hne] at hf
      obtain ⟨hi, hslot⟩ := hh.placed f i hf
      refine ⟨?_, hslot⟩
      have hil : i ≠ h.size - 1 := by
        rintro rfl
        exact hne hslot.symm
      omega
  · intro f
    rcases eq_or_ne f (h.slot (h.size - 1)) with rfl | hne
    · simp only [Mem, IntrusiveHeap.pop, Function.update_self, reduceCtorEq, exists_false, ne_eq,
        not_true_eq_false, and_false]
    · simp only [Mem, IntrusiveHeap.pop, Function.update_of_ne hne, ne_eq, hne, not_false_eq_true,
        and_true]

/-- Taking out keeps a heap valid and takes just that element. -/
theorem Valid.removeAt {h : IntrusiveHeap ε} (hv : Valid key h) {i : ℕ} (hi : i < h.size) :
    Valid key (h.removeAt key i) ∧ (h.removeAt key i).size = h.size - 1 ∧
      ∀ f, (h.removeAt key i).Mem f ↔ h.Mem f ∧ f ≠ h.slot i := by
  have h0 : 0 < h.size := Nat.zero_lt_of_lt hi
  have hlast : h.size - 1 < h.size := by omega
  unfold IntrusiveHeap.removeAt
  split_ifs with hil
  · obtain ⟨hindexed, hmem⟩ := hv.indexed.pop h0
    refine ⟨⟨hindexed, ?_⟩, rfl, ?_⟩
    · intro j hj0 hj
      have : j < h.size - 1 := hj
      exact hv.ordered j hj0 (by omega)
    · rw [hil]
      exact hmem
  · have hswap := hv.indexed.rearranged_swapAt hi hlast
    have hswapSize : (h.swapAt i (h.size - 1)).size = h.size := rfl
    obtain ⟨hindexed, hmem⟩ := hswap.indexed.pop (by rw [hswapSize]; exact h0)
    have hpopSize : (h.swapAt i (h.size - 1)).pop.size = h.size - 1 := rfl
    have hipop : i < (h.swapAt i (h.size - 1)).pop.size := by rw [hpopSize]; omega
    have hslot (j : ℕ) (hji : j ≠ i) (hj : j < h.size - 1) :
        (h.swapAt i (h.size - 1)).pop.slot j = h.slot j := by
      have hjl : j ≠ h.size - 1 := Nat.ne_of_lt hj
      simp only [IntrusiveHeap.pop, slot_swapAt h hil, if_neg hji, if_neg hjl]
    have hdown : DownOrdered key (h.swapAt i (h.size - 1)).pop i := by
      constructor
      · intro j hj0 hj hji hpi
        rw [hpopSize] at hj
        unfold After
        rw [hslot j hji hj, hslot (parent j) hpi (by unfold parent; omega)]
        exact hv.ordered j hj0 (by omega)
      · intro j hi0 hj0 hj hpj
        rw [hpopSize] at hj
        have hji : j ≠ i := by unfold parent at hpj; omega
        have hpi : parent i ≠ i := by unfold parent; omega
        rw [hslot j hji hj, hslot (parent i) hpi (by unfold parent; omega)]
        exact (hv.ordered.upOrdered i).below j hi0 hj0 (by omega) hpj
    have hfirst := rearranged_siftDown key hindexed hipop
    have hsecond := rearranged_siftUp key hfirst.indexed (by rw [hfirst.size]; exact hipop)
    have hboth := hfirst.trans hsecond
    refine ⟨⟨hboth.indexed, ordered_siftUp (upOrdered_siftDown hdown) ?_⟩, hboth.size, ?_⟩
    · rw [hfirst.size]
      exact hipop
    · intro f
      rw [hboth.mem f, hmem f, hswap.mem f]
      have hout : (h.swapAt i (h.size - 1)).slot ((h.swapAt i (h.size - 1)).size - 1) =
          h.slot i := by
        rw [hswapSize, slot_swapAt h hil, if_neg (Ne.symm hil), if_pos rfl]
      rw [hout]

/-! ### The elements as a list -/

/-- The elements, from the root on. -/
def elements (h : IntrusiveHeap ε) : List ε :=
  (List.range h.size).map h.slot

omit [DecidableEq ε] in
theorem Indexed.mem_elements {h : IntrusiveHeap ε} (hh : h.Indexed) {e : ε} :
    e ∈ h.elements ↔ h.Mem e := by
  simp only [elements, List.mem_map, List.mem_range]
  constructor
  · rintro ⟨i, hi, rfl⟩
    exact ⟨i, hh.located i hi⟩
  · rintro ⟨i, hi⟩
    obtain ⟨hlt, hslot⟩ := hh.placed e i hi
    exact ⟨i, hlt, hslot⟩

omit [DecidableEq ε] in
theorem Indexed.nodup_elements {h : IntrusiveHeap ε} (hh : h.Indexed) : h.elements.Nodup := by
  refine List.Nodup.map_on (fun i hi j hj hij ↦ ?_) List.nodup_range
  exact hh.slot_inj (List.mem_range.mp hi) (List.mem_range.mp hj) hij

/-- Adding an element adds it to the list. -/
theorem Valid.elements_push {h : IntrusiveHeap ε} (hv : Valid key h) {e : ε} (he : ¬ h.Mem e) :
    (h.push key e).elements.Perm (e :: h.elements) := by
  obtain ⟨hpush, -, hmem⟩ := hv.push he
  have hnodup : (e :: h.elements).Nodup :=
    List.nodup_cons.mpr ⟨fun hin ↦ he (hv.indexed.mem_elements.mp hin), hv.indexed.nodup_elements⟩
  refine (List.perm_ext_iff_of_nodup hpush.indexed.nodup_elements hnodup).mpr fun f ↦ ?_
  rw [hpush.indexed.mem_elements, hmem, List.mem_cons, hv.indexed.mem_elements]

/-- Taking an element out takes it from the list. -/
theorem Valid.elements_removeAt {h : IntrusiveHeap ε} (hv : Valid key h) {i : ℕ} (hi : i < h.size) :
    h.elements.Perm (h.slot i :: (h.removeAt key i).elements) := by
  obtain ⟨hremove, -, hmem⟩ := hv.removeAt hi
  have hin : h.Mem (h.slot i) := ⟨i, hv.indexed.located i hi⟩
  have hnodup : (h.slot i :: (h.removeAt key i).elements).Nodup := by
    refine List.nodup_cons.mpr ⟨fun hout ↦ ?_, hremove.indexed.nodup_elements⟩
    exact ((hmem _).mp (hremove.indexed.mem_elements.mp hout)).2 rfl
  refine (List.perm_ext_iff_of_nodup hv.indexed.nodup_elements hnodup).mpr fun f ↦ ?_
  rw [hv.indexed.mem_elements, List.mem_cons, hremove.indexed.mem_elements, hmem]
  rcases eq_or_ne f (h.slot i) with rfl | hne
  · simp [hin]
  · simp [hne]

end Order

end IntrusiveHeap

end Stackfull.Lib
