import Mathlib.Algebra.GroupWithZero.Nat
import Mathlib.Algebra.Order.BigOperators.Group.List
import Mathlib.Data.Finset.Card
import Mathlib.Order.Interval.Finset.Nat
import Mathlib.Tactic.Common

/-!
# Regions of memory, and lists that are chained through it

A `Region` is a range of bytes. Regions of a bounded memory that have no byte in common are together
no larger than it (`Region.sum_size_lt`), so no sum of their sizes wraps around. Regions that follow
each other without a gap (`Region.Tiles`) are apart and have the bytes of the whole.

`Linked null next head nodes` says that `nodes` are what is found from `head` on by following `next`
up to `null`. A node is put in front and taken off with one write and one read, and a write to
another cell changes nothing.
-/

set_option autoImplicit false
set_option relaxedAutoImplicit false
set_option linter.dupNamespace false

namespace Stackfull.Lib

universe u

/-! ### Regions -/

/-- The bytes from `base` up to `base + size`. -/
structure Region where
  base : ℕ
  size : ℕ
  deriving DecidableEq

namespace Region

/-- The regions have no byte in common. -/
def Apart (r q : Region) : Prop :=
  r.base + r.size ≤ q.base ∨ q.base + q.size ≤ r.base

instance (r q : Region) : Decidable (r.Apart q) :=
  inferInstanceAs (Decidable (_ ∨ _))

instance : Std.Symm Apart :=
  ⟨fun _ _ ↦ Or.symm⟩

/-- The bytes of a list of regions. -/
def bytes (regions : List Region) : Finset ℕ :=
  regions.foldr (fun r covered ↦ Finset.Ico r.base (r.base + r.size) ∪ covered) ∅

theorem mem_bytes {regions : List Region} {b : ℕ} :
    b ∈ bytes regions ↔ ∃ r ∈ regions, r.base ≤ b ∧ b < r.base + r.size := by
  induction regions with
  | nil => simp [bytes]
  | cons r regions ih =>
    rw [bytes, List.foldr_cons, Finset.mem_union, Finset.mem_Ico]
    simp only [List.mem_cons, exists_eq_or_imp]
    exact or_congr_right ih

theorem card_bytes {regions : List Region} (h : regions.Pairwise Apart) :
    (bytes regions).card = (regions.map Region.size).sum := by
  induction regions with
  | nil => rfl
  | cons r regions ih =>
    obtain ⟨hhead, htail⟩ := List.pairwise_cons.mp h
    have hdisjoint : Disjoint (Finset.Ico r.base (r.base + r.size)) (bytes regions) := by
      rw [Finset.disjoint_left]
      intro b hb hin
      obtain ⟨q, hq, hlow, hhigh⟩ := mem_bytes.mp hin
      rw [Finset.mem_Ico] at hb
      rcases hhead q hq with hbefore | hafter <;> omega
    rw [List.map_cons, List.sum_cons, ← ih htail]
    refine (Finset.card_union_of_disjoint hdisjoint).trans ?_
    rw [Nat.card_Ico, Nat.add_sub_cancel_left]

/-- **Regions apart from each other and from the null pointer are smaller than the memory.** -/
theorem sum_size_lt {regions : List Region} {limit : ℕ} (h : regions.Pairwise Apart)
    (hfit : ∀ r ∈ regions, 0 < r.base ∧ r.base + r.size ≤ limit) (hlimit : 0 < limit) :
    (regions.map Region.size).sum < limit := by
  have hsub : bytes regions ⊆ Finset.Ico 1 limit := fun b hb ↦ by
    obtain ⟨r, hr, hlow, hhigh⟩ := mem_bytes.mp hb
    have := hfit r hr
    exact Finset.mem_Ico.mpr ⟨by omega, by omega⟩
  have hcard := Finset.card_le_card hsub
  rw [card_bytes h, Nat.card_Ico] at hcard
  omega

/-! ### Tilings -/

/-- The region lies in the other. -/
def Inside (r q : Region) : Prop :=
  q.base ≤ r.base ∧ r.base + r.size ≤ q.base + q.size

theorem Inside.trans {r q p : Region} (h : r.Inside q) (h' : q.Inside p) : r.Inside p :=
  ⟨h'.1.trans h.1, h.2.trans h'.2⟩

theorem Apart.mono {r q r' q' : Region} (h : r.Apart q) (hr : r'.Inside r) (hq : q'.Inside q) :
    r'.Apart q' := by
  obtain ⟨hr, hr'⟩ := hr
  obtain ⟨hq, hq'⟩ := hq
  exact h.imp (fun h ↦ by omega) (fun h ↦ by omega)

/-- The regions follow each other without a gap from `start` to `stop`. -/
def Tiles (stop : ℕ) : ℕ → List Region → Prop
  | start, [] => start = stop
  | start, r :: regions => r.base = start ∧ Tiles stop (start + r.size) regions

section Tiles

variable {stop start : ℕ} {r : Region} {regions : List Region}

theorem Tiles.start_le (h : Tiles stop start regions) : start ≤ stop := by
  induction regions generalizing start with
  | nil => exact h.le
  | cons r regions ih => exact (Nat.le_add_right _ _).trans (ih h.2)

theorem Tiles.inside (h : Tiles stop start regions) (hr : r ∈ regions) :
    start ≤ r.base ∧ r.base + r.size ≤ stop := by
  induction regions generalizing start with
  | nil => cases hr
  | cons q regions ih =>
    obtain ⟨hbase, hrest⟩ := h
    rcases List.mem_cons.mp hr with rfl | hr
    · exact ⟨hbase.ge, hbase ▸ hrest.start_le⟩
    · obtain ⟨hlow, hhigh⟩ := ih hrest hr
      exact ⟨(Nat.le_add_right _ _).trans hlow, hhigh⟩

theorem Tiles.pairwise_apart (h : Tiles stop start regions) : regions.Pairwise Apart := by
  induction regions generalizing start with
  | nil => exact List.Pairwise.nil
  | cons r regions ih =>
    obtain ⟨rfl, hrest⟩ := h
    exact List.pairwise_cons.mpr ⟨fun q hq ↦ Or.inl (hrest.inside hq).1, ih hrest⟩

/-- **A tiling has the bytes of the whole.** -/
theorem Tiles.bytes_eq (h : Tiles stop start regions) : bytes regions = Finset.Ico start stop := by
  induction regions generalizing start with
  | nil => rw [show start = stop from h, Finset.Ico_self]; rfl
  | cons r regions ih =>
    obtain ⟨rfl, hrest⟩ := h
    rw [bytes, List.foldr_cons, ← bytes, ih hrest]
    exact Finset.Ico_union_Ico_eq_Ico (Nat.le_add_right _ _) hrest.start_le

end Tiles

end Region

/-! ### Chained lists -/

section Linked

variable {α : Type u} {null : α} {next next' : α → α} {head node : α} {nodes : List α}

/-- The nodes from `head` on. -/
def Linked (null : α) (next : α → α) : α → List α → Prop
  | head, [] => head = null
  | head, node :: nodes => head = node ∧ node ≠ null ∧ Linked null next (next node) nodes

/-- Only the cells of the nodes count. -/
theorem Linked.congr (h : Linked null next head nodes) (hsame : ∀ n ∈ nodes, next' n = next n) :
    Linked null next' head nodes := by
  induction nodes generalizing head with
  | nil => exact h
  | cons node nodes ih =>
    obtain ⟨hhead, hnode, hrest⟩ := h
    refine ⟨hhead, hnode, ih ?_ fun n hn ↦ hsame n (List.mem_cons_of_mem _ hn)⟩
    rwa [hsame node List.mem_cons_self]

/-- A node is put in front. -/
theorem Linked.push [DecidableEq α] (h : Linked null next head nodes) (hnode : node ≠ null)
    (hnew : node ∉ nodes) : Linked null (Function.update next node head) node (node :: nodes) := by
  refine ⟨rfl, hnode, ?_⟩
  rw [Function.update_self]
  exact h.congr fun n hn ↦ Function.update_of_ne (fun heq : n = node ↦ hnew (heq ▸ hn)) _ _

/-- A list with a head has a first node. -/
theorem Linked.exists_cons (h : Linked null next head nodes) (hhead : head ≠ null) :
    ∃ rest, nodes = head :: rest ∧ Linked null next (next head) rest := by
  cases nodes with
  | nil => exact absurd h hhead
  | cons node nodes =>
    obtain ⟨rfl, -, hrest⟩ := h
    exact ⟨nodes, rfl, hrest⟩

theorem Linked.eq_nil (h : Linked null next null nodes) : nodes = [] := by
  cases nodes with
  | nil => rfl
  | cons node nodes => exact absurd h.1.symm h.2.1

end Linked

end Stackfull.Lib
