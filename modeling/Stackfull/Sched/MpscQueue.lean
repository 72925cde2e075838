import Mathlib.Order.Lattice
import Stackfull.Lib.Transition
import Mathlib.Tactic.Common
import Mathlib.Tactic.Simps.Basic

/-!
# The intrusive queue of a pinned inbox

`sched/include/stackfull/sched/detail/MpscQueue.h`. Nodes are tasks, which carry their own
`mpscNext`, and the stub of the queue. A push swaps `head` and then links the node that was there
to the new one; between the two the list is broken at that place. A pop reads along the links from
`tail`, and pushes the stub behind a lone last node so that it can be taken. Each atomic access is
one operation here, and `PushPc` and `PopPc` are the points between them.

`order`, `first` and `last` are history: the nodes in the order they were swapped in, and which
of them are in the queue. `Chained` is the invariant: the links follow that order except where a
push is between its two accesses, which the relation `mid` lists.
-/

set_option autoImplicit false
set_option relaxedAutoImplicit false
set_option linter.dupNamespace false

namespace Stackfull.Sched

universe u

/-- A node of the queue: its stub, or a task. -/
inductive Node (τ : Type u)
  | stub
  | task (task : τ)
  deriving DecidableEq

/-- The queue. -/
structure MpscQueue (τ : Type u) where
  head : Node τ
  tail : Node τ
  next : Node τ → Option (Node τ)
  order : ℕ → Node τ
  first : ℕ
  last : ℕ

/-- The points of `push`, before each of its accesses. -/
inductive PushPc (τ : Type u)
  | reset
  | swap
  | link (previous : Node τ)

/-- The points of `pop`, before each of its accesses. -/
inductive PopPc (τ : Type u)
  | start
  | second (front : Node τ)
  | checkHead (front : Node τ)
  | stubReset (front : Node τ)
  | stubSwap (front : Node τ)
  | stubLink (front previous : Node τ)
  | recheck (front : Node τ)

namespace MpscQueue

variable {τ : Type u}

/-- `MpscQueue::MpscQueue`. -/
def empty : MpscQueue τ where
  head := .stub
  tail := .stub
  next := fun _ ↦ none
  order := fun _ ↦ .stub
  first := 0
  last := 0

/-- Moves `tail` over the first node. -/
@[simps]
def advance (q : MpscQueue τ) (next : Node τ) : MpscQueue τ :=
  { q with tail := next, first := q.first + 1 }

/-- The exchange of `head`. -/
@[simps]
def swap (q : MpscQueue τ) (node : Node τ) : MpscQueue τ :=
  { q with
    head := node
    order := Function.update q.order (q.last + 1) node
    last := q.last + 1 }

variable [DecidableEq τ]

/-- `node.mpscNext.store(nullptr)`. -/
@[simps]
def reset (q : MpscQueue τ) (node : Node τ) : MpscQueue τ :=
  { q with next := Function.update q.next node none }

/-- `previous->mpscNext.store(&node)`. -/
@[simps]
def link (q : MpscQueue τ) (previous node : Node τ) : MpscQueue τ :=
  { q with next := Function.update q.next previous (some node) }

/-- The next access of `pop`: the queue after it, and the next point or what `pop` returns. -/
def popStep (q : MpscQueue τ) : PopPc τ → MpscQueue τ × (PopPc τ ⊕ Option (Node τ))
  | .start =>
    match q.tail, q.next q.tail with
    | .stub, none => (q, .inr none)
    | .stub, some next => (q.advance next, .inl (.second next))
    | .task front, some next => (q.advance next, .inr (some (.task front)))
    | .task front, none => (q, .inl (.checkHead (.task front)))
  | .second front =>
    match q.next front with
    | some next => (q.advance next, .inr (some front))
    | none => (q, .inl (.checkHead front))
  | .checkHead front =>
    if front ≠ q.head then (q, .inr none) else (q, .inl (.stubReset front))
  | .stubReset front => (q.reset .stub, .inl (.stubSwap front))
  | .stubSwap front => (q.swap .stub, .inl (.stubLink front q.head))
  | .stubLink front previous => (q.link previous .stub, .inl (.recheck front))
  | .recheck front =>
    match q.next front with
    | some next => (q.advance next, .inr (some front))
    | none => (q, .inr none)

attribute [grind =] advance_head advance_tail advance_next advance_order advance_first
  advance_last swap_head swap_tail swap_next swap_order swap_first swap_last reset_head
  reset_tail reset_next reset_order reset_first reset_last link_head link_tail link_next
  link_order link_first link_last

/-! ### The order of the nodes -/

omit [DecidableEq τ] in
/-- The node is in the queue. -/
def Contains (q : MpscQueue τ) (node : Node τ) : Prop :=
  ∃ i, q.first ≤ i ∧ i ≤ q.last ∧ q.order i = node

omit [DecidableEq τ] in
/-- The links follow the order of the nodes, except where a push is between its two accesses. -/
structure Chained (q : MpscQueue τ) (mid : Node τ → Node τ → Prop) : Prop where
  first_le : q.first ≤ q.last
  tail_eq : q.tail = q.order q.first
  head_eq : q.head = q.order q.last
  injective : ∀ i j, q.first ≤ i → i ≤ q.last → q.first ≤ j → j ≤ q.last →
    q.order i = q.order j → i = j
  head_next : q.next q.head = none
  links : ∀ i, q.first ≤ i → i < q.last → q.next (q.order i) = some (q.order (i + 1)) ∨
    (q.next (q.order i) = none ∧ mid (q.order i) (q.order (i + 1)))
  mid_at : ∀ x y, mid x y → ∃ i, q.first ≤ i ∧ i < q.last ∧ q.order i = x ∧
    q.order (i + 1) = y ∧ q.next x = none

variable {q : MpscQueue τ} {mid mid' : Node τ → Node τ → Prop}

omit [DecidableEq τ] in
theorem chained_empty (hmid : ∀ x y, ¬ mid x y) : Chained (empty : MpscQueue τ) mid where
  first_le := le_rfl
  tail_eq := rfl
  head_eq := rfl
  injective := by
    intro i j _ hi _ hj _
    simp only [empty, Nat.le_zero] at hi hj
    rw [hi, hj]
  head_next := rfl
  links := by
    intro i _ hi
    simp [empty] at hi
  mid_at := fun x y hxy ↦ absurd hxy (hmid x y)

omit [DecidableEq τ] in
theorem Chained.congr (hq : q.Chained mid) (hmid : ∀ x y, mid x y ↔ mid' x y) :
    q.Chained mid' := by
  have heq : mid = mid' := funext fun x ↦ funext fun y ↦ propext (hmid x y)
  exact heq ▸ hq

/-- A node outside the queue can be prepared. -/
theorem Chained.reset (hq : q.Chained mid) {node : Node τ} (hnode : ¬ q.Contains node) :
    (q.reset node).Chained mid := by
  obtain ⟨hle, htail, hhead, hinj, hnext, hlinks, hmid⟩ := hq
  have hne : ∀ i, q.first ≤ i → i ≤ q.last → q.order i ≠ node := fun i h₁ h₂ heq ↦
    hnode ⟨i, h₁, h₂, heq⟩
  refine ⟨hle, htail, hhead, hinj, ?_, ?_, ?_⟩
  · grind -linarith
  · intro i h₁ h₂
    have hi := hne i h₁ h₂.le
    simpa [hi] using hlinks i h₁ h₂
  · intro x y hxy
    obtain ⟨i, h₁, h₂, hx, hy, hn⟩ := hmid x y hxy
    have hi := hne i h₁ h₂.le
    refine ⟨i, h₁, h₂, hx, hy, ?_⟩
    simpa [← hx, hi] using hx ▸ hn

omit [DecidableEq τ] in
/-- The exchange puts a prepared node last, and its push is then in the middle. -/
theorem Chained.swap (hq : q.Chained mid) {node : Node τ} (hnode : ¬ q.Contains node)
    (hnext : q.next node = none) :
    (q.swap node).Chained fun x y ↦ mid x y ∨ (x = q.head ∧ y = node) := by
  obtain ⟨hle, htail, hhead, hinj, hheadNext, hlinks, hmid⟩ := hq
  have hne : ∀ i, q.first ≤ i → i ≤ q.last → q.order i ≠ node := fun i h₁ h₂ heq ↦
    hnode ⟨i, h₁, h₂, heq⟩
  have hold : ∀ i, i ≤ q.last → (q.swap node).order i = q.order i := fun i hi ↦ by
    rw [swap_order, Function.update_of_ne (by omega)]
  have hnew : (q.swap node).order (q.last + 1) = node := by
    rw [swap_order, Function.update_self]
  refine ⟨hle.trans (Nat.le_succ _), htail.trans (hold _ hle).symm, hnew.symm, ?_, hnext, ?_, ?_⟩
  · intro i j hi₁ hi₂ hj₁ hj₂ heq
    simp only [swap_first, swap_last] at hi₁ hi₂ hj₁ hj₂
    rcases Nat.lt_or_ge q.last i with hi | hi <;> rcases Nat.lt_or_ge q.last j with hj | hj
    · omega
    · obtain rfl : i = q.last + 1 := by omega
      rw [hnew, hold j hj] at heq
      exact absurd heq.symm (hne j hj₁ hj)
    · obtain rfl : j = q.last + 1 := by omega
      rw [hnew, hold i hi] at heq
      exact absurd heq (hne i hi₁ hi)
    · rw [hold i hi, hold j hj] at heq
      exact hinj i j hi₁ hi hj₁ hj heq
  · intro i h₁ h₂
    simp only [swap_first, swap_last] at h₁ h₂
    rcases Nat.lt_or_ge i q.last with hi | hi
    · rw [hold i hi.le, hold (i + 1) hi, swap_next]
      exact (hlinks i h₁ hi).imp_right fun ⟨hnone, hpush⟩ ↦ ⟨hnone, Or.inl hpush⟩
    · obtain rfl : i = q.last := by omega
      rw [hold _ le_rfl, hnew, swap_next, ← hhead]
      exact Or.inr ⟨hheadNext, Or.inr ⟨rfl, rfl⟩⟩
  · rintro x y (hxy | ⟨rfl, rfl⟩)
    · obtain ⟨i, h₁, h₂, hx, hy, hn⟩ := hmid x y hxy
      exact ⟨i, h₁, h₂.trans (Nat.lt_succ_self _), (hold i h₂.le).trans hx,
        (hold (i + 1) h₂).trans hy, hn⟩
    · exact ⟨q.last, hle, Nat.lt_succ_self _, (hold _ le_rfl).trans hhead.symm, hnew, hheadNext⟩

/-- The link closes the gap of its push. -/
theorem Chained.link (hq : q.Chained mid) {previous node : Node τ} (hpush : mid previous node) :
    (q.link previous node).Chained fun x y ↦ mid x y ∧ x ≠ previous := by
  obtain ⟨hle, htail, hhead, hinj, hheadNext, hlinks, hmid⟩ := hq
  obtain ⟨k, hk₁, hk₂, rfl, rfl, hnone⟩ := hmid previous node hpush
  refine ⟨hle, htail, hhead, hinj, ?_, ?_, ?_⟩
  · have hne : q.head ≠ q.order k := by
      rw [hhead]
      intro heq
      have hk := hinj _ _ hle le_rfl hk₁ hk₂.le heq
      omega
    simpa [hne] using hheadNext
  · intro i h₁ h₂
    by_cases hi : i = k
    · subst hi
      simp
    · have hne : q.order i ≠ q.order k := fun heq ↦
        hi (hinj i k h₁ (Nat.le_of_lt h₂) hk₁ hk₂.le heq)
      simpa [hne] using hlinks i h₁ h₂
  · rintro x y ⟨hxy, hx⟩
    obtain ⟨i, h₁, h₂, hxi, hy, hn⟩ := hmid x y hxy
    exact ⟨i, h₁, h₂, hxi, hy, by simpa [hx] using hn⟩

omit [DecidableEq τ] in
/-- `tail` moves along a link. -/
theorem Chained.advance (hq : q.Chained mid) {next : Node τ} (hnext : q.next q.tail = some next) :
    (q.advance next).Chained mid := by
  obtain ⟨hle, htail, hhead, hinj, hheadNext, hlinks, hmid⟩ := hq
  have hlt : q.first < q.last := by
    refine lt_of_le_of_ne hle fun heq ↦ ?_
    rw [htail, heq, ← hhead, hheadNext] at hnext
    cases hnext
  have hlink := hlinks q.first le_rfl hlt
  rw [htail] at hnext
  have hnode : next = q.order (q.first + 1) := by grind -linarith
  refine ⟨by grind -linarith, by grind -linarith, by grind -linarith, by grind -linarith, by grind -linarith, by grind -linarith, ?_⟩
  intro x y hxy
  obtain ⟨i, h₁, h₂, hx, hy, hn⟩ := hmid x y hxy
  have hi : i ≠ q.first := by
    rintro rfl
    rw [hx, hn] at hnext
    cases hnext
  exact ⟨i, by grind -linarith, h₂, hx, hy, hn⟩

omit [DecidableEq τ] in
/-- Where the first node has no link it is the last, or a push is in the middle behind it. -/
theorem Chained.mid_of_next_none (hq : q.Chained mid) (hnext : q.next q.tail = none)
    (hne : q.first ≠ q.last) : ∃ y, mid q.tail y := by
  have hlt : q.first < q.last := lt_of_le_of_ne hq.first_le hne
  rcases hq.links q.first le_rfl hlt with hlink | ⟨-, hmid⟩
  · rw [← hq.tail_eq, hnext] at hlink
    cases hlink
  · exact ⟨_, hq.tail_eq ▸ hmid⟩

omit [DecidableEq τ] in
theorem Chained.contains_tail (hq : q.Chained mid) : q.Contains q.tail :=
  ⟨q.first, le_rfl, hq.first_le, hq.tail_eq.symm⟩

omit [DecidableEq τ] in
/-- A queue of one node contains no other. -/
theorem Chained.eq_tail_of_single (hq : q.Chained mid) (hsingle : q.first = q.last)
    {node : Node τ} (hnode : q.Contains node) : node = q.tail := by
  obtain ⟨i, h₁, h₂, rfl⟩ := hnode
  rw [hq.tail_eq]
  congr 1
  omega

/-! ### What the queue contains -/

omit [DecidableEq τ] in
@[grind =]
theorem contains_swap (hle : q.first ≤ q.last) {node other : Node τ} :
    (q.swap node).Contains other ↔ q.Contains other ∨ other = node := by
  constructor
  · rintro ⟨i, h₁, h₂, rfl⟩
    simp only [swap_first, swap_last, swap_order] at h₁ h₂ ⊢
    by_cases hi : i = q.last + 1
    · right
      simp [hi]
    · left
      exact ⟨i, h₁, by omega, by simp [hi]⟩
  · rintro (⟨i, h₁, h₂, rfl⟩ | rfl)
    · have hi : i ≠ q.last + 1 := by omega
      exact ⟨i, h₁, by grind -linarith, by simp [hi]⟩
    · exact ⟨q.last + 1, by grind -linarith, by grind -linarith, by simp⟩

@[simp, grind =]
theorem contains_reset {node other : Node τ} : (q.reset node).Contains other ↔ q.Contains other :=
  Iff.rfl

@[simp, grind =]
theorem contains_link {previous node other : Node τ} :
    (q.link previous node).Contains other ↔ q.Contains other :=
  Iff.rfl

omit [DecidableEq τ] in
/-- The first node is the one that leaves. -/
theorem Chained.contains_advance (hq : q.Chained mid) {next other : Node τ} :
    (q.advance next).Contains other ↔ q.Contains other ∧ other ≠ q.tail := by
  constructor
  · rintro ⟨i, h₁, h₂, rfl⟩
    simp only [advance_first, advance_last, advance_order] at h₁ h₂ ⊢
    refine ⟨⟨i, by omega, h₂, rfl⟩, fun heq ↦ ?_⟩
    rw [hq.tail_eq] at heq
    have hi := hq.injective i q.first (by omega) h₂ le_rfl hq.first_le heq
    omega
  · rintro ⟨⟨i, h₁, h₂, rfl⟩, hne⟩
    have hi : i ≠ q.first := by
      rintro rfl
      exact hne hq.tail_eq.symm
    exact ⟨i, by grind -linarith, h₂, rfl⟩

omit [DecidableEq τ] in
theorem Chained.contains_of_mid (hq : q.Chained mid) {x y : Node τ} (hxy : mid x y) :
    q.Contains x ∧ q.Contains y := by
  obtain ⟨i, h₁, h₂, hx, hy, -⟩ := hq.mid_at x y hxy
  exact ⟨⟨i, h₁, h₂.le, hx⟩, ⟨i + 1, by omega, by omega, hy⟩⟩

omit [DecidableEq τ] in
/-- At most one push is in the middle behind a node. -/
theorem Chained.mid_unique (hq : q.Chained mid) {x y y' : Node τ} (hxy : mid x y)
    (hxy' : mid x y') : y = y' := by
  obtain ⟨i, h₁, h₂, hx, hy, -⟩ := hq.mid_at x y hxy
  obtain ⟨j, h₃, h₄, hx', hy', -⟩ := hq.mid_at x y' hxy'
  obtain rfl := hq.injective i j h₁ h₂.le h₃ h₄.le (hx.trans hx'.symm)
  exact hy.symm.trans hy'

omit [DecidableEq τ] in
/-- A node whose push is in the middle is not the first. -/
theorem Chained.ne_tail_of_mid (hq : q.Chained mid) {x y : Node τ} (hxy : mid x y) :
    y ≠ q.tail := by
  obtain ⟨i, h₁, h₂, -, rfl, -⟩ := hq.mid_at x y hxy
  intro heq
  rw [hq.tail_eq] at heq
  have hi := hq.injective (i + 1) q.first (by omega) h₂ le_rfl hq.first_le heq
  omega

/-! ### Pops -/

omit [DecidableEq τ] in
/-- What holds of the queue where its consumer stands. -/
def Fits (q : MpscQueue τ) : PopPc τ → Prop
  | .start => True
  | .second front => q.tail = front ∧ front ≠ .stub
  | .checkHead front => q.tail = front ∧ front ≠ .stub
  | .stubReset front => q.tail = front ∧ front ≠ .stub ∧ ¬ q.Contains .stub
  | .stubSwap front => q.tail = front ∧ front ≠ .stub ∧ ¬ q.Contains .stub ∧ q.next .stub = none
  | .stubLink front _ => q.tail = front ∧ front ≠ .stub ∧ q.Contains .stub
  | .recheck front => q.tail = front ∧ front ≠ .stub ∧ q.Contains .stub

omit [DecidableEq τ] in
/-- The consumer is between the two accesses of its push of the stub. -/
def stubMid (x y : Node τ) : PopPc τ → Prop
  | .stubLink _ previous => x = previous ∧ y = .stub
  | _ => False

omit [DecidableEq τ] in
/-- The queue is a chain that is broken only at the pushes listed and at the consumer's own, and
the consumer stands where it can. The pushes listed are of tasks. -/
structure Consistent (q : MpscQueue τ) (pushes : Node τ → Node τ → Prop) (pop : PopPc τ) :
    Prop where
  chained : q.Chained fun x y ↦ pushes x y ∨ stubMid x y pop
  fits : q.Fits pop
  tasks : ∀ x y, pushes x y → y ≠ .stub

variable {pushes : Node τ → Node τ → Prop} {pop : PopPc τ}

omit [DecidableEq τ] in
theorem consistent_empty (hpushes : ∀ x y, ¬ pushes x y) :
    (empty : MpscQueue τ).Consistent pushes .start where
  chained := chained_empty fun x y hxy ↦ hxy.elim (hpushes x y) id
  fits := trivial
  tasks := fun x y hxy ↦ absurd hxy (hpushes x y)

omit [DecidableEq τ] in
theorem Consistent.congr {pushes' : Node τ → Node τ → Prop} (hq : q.Consistent pushes pop)
    (hpushes : ∀ x y, pushes x y ↔ pushes' x y) : q.Consistent pushes' pop := by
  have heq : pushes = pushes' := funext fun x ↦ funext fun y ↦ propext (hpushes x y)
  exact heq ▸ hq

omit [DecidableEq τ] in
/-- `tail` moves over a node: the pop returns it or goes on behind the stub. -/
theorem Consistent.advance (hq : q.Consistent pushes pop) (hpop : ∀ x y, ¬ stubMid x y pop)
    {next : Node τ} (hnext : q.next q.tail = some next) :
    (q.advance next).Chained fun x y ↦ pushes x y ∨ stubMid x y (.start : PopPc τ) := by
  refine (hq.chained.advance hnext).congr fun x y ↦ ?_
  have hxy := hpop x y
  simp only [stubMid] at hxy ⊢
  tauto

omit [DecidableEq τ] in
/-- The node behind the first one is another. -/
theorem Chained.next_ne_tail (hq : q.Chained mid) {next : Node τ}
    (hnext : q.next q.tail = some next) : next ≠ q.tail := by
  have hcontains := (hq.advance hnext).contains_tail
  rw [hq.contains_advance] at hcontains
  exact hcontains.2

omit [DecidableEq τ] in
/-- A queue whose first node is also its last contains no other. -/
theorem Chained.eq_tail_of_head (hq : q.Chained mid) (hhead : q.tail = q.head) {node : Node τ}
    (hnode : q.Contains node) : node = q.tail := by
  refine hq.eq_tail_of_single ?_ hnode
  refine hq.injective _ _ le_rfl hq.first_le hq.first_le le_rfl ?_
  rw [← hq.tail_eq, ← hq.head_eq, hhead]

/-- A pop that goes on keeps the queue consistent and its tasks inside. -/
theorem Consistent.popStep_next (hq : q.Consistent pushes pop) {q' : MpscQueue τ}
    {next : PopPc τ} (h : q.popStep pop = (q', .inl next)) :
    q'.Consistent pushes next ∧ ∀ task, q'.Contains (.task task) ↔ q.Contains (.task task) := by
  have hchained := hq.chained
  have hfits := hq.fits
  cases pop with
  | start =>
    simp only [popStep] at h
    split at h
    case h_1 => cases h
    case h_2 node htail hnext =>
      obtain ⟨rfl, rfl⟩ : q.advance node = q' ∧ .second node = next := by simpa using h
      have hne := hchained.next_ne_tail hnext
      refine ⟨⟨hq.advance (by simp [stubMid]) hnext, ⟨rfl, htail ▸ hne⟩, hq.tasks⟩, fun task ↦ ?_⟩
      rw [hchained.contains_advance, htail]
      simp
    case h_3 => cases h
    case h_4 front htail hnext =>
      obtain ⟨rfl, rfl⟩ : q = q' ∧ .checkHead (.task front) = next := by simpa using h
      exact ⟨⟨hchained, ⟨htail, by simp⟩, hq.tasks⟩, fun task ↦ Iff.rfl⟩
  | second front =>
    simp only [popStep] at h
    split at h
    · cases h
    · obtain ⟨rfl, rfl⟩ : q = q' ∧ .checkHead front = next := by simpa using h
      exact ⟨⟨hchained, hfits, hq.tasks⟩, fun task ↦ Iff.rfl⟩
  | checkHead front =>
    simp only [popStep] at h
    split_ifs at h with hhead
    · cases h
    · obtain ⟨rfl, rfl⟩ : q = q' ∧ .stubReset front = next := by simpa using h
      have hsingle : ¬ q.Contains .stub := fun hstub ↦
        hfits.2 (hfits.1 ▸ (hchained.eq_tail_of_head (hfits.1.trans (not_not.mp hhead)) hstub).symm)
      exact ⟨⟨hchained, ⟨hfits.1, hfits.2, hsingle⟩, hq.tasks⟩, fun task ↦ Iff.rfl⟩
  | stubReset front =>
    obtain ⟨rfl, rfl⟩ : q.reset .stub = q' ∧ .stubSwap front = next := by simpa [popStep] using h
    refine ⟨⟨hchained.reset hfits.2.2, ⟨hfits.1, hfits.2.1, hfits.2.2, ?_⟩, hq.tasks⟩,
      fun task ↦ Iff.rfl⟩
    simp
  | stubSwap front =>
    obtain ⟨rfl, rfl⟩ : q.swap .stub = q' ∧ .stubLink front q.head = next := by
      simpa [popStep] using h
    obtain ⟨htail, hne, hstub, hnone⟩ := hfits
    have hcontains {node : Node τ} :
        (q.swap .stub).Contains node ↔ q.Contains node ∨ node = .stub :=
      contains_swap hchained.first_le
    refine ⟨⟨?_, ⟨htail, hne, hcontains.mpr (.inr rfl)⟩, hq.tasks⟩, fun task ↦ ?_⟩
    · refine (hchained.swap hstub hnone).congr fun x y ↦ ?_
      simp [stubMid]
    · rw [hcontains]
      simp
  | stubLink front previous =>
    obtain ⟨rfl, rfl⟩ : q.link previous .stub = q' ∧ .recheck front = next := by
      simpa [popStep] using h
    have hmid : pushes previous .stub ∨ stubMid previous .stub (.stubLink front previous) :=
      .inr ⟨rfl, rfl⟩
    refine ⟨⟨?_, hfits, hq.tasks⟩, fun task ↦ Iff.rfl⟩
    refine (hchained.link hmid).congr fun x y ↦ ?_
    have hpush : pushes x y → x ≠ previous := by
      rintro hxy rfl
      exact hq.tasks x y hxy (hchained.mid_unique (.inl hxy) hmid)
    simp only [stubMid] at hpush ⊢
    tauto
  | recheck front =>
    simp only [popStep] at h
    split at h <;> cases h

/-- A pop that finds nothing leaves the queue as it is. Either nothing is linked behind the first
node or it looked at `head` too late. -/
theorem Consistent.popStep_none (hq : q.Consistent pushes pop) {q' : MpscQueue τ}
    (h : q.popStep pop = (q', .inr none)) :
    q' = q ∧ q.Consistent pushes .start ∧
      (q.next q.tail = none ∨ ∃ front, pop = .checkHead front) ∧
      (q.next q.tail = none → (∀ task, ¬ q.Contains (.task task)) ∨ ∃ y, pushes q.tail y) := by
  have hchained := hq.chained
  have hfits := hq.fits
  have hmid : (∀ x y, ¬ stubMid x y pop) → q.next q.tail = none →
      (q.first = q.last ∨ ∃ y, pushes q.tail y) := by
    intro hstub hnone
    by_cases hsingle : q.first = q.last
    · exact .inl hsingle
    · obtain ⟨y, hy⟩ := hchained.mid_of_next_none hnone hsingle
      exact .inr ⟨y, hy.resolve_right (hstub _ _)⟩
  cases pop with
  | start =>
    simp only [popStep] at h
    split at h
    case h_1 htail hnext =>
      obtain rfl : q = q' := by simpa using h
      refine ⟨rfl, hq, .inl hnext, fun _ ↦ ?_⟩
      refine (hmid (by simp [stubMid]) hnext).imp_left fun hsingle task htask ↦ ?_
      have heq := hchained.eq_tail_of_single hsingle htask
      simp [htail] at heq
    all_goals simp at h
  | checkHead front =>
    simp only [popStep] at h
    split_ifs at h with hhead
    · obtain rfl : q = q' := by simpa using h
      refine ⟨rfl, ⟨hchained, trivial, hq.tasks⟩, .inr ⟨front, rfl⟩, fun hnone ↦ .inr ?_⟩
      refine (hmid (by simp [stubMid]) hnone).resolve_left fun hsingle ↦ ?_
      rw [← hfits.1, hchained.tail_eq, hchained.head_eq, hsingle] at hhead
      exact hhead rfl
    · simp at h
  | recheck front =>
    simp only [popStep] at h
    split at h
    case h_1 => simp at h
    case h_2 hnext =>
      obtain rfl : q = q' := by simpa using h
      obtain ⟨rfl, hne, hstub⟩ := hfits
      refine ⟨rfl, ⟨hchained, trivial, hq.tasks⟩, .inl hnext, fun hnone ↦ .inr ?_⟩
      refine (hmid (by simp [stubMid]) hnone).resolve_left fun hsingle ↦ ?_
      exact hne (hchained.eq_tail_of_single hsingle hstub).symm
  | second front =>
    simp only [popStep] at h
    split at h <;> simp at h
  | stubReset front => simp [popStep] at h
  | stubSwap front => simp [popStep] at h
  | stubLink front previous => simp [popStep] at h

/-- A pop that returns a node took the first one. -/
theorem Consistent.popStep_some (hq : q.Consistent pushes pop) {q' : MpscQueue τ} {node : Node τ}
    (h : q.popStep pop = (q', .inr (some node))) :
    q'.Consistent pushes .start ∧ node = q.tail ∧
      ∀ other, q'.Contains other ↔ q.Contains other ∧ other ≠ node := by
  have hchained := hq.chained
  have hfits := hq.fits
  have htake {next : Node τ} (hstub : ∀ x y, ¬ stubMid x y pop)
      (hnext : q.next q.tail = some next) :
      (q.advance next).Consistent pushes .start ∧
        ∀ other, (q.advance next).Contains other ↔ q.Contains other ∧ other ≠ q.tail :=
    ⟨⟨hq.advance hstub hnext, trivial, hq.tasks⟩, fun _ ↦ hchained.contains_advance⟩
  cases pop with
  | start =>
    simp only [popStep] at h
    split at h
    case h_3 front next htail hnext =>
      obtain ⟨rfl, rfl⟩ : q.advance next = q' ∧ .task front = node := by simpa using h
      have hqueue := htake (by simp [stubMid]) hnext
      exact ⟨hqueue.1, htail.symm, htail ▸ hqueue.2⟩
    all_goals simp at h
  | second front =>
    simp only [popStep] at h
    split at h
    case h_1 next hnext =>
      obtain ⟨rfl, rfl⟩ : q.advance next = q' ∧ front = node := by simpa using h
      have hqueue := htake (by simp [stubMid]) (hfits.1 ▸ hnext)
      exact ⟨hqueue.1, hfits.1.symm, hfits.1 ▸ hqueue.2⟩
    case h_2 => simp at h
  | recheck front =>
    simp only [popStep] at h
    split at h
    case h_1 next hnext =>
      obtain ⟨rfl, rfl⟩ : q.advance next = q' ∧ front = node := by simpa using h
      have hqueue := htake (by simp [stubMid]) (hfits.1 ▸ hnext)
      exact ⟨hqueue.1, hfits.1.symm, hfits.1 ▸ hqueue.2⟩
    case h_2 => simp at h
  | checkHead front =>
    simp only [popStep] at h
    split_ifs at h <;> simp at h
  | stubReset front => simp [popStep] at h
  | stubSwap front => simp [popStep] at h
  | stubLink front previous => simp [popStep] at h

/-- A pop goes on to look at `head` when nothing is linked behind the first node. -/
theorem next_of_checkHead {q' : MpscQueue τ} {front : Node τ}
    (h : q.popStep pop = (q', .inl (.checkHead front))) : q'.next front = none := by
  cases pop with
  | start =>
    simp only [popStep] at h
    split at h
    case h_4 task htail hnext =>
      obtain ⟨rfl, rfl⟩ : q = q' ∧ .task task = front := by simpa using h
      exact htail ▸ hnext
    all_goals simp at h
  | second node =>
    simp only [popStep] at h
    split at h
    case h_2 hnext =>
      obtain ⟨rfl, rfl⟩ : q = q' ∧ node = front := by simpa using h
      exact hnext
    case h_1 => simp at h
  | checkHead node =>
    simp only [popStep] at h
    split_ifs at h <;> simp at h
  | recheck node =>
    simp only [popStep] at h
    split at h <;> simp at h
  | stubReset node => simp [popStep] at h
  | stubSwap node => simp [popStep] at h
  | stubLink node previous => simp [popStep] at h

/-- A pop does not touch the link of a task outside the queue. -/
theorem Consistent.next_popStep (hq : q.Consistent pushes pop) {task : τ}
    (htask : ¬ q.Contains (.task task)) :
    (q.popStep pop).1.next (.task task) = q.next (.task task) := by
  cases pop with
  | start =>
    simp only [popStep]
    split <;> rfl
  | second front =>
    simp only [popStep]
    split <;> rfl
  | checkHead front =>
    simp only [popStep]
    split_ifs <;> rfl
  | stubReset front => simp [popStep]
  | stubSwap front => simp [popStep]
  | stubLink front previous =>
    have hprevious : q.Contains previous := (hq.chained.contains_of_mid (.inr ⟨rfl, rfl⟩)).1
    have hne : (.task task : Node τ) ≠ previous := fun heq ↦ htask (heq ▸ hprevious)
    simp [popStep, hne]
  | recheck front =>
    simp only [popStep]
    split <;> rfl

/-! ### Pushes -/

/-- A push prepares its task. -/
theorem Consistent.reset (hq : q.Consistent pushes pop) {task : τ}
    (htask : ¬ q.Contains (.task task)) : (q.reset (.task task)).Consistent pushes pop := by
  refine ⟨hq.chained.reset htask, ?_, hq.tasks⟩
  have hfits := hq.fits
  cases pop with
  | stubSwap front =>
    exact ⟨hfits.1, hfits.2.1, hfits.2.2.1, by simpa using hfits.2.2.2⟩
  | _ => exact hfits

omit [DecidableEq τ] in
/-- A push exchanges `head`. -/
theorem Consistent.swap (hq : q.Consistent pushes pop) {task : τ}
    (htask : ¬ q.Contains (.task task)) (hnext : q.next (.task task) = none) :
    (q.swap (.task task)).Consistent
      (fun x y ↦ pushes x y ∨ (x = q.head ∧ y = .task task)) pop := by
  have hstub : (q.swap (.task task)).Contains .stub ↔ q.Contains .stub := by
    rw [contains_swap hq.chained.first_le]
    simp
  refine ⟨?_, ?_, ?_⟩
  · refine (hq.chained.swap htask hnext).congr fun x y ↦ ?_
    tauto
  · have hfits := hq.fits
    cases pop with
    | start => trivial
    | _ => simpa [Fits, hstub] using hfits
  · rintro x y (hxy | ⟨-, rfl⟩)
    · exact hq.tasks x y hxy
    · simp

/-- A push links its task. -/
theorem Consistent.link (hq : q.Consistent pushes pop) {previous : Node τ} {task : τ}
    (hpush : pushes previous (.task task)) :
    (q.link previous (.task task)).Consistent (fun x y ↦ pushes x y ∧ x ≠ previous) pop := by
  refine ⟨?_, ?_, fun x y hxy ↦ hq.tasks x y hxy.1⟩
  · refine (hq.chained.link (.inl hpush)).congr fun x y ↦ ?_
    have hstub : stubMid x y pop → x ≠ previous := by
      rintro hxy rfl
      have hy := hq.chained.mid_unique (.inl hpush) (.inr hxy)
      cases pop <;> simp_all [stubMid]
    tauto
  · have hprevious := (hq.chained.contains_of_mid (.inl hpush)).1
    have hfits := hq.fits
    cases pop with
    | stubSwap front =>
      obtain ⟨htail, hne, hstub, hnone⟩ := hfits
      have hother : (.stub : Node τ) ≠ previous := fun heq ↦ hstub (heq ▸ hprevious)
      exact ⟨htail, hne, hstub, by simpa [hother] using hnone⟩
    | _ => exact hfits

end MpscQueue

end Stackfull.Sched
