import Stackfull.Queue.BbqOperations

/-!
# What the threads of the queue know

`Fits` is what holds of a thread at each point of its call: heads that it has read are not ahead of
the queue's, a round that it has seen used up stays used up, and a slot that it has got or reserved
is its own. A pop that still finds `reserved` as it read it knows that its slot was written.

All of this survives what other threads do. `Grows` says what a step of one thread does to the
queue, and `fits_of_grows` that it takes nothing from the others.
-/

set_option autoImplicit false
set_option relaxedAutoImplicit false
set_option linter.dupNamespace false

namespace Stackfull.Queue.Bbq

open Stackfull.Lib

universe u v

variable {ι : Type u} {α : Type v} {p : Params}
variable {q q' : Queue α} {l l' : Log ι α} {f f' : Fronts} {t thread : ι} {k head : ℕ}

/-- A push has a ticket whose slot is not written. -/
def Pushing (p : Params) (l : Log ι α) (t : ι) (k : ℕ) (value : α) (block slot : ℕ) : Prop :=
  (∃ began, l.pushes[k]? = some ⟨t, value, began⟩) ∧ ¬ l.Written p (p.base + k) ∧
    block = k / p.blockSize % p.numBlocks ∧ slot = k % p.blockSize

/-- A pop has reserved a ticket whose slot it has not read. -/
def Popping (p : Params) (l : Log ι α) (t : ι) (k block slot : ℕ) : Prop :=
  l.pops[k]? = some t ∧ ¬ l.Read p (p.base + k) ∧
    block = k / p.blockSize % p.numBlocks ∧ slot = k % p.blockSize

/-- A push has seen the round of its head used up. -/
def GivenOut (p : Params) (q : Queue α) (l : Log ι α) (head : ℕ) : Prop :=
  head ≤ q.producerHead ∧ (head + p.numBlocks) * p.blockSize + p.blockSize ≤ l.given p

/-- A pop has seen the round of its head used up. -/
def UsedUp (p : Params) (q : Queue α) (l : Log ι α) (head : ℕ) : Prop :=
  head ≤ q.consumerHead ∧ (head + p.numBlocks) * p.blockSize + p.blockSize ≤ l.taken p

/-- A pop has read a value of `reserved` with a slot left. -/
def Saw (p : Params) (q : Queue α) (head reserved : ℕ) : Prop :=
  head ≤ q.consumerHead ∧ p.index reserved < p.blockSize ∧ reserved ≤ q.reserved (p.block head)

/-- How far the sequence of `atomicMax` has come. -/
def Target.Reached (p : Params) (f : Fronts) (head : ℕ) : Call α → Target → Prop
  | .push _, .committed => True
  | .push _, .allocated => head + 1 + p.numBlocks ≤ f.committed
  | .push _, .producerHead => head + 1 + p.numBlocks ≤ f.allocated
  | .pop, .consumed => True
  | .pop, .reserved => head + 1 + p.numBlocks ≤ f.consumed
  | .pop, .consumerHead => head + 1 + p.numBlocks ≤ f.reserved
  | _, _ => False

/-- What a call knows when it moves its head to the next block. -/
def MayMove (p : Params) (q : Queue α) (l : Log ι α) (f : Fronts) (head : ℕ) : Call α → Prop
  | .push _ => GivenOut p q l head ∧ Ring.ReadUpTo p l head
  | .pop => UsedUp p q l head ∧ head + 1 + p.numBlocks ≤ f.committed

/-- What holds of a thread at each point. -/
def Fits (p : Params) (q : Queue α) (l : Log ι α) (f : Fronts) (t : ι) (ticket : ℕ) :
    Pc α → Prop
  | .ready _ => True
  | .loadHead _ => True
  | .peek _ head => head ≤ q.producerHead
  | .add _ head => head ≤ q.producerHead
  | .write value block slot => Pushing p l t ticket value block (p.index slot)
  | .commit value block slot =>
    Pushing p l t ticket value block (p.index slot) ∧ q.entries block (p.index slot) = some value
  | .checkConsumed _ head => GivenOut p q l head
  | .checkReserved _ _ => True
  | .raise call head target current =>
    MayMove p q l f head call ∧ target.Reached p f head call ∧
      ∀ word, current = some word → word < p.goal .unbounded head target
  | .reserve head => head ≤ q.consumerHead
  | .checkCommitted head reserved => Saw p q head reserved
  | .checkAllocated head reserved committed =>
    Saw p q head reserved ∧ p.index committed ≠ p.blockSize ∧
      (q.reserved (p.block head) = reserved → p.index reserved < p.index committed ∧
        p.index committed ≤ roundCount p.blockSize (l.Written p) (l.taken p / p.blockSize))
  | .swap head reserved =>
    Saw p q head reserved ∧ (q.reserved (p.block head) = reserved → l.Written p (l.taken p))
  | .read block reserved => Popping p l t ticket block (p.index reserved)
  | .consume block reserved out =>
    Popping p l t ticket block (p.index reserved) ∧
      ∃ push, l.pushes[ticket]? = some push ∧ out = some push.value
  | .checkNext head => UsedUp p q l head

/-- What a step of a thread does to the queue, as the others see it. -/
structure Grows (p : Params) (t : ι) (q q' : Queue α) (l l' : Log ι α) (f f' : Fronts) : Prop where
  producerHead : q.producerHead ≤ q'.producerHead
  consumerHead : q.consumerHead ≤ q'.consumerHead
  allocatedFront : f.allocated ≤ f'.allocated
  committedFront : f.committed ≤ f'.committed
  reservedFront : f.reserved ≤ f'.reserved
  consumedFront : f.consumed ≤ f'.consumed
  reserved : ∀ b, q.reserved b ≤ q'.reserved b
  pushes : l.pushes <+: l'.pushes
  pops : l.pops <+: l'.pops
  written : ∀ k, l.Written p k → l'.Written p k
  read : ∀ k, l.Read p k → l'.Read p k
  unwritten : ∀ k push, l.pushes[k]? = some push → push.thread ≠ t → ¬ l.Written p (p.base + k) →
    ¬ l'.Written p (p.base + k)
  unread : ∀ k thread, l.pops[k]? = some thread → thread ≠ t → ¬ l.Read p (p.base + k) →
    ¬ l'.Read p (p.base + k)
  entries : ∀ k push, l.pushes[k]? = some push → push.thread ≠ t → ¬ l.Written p (p.base + k) →
    q'.entries (k / p.blockSize % p.numBlocks) (k % p.blockSize) =
      q.entries (k / p.blockSize % p.numBlocks) (k % p.blockSize)

theorem Grows.refl (p : Params) (t : ι) (q : Queue α) (l : Log ι α) (f : Fronts) :
    Grows p t q q l l f f where
  producerHead := Nat.le_refl _
  consumerHead := Nat.le_refl _
  allocatedFront := Nat.le_refl _
  committedFront := Nat.le_refl _
  reservedFront := Nat.le_refl _
  consumedFront := Nat.le_refl _
  reserved := fun _ ↦ Nat.le_refl _
  pushes := List.prefix_rfl
  pops := List.prefix_rfl
  written := fun _ h ↦ h
  read := fun _ h ↦ h
  unwritten := fun _ _ _ _ h ↦ h
  unread := fun _ _ _ _ h ↦ h
  entries := fun _ _ _ _ _ ↦ rfl

namespace Grows

variable (hg : Grows p t q q' l l' f f')

include hg

theorem given : l.given p ≤ l'.given p := by
  have hlength := hg.pushes.length_le
  unfold Log.given
  omega

theorem taken : l.taken p ≤ l'.taken p := by
  have hlength := hg.pops.length_le
  unfold Log.taken
  omega

theorem push_kept {push : Push ι α} (h : l.pushes[k]? = some push) : l'.pushes[k]? = some push := by
  obtain ⟨rest, hrest⟩ := hg.pushes
  rw [← hrest, List.getElem?_append_left (List.getElem?_eq_some_iff.mp h).1]
  exact h

theorem pop_kept (h : l.pops[k]? = some thread) : l'.pops[k]? = some thread := by
  obtain ⟨rest, hrest⟩ := hg.pops
  rw [← hrest, List.getElem?_append_left (List.getElem?_eq_some_iff.mp h).1]
  exact h

theorem pushing {value : α} {block slot : ℕ} (hne : thread ≠ t)
    (h : Pushing p l thread k value block slot) : Pushing p l' thread k value block slot := by
  obtain ⟨⟨began, hpush⟩, hwritten, hplace⟩ := h
  exact ⟨⟨began, hg.push_kept hpush⟩, hg.unwritten k _ hpush hne hwritten, hplace⟩

theorem popping {block slot : ℕ} (hne : thread ≠ t) (h : Popping p l thread k block slot) :
    Popping p l' thread k block slot := by
  obtain ⟨hpop, hread, hplace⟩ := h
  exact ⟨hg.pop_kept hpop, hg.unread k thread hpop hne hread, hplace⟩

theorem givenOut (h : GivenOut p q l head) : GivenOut p q' l' head :=
  ⟨h.1.trans hg.producerHead, h.2.trans hg.given⟩

theorem usedUp (h : UsedUp p q l head) : UsedUp p q' l' head :=
  ⟨h.1.trans hg.consumerHead, h.2.trans hg.taken⟩

theorem saw {reserved : ℕ} (h : Saw p q head reserved) : Saw p q' head reserved :=
  ⟨h.1.trans hg.consumerHead, h.2.1, h.2.2.trans (hg.reserved _)⟩

/-- A value of `reserved` with a slot left that is still there stands for the same ticket. -/
theorem taken_eq (hs : Ring p q l f) (hs' : Ring p q' l' f') {reserved : ℕ}
    (hsaw : Saw p q head reserved) (h : q'.reserved (p.block head) = reserved) :
    q.reserved (p.block head) = reserved ∧ l'.taken p = l.taken p := by
  have hsame : q.reserved (p.block head) = reserved :=
    Nat.le_antisymm (h ▸ hg.reserved _) hsaw.2.2
  have hindex : p.index (q.reserved (p.block head)) < p.blockSize := hsame.symm ▸ hsaw.2.1
  have hindex' : p.index (q'.reserved (p.block head)) < p.blockSize := h.symm ▸ hsaw.2.1
  obtain ⟨hblock, htaken⟩ := hs.reserved_of_lt hsaw.1 hindex
  obtain ⟨hblock', htaken'⟩ := hs'.reserved_of_lt (hsaw.1.trans hg.consumerHead) hindex'
  have hword := hs.reserved _ (inWindow_front p.numBlocks_pos)
  have hword' := hs'.reserved _ (inWindow_front p.numBlocks_pos)
  rw [hblock, hsame] at hword
  rw [hblock', h] at hword'
  have hfront := hs.fronts.2.2.1
  have hfront' := hs'.fronts.2.2.1
  have hn := p.numBlocks_pos
  obtain ⟨hround, -⟩ := Params.cursorAt_inj (by omega) (by omega) (hblock.trans hblock'.symm)
    Ring.min_lt Ring.min_lt (hword.symm.trans hword')
  rw [h] at htaken'
  rw [hsame, hround] at htaken
  exact ⟨hsame, htaken'.trans htaken.symm⟩

end Grows

/-- What a thread knows survives the steps of the others. -/
theorem fits_of_grows (hs : Ring p q l f) (hs' : Ring p q' l' f')
    (hg : Grows p t q q' l l' f f') (hne : thread ≠ t) {pc : Pc α}
    (h : Fits p q l f thread k pc) : Fits p q' l' f' thread k pc := by
  cases pc with
  | ready => trivial
  | loadHead => trivial
  | peek => exact Nat.le_trans h hg.producerHead
  | add => exact Nat.le_trans h hg.producerHead
  | write => exact hg.pushing hne h
  | commit value block slot =>
    obtain ⟨hpushing, hentry⟩ := h
    refine ⟨hg.pushing hne hpushing, ?_⟩
    obtain ⟨⟨began, hpush⟩, hwritten, rfl, hslot⟩ := hpushing
    rw [hslot] at hentry ⊢
    rw [hg.entries k _ hpush hne hwritten]
    exact hentry
  | checkConsumed => exact hg.givenOut h
  | checkReserved => trivial
  | raise call head target current =>
    obtain ⟨hmay, hreached, hcurrent⟩ := h
    refine ⟨?_, ?_, hcurrent⟩
    · cases call with
      | push => exact ⟨hg.givenOut hmay.1, fun k hk ↦ hg.read k (hmay.2 k hk)⟩
      | pop => exact ⟨hg.usedUp hmay.1, hmay.2.trans hg.committedFront⟩
    · have hfronts := hg.allocatedFront
      have hfronts' := hg.committedFront
      have hfronts'' := hg.reservedFront
      have hfronts''' := hg.consumedFront
      cases call <;> cases target <;> simp only [Target.Reached] at hreached ⊢ <;> omega
  | reserve => exact Nat.le_trans h hg.consumerHead
  | checkCommitted => exact hg.saw h
  | checkAllocated head reserved committed =>
    obtain ⟨hsaw, hindex, hknows⟩ := h
    refine ⟨hg.saw hsaw, hindex, fun hstill ↦ ?_⟩
    obtain ⟨hsame, htaken⟩ := hg.taken_eq hs hs' hsaw hstill
    obtain ⟨hlt, hle⟩ := hknows hsame
    rw [htaken]
    exact ⟨hlt, hle.trans (roundCount_mono hg.written)⟩
  | swap head reserved =>
    obtain ⟨hsaw, hknows⟩ := h
    refine ⟨hg.saw hsaw, fun hstill ↦ ?_⟩
    obtain ⟨hsame, htaken⟩ := hg.taken_eq hs hs' hsaw hstill
    rw [htaken]
    exact hg.written _ (hknows hsame)
  | read => exact hg.popping hne h
  | consume block reserved out =>
    obtain ⟨hpopping, push, hpush, hout⟩ := h
    exact ⟨hg.popping hne hpopping, push, hg.push_kept hpush, hout⟩
  | checkNext => exact hg.usedUp h

end Stackfull.Queue.Bbq
