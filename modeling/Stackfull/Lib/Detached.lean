import Mathlib.Data.List.Nodup
import Mathlib.Logic.Function.Basic
import Mathlib.Tactic.Common

/-!
# A queue and the chains detached from it

Waiters stand in one queue. A party that releases them takes them off the queue onto a chain of its
own, under a lock, and works the chain off without the lock. `Apart` says that nobody stands in two
places: the queue and the chains have no duplicates and nothing in common.
-/

set_option autoImplicit false
set_option relaxedAutoImplicit false
set_option linter.dupNamespace false

namespace Stackfull.Lib

universe u v

/-- Nobody stands in the queue or the chains twice. -/
structure Apart {ι : Type u} {κ : Type v} (queue : List ι) (chain : κ → List ι) : Prop where
  nodup : queue.Nodup
  nodup_chain : ∀ p, (chain p).Nodup
  off : ∀ p, ∀ w ∈ chain p, w ∉ queue
  alone : ∀ p q w, w ∈ chain p → w ∈ chain q → p = q

namespace Apart

variable {ι : Type u} {κ : Type v} [DecidableEq κ] {queue rest : List ι} {chain : κ → List ι}
  {p : κ}
  {w : ι}

omit [DecidableEq κ] in
/-- Nobody has queued. -/
theorem nil (h : ∀ p, chain p = []) : Apart ([] : List ι) chain where
  nodup := List.nodup_nil
  nodup_chain p := by simp [h p]
  off p w hw := by simp [h p] at hw
  alone p q w hw := by simp [h p] at hw

/-- A party that neither takes nor gives anybody. -/
theorem keep (h : Apart queue chain) {l : List ι} (hl : l = chain p) :
    Apart queue (Function.update chain p l) := by
  rwa [hl, Function.update_eq_self]

omit [DecidableEq κ] in
/-- Somebody who stands nowhere joins the queue. -/
theorem push (h : Apart queue chain) (hqueue : w ∉ queue) (hchain : ∀ p, w ∉ chain p) :
    Apart (queue ++ [w]) chain where
  nodup := h.nodup.append (List.nodup_singleton w) (by simpa using hqueue)
  nodup_chain := h.nodup_chain
  off p v hv := by
    have hne : v ≠ w := fun heq ↦ hchain p (heq ▸ hv)
    simp [h.off p v hv, hne]
  alone := h.alone

omit [DecidableEq κ] in
/-- Somebody leaves the queue. -/
theorem erase [DecidableEq ι] (h : Apart queue chain) (w : ι) : Apart (queue.erase w) chain where
  nodup := h.nodup.erase w
  nodup_chain := h.nodup_chain
  off p v hv hmem := h.off p v hv (List.mem_of_mem_erase hmem)
  alone := h.alone

omit [DecidableEq κ] in
theorem off_queue (h : Apart queue chain) (hw : w ∈ queue) (p : κ) : w ∉ chain p :=
  fun hmem ↦ h.off p w hmem hw

/-- The first of the queue goes onto the chain of a party. -/
theorem pop (h : Apart (w :: rest) chain) :
    Apart rest (Function.update chain p (w :: chain p)) := by
  have hw : ∀ q, w ∉ chain q := h.off_queue List.mem_cons_self
  refine ⟨h.nodup.of_cons, fun q ↦ ?_, fun q v hv ↦ ?_, fun q r v hq hr ↦ ?_⟩
  · rcases eq_or_ne q p with rfl | hne
    · rw [Function.update_self]
      exact (h.nodup_chain q).cons (hw q)
    · rw [Function.update_of_ne hne]
      exact h.nodup_chain q
  · rcases eq_or_ne q p with rfl | hne
    · rw [Function.update_self, List.mem_cons] at hv
      rcases hv with rfl | hv
      · exact (List.nodup_cons.mp h.nodup).1
      · exact fun hmem ↦ h.off q v hv (List.mem_cons_of_mem w hmem)
    · rw [Function.update_of_ne hne] at hv
      exact fun hmem ↦ h.off q v hv (List.mem_cons_of_mem w hmem)
  · have hmem : ∀ q, v ∈ Function.update chain p (w :: chain p) q →
        v = w ∧ q = p ∨ v ∈ chain q := fun q hq ↦ by
      rcases eq_or_ne q p with rfl | hne
      · rw [Function.update_self, List.mem_cons] at hq
        exact hq.imp_left fun heq ↦ ⟨heq, rfl⟩
      · rw [Function.update_of_ne hne] at hq
        exact Or.inr hq
    rcases hmem q hq with ⟨rfl, rfl⟩ | hq'
    · rcases hmem r hr with ⟨-, rfl⟩ | hr'
      · rfl
      · exact absurd hr' (hw r)
    · rcases hmem r hr with ⟨rfl, -⟩ | hr'
      · exact absurd hq' (hw q)
      · exact h.alone q r v hq' hr'

/-- The front of the queue, in any order, becomes the chain of a party. -/
theorem detach {taken l : List ι} (h : Apart (taken ++ rest) chain) (hperm : l.Perm taken) : Apart rest (Function.update chain p l) := by
  obtain ⟨htaken, hrest, hapart⟩ := List.nodup_append.mp h.nodup
  have hmem : ∀ q v, v ∈ Function.update chain p l q → v ∈ taken ∧ q = p ∨ v ∈ chain q ∧ q ≠ p := by
    intro q v hv
    rcases eq_or_ne q p with rfl | hne
    · rw [Function.update_self] at hv
      exact Or.inl ⟨hperm.mem_iff.mp hv, rfl⟩
    · rw [Function.update_of_ne hne] at hv
      exact Or.inr ⟨hv, hne⟩
  refine ⟨hrest, fun q ↦ ?_, fun q v hv ↦ ?_, fun q r v hq hr ↦ ?_⟩
  · rcases eq_or_ne q p with rfl | hne
    · rw [Function.update_self]
      exact hperm.nodup_iff.mpr htaken
    · rw [Function.update_of_ne hne]
      exact h.nodup_chain q
  · rcases hmem q v hv with ⟨hv, -⟩ | ⟨hv, -⟩
    · exact fun hmem ↦ hapart v hv v hmem rfl
    · exact fun hmem ↦ h.off q v hv (List.mem_append_right _ hmem)
  · rcases hmem q v hq with ⟨htaken, rfl⟩ | ⟨hold, -⟩
    · rcases hmem r v hr with ⟨-, rfl⟩ | ⟨hold, -⟩
      · rfl
      · exact absurd (List.mem_append_left _ htaken) (h.off r v hold)
    · rcases hmem r v hr with ⟨htaken, -⟩ | ⟨hold', -⟩
      · exact absurd (List.mem_append_left _ htaken) (h.off q v hold)
      · exact h.alone q r v hold hold'

/-- A party lets the first of its chain go. -/
theorem take (h : Apart queue chain) (hchain : chain p = w :: rest) :
    Apart queue (Function.update chain p rest) := by
  have hmem : ∀ q v, v ∈ Function.update chain p rest q → v ∈ chain q := fun q v hv ↦ by
    rcases eq_or_ne q p with rfl | hne
    · rw [Function.update_self] at hv
      exact hchain ▸ List.mem_cons_of_mem w hv
    · rwa [Function.update_of_ne hne] at hv
  refine ⟨h.nodup, fun q ↦ ?_, fun q v hv ↦ h.off q v (hmem q v hv), fun q r v hq hr ↦
    h.alone q r v (hmem q v hq) (hmem r v hr)⟩
  rcases eq_or_ne q p with rfl | hne
  · rw [Function.update_self]
    exact (hchain ▸ h.nodup_chain q).of_cons
  · rw [Function.update_of_ne hne]
    exact h.nodup_chain q

/-- Who has been let go stands nowhere. -/
theorem gone (h : Apart queue chain) (hchain : chain p = w :: rest) (q : κ) :
    w ∉ Function.update chain p rest q := by
  have hw : w ∈ chain p := hchain ▸ List.mem_cons_self
  rcases eq_or_ne q p with rfl | hne
  · rw [Function.update_self]
    exact (List.nodup_cons.mp (hchain ▸ h.nodup_chain q)).1
  · rw [Function.update_of_ne hne]
    exact fun hmem ↦ hne (h.alone q p w hmem hw)

end Apart

end Stackfull.Lib
