import Mathlib.Data.List.Nodup
import Mathlib.Logic.Function.Basic
import Mathlib.Tactic.Common

/-!
# Waiting parties and their notifiers

Parties queue on lists and wait to be notified. A notifier takes waiters off the lists onto a chain
of its own and then notifies them one by one, so between the two a waiter is on no list and on
exactly one chain.

`Step` lists the moves of such a system and `Sound` is what every one of them preserves: in
particular a chain holds nobody who stopped waiting, and whoever waits unnotified is on a list or
on a chain. A model has these properties once its steps are moves of this kind.
-/

set_option autoImplicit false
set_option relaxedAutoImplicit false
set_option linter.dupNamespace false

namespace Stackfull.Lib.Notification

universe u v

/-- What a party does: it waits on a list, it left that wait and only awaits its notification, or
it has a chain to notify, which is empty for a party with nothing to do. -/
inductive Role (κ : Type v) (ι : Type u)
  | waiting (list : κ)
  | awaiting
  | notifying (chain : List ι)

/-- The waiters a party has to notify. -/
def Role.chain {κ : Type v} {ι : Type u} : Role κ ι → List ι
  | .notifying chain => chain
  | _ => []

/-- The lists, what every party does, and who was notified. -/
structure Parties (κ : Type v) (ι : Type u) where
  queue : κ → List ι
  role : ι → Role κ ι
  notified : ι → Prop

namespace Parties

variable {κ : Type v} {ι : Type u}

/-- The party is off every list and still has to be notified. -/
def Owed (s : Parties κ ι) (w : ι) : Prop :=
  ((∃ k, s.role w = .waiting k) ∨ s.role w = .awaiting) ∧ (∀ k, w ∉ s.queue k) ∧ ¬ s.notified w

/-- The lists, the chains and the parties agree. -/
structure Sound (s : Parties κ ι) : Prop where
  linked : ∀ k p, p ∈ s.queue k → s.role p = .waiting k
  nodup : ∀ k, (s.queue k).Nodup
  unnotified : ∀ k p, p ∈ s.queue k → ¬ s.notified p
  owed : ∀ q w, w ∈ (s.role q).chain → s.Owed w
  chainNodup : ∀ q, (s.role q).chain.Nodup
  chainUnique : ∀ q r w, w ∈ (s.role q).chain → w ∈ (s.role r).chain → q = r
  covered : ∀ w k, s.role w = .waiting k →
    w ∈ s.queue k ∨ s.notified w ∨ ∃ q, w ∈ (s.role q).chain

/-! ### What agreement says -/

section Sound

variable {s : Parties κ ι}

/-- The first waiter of a chain is owed its notification. -/
theorem Sound.owed_head (hs : s.Sound) {q w : ι} {rest : List ι}
    (hpc : s.role q = .notifying (w :: rest)) : s.Owed w :=
  hs.owed q w (by simp [hpc, Role.chain])

/-- A party that was notified is off every list. -/
theorem Sound.not_mem_of_notified (hs : s.Sound) {p : ι} (hp : s.notified p) (k : κ) :
    p ∉ s.queue k :=
  fun hmem ↦ hs.unnotified k p hmem hp

/-- A party that was notified is off every chain. -/
theorem Sound.not_chained_of_notified (hs : s.Sound) {p : ι} (hp : s.notified p) (q : ι) :
    p ∉ (s.role q).chain :=
  fun hmem ↦ (hs.owed q p hmem).2.2 hp

end Sound

/-! ### The moves -/

variable [DecidableEq κ] [DecidableEq ι]

/-- The moves. A move may clear the notification of a party that begins to wait, or has nothing to
do. -/
inductive Step (s : Parties κ ι) : Parties κ ι → Prop
  | stay : Step s s
  | clear {p : ι} (notified : ι → Prop) (hpc : s.role p = .notifying [])
      (hnotified : ∀ q, q ≠ p → (notified q ↔ s.notified q)) : Step s ⟨s.queue, s.role, notified⟩
  | enqueue {p : ι} {k : κ} (notified : ι → Prop) (hpc : s.role p = .notifying [])
      (hnotified : ∀ q, q ≠ p → (notified q ↔ s.notified q)) (hclear : ¬ notified p) :
      Step s ⟨Function.update s.queue k (s.queue k ++ [p]),
        Function.update s.role p (.waiting k), notified⟩
  | unlink {p : ι} {k : κ} (hlinked : p ∈ s.queue k) :
      Step s ⟨Function.update s.queue k ((s.queue k).erase p),
        Function.update s.role p (.notifying []), s.notified⟩
  | leave {p : ι} {k : κ} (hpc : s.role p = .waiting k) (hunlinked : p ∉ s.queue k) :
      Step s ⟨s.queue, Function.update s.role p .awaiting, s.notified⟩
  | resume {p : ι} (hpc : (s.role p).chain = []) (hp : s.notified p) :
      Step s ⟨s.queue, Function.update s.role p (.notifying []), s.notified⟩
  | take {q : ι} {chain : List ι} (ws : List ι) (queue : κ → List ι)
      (hpc : s.role q = .notifying chain)
      (hnodup : ws.Nodup) (hlinked : ∀ w, w ∈ ws → ∃ k, w ∈ s.queue k)
      (hsublist : ∀ k, (queue k).Sublist (s.queue k))
      (hqueue : ∀ k w, w ∈ queue k ↔ w ∈ s.queue k ∧ w ∉ ws) :
      Step s ⟨queue, Function.update s.role q (.notifying (chain ++ ws)), s.notified⟩
  | notify {q w : ι} {rest : List ι} (notified : ι → Prop)
      (hpc : s.role q = .notifying (w :: rest))
      (hnotified : ∀ p, notified p ↔ s.notified p ∨ p = w) :
      Step s ⟨s.queue, Function.update s.role q (.notifying rest), notified⟩
  | complete {q w : ι} {k : κ} {rest : List ι} (hpc : s.role q = .notifying (w :: rest))
      (htarget : s.role w = .waiting k) :
      Step s ⟨s.queue, Function.update (Function.update s.role q (.notifying rest)) w
        (.notifying []), s.notified⟩

attribute [local grind] Role.chain Owed

section Moves

variable {s t : Parties κ ι}

/-- A move given by what it leaves everywhere. -/
theorem Step.of_eq {u : Parties κ ι} (h : Step s u) (hqueue : ∀ k, t.queue k = u.queue k)
    (hrole : ∀ q, t.role q = u.role q) (hnotified : ∀ q, t.notified q ↔ u.notified q) :
    Step s t := by
  obtain ⟨queue, role, notified⟩ := t
  obtain rfl : queue = u.queue := funext hqueue
  obtain rfl : role = u.role := funext hrole
  obtain rfl : notified = u.notified := funext fun q ↦ propext (hnotified q)
  exact h

theorem linked_step (hs : s.Sound) (h : Step s t) :
    ∀ k p, p ∈ t.queue k → t.role p = .waiting k := by
  have hlinked := hs.linked
  have hnodup := hs.nodup
  cases h with
  | resume hpc hp =>
    have hoff := hs.not_mem_of_notified hp
    grind -linarith
  | complete hpc =>
    have hoff := (hs.owed_head hpc).2.1
    grind -linarith
  | _ => grind -linarith

theorem nodup_step (hs : s.Sound) (h : Step s t) : ∀ k, (t.queue k).Nodup := by
  have hlinked := hs.linked
  have hnodup := hs.nodup
  cases h with
  | take _ _ hpc hws hmem hsublist => exact fun k ↦ (hnodup k).sublist (hsublist k)
  | _ => grind -linarith

theorem unnotified_step (hs : s.Sound) (h : Step s t) : ∀ k p, p ∈ t.queue k → ¬ t.notified p := by
  have hlinked := hs.linked
  have hnodup := hs.nodup
  have hunnotified := hs.unnotified
  cases h with
  | notify _ hpc =>
    have hoff := (hs.owed_head hpc).2.1
    grind -linarith
  | _ => grind -linarith

theorem owed_step (hs : s.Sound) (h : Step s t) : ∀ q w, w ∈ (t.role q).chain → t.Owed w := by
  obtain ⟨hlinked, hnodup, hunnotified, howed, hchain, hunique, -⟩ := hs
  cases h <;> grind -linarith

theorem chainNodup_step (hs : s.Sound) (h : Step s t) : ∀ q, (t.role q).chain.Nodup := by
  obtain ⟨hlinked, hnodup, -, howed, hchain, -, -⟩ := hs
  cases h <;> grind -linarith

theorem chainUnique_step (hs : s.Sound) (h : Step s t) :
    ∀ q r w, w ∈ (t.role q).chain → w ∈ (t.role r).chain → q = r := by
  obtain ⟨hlinked, hnodup, -, howed, hchain, hunique, -⟩ := hs
  cases h <;> grind -linarith

/-- A waiter stays on its chain until it is notified, or until its wait is ended for it. -/
theorem chain_kept (hs : s.Sound) (h : Step s t) {q w : ι} (hw : w ∈ (s.role q).chain) :
    w ∈ (t.role q).chain ∨ t.notified w ∨ t.role w = .notifying [] := by
  have howed := hs.owed q w hw
  have hlinked := hs.linked
  cases h with
  | resume hpc hp =>
    have hoff := hs.not_chained_of_notified hp
    grind -linarith
  | _ => grind -linarith

theorem covered_step (hs : s.Sound) (h : Step s t) :
    ∀ w k, t.role w = .waiting k →
      w ∈ t.queue k ∨ t.notified w ∨ ∃ q, w ∈ (t.role q).chain := by
  intro w k hwait
  by_cases hold : ∃ q, w ∈ (s.role q).chain
  · obtain ⟨q, hq⟩ := hold
    rcases chain_kept hs h hq with hkept | hnotified | hfree
    · exact .inr (.inr ⟨q, hkept⟩)
    · exact .inr (.inl hnotified)
    · rw [hfree] at hwait
      cases hwait
  · have hcovered := hs.covered w k
    have hlinked := hs.linked
    cases h with
    | @take q chain ws =>
      by_cases hw : w ∈ ws
      · exact .inr (.inr ⟨q, by simp [Role.chain, hw]⟩)
      · grind -linarith
    | _ => grind -linarith

/-- A party that left its wait is notified or on a chain. -/
theorem Sound.awaited_step (hs : s.Sound)
    (hawaited : ∀ w, s.role w = .awaiting → s.notified w ∨ ∃ q, w ∈ (s.role q).chain)
    (h : Step s t) : ∀ w, t.role w = .awaiting → t.notified w ∨ ∃ q, w ∈ (t.role q).chain := by
  intro w hwait
  by_cases hold : ∃ q, w ∈ (s.role q).chain
  · obtain ⟨q, hq⟩ := hold
    rcases chain_kept hs h hq with hkept | hnotified | hfree
    · exact .inr ⟨q, hkept⟩
    · exact .inl hnotified
    · rw [hfree] at hwait
      cases hwait
  · have hcovered := hs.covered w
    have hw := hawaited w
    cases h <;> grind -linarith

/-- Every move keeps the lists, the chains and the parties in agreement. -/
theorem Sound.step (hs : s.Sound) (h : Step s t) : t.Sound where
  linked := linked_step hs h
  nodup := nodup_step hs h
  unnotified := unnotified_step hs h
  owed := owed_step hs h
  chainNodup := chainNodup_step hs h
  chainUnique := chainUnique_step hs h
  covered := covered_step hs h

end Moves

end Parties

end Stackfull.Lib.Notification
