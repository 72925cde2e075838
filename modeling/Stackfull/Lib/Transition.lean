import Mathlib.Logic.Function.Basic
import Mathlib.Tactic.Common

/-!
# Labelled step systems, the states a run reaches, and invariants

A concurrent program is modelled as a `System`: a set of initial states and a partial step
function. A label names which party moves and resolves what the program leaves open, so a run is
a list of labels and an interleaving is the order in which the labels of different parties stand
in that list.

`ReachableUnder good` are the states reached by runs whose every step meets the condition `good`
in the state it starts from; `Reachable` is the case with no condition. `ReachableUnder.invariant`
is the induction every safety result of the development goes through: a property that holds
initially and is preserved by each step that meets the condition holds in every state reached.
`run` executes a list of labels, and `reachable_of_run` turns such an execution into reachability.
-/

set_option autoImplicit false
set_option relaxedAutoImplicit false
set_option linter.dupNamespace false

namespace Stackfull.Lib

universe u v

/-- A step system over states `σ` and labels `α`. -/
structure System (σ : Type u) (α : Type v) where
  init : σ → Prop
  step : σ → α → Option σ

namespace System

variable {σ : Type u} {α : Type v}

/-- The states reached from an initial state by steps that each meet `good` where they start. -/
inductive ReachableUnder (S : System σ α) (good : σ → α → Prop) : σ → Prop
  | init {s : σ} : S.init s → ReachableUnder S good s
  | step {s t : σ} {a : α} :
      ReachableUnder S good s → good s a → S.step s a = some t → ReachableUnder S good t

/-- The states reached by any run. -/
def Reachable (S : System σ α) : σ → Prop :=
  S.ReachableUnder fun _ _ ↦ True

variable {S : System σ α} {good : σ → α → Prop}

/-- A property that holds initially and is preserved by the steps that meet the condition holds
in every state such steps reach. -/
theorem ReachableUnder.invariant {P : σ → Prop} (hinit : ∀ s, S.init s → P s)
    (hstep : ∀ s a t, P s → good s a → S.step s a = some t → P t) {s : σ}
    (hs : S.ReachableUnder good s) : P s := by
  induction hs with
  | init h => exact hinit _ h
  | step _ hgood hnext ih => exact hstep _ _ _ ih hgood hnext

/-- Fewer steps are allowed under a stronger condition. -/
theorem ReachableUnder.mono {better : σ → α → Prop} (himp : ∀ s a, better s a → good s a) {s : σ}
    (hs : S.ReachableUnder better s) : S.ReachableUnder good s := by
  induction hs with
  | init h => exact .init h
  | step _ hgood hnext ih => exact .step ih (himp _ _ hgood) hnext

/-- A state reached under a condition is reached. -/
theorem ReachableUnder.reachable {s : σ} (hs : S.ReachableUnder good s) : S.Reachable s :=
  hs.mono fun _ _ _ ↦ trivial

/-- The invariant rule for unconditional runs. -/
theorem Reachable.invariant {P : σ → Prop} (hinit : ∀ s, S.init s → P s)
    (hstep : ∀ s a t, P s → S.step s a = some t → P t) {s : σ} (hs : S.Reachable s) : P s :=
  ReachableUnder.invariant hinit (fun s a t hP _ hnext ↦ hstep s a t hP hnext) hs

/-- Executes a list of labels, one step each, as long as every step passes the check. -/
def runUnder (S : System σ α) (check : σ → α → Bool) : σ → List α → Option σ
  | s, [] => some s
  | s, a :: rest => if check s a then (S.step s a).bind fun t ↦ S.runUnder check t rest else none

/-- Executes a list of labels. -/
def run (S : System σ α) : σ → List α → Option σ :=
  S.runUnder fun _ _ ↦ true

/-- An execution whose steps pass the check reaches its last state under the check. -/
theorem ReachableUnder.runUnder {check : σ → α → Bool} {s t : σ}
    (hs : S.ReachableUnder (fun s a ↦ check s a = true) s) {labels : List α}
    (hrun : S.runUnder check s labels = some t) :
    S.ReachableUnder (fun s a ↦ check s a = true) t := by
  induction labels generalizing s with
  | nil =>
    simp only [System.runUnder, Option.some.injEq] at hrun
    exact hrun ▸ hs
  | cons a rest ih =>
    simp only [System.runUnder] at hrun
    split_ifs at hrun with hcheck
    obtain ⟨mid, hmid, hrest⟩ := Option.bind_eq_some_iff.mp hrun
    exact ih (.step hs hcheck hmid) hrest

/-- A checked execution from an initial state. -/
theorem reachableUnder_of_run {check : σ → α → Bool} {s t : σ} (hs : S.init s) {labels : List α}
    (hrun : S.runUnder check s labels = some t) :
    S.ReachableUnder (fun s a ↦ check s a = true) t :=
  ReachableUnder.runUnder (.init hs) hrun

/-- An execution from an initial state ends in a reachable state. -/
theorem reachable_of_run {s t : σ} (hs : S.init s) {labels : List α}
    (hrun : S.run s labels = some t) : S.Reachable t :=
  (reachableUnder_of_run hs hrun).reachable

/-- A property preserved by every step is preserved by every execution. -/
theorem runUnder_preserves {check : σ → α → Bool} {P : σ → Prop}
    (hstep : ∀ s a t, P s → S.step s a = some t → P t) {s t : σ} (hs : P s) {labels : List α}
    (hrun : S.runUnder check s labels = some t) : P t := by
  induction labels generalizing s with
  | nil =>
    simp only [System.runUnder, Option.some.injEq] at hrun
    exact hrun ▸ hs
  | cons a rest ih =>
    simp only [System.runUnder] at hrun
    split_ifs at hrun with hcheck
    obtain ⟨mid, hmid, hrest⟩ := Option.bind_eq_some_iff.mp hrun
    exact ih (hstep s a mid hs hmid) hrest

/-- Executions compose. -/
theorem runUnder_append {check : σ → α → Bool} {s mid t : σ} {first second : List α}
    (hfirst : S.runUnder check s first = some mid)
    (hsecond : S.runUnder check mid second = some t) :
    S.runUnder check s (first ++ second) = some t := by
  induction first generalizing s with
  | nil =>
    simp only [System.runUnder, Option.some.injEq] at hfirst
    exact hfirst ▸ hsecond
  | cons a rest ih =>
    simp only [System.runUnder] at hfirst
    split_ifs at hfirst with hcheck
    obtain ⟨next, hnext, hrest⟩ := Option.bind_eq_some_iff.mp hfirst
    simp only [System.runUnder, List.cons_append, hcheck, if_true, hnext, Option.bind_some]
    exact ih hrest

end System

attribute [grind =] Function.update_apply

/-- Somebody with a property is still there after one party has moved, if the mover keeps it. -/
theorem exists_update {ι : Type u} {β : Type v} [DecidableEq ι] {f : ι → β} {i : ι} {b : β}
    {P : β → Prop} (hkeeps : P (f i) → P b) (h : ∃ j, P (f j)) :
    ∃ j, P (Function.update f i b j) := by
  obtain ⟨j, hj⟩ := h
  refine ⟨j, ?_⟩
  rcases eq_or_ne j i with rfl | hne
  · rw [Function.update_self]
    exact hkeeps hj
  · rw [Function.update_of_ne hne]
    exact hj

/-- The mover itself has the property. -/
theorem exists_update_self {ι : Type u} {β : Type v} [DecidableEq ι] {f : ι → β} {i : ι} {b : β}
    {P : β → Prop} (hb : P b) : ∃ j, P (Function.update f i b j) :=
  ⟨i, by rwa [Function.update_self]⟩

/-! ### The numerals that name the parties of a concrete run -/

instance (priority := 2000) neZeroOne : @NeZero ℕ (@Zero.ofOfNat0 ℕ (instOfNatNat 0)) 1 :=
  ⟨Nat.one_ne_zero⟩

instance (priority := 2000) neZeroTwo : @NeZero ℕ (@Zero.ofOfNat0 ℕ (instOfNatNat 0)) 2 :=
  ⟨Nat.succ_ne_zero 1⟩

instance (priority := 2000) neZeroThree : @NeZero ℕ (@Zero.ofOfNat0 ℕ (instOfNatNat 0)) 3 :=
  ⟨Nat.succ_ne_zero 2⟩

instance (priority := 2000) neZeroFour : @NeZero ℕ (@Zero.ofOfNat0 ℕ (instOfNatNat 0)) 4 :=
  ⟨Nat.succ_ne_zero 3⟩

instance (priority := 2000) neZeroEight : @NeZero ℕ (@Zero.ofOfNat0 ℕ (instOfNatNat 0)) 8 :=
  ⟨Nat.succ_ne_zero 7⟩

end Stackfull.Lib
