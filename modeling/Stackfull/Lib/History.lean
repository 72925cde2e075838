import Stackfull.Lib.Transition

/-!
# Runs with the states they went through

Some properties are not about a state but about how it was reached: an answer is right if it was
right at some instant while the question was asked. `HistoryUnder` keeps, next to the state that a
run has reached, the states before it, the latest first. Its induction and its executable form are
those of `ReachableUnder`.
-/

set_option autoImplicit false
set_option relaxedAutoImplicit false
set_option linter.dupNamespace false

namespace Stackfull.Lib.System

universe u v

variable {σ : Type u} {α : Type v}

/-- The runs whose steps each meet `good` where they start: the states that were left, the latest
first, and the state reached. -/
inductive HistoryUnder (S : System σ α) (good : σ → α → Prop) : List σ → σ → Prop
  | init {s : σ} : S.init s → HistoryUnder S good [] s
  | step {past : List σ} {s t : σ} {a : α} :
      HistoryUnder S good past s → good s a → S.step s a = some t →
        HistoryUnder S good (s :: past) t

variable {S : System σ α} {good : σ → α → Prop} {past : List σ} {s : σ}

/-- A property of runs that holds initially and is kept by the steps that meet the condition holds
of all runs of such steps. -/
theorem HistoryUnder.invariant {P : List σ → σ → Prop} (hinit : ∀ s, S.init s → P [] s)
    (hstep : ∀ past s a t, P past s → good s a → S.step s a = some t → P (s :: past) t)
    (hs : S.HistoryUnder good past s) : P past s := by
  induction hs with
  | init h => exact hinit _ h
  | step _ hgood hnext ih => exact hstep _ _ _ _ ih hgood hnext

/-- More runs meet a weaker condition. -/
theorem HistoryUnder.mono {worse : σ → α → Prop} (himp : ∀ s a, good s a → worse s a)
    (hs : S.HistoryUnder good past s) : S.HistoryUnder worse past s := by
  induction hs with
  | init h => exact .init h
  | step _ hgood hnext ih => exact .step ih (himp _ _ hgood) hnext

/-- Executes a list of labels as `runUnder` does, and keeps the states it leaves. -/
def recordUnder (S : System σ α) (check : σ → α → Bool) :
    List σ → σ → List α → Option (List σ × σ)
  | past, s, [] => some (past, s)
  | past, s, a :: rest =>
    if check s a then (S.step s a).bind fun t ↦ S.recordUnder check (s :: past) t rest else none

theorem HistoryUnder.recordUnder {check : σ → α → Bool}
    (hs : S.HistoryUnder (fun s a ↦ check s a = true) past s) {labels : List α}
    {record : List σ × σ} (hrun : S.recordUnder check past s labels = some record) :
    S.HistoryUnder (fun s a ↦ check s a = true) record.1 record.2 := by
  induction labels generalizing past s with
  | nil =>
    simp only [System.recordUnder, Option.some.injEq] at hrun
    exact hrun ▸ hs
  | cons a rest ih =>
    simp only [System.recordUnder] at hrun
    split_ifs at hrun with hcheck
    obtain ⟨mid, hmid, hrest⟩ := Option.bind_eq_some_iff.mp hrun
    exact ih (.step hs hcheck hmid) hrest

/-- A recorded execution from an initial state is a run. -/
theorem historyUnder_of_record {check : σ → α → Bool} (hs : S.init s) {labels : List α}
    {record : List σ × σ} (hrun : S.recordUnder check [] s labels = some record) :
    S.HistoryUnder (fun s a ↦ check s a = true) record.1 record.2 :=
  HistoryUnder.recordUnder (.init hs) hrun

end Stackfull.Lib.System
