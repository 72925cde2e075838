import Mathlib.Algebra.Group.Nat.Defs
import Mathlib.Tactic.Common
import Stackfull.Lib.Rows
import Stackfull.Lib.Transition

/-!
# What a worker runs next

`Worker::takeLocal` with the pushes that feed it (`Runtime.h`): the LIFO slot, the local queue and
the inbox of the pinned tasks. A call of `takeLocal` looks at the slot and at the queue, then takes
from the queue, then from the inbox, and other threads move in between: thieves take any entry of
the local queue, and wakers push into the inbox. A push into the inbox is two stores, and until the
second is done a pop may come back empty.

The local queue is the list of the entries that no thief has claimed. That `hasEntries` misses none
of them is `BwosOwner`'s result. The log of the calls is history.

`streak_capped` is the result about the cap: it holds as long as no call finds its cap used up, the
local queue empty and the inbox not, and no call that has turned to the queue finds all of it gone.
-/

set_option autoImplicit false
set_option relaxedAutoImplicit false
set_option linter.dupNamespace false

namespace Stackfull.Sched.TakeLocal

open Stackfull.Lib

universe u

/-- `kLifoCap`. -/
def kLifoCap : ℕ := 3

/-- A call of `takeLocal`: what it answered, whether that came out of the slot, and whether another
task was waiting in the local queue or in the inbox when it was made. -/
structure Call (τ : Type u) where
  task : Option τ
  fromSlot : Bool
  waited : Bool
  deriving DecidableEq

/-- Where the worker stands in `takeLocal`. -/
inductive Pc
  | out
  | popLocal (waited : Bool)
  | popInbox (waited : Bool)
  deriving DecidableEq

/-- The fields of `Worker` that `takeLocal` works on. -/
structure Worker (τ : Type u) where
  lifoSlot : Option τ
  lifoStreak : ℕ
  localQueue : List τ
  pinnedInbox : List τ
  /-- Pushes into the inbox that stand between their two stores. -/
  midPush : ℕ
  pc : Pc
  calls : List (Call τ)
  deriving DecidableEq

/-- What comes of a push into the local queue: there is room, or there is none, and so many entries
go to the injection queue with the newcomer. -/
inductive Placed
  | queued
  | full (drained : ℕ)

/-- Who moves. -/
inductive Label (τ : Type u)
  | pushLocalFifo (task : τ) (placed : Placed)
  | pushLocalLifo (task : τ) (placed : Placed)
  | exchangeInbox (task : τ)
  | linkInbox
  | steal (entry : ℕ)
  | takeLocal
  | popLocal
  | popInbox (consistent : Bool)

namespace Worker

variable {τ : Type u} (w : Worker τ)

/-- `Worker::pushLocalFifo`. -/
def pushLocalFifo (task : τ) : Placed → Worker τ
  | .queued => { w with localQueue := w.localQueue ++ [task] }
  | .full drained => { w with localQueue := w.localQueue.drop drained }

/-- `Worker::pushLocalLifo`. -/
def pushLocalLifo (task : τ) (placed : Placed) : Worker τ :=
  match w.lifoSlot with
  | some last => { w.pushLocalFifo last placed with lifoSlot := some task }
  | none => { w with lifoSlot := some task }

/-- Another task than the one in the slot could be taken. -/
def waiting : Bool := !w.localQueue.isEmpty || !w.pinnedInbox.isEmpty

/-- A call returns. -/
def answer (task : Option τ) (fromSlot waited : Bool) : Worker τ :=
  { w with pc := .out, calls := ⟨task, fromSlot, waited⟩ :: w.calls }

/-- `takeLocal` up to its first pop. -/
def takeLocal : Worker τ :=
  match w.lifoSlot with
  | some task =>
    if w.lifoStreak < kLifoCap ∨ w.localQueue = [] then
      { w with lifoSlot := none, lifoStreak := (w.lifoStreak + 1) % 2 ^ 32 }.answer
        (some task) true w.waiting
    else { w with lifoStreak := 0, pc := .popLocal w.waiting }
  | none => { w with lifoStreak := 0, pc := .popLocal w.waiting }

/-- Its pop of the local queue. -/
def popLocal (waited : Bool) : Worker τ :=
  match w.localQueue with
  | task :: rest => { w with localQueue := rest }.answer (some task) false waited
  | [] => { w with pc := .popInbox waited }

/-- What it does when the inbox gave nothing: "the queue turned out empty after all". -/
def takeLeft (waited : Bool) : Worker τ :=
  match w.lifoSlot with
  | some task => { w with lifoSlot := none }.answer (some task) true waited
  | none => w.answer none false waited

/-- Its pop of the inbox. -/
def popInbox (waited consistent : Bool) : Option (Worker τ) :=
  match w.pinnedInbox with
  | task :: rest =>
    if consistent then some ({ w with pinnedInbox := rest }.answer (some task) false waited)
    else if 0 < w.midPush then some (w.takeLeft waited)
    else none
  | [] => some (w.takeLeft waited)

/-- One step of the worker, of a waker or of a thief. -/
def step (w : Worker τ) : Label τ → Option (Worker τ)
  | .pushLocalFifo task placed => if w.pc = .out then some (w.pushLocalFifo task placed) else none
  | .pushLocalLifo task placed => if w.pc = .out then some (w.pushLocalLifo task placed) else none
  | .exchangeInbox task =>
    some { w with pinnedInbox := w.pinnedInbox ++ [task], midPush := w.midPush + 1 }
  | .linkInbox => if 0 < w.midPush then some { w with midPush := w.midPush - 1 } else none
  | .steal entry => some { w with localQueue := w.localQueue.eraseIdx entry }
  | .takeLocal => if w.pc = .out then some w.takeLocal else none
  | .popLocal =>
    match w.pc with
    | .popLocal waited => some (w.popLocal waited)
    | _ => none
  | .popInbox consistent =>
    match w.pc with
    | .popInbox waited => w.popInbox waited consistent
    | _ => none

/-- A worker that has just been made. -/
def initial : Worker τ := ⟨none, 0, [], [], 0, .out, []⟩

end Worker

/-- One worker, whatever is pushed, stolen and taken. -/
def system (τ : Type u) : System (Worker τ) (Label τ) where
  init w := w = Worker.initial
  step := Worker.step

/-! ### The cap -/

variable {τ : Type u}

/-- The call took the task in the slot though another one was waiting. -/
def Call.bypasses (call : Call τ) : Bool := call.fromSlot && call.waited

/-- The slot does not starve the others: no more than `kLifoCap` calls in a row bypass them. -/
def Capped (calls : List (Call τ)) : Prop := RowsWithin Call.bypasses Call.bypasses kLifoCap calls

/-- How many calls in a row have bypassed the others until now. -/
def streak (calls : List (Call τ)) : ℕ := lastRow Call.bypasses Call.bypasses calls

/-- The condition on a step. A call that finds the slot filled and the cap used up finds a task in
the local queue, or none in the inbox, and a call that turned to the queue for that reason does not
come out of it and of the inbox with empty hands. -/
def Served (w : Worker τ) : Label τ → Prop
  | .takeLocal => ¬ (w.lifoSlot ≠ none ∧ kLifoCap ≤ w.lifoStreak ∧ w.localQueue = [] ∧
      w.pinnedInbox ≠ [])
  | .popInbox consistent => w.lifoSlot = none ∨ (w.pinnedInbox ≠ [] ∧ consistent = true)
  | _ => True

instance (w : Worker τ) (label : Label τ) : Decidable (Served w label) :=
  match label with
  | .takeLocal => inferInstanceAs (Decidable (¬ (_ ∧ _ ∧ _ ∧ _)))
  | .popInbox _ => inferInstanceAs (Decidable (_ ∨ (_ ∧ _)))
  | .pushLocalFifo _ _ | .pushLocalLifo _ _ | .exchangeInbox _ | .linkInbox | .steal _ | .popLocal =>
    inferInstanceAs (Decidable True)

/-- The calls are capped, and outside of `takeLocal` the worker has counted the streak. -/
structure Counted (w : Worker τ) : Prop where
  capped : Capped w.calls
  streak_le : streak w.calls ≤ kLifoCap
  counted : w.pc = .out → streak w.calls ≤ w.lifoStreak

namespace Counted

theorem initial : Counted (Worker.initial : Worker τ) where
  capped := .nil
  streak_le := Nat.zero_le _
  counted _ := Nat.zero_le _

/-- The pushes and the thieves do not touch what is counted. -/
theorem congr {w w' : Worker τ} (h : Counted w) (hcalls : w'.calls = w.calls)
    (hstreak : w'.lifoStreak = w.lifoStreak) (hpc : w'.pc = w.pc) : Counted w' where
  capped := hcalls ▸ h.capped
  streak_le := hcalls ▸ h.streak_le
  counted hout := by
    rw [hcalls, hstreak]
    exact h.counted (hpc ▸ hout)

/-- A call that does not bypass. -/
theorem answer_of_not {w : Worker τ} (h : Counted w) (task : Option τ) {fromSlot waited : Bool}
    (hnot : (Call.mk task fromSlot waited).bypasses = false) :
    Counted (w.answer task fromSlot waited) := by
  have hzero : streak (⟨task, fromSlot, waited⟩ :: w.calls) = 0 := lastRow_cons_of_not w.calls hnot
  exact ⟨h.capped.cons_of_not hnot, hzero ▸ Nat.zero_le _, fun _ ↦ hzero ▸ Nat.zero_le _⟩

theorem takeLocal {w : Worker τ} (h : Counted w) (hout : w.pc = .out)
    (hserved : Served w .takeLocal) : Counted w.takeLocal := by
  have hturn : Counted { w with lifoStreak := 0, pc := .popLocal w.waiting } :=
    ⟨h.capped, h.streak_le, fun hpc ↦ by cases hpc⟩
  rw [Worker.takeLocal]
  split
  · rename_i task hslot
    split
    · rename_i hfirst
      by_cases hwaiting : w.waiting = true
      · -- The local queue may be empty only if the inbox is, so the streak is below the cap.
        have hlow : w.lifoStreak < kLifoCap := by
          by_contra hcap
          have hempty : w.localQueue = [] := hfirst.resolve_left hcap
          refine hserved ⟨by rw [hslot]; exact Option.some_ne_none _, Nat.le_of_not_lt hcap,
            hempty, fun hinbox ↦ ?_⟩
          rw [Worker.waiting, hempty, hinbox] at hwaiting
          cases hwaiting
        have hcounted := h.counted hout
        have hle : streak (⟨some task, true, w.waiting⟩ :: w.calls) ≤ streak w.calls + 1 :=
          lastRow_cons_le _ _
        have hmod : (w.lifoStreak + 1) % 2 ^ 32 = w.lifoStreak + 1 :=
          Nat.mod_eq_of_lt (by rw [kLifoCap] at hlow; omega)
        have hcap : streak (⟨some task, true, w.waiting⟩ :: w.calls) ≤ kLifoCap := by omega
        refine ⟨h.capped.cons hcap, hcap, fun _ ↦ ?_⟩
        change _ ≤ (w.lifoStreak + 1) % 2 ^ 32
        rw [hmod]
        exact Nat.le_trans hle (Nat.succ_le_succ hcounted)
      · have hnot : (Call.mk (some task) true w.waiting).bypasses = false := by
          simpa [Call.bypasses] using hwaiting
        have hzero : streak (⟨some task, true, w.waiting⟩ :: w.calls) = 0 :=
          lastRow_cons_of_not w.calls hnot
        exact ⟨h.capped.cons_of_not hnot, hzero ▸ Nat.zero_le _, fun _ ↦ hzero ▸ Nat.zero_le _⟩
    · exact hturn
  · exact hturn

theorem popLocal {w : Worker τ} (h : Counted w) (waited : Bool) : Counted (w.popLocal waited) := by
  rw [Worker.popLocal]
  split
  · rename_i task rest _
    have hsame : Counted { w with localQueue := rest } := h.congr rfl rfl rfl
    exact hsame.answer_of_not (some task) rfl
  · exact ⟨h.capped, h.streak_le, fun hpc ↦ by cases hpc⟩

theorem takeLeft {w : Worker τ} (h : Counted w) (hslot : w.lifoSlot = none) (waited : Bool) :
    Counted (w.takeLeft waited) := by
  rw [Worker.takeLeft, hslot]
  exact h.answer_of_not none rfl

theorem popInbox {w w' : Worker τ} (h : Counted w) {waited consistent : Bool}
    (hserved : Served w (.popInbox consistent)) (hpop : w.popInbox waited consistent = some w') :
    Counted w' := by
  rw [Worker.popInbox] at hpop
  split at hpop
  · rename_i task rest _
    split at hpop
    · cases hpop
      have hsame : Counted { w with pinnedInbox := rest } := h.congr rfl rfl rfl
      exact hsame.answer_of_not (some task) rfl
    · rename_i hbroken
      split at hpop
      · cases hpop
        exact h.takeLeft (hserved.resolve_right fun hfound ↦ hbroken hfound.2) waited
      · cases hpop
  · rename_i hempty
    cases hpop
    exact h.takeLeft (hserved.resolve_right fun hfound ↦ hfound.1 hempty) waited

theorem pushLocalFifo {w : Worker τ} (h : Counted w) (task : τ) (placed : Placed) :
    Counted (w.pushLocalFifo task placed) := by
  cases placed with
  | queued => exact h.congr rfl rfl rfl
  | full drained => exact h.congr rfl rfl rfl

theorem pushLocalLifo {w : Worker τ} (h : Counted w) (task : τ) (placed : Placed) :
    Counted (w.pushLocalLifo task placed) := by
  rw [Worker.pushLocalLifo]
  split
  · exact (h.pushLocalFifo _ placed).congr rfl rfl rfl
  · exact h.congr rfl rfl rfl

/-- Every step that meets the condition keeps the count. -/
theorem step {w w' : Worker τ} {label : Label τ} (h : Counted w) (hserved : Served w label)
    (hstep : w.step label = some w') : Counted w' := by
  cases label with
  | pushLocalFifo task placed =>
    obtain ⟨-, hstep⟩ := Option.ite_none_right_eq_some.mp hstep
    cases hstep
    exact h.pushLocalFifo task placed
  | pushLocalLifo task placed =>
    obtain ⟨-, hstep⟩ := Option.ite_none_right_eq_some.mp hstep
    cases hstep
    exact h.pushLocalLifo task placed
  | exchangeInbox task =>
    cases hstep
    exact h.congr rfl rfl rfl
  | linkInbox =>
    obtain ⟨-, hstep⟩ := Option.ite_none_right_eq_some.mp hstep
    cases hstep
    exact h.congr rfl rfl rfl
  | steal entry =>
    cases hstep
    exact h.congr rfl rfl rfl
  | takeLocal =>
    obtain ⟨hout, hstep⟩ := Option.ite_none_right_eq_some.mp hstep
    cases hstep
    exact h.takeLocal hout hserved
  | popLocal =>
    rw [Worker.step] at hstep
    split at hstep
    · cases hstep
      exact h.popLocal _
    · cases hstep
  | popInbox consistent =>
    rw [Worker.step] at hstep
    split at hstep
    · exact h.popInbox hserved hstep
    · cases hstep

end Counted

/-- **In every run whose calls are served as the condition says, the slot never goes before the
others more than `kLifoCap` times in a row.** -/
theorem streak_capped {w : Worker τ} (h : (system τ).ReachableUnder Served w) : Capped w.calls :=
  (h.invariant (P := Counted) (fun _ hinit ↦ hinit ▸ .initial)
    fun _ _ _ hcounted hserved hstep ↦ hcounted.step hserved hstep).capped

/-- Four tasks of which each wakes the next, while one is in the local queue and a pinned one is in
the inbox: after three calls it is the queue's turn. -/
theorem streak_capped_here : ∃ w : Worker ℕ, (system ℕ).ReachableUnder Served w ∧
    w.calls.map Call.task = [some 0, some 3, some 2, some 1] ∧ Capped w.calls := by
  let labels : List (Label ℕ) :=
    [Label.pushLocalFifo 0 .queued, Label.exchangeInbox 5, Label.linkInbox] ++
    [1, 2, 3, 4].flatMap (fun task ↦ [Label.pushLocalLifo task .queued, Label.takeLocal]) ++
    [Label.popLocal]
  let w := ((system ℕ).runUnder (fun w label ↦ decide (Served w label)) .initial labels).get
    (by decide +kernel)
  have hreach : (system ℕ).ReachableUnder Served w :=
    (System.reachableUnder_of_run (s := Worker.initial) rfl (Option.some_get _).symm).mono
      fun _ _ ↦ of_decide_eq_true
  exact ⟨w, hreach, by decide +kernel, streak_capped hreach⟩

/-- Four tasks of which each wakes the next, and a pinned one in the inbox: no call takes it. -/
theorem inbox_starves : ∃ w : Worker ℕ, (system ℕ).Reachable w ∧ ¬ Capped w.calls := by
  let labels : List (Label ℕ) := [Label.exchangeInbox 0, Label.linkInbox] ++
    [1, 2, 3, 4].flatMap fun task ↦ [Label.pushLocalLifo task .queued, Label.takeLocal]
  let w := ((system ℕ).run .initial labels).get (by decide +kernel)
  have hreach : (system ℕ).Reachable w :=
    System.reachable_of_run (s := Worker.initial) rfl (Option.some_get _).symm
  refine ⟨w, hreach, fun h ↦ ?_⟩
  exact absurd (h w.calls List.infix_rfl (by decide +kernel)) (by decide +kernel)

/-- A worker whose tasks wake each other, with a pinned task in the inbox, after `n` calls. -/
def starved (n : ℕ) : Worker ℕ :=
  ⟨none, n % 2 ^ 32, [], [0], 0, .out, List.replicate n ⟨some 1, true, true⟩⟩

/-- The next task takes the slot, and the worker takes it from there. -/
theorem starved_succ (n : ℕ) :
    (system ℕ).run (starved n) [.pushLocalLifo 1 .queued, .takeLocal] = some (starved (n + 1)) := by
  simp [System.run, System.runUnder, system, Worker.step, Worker.pushLocalLifo, Worker.takeLocal,
    Worker.answer, Worker.waiting, starved, List.replicate_succ]

/-- Nothing bounds how often they go before the pinned task. -/
theorem inbox_starves_for_ever (n : ℕ) : (system ℕ).Reachable (starved n) := by
  induction n with
  | zero =>
    have hrun : (system ℕ).run .initial [.exchangeInbox 0, .linkInbox] = some (starved 0) := rfl
    exact System.reachable_of_run (s := Worker.initial) rfl hrun
  | succ n ih =>
    have hrun := starved_succ n
    exact (System.ReachableUnder.runUnder (ih.mono fun _ _ _ ↦ rfl) hrun).reachable

end Stackfull.Sched.TakeLocal
