import Stackfull.Exec.Wait

/-!
# The steps of `exec::wait`, one by one

`Step` lists what a step can do, guards included, and `step_of_eq` reads it off the step function.
The invariants are proved by cases on `Step`.
-/

set_option autoImplicit false
set_option relaxedAutoImplicit false
set_option linter.dupNamespace false

namespace Stackfull.Exec.Wait

open Stackfull.Lib
open Stackfull.Sched.Tasks (TaskState)

universe u v w

variable {θ : Type u} {τ : Type v} {ρ : Type w} [DecidableEq θ] [DecidableEq τ] [DecidableEq ρ]

/-- A thread executes a task and no call. -/
structure State.Runs (s : State θ τ ρ) (t : θ) (task : τ) : Prop where
  host : s.host t = some task
  idle : s.call t = .idle

/-- The innermost wait of a task, with its state. -/
structure State.WaitsIn (s : State θ τ ρ) (task : τ) (state : ρ) (w : WaitState τ ρ) : Prop where
  stack : ∃ rest, s.stack task = state :: rest
  wait : s.wait state = some w

/-- What a step does. -/
inductive Step (s : State θ τ ρ) : Action θ τ ρ → State θ τ ρ → Prop
  | resume {t : θ} {task : τ} : s.call t = .idle → s.host t = none → s.pc task = .queued →
      Step s (.resume t task) ({ s with host := Function.update s.host t (some task) }.goto task
        .running)
  | begin {t : θ} {task : τ} {state : ρ} : s.Runs t task → s.pc task = .running →
      s.wait state = none → Step s (.begin t state) (s.enterWait t task state)
  | park {t : θ} {task : τ} : s.Runs t task → s.pc task = .running →
      (∀ state w, s.WaitsIn task state w → w.phase ≠ .testing) →
      Step s (.park t) (s.goto task .parkLoad)
  | leaveStart {t : θ} {task : τ} {state : ρ} {w : WaitState τ ρ} : s.Runs t task →
      s.pc task = .running → s.WaitsIn task state w → w.phase = .starting →
      Step s (.leave t) { s.setWait state { w with phase := .testing } with
        startingWait := Function.update s.startingWait t w.outer }
  | leaveForward {t : θ} {task : τ} {state : ρ} {w : WaitState τ ρ} : s.Runs t task →
      s.pc task = .running → s.WaitsIn task state w → w.phase = .forwarding →
      Step s (.leave t) (s.setWait state { w with phase := .testing })
  | waitOver {t : θ} {task : τ} {state : ρ} {w : WaitState τ ρ} {stopRequested : Bool} :
      s.Runs t task → s.pc task = .running → s.WaitsIn task state w → w.phase = .testing →
      w.done = true →
      Step s (.goOn t stopRequested) { s with
        wait := Function.update s.wait state none
        stack := Function.update s.stack task (s.stack task).tail }
  | forward {t : θ} {task : τ} {state : ρ} {w : WaitState τ ρ} : s.Runs t task →
      s.pc task = .running → s.WaitsIn task state w → w.phase = .testing → w.done = false →
      Step s (.goOn t true) (s.setWait state { w with phase := .forwarding, forwarded := true })
  | parkInWait {t : θ} {task : τ} {state : ρ} {w : WaitState τ ρ} {stopRequested : Bool} :
      s.Runs t task → s.pc task = .running → s.WaitsIn task state w → w.done = false →
      Step s (.goOn t stopRequested) (s.goto task .parkLoad)
  | foundToken {t : θ} {task : τ} {stopRequested : Bool} : s.Runs t task →
      s.pc task = .parkLoad → s.parkState task = .notified →
      Step s (.goOn t stopRequested) (s.goto task .parkStore)
  | foundNone {t : θ} {task : τ} {stopRequested : Bool} : s.Runs t task →
      s.pc task = .parkLoad → s.parkState task ≠ .notified →
      Step s (.goOn t stopRequested) (s.goto task .arrived)
  | consume {t : θ} {task : τ} {stopRequested : Bool} : s.Runs t task →
      s.pc task = .parkStore →
      Step s (.goOn t stopRequested) ((s.setParkState task .running).goto task .running)
  | sleep {t : θ} {task : τ} {stopRequested : Bool} : s.Runs t task → s.pc task = .arrived →
      s.parkState task = .running →
      Step s (.goOn t stopRequested) (((s.setParkState task .parked).goto task .parked).release t)
  | noSleep {t : θ} {task : τ} {stopRequested : Bool} : s.Runs t task → s.pc task = .arrived →
      s.parkState task ≠ .running → Step s (.goOn t stopRequested) (s.goto task .arrivedStore)
  | requeue {t : θ} {task : τ} {stopRequested : Bool} : s.Runs t task →
      s.pc task = .arrivedStore →
      Step s (.goOn t stopRequested) (((s.setParkState task .running).goto task .queued).release t)
  | complete {t : θ} {state : ρ} {w : WaitState τ ρ} : s.call t = .idle →
      s.wait state = some w → w.claimed = false →
      Step s (.complete t state)
        ((s.setWait state { w with claimed := true }).setCall t (.compare state))
  | wake {t : θ} {task : τ} : s.call t = .idle →
      Step s (.wake t task) (s.setCall t (.wakeLoad task))
  | compareOwn {t : θ} {state : ρ} {spurious : Bool} : s.call t = .compare state →
      s.startingWait t = some state →
      Step s (.advance t spurious) (s.setCall t (.storeInline state))
  | compareOther {t : θ} {state : ρ} {spurious : Bool} : s.call t = .compare state →
      Step s (.advance t spurious) (s.setCall t (.storeDone state))
  | storeInline {t : θ} {state : ρ} {w : WaitState τ ρ} {spurious : Bool} :
      s.call t = .storeInline state → s.wait state = some w →
      Step s (.advance t spurious) ((s.setWait state { w with done := true }).setCall t .idle)
  | storeDone {t : θ} {state : ρ} {w : WaitState τ ρ} {spurious : Bool} :
      s.call t = .storeDone state → s.wait state = some w →
      Step s (.advance t spurious)
        ((s.setWait state { w with done := true }).setCall t (.wakeLoad w.waiter))
  | readToken {t : θ} {task : τ} {spurious : Bool} :
      (s.call t = .wakeLoad task ∨ ∃ seen, s.call t = .wakeSwap task seen) →
      (s.parkState task = .notified ∨ s.parkState task = .done) →
      Step s (.advance t spurious) (s.setCall t .idle)
  | readOther {t : θ} {task : τ} {seen : TaskState} {spurious : Bool} :
      (s.call t = .wakeLoad task ∨ ∃ before, s.call t = .wakeSwap task before) →
      Step s (.advance t spurious) (s.setCall t (.wakeSwap task seen))
  | swapParked {t : θ} {task : τ} {spurious : Bool} : s.call t = .wakeSwap task .parked →
      s.parkState task = .parked →
      Step s (.advance t spurious) ((s.setParkState task .notified).setCall t (.wakeStore task))
  | swapOther {t : θ} {task : τ} {seen : TaskState} {spurious : Bool} :
      s.call t = .wakeSwap task seen → s.parkState task = seen → seen ≠ .parked →
      Step s (.advance t spurious) ((s.setParkState task .notified).setCall t .idle)
  | wakeStore {t : θ} {task : τ} {spurious : Bool} : s.call t = .wakeStore task →
      Step s (.advance t spurious) ((s.setParkState task .running).setCall t (.wakeSchedule task))
  | wakeSchedule {t : θ} {task : τ} {spurious : Bool} : s.call t = .wakeSchedule task →
      Step s (.advance t spurious) ((s.goto task .queued).setCall t .idle)

omit [DecidableEq θ] [DecidableEq τ] [DecidableEq ρ] in
theorem CallPc.eq_idle {pc : CallPc τ ρ} (h : pc.isIdle = true) : pc = .idle := by
  cases pc with
  | idle => rfl
  | _ => simp [CallPc.isIdle] at h

omit [DecidableEq θ] [DecidableEq τ] [DecidableEq ρ] in
theorem State.runs_of_current {s : State θ τ ρ} {t : θ} {task : τ}
    (h : s.current t = some task) : s.Runs t task := by
  unfold State.current at h
  split_ifs at h with hidle
  exact ⟨h, CallPc.eq_idle hidle⟩

omit [DecidableEq θ] [DecidableEq τ] [DecidableEq ρ] in
theorem State.innermost_eq_some_iff {s : State θ τ ρ} {task : τ} {state : ρ}
    {w : WaitState τ ρ} : s.innermost task = some (state, w) ↔ s.WaitsIn task state w := by
  unfold State.innermost
  constructor
  · intro h
    cases hstack : s.stack task with
    | nil => simp [hstack] at h
    | cons top rest =>
      simp only [hstack, Option.map_eq_some_iff, Prod.mk.injEq] at h
      obtain ⟨_, hwait, rfl, rfl⟩ := h
      exact ⟨⟨rest, hstack⟩, hwait⟩
  · rintro ⟨⟨rest, hstack⟩, hwait⟩
    simp [hstack, hwait]

theorem step_of_taskStep {s next : State θ τ ρ} {t : θ} {task : τ} {stopRequested : Bool}
    (hruns : s.Runs t task) (h : s.taskStep t task stopRequested = some next) :
    Step s (.goOn t stopRequested) next := by
  unfold State.taskStep at h
  cases hpc : s.pc task with
  | running =>
    simp only [hpc] at h
    cases hinner : s.innermost task with
    | none => simp [hinner] at h
    | some pair =>
      obtain ⟨state, w⟩ := pair
      have hwaits := State.innermost_eq_some_iff.mp hinner
      simp only [hinner] at h
      split_ifs at h with hphase
      simp only [Option.some.injEq, State.testDone] at h
      subst h
      by_cases hdone : w.done = true
      · rw [if_pos hdone]
        exact .waitOver hruns hpc hwaits hphase hdone
      · rw [if_neg hdone]
        rw [Bool.not_eq_true] at hdone
        split_ifs with hforward
        · obtain ⟨-, rfl⟩ : w.forwarded = false ∧ stopRequested = true := by
            simpa using hforward
          exact .forward hruns hpc hwaits hphase hdone
        · exact .parkInWait hruns hpc hwaits hdone
  | parkLoad =>
    simp only [hpc, Option.some.injEq] at h
    subst h
    split_ifs with hword
    · exact .foundToken hruns hpc hword
    · exact .foundNone hruns hpc hword
  | parkStore =>
    simp only [hpc, Option.some.injEq] at h
    subst h
    exact .consume hruns hpc
  | arrived =>
    simp only [hpc] at h
    split_ifs at h with hword <;> cases h
    · exact .sleep hruns hpc hword
    · exact .noSleep hruns hpc hword
  | arrivedStore =>
    simp only [hpc, Option.some.injEq] at h
    subst h
    exact .requeue hruns hpc
  | parked => simp [hpc] at h
  | queued => simp [hpc] at h

theorem step_of_wakeRead {s : State θ τ ρ} {t : θ} {task : τ} {spurious : Bool}
    (hcall : s.call t = .wakeLoad task ∨ ∃ seen, s.call t = .wakeSwap task seen) :
    Step s (.advance t spurious) (s.wakeRead t task) := by
  unfold State.wakeRead
  cases hword : s.parkState task with
  | notified => exact .readToken hcall (Or.inl hword)
  | done => exact .readToken hcall (Or.inr hword)
  | running => exact .readOther hcall
  | parked => exact .readOther hcall

theorem step_of_callStep {s next : State θ τ ρ} {t : θ} {spurious : Bool}
    (h : s.callStep t spurious = some next) : Step s (.advance t spurious) next := by
  unfold State.callStep at h
  cases hcall : s.call t with
  | idle => simp [hcall] at h
  | compare state =>
    simp only [hcall, Option.some.injEq] at h
    subst h
    split_ifs with hown
    · exact .compareOwn hcall hown
    · exact .compareOther hcall
  | storeInline state =>
    simp only [hcall, Option.map_eq_some_iff] at h
    obtain ⟨w, hw, rfl⟩ := h
    exact .storeInline hcall hw
  | storeDone state =>
    simp only [hcall, Option.map_eq_some_iff] at h
    obtain ⟨w, hw, rfl⟩ := h
    exact .storeDone hcall hw
  | wakeLoad task =>
    simp only [hcall, Option.some.injEq] at h
    subst h
    exact step_of_wakeRead (Or.inl hcall)
  | wakeSwap task seen =>
    simp only [hcall, Option.some.injEq, State.wakeSwap] at h
    subst h
    by_cases hword : s.parkState task = seen ∧ spurious = false
    · rw [if_pos hword]
      split_ifs with hseen
      · subst hseen
        exact .swapParked hcall hword.1
      · exact .swapOther hcall hword.1 hseen
    · rw [if_neg hword]
      exact step_of_wakeRead (Or.inr ⟨seen, hcall⟩)
  | wakeStore task =>
    simp only [hcall, Option.some.injEq] at h
    subst h
    exact .wakeStore hcall
  | wakeSchedule task =>
    simp only [hcall, Option.some.injEq] at h
    subst h
    exact .wakeSchedule hcall

theorem step_of_leave {s next : State θ τ ρ} {t : θ} {task : τ} (hruns : s.Runs t task)
    (hpc : s.pc task = .running)
    (h : ((s.innermost task).bind fun (state, w) ↦ s.leaveUserCode t state w) = some next) :
    Step s (.leave t) next := by
  obtain ⟨⟨state, w⟩, hinner, hleave⟩ := Option.bind_eq_some_iff.mp h
  have hwaits := State.innermost_eq_some_iff.mp hinner
  simp only [State.leaveUserCode] at hleave
  cases hphase : w.phase with
  | starting =>
    simp only [hphase, Option.some.injEq] at hleave
    subst hleave
    exact .leaveStart hruns hpc hwaits hphase
  | forwarding =>
    simp only [hphase, Option.some.injEq] at hleave
    subst hleave
    exact .leaveForward hruns hpc hwaits hphase
  | testing => simp [hphase] at hleave

/-- Every step of the system is one of `Step`. -/
theorem step_of_eq {s next : State θ τ ρ} {a : Action θ τ ρ} (h : s.step a = some next) :
    Step s a next := by
  cases a with
  | resume t task =>
    simp only [State.step.eq_def] at h
    split_ifs at h with hguard
    cases h
    exact .resume (CallPc.eq_idle hguard.1) hguard.2.1 hguard.2.2
  | begin t state =>
    simp only [State.step.eq_def] at h
    cases hcurrent : s.current t with
    | none => simp [hcurrent] at h
    | some task =>
      simp only [hcurrent] at h
      split_ifs at h with hguard
      cases h
      exact .begin (State.runs_of_current hcurrent) hguard.1 (Option.isNone_iff_eq_none.mp hguard.2.2)
  | park t =>
    simp only [State.step.eq_def] at h
    cases hcurrent : s.current t with
    | none => simp [hcurrent] at h
    | some task =>
      simp only [hcurrent] at h
      split_ifs at h with hguard
      cases h
      refine .park (State.runs_of_current hcurrent) hguard.1 fun state w hwaits ↦ ?_
      have huser := hguard.2
      rw [State.inUserCode, State.innermost_eq_some_iff.mpr hwaits] at huser
      simpa using huser
  | leave t =>
    simp only [State.step.eq_def] at h
    cases hcurrent : s.current t with
    | none => simp [hcurrent] at h
    | some task =>
      simp only [hcurrent] at h
      split_ifs at h with hpc
      exact step_of_leave (State.runs_of_current hcurrent) hpc h
  | goOn t stopRequested =>
    simp only [State.step.eq_def] at h
    cases hcurrent : s.current t with
    | none => simp [hcurrent] at h
    | some task =>
      simp only [hcurrent] at h
      exact step_of_taskStep (State.runs_of_current hcurrent) h
  | complete t state =>
    simp only [State.step.eq_def] at h
    split_ifs at h with hidle
    simp only [Option.map_eq_some_iff, Option.filter_eq_some_iff, Bool.not_eq_true'] at h
    obtain ⟨w, ⟨hw, hclaimed⟩, rfl⟩ := h
    exact .complete (CallPc.eq_idle hidle) hw hclaimed
  | wake t task =>
    simp only [State.step.eq_def] at h
    split_ifs at h with hidle
    cases h
    exact .wake (CallPc.eq_idle hidle)
  | advance t spurious => exact step_of_callStep h

end Stackfull.Exec.Wait
