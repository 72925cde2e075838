import Stackfull.Exec.WaitStep

/-!
# When `exec::wait` loses a completion

As long as every return from `start()` finds its own wait in `starting_wait` of the thread it is on,
the values of `starting_wait` and the values that waits have set aside are a stack for each thread:
they name waits inside `start()` only, and each of them once (`Refs`). A completion that sets `done`
without a wake then belongs to a task that has the test of `done` still ahead. Every other
completion wakes, and a wake is not lost (`Words`, `Heard`).

A task that parks inside `start()` breaks the stack: it may return on another thread and leave its
wait behind in the `starting_wait` of the first, where a later completion takes it for its own.
-/

set_option autoImplicit false
set_option relaxedAutoImplicit false
set_option linter.dupNamespace false

namespace Stackfull.Exec.Wait

open Stackfull.Lib
open Stackfull.Sched.Tasks (TaskState)

universe u v w

variable {θ : Type u} {τ : Type v} {ρ : Type w} [DecidableEq θ] [DecidableEq τ] [DecidableEq ρ]

/-- The thread is in a completion of this wait and has not stored `done`. -/
def CallPc.Finishes (pc : CallPc τ ρ) (state : ρ) : Prop :=
  pc = .compare state ∨ pc = .storeInline state ∨ pc = .storeDone state

/-- The thread is in a wake of this task and has its word still to read. -/
def CallPc.WillRead (pc : CallPc τ ρ) (task : τ) : Prop :=
  pc = .wakeLoad task ∨ ∃ seen, pc = .wakeSwap task seen

/-- The thread has taken this task out of `Parked` and has not scheduled it yet. -/
def CallPc.Wakes (pc : CallPc τ ρ) (task : τ) : Prop :=
  pc = .wakeStore task ∨ pc = .wakeSchedule task

/-- The task has decided to park. -/
def TaskPc.Committed (pc : TaskPc) : Prop :=
  pc = .parkLoad ∨ pc = .arrived ∨ pc = .parked

/-- Who refers to which wait. -/
structure Refs (s : State θ τ ρ) : Prop where
  live : ∀ task state, state ∈ s.stack task → ∃ w, s.wait state = some w ∧ w.waiter = task
  nodup : ∀ task, (s.stack task).Nodup
  current : ∀ t state, s.startingWait t = some state →
    ∃ w, s.wait state = some w ∧ w.phase = .starting
  outer : ∀ state w below, s.wait state = some w → w.phase = .starting → w.outer = some below →
    ∃ v, s.wait below = some v ∧ v.phase = .starting
  currentOnce : ∀ t t' state, s.startingWait t = some state → s.startingWait t' = some state →
    t = t'
  notBoth : ∀ t state below w, s.startingWait t = some below → s.wait state = some w →
    w.phase = .starting → w.outer ≠ some below
  outerOnce : ∀ state state' below w w', s.wait state = some w → s.wait state' = some w' →
    w.phase = .starting → w'.phase = .starting → w.outer = some below → w'.outer = some below →
    state = state'
  claimed : ∀ state w, s.wait state = some w → w.done = true → w.claimed = true
  finishes : ∀ t state, (s.call t).Finishes state →
    ∃ w, s.wait state = some w ∧ w.claimed = true ∧ w.done = false
  finishesOnce : ∀ t t' state, (s.call t).Finishes state → (s.call t').Finishes state → t = t'
  own : ∀ t state, s.call t = .storeInline state → s.startingWait t = some state

attribute [local grind] CallPc.Finishes CallPc.WillRead CallPc.Wakes TaskPc.Committed
  State.Runs State.WaitsIn

omit [DecidableEq θ] [DecidableEq τ] [DecidableEq ρ] in
theorem refs_initial : Refs (initial : State θ τ ρ) := by
  constructor <;> first | assumption | grind -linarith [initial]

omit [DecidableEq τ] [DecidableEq ρ] in
/-- A step of a call that stores no `done`. -/
theorem Refs.call {s s' : State θ τ ρ} {t : θ} {pc : CallPc τ ρ} (hs : Refs s)
    (hstack : s'.stack = s.stack) (hwait : s'.wait = s.wait)
    (hstarting : s'.startingWait = s.startingWait) (hcall : s'.call = Function.update s.call t pc)
    (hfinishes : ∀ state, pc.Finishes state → (s.call t).Finishes state)
    (hown : ∀ state, pc = .storeInline state → s.startingWait t = some state) : Refs s' := by
  obtain ⟨h1, h2, h3, h4, h5, h6, h7, h8, h9, h10, h11⟩ := hs
  constructor
  case finishes =>
    rw [hcall, hwait]
    grind -linarith
  case finishesOnce =>
    rw [hcall]
    grind -linarith
  case own =>
    rw [hcall, hstarting]
    grind -linarith
  all_goals
    simp only [hstack, hwait, hstarting]
    assumption

omit [DecidableEq τ] [DecidableEq ρ] in
/-- A call that has nothing to do with a completion. -/
theorem Refs.wake {s s' : State θ τ ρ} {t : θ} {pc : CallPc τ ρ} (hs : Refs s)
    (hstack : s'.stack = s.stack) (hwait : s'.wait = s.wait)
    (hstarting : s'.startingWait = s.startingWait) (hcall : s'.call = Function.update s.call t pc)
    (hfinishes : ∀ state, ¬pc.Finishes state) : Refs s' :=
  hs.call hstack hwait hstarting hcall (fun state h ↦ absurd h (hfinishes state))
    (fun state h ↦ absurd (Or.inr (Or.inl h)) (hfinishes state))

omit [DecidableEq θ] [DecidableEq τ] in
/-- A wait changes without entering or leaving `start()`. -/
theorem Refs.setWait {s : State θ τ ρ} {state : ρ} {w w' : WaitState τ ρ} (hs : Refs s)
    (hwait : s.wait state = some w) (hwaiter : w'.waiter = w.waiter) (houter : w'.outer = w.outer)
    (hphase : w'.phase = .starting ↔ w.phase = .starting)
    (hclaimed : w'.done = true → w'.claimed = true)
    (hfinishes : ∀ t, (s.call t).Finishes state → w'.claimed = true ∧ w'.done = false) :
    Refs (s.setWait state w') := by
  have hback : ∀ {other v}, Function.update s.wait state (some w') other = some v →
      ∃ v₀, s.wait other = some v₀ ∧ v.outer = v₀.outer ∧
        (v.phase = .starting ↔ v₀.phase = .starting) := by
    intro other v hv
    rcases eq_or_ne other state with rfl | hne
    · rw [Function.update_self, Option.some.injEq] at hv
      subst hv
      exact ⟨w, hwait, houter, hphase⟩
    · exact ⟨v, (Function.update_of_ne hne ..).symm.trans hv, rfl, Iff.rfl⟩
  have hforth : ∀ {other v}, s.wait other = some v →
      ∃ v', Function.update s.wait state (some w') other = some v' ∧ v'.waiter = v.waiter ∧
        (v.phase = .starting → v'.phase = .starting) := by
    intro other v hv
    rcases eq_or_ne other state with rfl | hne
    · obtain rfl := Option.some.inj (hwait.symm.trans hv)
      exact ⟨w', Function.update_self .., hwaiter, hphase.mpr⟩
    · exact ⟨v, (Function.update_of_ne hne ..).trans hv, rfl, id⟩
  obtain ⟨h1, h2, h3, h4, h5, h6, h7, h8, h9, h10, h11⟩ := hs
  refine ⟨?_, h2, ?_, ?_, h5, ?_, ?_, ?_, ?_, h10, h11⟩ <;> dsimp only [State.setWait]
  · intro task other hmem
    obtain ⟨v, hv, htask⟩ := h1 task other hmem
    obtain ⟨v', hv', hsame, -⟩ := hforth hv
    exact ⟨v', hv', hsame.trans htask⟩
  · intro t other hstarting
    obtain ⟨v, hv, hstarts⟩ := h3 t other hstarting
    obtain ⟨v', hv', -, hsame⟩ := hforth hv
    exact ⟨v', hv', hsame hstarts⟩
  · intro other v below hv hstarts hbelow
    obtain ⟨v₀, hv₀, hsame, hiff⟩ := hback hv
    obtain ⟨u, hu, hustarts⟩ := h4 other v₀ below hv₀ (hiff.mp hstarts) (hsame ▸ hbelow)
    obtain ⟨u', hu', -, hkeeps⟩ := hforth hu
    exact ⟨u', hu', hkeeps hustarts⟩
  · intro t other below v hstarting hv hstarts
    obtain ⟨v₀, hv₀, hsame, hiff⟩ := hback hv
    rw [hsame]
    exact h6 t other below v₀ hstarting hv₀ (hiff.mp hstarts)
  · intro other other' below v v' hv hv' hstarts hstarts' hbelow hbelow'
    obtain ⟨v₀, hv₀, hsame, hiff⟩ := hback hv
    obtain ⟨v₁, hv₁, hsame', hiff'⟩ := hback hv'
    exact h7 other other' below v₀ v₁ hv₀ hv₁ (hiff.mp hstarts) (hiff'.mp hstarts')
      (hsame ▸ hbelow) (hsame' ▸ hbelow')
  · intro other v hv hdone
    rcases eq_or_ne other state with rfl | hne
    · rw [Function.update_self, Option.some.injEq] at hv
      subst hv
      exact hclaimed hdone
    · exact h8 other v ((Function.update_of_ne hne ..).symm.trans hv) hdone
  · intro t other hother
    rcases eq_or_ne other state with rfl | hne
    · exact ⟨w', Function.update_self .., hfinishes t hother⟩
    · obtain ⟨v, hv, hv'⟩ := h9 t other hother
      exact ⟨v, (Function.update_of_ne hne ..).trans hv, hv'⟩

omit [DecidableEq τ] in
/-- A completion begins. -/
theorem Refs.compare {s : State θ τ ρ} {t : θ} {state : ρ} {w : WaitState τ ρ} (hs : Refs s)
    (hwait : s.wait state = some w) (hclaimed : w.claimed = false) :
    Refs ((s.setWait state { w with claimed := true }).setCall t (.compare state)) := by
  have hdone : w.done = false := by
    by_contra hdone
    have := hs.claimed state w hwait (by simpa using hdone)
    grind -linarith
  have hnobody : ∀ t, ¬(s.call t).Finishes state := by
    intro t hfinishes
    have := hs.finishes t state hfinishes
    grind -linarith
  have hset : Refs (s.setWait state { w with claimed := true }) :=
    hs.setWait hwait rfl rfl Iff.rfl (fun _ ↦ rfl) fun t h ↦ absurd h (hnobody t)
  obtain ⟨h1, h2, h3, h4, h5, h6, h7, h8, h9, h10, h11⟩ := hset
  refine ⟨h1, h2, h3, h4, h5, h6, h7, h8, ?_, ?_, ?_⟩ <;>
    dsimp only [State.setCall, State.setWait] at * <;> grind -linarith

omit [DecidableEq τ] in
/-- A completion stores `done`. -/
theorem Refs.store {s : State θ τ ρ} {t : θ} {state : ρ} {w : WaitState τ ρ} {pc : CallPc τ ρ}
    (hs : Refs s) (hcall : (s.call t).Finishes state) (hwait : s.wait state = some w)
    (hfinishes : ∀ state, ¬pc.Finishes state) :
    Refs ((s.setWait state { w with done := true }).setCall t pc) := by
  have hclaimed : w.claimed = true := by
    obtain ⟨w₀, hw₀, hclaimed, -⟩ := hs.finishes t state hcall
    rw [hwait, Option.some.injEq] at hw₀
    rwa [hw₀]
  have hmoved : Refs (s.setCall t pc) := hs.wake rfl rfl rfl rfl hfinishes
  refine Refs.setWait (w := w) hmoved hwait rfl rfl Iff.rfl (fun _ ↦ hclaimed) ?_
  intro t' hother
  dsimp only [State.setCall] at hother
  rcases eq_or_ne t' t with rfl | hne
  · rw [Function.update_self] at hother
    exact absurd hother (hfinishes state)
  · rw [Function.update_of_ne hne] at hother
    exact absurd (hs.finishesOnce t' t state hother hcall) hne

/-- A task enters `run_wait`. -/
theorem Refs.enterWait {s : State θ τ ρ} {t : θ} {task : τ} {state : ρ} (hs : Refs s)
    (hidle : s.call t = .idle) (hfree : s.wait state = none) :
    Refs (s.enterWait t task state) := by
  obtain ⟨h1, h2, h3, h4, h5, h6, h7, h8, h9, h10, h11⟩ := hs
  have hfresh : ∀ task, state ∉ s.stack task := fun task hmem ↦ by
    obtain ⟨w, hw, -⟩ := h1 task state hmem
    rw [hfree] at hw
    exact absurd hw (by simp)
  have hunset : ∀ t, s.startingWait t ≠ some state := by grind -linarith
  have hnotOuter : ∀ below w, s.wait below = some w → w.phase = .starting →
      w.outer ≠ some state := by grind -linarith
  constructor <;> dsimp only [State.enterWait]
  · intro task₀ state₀ hmem
    by_cases hstate : state₀ = state
    · subst hstate
      have htask : task₀ = task := by
        by_contra hne
        rw [Function.update_of_ne hne] at hmem
        exact hfresh task₀ hmem
      exact ⟨_, Function.update_self .., htask.symm⟩
    · have hbefore : state₀ ∈ s.stack task₀ := by grind -linarith
      rw [Function.update_of_ne hstate]
      exact h1 task₀ state₀ hbefore
  case current =>
    intro t₀ state₀ hstarting
    rcases eq_or_ne t₀ t with rfl | hne
    · rw [Function.update_self, Option.some.injEq] at hstarting
      subst hstarting
      exact ⟨_, Function.update_self .., rfl⟩
    · rw [Function.update_of_ne hne] at hstarting
      have hother : state₀ ≠ state := fun h ↦ hunset t₀ (h ▸ hstarting)
      rw [Function.update_of_ne hother]
      exact h3 t₀ state₀ hstarting
  case notBoth =>
    intro t₀ state₀ below w₀ hstarting hw₀ hphase₀ hbelow
    rcases eq_or_ne t₀ t with rfl | hne
    · rw [Function.update_self, Option.some.injEq] at hstarting
      subst hstarting
      by_cases hstate : state₀ = state
      · grind -linarith
      · rw [Function.update_of_ne hstate] at hw₀
        exact hnotOuter state₀ w₀ hw₀ hphase₀ hbelow
    · rw [Function.update_of_ne hne] at hstarting
      by_cases hstate : state₀ = state
      · grind -linarith
      · rw [Function.update_of_ne hstate] at hw₀
        exact h6 t₀ state₀ below w₀ hstarting hw₀ hphase₀ hbelow
  all_goals grind -linarith

omit [DecidableEq θ] in
/-- A wait is over. -/
theorem Refs.over {s : State θ τ ρ} {task : τ} {state : ρ} {w : WaitState τ ρ} (hs : Refs s)
    (hwaits : s.WaitsIn task state w) (hphase : w.phase = .testing) (hdone : w.done = true) :
    Refs { s with
      wait := Function.update s.wait state none
      stack := Function.update s.stack task (s.stack task).tail } := by
  obtain ⟨h1, h2, h3, h4, h5, h6, h7, h8, h9, h10, h11⟩ := hs
  obtain ⟨⟨rest, hstack⟩, hwait⟩ := hwaits
  have hnotin : state ∉ rest := by
    have := h2 task
    rw [hstack] at this
    exact (List.nodup_cons.mp this).1
  constructor <;> dsimp only
  · intro task₀ state₀ hmem
    have hbefore : state₀ ∈ s.stack task₀ ∧ state₀ ≠ state := by
      rcases eq_or_ne task₀ task with rfl | hne
      · rw [Function.update_self, hstack, List.tail_cons] at hmem
        exact ⟨by rw [hstack]; exact List.mem_cons_of_mem _ hmem, fun h ↦ hnotin (h ▸ hmem)⟩
      · rw [Function.update_of_ne hne] at hmem
        refine ⟨hmem, fun h ↦ hne ?_⟩
        subst h
        obtain ⟨w₀, hw₀, rfl⟩ := h1 task₀ state₀ hmem
        obtain ⟨w₁, hw₁, rfl⟩ := h1 task state₀ (by rw [hstack]; exact List.mem_cons_self)
        grind -linarith
    rw [Function.update_of_ne hbefore.2]
    exact h1 task₀ state₀ hbefore.1
  · grind -linarith
  all_goals grind -linarith

omit [DecidableEq τ] in
/-- A task returns from `start()` and finds its own wait on its thread. -/
theorem Refs.leaveStart {s : State θ τ ρ} {t : θ} {state : ρ} {w : WaitState τ ρ} (hs : Refs s)
    (hidle : s.call t = .idle) (hwait : s.wait state = some w) (hphase : w.phase = .starting)
    (hmine : s.startingWait t = some state) :
    Refs { s.setWait state { w with phase := .testing } with
      startingWait := Function.update s.startingWait t w.outer } := by
  have hback : ∀ {other v},
      Function.update s.wait state (some { w with phase := .testing }) other = some v →
        v.phase = .starting → other ≠ state ∧ s.wait other = some v := by
    intro other v hv hstarts
    rcases eq_or_ne other state with rfl | hne
    · rw [Function.update_self, Option.some.injEq] at hv
      subst hv
      exact absurd hstarts (by simp)
    · exact ⟨hne, (Function.update_of_ne hne ..).symm.trans hv⟩
  have hforth : ∀ {other}, other ≠ state → (∃ v, s.wait other = some v ∧ v.phase = .starting) →
      ∃ v, Function.update s.wait state (some { w with phase := .testing }) other = some v ∧
        v.phase = .starting := by
    rintro other hne ⟨v, hv, hstarts⟩
    exact ⟨v, (Function.update_of_ne hne ..).trans hv, hstarts⟩
  have hbelow : ∀ other, w.outer = some other → other ≠ state := fun other houter heq ↦
    hs.notBoth t state state w hmine hwait hphase (heq ▸ houter)
  have hothers : ∀ {t' other}, t' ≠ t → s.startingWait t' = some other → other ≠ state :=
    fun hne hstarting heq ↦ hne (hs.currentOnce _ _ _ (heq ▸ hstarting) hmine)
  obtain ⟨h1, h2, h3, h4, h5, h6, h7, h8, h9, h10, h11⟩ := hs
  refine ⟨?_, h2, ?_, ?_, ?_, ?_, ?_, ?_, ?_, h10, ?_⟩ <;> dsimp only [State.setWait]
  · intro task other hmem
    obtain ⟨v, hv, htask⟩ := h1 task other hmem
    rcases eq_or_ne other state with rfl | hne
    · obtain rfl := Option.some.inj (hwait.symm.trans hv)
      exact ⟨_, Function.update_self .., htask⟩
    · exact ⟨v, (Function.update_of_ne hne ..).trans hv, htask⟩
  · intro t' other hstarting
    rcases eq_or_ne t' t with rfl | hne
    · rw [Function.update_self] at hstarting
      exact hforth (hbelow other hstarting) (h4 state w other hwait hphase hstarting)
    · rw [Function.update_of_ne hne] at hstarting
      exact hforth (hothers hne hstarting) (h3 t' other hstarting)
  · intro other v below hv hstarts houter
    obtain ⟨hne, hv⟩ := hback hv hstarts
    refine hforth (fun heq ↦ ?_) (h4 other v below hv hstarts houter)
    exact h6 t other state v hmine hv hstarts (heq ▸ houter)
  · intro t₀ t₁ other hstarting₀ hstarting₁
    rcases eq_or_ne t₀ t with rfl | hne₀ <;> rcases eq_or_ne t₁ t₀ with rfl | hne₁
    · rfl
    · rw [Function.update_self] at hstarting₀
      rw [Function.update_of_ne hne₁] at hstarting₁
      exact absurd hstarting₀ (h6 t₁ state other w hstarting₁ hwait hphase)
    · rfl
    · rw [Function.update_of_ne hne₀] at hstarting₀
      rcases eq_or_ne t₁ t with rfl | hne
      · rw [Function.update_self] at hstarting₁
        exact absurd hstarting₁ (h6 t₀ state other w hstarting₀ hwait hphase)
      · rw [Function.update_of_ne hne] at hstarting₁
        exact h5 t₀ t₁ other hstarting₀ hstarting₁
  · intro t' other below v hstarting hv hstarts houter
    obtain ⟨hother, hv⟩ := hback hv hstarts
    rcases eq_or_ne t' t with rfl | hne
    · rw [Function.update_self] at hstarting
      exact hother (h7 other state below v w hv hwait hstarts hphase houter hstarting)
    · rw [Function.update_of_ne hne] at hstarting
      exact h6 t' other below v hstarting hv hstarts houter
  · intro other other' below v v' hv hv' hstarts hstarts' houter houter'
    exact h7 other other' below v v' (hback hv hstarts).2 (hback hv' hstarts').2 hstarts hstarts'
      houter houter'
  · intro other v hv hdone
    rcases eq_or_ne other state with rfl | hne
    · rw [Function.update_self, Option.some.injEq] at hv
      subst hv
      exact h8 other w hwait hdone
    · exact h8 other v ((Function.update_of_ne hne ..).symm.trans hv) hdone
  · intro t' other hother
    obtain ⟨v, hv, hv'⟩ := h9 t' other hother
    rcases eq_or_ne other state with rfl | hne
    · obtain rfl := Option.some.inj (hwait.symm.trans hv)
      exact ⟨_, Function.update_self .., hv'⟩
    · exact ⟨v, (Function.update_of_ne hne ..).trans hv, hv'⟩
  · intro t' other hcall
    have hne : t' ≠ t := by
      rintro rfl
      exact nomatch hidle.symm.trans hcall
    rw [Function.update_of_ne hne]
    exact h11 t' other hcall

theorem refs_step {s t' : State θ τ ρ} {a : Action θ τ ρ} (hs : Refs s)
    (hown : s.restoresOwn a = true) (h : Step s a t') : Refs t' := by
  cases h with
  | leaveStart hruns hpc hwaits hphase =>
    rename_i t task state w
    refine hs.leaveStart hruns.idle hwaits.wait hphase ?_
    have hcurrent : s.current t = some task := by
      simp [State.current, hruns.idle, CallPc.isIdle, hruns.host]
    have hinner := State.innermost_eq_some_iff.mpr hwaits
    simpa [State.restoresOwn, hcurrent, hinner, hphase] using hown
  | begin hruns hpc hfree => exact hs.enterWait hruns.idle hfree
  | waitOver hruns hpc hwaits hphase hdone => exact hs.over hwaits hphase hdone
  | leaveForward hruns hpc hwaits hphase =>
    have hclaimed := hs.claimed _ _ hwaits.wait
    exact hs.setWait hwaits.wait rfl rfl (by simp [hphase]) hclaimed
      (by grind -linarith [hs.finishes])
  | forward hruns hpc hwaits hphase =>
    have hclaimed := hs.claimed _ _ hwaits.wait
    exact hs.setWait hwaits.wait rfl rfl (by simp [hphase]) hclaimed
      (by grind -linarith [hs.finishes])
  | complete hidle hwait hclaimed => exact hs.compare hwait hclaimed
  | storeInline hcall hwait => exact hs.store (Or.inr (Or.inl hcall)) hwait (by grind -linarith)
  | storeDone hcall hwait => exact hs.store (Or.inr (Or.inr hcall)) hwait (by grind -linarith)
  | wake hidle => exact hs.wake rfl rfl rfl rfl (by grind -linarith)
  | compareOwn hcall hstarting => exact hs.call rfl rfl rfl rfl (by grind -linarith) (by grind -linarith)
  | compareOther hcall => exact hs.call rfl rfl rfl rfl (by grind -linarith) (by grind -linarith)
  | readToken hcall hword => exact hs.wake rfl rfl rfl rfl (by grind -linarith)
  | readOther hcall => exact hs.wake rfl rfl rfl rfl (by grind -linarith)
  | swapParked hcall hword => exact hs.wake rfl rfl rfl rfl (by grind -linarith)
  | swapOther hcall hword hseen => exact hs.wake rfl rfl rfl rfl (by grind -linarith)
  | wakeStore hcall => exact hs.wake rfl rfl rfl rfl (by grind -linarith)
  | wakeSchedule hcall => exact hs.wake rfl rfl rfl rfl (by grind -linarith)
  | _ =>
    obtain ⟨h1, h2, h3, h4, h5, h6, h7, h8, h9, h10, h11⟩ := hs
    exact ⟨h1, h2, h3, h4, h5, h6, h7, h8, h9, h10, h11⟩

/-! ### The words of the tasks -/

/-- A task is taken out of `Parked` by one waker, which nobody else interferes with. -/
structure Words (s : State θ τ ρ) : Prop where
  live : ∀ task, s.parkState task ≠ .done
  parked : ∀ task, s.parkState task = .parked →
    s.pc task = .parked ∧ ∀ t, ¬(s.call t).Wakes task
  waking : ∀ t task, (s.call t).Wakes task → s.pc task = .parked
  alone : ∀ t t' task, (s.call t).Wakes task → (s.call t').Wakes task → t = t'

omit [DecidableEq θ] [DecidableEq τ] [DecidableEq ρ] in
theorem words_initial : Words (initial : State θ τ ρ) := by
  constructor <;> first | assumption | grind -linarith [initial]

omit [DecidableEq τ] [DecidableEq ρ] in
/-- A call goes on without touching a task. -/
theorem Words.setCall {s s' : State θ τ ρ} {t : θ} {pc : CallPc τ ρ} (hs : Words s)
    (hword : s'.parkState = s.parkState) (hpc : s'.pc = s.pc)
    (hcall : s'.call = Function.update s.call t pc)
    (hwakes : ∀ task, ¬pc.Wakes task) : Words s' := by
  obtain ⟨h1, h2, h3, h4⟩ := hs
  constructor <;> simp only [hcall, hword, hpc] <;> first | assumption | grind -linarith

omit [DecidableEq θ] [DecidableEq ρ] in
/-- A task that is neither parked nor in a waker's hand goes on. -/
theorem Words.goto {s s' : State θ τ ρ} {task : τ} {pc : TaskPc} {word : TaskState} (hs : Words s)
    (hword : s'.parkState = Function.update s.parkState task word)
    (hpc : s'.pc = Function.update s.pc task pc) (hcall : s'.call = s.call)
    (hbefore : s.pc task ≠ .parked) (hdone : word ≠ .done)
    (hparked : word = .parked → pc = .parked) : Words s' := by
  obtain ⟨h1, h2, h3, h4⟩ := hs
  constructor <;> simp only [hcall, hword, hpc] <;> first | assumption | grind -linarith

theorem words_step {s t' : State θ τ ρ} {a : Action θ τ ρ} (hs : Words s) (h : Step s a t') :
    Words t' := by
  have hkeep : ∀ task, Function.update s.parkState task (s.parkState task) = s.parkState :=
    fun task ↦ Function.update_eq_self task s.parkState
  have hrest := hs.parked
  have hlive := hs.live
  cases h with
  | resume hidle hhost hpc =>
    exact hs.goto (hkeep _).symm rfl rfl (by simp [hpc]) (hlive _) (by grind -linarith)
  | park hruns hpc huser =>
    exact hs.goto (hkeep _).symm rfl rfl (by simp [hpc]) (hlive _) (by grind -linarith)
  | parkInWait hruns hpc hwaits hdone =>
    exact hs.goto (hkeep _).symm rfl rfl (by simp [hpc]) (hlive _) (by grind -linarith)
  | foundToken hruns hpc hword =>
    exact hs.goto (hkeep _).symm rfl rfl (by simp [hpc]) (hlive _) (by grind -linarith)
  | foundNone hruns hpc hword =>
    exact hs.goto (hkeep _).symm rfl rfl (by simp [hpc]) (hlive _) (by grind -linarith)
  | noSleep hruns hpc hword =>
    exact hs.goto (hkeep _).symm rfl rfl (by simp [hpc]) (hlive _) (by grind -linarith)
  | consume hruns hpc => exact hs.goto rfl rfl rfl (by simp [hpc]) (by simp) (by simp)
  | sleep hruns hpc hword => exact hs.goto rfl rfl rfl (by simp [hpc]) (by simp) (by simp)
  | requeue hruns hpc => exact hs.goto rfl rfl rfl (by simp [hpc]) (by simp) (by simp)
  | complete hidle hwait hclaimed => exact hs.setCall rfl rfl rfl (by grind -linarith)
  | wake hidle => exact hs.setCall rfl rfl rfl (by grind -linarith)
  | compareOwn hcall hstarting => exact hs.setCall rfl rfl rfl (by grind -linarith)
  | compareOther hcall => exact hs.setCall rfl rfl rfl (by grind -linarith)
  | storeInline hcall hwait => exact hs.setCall rfl rfl rfl (by grind -linarith)
  | storeDone hcall hwait => exact hs.setCall rfl rfl rfl (by grind -linarith)
  | readToken hcall hword => exact hs.setCall rfl rfl rfl (by grind -linarith)
  | readOther hcall => exact hs.setCall rfl rfl rfl (by grind -linarith)
  | swapParked hcall hword =>
    obtain ⟨h1, h2, h3, h4⟩ := hs
    constructor <;> dsimp only [State.setCall, State.setParkState] <;>
      first | assumption | grind -linarith
  | swapOther hcall hword hseen =>
    obtain ⟨h1, h2, h3, h4⟩ := hs
    constructor <;> dsimp only [State.setCall, State.setParkState] <;>
      first | assumption | grind -linarith
  | wakeStore hcall =>
    obtain ⟨h1, h2, h3, h4⟩ := hs
    constructor <;> dsimp only [State.setCall, State.setParkState] <;>
      first | assumption | grind -linarith
  | wakeSchedule hcall =>
    obtain ⟨h1, h2, h3, h4⟩ := hs
    constructor <;> dsimp only [State.setCall, State.goto] <;> first | assumption | grind -linarith
  | _ =>
    obtain ⟨h1, h2, h3, h4⟩ := hs
    exact ⟨h1, h2, h3, h4⟩

/-! ### Completions are heard -/

/-- Somebody will make the task look again: a waker has the word still to read, the word holds a
token, or a waker has the task in its hand. -/
def State.Stirred (s : State θ τ ρ) (task : τ) : Prop :=
  (∃ t, (s.call t).WillRead task) ∨ s.parkState task = .notified ∨ ∃ t, (s.call t).Wakes task

/-- A task that is about to park in a wait that is done will look again. -/
def Heard (s : State θ τ ρ) : Prop :=
  ∀ task state w, s.WaitsIn task state w → w.phase = .testing → w.done = true →
    (s.pc task).Committed → s.Stirred task

omit [DecidableEq τ] [DecidableEq ρ] in
/-- What a task is promised stays when neither its word nor a call for it is touched. -/
theorem State.Stirred.call {s s' : State θ τ ρ} {task : τ} {t : θ} {pc : CallPc τ ρ}
    (h : s.Stirred task) (hword : s'.parkState task = s.parkState task)
    (hcall : s'.call = Function.update s.call t pc)
    (hread : (s.call t).WillRead task → pc.WillRead task)
    (hwakes : (s.call t).Wakes task → pc.Wakes task) : s'.Stirred task := by
  unfold State.Stirred
  rw [hword, hcall]
  exact Or.imp (exists_update (P := fun call ↦ CallPc.WillRead call task) hread)
    (Or.imp_right (exists_update (P := fun call ↦ CallPc.Wakes call task) hwakes)) h

omit [DecidableEq θ] [DecidableEq τ] [DecidableEq ρ] in
/-- The promise has to be kept only to tasks that are promised something. -/
theorem Heard.of_stirred {s s' : State θ τ ρ} (hs : Heard s) (hstack : s'.stack = s.stack)
    (hwait : s'.wait = s.wait)
    (hpc : ∀ task, (s'.pc task).Committed → (s.pc task).Committed)
    (hkeeps : ∀ task, (s'.pc task).Committed → s.Stirred task → s'.Stirred task) : Heard s' := by
  rintro task state w ⟨⟨rest, htop⟩, hw⟩ hphase hdone hcommitted
  rw [hstack] at htop
  rw [hwait] at hw
  exact hkeeps task hcommitted
    (hs task state w ⟨⟨rest, htop⟩, hw⟩ hphase hdone (hpc task hcommitted))

omit [DecidableEq θ] [DecidableEq ρ] in
/-- A task goes on to a place where it will look again. -/
theorem Heard.goto {s s' : State θ τ ρ} {task : τ} {pc : TaskPc} (hs : Heard s)
    (hstack : s'.stack = s.stack) (hwait : s'.wait = s.wait)
    (hword : ∀ other, other ≠ task → s'.parkState other = s.parkState other)
    (hpc : s'.pc = Function.update s.pc task pc) (hcall : s'.call = s.call)
    (hlooks : ¬pc.Committed) : Heard s' := by
  have hother : ∀ other, (s'.pc other).Committed → other ≠ task := by
    rintro other hcommitted rfl
    rw [hpc, Function.update_self] at hcommitted
    exact hlooks hcommitted
  refine hs.of_stirred hstack hwait (fun other hcommitted ↦ ?_) (fun other hcommitted h ↦ ?_)
  · have hne := hother other hcommitted
    rwa [hpc, Function.update_of_ne hne] at hcommitted
  · unfold State.Stirred
    rw [hword other (hother other hcommitted), hcall]
    exact h

omit [DecidableEq θ] [DecidableEq τ] [DecidableEq ρ] in
/-- A task that is not about to park changes its own waits. -/
theorem Heard.own {s s' : State θ τ ρ} (hs : Heard s) (task : τ) (hpc : s'.pc = s.pc)
    (hword : s'.parkState = s.parkState) (hcall : s'.call = s.call)
    (hrunning : ¬(s.pc task).Committed)
    (hothers : ∀ other state w, other ≠ task → s'.WaitsIn other state w →
      s.WaitsIn other state w) : Heard s' := by
  intro other state w hwaits hphase hdone hcommitted
  rw [hpc] at hcommitted
  have hne : other ≠ task := fun h ↦ hrunning (h ▸ hcommitted)
  have := hs other state w (hothers other state w hne hwaits) hphase hdone hcommitted
  unfold State.Stirred at *
  rwa [hword, hcall]

omit [DecidableEq θ] [DecidableEq τ] [DecidableEq ρ] in
/-- The waits of two tasks have different addresses. -/
theorem Refs.ne_of_waitsIn {s : State θ τ ρ} (hs : Refs s) {task other : τ} {state state' : ρ}
    (hmem : state ∈ s.stack task) (hmem' : state' ∈ s.stack other) (hne : other ≠ task) :
    state' ≠ state := by
  rintro rfl
  obtain ⟨w, hw, rfl⟩ := hs.live task state' hmem
  obtain ⟨w', hw', rfl⟩ := hs.live other state' hmem'
  rw [hw, Option.some.injEq] at hw'
  exact hne (by rw [hw'])

omit [DecidableEq θ] [DecidableEq τ] in
/-- One of the waits of a task changes, the others do not. -/
theorem Refs.waitsIn_of_setWait {s s' : State θ τ ρ} (hs : Refs s) {task : τ} {state : ρ}
    {change : Option (WaitState τ ρ)} (hmem : state ∈ s.stack task)
    (hwait : s'.wait = Function.update s.wait state change)
    (hstack : ∀ other, other ≠ task → s'.stack other = s.stack other) :
    ∀ other state₀ w₀, other ≠ task → s'.WaitsIn other state₀ w₀ → s.WaitsIn other state₀ w₀ := by
  rintro other state₀ w₀ hne ⟨⟨rest, htop⟩, hw₀⟩
  rw [hstack other hne] at htop
  have hmem₀ : state₀ ∈ s.stack other := by
    rw [htop]
    exact List.mem_cons_self
  rw [hwait, Function.update_of_ne (hs.ne_of_waitsIn hmem hmem₀ hne)] at hw₀
  exact ⟨⟨rest, htop⟩, hw₀⟩

omit [DecidableEq θ] [DecidableEq τ] [DecidableEq ρ] in
theorem State.WaitsIn.mem {s : State θ τ ρ} {task : τ} {state : ρ} {w : WaitState τ ρ}
    (h : s.WaitsIn task state w) : state ∈ s.stack task := by
  obtain ⟨rest, htop⟩ := h.stack
  rw [htop]
  exact List.mem_cons_self

omit [DecidableEq θ] [DecidableEq ρ] in
/-- A task begins to park where it owes no look at `done`. -/
theorem Heard.park {s : State θ τ ρ} {task : τ} (hs : Heard s)
    (hfree : ∀ state w, s.WaitsIn task state w → w.phase = .testing → w.done = false) :
    Heard (s.goto task .parkLoad) := by
  rintro other state w ⟨hstack, hwait⟩ hphase hdone hcommitted
  have hwaits : s.WaitsIn other state w := ⟨hstack, hwait⟩
  rcases eq_or_ne other task with rfl | hne
  · have := hfree state w hwaits hphase
    rw [hdone] at this
    exact absurd this (by simp)
  · dsimp only [State.goto] at hcommitted
    rw [Function.update_of_ne hne] at hcommitted
    exact hs other state w hwaits hphase hdone hcommitted

omit [DecidableEq τ] in
/-- A completion begins or stores `done`. -/
theorem Heard.completion {s : State θ τ ρ} {t : θ} {state : ρ} {w w' : WaitState τ ρ}
    {pc : CallPc τ ρ} (hs : Heard s) (hwait : s.wait state = some w)
    (hcall : ∀ task, ¬(s.call t).WillRead task ∧ ¬(s.call t).Wakes task)
    (hnew : ∀ task, state ∈ s.stack task → w'.phase = .testing → w'.done = true →
      w.phase = .testing ∧ w.done = true ∨ pc.WillRead task) :
    Heard ((s.setWait state w').setCall t pc) := by
  rintro task state₀ w₀ ⟨hstack, hw₀⟩ hphase hdone hcommitted
  have hkeep : s.Stirred task → ((s.setWait state w').setCall t pc).Stirred task := fun h ↦
    h.call rfl rfl (fun h ↦ absurd h (hcall task).1) (fun h ↦ absurd h (hcall task).2)
  rcases eq_or_ne state₀ state with rfl | hne
  · dsimp only [State.setWait, State.setCall] at hw₀
    rw [Function.update_self, Option.some.injEq] at hw₀
    subst hw₀
    have hmem : state₀ ∈ s.stack task := by
      obtain ⟨rest, htop⟩ := hstack
      have htop' : s.stack task = state₀ :: rest := htop
      rw [htop']
      exact List.mem_cons_self
    rcases hnew task hmem hphase hdone with ⟨hphase', hdone'⟩ | hread
    · exact hkeep (hs task state₀ w ⟨hstack, hwait⟩ hphase' hdone' hcommitted)
    · exact Or.inl (exists_update_self (P := fun call ↦ CallPc.WillRead call task) hread)
  · dsimp only [State.setWait, State.setCall] at hw₀
    rw [Function.update_of_ne hne] at hw₀
    exact hkeep (hs task state₀ w₀ ⟨hstack, hw₀⟩ hphase hdone hcommitted)

omit [DecidableEq τ] [DecidableEq ρ] in
/-- A wake touches one word, and gives that task its due. -/
theorem Heard.wake {s s' : State θ τ ρ} {t : θ} {pc : CallPc τ ρ} (hs : Heard s) (task : τ)
    (hstack : s'.stack = s.stack) (hwait : s'.wait = s.wait)
    (hpc : ∀ other, (s'.pc other).Committed → (s.pc other).Committed)
    (hword : ∀ other, other ≠ task → s'.parkState other = s.parkState other)
    (hcall : s'.call = Function.update s.call t pc)
    (hbefore : ∀ other, (s.call t).WillRead other ∨ (s.call t).Wakes other → other = task)
    (hmine : (s'.pc task).Committed → s'.Stirred task) : Heard s' := by
  refine hs.of_stirred hstack hwait hpc fun other hcommitted h ↦ ?_
  rcases eq_or_ne other task with rfl | hne
  · exact hmine hcommitted
  · exact h.call (hword other hne) hcall (fun h ↦ absurd (hbefore other (Or.inl h)) hne)
      (fun h ↦ absurd (hbefore other (Or.inr h)) hne)

theorem heard_step {s t' : State θ τ ρ} {a : Action θ τ ρ} (hrefs : Refs s) (hwords : Words s)
    (hs : Heard s) (h : Step s a t') : Heard t' := by
  cases h with
  | resume hidle hhost hpc =>
    exact hs.goto rfl rfl (fun _ _ ↦ rfl) rfl rfl (by grind -linarith)
  | begin hruns hpc hfree =>
    rename_i t task state
    refine hs.own task rfl rfl rfl (by grind -linarith) ?_
    rintro other state₀ w₀ hne ⟨⟨rest, htop⟩, hw₀⟩
    dsimp only [State.enterWait] at htop hw₀
    rw [Function.update_of_ne hne] at htop
    have hother : state₀ ≠ state := by
      rintro rfl
      obtain ⟨w, hw, -⟩ := hrefs.live other state₀ (by rw [htop]; exact List.mem_cons_self)
      rw [hfree] at hw
      exact absurd hw (by simp)
    rw [Function.update_of_ne hother] at hw₀
    exact ⟨⟨rest, htop⟩, hw₀⟩
  | park hruns hpc huser =>
    exact hs.park fun state w hwaits hphase ↦ absurd hphase (huser state w hwaits)
  | leaveStart hruns hpc hwaits hphase =>
    exact hs.own _ rfl rfl rfl (by grind -linarith) (hrefs.waitsIn_of_setWait hwaits.mem rfl fun _ _ ↦ rfl)
  | leaveForward hruns hpc hwaits hphase =>
    exact hs.own _ rfl rfl rfl (by grind -linarith) (hrefs.waitsIn_of_setWait hwaits.mem rfl fun _ _ ↦ rfl)
  | waitOver hruns hpc hwaits hphase hdone =>
    exact hs.own _ rfl rfl rfl (by grind -linarith) (hrefs.waitsIn_of_setWait hwaits.mem rfl
      fun _ h ↦ Function.update_of_ne h ..)
  | forward hruns hpc hwaits hphase hdone =>
    exact hs.own _ rfl rfl rfl (by grind -linarith) (hrefs.waitsIn_of_setWait hwaits.mem rfl fun _ _ ↦ rfl)
  | parkInWait hruns hpc hwaits hdone =>
    refine hs.park fun state w hother _ ↦ ?_
    obtain ⟨⟨rest, htop⟩, hw⟩ := hwaits
    obtain ⟨⟨rest', htop'⟩, hw'⟩ := hother
    grind -linarith
  | foundToken hruns hpc hword =>
    exact hs.goto rfl rfl (fun _ _ ↦ rfl) rfl rfl (by grind -linarith)
  | foundNone hruns hpc hword =>
    refine hs.of_stirred rfl rfl ?_ fun _ _ h ↦ h
    dsimp only [State.goto]
    grind -linarith
  | consume hruns hpc =>
    exact hs.goto rfl rfl (fun _ h ↦ Function.update_of_ne h ..) rfl rfl (by grind -linarith)
  | sleep hruns hpc hword =>
    refine hs.of_stirred rfl rfl ?_ fun other _ h ↦ ?_
    · dsimp only [State.goto, State.release, State.setParkState]
      grind -linarith
    · unfold State.Stirred at *
      dsimp only [State.goto, State.release, State.setParkState]
      grind -linarith
  | noSleep hruns hpc hword =>
    exact hs.goto rfl rfl (fun _ _ ↦ rfl) rfl rfl (by grind -linarith)
  | requeue hruns hpc =>
    exact hs.goto rfl rfl (fun _ h ↦ Function.update_of_ne h ..) rfl rfl (by grind -linarith)
  | complete hidle hwait hclaimed =>
    exact hs.completion hwait (by grind -linarith) fun _ _ hphase hdone ↦ Or.inl ⟨hphase, hdone⟩
  | wake hidle =>
    refine hs.of_stirred rfl rfl (fun _ h ↦ h) fun other _ h ↦ h.call rfl rfl ?_ ?_ <;> grind -linarith
  | compareOwn hcall hstarting =>
    refine hs.of_stirred rfl rfl (fun _ h ↦ h) fun other _ h ↦ h.call rfl rfl ?_ ?_ <;> grind -linarith
  | compareOther hcall =>
    refine hs.of_stirred rfl rfl (fun _ h ↦ h) fun other _ h ↦ h.call rfl rfl ?_ ?_ <;> grind -linarith
  | storeInline hcall hwait =>
    refine hs.completion hwait (by grind -linarith) fun _ _ hphase _ ↦ ?_
    obtain ⟨w, hw, hstarting⟩ := hrefs.current _ _ (hrefs.own _ _ hcall)
    grind -linarith
  | storeDone hcall hwait =>
    refine hs.completion hwait (by grind -linarith) fun task hmem _ _ ↦ Or.inr ?_
    obtain ⟨w, hw, rfl⟩ := hrefs.live _ _ hmem
    grind -linarith
  | readToken hcall hword =>
    rename_i t task spurious
    refine hs.wake task rfl rfl (fun _ h ↦ h) (fun _ _ ↦ rfl) rfl (by grind -linarith) fun _ ↦ ?_
    exact Or.inr (Or.inl (hword.resolve_right (hwords.live task)))
  | readOther hcall =>
    refine hs.of_stirred rfl rfl (fun _ h ↦ h) fun other _ h ↦ h.call rfl rfl ?_ ?_ <;> grind -linarith
  | swapParked hcall hword =>
    refine hs.wake _ rfl rfl (fun _ h ↦ h) (fun _ h ↦ Function.update_of_ne h ..) rfl (by grind -linarith) ?_
    exact fun _ ↦ Or.inr (Or.inl (Function.update_self ..))
  | swapOther hcall hword hseen =>
    refine hs.wake _ rfl rfl (fun _ h ↦ h) (fun _ h ↦ Function.update_of_ne h ..) rfl (by grind -linarith) ?_
    exact fun _ ↦ Or.inr (Or.inl (Function.update_self ..))
  | wakeStore hcall =>
    rename_i t task spurious
    refine hs.wake task rfl rfl (fun _ h ↦ h) (fun _ h ↦ Function.update_of_ne h ..) rfl
      (by grind -linarith) fun _ ↦ Or.inr (Or.inr ?_)
    exact exists_update_self (P := fun call ↦ CallPc.Wakes call task) (Or.inr rfl)
  | wakeSchedule hcall =>
    rename_i t task spurious
    refine hs.wake task rfl rfl ?_ (fun _ _ ↦ rfl) rfl (by grind -linarith) ?_
    · dsimp only [State.goto, State.setCall]
      grind -linarith
    · dsimp only [State.goto, State.setCall]
      grind -linarith

/-! ### The results -/

/-- What holds in every state. -/
structure Sound (s : State θ τ ρ) : Prop where
  refs : Refs s
  words : Words s
  heard : Heard s

theorem sound_of_reachableUnder {s : State θ τ ρ}
    (hs : (system θ τ ρ).ReachableUnder (fun s a ↦ s.restoresOwn a = true) s) : Sound s := by
  refine System.ReachableUnder.invariant (P := Sound) ?_ ?_ hs
  · rintro _ rfl
    refine ⟨refs_initial, words_initial, ?_⟩
    rintro task state w ⟨⟨rest, htop⟩, -⟩
    exact absurd htop (by simp [initial])
  · intro s a t hsound hown hnext
    have hstep := step_of_eq hnext
    exact ⟨refs_step hsound.refs hown hstep, words_step hsound.words hstep,
      heard_step hsound.refs hsound.words hsound.heard hstep⟩

omit [DecidableEq θ] [DecidableEq τ] [DecidableEq ρ] in
/-- No completion is lost in a sound state. -/
theorem Sound.not_lost {s : State θ τ ρ} (hs : Sound s) : ¬s.Lost := by
  rintro ⟨hidle, state, w, hinner, hphase, hdone, hparked⟩
  have hwaits := State.innermost_eq_some_iff.mp hinner
  have hcommitted : (s.pc w.waiter).Committed := Or.inr (Or.inr (hs.words.parked _ hparked).1)
  rcases hs.heard w.waiter state w hwaits hphase hdone hcommitted with ⟨t, h⟩ | h | ⟨t, h⟩
  · rw [hidle t] at h
    grind -linarith
  · rw [hparked] at h
    exact absurd h (by decide)
  · exact (hs.words.parked _ hparked).2 t h

/-- In every run in which each task that returns from `start()` finds its own wait in
`starting_wait` of the thread it returns on, no completion is lost. -/
theorem wait_loses_no_completion (θ : Type u) (τ : Type v) (ρ : Type w) [DecidableEq θ]
    [DecidableEq τ] [DecidableEq ρ] (s : State θ τ ρ)
    (hs : (system θ τ ρ).ReachableUnder (fun s a ↦ s.restoresOwn a = true) s) : ¬s.Lost :=
  (sound_of_reachableUnder hs).not_lost

/-- A task waits inside the `start()` of another wait; both senders complete on the second thread
while the task is in the inner wait, the inner one last. -/
def nestedWait : List (Action Bool Unit ℕ) :=
  [.resume false (), .begin false 0, .begin false 1, .leave false, .goOn false false,
    .goOn false false, .goOn false false, .complete true 0, .advance true false,
    .advance true false, .advance true false, .advance true false, .advance true false,
    .advance true false, .resume false (), .goOn false false, .goOn false false, .goOn false false,
    .complete true 1, .advance true false, .advance true false]

theorem wait_loses_no_completion_nestedWait :
    ∃ s, (system Bool Unit ℕ).runUnder State.restoresOwn initial nestedWait = some s ∧
      s.stack () = [1, 0] ∧ s.parkState () = .parked ∧ (s.wait 1).map (·.done) = some true ∧
      ¬s.Lost := by
  refine ⟨((system Bool Unit ℕ).runUnder State.restoresOwn initial nestedWait).get (by decide),
    (Option.some_get _).symm, by decide, by decide, by decide, ?_⟩
  exact wait_loses_no_completion Bool Unit ℕ _
    (System.reachableUnder_of_run rfl (Option.some_get _).symm)

/-- A task parks inside `start()` and returns on the second thread; a completion on the first one
takes the wait that was left there for its own. -/
def migratedStart : List (Action Bool Unit ℕ) :=
  [.resume false (), .begin false 0, .park false, .goOn false false, .goOn false false,
    .wake true (), .advance true false, .advance true false, .advance true false,
    .advance true false, .resume true (), .leave true, .goOn true false, .goOn true false,
    .goOn true false, .complete false 0, .advance false false, .advance false false]

/-- The completion of a sender whose `start()` parks is lost. -/
theorem completion_lost_after_migration : ∃ s, (system Bool Unit ℕ).Reachable s ∧ s.Lost := by
  refine ⟨((system Bool Unit ℕ).run initial migratedStart).get (by decide),
    System.reachable_of_run rfl (Option.some_get _).symm, fun t ↦ ?_, 0,
    { waiter := (), outer := none, phase := .testing, forwarded := false, done := true
      claimed := true }, rfl, rfl, rfl, rfl⟩
  cases t with
  | false => rfl
  | true => rfl

end Stackfull.Exec.Wait
