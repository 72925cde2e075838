import Stackfull.Sched.Sweep
import Stackfull.Sched.TasksSafety

/-!
# No task is reaped out of a `park` that `stop` has not woken it from

`Acts` says what becomes of the operation of an agent as far as `park` and the reaper are concerned:
who is inside a `park` has called it, and who holds a task for the reaper has claimed it.

A task that is `Roused` is on its way to run, or has a token that keeps it from sleeping. Until
`parkedWoken` is set nobody reaps, so whoever is woken by `wakeAllParked` is roused until its `park`
returns; and a task that is in a `park` since before `stopping` was set stays in its slot until
`wakeAllParked` has got there. So the reaper claims no such task (`stop_wakes_before_reaping`).
-/

set_option autoImplicit false
set_option relaxedAutoImplicit false
set_option linter.dupNamespace false

namespace Stackfull.Sched.Tasks

open Stackfull.Lib

universe u v

variable {n : ℕ} {κ : Type u} {τ : Type v}

/-! ### Operations of an agent -/

/-- The worker is in `reapParkedTasks`. -/
def Op.reaping : Op τ → Bool
  | .reapClaim _ | .reapShields _ | .reapPutBack _ | .reapStore _ => true
  | _ => false

/-- The task that the reaper has claimed and not put back or unwound yet. -/
def Op.reaps : Op τ → Option τ
  | .reapShields x | .reapPutBack x => some x
  | _ => none

theorem Op.reaps_eq_none {op : Op τ} (h : op.reaping = false) : op.reaps = none := by
  cases op <;> simp_all [Op.reaping, Op.reaps]

/-- The agent inside a wake of the task, before it has had an effect. -/
def Op.wakes (x : τ) : Op τ → Prop
  | .wakeLoad y => y = x
  | .wakeSwap y _ => y = x
  | _ => False

/-- Who takes a step. -/
def Action.agent : Action n κ τ → Agent n κ
  | .wake a _ | .spawn a _ | .advance a _ => a
  | .shield w | .unshield w | .pinToCurrentWorker w | .unpin w | .park w | .yield w _ | .finish w
  | .takeLocal w _ | .popInjection w | .steal w _ _ | .stealBlock w _ _ _ | .setGathering w _
  | .placeGathered w _ _ _ | .reap w _ => .worker w

/-- What becomes of the operation of the agent that takes a step. -/
inductive Acts (s t : State n κ τ) (action : Action n κ τ) : Op τ → Op τ → Prop
  | same {op : Op τ} : t.current = s.current → Acts s t action op op
  | plain {op op' : Op τ} : op'.parks = false → op'.reaping = false → Acts s t action op op'
  | park {op op' : Op τ} : t.current = s.current → op'.reaping = false → Acts s t action op op'
  | reap {op : Op τ} (w : Fin n) (x : τ) : action = .reap w x → Acts s t action op (.reapClaim x)
  | claim (x : τ) : s.parkState x = .parked → Acts s t action (.reapClaim x) (.reapShields x)
  | putBack (x : τ) : Acts s t action (.reapShields x) (.reapPutBack x)
  | store (x : τ) : Acts s t action (.reapPutBack x) (.reapStore x)

/-- A step changes the operation of the agent that takes it, and only what that agent runs; only a
spawn publishes a task. -/
structure Moves (s t : State n κ τ) (action : Action n κ τ) : Prop where
  acts : Acts s t action (s.op action.agent) (t.op action.agent)
  op : ∀ b, b ≠ action.agent → t.op b = s.op b
  current : ∀ w, .worker w ≠ action.agent → t.current w = s.current w
  published : ∀ x, t.published x = true → s.published x = true ∨ ∃ b, action = .spawn b x

variable [DecidableEq κ] {s t : State n κ τ} {a : Agent n κ} {w : Fin n} {x : τ}
  {action : Action n κ τ}

/-- A step that gives its agent another operation. -/
theorem Moves.of_update {op : Op τ} (hop : t.op = Function.update s.op action.agent op)
    (hcurrent : ∀ w, .worker w ≠ action.agent → t.current w = s.current w)
    (hpublished : ∀ x, t.published x = true → s.published x = true ∨ ∃ b, action = .spawn b x)
    (hacts : Acts s t action (s.op action.agent) op) : Moves s t action := by
  refine ⟨?_, fun b hb ↦ ?_, hcurrent, hpublished⟩
  · rw [hop, Function.update_self]
    exact hacts
  · rw [hop, Function.update_of_ne hb]

omit [DecidableEq κ] in
/-- What an agent goes on with is neither a `park` nor reaping. -/
theorem After.acts_next (after : After τ) {op : Op τ} : Acts s t action op after.next := by
  rcases after with _ | _ | ⟨_ | _, _ | _, _ | _⟩ | _ | ⟨_, _ | _⟩ <;> exact .plain rfl rfl

/-- A step at the end of an operation. -/
theorem Moves.ended (hop : t.op = Function.update s.op action.agent (s.after action.agent).next)
    (hcurrent : ∀ w, .worker w ≠ action.agent → t.current w = s.current w)
    (hpublished : ∀ x, t.published x = true → s.published x = true ∨ ∃ b, action = .spawn b x) :
    Moves s t action :=
  .of_update hop hcurrent hpublished (After.acts_next _)

/-- A step that gives its agent another operation of no interest. -/
theorem Moves.goto {op : Op τ} (hop : t.op = Function.update s.op action.agent op)
    (hcurrent : ∀ w, .worker w ≠ action.agent → t.current w = s.current w)
    (hpublished : ∀ x, t.published x = true → s.published x = true ∨ ∃ b, action = .spawn b x)
    (hparks : op.parks = false) (hreaping : op.reaping = false) : Moves s t action :=
  .of_update hop hcurrent hpublished (.plain hparks hreaping)

variable [DecidableEq τ]

theorem moves_wakeRead (choice : Choice) : Moves s (s.wakeRead a x) (.advance a choice) := by
  unfold State.wakeRead
  split
  · exact .ended rfl (fun _ _ ↦ rfl) fun _ ↦ Or.inl
  · exact .ended rfl (fun _ _ ↦ rfl) fun _ ↦ Or.inl
  · exact .goto rfl (fun _ _ ↦ rfl) (fun _ ↦ Or.inl) rfl rfl

omit [DecidableEq κ] [DecidableEq τ] in
/-- `takeLocal` is about the worker's containers. -/
theorem op_takeLocal {choice : Choice} {task : Option τ} (h : s.takeLocal w choice = (task, t)) :
    t.op = s.op ∧ t.current = s.current ∧ t.published = s.published := by
  unfold State.takeLocal at h
  grind -linarith

omit [DecidableEq τ] in
theorem moves_leave {hook : Hook} {fairnessTick : Bool} {choice : Choice}
    (hop : s.op (.worker w) = .leave hook fairnessTick) :
    Moves s (s.leave w hook fairnessTick choice) (.advance (.worker w) choice) := by
  have hswitch (next : Option τ) {taken : State n κ τ} (hsame : taken.current = s.current) :
      Acts s (taken.goto (.worker w) (.switch hook next)) (.advance (.worker w) choice)
        (s.op (.worker w)) (.switch hook next) := by
    cases hook with
    | parked => exact .park hsame rfl
    | yielded | finished => exact .plain rfl rfl
  unfold State.leave
  split
  · rename_i next taken htake
    obtain ⟨hops, hcurrent, hpublished⟩ := op_takeLocal htake
    refine .of_update ?_ (fun v _ ↦ congrFun hcurrent v)
      (fun y hy ↦ Or.inl (hpublished ▸ hy)) (hswitch (some next) hcurrent)
    exact congrArg (fun f ↦ Function.update f _ _) hops
  · rename_i taken htake
    obtain ⟨hops, hcurrent, hpublished⟩ := op_takeLocal htake
    split_ifs
    · have hgoto := congrArg (fun f ↦ Function.update f (.worker w) (.yieldPop fairnessTick)) hops
      exact .goto hgoto (fun v _ ↦ congrFun hcurrent v) (fun y hy ↦ Or.inl (hpublished ▸ hy)) rfl rfl
    · refine .of_update ?_ (fun v _ ↦ congrFun hcurrent v) (fun y hy ↦ Or.inl (hpublished ▸ hy))
        (hswitch none hcurrent)
      exact congrArg (fun f ↦ Function.update f _ _) hops

omit [DecidableEq κ] [DecidableEq τ] in
/-- A worker that switches changes what it runs, and nobody else's. -/
theorem current_update {task : Option τ} (hcurrent : t.current = Function.update s.current w task)
    (v : Fin n) (hv : (.worker v : Agent n κ) ≠ .worker w) : t.current v = s.current v := by
  rw [hcurrent, Function.update_of_ne (fun h ↦ hv (congrArg _ h))]

theorem moves_advance {c : Config} {choice : Choice} (h : s.advance c a choice = some t) :
    Moves s t (.advance a choice) := by
  unfold State.advance at h
  split at h
  case h_1 => cases h
  case h_2 x _ =>
    obtain rfl := Option.some.inj h
    unfold State.schedule
    split
    · exact .ended rfl (fun _ _ ↦ rfl) fun _ ↦ Or.inl
    · exact .goto rfl (fun _ _ ↦ rfl) (fun _ ↦ Or.inl) rfl rfl
    · split_ifs
      · exact .ended rfl (fun _ _ ↦ rfl) fun _ ↦ Or.inl
      · exact .goto rfl (fun _ _ ↦ rfl) (fun _ ↦ Or.inl) rfl rfl
      · exact .goto rfl (fun _ _ ↦ rfl) (fun _ ↦ Or.inl) rfl rfl
  case h_3 =>
    obtain rfl := Option.some.inj h
    unfold State.inject
    split
    · exact .goto rfl (fun _ _ ↦ rfl) (fun _ ↦ Or.inl) rfl rfl
    · exact .ended rfl (fun _ _ ↦ rfl) fun _ ↦ Or.inl
    · exact .ended rfl (fun _ _ ↦ rfl) fun _ ↦ Or.inl
  case h_4 => exact Option.some.inj h ▸ moves_wakeRead choice
  case h_5 =>
    obtain rfl := Option.some.inj h
    unfold State.wakeSwap
    split_ifs
    · exact .goto rfl (fun _ _ ↦ rfl) (fun _ ↦ Or.inl) rfl rfl
    · exact .ended rfl (fun _ _ ↦ rfl) fun _ ↦ Or.inl
    · exact moves_wakeRead choice
  case h_6 | h_7 | h_8 => exact Option.some.inj h ▸ .goto rfl (fun _ _ ↦ rfl) (fun _ ↦ Or.inl) rfl rfl
  case h_9 y _ =>
    refine Option.some.inj h ▸ .ended rfl (fun _ _ ↦ rfl) fun z hz ↦ Or.inl ?_
    by_cases hzy : z = y
    · simp [State.release, hzy] at hz
    · simpa [State.release, hzy] using hz
  case h_10 =>
    obtain rfl := Option.some.inj h
    unfold State.pushLifo
    split
    · exact .goto rfl (fun _ _ ↦ rfl) (fun _ ↦ Or.inl) rfl rfl
    · exact .ended rfl (fun _ _ ↦ rfl) fun _ ↦ Or.inl
  case h_11 =>
    obtain rfl := Option.some.inj h
    unfold State.pushFifo
    split_ifs <;> exact .goto rfl (fun _ _ ↦ rfl) (fun _ ↦ Or.inl) rfl rfl
  case h_12 =>
    obtain rfl := Option.some.inj h
    unfold State.overflow
    split_ifs <;> exact .goto rfl (fun _ _ ↦ rfl) (fun _ ↦ Or.inl) rfl rfl
  case h_13 => exact Option.some.inj h ▸ .goto rfl (fun _ _ ↦ rfl) (fun _ ↦ Or.inl) rfl rfl
  case h_14 x w _ => exact Option.some.inj h ▸ .ended rfl (current_update rfl) fun _ ↦ Or.inl
  case h_15 =>
    unfold State.parkStore at h
    split at h
    · exact Option.some.inj h ▸ .ended rfl (fun _ _ ↦ rfl) fun _ ↦ Or.inl
    · cases h
  case h_16 hop => exact Option.some.inj h ▸ moves_leave hop
  case h_17 =>
    obtain rfl := Option.some.inj h
    unfold State.yieldPop
    split
    · exact .goto rfl (fun _ _ ↦ rfl) (fun _ ↦ Or.inl) rfl rfl
    · split_ifs
      · exact .goto rfl (fun _ _ ↦ rfl) (fun _ ↦ Or.inl) rfl rfl
      · exact .ended rfl (fun _ _ ↦ rfl) fun _ ↦ Or.inl
  case h_18 =>
    unfold State.switchOut at h
    split at h
    · exact Option.some.inj h ▸ .goto rfl (current_update rfl) (fun _ ↦ Or.inl) rfl rfl
    · cases h
  case h_19 hook x w hop =>
    obtain rfl := Option.some.inj h
    cases hook with
    | parked =>
      simp only [State.arrived]
      split_ifs
      · exact .ended rfl (fun _ _ ↦ rfl) fun _ ↦ Or.inl
      · exact .goto rfl (fun _ _ ↦ rfl) (fun _ ↦ Or.inl) rfl rfl
    | yielded =>
      simp only [State.arrived]
      split
      · exact .ended rfl (fun _ _ ↦ rfl) fun _ ↦ Or.inl
      · exact .goto rfl (fun _ _ ↦ rfl) (fun _ ↦ Or.inl) rfl rfl
    | finished => exact .goto rfl (fun _ _ ↦ rfl) (fun _ ↦ Or.inl) rfl rfl
  case h_20 x w hop =>
    obtain rfl := Option.some.inj h
    unfold State.reapClaim
    split_ifs with hparked
    · refine .of_update rfl (fun _ _ ↦ rfl) (fun _ ↦ Or.inl) ?_
      rw [show s.op (Action.advance (.worker w) choice).agent = _ from hop]
      exact .claim x hparked
    · exact .ended rfl (fun _ _ ↦ rfl) fun _ ↦ Or.inl
  case h_21 x w hop =>
    obtain rfl := Option.some.inj h
    unfold State.reapShields
    split_ifs
    · refine .of_update rfl (fun _ _ ↦ rfl) (fun _ ↦ Or.inl) ?_
      rw [show s.op (Action.advance (.worker w) choice).agent = _ from hop]
      exact .putBack x
    · exact .ended rfl (current_update rfl) fun _ ↦ Or.inl
    · exact .goto rfl (fun _ _ ↦ rfl) (fun _ ↦ Or.inl) rfl rfl
  case h_22 x w hop =>
    obtain rfl := Option.some.inj h
    unfold State.reapPutBack
    split_ifs
    · exact .ended rfl (fun _ _ ↦ rfl) fun _ ↦ Or.inl
    · refine .of_update rfl (fun _ _ ↦ rfl) (fun _ ↦ Or.inl) ?_
      rw [show s.op (Action.advance (.worker w) choice).agent = _ from hop]
      exact .store x
  case h_23 => cases h

omit [DecidableEq τ] in
theorem moves_enter {u : State n κ τ} {op : Op τ} (hop : u.op = s.op) (hcurrent : u.current = s.current)
    (hpublished : ∀ x, u.published x = true → s.published x = true ∨ ∃ b, action = .spawn b x)
    (h : u.enter action.agent op = some t) (hparks : op.parks = false)
    (hreaping : op.reaping = false) : Moves s t action := by
  have hgoto : Function.update u.op action.agent op = Function.update s.op action.agent op := by
    rw [hop]
  unfold State.enter at h
  split at h
  case h_4 => cases h
  all_goals
    exact Option.some.inj h ▸ .goto hgoto (fun v _ ↦ congrFun hcurrent v) hpublished hparks hreaping

omit [DecidableEq κ] [DecidableEq τ] in
/-- A step that gives nobody another operation. -/
theorem Moves.refl (hop : t.op = s.op) (hcurrent : t.current = s.current)
    (hpublished : t.published = s.published) : Moves s t action := by
  refine ⟨?_, fun b _ ↦ congrFun hop b, fun v _ ↦ congrFun hcurrent v,
    fun x hx ↦ Or.inl (hpublished ▸ hx)⟩
  rw [hop]
  exact .same hcurrent

/-- Every step changes the operation of its agent as `Acts` says. -/
theorem moves_step {c : Config} (h : s.step c action = some t) : Moves s t action := by
  cases action with
  | wake a x =>
    simp only [State.step.eq_def] at h
    split_ifs at h
    exact moves_enter rfl rfl (fun _ ↦ Or.inl) h rfl rfl
  | spawn a x =>
    simp only [State.step.eq_def] at h
    split_ifs at h
    refine moves_enter ?_ ?_ ?_ h rfl rfl
    · rfl
    · rfl
    · intro y hy
      by_cases hyx : y = x
      · exact Or.inr ⟨a, by rw [hyx]⟩
      · exact Or.inl (by simpa [hyx] using hy)
  | shield w | unshield w | pinToCurrentWorker w | unpin w =>
    obtain ⟨x, -, rfl⟩ := Option.map_eq_some_iff.mp h
    exact .refl rfl rfl rfl
  | park w =>
    obtain ⟨x, -, rfl⟩ := Option.map_eq_some_iff.mp h
    unfold State.park
    split_ifs <;> exact .of_update rfl (fun _ _ ↦ rfl) (fun _ ↦ Or.inl) (.park rfl rfl)
  | yield w fairnessTick =>
    obtain ⟨x, -, rfl⟩ := Option.map_eq_some_iff.mp h
    unfold State.yield
    split <;> exact .goto rfl (fun _ _ ↦ rfl) (fun _ ↦ Or.inl) rfl rfl
  | finish w =>
    obtain ⟨x, -, rfl⟩ := Option.map_eq_some_iff.mp h
    exact .goto rfl (fun _ _ ↦ rfl) (fun _ ↦ Or.inl) rfl rfl
  | takeLocal w choice =>
    simp only [State.step.eq_def] at h
    split_ifs at h
    split at h
    · rename_i x taken htake
      obtain ⟨hop, hcurrent, hpublished⟩ := op_takeLocal htake
      have hgoto := congrArg (fun f ↦ Function.update f (.worker w) (.found x)) hop
      exact Option.some.inj h ▸ .goto hgoto (fun v _ ↦ congrFun hcurrent v)
        (fun y hy ↦ Or.inl (hpublished ▸ hy)) rfl rfl
    · rename_i taken htake
      obtain ⟨hop, hcurrent, hpublished⟩ := op_takeLocal htake
      have hgoto := congrArg (fun f ↦ Function.update f (.worker w) .idle) hop
      exact Option.some.inj h ▸ .goto hgoto (fun v _ ↦ congrFun hcurrent v)
        (fun y hy ↦ Or.inl (hpublished ▸ hy)) rfl rfl
  | popInjection w | steal w victim start | stealBlock w victim start count =>
    simp only [State.step.eq_def] at h
    split_ifs at h
    split at h
    · cases h
    · exact Option.some.inj h ▸ .goto rfl (fun _ _ ↦ rfl) (fun _ ↦ Or.inl) rfl rfl
  | setGathering w gathering =>
    simp only [State.step.eq_def] at h
    split_ifs at h
    exact Option.some.inj h ▸ .refl rfl rfl rfl
  | placeGathered w keepFirst feedPeers hasLocalWork =>
    simp only [State.step.eq_def] at h
    split_ifs at h
    obtain rfl := Option.some.inj h
    unfold State.placeGathered
    dsimp only
    split
    · exact .refl rfl rfl rfl
    · exact .of_update rfl (fun _ _ ↦ rfl) (fun _ ↦ Or.inl) (After.acts_next _)
    · exact .goto rfl (fun _ _ ↦ rfl) (fun _ ↦ Or.inl) rfl rfl
    · exact .of_update rfl (fun _ _ ↦ rfl) (fun _ ↦ Or.inl) (After.acts_next _)
  | reap w x =>
    simp only [State.step.eq_def] at h
    split_ifs at h
    exact Option.some.inj h ▸ .of_update rfl (fun _ _ ↦ rfl) (fun _ ↦ Or.inl) (.reap w x rfl)
  | advance a choice => exact moves_advance h

omit [DecidableEq τ] in
theorem returned_enter {op : Op τ} (h : s.enter a op = some t) : (s.op a).returned = true := by
  unfold State.enter at h
  split at h
  case h_4 => cases h
  all_goals simp only [Op.returned, *]

/-- An agent that is inside a call begins nothing else. -/
theorem returned_of_step {c : Config} (h : s.step c action = some t)
    (hadvance : ∀ a choice, action ≠ .advance a choice) :
    (s.op action.agent).returned = true := by
  have hidle {w : Fin n} (hop : s.op (.worker w) = .idle) : (s.op (.worker w)).returned = true := by
    rw [hop]
    rfl
  cases action with
  | wake a x =>
    simp only [State.step.eq_def] at h
    split_ifs at h
    exact returned_enter h
  | spawn a x =>
    simp only [State.step.eq_def] at h
    split_ifs at h
    have hreturned := returned_enter h
    exact hreturned
  | shield w | pinToCurrentWorker w | unpin w | park w | yield w fairnessTick | finish w =>
    obtain ⟨x, hx, -⟩ := Option.map_eq_some_iff.mp h
    exact hidle (State.of_runningTask hx).1
  | unshield w =>
    obtain ⟨x, hx, -⟩ := Option.map_eq_some_iff.mp h
    exact hidle (State.of_runningTask (Option.filter_eq_some_iff.mp hx).1).1
  | takeLocal w choice | popInjection w | steal w victim start | stealBlock w victim start count
  | placeGathered w keepFirst feedPeers hasLocalWork =>
    simp only [State.step.eq_def] at h
    split_ifs at h with hin
    exact hidle (State.of_inDispatcher hin).1
  | reap w x =>
    simp only [State.step.eq_def] at h
    split_ifs at h with hin
    exact hidle (State.of_inDispatcher hin.1).1
  | setGathering w gathering =>
    simp only [State.step.eq_def] at h
    split_ifs at h with hin
    exact hidle (State.op_of_isIdle hin.1)
  | advance a choice => exact absurd rfl (hadvance a choice)

omit [DecidableEq κ] [DecidableEq τ] in
theorem Op.not_wakes_of_returned {op : Op τ} (h : op.returned = true) : ¬ op.wakes x := by
  cases op <;> simp_all [Op.returned, Op.wakes]

theorem wakes_wakeRead (hlive : s.parkState x ≠ .done) :
    ((s.wakeRead a x).op a).wakes x ∨ (s.wakeRead a x).parkState x = .notified := by
  unfold State.wakeRead
  split
  · rename_i hstate
    exact Or.inr hstate
  · rename_i hstate
    exact absurd hstate hlive
  · left
    simp [Op.wakes]

/-- A wake in progress goes on until the task has its token. -/
theorem wakes_step {c : Config} (hwakes : (s.op a).wakes x) (hlive : s.parkState x ≠ .done)
    (h : s.step c action = some t) : (t.op a).wakes x ∨ t.parkState x = .notified := by
  by_cases hagent : a = action.agent
  · subst hagent
    by_cases hadvance : ∀ a choice, action ≠ .advance a choice
    · have hreturned := returned_of_step h hadvance
      exact absurd hwakes (Op.not_wakes_of_returned hreturned)
    · push Not at hadvance
      obtain ⟨a, choice, rfl⟩ := hadvance
      change s.advance c a choice = some t at h
      change (s.op a).wakes x at hwakes
      cases hop : s.op a with
      | wakeLoad y =>
        rw [hop] at hwakes
        obtain rfl : y = x := hwakes
        simp only [State.advance.eq_def, hop, Option.some.injEq] at h
        subst h
        exact wakes_wakeRead hlive
      | wakeSwap y seen =>
        rw [hop] at hwakes
        obtain rfl : y = x := hwakes
        simp only [State.advance.eq_def, hop, Option.some.injEq] at h
        subst h
        unfold State.wakeSwap
        split_ifs
        · exact Or.inr (by simp)
        · exact Or.inr (by simp)
        · exact wakes_wakeRead hlive
      | _ =>
        rw [hop] at hwakes
        exact hwakes.elim
  · left
    rw [(moves_step h).op a hagent]
    exact hwakes

/-! ### Tasks on their way to run -/

/-- The task is on its way to run, or has a token. -/
def Roused (v : View) : Prop :=
  v.parkState = .notified ∨ v.kind = some .stirring ∨ v.kind = some .pending ∨ v.kind = some .queued

/-- A task that is roused stays so until its `park` returns. -/
theorem Roused.next {v v' : View} (hroused : Roused v) (hok : v.Ok) (hpublished : v.published = true)
    (hcalm : v.kind = some .running → v.parking = false) (hleaving : v.kind ≠ some .leaving)
    (h : v' = v ∨ Transition v v') (husual : ¬ Unusual v v')
    (hstill : v'.parking = true ∨ (v.kind = some .running ∧ v'.kind = some .running)) :
    Roused v' := by
  rcases h with rfl | h
  · exact hroused
  · obtain ⟨hasleep, -, -, -, -, -, -, -⟩ := hok
    cases h <;> simp only [Roused, Unusual] at * <;> grind -linarith

/-- A task that is in a `park` does not leave without its `park` having returned. -/
theorem not_leaving_next {v v' : View} (hleaving : v.kind ≠ some .leaving)
    (hcalm : v.kind = some .running → v.parking = false) (h : v' = v ∨ Transition v v')
    (husual : ¬ Unusual v v')
    (hstill : v'.parking = true ∨ (v.kind = some .running ∧ v'.kind = some .running)) :
    v'.kind ≠ some .leaving := by
  rcases h with rfl | h
  · exact hleaving
  · cases h <;> simp only [Unusual] at * <;> grind -linarith

/-- A task that runs is not in a `park` it has switched out in. -/
theorem calm_next {v v' : View} (hcalm : v.kind = some .running → v.parking = false)
    (h : v' = v ∨ Transition v v') : v'.kind = some .running → v'.parking = false := by
  rcases h with rfl | h
  · exact hcalm
  · cases h <;> grind -linarith

/-- A task that leaves is not in a `park`, unless the reaper drops it. -/
theorem calm_leaving_next {v v' : View} (hleaving : v.kind = some .leaving → v.parking = false)
    (hcalm : v.kind = some .running → v.parking = false) (h : v' = v ∨ Transition v v')
    (husual : ¬ (v.kind = some .parking ∧ v'.kind = some .leaving)) :
    v'.kind = some .leaving → v'.parking = false := by
  rcases h with rfl | h
  · exact hleaving
  · cases h <;> grind -linarith

/-- A task that has switched out in `park` is still there, or was resumed. -/
theorem parking_next {v v' : View} (hparking : v.parking = true) (hpublished : v.published = true)
    (hcalm : v.kind = some .running → v.parking = false) (hleaving : v.kind ≠ some .leaving)
    (h : v' = v ∨ Transition v v') (husual : ¬ Unusual v v') :
    (v'.parking = true ∧ v'.published = true ∧ v'.resumed = v.resumed) ∨
      v'.resumed = v.resumed + 1 := by
  rcases h with rfl | h
  · exact Or.inl ⟨hparking, hpublished, rfl⟩
  · cases h <;> simp only [Unusual] at * <;> grind -linarith

theorem resumed_next {v v' : View} (h : v' = v ∨ Transition v v') : v.resumed ≤ v'.resumed := by
  rcases h with rfl | h
  · exact le_refl _
  · cases h <;> simp

end Stackfull.Sched.Tasks

namespace Stackfull.Sched.Sweep

open Stackfull.Lib
open Stackfull.Sched.Tasks

universe u v

variable {n m : ℕ} {κ : Type u} {τ : Type v} [DecidableEq κ] [DecidableEq τ]

/-! ### What `stop` has done so far -/

/-- `wakeAllParked` has still to look at the task's slot, or to wake the task. -/
def State.Ahead (s : State n m κ τ) (x : τ) : Prop :=
  ∃ i, s.slots i = some x ∧
    match s.stop with
    | .looking _ index => index ≤ i
    | .waking caller index => index < i ∨ index = i ∧ (s.tasks.op caller).wakes x
    | _ => False

/-- The kind of a task's place. -/
def kindOf (place : τ → Option (Place n κ)) (x : τ) : Option Kind :=
  (place x).map Place.kind

/-- What holds in every reachable state: who is in a `park` since before `stopping` was set has been
woken, or is still to be woken by `wakeAllParked`, and nobody reaps before that is done. -/
structure Swept (s : State n m κ τ) (place : τ → Option (Place n κ)) : Prop where
  control : Control s.tasks
  tracked : Tracked s.tasks place
  calm : ∀ x, kindOf place x = some .running → s.tasks.history.parking x = false
  calmLeaving : s.parkedWoken = false → ∀ x, kindOf place x = some .leaving →
    s.tasks.history.parking x = false
  slots : ∀ x, s.tasks.published x = true → ∃ i, s.slots i = some x
  quiet : s.parkedWoken = false → ∀ b, (s.tasks.op b).reaping = false
  held : ∀ b x, (s.tasks.op b).reaps = some x → s.early x = false
  woken : s.parkedWoken = true → s.stop = .returned
  called : s.stop ≠ .notCalled → s.stopping = true
  stopped : s.stopping = false →
    s.parkedWoken = false ∧ ∀ x, s.early x = false ∧ s.asleep x = false
  inPark : ∀ x, s.early x = true → s.tasks.inPark x = true
  notLeaving : ∀ x, s.early x = true → kindOf place x ≠ some .leaving
  roused : ∀ x, s.early x = true → Roused (s.tasks.view (kindOf place x) x) ∨ s.Ahead x
  asleep : ∀ x, s.asleep x = true → s.runs x < s.tasks.history.resumed x ∨
    s.early x = true ∧ s.tasks.history.parking x = true ∧ s.runs x = s.tasks.history.resumed x

variable {s t : State n m κ τ} {place place' : τ → Option (Place n κ)} {x : τ}

omit [DecidableEq κ] [DecidableEq τ] in
/-- Nobody holds a task of a `park` that `wakeAllParked` has still to look at. -/
theorem State.Ahead.not_returned (h : s.Ahead x) : s.stop ≠ .returned := by
  intro hstop
  obtain ⟨i, -, hahead⟩ := h
  rw [hstop] at hahead
  exact hahead

omit [DecidableEq κ] in
/-- A task that is in a `park` is published. -/
theorem published_of_inPark {u : Tasks.State n κ τ} (h : u.inPark x = true) :
    u.published x = true := by
  simp only [Tasks.State.inPark, Bool.and_eq_true] at h
  exact h.1

omit [DecidableEq κ] in
/-- A task in a `park` has switched out, or its worker is inside the call. -/
theorem inPark_cases {u : Tasks.State n κ τ} (h : u.inPark x = true) :
    u.history.parking x = true ∨ ∃ w, u.current w = some x ∧ (u.op (.worker w)).parks = true := by
  simp only [Tasks.State.inPark, Bool.and_eq_true, Bool.or_eq_true, decide_eq_true_eq] at h
  exact h.2

omit [DecidableEq τ] in
/-- A worker inside a `park` runs the task it ran. -/
theorem current_of_parks {u v : Tasks.State n κ τ} {action : Tasks.Action n κ τ} {w : Fin n}
    (h : Moves u v action) (hparks : (v.op (.worker w)).parks = true) :
    v.current w = u.current w := by
  by_cases hagent : (.worker w : Agent n κ) = action.agent
  · have hacts := h.acts
    rw [← hagent] at hacts
    generalize hold : u.op (.worker w) = old at hacts
    generalize hnew : v.op (.worker w) = new at hacts hparks
    cases hacts with
    | same hcurrent => rw [hcurrent]
    | plain hnot _ => simp [hnot] at hparks
    | park hcurrent _ => rw [hcurrent]
    | reap | claim | putBack | store => nomatch hparks
  · exact h.current w hagent

/-- The running task of a worker is where it runs. -/
theorem kindOf_current {u : Tasks.State n κ τ} (h : Tracked u place) {w : Fin n}
    (hx : u.current w = some x) : place x = some (.running w) := by
  have hcontents : x ∈ u.contents (.running w) := Option.mem_toList.mpr hx
  exact h.located.mem_iff.mp hcontents

omit [DecidableEq κ] [DecidableEq τ] in
theorem parks_next (after : After τ) : after.next.parks = false := by
  rcases after with _ | _ | ⟨_ | _, _ | _, _ | _⟩ | _ | ⟨_, _ | _⟩ <;> rfl

/-! ### A step of the tasks -/

variable {u : Tasks.State n κ τ} {action : Tasks.Action n κ τ} {c : Config}

/-- Nothing unusual happens to a task that was in a `park` when `stopping` was set, and still is. -/
theorem Swept.usual (h : Swept s place) (hnext : Evolves s.tasks u place place' x)
    (hearly : s.early x = true) (hin : u.inPark x = true) :
    ¬ Unusual (s.tasks.view (kindOf place x) x) (u.view (kindOf place' x) x) := by
  intro hunusual
  obtain ⟨w, hreap | ⟨-, hcurrent, hsame, hop⟩⟩ := hnext.cause hunusual
  · have hnot := h.held (.worker w) x (by rw [hreap]; rfl)
    simp [hnot] at hearly
  · have hplace := kindOf_current h.tracked hcurrent
    have hrunning : kindOf place' x = some .running := by
      rcases hunusual with ⟨-, hrunning, -, -⟩ | ⟨hparking, -⟩
      · exact hrunning
      · simp [Tasks.State.view, kindOf, hplace, Place.kind] at hparking
    rcases inPark_cases hin with hparking | ⟨v, hv, hparks⟩
    · have hcalm := calm_next (h.calm x) hnext.view hrunning
      have hcalm : u.history.parking x = false := hcalm
      simp [hcalm] at hparking
    · rw [hsame] at hv
      have hplace' := kindOf_current h.tracked hv
      rw [hplace] at hplace'
      obtain rfl := Place.running.inj (Option.some.inj hplace')
      rw [hop, parks_next] at hparks
      cases hparks

/-- Nothing unusual happens to a task that has switched out in a `park` since before `stopping` was
set. -/
theorem Swept.usual_of_parking (h : Swept s place) (hnext : Evolves s.tasks u place place' x)
    (hearly : s.early x = true) (hparking : s.tasks.history.parking x = true) :
    ¬ Unusual (s.tasks.view (kindOf place x) x) (u.view (kindOf place' x) x) := by
  intro hunusual
  obtain ⟨w, hreap | ⟨-, hcurrent, -, -⟩⟩ := hnext.cause hunusual
  · have hnot := h.held (.worker w) x (by rw [hreap]; rfl)
    simp [hnot] at hearly
  · have hplace := kindOf_current h.tracked hcurrent
    have hcalm := h.calm x (by simp [kindOf, hplace, Place.kind])
    simp [hcalm] at hparking

/-- A task that is still in the same `park` has switched out, or runs on. -/
theorem Swept.still (h : Swept s place) (hmoves : Moves s.tasks u action) (htracked : Tracked u place')
    (hin : u.inPark x = true) :
    (u.view (kindOf place' x) x).parking = true ∨
      (s.tasks.view (kindOf place x) x).kind = some .running ∧
        (u.view (kindOf place' x) x).kind = some .running := by
  rcases inPark_cases hin with hparking | ⟨w, hw, hparks⟩
  · exact Or.inl hparking
  · right
    have hcurrent := current_of_parks hmoves hparks
    rw [hw] at hcurrent
    have hold := kindOf_current h.tracked hcurrent.symm
    have hnew := kindOf_current htracked hw
    simp [Tasks.State.view, kindOf, hold, hnew, Place.kind]

omit [DecidableEq κ] [DecidableEq τ] in
/-- A task that stays published stays in its slot. -/
theorem slots_next {slot i : Fin m} (hallows : s.allows slot action = true)
    (hx : u.published x = true) (hi : s.slots i = some x) : s.place slot u action i = some x := by
  unfold State.place
  split
  · rename_i b y
    have hnone : s.slots slot = none := by
      simpa [State.allows] using hallows
    have hne : i ≠ slot := by
      rintro rfl
      rw [hnone] at hi
      nomatch hi
    rw [Function.update_of_ne hne]
    exact hi
  · simp [hi, hx]

/-- A task that `wakeAllParked` has still to wake. -/
theorem Swept.ahead (h : Swept s place) {slot : Fin m} (hallows : s.allows slot action = true)
    (hstep : s.tasks.step c action = some u) (hx : s.tasks.published x = true)
    (hx' : u.published x = true) (hahead : s.Ahead x) :
    u.parkState x = .notified ∨
      State.Ahead { s with tasks := u, slots := s.place slot u action } x := by
  obtain ⟨i, hi, hindex⟩ := hahead
  have hslot := slots_next hallows hx' hi
  have hlive : s.tasks.parkState x ≠ .done := (h.tracked.ok x).live hx
  cases hstop : s.stop with
  | looking caller index =>
    rw [hstop] at hindex
    exact Or.inr ⟨i, hslot, hindex⟩
  | waking caller index =>
    rw [hstop] at hindex
    rcases hindex with hlater | ⟨rfl, hwakes⟩
    · exact Or.inr ⟨i, hslot, Or.inl hlater⟩
    · rcases wakes_step hwakes hlive hstep with hwakes | hnotified
      · exact Or.inr ⟨i, hslot, Or.inr ⟨rfl, hwakes⟩⟩
      · exact Or.inl hnotified
  | notCalled | returned =>
    rw [hstop] at hindex
    exact hindex.elim

/-- The reaper claims no task that was in a `park` when `stopping` was set. -/
theorem Swept.held_next (h : Swept s place) (hmoves : Moves s.tasks u action) (b : Agent n κ)
    (hreaps : (u.op b).reaps = some x) : s.early x = false := by
  by_cases hagent : b = action.agent
  · subst hagent
    have hacts := hmoves.acts
    generalize hold : s.tasks.op action.agent = old at hacts
    generalize hnew : u.op action.agent = new at hacts hreaps
    cases hacts with
    | same => exact h.held action.agent x (by rw [hold]; exact hreaps)
    | plain _ hreaping | park _ hreaping =>
      rw [Op.reaps_eq_none hreaping] at hreaps
      cases hreaps
    | reap | store => cases hreaps
    | putBack y =>
      obtain rfl := Option.some.inj hreaps
      exact h.held action.agent y (by rw [hold]; rfl)
    | claim y hparked =>
      obtain rfl := Option.some.inj hreaps
      by_contra hearly
      rw [Bool.not_eq_false] at hearly
      have hkind : kindOf place y = none := ((h.tracked.ok y).asleep.mp hparked).2
      rcases h.roused y hearly with hroused | hahead
      · simp [Roused, Tasks.State.view, hkind, hparked] at hroused
      · have hwoken : s.parkedWoken = false := by
          by_contra hwoken
          rw [Bool.not_eq_false] at hwoken
          exact hahead.not_returned (h.woken hwoken)
        have hquiet := h.quiet hwoken action.agent
        rw [hold] at hquiet
        cases hquiet
  · rw [hmoves.op b hagent] at hreaps
    exact h.held b x hreaps

/-- Nobody begins to reap before `parkedWoken` is set. -/
theorem Swept.quiet_next (h : Swept s place) {slot : Fin m} (hallows : s.allows slot action = true)
    (hmoves : Moves s.tasks u action) (hwoken : s.parkedWoken = false) (b : Agent n κ) :
    (u.op b).reaping = false := by
  have hquiet := h.quiet hwoken b
  by_cases hagent : b = action.agent
  · subst hagent
    have hacts := hmoves.acts
    generalize s.tasks.op action.agent = old at hacts hquiet
    generalize u.op action.agent = new at hacts
    cases hacts with
    | same => exact hquiet
    | plain _ hreaping | park _ hreaping => exact hreaping
    | reap w y haction =>
      subst haction
      simp [State.allows, hwoken] at hallows
    | claim | putBack | store => nomatch hquiet
  · rw [hmoves.op b hagent]
    exact hquiet

/-- Whatever happens to the tasks keeps what `stop` has done. -/
theorem Swept.act (h : Swept s place) {slot : Fin m} (hstep : s.act c action slot = some t) :
    ∃ place', Swept t place' := by
  unfold State.act at hstep
  split_ifs at hstep with hallows
  obtain ⟨u, hu, rfl⟩ := Option.map_eq_some_iff.mp hstep
  obtain ⟨hcontrol, place', htracked, hnext⟩ := next_step h.control h.tracked hu
  have hmoves := moves_step hu
  refine ⟨place', hcontrol, htracked, ?_, ?_, ?_, ?_, ?_, h.woken, h.called, ?_, ?_, ?_, ?_, ?_⟩
  · exact fun x ↦ calm_next (h.calm x) (hnext x).view
  · intro hwoken x
    refine calm_leaving_next (h.calmLeaving hwoken x) (h.calm x) (hnext x).view ?_
    rintro ⟨hparking, hleaving⟩
    obtain ⟨w, hreap | ⟨-, hcurrent, -, -⟩⟩ := (hnext x).cause (Or.inr ⟨hparking, Or.inr hleaving⟩)
    · have hquiet := h.quiet hwoken (.worker w)
      rw [hreap] at hquiet
      nomatch hquiet
    · have hplace := kindOf_current h.tracked hcurrent
      simp [Tasks.State.view, hplace, Place.kind] at hparking
  · intro x hx
    rcases hmoves.published x hx with hold | ⟨b, rfl⟩
    · obtain ⟨i, hi⟩ := h.slots x hold
      exact ⟨i, slots_next hallows hx hi⟩
    · exact ⟨slot, by simp [State.place]⟩
  · exact h.quiet_next hallows hmoves
  · intro b x hreaps
    simp [h.held_next hmoves b hreaps]
  · intro hstopping
    obtain ⟨hwoken, hnone⟩ := h.stopped hstopping
    exact ⟨hwoken, fun x ↦ ⟨by simp [(hnone x).1], (hnone x).2⟩⟩
  · intro x hx
    simp only [Bool.and_eq_true] at hx
    exact hx.2
  · intro x hx
    simp only [Bool.and_eq_true] at hx
    exact not_leaving_next (h.notLeaving x hx.1) (h.calm x) (hnext x).view
      (h.usual (hnext x) hx.1 hx.2) (h.still hmoves htracked hx.2)
  · intro x hx
    simp only [Bool.and_eq_true] at hx
    have hpublished := published_of_inPark (h.inPark x hx.1)
    rcases h.roused x hx.1 with hroused | hahead
    · exact Or.inl (hroused.next (h.tracked.ok x) hpublished (h.calm x) (h.notLeaving x hx.1)
        (hnext x).view (h.usual (hnext x) hx.1 hx.2) (h.still hmoves htracked hx.2))
    · rcases h.ahead hallows hu hpublished (published_of_inPark hx.2) hahead with hnotified | hahead
      · exact Or.inl (Or.inl hnotified)
      · exact Or.inr hahead
  · intro x hx
    have hmono : s.tasks.history.resumed x ≤ u.history.resumed x := resumed_next (hnext x).view
    rcases h.asleep x hx with hran | ⟨hearly, hparking, hruns⟩
    · exact Or.inl (hran.trans_le hmono)
    · have hpublished := published_of_inPark (h.inPark x hearly)
      rcases parking_next hparking hpublished (h.calm x) (h.notLeaving x hearly) (hnext x).view
        (h.usual_of_parking (hnext x) hearly hparking) with ⟨hparking', hpublished', hsame⟩ | hran
      · refine Or.inr ⟨?_, hparking', hruns.trans hsame.symm⟩
        have hin : u.inPark x = true := by
          simp only [Tasks.State.view] at hparking' hpublished'
          simp [Tasks.State.inPark, hparking', hpublished']
        simp [hearly, hin]
      · left
        have hran : u.history.resumed x = s.tasks.history.resumed x + 1 := hran
        show s.runs x < u.history.resumed x
        omega

/-- `stop` sets `stopping`. -/
theorem Swept.begin (h : Swept s place) {caller : Agent n κ} (hstep : s.begin caller = some t) :
    Swept t place := by
  unfold State.begin at hstep
  split_ifs at hstep with hstopping
  obtain rfl := Option.some.inj hstep
  obtain ⟨hwoken, -⟩ := h.stopped (Bool.not_eq_true _ ▸ hstopping)
  have hkind (x : τ) (hin : s.tasks.inPark x = true) : kindOf place x ≠ some .leaving := by
    intro hleaving
    rcases inPark_cases hin with hparking | ⟨w, hw, -⟩
    · simp [h.calmLeaving hwoken x hleaving] at hparking
    · have hplace := kindOf_current h.tracked hw
      simp [kindOf, hplace, Place.kind] at hleaving
  refine ⟨h.control, h.tracked, h.calm, h.calmLeaving, h.slots, h.quiet, ?_, ?_, fun _ ↦ rfl, ?_, ?_,
    hkind, ?_, ?_⟩
  · intro b x hreaps
    rw [Op.reaps_eq_none (h.quiet hwoken b)] at hreaps
    cases hreaps
  · intro hdone
    simp [hwoken] at hdone
  · intro hnot
    cases hnot
  · exact fun x hx ↦ hx
  · intro x hx
    obtain ⟨i, hi⟩ := h.slots x (published_of_inPark hx)
    exact Or.inr ⟨i, hi, Nat.zero_le _⟩
  · intro x hx
    have hparked : s.tasks.parkState x = .parked := by
      simpa using hx
    have hok := h.tracked.ok x
    have hparking : s.tasks.history.parking x = true := hok.slept (Or.inr (Or.inr hparked))
    have hpublished : s.tasks.published x = true := (hok.asleep.mp hparked).1
    exact Or.inr ⟨by simp [Tasks.State.inPark, hparking, hpublished], hparking, rfl⟩

/-- The caller of `stop` begins to wake a task. -/
theorem wakes_of_act {caller : Agent n κ} {slot : Fin m}
    (hstep : s.act c (.wake caller x) slot = some t) :
    (t.tasks.op caller).wakes x ∧ t.stop = s.stop ∧
      ∀ i y, t.slots i = some y → s.slots i = some y := by
  unfold State.act at hstep
  split_ifs at hstep
  obtain ⟨u, hu, rfl⟩ := Option.map_eq_some_iff.mp hstep
  refine ⟨?_, rfl, fun i y hi ↦ (Option.filter_eq_some_iff.mp hi).1⟩
  simp only [Tasks.State.step.eq_def] at hu
  split_ifs at hu
  unfold Tasks.State.enter at hu
  split at hu
  case h_4 => cases hu
  all_goals
    obtain rfl := Option.some.inj hu
    simp [Op.wakes]

/-- `stop` goes on, and every task it has passed is roused. -/
theorem Swept.goto (h : Swept s place) (hcalled : s.stop ≠ .notCalled) (hreturned : s.stop ≠ .returned)
    {stop : Stop n κ} (hahead : ∀ x, s.Ahead x → State.Ahead { s with stop := stop } x) :
    Swept { s with stop := stop } place := by
  refine ⟨h.control, h.tracked, h.calm, h.calmLeaving, h.slots, h.quiet, h.held, ?_, ?_, h.stopped,
    h.inPark, h.notLeaving, fun x hx ↦ (h.roused x hx).imp_right (hahead x), h.asleep⟩
  · exact fun hwoken ↦ absurd (h.woken hwoken) hreturned
  · exact fun _ ↦ h.called hcalled

/-- `wakeAllParked` goes on. -/
theorem Swept.sweep (h : Swept s place) (hstep : s.sweep c = some t) : ∃ place', Swept t place' := by
  unfold State.sweep at hstep
  split at hstep
  · rename_i caller index hstop
    have hcalled : s.stop ≠ .notCalled ∧ s.stop ≠ .returned := by
      rw [hstop]
      exact ⟨nofun, nofun⟩
    split at hstep
    · rename_i hindex
      split at hstep
      · rename_i hnone
        obtain rfl := Option.some.inj hstep
        refine ⟨place, h.goto hcalled.1 hcalled.2 ?_⟩
        rintro x ⟨i, hi, hahead⟩
        rw [hstop] at hahead
        have hne : index ≠ i := by
          rintro rfl
          rw [hnone] at hi
          nomatch hi
        exact ⟨i, hi, Nat.lt_of_le_of_ne hahead hne⟩
      · rename_i x hx
        obtain ⟨v, hv, rfl⟩ := Option.map_eq_some_iff.mp hstep
        obtain ⟨hwakes, hsame, hslots⟩ := wakes_of_act hv
        obtain ⟨place', hact⟩ := h.act hv
        refine ⟨place', hact.goto (by rw [hsame]; exact hcalled.1) (by rw [hsame]; exact hcalled.2) ?_⟩
        rintro y ⟨i, hi, hahead⟩
        rw [hsame, hstop] at hahead
        rcases Nat.lt_or_eq_of_le hahead with hlt | rfl
        · exact ⟨i, hi, Or.inl hlt⟩
        · have hxy := hslots _ y hi
          rw [hx] at hxy
          obtain rfl := Option.some.inj hxy
          exact ⟨i, hi, Or.inr ⟨rfl, hwakes⟩⟩
    · rename_i hindex
      obtain rfl := Option.some.inj hstep
      refine ⟨place, h.control, h.tracked, h.calm, nofun, h.slots, nofun, h.held, fun _ ↦ rfl,
        fun _ ↦ h.called hcalled.1, fun hnot ↦ ?_, h.inPark, h.notLeaving, fun x hx ↦ ?_, h.asleep⟩
      · have hstopping := h.called hcalled.1
        rw [show s.stopping = false from hnot] at hstopping
        nomatch hstopping
      · rcases h.roused x hx with hroused | ⟨i, hi, hahead⟩
        · exact Or.inl hroused
        · rw [hstop] at hahead
          exact absurd (Nat.lt_of_le_of_lt hahead i.isLt) hindex
  · rename_i caller index hstop
    split_ifs at hstep with hreturned
    obtain rfl := Option.some.inj hstep
    refine ⟨place, h.goto (by rw [hstop]; exact nofun) (by rw [hstop]; exact nofun) ?_⟩
    rintro x ⟨i, hi, hahead⟩
    rw [hstop] at hahead
    rcases hahead with hlt | ⟨-, hwakes⟩
    · exact ⟨i, hi, hlt⟩
    · exact absurd hwakes (Op.not_wakes_of_returned hreturned)
  · cases hstep

/-! ### The contract -/

/-- Nobody has called `stop` at first. -/
theorem Swept.initial : Swept (initial : State n m κ τ) fun _ ↦ none where
  control := control_initial
  tracked := ⟨fun p x ↦ by cases p <;> rfl, fun x ↦ by
    constructor <;> simp [Tasks.State.view, Sweep.initial, Tasks.initial]⟩
  calm _ h := nomatch h
  calmLeaving _ _ h := nomatch h
  slots _ h := nomatch h
  quiet _ _ := rfl
  held _ _ h := nomatch h
  woken h := nomatch h
  called h := absurd rfl h
  stopped _ := ⟨rfl, fun _ ↦ ⟨rfl, rfl⟩⟩
  inPark _ h := nomatch h
  notLeaving _ h := nomatch h
  roused _ h := nomatch h
  asleep _ h := nomatch h

/-- What every state reached is like. -/
theorem exists_swept (hs : (system n m κ τ c).Reachable s) : ∃ place, Swept s place := by
  refine System.Reachable.invariant (P := fun s ↦ ∃ place, Swept s place) ?_ ?_ hs
  · rintro _ rfl
    exact ⟨_, Swept.initial⟩
  · rintro s action t ⟨place, h⟩ hstep
    cases action with
    | task action slot => exact h.act hstep
    | stop caller => exact ⟨place, h.begin hstep⟩
    | sweep => exact h.sweep hstep

/-- What is unwound or dropped is a task that a reaper holds and that has no shields. -/
theorem unwound_cases {action : Action n m κ τ} {guards : ℕ} (hstep : step c s action = some t)
    (hx : t.tasks.history.unwound = s.tasks.history.unwound ++ [(x, guards)]) :
    ∃ w, s.tasks.op (.worker w) = .reapShields x ∧ s.tasks.forcedStopShields x = 0 := by
  have hnot (hsame : t.tasks.history.unwound = s.tasks.history.unwound) : False := by
    rw [hsame] at hx
    simpa using congrArg List.length hx
  have hact {v : State n m κ τ} {action : Tasks.Action n κ τ} {slot : Fin m}
      (hv : s.act c action slot = some v)
      (hsame : v.tasks.history.unwound = t.tasks.history.unwound) :
      ∃ w, s.tasks.op (.worker w) = .reapShields x ∧ s.tasks.forcedStopShields x = 0 := by
    unfold State.act at hv
    split_ifs at hv
    obtain ⟨u, hu, rfl⟩ := Option.map_eq_some_iff.mp hv
    rcases unwound_step hu with hnone | ⟨w, choice, y, -, hop, hzero, hadd⟩
    · exact (hnot (hsame.symm.trans hnone)).elim
    · rw [← hsame, hadd, List.append_cancel_left_eq] at hx
      obtain ⟨rfl, -⟩ := Prod.mk.inj (List.singleton_inj.mp hx)
      exact ⟨w, hop, hzero⟩
  cases action with
  | task action slot => exact hact hstep rfl
  | stop caller =>
    simp only [step, State.begin] at hstep
    split_ifs at hstep
    exact (hnot (Option.some.inj hstep ▸ rfl)).elim
  | sweep =>
    simp only [step, State.sweep] at hstep
    split at hstep
    · split at hstep
      · split at hstep
        · exact (hnot (Option.some.inj hstep ▸ rfl)).elim
        · obtain ⟨v, hv, rfl⟩ := Option.map_eq_some_iff.mp hstep
          exact hact hv rfl
      · exact (hnot (Option.some.inj hstep ▸ rfl)).elim
    · split_ifs at hstep
      exact (hnot (Option.some.inj hstep ▸ rfl)).elim
    · cases hstep

/-- A task that a step unwinds or drops is not in a `park` that it was in when `stopping` was set,
has no shields, and has run since `stopping` was set if it was parked then. -/
theorem stop_wakes_before_reaping (hs : (system n m κ τ c).Reachable s) {action : Action n m κ τ}
    {guards : ℕ} (hstep : step c s action = some t)
    (hx : t.tasks.history.unwound = s.tasks.history.unwound ++ [(x, guards)]) :
    s.early x = false ∧ s.tasks.forcedStopShields x = 0 ∧
      (s.asleep x = true → s.runs x < s.tasks.history.resumed x) := by
  obtain ⟨place, h⟩ := exists_swept hs
  obtain ⟨w, hop, hzero⟩ := unwound_cases hstep hx
  have hearly : s.early x = false := h.held (.worker w) x (by rw [hop]; rfl)
  refine ⟨hearly, hzero, fun hasleep ↦ ?_⟩
  rcases h.asleep x hasleep with hran | ⟨hnot, -, -⟩
  · exact hran
  · simp [hearly] at hnot

/-- The running task parks. -/
def parkTask : List (Tasks.Action 1 Unit Unit) :=
  [.park 0, .advance (.worker 0) plain, .advance (.worker 0) plain, .advance (.worker 0) plain]

/-- The woken task runs, and parks again; a reaper claims it. -/
def parkAndClaim : List (Tasks.Action 1 Unit Unit) :=
  [Tasks.Action.popInjection 0, .advance (.worker 0) plain] ++ parkTask ++
    [Tasks.Action.reap 0 (), .advance (.worker 0) plain]

/-- A task parks; `stop` wakes it, it runs and parks again, and a reaper claims it. -/
def parkAgain : List (Action 1 1 Unit Unit) :=
  (runSpawned ++ parkTask).map (Action.task · 0) ++ [Action.stop (.foreign ()), .sweep] ++
    List.replicate 6 (Action.task (.advance (.foreign ()) plain) 0) ++ [Action.sweep, .sweep] ++
    parkAndClaim.map (Action.task · 0)

theorem stop_wakes_before_reaping_parkAgain :
    ∃ s t, (system 1 1 Unit Unit ⟨true⟩).run initial parkAgain = some s ∧
      step ⟨true⟩ s (.task (.advance (.worker 0) plain) 0) = some t ∧
      t.tasks.history.unwound = s.tasks.history.unwound ++ [((), 0)] ∧ s.asleep () = true ∧
      s.early () = false ∧ s.tasks.forcedStopShields () = 0 ∧
        (s.asleep () = true → s.runs () < s.tasks.history.resumed ()) := by
  let s := ((system 1 1 Unit Unit ⟨true⟩).run initial parkAgain).get (by decide +kernel)
  have hs : (system 1 1 Unit Unit ⟨true⟩).run initial parkAgain = some s := (Option.some_get _).symm
  let t := (step ⟨true⟩ s (.task (.advance (.worker 0) plain) 0)).get (by decide +kernel)
  have ht : step ⟨true⟩ s (.task (.advance (.worker 0) plain) 0) = some t := (Option.some_get _).symm
  have hx : t.tasks.history.unwound = s.tasks.history.unwound ++ [((), 0)] := by decide +kernel
  exact ⟨s, t, hs, ht, hx, by decide +kernel,
    stop_wakes_before_reaping (System.reachable_of_run rfl hs) ht hx⟩

end Stackfull.Sched.Sweep
