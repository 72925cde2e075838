import Stackfull.Sched.TasksSafety

/-!
# How tasks leave their workers

A task that has switched out in `park` has called `park` while it ran, and a task that is being
released has ended while it ran or was dropped by the reaper. `Leads` says so of one step: a worker
is about to switch out a task because of a call that the task has made, and a task that is being
released stays so until it is gone.
-/

set_option autoImplicit false
set_option relaxedAutoImplicit false
set_option linter.dupNamespace false

namespace Stackfull.Sched.Tasks

open Stackfull.Lib

universe u v

variable {n : ℕ} {κ : Type u} {τ : Type v}

/-- The hook of the call of `park`, or of the end, that the running task is in. -/
def Op.exits : Op τ → Option Hook
  | .parkStore | .leave .parked _ | .switch .parked _ => some .parked
  | .leave .finished _ | .switch .finished _ => some .finished
  | _ => none

/-- The task that has ended and is being released. -/
def Op.ends : Op τ → List τ
  | .arrived .finished task => [task]
  | .release task => [task]
  | _ => []

/-- The tasks that an agent releases. -/
def State.endsOf (s : State n κ τ) (a : Agent n κ) : List τ :=
  (s.op a).ends ++ (s.after a).leaving

/-- The running task of a worker is in such a call. -/
def State.Exits (s : State n κ τ) (hook : Hook) (x : τ) : Prop :=
  ∃ w, s.current w = some x ∧ (s.op (.worker w)).exits = some hook

/-- A worker drops the task, in a step of this action. -/
def State.Drops (s : State n κ τ) (c : Config) (action : Action n κ τ) (x : τ) : Prop :=
  c.hasExceptions = false ∧ s.forcedStopShields x = 0 ∧
    ∃ w choice, action = .advance (.worker w) choice ∧ s.op (.worker w) = .reapShields x

/-- The running task calls `park`, or ends. -/
def State.Calls (s : State n κ τ) (action : Action n κ τ) (hook : Hook) (x : τ) : Prop :=
  ∃ w, s.runningTask w = some x ∧
    (action = .park w ∧ hook = .parked ∨ action = .finish w ∧ hook = .finished)

/-- The action opens or closes a guard, or spawns a task. -/
def Action.setsGuards : Action n κ τ → Bool
  | .shield _ | .unshield _ | .spawn _ _ => true
  | _ => false

/-- What a step does to tasks that leave their workers, and to their guards. -/
structure Leads (c : Config) (s t : State n κ τ) (action : Action n κ τ) : Prop where
  exits : ∀ hook x, t.Exits hook x → s.Exits hook x ∨ s.Calls action hook x
  parking : ∀ x, t.history.parking x = true → s.history.parking x = true ∨ s.Exits .parked x
  ends : ∀ a x, x ∈ t.endsOf a → x ∈ s.endsOf a ∨ s.Exits .finished x ∨ s.Drops c action x
  stays : ∀ a x, x ∈ s.endsOf a → x ∈ t.endsOf a ∨ t.published x = false
  done : ∀ x, t.parkState x = .done → s.parkState x = .done ∨
    ∃ a choice, action = .advance a choice ∧ s.op a = .release x
  guards : action.setsGuards = false → t.guards = s.guards

variable [DecidableEq κ] {c : Config} {s t : State n κ τ} {a : Agent n κ} {w : Fin n} {x : τ}
  {action : Action n κ τ}

/-- A step in which one agent goes on. -/
theorem Leads.of_agent (hop : ∀ b, b ≠ a → t.op b = s.op b) (hafter : ∀ b, b ≠ a → t.after b = s.after b)
    (hcurrent : ∀ w, .worker w ≠ a → t.current w = s.current w)
    (hexits : ∀ hook x, (t.op a).exits = some hook →
      ∀ w, a = .worker w → t.current w = some x → s.Exits hook x ∨ s.Calls action hook x)
    (hparking : ∀ x, t.history.parking x = true → s.history.parking x = true ∨ s.Exits .parked x)
    (hends : ∀ x, x ∈ t.endsOf a → x ∈ s.endsOf a ∨ s.Exits .finished x ∨ s.Drops c action x)
    (hstays : ∀ x, x ∈ s.endsOf a → x ∈ t.endsOf a ∨ t.published x = false)
    (hdone : ∀ x, t.parkState x = .done → s.parkState x = .done ∨
      ∃ a choice, action = .advance a choice ∧ s.op a = .release x)
    (hguards : action.setsGuards = false → t.guards = s.guards) : Leads c s t action where
  exits := by
    rintro hook x ⟨w, hx, hexit⟩
    by_cases hw : (.worker w : Agent n κ) = a
    · subst hw
      exact hexits hook x hexit w rfl hx
    · rw [hop _ hw] at hexit
      rw [hcurrent w hw] at hx
      exact .inl ⟨w, hx, hexit⟩
  parking := hparking
  ends := by
    intro b x hx
    by_cases hb : b = a
    · subst hb
      exact hends x hx
    · rw [State.endsOf, hop b hb, hafter b hb] at hx
      exact .inl hx
  stays := by
    intro b x hx
    by_cases hb : b = a
    · subst hb
      exact hstays x hx
    · rw [State.endsOf, ← hop b hb, ← hafter b hb] at hx
      exact .inl hx
  done := hdone
  guards := hguards

/-- An agent goes on with an operation of no interest. -/
theorem Leads.goto {op : Op τ} (hop : t.op = Function.update s.op a op) (hafter : t.after = s.after)
    (hguards : action.setsGuards = false → t.guards = s.guards)
    (hcurrent : ∀ w, .worker w ≠ a → t.current w = s.current w)
    (hparking : ∀ x, t.history.parking x = true → s.history.parking x = true)
    (hdone : ∀ x, t.parkState x = .done → s.parkState x = .done)
    (hexits : op.exits = none) (hends : op.ends = []) (hold : (s.op a).ends = []) :
    Leads c s t action := by
  have hsame : t.endsOf a = s.endsOf a := by
    simp only [State.endsOf, hop, hafter, Function.update_self, hends, hold]
  refine .of_agent (fun b hb ↦ ?_) (fun b _ ↦ by rw [hafter]) hcurrent ?_ ?_ ?_ ?_
    (fun x hx ↦ .inl (hdone x hx)) hguards
  · rw [hop, Function.update_of_ne hb]
  · intro hook x hexit
    rw [hop, Function.update_self, hexits] at hexit
    nomatch hexit
  · exact fun x hx ↦ .inl (hparking x hx)
  · exact fun x hx ↦ .inl (hsame ▸ hx)
  · exact fun x hx ↦ .inl (hsame ▸ hx)

omit [DecidableEq κ] in
/-- What an agent goes on with is no such call. -/
theorem After.exits_next (after : After τ) : after.next.exits = Option.none := by
  rcases after with _ | _ | ⟨_ | _, _ | _, _ | _⟩ | _ | ⟨_, _ | _⟩ <;> rfl

omit [DecidableEq κ] in
/-- The task that an agent releases after its call. -/
theorem After.ends_next (after : After τ) :
    after.next.ends ++ after.rest.leaving = after.leaving := by
  rcases after with _ | _ | ⟨_ | _, _ | _, _ | _⟩ | _ | ⟨_, _ | _⟩ <;> rfl

/-- An agent's operation has ended. -/
theorem Leads.ended (hop : t.op = Function.update s.op a (s.after a).next)
    (hafter : t.after = Function.update s.after a (s.after a).rest)
    (hguards : action.setsGuards = false → t.guards = s.guards)
    (hcurrent : ∀ w, .worker w ≠ a → t.current w = s.current w)
    (hparking : ∀ x, t.history.parking x = true → s.history.parking x = true)
    (hdone : ∀ x, t.parkState x = .done → s.parkState x = .done)
    (hold : (s.op a).ends = []) : Leads c s t action := by
  have hsame : t.endsOf a = s.endsOf a := by
    simp only [State.endsOf, hop, hafter, Function.update_self, hold, After.ends_next,
      List.nil_append]
  refine .of_agent (fun b hb ↦ ?_) (fun b hb ↦ ?_) hcurrent ?_ ?_ ?_ ?_
    (fun x hx ↦ .inl (hdone x hx)) hguards
  · rw [hop, Function.update_of_ne hb]
  · rw [hafter, Function.update_of_ne hb]
  · intro hook x hexit
    rw [hop, Function.update_self, After.exits_next] at hexit
    nomatch hexit
  · exact fun x hx ↦ .inl (hparking x hx)
  · exact fun x hx ↦ .inl (hsame ▸ hx)
  · exact fun x hx ↦ .inl (hsame ▸ hx)

/-- An agent with nothing left to do begins something and has something to do after it. -/
theorem Leads.gotoThen {op : Op τ} {after : After τ} (hop : t.op = Function.update s.op a op)
    (hafter : t.after = Function.update s.after a after)
    (hguards : action.setsGuards = false → t.guards = s.guards)
    (hcurrent : ∀ w, .worker w ≠ a → t.current w = s.current w)
    (hparking : ∀ x, t.history.parking x = true → s.history.parking x = true)
    (hdone : ∀ x, t.parkState x = .done → s.parkState x = .done)
    (hexits : op.exits = none) (hends : op.ends ++ after.leaving = s.endsOf a) :
    Leads c s t action := by
  have hsame : t.endsOf a = s.endsOf a := by
    simp only [State.endsOf, hop, hafter, Function.update_self]
    exact hends
  refine .of_agent (fun b hb ↦ ?_) (fun b hb ↦ ?_) hcurrent ?_ ?_ ?_ ?_ ?_ hguards
  · rw [hop, Function.update_of_ne hb]
  · rw [hafter, Function.update_of_ne hb]
  · intro hook x hexit
    rw [hop, Function.update_self, hexits] at hexit
    nomatch hexit
  · exact fun x hx ↦ .inl (hparking x hx)
  · exact fun x hx ↦ .inl (hsame ▸ hx)
  · exact fun x hx ↦ .inl (hsame ▸ hx)
  · exact fun x hx ↦ .inl (hdone x hx)

variable [DecidableEq τ]

omit [DecidableEq κ] in
/-- A task whose word is not set to `Done` is not done. -/
theorem done_setParkState {state : TaskState} (hstate : state ≠ .done) (y : τ)
    (h : (s.setParkState x state).parkState y = .done) : s.parkState y = .done := by
  simp only [State.setParkState] at h
  rcases eq_or_ne y x with rfl | hne
  · rw [Function.update_self] at h
    exact absurd h hstate
  · rwa [Function.update_of_ne hne] at h

omit [DecidableEq κ] in
/-- A task that continues is not in a `park` it has switched out in. -/
theorem parking_carryOn (y : τ) (h : (s.history.carryOn x).parking y = true) :
    s.history.parking y = true := by
  simp only [History.carryOn] at h
  rcases eq_or_ne y x with rfl | hne
  · rw [Function.update_self] at h
    nomatch h
  · rwa [Function.update_of_ne hne] at h

theorem leads_wakeRead (hold : (s.op a).ends = []) : Leads c s (s.wakeRead a x) action := by
  unfold State.wakeRead
  split
  · exact .ended rfl rfl (fun _ ↦ rfl) (fun _ _ ↦ rfl) (fun _ hy ↦ hy) (fun _ hy ↦ hy) hold
  · exact .ended rfl rfl (fun _ ↦ rfl) (fun _ _ ↦ rfl) (fun _ hy ↦ hy) (fun _ hy ↦ hy) hold
  · exact .goto rfl rfl (fun _ ↦ rfl) (fun _ _ ↦ rfl) (fun _ hy ↦ hy) (fun _ hy ↦ hy) rfl rfl hold

omit [DecidableEq κ] [DecidableEq τ] in
/-- `takeLocal` is about the worker's containers. -/
theorem takeLocal_frame {choice : Choice} {task : Option τ}
    (h : s.takeLocal w choice = (task, t)) :
    t.op = s.op ∧ t.after = s.after ∧ t.current = s.current ∧ t.parkState = s.parkState ∧
      t.history = s.history ∧ t.guards = s.guards := by
  unfold State.takeLocal at h
  grind

attribute [local simp] Op.ends

omit [DecidableEq τ] in
/-- The look for the next task keeps the hook. -/
theorem leads_leave {hook : Hook} {fairnessTick : Bool} {choice : Choice}
    (hop : s.op (.worker w) = .leave hook fairnessTick) :
    Leads c s (s.leave w hook fairnessTick choice) action := by
  have hold : (s.op (.worker w)).ends = [] := by
    rw [hop]
    rfl
  have hswitch (next : Option τ) {task : Option τ} {taken : State n κ τ}
      (htake : s.takeLocal w choice = (task, taken)) :
      Leads c s (taken.goto (.worker w) (.switch hook next)) action := by
    obtain ⟨hops, hafter, hcurrent, hstate, hhistory, hguards⟩ := takeLocal_frame htake
    have hsame : (taken.goto (.worker w) (.switch hook next)).endsOf (.worker w) =
        s.endsOf (.worker w) := by
      rw [State.endsOf, State.endsOf, hold]
      simp only [State.goto, Function.update_self, hafter, Op.ends]
    refine .of_agent (a := .worker w) (fun b hb ↦ ?_) (fun b _ ↦ congrFun hafter b)
      (fun v _ ↦ congrFun hcurrent v) ?_ ?_ ?_ ?_ ?_ fun _ ↦ hguards
    · simp only [State.goto, Function.update_of_ne hb, hops]
    · intro other x hexit v hv hx
      obtain rfl := Agent.worker.inj hv
      refine .inl ⟨w, hcurrent ▸ hx, ?_⟩
      simp only [State.goto, Function.update_self] at hexit
      rw [hop]
      cases hook <;> exact hexit
    · exact fun x hx ↦ .inl (hhistory ▸ hx)
    · exact fun x hx ↦ .inl (hsame ▸ hx)
    · exact fun x hx ↦ .inl (hsame ▸ hx)
    · exact fun x hx ↦ .inl (hstate ▸ hx)
  unfold State.leave
  split
  · rename_i next taken htake
    exact hswitch (some next) htake
  · rename_i taken htake
    split_ifs
    · obtain ⟨hops, hafter, hcurrent, hstate, hhistory, hguards⟩ := takeLocal_frame htake
      have hgoto := congrArg (fun f ↦ Function.update f (.worker w) (.yieldPop fairnessTick)) hops
      exact .goto (a := .worker w) hgoto hafter (fun _ ↦ hguards) (fun v _ ↦ congrFun hcurrent v)
        (fun x hx ↦ hhistory ▸ hx) (fun x hx ↦ hstate ▸ hx) rfl rfl hold
    · exact hswitch none htake

omit [DecidableEq κ] [DecidableEq τ] in
/-- An agent changes only what its worker runs. -/
theorem current_of_update {task : Option τ} (hcurrent : t.current = Function.update s.current w task)
    (v : Fin n) (hv : (.worker v : Agent n κ) ≠ .worker w) : t.current v = s.current v := by
  rw [hcurrent, Function.update_of_ne (fun h ↦ hv (congrArg _ h))]

attribute [local simp] Op.exits

/-- A worker switches out the running task. -/
theorem leads_switchOut {hook : Hook} {next : Option τ} (hop : s.op (.worker w) = .switch hook next)
    (hafter : s.after (.worker w) = .none) (h : s.switchOut w hook next = some t) :
    Leads c s t action := by
  unfold State.switchOut at h
  split at h
  · rename_i x hx
    obtain rfl := Option.some.inj h
    have hexit (hhook : (Op.switch hook next).exits = some hook) : s.Exits hook x :=
      ⟨w, hx, by rw [hop]; exact hhook⟩
    refine .of_agent (a := .worker w) (fun b hb ↦ ?_) (fun b hb ↦ ?_) (current_of_update rfl) ?_ ?_ ?_
      ?_ (fun y hy ↦ .inl hy) fun _ ↦ rfl
    · exact Function.update_of_ne hb _ _
    · exact Function.update_of_ne hb _ _
    · intro other y hother
      simp only [State.gotoThen, Function.update_self, Op.exits] at hother
      cases hother
    · intro y hy
      simp only [State.gotoThen] at hy
      split_ifs at hy with hhook
      · subst hhook
        simp only [History.park] at hy
        rcases eq_or_ne y x with rfl | hne
        · exact .inr (hexit rfl)
        · rw [Function.update_of_ne hne] at hy
          exact .inl hy
      · exact .inl hy
    · intro y hy
      have hnone : (next.elim After.none After.found).leaving = [] := by
        cases next <;> rfl
      simp only [State.endsOf, State.gotoThen, Function.update_self, hnone, List.append_nil] at hy
      cases hook with
      | parked | yielded => cases hy
      | finished =>
        obtain rfl := List.mem_singleton.mp hy
        exact .inr (.inl (hexit rfl))
    · intro y hy
      simp only [State.endsOf, hop, hafter] at hy
      cases hy
  · cases h

theorem leads_arrived {hook : Hook} (hop : s.op (.worker w) = .arrived hook x) :
    Leads c s (s.arrived w x hook) action := by
  cases hook with
  | parked =>
    have hold : (s.op (.worker w)).ends = [] := by
      rw [hop]
      rfl
    simp only [State.arrived]
    split_ifs
    · exact .ended rfl rfl (fun _ ↦ rfl) (fun _ _ ↦ rfl) (fun _ hy ↦ hy)
        (done_setParkState (fun h ↦ by cases h)) hold
    · exact .goto rfl rfl (fun _ ↦ rfl) (fun _ _ ↦ rfl) (fun _ hy ↦ hy) (fun _ hy ↦ hy) rfl rfl hold
  | yielded =>
    have hold : (s.op (.worker w)).ends = [] := by
      rw [hop]
      rfl
    simp only [State.arrived]
    split
    · exact .ended rfl rfl (fun _ ↦ rfl) (fun _ _ ↦ rfl) (fun _ hy ↦ hy) (fun _ hy ↦ hy) hold
    · exact .goto rfl rfl (fun _ ↦ rfl) (fun _ _ ↦ rfl) (fun _ hy ↦ hy) (fun _ hy ↦ hy) rfl rfl hold
  | finished =>
    have hsame : (s.goto (.worker w) (.release x)).endsOf (.worker w) = s.endsOf (.worker w) := by
      simp only [State.endsOf, State.goto, Function.update_self, hop, Op.ends]
    refine .of_agent (a := .worker w) (fun b hb ↦ ?_) (fun _ _ ↦ rfl) (fun _ _ ↦ rfl) ?_
      (fun y hy ↦ .inl hy) (fun y hy ↦ .inl (hsame ▸ hy)) (fun y hy ↦ .inl (hsame ▸ hy))
      (fun y hy ↦ .inl hy) fun _ ↦ rfl
    · exact Function.update_of_ne hb _ _
    · intro hook y hexit
      simp only [State.arrived, State.goto, Function.update_self, Op.exits] at hexit
      cases hexit

theorem leads_reapShields {choice : Choice} (hop : s.op (.worker w) = .reapShields x) :
    Leads c s (s.reapShields c w x) (.advance (.worker w) choice) := by
  have hold : (s.op (.worker w)).ends = [] := by
    rw [hop]
    rfl
  unfold State.reapShields
  split_ifs with hshields hexceptions
  · exact .goto rfl rfl (fun _ ↦ rfl) (fun _ _ ↦ rfl) (fun _ hy ↦ hy) (fun _ hy ↦ hy) rfl rfl hold
  · exact .ended rfl rfl (fun _ ↦ rfl) (current_of_update rfl) parking_carryOn (fun _ hy ↦ hy) hold
  · refine .of_agent (a := .worker w) (fun b hb ↦ ?_) (fun _ _ ↦ rfl) (fun _ _ ↦ rfl) ?_
      (fun y hy ↦ .inl hy) ?_ ?_ (fun y hy ↦ .inl hy) fun _ ↦ rfl
    · exact Function.update_of_ne hb _ _
    · intro hook y hexit
      simp only [State.goto, Function.update_self, Op.exits] at hexit
      cases hexit
    · intro y hy
      simp only [State.endsOf, State.goto, Function.update_self, Op.ends, List.mem_append,
        List.mem_singleton] at hy
      rcases hy with rfl | hy
      · exact .inr (.inr ⟨by simpa using hexceptions, not_not.mp hshields, w, choice, rfl, hop⟩)
      · exact .inl (by rw [State.endsOf, hold]; exact hy)
    · intro y hy
      rw [State.endsOf, hold] at hy
      left
      simp only [State.endsOf, State.goto, Function.update_self]
      exact List.mem_append_right _ hy

/-- A task is gone. -/
theorem leads_release {choice : Choice} (hop : s.op a = .release x) :
    Leads c s (s.release a x) (.advance a choice) := by
  have hends : (s.release a x).endsOf a = (s.after a).leaving := by
    simp only [State.endsOf, State.release, State.ended_op, State.ended_after, Function.update_self]
    exact After.ends_next _
  have hold : s.endsOf a = x :: (s.after a).leaving := by
    simp only [State.endsOf, hop, Op.ends, List.singleton_append]
  refine .of_agent (a := a) (fun b hb ↦ ?_) (fun b hb ↦ ?_) (fun _ _ ↦ rfl) ?_
    (fun y hy ↦ .inl hy) ?_ ?_ ?_ fun _ ↦ rfl
  · exact Function.update_of_ne hb _ _
  · exact Function.update_of_ne hb _ _
  · intro hook y hexit
    simp only [State.release, State.ended_op, Function.update_self] at hexit
    rw [After.exits_next] at hexit
    cases hexit
  · intro y hy
    rw [hends] at hy
    exact .inl (hold ▸ List.mem_cons_of_mem _ hy)
  · intro y hy
    rw [hold] at hy
    rcases List.mem_cons.mp hy with rfl | hrest
    · exact .inr (by simp [State.release])
    · exact .inl (hends ▸ hrest)
  · intro y hy
    rcases eq_or_ne y x with rfl | hne
    · exact .inr ⟨a, choice, rfl, hop⟩
    · left
      simpa [State.release, hne] using hy

theorem leads_advance (hcontrol : Control s) {choice : Choice}
    (h : s.advance c a choice = some t) : Leads c s t (.advance a choice) := by
  have hnone {op : Op τ} (hop : s.op a = op) (hends : op.ends = []) : (s.op a).ends = [] := by
    rw [hop, hends]
  unfold State.advance at h
  split at h
  case h_1 => cases h
  case h_2 x hop =>
    obtain rfl := Option.some.inj h
    unfold State.schedule
    split
    · exact .ended rfl rfl (fun _ ↦ rfl) (fun _ _ ↦ rfl) (fun _ hy ↦ hy) (fun _ hy ↦ hy) (hnone hop rfl)
    · exact .goto rfl rfl (fun _ ↦ rfl) (fun _ _ ↦ rfl) (fun _ hy ↦ hy) (fun _ hy ↦ hy) rfl rfl (hnone hop rfl)
    · split_ifs
      · exact .ended rfl rfl (fun _ ↦ rfl) (fun _ _ ↦ rfl) (fun _ hy ↦ hy) (fun _ hy ↦ hy) (hnone hop rfl)
      · exact .goto rfl rfl (fun _ ↦ rfl) (fun _ _ ↦ rfl) (fun _ hy ↦ hy) (fun _ hy ↦ hy) rfl rfl (hnone hop rfl)
      · exact .goto rfl rfl (fun _ ↦ rfl) (fun _ _ ↦ rfl) (fun _ hy ↦ hy) (fun _ hy ↦ hy) rfl rfl (hnone hop rfl)
  case h_3 hop =>
    obtain rfl := Option.some.inj h
    unfold State.inject
    split
    · exact .goto rfl rfl (fun _ ↦ rfl) (fun _ _ ↦ rfl) (fun _ hy ↦ hy) (fun _ hy ↦ hy) rfl rfl (hnone hop rfl)
    · exact .ended rfl rfl (fun _ ↦ rfl) (fun _ _ ↦ rfl) (fun _ hy ↦ hy) (fun _ hy ↦ hy) (hnone hop rfl)
    · exact .ended rfl rfl (fun _ ↦ rfl) (fun _ _ ↦ rfl) (fun _ hy ↦ hy) (fun _ hy ↦ hy) (hnone hop rfl)
  case h_4 hop => exact Option.some.inj h ▸ leads_wakeRead (hnone hop rfl)
  case h_5 hop =>
    obtain rfl := Option.some.inj h
    unfold State.wakeSwap
    split_ifs
    · exact .goto rfl rfl (fun _ ↦ rfl) (fun _ _ ↦ rfl) (fun _ hy ↦ hy) (done_setParkState (fun h ↦ nomatch h)) rfl rfl
        (hnone hop rfl)
    · exact .ended rfl rfl (fun _ ↦ rfl) (fun _ _ ↦ rfl) (fun _ hy ↦ hy)
        (done_setParkState (fun h ↦ nomatch h)) (hnone hop rfl)
    · exact leads_wakeRead (hnone hop rfl)
  case h_6 hop | h_7 hop | h_8 hop =>
    exact Option.some.inj h ▸ .goto rfl rfl (fun _ ↦ rfl) (fun _ _ ↦ rfl) (fun _ hy ↦ hy)
      (done_setParkState (fun h ↦ nomatch h)) rfl rfl (hnone hop rfl)
  case h_9 hop => exact Option.some.inj h ▸ leads_release hop
  case h_10 hop =>
    obtain rfl := Option.some.inj h
    unfold State.pushLifo
    split
    · exact .goto rfl rfl (fun _ ↦ rfl) (fun _ _ ↦ rfl) (fun _ hy ↦ hy) (fun _ hy ↦ hy) rfl rfl (hnone hop rfl)
    · exact .ended rfl rfl (fun _ ↦ rfl) (fun _ _ ↦ rfl) (fun _ hy ↦ hy) (fun _ hy ↦ hy) (hnone hop rfl)
  case h_11 hop =>
    obtain rfl := Option.some.inj h
    unfold State.pushFifo
    split_ifs <;>
      exact .goto rfl rfl (fun _ ↦ rfl) (fun _ _ ↦ rfl) (fun _ hy ↦ hy) (fun _ hy ↦ hy) rfl rfl (hnone hop rfl)
  case h_12 hop =>
    obtain rfl := Option.some.inj h
    unfold State.overflow
    split_ifs <;>
      exact .goto rfl rfl (fun _ ↦ rfl) (fun _ _ ↦ rfl) (fun _ hy ↦ hy) (fun _ hy ↦ hy) rfl rfl (hnone hop rfl)
  case h_13 hop =>
    exact Option.some.inj h ▸ .goto rfl rfl (fun _ ↦ rfl) (fun _ _ ↦ rfl) (fun _ hy ↦ hy) (fun _ hy ↦ hy) rfl rfl
      (hnone hop rfl)
  case h_14 hop =>
    exact Option.some.inj h ▸ .ended rfl rfl (fun _ ↦ rfl) (current_of_update rfl) parking_carryOn
      (fun _ hy ↦ hy) (hnone hop rfl)
  case h_15 hop =>
    unfold State.parkStore at h
    split at h
    · exact Option.some.inj h ▸ .ended rfl rfl (fun _ ↦ rfl) (fun _ _ ↦ rfl) (fun _ hy ↦ hy)
        (done_setParkState (fun h ↦ nomatch h)) (hnone hop rfl)
    · cases h
  case h_16 hop => exact Option.some.inj h ▸ leads_leave hop
  case h_17 hop =>
    obtain rfl := Option.some.inj h
    unfold State.yieldPop
    split
    · exact .goto rfl rfl (fun _ ↦ rfl) (fun _ _ ↦ rfl) (fun _ hy ↦ hy) (fun _ hy ↦ hy) rfl rfl (hnone hop rfl)
    · split_ifs
      · exact .goto rfl rfl (fun _ ↦ rfl) (fun _ _ ↦ rfl) (fun _ hy ↦ hy) (fun _ hy ↦ hy) rfl rfl (hnone hop rfl)
      · exact .ended rfl rfl (fun _ ↦ rfl) (fun _ _ ↦ rfl) (fun _ hy ↦ hy) (fun _ hy ↦ hy) (hnone hop rfl)
  case h_18 hop =>
    refine leads_switchOut hop ((hcontrol _).last ?_) h
    rw [hop]
    rfl
  case h_19 hop => exact Option.some.inj h ▸ leads_arrived hop
  case h_20 hop =>
    obtain rfl := Option.some.inj h
    unfold State.reapClaim
    split_ifs
    · exact .goto rfl rfl (fun _ ↦ rfl) (fun _ _ ↦ rfl) (fun _ hy ↦ hy) (done_setParkState (fun h ↦ nomatch h)) rfl rfl
        (hnone hop rfl)
    · exact .ended rfl rfl (fun _ ↦ rfl) (fun _ _ ↦ rfl) (fun _ hy ↦ hy) (fun _ hy ↦ hy) (hnone hop rfl)
  case h_21 hop => exact Option.some.inj h ▸ leads_reapShields hop
  case h_22 hop =>
    obtain rfl := Option.some.inj h
    unfold State.reapPutBack
    split_ifs
    · exact .ended rfl rfl (fun _ ↦ rfl) (fun _ _ ↦ rfl) (fun _ hy ↦ hy)
        (done_setParkState (fun h ↦ nomatch h)) (hnone hop rfl)
    · exact .goto rfl rfl (fun _ ↦ rfl) (fun _ _ ↦ rfl) (fun _ hy ↦ hy) (fun _ hy ↦ hy) rfl rfl (hnone hop rfl)
  case h_23 => cases h

omit [DecidableEq τ] in
/-- A call that is no `park`. -/
theorem leads_enter {u : State n κ τ} {op : Op τ} (hop : u.op = s.op) (hafter : u.after = s.after)
    (hcurrent : u.current = s.current) (hguards : action.setsGuards = false → u.guards = s.guards)
    (hparking : ∀ x, u.history.parking x = true → s.history.parking x = true)
    (hdone : ∀ x, u.parkState x = .done → s.parkState x = .done) (hexits : op.exits = none)
    (hends : op.ends = []) (h : u.enter a op = some t) : Leads c s t action := by
  have hcurrent' (v : Fin n) (_ : (.worker v : Agent n κ) ≠ a) : u.current v = s.current v := by
    rw [hcurrent]
  unfold State.enter at h
  split at h
  · rename_i hidle
    obtain rfl := Option.some.inj h
    rw [hop] at hidle
    have hgoto := congrArg (fun f ↦ Function.update f a op) hop
    exact .goto hgoto hafter hguards hcurrent' hparking hdone hexits hends (by rw [hidle]; rfl)
  · rename_i x hrelease hnone
    obtain rfl := Option.some.inj h
    rw [hop] at hrelease
    rw [hafter] at hnone
    have hgoto := congrArg (fun f ↦ Function.update f a op) hop
    have hthen := congrArg (fun f ↦ Function.update f a (.releasing x none)) hafter
    refine .gotoThen hgoto hthen hguards hcurrent' hparking hdone hexits ?_
    rw [State.endsOf, hrelease, hnone, hends]
    rfl
  · rename_i x next hrelease hfound
    obtain rfl := Option.some.inj h
    rw [hop] at hrelease
    rw [hafter] at hfound
    have hgoto := congrArg (fun f ↦ Function.update f a op) hop
    have hthen := congrArg (fun f ↦ Function.update f a (.releasing x (some next))) hafter
    refine .gotoThen hgoto hthen hguards hcurrent' hparking hdone hexits ?_
    rw [State.endsOf, hrelease, hfound, hends]
    rfl
  · nomatch h

omit [DecidableEq κ] [DecidableEq τ] in
/-- A step that concerns no operation. -/
theorem Leads.refl (hop : t.op = s.op) (hafter : t.after = s.after) (hcurrent : t.current = s.current)
    (hparking : t.history = s.history) (hdone : t.parkState = s.parkState)
    (hguards : action.setsGuards = false → t.guards = s.guards) : Leads c s t action := by
  have hends (a : Agent n κ) : t.endsOf a = s.endsOf a := by
    rw [State.endsOf, State.endsOf, hop, hafter]
  refine ⟨?_, ?_, ?_, ?_, ?_, hguards⟩
  · rintro hook x ⟨w, hx, hexit⟩
    exact .inl ⟨w, hcurrent ▸ hx, hop ▸ hexit⟩
  · exact fun x hx ↦ .inl (hparking ▸ hx)
  · exact fun a x hx ↦ .inl (hends a ▸ hx)
  · exact fun a x hx ↦ .inl ((hends a).symm ▸ hx)
  · exact fun x hx ↦ .inl (hdone ▸ hx)

omit [DecidableEq τ] in
/-- The running task makes a call that switches it out. -/
theorem leads_call {op : Op τ} {hook : Hook} (hx : s.runningTask w = some x)
    (hop : t.op = Function.update s.op (.worker w) op) (hafter : t.after = s.after)
    (hcurrent : t.current = s.current) (hhistory : t.history = s.history)
    (hstate : t.parkState = s.parkState) (hguards : t.guards = s.guards)
    (hexits : op.exits = some hook) (hends : op.ends = [])
    (hcall : action = .park w ∧ hook = .parked ∨ action = .finish w ∧ hook = .finished) :
    Leads c s t action := by
  obtain ⟨hidle, hrunning⟩ := State.of_runningTask hx
  have hsame : t.endsOf (.worker w) = s.endsOf (.worker w) := by
    rw [State.endsOf, State.endsOf, hop, hafter, Function.update_self, hends, hidle]
    rfl
  refine .of_agent (a := .worker w) (fun b hb ↦ ?_) (fun b _ ↦ by rw [hafter])
    (fun v _ ↦ by rw [hcurrent]) ?_ ?_ ?_ ?_ ?_ fun _ ↦ hguards
  · rw [hop, Function.update_of_ne hb]
  · intro other y hexit v hv hy
    obtain rfl := Agent.worker.inj hv
    rw [hop, Function.update_self, hexits] at hexit
    obtain rfl := Option.some.inj hexit
    rw [hcurrent, hrunning] at hy
    obtain rfl := Option.some.inj hy
    exact .inr ⟨w, hx, hcall⟩
  · exact fun y hy ↦ .inl (hhistory ▸ hy)
  · exact fun y hy ↦ .inl (hsame ▸ hy)
  · exact fun y hy ↦ .inl (hsame ▸ hy)
  · exact fun y hy ↦ .inl (hstate ▸ hy)

/-- What every step does to tasks that leave their workers. -/
theorem leads_step (hcontrol : Control s) (h : s.step c action = some t) : Leads c s t action := by
  have hnone {w : Fin n} (hidle : s.op (.worker w) = .idle) : s.endsOf (.worker w) = [] := by
    have hlast := (hcontrol (.worker w)).last (by rw [hidle]; rfl)
    rw [State.endsOf, hidle, hlast]
    rfl
  have hends {w : Fin n} (hidle : s.op (.worker w) = .idle) : (s.op (.worker w)).ends = [] := by
    rw [hidle]
    rfl
  cases action with
  | wake a x =>
    simp only [State.step.eq_def] at h
    split_ifs at h
    exact leads_enter rfl rfl rfl (fun _ ↦ rfl) (fun _ hy ↦ hy) (fun _ hy ↦ hy) rfl rfl h
  | spawn a x =>
    simp only [State.step.eq_def] at h
    split_ifs at h
    refine leads_enter ?_ ?_ ?_ ?_ ?_ ?_ ?_ ?_ h
    · rfl
    · rfl
    · rfl
    · exact fun hspawn ↦ by cases hspawn
    · intro y hy
      rcases eq_or_ne y x with rfl | hne
      · simp [State.record] at hy
      · simpa [State.record, hne] using hy
    · exact done_setParkState (fun h ↦ by cases h)
    · rfl
    · rfl
  | shield w | unshield w =>
    obtain ⟨x, -, rfl⟩ := Option.map_eq_some_iff.mp h
    exact .refl rfl rfl rfl rfl rfl fun hsets ↦ by cases hsets
  | pinToCurrentWorker w | unpin w =>
    obtain ⟨x, -, rfl⟩ := Option.map_eq_some_iff.mp h
    exact .refl rfl rfl rfl rfl rfl fun _ ↦ rfl
  | park w =>
    obtain ⟨x, hx, rfl⟩ := Option.map_eq_some_iff.mp h
    unfold State.park
    split_ifs <;> exact leads_call hx rfl rfl rfl rfl rfl rfl rfl rfl (.inl ⟨rfl, rfl⟩)
  | yield w fairnessTick =>
    obtain ⟨x, hx, rfl⟩ := Option.map_eq_some_iff.mp h
    have hidle := (State.of_runningTask hx).1
    unfold State.yield
    split
    · exact .gotoThen rfl rfl (fun _ ↦ rfl) (fun _ _ ↦ rfl) (fun _ hy ↦ hy) (fun _ hy ↦ hy) rfl (hnone hidle).symm
    · exact .goto rfl rfl (fun _ ↦ rfl) (fun _ _ ↦ rfl) (fun _ hy ↦ hy) (fun _ hy ↦ hy) rfl rfl (hends hidle)
  | finish w =>
    obtain ⟨x, hx, rfl⟩ := Option.map_eq_some_iff.mp h
    exact leads_call hx rfl rfl rfl rfl rfl rfl rfl rfl (.inr ⟨rfl, rfl⟩)
  | takeLocal w choice =>
    simp only [State.step.eq_def] at h
    split_ifs at h with hin
    have hidle := hends (State.of_inDispatcher hin).1
    split at h
    · rename_i x taken htake
      obtain ⟨hop, hafter, hcurrent, hstate, hhistory, hguards⟩ := takeLocal_frame htake
      have hgoto := congrArg (fun f ↦ Function.update f (.worker w) (.found x)) hop
      exact Option.some.inj h ▸ .goto hgoto hafter (fun _ ↦ hguards) (fun v _ ↦ congrFun hcurrent v)
        (fun y hy ↦ hhistory ▸ hy) (fun y hy ↦ hstate ▸ hy) rfl rfl hidle
    · rename_i taken htake
      obtain ⟨hop, hafter, hcurrent, hstate, hhistory, hguards⟩ := takeLocal_frame htake
      have hgoto := congrArg (fun f ↦ Function.update f (.worker w) .idle) hop
      exact Option.some.inj h ▸ .goto hgoto hafter (fun _ ↦ hguards) (fun v _ ↦ congrFun hcurrent v)
        (fun y hy ↦ hhistory ▸ hy) (fun y hy ↦ hstate ▸ hy) rfl rfl hidle
  | popInjection w | steal w victim start =>
    simp only [State.step.eq_def] at h
    split_ifs at h with hin
    have hidle := hends (State.of_inDispatcher hin).1
    split at h
    · cases h
    · exact Option.some.inj h ▸ .goto rfl rfl (fun _ ↦ rfl) (fun _ _ ↦ rfl) (fun _ hy ↦ hy) (fun _ hy ↦ hy) rfl rfl
        hidle
  | stealBlock w victim start count =>
    simp only [State.step.eq_def] at h
    split_ifs at h with hin
    have hidle := hnone (State.of_inDispatcher hin).1
    split at h
    · cases h
    · exact Option.some.inj h ▸ .gotoThen rfl rfl (fun _ ↦ rfl) (fun _ _ ↦ rfl) (fun _ hy ↦ hy) (fun _ hy ↦ hy) rfl
        hidle.symm
  | setGathering w gathering =>
    simp only [State.step.eq_def] at h
    split_ifs at h
    exact Option.some.inj h ▸ .refl rfl rfl rfl rfl rfl fun _ ↦ rfl
  | placeGathered w keepFirst feedPeers hasLocalWork =>
    simp only [State.step.eq_def] at h
    split_ifs at h with hin
    have hidle := (State.of_inDispatcher hin).1
    obtain rfl := Option.some.inj h
    have hplace (tasks : List τ) (kept : Option τ) :
        Leads c s (State.ended { s with
          gathered := Function.update s.gathered w []
          after := Function.update s.after (.worker w) (.place tasks feedPeers kept) } (.worker w))
          (.placeGathered w keepFirst feedPeers hasLocalWork) := by
      have hself : Function.update s.after (.worker w) (.place tasks feedPeers kept) (.worker w) =
          .place tasks feedPeers kept := Function.update_self _ _ _
      have hop := congrArg (fun p ↦ Function.update s.op (.worker w) p.next) hself
      have hafter : ∀ after, Function.update (Function.update s.after (.worker w)
          (.place tasks feedPeers kept)) (.worker w) after = Function.update s.after (.worker w) after :=
        fun after ↦ Function.update_idem _ _ _
      have hrest := (hafter _).trans
        (congrArg (fun p ↦ Function.update s.after (.worker w) p.rest) hself)
      refine .gotoThen hop hrest (fun _ ↦ rfl) (fun _ _ ↦ rfl) (fun _ hy ↦ hy) (fun _ hy ↦ hy)
        (After.exits_next _) ?_
      rw [After.ends_next, hnone hidle]
      rfl
    unfold State.placeGathered
    dsimp only
    split
    · exact .refl rfl rfl rfl rfl rfl fun _ ↦ rfl
    · exact hplace _ _
    · exact .goto rfl rfl (fun _ ↦ rfl) (fun _ _ ↦ rfl) (fun _ hy ↦ hy) (fun _ hy ↦ hy) rfl rfl (hends hidle)
    · exact hplace _ _
  | reap w x =>
    simp only [State.step.eq_def] at h
    split_ifs at h with hin
    exact Option.some.inj h ▸ .goto rfl rfl (fun _ ↦ rfl) (fun _ _ ↦ rfl) (fun _ hy ↦ hy) (fun _ hy ↦ hy) rfl rfl
      (hends (State.of_inDispatcher hin.1).1)
  | advance a choice => exact leads_advance hcontrol h

end Stackfull.Sched.Tasks
