import Stackfull.Sched.TasksStep

/-!
# What the agents of the scheduler have yet to do

`Control` is kept by every step: nothing is left to do after an operation that overwrites what is
left, the LIFO slot is empty while its next occupant is in hand, an exchange of `wake` has seen a
word it may replace, and a worker that is about to switch to a task executes none.
-/

set_option autoImplicit false
set_option relaxedAutoImplicit false
set_option linter.dupNamespace false

namespace Stackfull.Sched.Tasks

open Stackfull.Lib

universe u v

variable {n : ℕ} {κ : Type u} {τ : Type v} [DecidableEq κ] [DecidableEq τ]
variable {s t : State n κ τ} {a : Agent n κ} {w : Fin n} {x : τ}

/-- The operation overwrites what is left to do. -/
def Op.isLast : Op τ → Bool
  | .idle => true
  | .leave _ _ => true
  | .yieldPop _ => true
  | .switch _ _ => true
  | .found _ => true
  | .reapClaim _ => true
  | .reapShields _ => true
  | .reapPutBack _ => true
  | .reapStore _ => true
  | _ => false

/-- The task that goes to the LIFO slot when the operation has ended. -/
def Op.slot : Op τ → Option τ
  | .pushFifo _ slot => slot
  | .overflow _ slot => slot
  | .inject _ slot => slot
  | _ => none

/-- A worker executes no task during the operation. -/
def Op.inDispatcher : Op τ → Bool
  | .found _ => true
  | .restock _ => true
  | .arrived _ _ => true
  | .parkedStore _ => true
  | .reapClaim _ => true
  | .reapShields _ => true
  | .reapPutBack _ => true
  | .reapStore _ => true
  | .release _ => true
  | _ => false

/-- A worker executes no task before it has come to what is left to do. -/
def After.inDispatcher : After τ → Bool
  | .none => false
  | .yielding => false
  | _ => true

/-- What an agent has yet to do fits the state. -/
structure AgentFits (s : State n κ τ) (a : Agent n κ) : Prop where
  last : (s.op a).isLast = true → s.after a = .none
  slot : (s.op a).slot ≠ none → ∃ w, a = .worker w ∧ s.lifoSlot w = none
  seen : ∀ x seen, s.op a = .wakeSwap x seen → seen = .parked ∨ seen = .running
  dispatch : ∀ w, a = .worker w → (s.op a).inDispatcher = true ∨ (s.after a).inDispatcher = true →
    s.current w = none

/-- What every agent has yet to do fits the state. -/
def Control (s : State n κ τ) : Prop :=
  ∀ a, AgentFits s a

attribute [local simp] Op.inDispatcher

omit [DecidableEq κ] [DecidableEq τ] in
theorem control_initial : Control (initial : State n κ τ) := by
  intro a
  constructor <;> simp [initial, Op.isLast, Op.slot, After.inDispatcher]

omit [DecidableEq κ] [DecidableEq τ] in
/-- An agent changes only its own operation, its own slot and its own switches. -/
theorem Control.update (hs : Control s) (a : Agent n κ)
    (hop : ∀ b, b ≠ a → t.op b = s.op b ∧ t.after b = s.after b)
    (hworker : ∀ w, a ≠ .worker w → t.lifoSlot w = s.lifoSlot w ∧ t.current w = s.current w)
    (ha : AgentFits t a) : Control t := by
  intro b
  by_cases hb : b = a
  · exact hb ▸ ha
  · obtain ⟨hlast, hslot, hseen, hdispatch⟩ := hs b
    obtain ⟨hsame, hsame'⟩ := hop b hb
    constructor <;> grind

/-- Only these fields matter. -/
structure SameControl (s v : State n κ τ) : Prop where
  op : v.op = s.op
  after : v.after = s.after
  lifoSlot : v.lifoSlot = s.lifoSlot
  current : v.current = s.current

omit [DecidableEq κ] [DecidableEq τ] in
theorem Control.same (hs : Control s) (h : SameControl s t) : Control t := by
  intro a
  obtain ⟨hlast, hslot, hseen, hdispatch⟩ := hs a
  obtain ⟨hop, hafter, hlifo, hcurrent⟩ := h
  constructor <;> grind

attribute [local grind] Op.isLast Op.slot Op.inDispatcher After.inDispatcher

omit [DecidableEq τ] in
theorem After.fits (after : After τ) :
    (after.next.isLast = true → after.rest = .none) ∧ after.next.slot = .none ∧
      (∀ x seen, after.next ≠ .wakeSwap x seen) ∧
      (after.next.inDispatcher = true ∨ after.rest.inDispatcher = true →
        after.inDispatcher = true) := by
  rcases after with _ | _ | ⟨_ | _, _ | _, _ | _⟩ | _ | ⟨_, _ | _⟩ <;>
    simp [next, rest, Op.isLast, Op.slot, inDispatcher]

omit [DecidableEq τ] in
/-- An operation has ended. -/
theorem Control.ended (hs : Control s) (a : Agent n κ)
    (hworker : ∀ w, a ≠ .worker w → t.lifoSlot w = s.lifoSlot w ∧ t.current w = s.current w)
    (hop : t.op = s.op) (hafter : t.after = s.after)
    (hcurrent : ∀ w, a = .worker w → (s.after a).inDispatcher = true → t.current w = none) :
    Control (t.ended a) := by
  refine hs.update a ?_ hworker ?_
  · intro b hb
    simp [hb, hop, hafter]
  · obtain ⟨hlast, hslot, hseen, hdispatch⟩ := (s.after a).fits
    constructor
    · simpa [hafter] using hlast
    · simp [hafter, hslot]
    · intro x seen
      simp [hafter, hseen]
    · intro w hw hin
      simp only [State.ended_op, State.ended_after, Function.update_self, hafter] at hin
      exact hcurrent w hw (hdispatch hin)

omit [DecidableEq τ] in
/-- An operation goes on. -/
theorem Control.goto (hs : Control s) (a : Agent n κ) (op : Op τ)
    (hworker : ∀ w, a ≠ .worker w → t.lifoSlot w = s.lifoSlot w ∧ t.current w = s.current w)
    (hop : t.op = s.op) (hafter : t.after = s.after)
    (hlast : op.isLast = true → (s.op a).isLast = true)
    (hslot : op.slot ≠ none → ∃ w, a = .worker w ∧ t.lifoSlot w = none)
    (hseen : ∀ x seen, op = .wakeSwap x seen → seen = .parked ∨ seen = .running)
    (hcurrent : ∀ w, a = .worker w → t.current w = s.current w)
    (hdispatch : op.inDispatcher = true → ∀ w, a = .worker w → s.current w = none) :
    Control (t.goto a op) := by
  refine hs.update a ?_ hworker ?_
  · intro b hb
    simp [hb, hop, hafter]
  · obtain ⟨hlast₀, hslot₀, hseen₀, hdispatch₀⟩ := hs a
    constructor
    · simpa [hafter] using fun h ↦ hlast₀ (hlast h)
    · simpa using hslot
    · simpa using hseen
    · intro w hw hin
      simp only [State.goto_op, State.goto_after, Function.update_self, hafter] at hin
      rw [State.goto_current, hcurrent w hw]
      exact hin.elim (fun h ↦ hdispatch h w hw) fun h ↦ hdispatch₀ w hw (.inr h)

/-- The operation that comes next asks for nothing that the one before it did not. -/
structure Op.Follows (op op' : Op τ) : Prop where
  last : op'.isLast = true → op.isLast = true
  slot : op'.slot ≠ .none → op.slot ≠ .none
  seen : ∀ x seen, op' = .wakeSwap x seen → seen = .parked ∨ seen = .running
  dispatch : op'.inDispatcher = true → op.inDispatcher = true

omit [DecidableEq τ] in
theorem Control.endedSame (hs : Control s) (h : SameControl s t) : Control (t.ended a) := by
  obtain ⟨hop, hafter, hlifo, hcurrent⟩ := h
  refine hs.ended a (fun w _ ↦ by simp [hlifo, hcurrent]) hop hafter fun w hw hin ↦ ?_
  rw [hcurrent]
  exact (hs a).dispatch w hw (.inr hin)

omit [DecidableEq τ] in
theorem Control.gotoSame (hs : Control s) (h : SameControl s t) {op : Op τ}
    (hfollows : (s.op a).Follows op) : Control (t.goto a op) := by
  obtain ⟨hop, hafter, hlifo, hcurrent⟩ := h
  refine hs.goto a op (fun w _ ↦ by simp [hlifo, hcurrent]) hop hafter hfollows.last ?_
    hfollows.seen (fun w _ ↦ by rw [hcurrent]) ?_
  · intro hslot
    rw [hlifo]
    exact (hs a).slot (hfollows.slot hslot)
  · intro hin w hw
    exact (hs a).dispatch w hw (.inl (hfollows.dispatch hin))

theorem control_schedule (hs : Control s) (hop : s.op a = .schedule x) (flag : Bool) :
    Control ((s.record fun h ↦ h.schedule x).schedule a x flag) := by
  unfold State.schedule
  rw [State.record_pinnedTo]
  cases s.pinnedTo x with
  | some target => exact hs.endedSame ⟨rfl, rfl, rfl, rfl⟩
  | none =>
    cases a with
    | foreign =>
      dsimp only
      refine hs.gotoSame ?_ ?_
      · exact ⟨rfl, rfl, rfl, rfl⟩
      · rw [hop]
        constructor <;> grind
    | worker w =>
      dsimp only
      split_ifs
      · exact hs.endedSame ⟨rfl, rfl, rfl, rfl⟩
      · refine hs.gotoSame ?_ ?_
        · exact ⟨rfl, rfl, rfl, rfl⟩
        · rw [hop]
          constructor <;> grind
      · refine hs.gotoSame ?_ ?_
        · exact ⟨rfl, rfl, rfl, rfl⟩
        · rw [hop]
          constructor <;> grind

omit [DecidableEq τ] in
theorem control_pushLifo (hs : Control s) :
    Control (s.pushLifo w x) := by
  unfold State.pushLifo
  cases hslot : s.lifoSlot w with
  | some occupant =>
    refine hs.goto (.worker w) _ (fun v hv ↦ ?_) rfl rfl (by grind) ?_ (by grind) (fun _ _ ↦ rfl)
      (by grind)
    · have hne : v ≠ w := fun heq ↦ hv (heq ▸ rfl)
      simp [hne]
    · exact fun _ ↦ ⟨w, rfl, by simp⟩
  | none =>
    refine hs.ended (.worker w) (fun v hv ↦ ?_) rfl rfl fun v hv hin ↦
      (hs (.worker w)).dispatch v hv (.inr hin)
    have hne : v ≠ w := fun heq ↦ hv (heq ▸ rfl)
    simp [hne]

omit [DecidableEq τ] in
theorem control_inject (hs : Control s) {tasks : List τ} {slot : Option τ}
    (hop : s.op a = .inject tasks slot) : Control (s.inject a tasks slot) := by
  unfold State.inject
  split
  case h_1 =>
    refine hs.gotoSame ?_ ?_
    · exact ⟨rfl, rfl, rfl, rfl⟩
    · rw [hop]
      constructor <;> grind
  case h_2 w =>
    refine hs.ended (.worker w) (fun v hv ↦ ?_) rfl rfl fun v hv hin ↦
      (hs (.worker w)).dispatch v hv (.inr hin)
    have hne : v ≠ w := fun heq ↦ hv (heq ▸ rfl)
    simp [hne]
  case h_3 => exact hs.endedSame ⟨rfl, rfl, rfl, rfl⟩

theorem control_wakeRead (hs : Control s) : Control (s.wakeRead a x) := by
  unfold State.wakeRead
  split
  case h_1 => exact hs.endedSame ⟨rfl, rfl, rfl, rfl⟩
  case h_2 => exact hs.endedSame ⟨rfl, rfl, rfl, rfl⟩
  case h_3 seen hnotified hdone =>
    refine hs.gotoSame ⟨rfl, rfl, rfl, rfl⟩ ⟨by grind, by grind, ?_, by grind⟩
    intro y seen' heq
    cases heq
    cases hstate : s.parkState x <;> simp_all

theorem control_wakeSwap (hs : Control s) {seen : TaskState} (hop : s.op a = .wakeSwap x seen)
    (spurious : Bool) : Control (s.wakeSwap a x seen spurious) := by
  unfold State.wakeSwap
  split_ifs
  · refine hs.gotoSame ?_ ?_
    · exact ⟨rfl, rfl, rfl, rfl⟩
    · rw [hop]
      constructor <;> grind
  · exact hs.endedSame ⟨rfl, rfl, rfl, rfl⟩
  · exact control_wakeRead hs

theorem control_switchTo (hs : Control s) (hop : s.op (.worker w) = .found x) :
    Control (s.switchTo w x) := by
  have hafter : s.after (.worker w) = .none := (hs (.worker w)).last (by grind)
  refine hs.ended (.worker w) (fun v hv ↦ ?_) rfl rfl fun v _ hin ↦ ?_
  · have hne : v ≠ w := fun heq ↦ hv (heq ▸ rfl)
    simp [hne]
  · simp [hafter, After.inDispatcher] at hin

theorem control_switchOut (hs : Control s) {hook : Hook} {next : Option τ}
    (h : s.switchOut w hook next = some t) : Control t := by
  unfold State.switchOut at h
  split at h
  case h_1 task hcurrent =>
    obtain rfl := Option.some.inj h
    refine hs.update (.worker w) (fun b hb ↦ by simp [hb]) (fun v hv ↦ ?_) ?_
    · have hne : v ≠ w := fun heq ↦ hv (heq ▸ rfl)
      simp [hne]
    · constructor
      · simp [Op.isLast]
      · simp [Op.slot]
      · simp
      · rintro v heq -
        obtain rfl : w = v := by simpa using heq
        simp
  case h_2 => cases h

/-- Only these fields matter, and a worker may change its own slot. -/
structure SameBut (w : Fin n) (s v : State n κ τ) : Prop where
  op : v.op = s.op
  after : v.after = s.after
  lifoSlot : ∀ i, i ≠ w → v.lifoSlot i = s.lifoSlot i
  current : v.current = s.current

omit [DecidableEq κ] [DecidableEq τ] in
theorem SameControl.but (h : SameControl s t) : SameBut w s t :=
  ⟨h.op, h.after, fun _ _ ↦ by rw [h.lifoSlot], h.current⟩

omit [DecidableEq κ] [DecidableEq τ] in
theorem sameBut_takeLocal {choice : Choice} {task : Option τ} (h : s.takeLocal w choice = (task, t)) :
    SameBut w s t := by
  unfold State.takeLocal at h
  split at h
  case h_1 =>
    obtain ⟨-, rfl⟩ := Prod.mk.inj h
    exact ⟨rfl, rfl, fun v hv ↦ Function.update_of_ne hv _ _, rfl⟩
  case h_2 =>
    split at h
    case h_1 =>
      obtain ⟨-, rfl⟩ := Prod.mk.inj h
      exact ⟨rfl, rfl, fun _ _ ↦ rfl, rfl⟩
    case h_2 =>
      split at h
      case h_1 =>
        obtain ⟨-, rfl⟩ := Prod.mk.inj h
        exact ⟨rfl, rfl, fun _ _ ↦ rfl, rfl⟩
      case h_2 =>
        obtain ⟨-, rfl⟩ := Prod.mk.inj h
        exact ⟨rfl, rfl, fun v hv ↦ Function.update_of_ne hv _ _, rfl⟩

omit [DecidableEq τ] in
theorem control_takeLocal (hs : Control s) {choice : Choice} {task : Option τ}
    {taken : State n κ τ} (h : s.takeLocal w choice = (task, taken)) {op : Op τ}
    (hslot : (s.op (.worker w)).slot = none) (hfollows : (s.op (.worker w)).Follows op) :
    Control (taken.goto (.worker w) op) := by
  obtain ⟨hop, hafter, hlifo, hcurrent⟩ := sameBut_takeLocal h
  refine hs.goto (.worker w) op (fun v hv ↦ ?_) hop hafter hfollows.last ?_ hfollows.seen
    (fun v _ ↦ by rw [hcurrent]) ?_
  · have hne : v ≠ w := fun heq ↦ hv (heq ▸ rfl)
    exact ⟨hlifo v hne, by rw [hcurrent]⟩
  · intro hslot'
    exact absurd hslot (hfollows.slot hslot')
  · intro hin v hv
    exact (hs (.worker w)).dispatch v hv (.inl (hfollows.dispatch hin))

theorem control_arrived (hs : Control s) {hook : Hook}
    (hop : s.op (.worker w) = .arrived hook x) : Control (s.arrived w x hook) := by
  cases hook with
  | parked =>
    simp only [State.arrived]
    split_ifs
    · exact hs.endedSame ⟨rfl, rfl, rfl, rfl⟩
    · refine hs.gotoSame ?_ ?_
      · exact ⟨rfl, rfl, rfl, rfl⟩
      · rw [hop]
        constructor <;> grind
  | yielded =>
    simp only [State.arrived]
    split
    · exact hs.endedSame ⟨rfl, rfl, rfl, rfl⟩
    · refine hs.gotoSame ?_ ?_
      · exact ⟨rfl, rfl, rfl, rfl⟩
      · rw [hop]
        constructor <;> grind
  | finished =>
    refine hs.gotoSame ⟨rfl, rfl, rfl, rfl⟩ ?_
    rw [hop]
    constructor <;> grind

theorem control_reapShields (c : Config) (hs : Control s)
    (hop : s.op (.worker w) = .reapShields x) : Control (s.reapShields c w x) := by
  unfold State.reapShields
  split_ifs
  · refine hs.gotoSame ⟨rfl, rfl, rfl, rfl⟩ ?_
    rw [hop]
    constructor <;> grind
  · have hafter : s.after (.worker w) = .none := (hs (.worker w)).last (by grind)
    refine hs.ended (.worker w) (fun v hv ↦ ?_) rfl rfl fun v _ hin ↦ ?_
    · have hne : v ≠ w := fun heq ↦ hv (heq ▸ rfl)
      simp [hne]
    · simp [hafter, After.inDispatcher] at hin
  · refine hs.gotoSame ?_ ?_
    · exact ⟨rfl, rfl, rfl, rfl⟩
    · rw [hop]
      constructor <;> grind

omit [DecidableEq τ] in
theorem control_pushFifo (hs : Control s) {slot : Option τ}
    (hop : s.op (.worker w) = .pushFifo x slot) (pushed : Bool) :
    Control (s.pushFifo w x slot pushed) := by
  unfold State.pushFifo
  split_ifs
  · refine hs.gotoSame ?_ ?_
    · exact ⟨rfl, rfl, rfl, rfl⟩
    · rw [hop]
      constructor <;> grind
  · refine hs.gotoSame ⟨rfl, rfl, rfl, rfl⟩ ?_
    rw [hop]
    constructor <;> grind

omit [DecidableEq τ] in
theorem control_overflow (hs : Control s) {slot : Option τ}
    (hop : s.op (.worker w) = .overflow x slot) (hasActiveStealers : Bool) (count : ℕ) :
    Control (s.overflow w x slot hasActiveStealers count) := by
  unfold State.overflow
  split_ifs
  · refine hs.gotoSame ⟨rfl, rfl, rfl, rfl⟩ ?_
    rw [hop]
    constructor <;> grind
  · refine hs.gotoSame ?_ ?_
    · exact ⟨rfl, rfl, rfl, rfl⟩
    · rw [hop]
      constructor <;> grind

omit [DecidableEq τ] in
theorem control_restock (hs : Control s) {tasks : List τ} (count : ℕ) :
    Control (s.restock w tasks count) := by
  refine hs.gotoSame ?_ ?_
  · exact ⟨rfl, rfl, rfl, rfl⟩
  · constructor <;> grind

theorem control_storeRunning (hs : Control s) : Control (s.storeRunning a x) := by
  refine hs.gotoSame ?_ ?_
  · exact ⟨rfl, rfl, rfl, rfl⟩
  · constructor <;> grind

theorem control_parkStore (hs : Control s) (h : s.parkStore w = some t) : Control t := by
  unfold State.parkStore at h
  split at h
  · exact Option.some.inj h ▸ hs.endedSame ⟨rfl, rfl, rfl, rfl⟩
  · cases h

omit [DecidableEq τ] in
theorem control_leave (hs : Control s) {hook : Hook} {fairnessTick : Bool}
    (hop : s.op (.worker w) = .leave hook fairnessTick) (choice : Choice) :
    Control (s.leave w hook fairnessTick choice) := by
  unfold State.leave
  split
  case h_1 htake =>
    refine control_takeLocal hs htake (by grind) ?_
    rw [hop]
    constructor <;> grind
  case h_2 htake =>
    split_ifs
    · refine control_takeLocal hs htake (by grind) ?_
      rw [hop]
      constructor <;> grind
    · refine control_takeLocal hs htake (by grind) ?_
      rw [hop]
      constructor <;> grind

omit [DecidableEq τ] in
theorem control_yieldPop (hs : Control s) {fairnessTick : Bool}
    (hop : s.op (.worker w) = .yieldPop fairnessTick) (popped : Bool) :
    Control (s.yieldPop w fairnessTick popped) := by
  unfold State.yieldPop
  split
  · refine hs.gotoSame ?_ ?_
    · exact ⟨rfl, rfl, rfl, rfl⟩
    · rw [hop]
      constructor <;> grind
  · split_ifs
    · refine hs.gotoSame ⟨rfl, rfl, rfl, rfl⟩ ?_
      rw [hop]
      constructor <;> grind
    · exact hs.endedSame ⟨rfl, rfl, rfl, rfl⟩

theorem control_reapClaim (hs : Control s) (hop : s.op (.worker w) = .reapClaim x) :
    Control (s.reapClaim w x) := by
  unfold State.reapClaim
  split_ifs
  · refine hs.gotoSame ?_ ?_
    · exact ⟨rfl, rfl, rfl, rfl⟩
    · rw [hop]
      constructor <;> grind
  · exact hs.endedSame ⟨rfl, rfl, rfl, rfl⟩

theorem control_reapPutBack (hs : Control s) (hop : s.op (.worker w) = .reapPutBack x) :
    Control (s.reapPutBack w x) := by
  unfold State.reapPutBack
  split_ifs
  · exact hs.endedSame ⟨rfl, rfl, rfl, rfl⟩
  · refine hs.gotoSame ?_ ?_
    · exact ⟨rfl, rfl, rfl, rfl⟩
    · rw [hop]
      constructor <;> grind

/-! ### Beginning an operation -/

omit [DecidableEq τ] in
/-- A call, from wherever an agent may make one. -/
theorem control_enter (hs : Control s) {op : Op τ} (hop : op.isLast = false)
    (hslot : op.slot = none) (hseen : ∀ x seen, op ≠ .wakeSwap x seen)
    (hdispatch : op.inDispatcher = false) (h : s.enter a op = some t) : Control t := by
  have hthen {task : τ} {next : Option τ} (hrelease : s.op a = .release task) :
      Control (s.gotoThen a op (.releasing task next)) := by
    refine hs.update a (fun b hb ↦ by simp [hb]) (fun _ _ ↦ ⟨rfl, rfl⟩) ?_
    have hcurrent := (hs a).dispatch
    constructor
    · simp [hop]
    · simp [hslot]
    · intro y seen heq
      exact absurd (by simpa using heq) (hseen y seen)
    · intro w hw _
      exact hcurrent w hw (.inl (by rw [hrelease]; rfl))
  unfold State.enter at h
  split at h
  case h_1 =>
    obtain rfl := Option.some.inj h
    refine hs.gotoSame ⟨rfl, rfl, rfl, rfl⟩ ?_
    constructor <;> grind
  case h_2 hrelease _ => exact Option.some.inj h ▸ hthen hrelease
  case h_3 hrelease _ => exact Option.some.inj h ▸ hthen hrelease
  case h_4 => cases h

omit [DecidableEq κ] [DecidableEq τ] in
theorem State.op_of_isIdle (h : s.isIdle a = true) : s.op a = .idle := by
  unfold State.isIdle at h
  cases hop : s.op a <;> simp_all

omit [DecidableEq κ] [DecidableEq τ] in
theorem State.of_inDispatcher (h : s.inDispatcher w = true) :
    s.op (.worker w) = .idle ∧ s.current w = none := by
  simp only [State.inDispatcher, Bool.and_eq_true, Option.isNone_iff_eq_none] at h
  exact ⟨State.op_of_isIdle h.1.1, h.1.2⟩

omit [DecidableEq κ] [DecidableEq τ] in
theorem State.of_runningTask (h : s.runningTask w = some x) :
    s.op (.worker w) = .idle ∧ s.current w = some x := by
  unfold State.runningTask at h
  split_ifs at h with hidle
  exact ⟨State.op_of_isIdle hidle, h⟩

omit [DecidableEq τ] in
/-- A worker begins an operation in its dispatcher. -/
theorem control_dispatch (hs : Control s) (h : SameBut w s t) (hcurrent : s.current w = none)
    {op : Op τ} {after : After τ} (hslot : op.slot = none)
    (hseen : ∀ x seen, op ≠ .wakeSwap x seen)
    (hlast : op.isLast = true → after = .none) :
    Control (t.gotoThen (.worker w) op after) := by
  obtain ⟨hop, hafter, hlifo, hsame⟩ := h
  refine hs.update (.worker w) (fun b hb ↦ by simp [hb, hop, hafter]) (fun v hv ↦ ?_) ?_
  · have hne : v ≠ w := fun heq ↦ hv (heq ▸ rfl)
    simp [hlifo v hne, hsame]
  · constructor
    · simpa using hlast
    · simp [hslot]
    · intro y seen heq
      exact absurd (by simpa using heq) (hseen y seen)
    · rintro v heq -
      obtain rfl : w = v := by simpa using heq
      simp [hsame, hcurrent]

omit [DecidableEq τ] in
/-- A worker begins an operation in its dispatcher, with nothing to do after it. -/
theorem control_dispatchLast (hs : Control s) (h : SameBut w s t) (hcurrent : s.current w = none)
    (hidle : s.op (.worker w) = .idle) {op : Op τ} (hslot : op.slot = none)
    (hseen : ∀ x seen, op ≠ .wakeSwap x seen) : Control (t.goto (.worker w) op) := by
  have hafter : s.after (.worker w) = .none := (hs (.worker w)).last (by rw [hidle]; rfl)
  have hdispatch : Control (t.gotoThen (.worker w) op .none) :=
    control_dispatch hs h hcurrent hslot hseen fun _ ↦ rfl
  have heq : t.gotoThen (.worker w) op .none = t.goto (.worker w) op := by
    simp [State.gotoThen, State.goto, ← hafter, ← h.after]
  exact heq ▸ hdispatch

omit [DecidableEq τ] in
theorem control_placeGathered (hs : Control s) (hidle : s.op (.worker w) = .idle)
    (hcurrent : s.current w = none) (keepFirst feedPeers hasLocalWork : Bool) :
    Control (s.placeGathered w keepFirst feedPeers hasLocalWork) := by
  have hplace {tasks : List τ} {kept : Option τ} :
      Control (State.ended { s with
        gathered := Function.update s.gathered w []
        after := Function.update s.after (.worker w) (.place tasks feedPeers kept) }
          (.worker w)) := by
    obtain ⟨hlast, hslot, hseen, -⟩ := (After.place tasks feedPeers kept).fits
    have hdispatch : Control (State.gotoThen { s with
        gathered := Function.update s.gathered w [] } (.worker w)
          (After.place tasks feedPeers kept).next (After.place tasks feedPeers kept).rest) := by
      refine control_dispatch hs (SameControl.but ?_) hcurrent hslot hseen hlast
      exact ⟨rfl, rfl, rfl, rfl⟩
    simpa [State.ended, State.gotoThen] using hdispatch
  unfold State.placeGathered
  split
  case h_1 => exact hs
  case h_2 => exact hplace
  case h_3 =>
    refine control_dispatchLast hs (SameControl.but ?_) hcurrent hidle rfl (by grind)
    exact ⟨rfl, rfl, rfl, rfl⟩
  case h_4 => exact hplace

omit [DecidableEq τ] in
theorem control_yield (hs : Control s) (hidle : s.op (.worker w) = .idle) (fairnessTick : Bool) :
    Control (s.yield w fairnessTick) := by
  unfold State.yield
  split
  case h_1 =>
    refine hs.update (.worker w) (fun b hb ↦ by simp [hb]) (fun _ _ ↦ ⟨rfl, rfl⟩) ?_
    constructor <;> simp [Op.isLast, Op.slot, After.inDispatcher]
  case h_2 =>
    refine hs.gotoSame ⟨rfl, rfl, rfl, rfl⟩ ?_
    rw [hidle]
    constructor <;> grind

omit [DecidableEq τ] in
theorem control_park (hs : Control s) (hidle : s.op (.worker w) = .idle) :
    Control (s.park w x) := by
  unfold State.park
  split_ifs
  · refine hs.gotoSame ⟨rfl, rfl, rfl, rfl⟩ ?_
    rw [hidle]
    constructor <;> grind
  · refine hs.gotoSame ⟨rfl, rfl, rfl, rfl⟩ ?_
    rw [hidle]
    constructor <;> grind

end Stackfull.Sched.Tasks
