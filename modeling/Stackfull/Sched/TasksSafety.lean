import Stackfull.Sched.TasksControl

/-!
# A task is in one place, and is enqueued once for each time it becomes runnable

`Sound` joins the refinement of the task machine with the bookkeeping of the agents; every step of
the scheduler keeps it. Over a whole run it gives the single location of tasks, the balance of
wakes, enqueues and resumes, and that no task sleeps through a wake.

The reaper reads `forcedStopShields`, which is eight bits wide. It unwinds a task with guards alive
exactly if their number is a multiple of 256, and `ShieldsFit` is the condition on a step that this
does not happen.
-/

set_option autoImplicit false
set_option relaxedAutoImplicit false
set_option linter.dupNamespace false

namespace Stackfull.Sched.Tasks

open Stackfull.Lib

universe u v

variable {n : ℕ} {κ : Type u} {τ : Type v} [DecidableEq κ] [DecidableEq τ]
variable {s t : State n κ τ} {place : τ → Option (Place n κ)} {a : Agent n κ} {w : Fin n} {x : τ}

/-! ### Operations begin -/

omit [DecidableEq κ] [DecidableEq τ] in
theorem Op.holds_idle : (.idle : Op τ).Holds [] :=
  ⟨rfl, rfl, rfl, rfl, rfl⟩

/-- A call puts what it has in hand there; a task that is being released stays in hand. -/
theorem count_enter {op : Op τ} (h : s.enter a op = some t) (r : Place n κ) (y : τ) :
    (t.contents r).count y = (s.contents r).count y + op.hand.count a y r := by
  have hreleasing {task : τ} (next : Option τ) (hrelease : s.op a = .release task)
      (hafter : s.after a = next.elim .none .found) :
      (s.op a).hand.count a y r + (s.after a).hand.count a y r =
        (After.releasing task next).hand.count a y r := by
    rw [hrelease, hafter]
    cases next <;> cases r <;> simp [Hand.count, Op.hand, After.hand, Op.parking, Op.stirring,
      Op.pending, Op.moving, Op.leaving, After.moving, After.leaving]
  unfold State.enter at h
  split at h
  case h_1 hidle =>
    obtain rfl := Option.some.inj h
    have hgoto := s.count_goto a op r y
    rw [hidle, Op.holds_idle.count] at hgoto
    simpa using hgoto
  case h_2 task hrelease hafter =>
    obtain rfl := Option.some.inj h
    have hthen := s.count_gotoThen a op (.releasing task none) r y
    rw [hreleasing none hrelease hafter] at hthen
    omega
  case h_3 task next hrelease hafter =>
    obtain rfl := Option.some.inj h
    have hthen := s.count_gotoThen a op (.releasing task (some next)) r y
    rw [hreleasing (some next) hrelease hafter] at hthen
    omega
  case h_4 => cases h

omit [DecidableEq τ] in
/-- A call changes what its agent does, and nothing else about a task. -/
theorem view_enter {op : Op τ} (h : s.enter a op = some t) (kind : Option Kind) (y : τ) :
    t.view kind y = s.view kind y := by
  unfold State.enter at h
  split at h
  case h_4 => cases h
  all_goals exact Option.some.inj h ▸ rfl

/-- A wake begins. -/
theorem tracked_enterWake (hs : Tracked s place) (h : s.enter a (.wakeLoad x) = some t) :
    Next s place t := by
  have hholds : (Op.wakeLoad x).Holds [] := ⟨rfl, rfl, rfl, rfl, rfl⟩
  refine hs.still (fun r y ↦ ?_) (view_enter h)
  rw [count_enter h, hholds.count]
  simp

/-- The state in which a new task is scheduled for the first time. -/
theorem tracked_enterSpawn (hs : Tracked s place) (hpublished : s.published x = false)
    (hstate : s.parkState x ≠ .done)
    (h : State.enter { (s.setParkState x .running).record (fun h ↦ h.spawn x) with
        published := Function.update s.published x true
        pinnedTo := Function.update s.pinnedTo x none
        guards := Function.update s.guards x 0 } a (.schedule x) = some t) :
    Next s place t := by
  have hplace : place x = none := by
    have hdead := (hs.ok x).dead hpublished
    simpa [State.view] using hdead
  refine hs.one x none (some (.pending a)) hplace (fun r y ↦ ?_) ?_
    (.spawn hpublished hstate) ?_ (by simp [Unusual, State.view])
  · have hhand : (Op.schedule x).hand.IsAt a (some (.pending a)) x := Hand.isAt_pending
    rw [count_enter h, hhand y r]
    rfl
  · intro kind y hy
    rw [view_enter h]
    simp [State.view, hy]
  · rw [view_enter h]
    simp [State.view, Place.kind]

omit [DecidableEq κ] in
/-- What is between two stolen tasks stays in the queue. -/
theorem count_stolen (tasks rest : List τ) (start count : ℕ) (hdrop : tasks.drop start = x :: rest)
    (y : τ) : (tasks.take start ++ rest.drop count).count y + (x :: rest.take count).count y =
      tasks.count y := by
  have hrest : (rest.take count).count y + (rest.drop count).count y = rest.count y := by
    rw [← List.count_append, List.take_append_drop]
  have htasks : (tasks.take start).count y + (x :: rest).count y = tasks.count y := by
    rw [← hdrop, ← List.count_append, List.take_append_drop]
  simp only [List.count_append, List.count_cons] at htasks ⊢
  omega

theorem tracked_steal (hs : Tracked s place) (hop : s.op (.worker w) = .idle) {victim : Fin n}
    {start : ℕ} {rest : List τ} (hdrop : (s.queue victim).drop start = x :: rest) :
    Next s place ({ s with
      queue := Function.update s.queue victim ((s.queue victim).take start ++ rest) }.goto
        (.worker w) (.found x)) := by
  have hcount := count_stolen (s.queue victim) rest start 0 hdrop
  simp only [List.drop_zero, List.take_zero] at hcount
  refine hs.takeGoto (.queue victim) [x] rfl (fun _ ↦ State.contents_queue) (fun y ↦ ?_)
    (hop ▸ Op.holds_idle) ⟨rfl, rfl, rfl, rfl, rfl⟩ (fun y ↦ ?_) (fun _ _ ↦ rfl)
  · simpa [State.contents] using hcount y
  · simp [Op.moving]

theorem tracked_stealBlock (hs : Tracked s place) (hop : s.op (.worker w) = .idle)
    (hafter : s.after (.worker w) = .none) {victim : Fin n} {start : ℕ} {rest : List τ}
    (hdrop : (s.queue victim).drop start = x :: rest) (count : ℕ) :
    Next s place ({ s with
      queue := Function.update s.queue victim
        ((s.queue victim).take start ++ rest.drop count) }.gotoThen (.worker w)
          (.restock (rest.take count)) (.found x)) := by
  have hcount := count_stolen (s.queue victim) rest start count hdrop
  refine hs.takeThen (.queue victim) (x :: rest.take count) rfl (fun _ ↦ State.contents_queue)
    (fun y ↦ ?_) (hop ▸ Op.holds_idle) ⟨rfl, rfl, rfl, rfl, rfl⟩ hafter rfl
    (fun y ↦ ?_) (fun _ _ ↦ rfl)
  · simpa [State.contents] using hcount y
  · rw [← List.count_append]
    simp [Op.moving, After.moving, List.count_cons]

theorem tracked_placeGathered (hs : Tracked s place) (hop : s.op (.worker w) = .idle)
    (hafter : s.after (.worker w) = .none) (keepFirst feedPeers hasLocalWork : Bool) :
    Next s place (s.placeGathered w keepFirst feedPeers hasLocalWork) := by
  have hplace {tasks : List τ} {kept : Option τ}
      (hcount : ∀ y, (tasks ++ kept.toList).count y = (s.gathered w).count y) :
      Next s place (State.ended { s with
        gathered := Function.update s.gathered w []
        after := Function.update s.after (.worker w) (.place tasks feedPeers kept) }
          (.worker w)) := by
    have hthen : State.ended { s with
        gathered := Function.update s.gathered w []
        after := Function.update s.after (.worker w) (.place tasks feedPeers kept) } (.worker w) =
          State.gotoThen { s with gathered := Function.update s.gathered w [] } (.worker w)
            (After.place tasks feedPeers kept).next (After.place tasks feedPeers kept).rest := by
      simp [State.ended, State.gotoThen]
    rw [hthen]
    refine hs.take (a := .worker w) (v := { s with
        gathered := Function.update s.gathered w [] }) (.gathered w) (s.gathered w) rfl
      (fun _ ↦ State.contents_gathered) (fun y ↦ ?_) (fun r y ↦ ?_) (fun _ _ ↦ rfl)
    · simp [State.contents]
    · have hgoto := State.count_gotoThen { s with
        gathered := Function.update s.gathered w [] } (.worker w)
          (After.place tasks feedPeers kept).next (After.place tasks feedPeers kept).rest r y
      have hnone : (After.none : After τ).moving.count y = 0 := rfl
      have hy : (After.place tasks feedPeers kept).moving.count y = (s.gathered w).count y :=
        hcount y
      rw [hop, hafter, Op.holds_idle.count, After.count_hand, After.count_of_leaving rfl,
        After.count_of_leaving rfl, hnone, hy] at hgoto
      simpa using hgoto
  unfold State.placeGathered
  split
  case h_1 => exact hs.still (fun _ _ ↦ rfl) (fun _ _ ↦ rfl)
  case h_2 first rest hgathered =>
    refine hplace fun y ↦ ?_
    simp [hgathered, List.count_cons]
  case h_3 task hgathered =>
    refine hs.takeGoto (.gathered w) [task] rfl (fun _ ↦ State.contents_gathered) (fun y ↦ ?_)
      (hop ▸ Op.holds_idle) ⟨rfl, rfl, rfl, rfl, rfl⟩ (fun y ↦ ?_) (fun _ _ ↦ rfl)
    · simp [State.contents, hgathered]
    · simp [Op.moving]
  case h_4 => exact hplace fun y ↦ by simp

theorem tracked_yield (hs : Tracked s place) (hop : s.op (.worker w) = .idle)
    (hafter : s.after (.worker w) = .none) (fairnessTick : Bool) :
    Next s place (s.yield w fairnessTick) := by
  unfold State.yield
  split
  case h_1 injected rest hinjection =>
    have hnew : (Op.pushFifo injected none).Holds [injected] := ⟨rfl, rfl, rfl, rfl, rfl⟩
    have hleaving : (After.yielding : After τ).leaving = [] := rfl
    refine hs.takeThen (v := { s with injection := rest }) .injection [injected] rfl
      (fun _ ↦ State.contents_injection) (fun y ↦ ?_) (hop ▸ Op.holds_idle) hnew hafter hleaving
      (fun y ↦ ?_) (fun _ _ ↦ rfl)
    · simp [State.contents, hinjection, List.count_cons]
    · simp [After.moving]
  case h_2 =>
    refine tracked_goto hs ?_ ?_
    · rw [hop]
      exact ⟨rfl, rfl, rfl, rfl, rfl⟩
    · exact ⟨rfl, rfl, rfl, rfl, rfl⟩

/-! ### Every step keeps the bookkeeping and the refinement -/

/-- What holds in every reachable state. -/
structure Sound (s : State n κ τ) : Prop where
  control : Control s
  tracked : ∃ place, Tracked s place

theorem sound_initial : Sound (initial : State n κ τ) := by
  refine ⟨control_initial, fun _ ↦ none, ?_, ?_⟩
  · intro p x
    cases p <;> rfl
  · intro x
    constructor <;> simp [State.view, initial]

theorem next_advance {c : Config} (hcontrol : Control s) (htracked : Tracked s place)
    {choice : Choice} (h : s.advance c a choice = some t) : Control t ∧ Next s place t := by
  have hfits := hcontrol a
  unfold State.advance at h
  split at h
  case h_1 => cases h
  case h_2 x hop =>
    exact Option.some.inj h ▸ ⟨control_schedule hcontrol hop _, tracked_schedule htracked hop _⟩
  case h_3 tasks slot hop =>
    refine Option.some.inj h ▸ ⟨control_inject hcontrol hop, tracked_inject htracked hop ?_ ?_⟩
    · rintro w rfl hslot
      obtain ⟨v, hv, hnone⟩ := hfits.slot (by simpa [hop, Op.slot] using hslot)
      cases hv
      exact hnone
    · rintro caller rfl
      by_contra hslot
      obtain ⟨v, hv, -⟩ := hfits.slot (by simpa [hop, Op.slot] using hslot)
      cases hv
  case h_4 x hop =>
    exact Option.some.inj h ▸ ⟨control_wakeRead hcontrol, tracked_wakeRead htracked (.inl hop)⟩
  case h_5 x seen hop =>
    exact Option.some.inj h ▸ ⟨control_wakeSwap hcontrol hop _,
      tracked_wakeSwap htracked hop (hfits.seen x seen hop) _⟩
  case h_6 x hop =>
    exact Option.some.inj h ▸ ⟨control_storeRunning hcontrol,
      tracked_storeRunning htracked (.inl hop)⟩
  case h_7 x hop =>
    exact Option.some.inj h ▸ ⟨control_storeRunning hcontrol,
      tracked_storeRunning htracked (.inr (.inl hop))⟩
  case h_8 x hop =>
    exact Option.some.inj h ▸ ⟨control_storeRunning hcontrol,
      tracked_storeRunning htracked (.inr (.inr hop))⟩
  case h_9 x hop =>
    exact Option.some.inj h ▸ ⟨hcontrol.endedSame ⟨rfl, rfl, rfl, rfl⟩,
      tracked_release htracked hop⟩
  case h_10 x w hop =>
    exact Option.some.inj h ▸ ⟨control_pushLifo hcontrol, tracked_pushLifo htracked hop⟩
  case h_11 x slot w hop =>
    exact Option.some.inj h ▸ ⟨control_pushFifo hcontrol hop _, tracked_pushFifo htracked hop _⟩
  case h_12 x slot w hop =>
    exact Option.some.inj h ▸ ⟨control_overflow hcontrol hop _ _,
      tracked_overflow htracked hop _ _⟩
  case h_13 tasks w hop =>
    exact Option.some.inj h ▸ ⟨control_restock hcontrol _, tracked_restock htracked hop _⟩
  case h_14 x w hop =>
    have hcurrent := hfits.dispatch w rfl (.inl (by rw [hop]; rfl))
    exact Option.some.inj h ▸ ⟨control_switchTo hcontrol hop,
      tracked_switchTo htracked hop hcurrent⟩
  case h_15 w hop => exact ⟨control_parkStore hcontrol h, tracked_parkStore htracked hop h⟩
  case h_16 hook fairnessTick w hop =>
    exact Option.some.inj h ▸ ⟨control_leave hcontrol hop _, tracked_leave htracked hop _⟩
  case h_17 fairnessTick w hop =>
    exact Option.some.inj h ▸ ⟨control_yieldPop hcontrol hop _, tracked_yieldPop htracked hop _⟩
  case h_18 hook next w hop =>
    have hafter := hfits.last (by rw [hop]; rfl)
    exact ⟨control_switchOut hcontrol h, tracked_switchOut htracked hop hafter h⟩
  case h_19 hook x w hop =>
    exact Option.some.inj h ▸ ⟨control_arrived hcontrol hop, tracked_arrived htracked hop⟩
  case h_20 x w hop =>
    exact Option.some.inj h ▸ ⟨control_reapClaim hcontrol hop, tracked_reapClaim htracked hop⟩
  case h_21 x w hop =>
    have hcurrent := hfits.dispatch w rfl (.inl (by rw [hop]; rfl))
    exact Option.some.inj h ▸ ⟨control_reapShields c hcontrol hop,
      tracked_reapShields c htracked hop hcurrent⟩
  case h_22 x w hop =>
    exact Option.some.inj h ▸ ⟨control_reapPutBack hcontrol hop, tracked_reapPutBack htracked hop⟩
  case h_23 => cases h

/-- The running task does something that concerns neither its word nor a queue. -/
theorem next_same (hcontrol : Control s) (htracked : Tracked s place) (h : SameControl s t)
    (hcontents : ∀ p, t.contents p = s.contents p)
    (hsame : ∀ kind y, t.view kind y = s.view kind y) : Control t ∧ Next s place t := by
  exact ⟨hcontrol.same h, htracked.still (fun p y ↦ by rw [hcontents]) hsame⟩

/-- What a step does to the tasks. -/
theorem next_step {c : Config} (hcontrol : Control s) (htracked : Tracked s place)
    {action : Action n κ τ} (h : s.step c action = some t) : Control t ∧ Next s place t := by
  have hnothing {w : Fin n} (hidle : s.op (.worker w) = .idle) :
      (s.op (.worker w)).Holds [] ∧ s.after (.worker w) = .none :=
    ⟨hidle ▸ Op.holds_idle, (hcontrol (.worker w)).last (by rw [hidle]; rfl)⟩
  cases action with
  | wake a x =>
    simp only [State.step.eq_def] at h
    split_ifs at h
    exact ⟨control_enter hcontrol rfl rfl (by simp) rfl h, tracked_enterWake htracked h⟩
  | spawn a x =>
    simp only [State.step.eq_def] at h
    split_ifs at h with hnew
    refine ⟨control_enter (hcontrol.same ?_) rfl rfl (by simp) rfl h,
      tracked_enterSpawn htracked hnew.1 hnew.2 h⟩
    exact ⟨rfl, rfl, rfl, rfl⟩
  | shield w | unshield w | pinToCurrentWorker w | unpin w =>
    obtain ⟨x, -, rfl⟩ := Option.map_eq_some_iff.mp h
    refine next_same hcontrol htracked ?_ ?_ (fun _ _ ↦ rfl)
    · exact ⟨rfl, rfl, rfl, rfl⟩
    · intro p
      cases p <;> rfl
  | park w =>
    obtain ⟨x, hrunning, rfl⟩ := Option.map_eq_some_iff.mp h
    have hidle := (State.of_runningTask hrunning).1
    refine ⟨control_park hcontrol hidle, ?_⟩
    unfold State.park
    split_ifs
    · exact tracked_goto htracked (hnothing hidle).1 ⟨rfl, rfl, rfl, rfl, rfl⟩
    · exact tracked_goto htracked (hnothing hidle).1 ⟨rfl, rfl, rfl, rfl, rfl⟩
  | yield w fairnessTick =>
    obtain ⟨x, hrunning, rfl⟩ := Option.map_eq_some_iff.mp h
    have hidle := (State.of_runningTask hrunning).1
    exact ⟨control_yield hcontrol hidle _, tracked_yield htracked hidle (hnothing hidle).2 _⟩
  | finish w =>
    obtain ⟨x, hrunning, rfl⟩ := Option.map_eq_some_iff.mp h
    have hidle := (State.of_runningTask hrunning).1
    refine ⟨hcontrol.gotoSame ⟨rfl, rfl, rfl, rfl⟩ ?_,
      tracked_goto htracked (hnothing hidle).1 ⟨rfl, rfl, rfl, rfl, rfl⟩⟩
    rw [hidle]
    constructor <;> simp [Op.isLast, Op.slot, Op.inDispatcher]
  | takeLocal w choice =>
    simp only [State.step.eq_def] at h
    split_ifs at h with hin
    obtain ⟨hidle, hcurrent⟩ := State.of_inDispatcher hin
    split at h
    case h_1 x taken htake =>
      exact Option.some.inj h ▸ ⟨control_dispatchLast hcontrol (sameBut_takeLocal htake) hcurrent
        hidle rfl (by simp), tracked_takeLocal htracked (hnothing hidle).1 htake
          ⟨rfl, rfl, rfl, rfl, rfl⟩⟩
    case h_2 taken htake =>
      exact Option.some.inj h ▸ ⟨control_dispatchLast hcontrol (sameBut_takeLocal htake) hcurrent
        hidle rfl (by simp), tracked_takeLocal htracked (hnothing hidle).1 htake Op.holds_idle⟩
  | popInjection w =>
    simp only [State.step.eq_def] at h
    split_ifs at h with hin
    obtain ⟨hidle, hcurrent⟩ := State.of_inDispatcher hin
    split at h
    case h_1 => cases h
    case h_2 x rest hinjection =>
      obtain rfl := Option.some.inj h
      refine ⟨control_dispatchLast hcontrol (SameControl.but ?_) hcurrent hidle rfl (by simp),
        tracked_popInjection htracked (hnothing hidle).1 hinjection ⟨rfl, rfl, rfl, rfl, rfl⟩⟩
      exact ⟨rfl, rfl, rfl, rfl⟩
  | steal w victim start =>
    simp only [State.step.eq_def] at h
    split_ifs at h with hin
    obtain ⟨hidle, hcurrent⟩ := State.of_inDispatcher hin
    split at h
    case h_1 => cases h
    case h_2 x rest hdrop =>
      obtain rfl := Option.some.inj h
      refine ⟨control_dispatchLast hcontrol (SameControl.but ?_) hcurrent hidle rfl (by simp),
        tracked_steal htracked hidle hdrop⟩
      exact ⟨rfl, rfl, rfl, rfl⟩
  | stealBlock w victim start count =>
    simp only [State.step.eq_def] at h
    split_ifs at h with hin
    obtain ⟨hidle, hcurrent⟩ := State.of_inDispatcher hin
    split at h
    case h_1 => cases h
    case h_2 x rest hdrop =>
      obtain rfl := Option.some.inj h
      refine ⟨control_dispatch hcontrol (SameControl.but ?_) hcurrent rfl (by simp)
        (by simp [Op.isLast]), tracked_stealBlock htracked hidle (hnothing hidle).2 hdrop count⟩
      exact ⟨rfl, rfl, rfl, rfl⟩
  | setGathering w gathering =>
    simp only [State.step.eq_def] at h
    split_ifs at h
    obtain rfl := Option.some.inj h
    refine next_same hcontrol htracked ?_ ?_ (fun _ _ ↦ rfl)
    · exact ⟨rfl, rfl, rfl, rfl⟩
    · intro p
      cases p <;> rfl
  | placeGathered w keepFirst feedPeers hasLocalWork =>
    simp only [State.step.eq_def] at h
    split_ifs at h with hin
    obtain ⟨hidle, hcurrent⟩ := State.of_inDispatcher hin
    exact Option.some.inj h ▸ ⟨control_placeGathered hcontrol hidle hcurrent _ _ _,
      tracked_placeGathered htracked hidle (hnothing hidle).2 _ _ _⟩
  | reap w x =>
    simp only [State.step.eq_def] at h
    split_ifs at h with hin
    obtain ⟨hidle, hcurrent⟩ := State.of_inDispatcher hin.1
    obtain rfl := Option.some.inj h
    refine ⟨control_dispatchLast hcontrol (SameControl.but ?_) hcurrent hidle rfl (by simp),
      tracked_goto htracked (hnothing hidle).1 ⟨rfl, rfl, rfl, rfl, rfl⟩⟩
    exact ⟨rfl, rfl, rfl, rfl⟩
  | advance a choice => exact next_advance hcontrol htracked h

theorem sound_step {c : Config} (hs : Sound s) {action : Action n κ τ}
    (h : s.step c action = some t) : Sound t := by
  obtain ⟨hcontrol, place, htracked⟩ := hs
  obtain ⟨hcontrol', place', htracked', -⟩ := next_step hcontrol htracked h
  exact ⟨hcontrol', place', htracked'⟩

/-! ### Shields -/

/-- When the reaper looks at the shields of a task, the eight bits that count the live guards have
not come round to zero. -/
def shieldsFit (s : State n κ τ) : Action n κ τ → Bool
  | .advance a _ =>
    match s.op a with
    | .reapShields task => s.guards task = 0 || s.guards task % 2 ^ 8 != 0
    | _ => true
  | _ => true

/-- The reaper has unwound or dropped only tasks without a live guard. -/
def Unshielded (s : State n κ τ) : Prop :=
  ∀ x guards, (x, guards) ∈ s.history.unwound → guards = 0

omit [DecidableEq τ] in
theorem unwound_enter {op : Op τ} (h : s.enter a op = some t) :
    t.history.unwound = s.history.unwound := by
  unfold State.enter at h
  split at h
  case h_4 => cases h
  all_goals
    obtain rfl := Option.some.inj h
    rfl

omit [DecidableEq κ] [DecidableEq τ] in
theorem unwound_takeLocal {choice : Choice} {task : Option τ} (h : s.takeLocal w choice = (task, t)) :
    t.history.unwound = s.history.unwound := by
  unfold State.takeLocal at h
  grind

theorem unwound_wakeRead : (s.wakeRead a x).history.unwound = s.history.unwound := by
  unfold State.wakeRead
  split <;> rfl

/-- Only the look at the shields unwinds a task. -/
theorem unwound_advance {c : Config} {choice : Choice} (h : s.advance c a choice = some t)
    (hop : ∀ x, s.op a ≠ .reapShields x) : t.history.unwound = s.history.unwound := by
  unfold State.advance at h
  split at h
  case h_1 => cases h
  case h_2 =>
    obtain rfl := Option.some.inj h
    unfold State.schedule
    split
    · rfl
    · rfl
    · split_ifs <;> rfl
  case h_3 =>
    obtain rfl := Option.some.inj h
    unfold State.inject
    split <;> rfl
  case h_4 => exact Option.some.inj h ▸ unwound_wakeRead
  case h_5 =>
    obtain rfl := Option.some.inj h
    unfold State.wakeSwap
    split_ifs
    · rfl
    · rfl
    · exact unwound_wakeRead
  case h_6 | h_7 | h_8 | h_9 | h_13 | h_14 =>
    obtain rfl := Option.some.inj h
    rfl
  case h_10 =>
    obtain rfl := Option.some.inj h
    unfold State.pushLifo
    split <;> rfl
  case h_11 =>
    obtain rfl := Option.some.inj h
    unfold State.pushFifo
    split_ifs <;> rfl
  case h_12 =>
    obtain rfl := Option.some.inj h
    unfold State.overflow
    split_ifs <;> rfl
  case h_15 =>
    unfold State.parkStore at h
    split at h
    · obtain rfl := Option.some.inj h
      rfl
    · cases h
  case h_16 =>
    obtain rfl := Option.some.inj h
    unfold State.leave
    split
    case h_1 htake =>
      have hsame := unwound_takeLocal htake
      exact hsame
    case h_2 htake =>
      have hsame := unwound_takeLocal htake
      split_ifs <;> exact hsame
  case h_17 =>
    obtain rfl := Option.some.inj h
    unfold State.yieldPop
    split
    · rfl
    · split_ifs <;> rfl
  case h_18 =>
    unfold State.switchOut at h
    split at h
    · obtain rfl := Option.some.inj h
      dsimp only [State.gotoThen]
      split_ifs <;> rfl
    · cases h
  case h_19 hook _ _ _ =>
    obtain rfl := Option.some.inj h
    cases hook
    · simp only [State.arrived]
      split_ifs <;> rfl
    · simp only [State.arrived]
      split <;> rfl
    · rfl
  case h_20 =>
    obtain rfl := Option.some.inj h
    unfold State.reapClaim
    split_ifs <;> rfl
  case h_21 x w hreap => exact absurd hreap (hop x)
  case h_22 =>
    obtain rfl := Option.some.inj h
    unfold State.reapPutBack
    split_ifs <;> rfl
  case h_23 => cases h

/-- The reaper unwinds or drops a task without shields, or no task is. -/
theorem unwound_step {c : Config} {action : Action n κ τ} (h : s.step c action = some t) :
    t.history.unwound = s.history.unwound ∨
      ∃ w choice x, action = .advance (.worker w) choice ∧ s.op (.worker w) = .reapShields x ∧
        s.forcedStopShields x = 0 ∧
        t.history.unwound = s.history.unwound ++ [(x, s.guards x)] := by
  cases action with
  | advance a choice =>
    by_cases hop : ∃ x, s.op a = .reapShields x
    · obtain ⟨x, hop⟩ := hop
      cases a with
      | foreign caller => simp [State.step.eq_def, State.advance.eq_def, hop] at h
      | worker w =>
        simp only [State.step.eq_def, State.advance.eq_def, hop, Option.some.injEq] at h
        subst h
        unfold State.reapShields
        split_ifs with hshields hexceptions
        · exact Or.inl rfl
        · exact Or.inr ⟨w, choice, x, rfl, hop, not_not.mp hshields, rfl⟩
        · exact Or.inr ⟨w, choice, x, rfl, hop, not_not.mp hshields, rfl⟩
    · exact Or.inl (unwound_advance h (not_exists.mp hop))
  | wake a x =>
    simp only [State.step.eq_def] at h
    split_ifs at h
    exact Or.inl (unwound_enter h)
  | spawn a x =>
    simp only [State.step.eq_def] at h
    split_ifs at h
    have hsame := unwound_enter h
    exact Or.inl hsame
  | shield w | unshield w | pinToCurrentWorker w | unpin w | finish w =>
    obtain ⟨x, -, rfl⟩ := Option.map_eq_some_iff.mp h
    exact Or.inl rfl
  | park w =>
    obtain ⟨x, -, rfl⟩ := Option.map_eq_some_iff.mp h
    refine Or.inl ?_
    unfold State.park
    split_ifs <;> rfl
  | yield w fairnessTick =>
    obtain ⟨x, -, rfl⟩ := Option.map_eq_some_iff.mp h
    refine Or.inl ?_
    unfold State.yield
    split <;> rfl
  | takeLocal w choice =>
    simp only [State.step.eq_def] at h
    split_ifs at h
    split at h
    case h_1 htake =>
      have hsame := unwound_takeLocal htake
      exact Or.inl (Option.some.inj h ▸ hsame)
    case h_2 htake =>
      have hsame := unwound_takeLocal htake
      exact Or.inl (Option.some.inj h ▸ hsame)
  | popInjection w | steal w victim start | stealBlock w victim start count =>
    simp only [State.step.eq_def] at h
    split_ifs at h
    split at h
    · cases h
    · exact Or.inl (Option.some.inj h ▸ rfl)
  | setGathering w gathering =>
    simp only [State.step.eq_def] at h
    split_ifs at h
    exact Or.inl (Option.some.inj h ▸ rfl)
  | placeGathered w keepFirst feedPeers hasLocalWork =>
    simp only [State.step.eq_def] at h
    split_ifs at h
    refine Or.inl (Option.some.inj h ▸ ?_)
    unfold State.placeGathered
    split <;> rfl
  | reap w x =>
    simp only [State.step.eq_def] at h
    split_ifs at h
    exact Or.inl (Option.some.inj h ▸ rfl)

/-- Every step that finds the shields in range leaves the guarded tasks alone. -/
theorem unshielded_step {c : Config} (hs : Unshielded s) {action : Action n κ τ}
    (hfit : shieldsFit s action = true) (h : s.step c action = some t) : Unshielded t := by
  intro y guards hmem
  rcases unwound_step h with hsame | ⟨w, choice, x, rfl, hop, hzero, hadd⟩
  · exact hs y guards (hsame ▸ hmem)
  · rw [hadd] at hmem
    rcases List.mem_append.mp hmem with hold | hnew
    · exact hs y guards hold
    · obtain ⟨-, rfl⟩ := Prod.mk.inj (List.mem_singleton.mp hnew)
      have hguards : s.guards x = 0 ∨ s.guards x % 2 ^ 8 ≠ 0 := by
        simpa [shieldsFit, hop] using hfit
      exact hguards.resolve_right fun hne ↦ hne hzero

/-! ### What the scheduler guarantees to tasks -/

/-- A parked task is nowhere, and any other is at one position of one place. -/
structure AtOnePlace (s : State n κ τ) (x : τ) : Prop where
  asleep : s.parkState x = .parked → ∀ p, x ∉ s.contents p
  awake : s.parkState x ≠ .parked →
    ∃ p, (s.contents p).count x = 1 ∧ ∀ q, q ≠ p → x ∉ s.contents q

/-- A task was scheduled once for each time it became runnable, but for one that is still in hand,
and resumed once for each time it was scheduled, but for one that is still enqueued. -/
structure Balanced (s : State n κ τ) (x : τ) : Prop where
  inHand : (∃ a, x ∈ s.contents (.stirring a) ∨ x ∈ s.contents (.pending a)) →
    s.history.made x = s.history.scheduled x + 1
  scheduled : (¬ ∃ a, x ∈ s.contents (.stirring a) ∨ x ∈ s.contents (.pending a)) →
    s.history.made x = s.history.scheduled x
  enqueued : (∃ p, p.kind = .queued ∧ x ∈ s.contents p) →
    s.history.scheduled x = s.history.resumed x + 1
  resumed : (¬ ∃ p, p.kind = .queued ∧ x ∈ s.contents p) →
    s.history.scheduled x = s.history.resumed x

/-- The contract of the scheduler with its tasks. -/
structure Contract (s : State n κ τ) : Prop where
  location : ∀ x, s.published x = true → AtOnePlace s x
  exclusive : ∀ x v w, s.current v = some x → s.current w = some x → v = w
  balanced : ∀ x, Balanced s x
  heard : ∀ x, s.parkState x = .parked → s.history.owed x = false
  unshielded : Unshielded s

theorem Tracked.atOnePlace (hs : Tracked s place) (hx : s.published x = true) :
    AtOnePlace s x := by
  have hasleep := (hs.ok x).asleep
  simp only [State.view, hx, true_and, Option.map_eq_none_iff] at hasleep
  constructor
  · intro hparked p hmem
    have hnone := hasleep.mp hparked
    simp [hs.located.mem_iff.mp hmem] at hnone
  · intro hawake
    obtain ⟨p, hp⟩ := Option.ne_none_iff_exists'.mp fun hnone ↦ hawake (hasleep.mpr hnone)
    refine ⟨p, by rw [hs.located p x, if_pos hp], fun q hq hmem ↦ hq ?_⟩
    have hsame := (hs.located.mem_iff.mp hmem).symm.trans hp
    exact Option.some.inj hsame

theorem Tracked.balanced (hs : Tracked s place) (x : τ) : Balanced s x := by
  have hmade := (hs.ok x).made
  have hscheduled := (hs.ok x).scheduled
  have hhand : (∃ a, x ∈ s.contents (.stirring a) ∨ x ∈ s.contents (.pending a)) ↔
      (place x).map Place.kind = some .stirring ∨ (place x).map Place.kind = some .pending := by
    simp only [hs.located.mem_iff, Option.map_eq_some_iff]
    constructor
    · rintro ⟨a, h | h⟩
      · exact .inl ⟨_, h, rfl⟩
      · exact .inr ⟨_, h, rfl⟩
    · rintro (⟨p, h, hkind⟩ | ⟨p, h, hkind⟩)
      · cases p <;> simp only [Place.kind, reduceCtorEq] at hkind
        exact ⟨_, .inl h⟩
      · cases p <;> simp only [Place.kind, reduceCtorEq] at hkind
        exact ⟨_, .inr h⟩
  have hqueued : (∃ p, p.kind = .queued ∧ x ∈ s.contents p) ↔
      (place x).map Place.kind = some .queued := by
    simp only [hs.located.mem_iff, Option.map_eq_some_iff]
    constructor
    · rintro ⟨p, hkind, h⟩
      exact ⟨p, h, hkind⟩
    · rintro ⟨p, h, hkind⟩
      exact ⟨p, hkind, h⟩
  refine ⟨fun h ↦ ?_, fun h ↦ ?_, fun h ↦ ?_, fun h ↦ ?_⟩
  · exact hmade.trans (congrArg _ (if_pos (hhand.mp h)))
  · exact hmade.trans (congrArg _ (if_neg (mt hhand.mpr h)))
  · exact hscheduled.trans (congrArg _ (if_pos (hqueued.mp h)))
  · exact hscheduled.trans (congrArg _ (if_neg (mt hqueued.mpr h)))

theorem contract_of_sound (hs : Sound s) (hshields : Unshielded s) : Contract s := by
  obtain ⟨-, place, htracked⟩ := hs
  refine ⟨fun x hx ↦ htracked.atOnePlace hx, ?_, htracked.balanced, ?_, hshields⟩
  · intro x v w hv hw
    have hplace {i : Fin n} (hi : s.current i = some x) : place x = some (.running i) :=
      htracked.located.mem_iff.mp (by simp [State.contents, hi])
    have hsame := (hplace hv).symm.trans (hplace hw)
    simpa using hsame
  · intro x hparked
    have hok := htracked.ok x
    have hnone := (hok.asleep.mp hparked).2
    by_contra howed
    have hrest := hok.owed (by simpa [State.view] using howed)
    simp only [State.view] at hparked hnone hrest
    simp [hparked, hnone] at hrest

/-- In every run in which the reaper never meets a task whose guards have come round to zero in the
eight bits of `forcedStopShields`, the contract holds. -/
theorem tasks_keep_contract (c : Config)
    (hs : (system n κ τ c).ReachableUnder (fun s a ↦ shieldsFit s a = true) s) : Contract s := by
  have hboth : Sound s ∧ Unshielded s := by
    refine System.ReachableUnder.invariant (P := fun s ↦ Sound s ∧ Unshielded s) ?_ ?_ hs
    · rintro s rfl
      exact ⟨sound_initial, fun y guards hmem ↦ absurd hmem List.not_mem_nil⟩
    · intro s action t ⟨hsound, hshields⟩ hfit hstep
      exact ⟨sound_step hsound hstep, unshielded_step hshields hfit hstep⟩
  exact contract_of_sound hboth.1 hboth.2

/-- Nothing is left open: queue calls succeed and no peer is idle. -/
def plain : Choice where
  flag := false
  hasEntries := true
  popped := true
  pinned := true
  count := 0

/-- A thread spawns a task, which a worker takes from the injection queue and runs. -/
def runSpawned : List (Action 1 Unit Unit) :=
  [.spawn (.foreign ()) (), .advance (.foreign ()) plain, .advance (.foreign ()) plain,
    .advance (.foreign ()) plain, .popInjection 0, .advance (.worker 0) plain]

/-- The task parks and the worker's reaper gets to it. -/
def parkAndReap : List (Action 1 Unit Unit) :=
  [.park 0, .advance (.worker 0) plain, .advance (.worker 0) plain, .advance (.worker 0) plain,
    .reap 0 (), .advance (.worker 0) plain, .advance (.worker 0) plain]

theorem tasks_keep_contract_parkAndReap :
    ∃ s, (system 1 Unit Unit ⟨true⟩).ReachableUnder (fun s a ↦ shieldsFit s a = true) s ∧
      s.history.unwound = [((), 0)] ∧ Contract s := by
  let s := ((system 1 Unit Unit ⟨true⟩).runUnder shieldsFit initial
    (runSpawned ++ parkAndReap)).get (by decide)
  have hs : (system 1 Unit Unit ⟨true⟩).ReachableUnder (fun s a ↦ shieldsFit s a = true) s :=
    System.reachableUnder_of_run rfl (Option.some_get _).symm
  exact ⟨s, hs, by decide, tasks_keep_contract ⟨true⟩ hs⟩

/-- A task that executes can create any number of guards. -/
theorem run_shield (c : Config) (hrunning : s.runningTask w = some x) (k : ℕ) :
    (system n κ τ c).run s (List.replicate k (.shield w)) =
      some { s with guards := Function.update s.guards x (s.guards x + k) } := by
  induction k generalizing s with
  | zero =>
    simp [System.run, System.runUnder]
  | succ k ih =>
    have hnext : (system n κ τ c).step s (.shield w) =
        some { s with guards := Function.update s.guards x (s.guards x + 1) } := by
      simp [system, State.step.eq_def, hrunning]
    have hrest := ih (s := { s with guards := Function.update s.guards x (s.guards x + 1) }) hrunning
    simp only [System.run, List.replicate_succ, System.runUnder, if_true, hnext,
      Option.bind_some] at hrest ⊢
    rw [hrest]
    simp [Nat.add_assoc, Nat.add_comm 1 k]

/-- A task parks with 256 guards alive, and the reaper unwinds it. -/
theorem guarded_task_unwound :
    ∃ s, (system 1 Unit Unit ⟨true⟩).Reachable s ∧ s.history.unwound = [((), 256)] ∧
      ¬ Contract s := by
  let s := ((system 1 Unit Unit ⟨true⟩).run initial runSpawned).get (by decide)
  have hs : (system 1 Unit Unit ⟨true⟩).run initial runSpawned = some s := (Option.some_get _).symm
  let guarded : State 1 Unit Unit :=
    { s with guards := Function.update s.guards () (s.guards () + 256) }
  have hguarded : (system 1 Unit Unit ⟨true⟩).run s (List.replicate 256 (.shield 0)) = some guarded :=
    run_shield ⟨true⟩ (by decide) 256
  let t := ((system 1 Unit Unit ⟨true⟩).run guarded parkAndReap).get (by decide)
  have ht : (system 1 Unit Unit ⟨true⟩).run guarded parkAndReap = some t := (Option.some_get _).symm
  have hunwound : t.history.unwound = [((), 256)] := by decide
  refine ⟨t, System.reachable_of_run rfl (System.runUnder_append hs
    (System.runUnder_append hguarded ht)), hunwound, fun hcontract ↦ ?_⟩
  have hzero := hcontract.unshielded () 256 (by rw [hunwound]; exact List.mem_singleton_self _)
  cases hzero

end Stackfull.Sched.Tasks
