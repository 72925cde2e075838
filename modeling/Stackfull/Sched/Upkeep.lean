import Mathlib.Data.Set.Basic
import Mathlib.Tactic.Common
import Stackfull.Sched.TakeLocal

/-!
# The upkeep of a busy worker

The loop of `Worker::run` (`Worker.cpp`) and the ways in which a task gives up the worker: `yield`
and `park` (`ThisTask.h`), the end of a task (`Task.cpp`), and the unwinding of a parked task at
shutdown. Each of the first three takes the next task with `takeLocal` and switches to it without
the dispatcher if there is one. Who wakes and spawns tasks, what the injection queue and the
thieves' calls yield and where a runnable task is placed are labels.

The log is history, the newest event first. `upkeep_bounded_iff` says for which sets of runs there
is a bound on the number of switches between two maintenances: those with a bound on the number of
switches in a row that bypass the dispatcher. Nothing bounds that number (`upkeep_unbounded`).
-/

set_option autoImplicit false
set_option relaxedAutoImplicit false
set_option linter.dupNamespace false

namespace Stackfull.Sched.Upkeep

open Stackfull.Lib
open TakeLocal (Placed Pc)

universe u

/-- `kInjectionCheckPeriod`. -/
def kInjectionCheckPeriod : ℕ := 61

/-- What happens on a worker. -/
inductive Event
  /-- `maintain`, and the look at the injection queue that the loop takes right after it. -/
  | maintain
  /-- Another look at the injection queue. -/
  | look
  /-- The loop switches to a task. -/
  | dispatch
  /-- A task switches to the next one. -/
  | handOff
  /-- At shutdown the loop switches to a parked task, to unwind it. -/
  | unwind
  /-- The worker sleeps. -/
  | sleep
  deriving DecidableEq

/-- How a task has left the worker: what is left to its post-switch hook. -/
inductive Departure (τ : Type u)
  | yielded (task : τ)
  | parked (task : τ)
  | finished
  deriving DecidableEq

/-- Where the worker stands. -/
inductive Place (τ : Type u)
  /-- At the top of the loop. -/
  | top
  /-- In a call of `takeLocal` of the loop. -/
  | takes
  /-- In `searchForWork`. -/
  | searches
  /-- In what the loop does when it has found no task: `reapParkedTasks` and `parkIdle`. -/
  | idles
  /-- In a call of `takeLocal` of `parkIdle`. -/
  | idlesTaking
  /-- In a task. -/
  | runs (task : τ)
  /-- In the call of `takeLocal` of a `yield`. -/
  | yields (task : τ) (fairnessTick : Bool)
  /-- In a `yield` that has found no local task. -/
  | yieldsLooking (task : τ) (fairnessTick : Bool)
  /-- In the call of `nextOrDispatcher` of a `park` or at the end of a task. -/
  | leaves (departure : Departure τ)
  /-- In the post-switch hook, on the side of the task or of the dispatcher. -/
  | hook (departure : Departure τ) (next : Option τ)
  deriving DecidableEq

/-- Where a runnable task goes. -/
inductive Target
  | lifo (placed : Placed)
  | fifo (placed : Placed)
  | inbox
  | elsewhere

/-- A worker with what it does. -/
structure State (τ : Type u) where
  worker : TakeLocal.Worker τ
  tick : ℕ
  yieldTick : ℕ
  place : Place τ
  /-- The dispatcher goes on in `reapParkedTasks`, not at the top of the loop. -/
  reaping : Bool
  log : List Event

/-- Who moves. -/
inductive Label (τ : Type u)
  | schedule (task : τ) (target : Target)
  | others (move : TakeLocal.Label τ)
  | top (injected : Option τ)
  | takeLocal (part : TakeLocal.Label τ)
  | search (found : Option τ)
  | unwind (task : τ)
  | retake
  | parkIdle (slept : Bool) (found : Option τ)
  | yield (injected : Option τ) (placed : Placed)
  | look (injected : Option τ)
  | park (notified : Bool)
  | finish
  | hook (target : Target)

variable {τ : Type u}

/-- A runnable task is placed. -/
def schedule (w : TakeLocal.Worker τ) (task : τ) : Target → TakeLocal.Worker τ
  | .lifo placed => w.pushLocalLifo task placed
  | .fifo placed => w.pushLocalFifo task placed
  | .inbox => { w with pinnedInbox := w.pinnedInbox ++ [task] }
  | .elsewhere => w

/-- Only the worker itself fills its slot and its queue. -/
def Target.isOwners : Target → Bool
  | .lifo _ | .fifo _ => true
  | .inbox | .elsewhere => false

namespace State

variable (s : State τ)

/-- Something happens. -/
def logs (event : Event) : State τ := { s with log := event :: s.log }

/-- The loop has a task: it counts the dispatch and switches. -/
def dispatch (task : τ) : State τ :=
  { s.logs .dispatch with tick := (s.tick + 1) % 2 ^ 32, place := .runs task, reaping := false }

/-- A task leaves for the next one or for the dispatcher. -/
def switchTo (departure : Departure τ) (next : Option τ) : State τ :=
  { (if next.isSome then s.logs .handOff else s) with place := .hook departure next }

/-- The loop up to its call of `takeLocal`. -/
def loop (injected : Option τ) : Option (State τ) :=
  if s.tick % kInjectionCheckPeriod = 0 then
    match injected with
    | some task => some ((s.logs .maintain).dispatch task)
    | none => some { s.logs .maintain with place := .takes }
  else if injected = none then some { s with place := .takes } else none

/-- `takeLocal` has answered. -/
def taken (task : Option τ) : Option (State τ) :=
  match s.place, task with
  | .takes, some task => some (s.dispatch task)
  | .takes, none => some { s with place := .searches }
  | .idlesTaking, some task => some (s.dispatch task)
  | .idlesTaking, none => some { s with place := .idles }
  | .yields self _, some task => some (s.switchTo (.yielded self) (some task))
  | .yields self fairnessTick, none => some { s with place := .yieldsLooking self fairnessTick }
  | .leaves departure, next => some (s.switchTo departure next)
  | _, _ => none

/-- A part of a call of `takeLocal`. -/
def takeLocal (part : TakeLocal.Label τ) : Option (State τ) :=
  match part with
  | .takeLocal | .popLocal | .popInbox _ =>
    (s.worker.step part).bind fun w ↦
      if w.pc = .out then { s with worker := w }.taken (w.calls.head?.bind TakeLocal.Call.task)
      else some { s with worker := w }
  | _ => none

/-- `yield` up to its call of `takeLocal`. -/
def yield (self : τ) (injected : Option τ) (placed : Placed) : Option (State τ) :=
  let yields := (s.yieldTick + 1) % 2 ^ 32
  if yields % 64 = 0 then
    some { s.logs .look with
      yieldTick := yields
      worker := match injected with
        | some task => s.worker.pushLocalFifo task placed
        | none => s.worker
      place := .yields self true }
  else if injected = none then
    some { s with yieldTick := yields, place := .yields self false } else none

/-- `yield` has found no local task. -/
def yieldLook (self : τ) (fairnessTick : Bool) (injected : Option τ) : State τ :=
  if injected.isSome ∨ fairnessTick then (s.logs .look).switchTo (.yielded self) injected
  else { s.logs .look with place := .runs self }

/-- Who goes on after a switch: the next task, or the dispatcher where it was. -/
def arrival : Option τ → Place τ
  | some task => .runs task
  | none => if s.reaping then .idles else .top

/-- The post-switch hook: a task that has yielded waits again, and so does one that was woken
before it had parked. -/
def runHook (departure : Departure τ) (next : Option τ) (target : Target) : Option (State τ) :=
  match departure, target with
  | .yielded task, .fifo _ | .yielded task, .inbox | .parked task, _ =>
    some { s with worker := schedule s.worker task target, place := s.arrival next }
  | .finished, .elsewhere => some { s with place := s.arrival next }
  | _, _ => none

/-- What thieves and wakers do. -/
def others (move : TakeLocal.Label τ) : Option (State τ) :=
  match move with
  | .steal _ | .exchangeInbox _ | .linkInbox =>
    (s.worker.step move).map fun w ↦ { s with worker := w }
  | _ => none

variable [DecidableEq τ]

/-- One step. -/
def step (s : State τ) : Label τ → Option (State τ)
  | .schedule task target =>
    if s.worker.pc = .out ∨ target.isOwners = false then
      some { s with worker := schedule s.worker task target } else none
  | .others move => s.others move
  | .top injected => if s.place = .top then s.loop injected else none
  | .takeLocal part => s.takeLocal part
  | .search found =>
    if s.place = .searches then
      match found with
      | some task => some ((s.logs .look).dispatch task)
      | none => some { s.logs .look with place := .idles }
    else none
  | .unwind task =>
    if s.place = .idles then some { s.logs .unwind with place := .runs task, reaping := true }
    else none
  | .retake => if s.place = .idles then some { s with place := .idlesTaking } else none
  | .parkIdle slept found =>
    if s.place = .idles then
      let woken := if slept then s.logs .sleep else s
      match found with
      | some task => some (woken.dispatch task)
      | none => some { woken with place := .top, reaping := false }
    else none
  | .yield injected placed =>
    match s.place with
    | .runs self => s.yield self injected placed
    | _ => none
  | .look injected =>
    match s.place with
    | .yieldsLooking self fairnessTick => some (s.yieldLook self fairnessTick injected)
    | _ => none
  | .park notified =>
    match s.place with
    | .runs self => some (if notified then s else { s with place := .leaves (.parked self) })
    | _ => none
  | .finish =>
    match s.place with
    | .runs _ => some { s with place := .leaves .finished }
    | _ => none
  | .hook target =>
    match s.place with
    | .hook departure next => s.runHook departure next target
    | _ => none

/-- A worker at the start of `run`. -/
def initial : State τ := ⟨.initial, 0, 0, .top, false, []⟩

end State

/-- One worker and everything around it. -/
def system (τ : Type u) [DecidableEq τ] : System (State τ) (Label τ) where
  init s := s = State.initial
  step := State.step

/-! ### How far apart the maintenances are -/

namespace Event

/-- A maintenance. -/
def isMaintain : Event → Bool
  | .maintain => true
  | _ => false

/-- A look at the injection queue. -/
def looks : Event → Bool
  | .maintain | .look => true
  | _ => false

/-- A switch that the loop counts. -/
def isDispatch : Event → Bool
  | .dispatch => true
  | _ => false

/-- A switch that it does not count. -/
def bypasses : Event → Bool
  | .handOff | .unwind => true
  | _ => false

/-- A switch to a task. -/
def isSwitch (event : Event) : Bool := event.isDispatch || event.bypasses

end Event

/-- Among any `bound` switches in a row of a worker that does not sleep there is a maintenance, and
a look at the injection queue. -/
def Upkept (bound : ℕ) (log : List Event) : Prop :=
  ∀ window, window <:+: log → .sleep ∉ window → bound ≤ window.countP Event.isSwitch →
    .maintain ∈ window ∧ ∃ event ∈ window, event.looks = true

/-- No more than `bound` switches in a row bypass the dispatcher. -/
def Bypassed (bound : ℕ) (log : List Event) : Prop :=
  RowsWithin (fun event ↦ event.bypasses || decide (event = .look)) Event.bypasses bound log

/-- How often the loop has dispatched since the last maintenance. -/
def sinceMaintain (log : List Event) : ℕ :=
  lastRow (fun event ↦ !event.isMaintain) Event.isDispatch log

namespace State

variable {s s' : State τ}

/-- The loop has tested its counter and has not dispatched since. -/
def Tested (s : State τ) : Prop :=
  match s.place with
  | .top => False
  | .takes | .searches | .idles | .idlesTaking => True
  | _ => s.reaping = true

/-- The counter of the loop bounds the dispatches since the last maintenance. -/
structure Due (s : State τ) : Prop where
  tick_lt : s.tick < 2 ^ 32
  rows : RowsWithin (fun event ↦ !event.isMaintain) Event.isDispatch kInjectionCheckPeriod s.log
  since_le : s.Tested ∨ s.tick % kInjectionCheckPeriod ≠ 0 →
    sinceMaintain s.log ≤ s.tick % kInjectionCheckPeriod

namespace Due

theorem initial : Due (State.initial : State τ) := ⟨Nat.two_pow_pos 32, .nil, fun _ ↦ Nat.zero_le _⟩

/-- What neither dispatches nor maintains leaves the count as it is. -/
theorem keep (h : Due s) (htick : s'.tick = s.tick)
    (hlog : s'.log = s.log ∨ ∃ event : Event, event.isMaintain = false ∧
      event.isDispatch = false ∧ s'.log = event :: s.log)
    (htested : s'.Tested → s.Tested) : Due s' := by
  have hsince : sinceMaintain s'.log = sinceMaintain s.log := by
    rcases hlog with hlog | ⟨event, hmaintain, hdispatch, hlog⟩
    · rw [hlog]
    · rw [hlog, sinceMaintain, lastRow_cons _ (by rw [hmaintain]; rfl), hdispatch]
      rfl
  refine ⟨htick ▸ h.tick_lt, ?_, fun hdue ↦ ?_⟩
  · have hlast := h.rows.lastRow_le
    rcases hlog with hlog | ⟨event, -, -, hlog⟩
    · exact hlog ▸ h.rows
    · rw [hlog] at hsince ⊢
      exact h.rows.cons (Nat.le_trans (Nat.le_of_eq hsince) hlast)
  · rw [hsince, htick]
    exact h.since_le (hdue.imp htested fun hne ↦ htick ▸ hne)

/-- A dispatch follows the test of the counter, and counts. -/
theorem dispatch (h : Due s) (htested : s.Tested) (task : τ) : Due (s.dispatch task) := by
  have hle := h.since_le (.inl htested)
  have hmod := Nat.mod_lt s.tick (show 0 < kInjectionCheckPeriod by decide)
  have hsince : sinceMaintain (s.dispatch task).log = sinceMaintain s.log + 1 := by
    change sinceMaintain (.dispatch :: s.log) = _
    rw [sinceMaintain, lastRow_cons _ rfl]
    rfl
  have hlt := h.tick_lt
  refine ⟨Nat.mod_lt _ (by decide), h.rows.cons ?_, fun hdue ↦ ?_⟩
  · change sinceMaintain (s.dispatch task).log ≤ _
    omega
  · have hne := hdue.resolve_left fun hfalse ↦ by cases hfalse
    change (s.tick + 1) % 2 ^ 32 % kInjectionCheckPeriod ≠ 0 at hne
    rw [hsince]
    change _ ≤ (s.tick + 1) % 2 ^ 32 % kInjectionCheckPeriod
    -- When the counter wraps, a maintenance is due whatever it has been.
    rcases Nat.lt_or_eq_of_le (Nat.succ_le_of_lt hlt) with hin | hwrap
    · rw [Nat.mod_eq_of_lt hin] at hne ⊢
      rw [kInjectionCheckPeriod] at *
      omega
    · rw [Nat.succ_eq_add_one] at hwrap
      rw [hwrap, Nat.mod_self, Nat.zero_mod] at hne
      exact absurd rfl hne

/-- A maintenance is done when the counter has come round. -/
theorem maintain (h : Due s) (place : Place τ) : Due { s.logs .maintain with place := place } := by
  have hsince : sinceMaintain (.maintain :: s.log) = 0 := lastRow_cons_of_not _ rfl
  refine ⟨h.tick_lt, h.rows.cons_of_not rfl, fun _ ↦ ?_⟩
  change sinceMaintain (.maintain :: s.log) ≤ _
  rw [hsince]
  exact Nat.zero_le _

theorem loop (h : Due s) {injected : Option τ} (hloop : s.loop injected = some s') : Due s' := by
  unfold State.loop at hloop
  split at hloop
  · split at hloop <;> cases hloop
    · exact (h.maintain .takes).dispatch trivial _
    · exact h.maintain .takes
  · rename_i hturn
    obtain ⟨-, hloop⟩ := Option.ite_none_right_eq_some.mp hloop
    cases hloop
    exact ⟨h.tick_lt, h.rows, fun _ ↦ h.since_le (.inr hturn)⟩

/-- What is done about a task that leaves for the next one. -/
theorem switchTo (h : Due s) (htested : s.reaping = true → s.Tested) (departure : Departure τ)
    (next : Option τ) : Due (s.switchTo departure next) := by
  rw [State.switchTo]
  split
  · exact h.keep rfl (.inr ⟨.handOff, rfl, rfl, rfl⟩) htested
  · exact h.keep rfl (.inl rfl) htested

theorem taken (h : Due s) {task : Option τ} (htaken : s.taken task = some s') : Due s' := by
  have htested : s.Tested ↔ match s.place with
    | .top => False
    | .takes | .searches | .idles | .idlesTaking => True
    | _ => s.reaping = true := Iff.rfl
  unfold State.taken at htaken
  split at htaken <;> cases htaken
  case h_1 hplace => exact h.dispatch (htested.mpr (by rw [hplace]; trivial)) _
  case h_2 hplace => exact h.keep rfl (.inl rfl) fun _ ↦ htested.mpr (by rw [hplace]; trivial)
  case h_3 hplace => exact h.dispatch (htested.mpr (by rw [hplace]; trivial)) _
  case h_4 hplace => exact h.keep rfl (.inl rfl) fun _ ↦ htested.mpr (by rw [hplace]; trivial)
  case h_5 hplace => exact h.switchTo (fun hreap ↦ htested.mpr (by rw [hplace]; exact hreap)) _ _
  case h_6 hplace =>
    exact h.keep rfl (.inl rfl) fun hreap ↦ htested.mpr (by rw [hplace]; exact hreap)
  case h_7 hplace => exact h.switchTo (fun hreap ↦ htested.mpr (by rw [hplace]; exact hreap)) _ _

theorem takeLocal (h : Due s) {part : TakeLocal.Label τ}
    (htake : s.takeLocal part = some s') : Due s' := by
  unfold State.takeLocal at htake
  split at htake
  case h_4 => cases htake
  all_goals
    obtain ⟨w, -, htake⟩ := Option.bind_eq_some_iff.mp htake
    have hsame : Due { s with worker := w } := h.keep rfl (.inl rfl) id
    split at htake
    · exact hsame.taken htake
    · cases htake
      exact hsame

theorem yield (h : Due s) {self : τ} (hplace : s.place = .runs self) {injected : Option τ}
    {placed : Placed} (hyield : s.yield self injected placed = some s') : Due s' := by
  have htested : s.reaping = true → s.Tested := fun hreap ↦ by rw [Tested, hplace]; exact hreap
  unfold State.yield at hyield
  dsimp only at hyield
  split at hyield
  · cases hyield
    exact h.keep rfl (.inr ⟨.look, rfl, rfl, rfl⟩) htested
  · obtain ⟨-, hyield⟩ := Option.ite_none_right_eq_some.mp hyield
    cases hyield
    exact h.keep rfl (.inl rfl) htested

theorem look (h : Due s) : Due (s.logs .look) :=
  h.keep rfl (.inr ⟨.look, rfl, rfl, rfl⟩) id

theorem yieldLook (h : Due s) {self : τ} {fairnessTick : Bool}
    (hplace : s.place = .yieldsLooking self fairnessTick) (injected : Option τ) :
    Due (s.yieldLook self fairnessTick injected) := by
  have htested : s.reaping = true → s.Tested := fun hreap ↦ by rw [Tested, hplace]; exact hreap
  rw [State.yieldLook]
  split
  · exact h.look.switchTo htested _ _
  · exact h.look.keep rfl (.inl rfl) htested

theorem runHook (h : Due s) {departure : Departure τ} {next : Option τ} {target : Target}
    (hplace : s.place = .hook departure next)
    (hhook : s.runHook departure next target = some s') : Due s' := by
  have htested : s.reaping = true → s.Tested := fun hreap ↦ by rw [Tested, hplace]; exact hreap
  have hgoes : ∀ w, Due { s with worker := w, place := s.arrival next } := by
    intro w
    refine h.keep rfl (.inl rfl) fun hnext ↦ htested ?_
    cases next with
    | some task => exact hnext
    | none =>
      cases hreap : s.reaping with
      | true => rfl
      | false =>
        have hfalse : Tested { s with worker := w, place := .top } := by
          simpa [arrival, hreap] using hnext
        exact hfalse.elim
  unfold State.runHook at hhook
  split at hhook <;> cases hhook <;> exact hgoes _

variable [DecidableEq τ]

/-- Every step keeps the count. -/
theorem step (h : Due s) {label : Label τ} (hstep : s.step label = some s') : Due s' := by
  cases label with
  | schedule task target =>
    obtain ⟨-, hstep⟩ := Option.ite_none_right_eq_some.mp hstep
    cases hstep
    exact h.keep rfl (.inl rfl) id
  | others move =>
    replace hstep : s.others move = some s' := hstep
    unfold State.others at hstep
    split at hstep
    case h_4 => cases hstep
    all_goals
      obtain ⟨w, -, rfl⟩ := Option.map_eq_some_iff.mp hstep
      exact h.keep rfl (.inl rfl) id
  | top injected =>
    obtain ⟨-, hstep⟩ := Option.ite_none_right_eq_some.mp hstep
    exact h.loop hstep
  | takeLocal part => exact h.takeLocal hstep
  | search found =>
    obtain ⟨hplace, hstep⟩ := Option.ite_none_right_eq_some.mp hstep
    have htested : s.Tested := by rw [Tested, hplace]; trivial
    cases found with
    | some task =>
      cases hstep
      exact h.look.dispatch htested task
    | none =>
      cases hstep
      exact h.look.keep rfl (.inl rfl) fun _ ↦ htested
  | unwind task =>
    obtain ⟨hplace, hstep⟩ := Option.ite_none_right_eq_some.mp hstep
    cases hstep
    exact h.keep rfl (.inr ⟨.unwind, rfl, rfl, rfl⟩) fun _ ↦ by rw [Tested, hplace]; trivial
  | retake =>
    obtain ⟨hplace, hstep⟩ := Option.ite_none_right_eq_some.mp hstep
    cases hstep
    exact h.keep rfl (.inl rfl) fun _ ↦ by rw [Tested, hplace]; trivial
  | parkIdle slept found =>
    obtain ⟨hplace, hstep⟩ := Option.ite_none_right_eq_some.mp hstep
    have htested : s.Tested := by rw [Tested, hplace]; trivial
    have hwoken : Due (if slept then s.logs .sleep else s) ∧
        (if slept then s.logs .sleep else s).Tested := by
      split
      · exact ⟨h.keep rfl (.inr ⟨.sleep, rfl, rfl, rfl⟩) id, htested⟩
      · exact ⟨h, htested⟩
    cases found with
    | some task =>
      cases hstep
      exact hwoken.1.dispatch hwoken.2 task
    | none =>
      cases hstep
      exact hwoken.1.keep rfl (.inl rfl) fun hfalse ↦ hfalse.elim
  | yield injected placed =>
    rw [State.step] at hstep
    split at hstep
    · exact h.yield ‹_› hstep
    · cases hstep
  | look injected =>
    rw [State.step] at hstep
    split at hstep
    · cases hstep
      exact h.yieldLook ‹_› injected
    · cases hstep
  | park notified =>
    rw [State.step] at hstep
    split at hstep
    · rename_i hplace
      cases hstep
      split
      · exact h
      · exact h.keep rfl (.inl rfl) fun hreap ↦ by rw [Tested, hplace]; exact hreap
    · cases hstep
  | finish =>
    rw [State.step] at hstep
    split at hstep
    · rename_i hplace
      cases hstep
      exact h.keep rfl (.inl rfl) fun hreap ↦ by rw [Tested, hplace]; exact hreap
    · cases hstep
  | hook target =>
    rw [State.step] at hstep
    split at hstep
    · exact h.runHook ‹_› hstep
    · cases hstep

end Due

end State

variable [DecidableEq τ]

theorem due_of_reachable {s : State τ} (h : (system τ).Reachable s) : s.Due :=
  h.invariant (P := State.Due) (fun _ hinit ↦ hinit ▸ .initial) fun _ _ _ hdue hstep ↦ hdue.step hstep

/-- With a bound on the switches in a row that bypass the dispatcher, there is one on the switches
between two maintenances. -/
theorem upkept_of_bypassed {s : State τ} (h : (system τ).Reachable s) {bound : ℕ}
    (hbypassed : Bypassed bound s.log) :
    Upkept ((kInjectionCheckPeriod + 1) * (bound + 1)) s.log := by
  intro window hwindow hsleep hmany
  have hmaintain : .maintain ∈ window := by
    by_contra hnone
    have hkind : ∀ event ∈ window, event.isDispatch = false →
        (event.bypasses || decide (event = .look)) = true := by
      intro event hmem hdispatch
      cases event with
      | maintain => exact absurd hmem hnone
      | sleep => exact absurd hmem hsleep
      | dispatch => cases hdispatch
      | look | handOff | unwind => rfl
    have hdispatches : window.countP Event.isDispatch ≤ kInjectionCheckPeriod := by
      refine (due_of_reachable h).rows window hwindow fun event hmem ↦ ?_
      cases event with
      | maintain => exact absurd hmem hnone
      | sleep | dispatch | look | handOff | unwind => rfl
    have hrows : RowsWithin (fun event ↦ !event.isDispatch) Event.bypasses bound window :=
      fun row hrow hall ↦ hbypassed row (hrow.trans hwindow) fun event hmem ↦
        hkind event (hrow.subset hmem) (by simpa using hall event hmem)
    have hcount : window.countP Event.isSwitch ≤ bound + kInjectionCheckPeriod * (bound + 1) :=
      Nat.le_trans hrows.countP_le
        (Nat.add_le_add hrows.lastRow_le (Nat.mul_le_mul_right _ hdispatches))
    rw [Nat.succ_mul] at hmany
    omega
  exact ⟨hmaintain, .maintain, hmaintain, rfl⟩

/-- With a bound between two maintenances, there is one on what bypasses the dispatcher. -/
theorem bypassed_of_upkept {log : List Event} {bound : ℕ} (h : Upkept bound log) :
    Bypassed bound log := by
  intro row hrow hall
  by_contra hmany
  have hnot : ∀ event ∈ row, event ≠ .maintain ∧ event ≠ .sleep := by
    intro event hmem
    have hkind := hall event hmem
    cases event with
    | maintain | sleep | dispatch => cases hkind
    | look | handOff | unwind => exact ⟨by decide, by decide⟩
  have hle : row.countP Event.bypasses ≤ row.countP Event.isSwitch :=
    List.countP_mono_left fun event _ hbypasses ↦ by rw [Event.isSwitch, hbypasses, Bool.or_true]
  obtain ⟨hmaintain, -⟩ := h row hrow (fun hsleep ↦ (hnot _ hsleep).2 rfl) (by omega)
  exact (hnot _ hmaintain).1 rfl

/-- **The runs of a set have a common bound on the switches between two maintenances exactly when
they have one on the switches in a row that bypass the dispatcher.** -/
theorem upkeep_bounded_iff (runs : Set {s : State τ // (system τ).Reachable s}) :
    (∃ bound, ∀ s ∈ runs, Upkept bound s.1.log) ↔ ∃ bound, ∀ s ∈ runs, Bypassed bound s.1.log := by
  constructor
  · rintro ⟨bound, h⟩
    exact ⟨bound, fun s hs ↦ bypassed_of_upkept (h s hs)⟩
  · rintro ⟨bound, h⟩
    exact ⟨_, fun s hs ↦ upkept_of_bypassed s.2 (h s hs)⟩

/-! ### Two tasks that wake each other -/

/-- Who runs after so many hand-offs. -/
def runner : ℕ → Bool
  | 0 => false
  | n + 1 => !runner n

/-- The answers of `takeLocal` until then. -/
def handedOff : ℕ → List (TakeLocal.Call Bool)
  | 0 => []
  | n + 1 => ⟨some (runner (n + 1)), true, false⟩ :: handedOff n

/-- Two tasks have woken each other and parked so many times. -/
def pingPong (n : ℕ) : State Bool where
  worker := ⟨none, n % 2 ^ 32, [], [], 0, .out, handedOff n⟩
  tick := 1
  yieldTick := 0
  place := .runs (runner n)
  reaping := false
  log := List.replicate n .handOff ++ [.dispatch, .maintain]

/-- A task wakes the other one, which goes into the slot, and parks. -/
theorem pingPong_succ (n : ℕ) : (system Bool).run (pingPong n)
    [.schedule (runner (n + 1)) (.lifo .queued), .park false, .takeLocal .takeLocal,
      .hook .elsewhere] = some (pingPong (n + 1)) := by
  simp [System.run, System.runUnder, system, State.step.eq_def, schedule, pingPong, handedOff,
    State.takeLocal, State.taken, State.switchTo, State.logs, State.runHook, State.arrival,
    TakeLocal.Worker.pushLocalLifo, TakeLocal.Worker.step, TakeLocal.Worker.takeLocal,
    TakeLocal.Worker.answer, TakeLocal.Worker.waiting, List.replicate_succ]

theorem reachable_pingPong (n : ℕ) : (system Bool).Reachable (pingPong n) := by
  induction n with
  | zero =>
    have hrun : (system Bool).run .initial [.top (some false)] = some (pingPong 0) := rfl
    exact System.reachable_of_run (s := State.initial) rfl hrun
  | succ n ih =>
    have hrun := pingPong_succ n
    exact (System.ReachableUnder.runUnder (ih.mono fun _ _ _ ↦ rfl) hrun).reachable

/-- Nothing bounds the number of switches between two maintenances. -/
theorem upkeep_unbounded :
    ¬ ∃ bound, ∀ s : State Bool, (system Bool).Reachable s → Upkept bound s.log := by
  rintro ⟨bound, h⟩
  have hprefix : List.replicate bound Event.handOff <:+: (pingPong bound).log :=
    (List.prefix_append _ _).isInfix
  obtain ⟨hmaintain, -⟩ := h _ (reachable_pingPong bound) _ hprefix
    (fun hmem ↦ by cases List.eq_of_mem_replicate hmem)
    (by rw [List.countP_replicate]; exact Nat.le_refl _)
  cases List.eq_of_mem_replicate hmaintain

end Stackfull.Sched.Upkeep
