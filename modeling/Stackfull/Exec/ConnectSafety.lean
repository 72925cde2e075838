import Stackfull.Exec.Connect

/-!
# When `async_connect` survives a stop request

One party at a time may complete the operation: the starter until it has queued the waiter, then
whoever takes the waiter back, the poller with a report or the stop callback (`Turns`). The callback
runs on one thread, and while it exists the stream is the operation's (`Owner`). What the operation
did with its stream is in the words (`Accounts`).

`finish()` breaks this where the handshake failed: it resets the stream before the callback is
disarmed.
-/

set_option autoImplicit false
set_option relaxedAutoImplicit false
set_option linter.dupNamespace false

namespace Stackfull.Exec.Connect

open Stackfull.Lib

/-! ### The invariant -/

/-- The thread is in `start()` and has neither queued the waiter nor decided how to complete. -/
def Pc.Starts (pc : Pc) : Prop :=
  pc = .begin ∨ pc = .tryNow ∨ pc = .listen ∨ pc = .drive ∨ pc = .deref ∨ pc = .unwatch ∨
    pc = .callbackDone

/-- The thread is on its way to complete the receiver. -/
def Pc.Completes (pc : Pc) : Prop :=
  pc = .finish ∨ pc = .reset ∨ (∃ ending, pc = .stopListener ending) ∨
    ∃ ending, pc = .complete ending

/-- The thread is in the stop callback and has not looked at the waiter yet. -/
def Pc.Cancels (pc : Pc) : Prop :=
  pc = .deref ∨ pc = .unwatch

/-- Whose turn it is. -/
structure Turns (s : State) : Prop where
  starting : (s.pc .starter).Starts ∨ s.pc .starter = .idle →
    s.waker = false ∧ s.completions = [] ∧ ∀ agent, ¬ (s.pc agent).Completes
  queued : s.waker = true →
    s.pc .starter = .returned ∧ s.completions = [] ∧ ∀ agent, ¬ (s.pc agent).Completes
  completing : ∀ agent, (s.pc agent).Completes →
    s.waker = false ∧ s.completions = [] ∧ (agent ≠ .starter → s.pc .starter = .returned)
  oneCompletes : ∀ agent other, (s.pc agent).Completes → (s.pc other).Completes → agent = other
  once : s.completions.length ≤ 1
  somebody : s.pc .starter = .returned →
    s.completions ≠ [] ∨ s.waker = true ∨ (s.pc .poller).Completes ∨ (s.pc .stopper).Completes
  poller : s.pc .poller = .idle ∨ (s.pc .poller).Completes
  stopper : s.pc .stopper = .idle ∨ (s.pc .stopper).Cancels ∨ s.pc .stopper = .callbackDone ∨
    s.pc .stopper = .stopListener .stopped ∨ s.pc .stopper = .complete .stopped

/-- Who holds the callback and the stream. -/
structure Owner (stoppable : Bool) (s : State) : Prop where
  allowed : s.callback ≠ .absent ∨ s.stopRequested = true → stoppable = true
  fresh : s.pc .starter = .idle ∨ s.pc .starter = .begin ∨ s.pc .starter = .tryNow →
    s.callback = .absent ∧ s.stream = .absent
  unlistened : s.pc .starter = .listen → s.callback = .absent
  listened : stoppable = true → s.pc .starter = .drive ∨ s.waker = true → s.callback ≠ .absent
  waits : s.pc .starter = .listen ∨ s.pc .starter = .drive ∨ s.waker = true → s.stream = .owned
  owns : s.callback ≠ .absent → s.callback ≠ .destroyed → s.stream = .owned
  finishes : ∀ agent, s.pc agent = .finish ∨ s.pc agent = .reset ∨
    s.pc agent = .stopListener .value ∨ s.pc agent = .complete .value → s.stream = .owned
  resets : ∀ agent, s.pc agent = .reset → s.callback = .absent
  inside : ∀ agent, (s.pc agent).Cancels → s.callback = .running agent
  inStop : s.pc .stopper = .stopListener .stopped → s.callback = .running .stopper
  returns : s.pc .starter = .callbackDone → s.callback = .running .starter ∧ s.cancelled = true
  runs : ∀ agent, s.callback = .running agent →
    (s.pc agent).Cancels ∨ s.pc agent = .callbackDone ∨
      agent = .stopper ∧ s.pc agent = .stopListener .stopped
  disarmed : ∀ agent ending, s.pc agent = .complete ending →
    s.callback = .absent ∨ s.callback = .destroyed
  destroyed : s.callback = .destroyed → s.waker = false ∧ ¬ (s.pc .starter).Starts
  rung : s.callback = .ran ∨ (∃ agent, s.callback = .running agent) → s.stopRequested = true
  completed : s.completions ≠ [] → s.callback = .absent ∨ s.callback = .destroyed
  heard : s.stopRequested = true → s.callback ≠ .absent →
    s.pc .starter = .drive ∨ s.waker = true →
    s.cancelled = true ∧ s.waker = false ∨ (s.pc .stopper).Cancels
  noFault : s.fault = false

/-- What the operation did with its stream. -/
structure Accounts (s : State) : Prop where
  pending : s.completions = [] → s.destroyed = false ∧ s.handOuts = 0
  absent : s.stream = .absent → s.closes = 0 ∧ s.handOuts = 0
  owned : s.stream = .owned → s.closes = 0 ∧ s.handOuts = 0 ∧ s.destroyed = false
  closed : s.stream = .closed → s.closes = 1 ∧ s.handOuts = 0
  handedOut : s.stream = .handedOut → s.closes = 0 ∧ s.handOuts = 1
  value : s.completions = [.value] ↔ s.stream = .handedOut

/-- The invariant of an `async_connect`. -/
structure Sound (stoppable : Bool) (s : State) : Prop where
  turns : Turns s
  owner : Owner stoppable s
  accounts : Accounts s

attribute [mk_iff] Turns Owner Accounts
attribute [local grind] Pc.Starts Pc.Completes Pc.Cancels

theorem sound_initial (stoppable : Bool) : Sound stoppable initial := by
  refine ⟨?_, ?_, ?_⟩
  · constructor <;> grind -linarith [initial]
  · constructor <;> grind -linarith [initial]
  · constructor <;> grind -linarith [initial]

/-! ### The steps -/

section
variable {stoppable : Bool} {s : State}

/-- Only the starter is in the first part of `start()`. -/
theorem Turns.starter_of {agent : Agent} (hs : Turns s)
    (hpc : s.pc agent = .begin ∨ s.pc agent = .tryNow ∨ s.pc agent = .listen ∨
      s.pc agent = .drive) : agent = .starter := by
  cases agent with
  | starter => rfl
  | poller => exact absurd hs.poller (by grind -linarith)
  | stopper => exact absurd hs.stopper (by grind -linarith)

/-- `start()` is called. -/
theorem Sound.start (hs : Sound stoppable s) (hidle : s.pc .starter = .idle) :
    Sound stoppable (s.goto .starter .begin) := by
  obtain ⟨hturns, howner, haccounts⟩ := hs
  refine ⟨?_, ?_, ?_⟩
  · obtain ⟨h1, h2, h3, h4, h5, h6, h7, h8⟩ := hturns
    rw [turns_iff]
    dsimp only [State.goto]
    grind -linarith
  · obtain ⟨h1, h2, h3, h4, h5, h6, h7, h8⟩ := hturns
    obtain ⟨h1, h2, h3, h4, h5, h6, h7, h8, h9, h10, h11, h12, h13, h14, h15, h16, h17, h18⟩ :=
      howner
    rw [owner_iff]
    dsimp only [State.goto]
    grind -linarith
  · obtain ⟨h1, h2, h3, h4, h5, h6⟩ := haccounts
    exact ⟨h1, h2, h3, h4, h5, h6⟩

/-- A stop request that finds a registered callback runs it. -/
theorem Sound.requestStop_registered (hs : Sound stoppable s)
    (hstoppable : stoppable = true) (hidle : s.pc .stopper = .idle)
    (hcallback : s.callback = .registered) :
    Sound stoppable ({ s with stopRequested := true, callback := .running .stopper }.goto
      .stopper .deref) := by
  obtain ⟨hturns, howner, haccounts⟩ := hs
  refine ⟨?_, ?_, ?_⟩
  · obtain ⟨h1, h2, h3, h4, h5, h6, h7, h8⟩ := hturns
    rw [turns_iff]
    dsimp only [State.goto]
    grind -linarith
  · obtain ⟨h1, h2, h3, h4, h5, h6, h7, h8⟩ := hturns
    obtain ⟨h1, h2, h3, h4, h5, h6, h7, h8, h9, h10, h11, h12, h13, h14, h15, h16, h17, h18⟩ :=
      howner
    rw [owner_iff]
    dsimp only [State.goto]
    grind -linarith
  · obtain ⟨h1, h2, h3, h4, h5, h6⟩ := haccounts
    exact ⟨h1, h2, h3, h4, h5, h6⟩

/-- A stop request that finds none leaves word. -/
theorem Sound.requestStop (hs : Sound stoppable s)
    (hstoppable : stoppable = true) (hrequested : s.stopRequested = false)
    (hcallback : s.callback ≠ .registered) :
    Sound stoppable ({ s with stopRequested := true }) := by
  obtain ⟨hturns, howner, haccounts⟩ := hs
  have hquiet : s.callback = .absent ∨ s.callback = .destroyed := by
    cases hcases : s.callback with
    | absent => exact .inl rfl
    | destroyed => exact .inr rfl
    | registered => exact absurd hcases hcallback
    | running agent => grind -linarith [howner.rung (.inr ⟨agent, hcases⟩)]
    | ran => grind -linarith [howner.rung (.inl hcases)]
  refine ⟨?_, ?_, ?_⟩
  · obtain ⟨h1, h2, h3, h4, h5, h6, h7, h8⟩ := hturns
    rw [turns_iff]
    dsimp only [State.goto]
    grind -linarith
  · obtain ⟨h1, h2, h3, h4, h5, h6, h7, h8⟩ := hturns
    obtain ⟨h1, h2, h3, h4, h5, h6, h7, h8, h9, h10, h11, h12, h13, h14, h15, h16, h17, h18⟩ :=
      howner
    rw [owner_iff]
    dsimp only [State.goto]
    grind -linarith
  · obtain ⟨h1, h2, h3, h4, h5, h6⟩ := haccounts
    exact ⟨h1, h2, h3, h4, h5, h6⟩

/-- A report takes the waiter. -/
theorem Sound.report_woken (hs : Sound stoppable s)
    (howned : s.stream = .owned) (hwaker : s.waker = true) :
    Sound stoppable ({ s with events := s.events + 1, waker := false }.goto .poller .finish) := by
  obtain ⟨hturns, howner, haccounts⟩ := hs
  refine ⟨?_, ?_, ?_⟩
  · obtain ⟨h1, h2, h3, h4, h5, h6, h7, h8⟩ := hturns
    rw [turns_iff]
    dsimp only [State.goto]
    grind -linarith
  · obtain ⟨h1, h2, h3, h4, h5, h6, h7, h8⟩ := hturns
    obtain ⟨h1, h2, h3, h4, h5, h6, h7, h8, h9, h10, h11, h12, h13, h14, h15, h16, h17, h18⟩ :=
      howner
    rw [owner_iff]
    dsimp only [State.goto]
    grind -linarith
  · obtain ⟨h1, h2, h3, h4, h5, h6⟩ := haccounts
    exact ⟨h1, h2, h3, h4, h5, h6⟩

/-- A report that finds no waiter is counted. -/
theorem Sound.report (hs : Sound stoppable s) :
    Sound stoppable ({ s with events := s.events + 1 }) := by
  obtain ⟨hturns, howner, haccounts⟩ := hs
  refine ⟨?_, ?_, ?_⟩
  · obtain ⟨h1, h2, h3, h4, h5, h6, h7, h8⟩ := hturns
    rw [turns_iff]
    dsimp only [State.goto]
    grind -linarith
  · obtain ⟨h1, h2, h3, h4, h5, h6, h7, h8⟩ := hturns
    obtain ⟨h1, h2, h3, h4, h5, h6, h7, h8, h9, h10, h11, h12, h13, h14, h15, h16, h17, h18⟩ :=
      howner
    rw [owner_iff]
    dsimp only [State.goto]
    grind -linarith
  · obtain ⟨h1, h2, h3, h4, h5, h6⟩ := haccounts
    exact ⟨h1, h2, h3, h4, h5, h6⟩

/-- `start()` finds stop requested. -/
theorem Sound.begin_stopped (hs : Sound stoppable s) {agent : Agent} (hpc : s.pc agent = .begin) :
    Sound stoppable (s.goto agent (.complete .stopped)) := by
  obtain ⟨hturns, howner, haccounts⟩ := hs
  obtain rfl : agent = .starter := hturns.starter_of (by grind -linarith)
  refine ⟨?_, ?_, ?_⟩
  · obtain ⟨h1, h2, h3, h4, h5, h6, h7, h8⟩ := hturns
    rw [turns_iff]
    dsimp only [State.goto]
    grind -linarith
  · obtain ⟨h1, h2, h3, h4, h5, h6, h7, h8⟩ := hturns
    obtain ⟨h1, h2, h3, h4, h5, h6, h7, h8, h9, h10, h11, h12, h13, h14, h15, h16, h17, h18⟩ :=
      howner
    rw [owner_iff]
    dsimp only [State.goto]
    grind -linarith
  · obtain ⟨h1, h2, h3, h4, h5, h6⟩ := haccounts
    exact ⟨h1, h2, h3, h4, h5, h6⟩

theorem Sound.begin_tryNow (hs : Sound stoppable s) {agent : Agent} (hpc : s.pc agent = .begin) :
    Sound stoppable (s.goto agent .tryNow) := by
  obtain ⟨hturns, howner, haccounts⟩ := hs
  obtain rfl : agent = .starter := hturns.starter_of (by grind -linarith)
  refine ⟨?_, ?_, ?_⟩
  · obtain ⟨h1, h2, h3, h4, h5, h6, h7, h8⟩ := hturns
    rw [turns_iff]
    dsimp only [State.goto]
    grind -linarith
  · obtain ⟨h1, h2, h3, h4, h5, h6, h7, h8⟩ := hturns
    obtain ⟨h1, h2, h3, h4, h5, h6, h7, h8, h9, h10, h11, h12, h13, h14, h15, h16, h17, h18⟩ :=
      howner
    rw [owner_iff]
    dsimp only [State.goto]
    grind -linarith
  · obtain ⟨h1, h2, h3, h4, h5, h6⟩ := haccounts
    exact ⟨h1, h2, h3, h4, h5, h6⟩

/-- No socket could be opened. -/
theorem Sound.tryNow_failed (hs : Sound stoppable s) {agent : Agent} (hpc : s.pc agent = .tryNow) :
    Sound stoppable (s.goto agent (.stopListener .error)) := by
  obtain ⟨hturns, howner, haccounts⟩ := hs
  obtain rfl : agent = .starter := hturns.starter_of (by grind -linarith)
  refine ⟨?_, ?_, ?_⟩
  · obtain ⟨h1, h2, h3, h4, h5, h6, h7, h8⟩ := hturns
    rw [turns_iff]
    dsimp only [State.goto]
    grind -linarith
  · obtain ⟨h1, h2, h3, h4, h5, h6, h7, h8⟩ := hturns
    obtain ⟨h1, h2, h3, h4, h5, h6, h7, h8, h9, h10, h11, h12, h13, h14, h15, h16, h17, h18⟩ :=
      howner
    rw [owner_iff]
    dsimp only [State.goto]
    grind -linarith
  · obtain ⟨h1, h2, h3, h4, h5, h6⟩ := haccounts
    exact ⟨h1, h2, h3, h4, h5, h6⟩

/-- The stream is there and connected. -/
theorem Sound.tryNow_connected (hs : Sound stoppable s) {agent : Agent} (hpc : s.pc agent = .tryNow) :
    Sound stoppable ({ s with stream := .owned }.goto agent (.stopListener .value)) := by
  obtain ⟨hturns, howner, haccounts⟩ := hs
  obtain rfl : agent = .starter := hturns.starter_of (by grind -linarith)
  refine ⟨?_, ?_, ?_⟩
  · obtain ⟨h1, h2, h3, h4, h5, h6, h7, h8⟩ := hturns
    rw [turns_iff]
    dsimp only [State.goto]
    grind -linarith
  · obtain ⟨h1, h2, h3, h4, h5, h6, h7, h8⟩ := hturns
    obtain ⟨h1, h2, h3, h4, h5, h6, h7, h8, h9, h10, h11, h12, h13, h14, h15, h16, h17, h18⟩ :=
      howner
    rw [owner_iff]
    dsimp only [State.goto]
    grind -linarith
  · have hcompleting := hturns.completing
    have hfresh := howner.fresh
    have hfinishes := howner.finishes
    have hstarting := hturns.starting
    obtain ⟨h1, h2, h3, h4, h5, h6⟩ := haccounts
    rw [accounts_iff]
    dsimp only [State.goto]
    grind -linarith

/-- The stream is there and the handshake goes on. -/
theorem Sound.tryNow_inProgress (hs : Sound stoppable s) {agent : Agent} (hpc : s.pc agent = .tryNow) :
    Sound stoppable ({ s with stream := .owned }.goto agent .listen) := by
  obtain ⟨hturns, howner, haccounts⟩ := hs
  obtain rfl : agent = .starter := hturns.starter_of (by grind -linarith)
  refine ⟨?_, ?_, ?_⟩
  · obtain ⟨h1, h2, h3, h4, h5, h6, h7, h8⟩ := hturns
    rw [turns_iff]
    dsimp only [State.goto]
    grind -linarith
  · obtain ⟨h1, h2, h3, h4, h5, h6, h7, h8⟩ := hturns
    obtain ⟨h1, h2, h3, h4, h5, h6, h7, h8, h9, h10, h11, h12, h13, h14, h15, h16, h17, h18⟩ :=
      howner
    rw [owner_iff]
    dsimp only [State.goto]
    grind -linarith
  · have hcompleting := hturns.completing
    have hfresh := howner.fresh
    have hfinishes := howner.finishes
    have hstarting := hturns.starting
    obtain ⟨h1, h2, h3, h4, h5, h6⟩ := haccounts
    rw [accounts_iff]
    dsimp only [State.goto]
    grind -linarith

/-- A token that cannot be stopped gets no callback. -/
theorem Sound.listen_unstoppable (hs : Sound stoppable s) {agent : Agent} (hpc : s.pc agent = .listen)
    (hstoppable : stoppable = false) :
    Sound stoppable (s.goto agent .drive) := by
  obtain ⟨hturns, howner, haccounts⟩ := hs
  obtain rfl : agent = .starter := hturns.starter_of (by grind -linarith)
  refine ⟨?_, ?_, ?_⟩
  · obtain ⟨h1, h2, h3, h4, h5, h6, h7, h8⟩ := hturns
    rw [turns_iff]
    dsimp only [State.goto]
    grind -linarith
  · obtain ⟨h1, h2, h3, h4, h5, h6, h7, h8⟩ := hturns
    obtain ⟨h1, h2, h3, h4, h5, h6, h7, h8, h9, h10, h11, h12, h13, h14, h15, h16, h17, h18⟩ :=
      howner
    rw [owner_iff]
    dsimp only [State.goto]
    grind -linarith
  · obtain ⟨h1, h2, h3, h4, h5, h6⟩ := haccounts
    exact ⟨h1, h2, h3, h4, h5, h6⟩

/-- The callback runs inside its constructor. -/
theorem Sound.listen_requested (hs : Sound stoppable s) {agent : Agent} (hpc : s.pc agent = .listen)
    (hstoppable : stoppable = true) (hrequested : s.stopRequested = true) :
    Sound stoppable ({ s with callback := .running agent }.goto agent .deref) := by
  obtain ⟨hturns, howner, haccounts⟩ := hs
  obtain rfl : agent = .starter := hturns.starter_of (by grind -linarith)
  refine ⟨?_, ?_, ?_⟩
  · obtain ⟨h1, h2, h3, h4, h5, h6, h7, h8⟩ := hturns
    rw [turns_iff]
    dsimp only [State.goto]
    grind -linarith
  · obtain ⟨h1, h2, h3, h4, h5, h6, h7, h8⟩ := hturns
    obtain ⟨h1, h2, h3, h4, h5, h6, h7, h8, h9, h10, h11, h12, h13, h14, h15, h16, h17, h18⟩ :=
      howner
    rw [owner_iff]
    dsimp only [State.goto]
    grind -linarith
  · obtain ⟨h1, h2, h3, h4, h5, h6⟩ := haccounts
    exact ⟨h1, h2, h3, h4, h5, h6⟩

/-- The callback is registered. -/
theorem Sound.listen_registered (hs : Sound stoppable s) {agent : Agent} (hpc : s.pc agent = .listen)
    (hstoppable : stoppable = true) (hrequested : s.stopRequested = false) :
    Sound stoppable ({ s with callback := .registered }.goto agent .drive) := by
  obtain ⟨hturns, howner, haccounts⟩ := hs
  obtain rfl : agent = .starter := hturns.starter_of (by grind -linarith)
  refine ⟨?_, ?_, ?_⟩
  · obtain ⟨h1, h2, h3, h4, h5, h6, h7, h8⟩ := hturns
    rw [turns_iff]
    dsimp only [State.goto]
    grind -linarith
  · obtain ⟨h1, h2, h3, h4, h5, h6, h7, h8⟩ := hturns
    obtain ⟨h1, h2, h3, h4, h5, h6, h7, h8, h9, h10, h11, h12, h13, h14, h15, h16, h17, h18⟩ :=
      howner
    rw [owner_iff]
    dsimp only [State.goto]
    grind -linarith
  · obtain ⟨h1, h2, h3, h4, h5, h6⟩ := haccounts
    exact ⟨h1, h2, h3, h4, h5, h6⟩

/-- The queueing finds the waiter cancelled. -/
theorem Sound.drive_cancelled (hs : Sound stoppable s) {agent : Agent} (hpc : s.pc agent = .drive) :
    Sound stoppable (s.goto agent (.stopListener .stopped)) := by
  obtain ⟨hturns, howner, haccounts⟩ := hs
  obtain rfl : agent = .starter := hturns.starter_of (by grind -linarith)
  refine ⟨?_, ?_, ?_⟩
  · obtain ⟨h1, h2, h3, h4, h5, h6, h7, h8⟩ := hturns
    rw [turns_iff]
    dsimp only [State.goto]
    grind -linarith
  · obtain ⟨h1, h2, h3, h4, h5, h6, h7, h8⟩ := hturns
    obtain ⟨h1, h2, h3, h4, h5, h6, h7, h8, h9, h10, h11, h12, h13, h14, h15, h16, h17, h18⟩ :=
      howner
    rw [owner_iff]
    dsimp only [State.goto]
    grind -linarith
  · obtain ⟨h1, h2, h3, h4, h5, h6⟩ := haccounts
    exact ⟨h1, h2, h3, h4, h5, h6⟩

/-- The queueing finds a report. -/
theorem Sound.drive_ready (hs : Sound stoppable s) {agent : Agent} (hpc : s.pc agent = .drive) :
    Sound stoppable (s.goto agent .finish) := by
  obtain ⟨hturns, howner, haccounts⟩ := hs
  obtain rfl : agent = .starter := hturns.starter_of (by grind -linarith)
  refine ⟨?_, ?_, ?_⟩
  · obtain ⟨h1, h2, h3, h4, h5, h6, h7, h8⟩ := hturns
    rw [turns_iff]
    dsimp only [State.goto]
    grind -linarith
  · obtain ⟨h1, h2, h3, h4, h5, h6, h7, h8⟩ := hturns
    obtain ⟨h1, h2, h3, h4, h5, h6, h7, h8, h9, h10, h11, h12, h13, h14, h15, h16, h17, h18⟩ :=
      howner
    rw [owner_iff]
    dsimp only [State.goto]
    grind -linarith
  · obtain ⟨h1, h2, h3, h4, h5, h6⟩ := haccounts
    exact ⟨h1, h2, h3, h4, h5, h6⟩

/-- The waiter is queued. -/
theorem Sound.drive_queued (hs : Sound stoppable s) {agent : Agent} (hpc : s.pc agent = .drive)
    (hcancelled : s.cancelled = false) :
    Sound stoppable ({ s with waker := true }.goto agent .returned) := by
  obtain ⟨hturns, howner, haccounts⟩ := hs
  obtain rfl : agent = .starter := hturns.starter_of (by grind -linarith)
  refine ⟨?_, ?_, ?_⟩
  · obtain ⟨h1, h2, h3, h4, h5, h6, h7, h8⟩ := hturns
    rw [turns_iff]
    dsimp only [State.goto]
    grind -linarith
  · obtain ⟨h1, h2, h3, h4, h5, h6, h7, h8⟩ := hturns
    obtain ⟨h1, h2, h3, h4, h5, h6, h7, h8, h9, h10, h11, h12, h13, h14, h15, h16, h17, h18⟩ :=
      howner
    rw [owner_iff]
    dsimp only [State.goto]
    grind -linarith
  · obtain ⟨h1, h2, h3, h4, h5, h6⟩ := haccounts
    exact ⟨h1, h2, h3, h4, h5, h6⟩

/-- The stop callback goes through the stream. -/
theorem Sound.deref (hs : Sound stoppable s) {agent : Agent} (hpc : s.pc agent = .deref) :
    Sound stoppable (s.goto agent .unwatch) := by
  obtain ⟨hturns, howner, haccounts⟩ := hs
  refine ⟨?_, ?_, ?_⟩
  · obtain ⟨h1, h2, h3, h4, h5, h6, h7, h8⟩ := hturns
    rw [turns_iff]
    dsimp only [State.goto]
    cases agent <;> grind -linarith
  · obtain ⟨h1, h2, h3, h4, h5, h6, h7, h8⟩ := hturns
    obtain ⟨h1, h2, h3, h4, h5, h6, h7, h8, h9, h10, h11, h12, h13, h14, h15, h16, h17, h18⟩ :=
      howner
    rw [owner_iff]
    dsimp only [State.goto]
    cases agent <;> grind -linarith
  · obtain ⟨h1, h2, h3, h4, h5, h6⟩ := haccounts
    exact ⟨h1, h2, h3, h4, h5, h6⟩

/-- The stop callback takes the waiter back. -/
theorem Sound.unwatch_queued (hs : Sound stoppable s) {agent : Agent} (hpc : s.pc agent = .unwatch)
    (hwaker : s.waker = true) :
    Sound stoppable ({ s with waker := false }.goto agent (.stopListener .stopped)) := by
  obtain ⟨hturns, howner, haccounts⟩ := hs
  refine ⟨?_, ?_, ?_⟩
  · obtain ⟨h1, h2, h3, h4, h5, h6, h7, h8⟩ := hturns
    rw [turns_iff]
    dsimp only [State.goto]
    cases agent <;> grind -linarith
  · obtain ⟨h1, h2, h3, h4, h5, h6, h7, h8⟩ := hturns
    obtain ⟨h1, h2, h3, h4, h5, h6, h7, h8, h9, h10, h11, h12, h13, h14, h15, h16, h17, h18⟩ :=
      howner
    rw [owner_iff]
    dsimp only [State.goto]
    cases agent <;> grind -linarith
  · obtain ⟨h1, h2, h3, h4, h5, h6⟩ := haccounts
    exact ⟨h1, h2, h3, h4, h5, h6⟩

/-- The stop callback finds no waiter and marks it. -/
theorem Sound.unwatch_marks (hs : Sound stoppable s) {agent : Agent} (hpc : s.pc agent = .unwatch)
    (hwaker : s.waker = false) :
    Sound stoppable ({ s with cancelled := true }.goto agent .callbackDone) := by
  obtain ⟨hturns, howner, haccounts⟩ := hs
  refine ⟨?_, ?_, ?_⟩
  · obtain ⟨h1, h2, h3, h4, h5, h6, h7, h8⟩ := hturns
    rw [turns_iff]
    dsimp only [State.goto]
    cases agent <;> grind -linarith
  · obtain ⟨h1, h2, h3, h4, h5, h6, h7, h8⟩ := hturns
    obtain ⟨h1, h2, h3, h4, h5, h6, h7, h8, h9, h10, h11, h12, h13, h14, h15, h16, h17, h18⟩ :=
      howner
    rw [owner_iff]
    dsimp only [State.goto]
    cases agent <;> grind -linarith
  · obtain ⟨h1, h2, h3, h4, h5, h6⟩ := haccounts
    exact ⟨h1, h2, h3, h4, h5, h6⟩

/-- The stop callback returns on the thread that requested stop. -/
theorem Sound.callbackReturns_stopper (hs : Sound stoppable s)
    (hpc : s.pc .stopper = .callbackDone) :
    Sound stoppable ({ s with
      callback := if s.callback = Callback.running .stopper then .ran else s.callback }.goto
        .stopper .idle) := by
  obtain ⟨hturns, howner, haccounts⟩ := hs
  refine ⟨?_, ?_, ?_⟩
  · obtain ⟨h1, h2, h3, h4, h5, h6, h7, h8⟩ := hturns
    rw [turns_iff]
    dsimp only [State.goto]
    grind -linarith
  · obtain ⟨h1, h2, h3, h4, h5, h6, h7, h8⟩ := hturns
    obtain ⟨h1, h2, h3, h4, h5, h6, h7, h8, h9, h10, h11, h12, h13, h14, h15, h16, h17, h18⟩ :=
      howner
    rw [owner_iff]
    dsimp only [State.goto]
    grind -linarith
  · obtain ⟨h1, h2, h3, h4, h5, h6⟩ := haccounts
    exact ⟨h1, h2, h3, h4, h5, h6⟩

/-- The stop callback returns into `start()`. -/
theorem Sound.callbackReturns_starter (hs : Sound stoppable s)
    (hpc : s.pc .starter = .callbackDone) :
    Sound stoppable ({ s with
      callback := if s.callback = Callback.running .starter then .ran else s.callback }.goto
        .starter .drive) := by
  obtain ⟨hturns, howner, haccounts⟩ := hs
  refine ⟨?_, ?_, ?_⟩
  · obtain ⟨h1, h2, h3, h4, h5, h6, h7, h8⟩ := hturns
    rw [turns_iff]
    dsimp only [State.goto]
    grind -linarith
  · obtain ⟨h1, h2, h3, h4, h5, h6, h7, h8⟩ := hturns
    obtain ⟨h1, h2, h3, h4, h5, h6, h7, h8, h9, h10, h11, h12, h13, h14, h15, h16, h17, h18⟩ :=
      howner
    rw [owner_iff]
    dsimp only [State.goto]
    grind -linarith
  · obtain ⟨h1, h2, h3, h4, h5, h6⟩ := haccounts
    exact ⟨h1, h2, h3, h4, h5, h6⟩

/-- The handshake has succeeded. -/
theorem Sound.finish_connected (hs : Sound stoppable s) {agent : Agent} (hpc : s.pc agent = .finish) :
    Sound stoppable (s.goto agent (.stopListener .value)) := by
  obtain ⟨hturns, howner, haccounts⟩ := hs
  refine ⟨?_, ?_, ?_⟩
  · obtain ⟨h1, h2, h3, h4, h5, h6, h7, h8⟩ := hturns
    rw [turns_iff]
    dsimp only [State.goto]
    cases agent <;> grind -linarith
  · obtain ⟨h1, h2, h3, h4, h5, h6, h7, h8⟩ := hturns
    obtain ⟨h1, h2, h3, h4, h5, h6, h7, h8, h9, h10, h11, h12, h13, h14, h15, h16, h17, h18⟩ :=
      howner
    rw [owner_iff]
    dsimp only [State.goto]
    cases agent <;> grind -linarith
  · obtain ⟨h1, h2, h3, h4, h5, h6⟩ := haccounts
    exact ⟨h1, h2, h3, h4, h5, h6⟩

/-- The handshake has failed, and no stop callback exists. -/
theorem Sound.finish_failed (hs : Sound stoppable s) {agent : Agent} (hpc : s.pc agent = .finish)
    (hcallback : s.callback = .absent) :
    Sound stoppable (s.goto agent .reset) := by
  obtain ⟨hturns, howner, haccounts⟩ := hs
  refine ⟨?_, ?_, ?_⟩
  · obtain ⟨h1, h2, h3, h4, h5, h6, h7, h8⟩ := hturns
    rw [turns_iff]
    dsimp only [State.goto]
    cases agent <;> grind -linarith
  · obtain ⟨h1, h2, h3, h4, h5, h6, h7, h8⟩ := hturns
    obtain ⟨h1, h2, h3, h4, h5, h6, h7, h8, h9, h10, h11, h12, h13, h14, h15, h16, h17, h18⟩ :=
      howner
    rw [owner_iff]
    dsimp only [State.goto]
    cases agent <;> grind -linarith
  · obtain ⟨h1, h2, h3, h4, h5, h6⟩ := haccounts
    exact ⟨h1, h2, h3, h4, h5, h6⟩

/-- The stream is closed. -/
theorem Sound.reset (hs : Sound stoppable s) {agent : Agent} (hpc : s.pc agent = .reset) :
    Sound stoppable ({ s with stream := .closed, closes := s.closes + 1 }.goto agent
      (.stopListener .error)) := by
  obtain ⟨hturns, howner, haccounts⟩ := hs
  refine ⟨?_, ?_, ?_⟩
  · obtain ⟨h1, h2, h3, h4, h5, h6, h7, h8⟩ := hturns
    rw [turns_iff]
    dsimp only [State.goto]
    cases agent <;> grind -linarith
  · obtain ⟨h1, h2, h3, h4, h5, h6, h7, h8⟩ := hturns
    obtain ⟨h1, h2, h3, h4, h5, h6, h7, h8, h9, h10, h11, h12, h13, h14, h15, h16, h17, h18⟩ :=
      howner
    rw [owner_iff]
    dsimp only [State.goto]
    cases agent <;> grind -linarith
  · have hcompleting := hturns.completing
    have hfresh := howner.fresh
    have hfinishes := howner.finishes
    have hstarting := hturns.starting
    obtain ⟨h1, h2, h3, h4, h5, h6⟩ := haccounts
    rw [accounts_iff]
    dsimp only [State.goto]
    cases agent <;> grind -linarith

/-- There is no callback to disarm. -/
theorem Sound.stopListener_absent (hs : Sound stoppable s) {agent : Agent} {ending : Ending}
    (hpc : s.pc agent = .stopListener ending) (hcallback : s.callback = .absent) :
    Sound stoppable (s.goto agent (.complete ending)) := by
  obtain ⟨hturns, howner, haccounts⟩ := hs
  refine ⟨?_, ?_, ?_⟩
  · obtain ⟨h1, h2, h3, h4, h5, h6, h7, h8⟩ := hturns
    rw [turns_iff]
    dsimp only [State.goto]
    cases agent <;> grind -linarith
  · obtain ⟨h1, h2, h3, h4, h5, h6, h7, h8⟩ := hturns
    obtain ⟨h1, h2, h3, h4, h5, h6, h7, h8, h9, h10, h11, h12, h13, h14, h15, h16, h17, h18⟩ :=
      howner
    rw [owner_iff]
    dsimp only [State.goto]
    cases agent <;> grind -linarith
  · obtain ⟨h1, h2, h3, h4, h5, h6⟩ := haccounts
    exact ⟨h1, h2, h3, h4, h5, h6⟩

/-- The callback is disarmed: it does not run, or it is the caller. -/
theorem Sound.stopListener (hs : Sound stoppable s) {agent : Agent} {ending : Ending}
    (hpc : s.pc agent = .stopListener ending) (hcallback : s.callback ≠ .absent)
    (hwaits : ∀ other, s.callback = .running other → other = agent) :
    Sound stoppable ({ s with callback := .destroyed }.goto agent (.complete ending)) := by
  obtain ⟨hturns, howner, haccounts⟩ := hs
  refine ⟨?_, ?_, ?_⟩
  · obtain ⟨h1, h2, h3, h4, h5, h6, h7, h8⟩ := hturns
    rw [turns_iff]
    dsimp only [State.goto]
    cases agent <;> grind -linarith
  · obtain ⟨h1, h2, h3, h4, h5, h6, h7, h8⟩ := hturns
    obtain ⟨h1, h2, h3, h4, h5, h6, h7, h8, h9, h10, h11, h12, h13, h14, h15, h16, h17, h18⟩ :=
      howner
    rw [owner_iff]
    dsimp only [State.goto]
    cases agent <;> grind -linarith
  · obtain ⟨h1, h2, h3, h4, h5, h6⟩ := haccounts
    exact ⟨h1, h2, h3, h4, h5, h6⟩

/-- The receiver gets the stream. -/
theorem Sound.complete_value (hs : Sound stoppable s) {agent : Agent}
    (hpc : s.pc agent = .complete .value) :
    Sound stoppable ({ s with
      completions := [.value]
      stream := .handedOut
      handOuts := s.handOuts + 1 }.goto agent (State.afterComplete agent)) := by
  obtain ⟨hturns, howner, haccounts⟩ := hs
  refine ⟨?_, ?_, ?_⟩
  · obtain ⟨h1, h2, h3, h4, h5, h6, h7, h8⟩ := hturns
    rw [turns_iff]
    dsimp only [State.goto, State.afterComplete]
    cases agent <;> grind -linarith
  · obtain ⟨h1, h2, h3, h4, h5, h6, h7, h8⟩ := hturns
    obtain ⟨h1, h2, h3, h4, h5, h6, h7, h8, h9, h10, h11, h12, h13, h14, h15, h16, h17, h18⟩ :=
      howner
    rw [owner_iff]
    dsimp only [State.goto, State.afterComplete]
    cases agent <;> grind -linarith
  · have hcompleting := hturns.completing
    have hfresh := howner.fresh
    have hfinishes := howner.finishes
    have hstarting := hturns.starting
    obtain ⟨h1, h2, h3, h4, h5, h6⟩ := haccounts
    rw [accounts_iff]
    dsimp only [State.goto, State.afterComplete]
    cases agent <;> grind -linarith

/-- The receiver gets an error or is stopped. -/
theorem Sound.complete (hs : Sound stoppable s) {agent : Agent} {ending : Ending}
    (hpc : s.pc agent = .complete ending) (hending : ending ≠ .value) :
    Sound stoppable ({ s with completions := [ending] }.goto agent
      (State.afterComplete agent)) := by
  obtain ⟨hturns, howner, haccounts⟩ := hs
  refine ⟨?_, ?_, ?_⟩
  · obtain ⟨h1, h2, h3, h4, h5, h6, h7, h8⟩ := hturns
    rw [turns_iff]
    dsimp only [State.goto, State.afterComplete]
    cases agent <;> grind -linarith
  · obtain ⟨h1, h2, h3, h4, h5, h6, h7, h8⟩ := hturns
    obtain ⟨h1, h2, h3, h4, h5, h6, h7, h8, h9, h10, h11, h12, h13, h14, h15, h16, h17, h18⟩ :=
      howner
    rw [owner_iff]
    dsimp only [State.goto, State.afterComplete]
    cases agent <;> grind -linarith
  · have hcompleting := hturns.completing
    have hfresh := howner.fresh
    have hfinishes := howner.finishes
    have hstarting := hturns.starting
    obtain ⟨h1, h2, h3, h4, h5, h6⟩ := haccounts
    rw [accounts_iff]
    dsimp only [State.goto, State.afterComplete]
    cases agent <;> grind -linarith

/-- The receiver destroys the operation, and the stream with it. -/
theorem Sound.destroy_owned (hs : Sound stoppable s)
    (hcompletions : s.completions ≠ []) (howned : s.stream = .owned) :
    Sound stoppable ({ s with stream := .closed, closes := s.closes + 1, destroyed := true }) := by
  obtain ⟨hturns, howner, haccounts⟩ := hs
  refine ⟨?_, ?_, ?_⟩
  · obtain ⟨h1, h2, h3, h4, h5, h6, h7, h8⟩ := hturns
    rw [turns_iff]
    dsimp only [State.goto]
    grind -linarith
  · obtain ⟨h1, h2, h3, h4, h5, h6, h7, h8⟩ := hturns
    obtain ⟨h1, h2, h3, h4, h5, h6, h7, h8, h9, h10, h11, h12, h13, h14, h15, h16, h17, h18⟩ :=
      howner
    rw [owner_iff]
    dsimp only [State.goto]
    grind -linarith
  · obtain ⟨h1, h2, h3, h4, h5, h6⟩ := haccounts
    rw [accounts_iff]
    dsimp only [State.goto]
    grind -linarith

/-- The receiver destroys an operation without a stream. -/
theorem Sound.destroy (hs : Sound stoppable s) (hcompletions : s.completions ≠ [])
    (howned : s.stream ≠ .owned) :
    Sound stoppable ({ s with destroyed := true }) := by
  obtain ⟨hturns, howner, haccounts⟩ := hs
  refine ⟨?_, ?_, ?_⟩
  · obtain ⟨h1, h2, h3, h4, h5, h6, h7, h8⟩ := hturns
    rw [turns_iff]
    dsimp only [State.goto]
    grind -linarith
  · obtain ⟨h1, h2, h3, h4, h5, h6, h7, h8⟩ := hturns
    obtain ⟨h1, h2, h3, h4, h5, h6, h7, h8, h9, h10, h11, h12, h13, h14, h15, h16, h17, h18⟩ :=
      howner
    rw [owner_iff]
    dsimp only [State.goto]
    grind -linarith
  · obtain ⟨h1, h2, h3, h4, h5, h6⟩ := haccounts
    rw [accounts_iff]
    dsimp only [State.goto]
    grind -linarith

/-! ### The runs -/

/-- Going through a stream the operation owns is no fault. -/
theorem Sound.touch (hs : Sound stoppable s) (howned : s.stream = .owned) : s.touch = s :=
  if_pos ⟨howned, (hs.accounts.owned howned).2.2⟩

/-- While the callback is on its way to the waiter, the operation owns its stream. -/
theorem Owner.owned_of_cancels {agent : Agent} (hs : Owner stoppable s)
    (hpc : (s.pc agent).Cancels) : s.stream = .owned := by
  have hrunning := hs.inside agent hpc
  exact hs.owns (by simp [hrunning]) (by simp [hrunning])

theorem Sound.unwatch {agent : Agent} (hs : Sound stoppable s) (hpc : s.pc agent = .unwatch) :
    Sound stoppable (s.unwatch agent) := by
  have htouch := hs.touch (hs.owner.owned_of_cancels (.inr hpc))
  unfold State.unwatch
  rw [htouch]
  split_ifs with hwaker
  · exact hs.unwatch_queued hpc hwaker
  · exact hs.unwatch_marks hpc (by simpa using hwaker)

theorem Sound.callbackReturns {agent : Agent} (hs : Sound stoppable s)
    (hpc : s.pc agent = .callbackDone) : Sound stoppable (s.callbackReturns agent) := by
  cases agent with
  | starter => exact hs.callbackReturns_starter hpc
  | stopper => exact hs.callbackReturns_stopper hpc
  | poller => exact absurd hs.turns.poller (by grind -linarith)

theorem Sound.stopListener_of_eq {t : State} {agent : Agent} {ending : Ending}
    (hs : Sound stoppable s) (hpc : s.pc agent = .stopListener ending)
    (hnext : s.stopListener agent ending = some t) : Sound stoppable t := by
  unfold State.stopListener at hnext
  split at hnext
  · obtain rfl := Option.some.inj hnext
    exact hs.stopListener_absent hpc ‹_›
  · split_ifs at hnext with hown
    obtain rfl := Option.some.inj hnext
    exact hs.stopListener hpc (by simp [*]) (by grind -linarith)
  · obtain rfl := Option.some.inj hnext
    exact hs.stopListener hpc ‹_› (by grind -linarith)

theorem Sound.complete_of_pc {agent : Agent} {ending : Ending} (hs : Sound stoppable s)
    (hpc : s.pc agent = .complete ending) : Sound stoppable (s.complete agent ending) := by
  have hempty := (hs.turns.completing agent (by grind -linarith)).2.1
  unfold State.complete
  rw [hempty, List.nil_append]
  cases ending with
  | value => exact hs.complete_value hpc
  | error => exact hs.complete hpc (by simp)
  | stopped => exact hs.complete hpc (by simp)

theorem Sound.advance {t : State} {agent : Agent} {started : Started} {failed : Bool}
    (hs : Sound stoppable s)
    (hgood : s.handshakeHolds (.step agent started failed) = true)
    (hnext : s.advance stoppable agent started failed = some t) : Sound stoppable t := by
  unfold State.advance at hnext
  split at hnext
  case h_1 | h_2 => exact absurd hnext (by simp)
  case h_12 ending hpc => exact hs.stopListener_of_eq hpc hnext
  all_goals obtain rfl := Option.some.inj hnext
  case h_3 hpc =>
    split_ifs with hrequested
    · exact hs.begin_stopped hpc
    · exact hs.begin_tryNow hpc
  case h_4 hpc =>
    cases started with
    | failed => exact hs.tryNow_failed hpc
    | connected => exact hs.tryNow_connected hpc
    | inProgress => exact hs.tryNow_inProgress hpc
  case h_5 hpc =>
    unfold State.listen
    split_ifs with hstoppable hrequested
    · exact hs.listen_unstoppable hpc (by simpa using hstoppable)
    · exact hs.listen_requested hpc (by simpa using hstoppable) hrequested
    · exact hs.listen_registered hpc (by simpa using hstoppable) (by simpa using hrequested)
  case h_6 hpc =>
    unfold State.drive
    split_ifs with hcancelled hevents
    · exact hs.drive_cancelled hpc
    · exact hs.drive_ready hpc
    · exact hs.drive_queued hpc (by simpa using hcancelled)
  case h_7 hpc =>
    rw [hs.touch (hs.owner.owned_of_cancels (.inl hpc))]
    exact hs.deref hpc
  case h_8 hpc => exact hs.unwatch hpc
  case h_9 hpc => exact hs.callbackReturns hpc
  case h_10 hpc =>
    rw [hs.touch (hs.owner.finishes agent (.inl hpc))]
    split_ifs with hfailed
    · refine hs.finish_failed hpc ?_
      simpa [State.handshakeHolds, hpc, hfailed] using hgood
    · exact hs.finish_connected hpc
  case h_11 hpc =>
    have hclose : s.close = { s with stream := .closed, closes := s.closes + 1 } :=
      if_pos (hs.owner.finishes agent (.inr (.inl hpc)))
    rw [hclose]
    exact hs.reset hpc
  case h_13 ending hpc => exact hs.complete_of_pc hpc

/-- Every step whose handshake holds keeps the invariant. -/
theorem Sound.step {t : State} {a : Action} (hs : Sound stoppable s)
    (hgood : s.handshakeHolds a = true) (hnext : s.step stoppable a = some t) :
    Sound stoppable t := by
  cases a with
  | start =>
    simp only [State.step.eq_def, Option.ite_none_right_eq_some, Option.some.injEq] at hnext
    obtain ⟨hidle, rfl⟩ := hnext
    exact hs.start hidle
  | requestStop =>
    simp only [State.step.eq_def, Option.ite_none_right_eq_some, Option.some.injEq] at hnext
    obtain ⟨⟨hstoppable, hrequested, hidle⟩, rfl⟩ := hnext
    split_ifs with hcallback
    · exact hs.requestStop_registered hstoppable hidle hcallback
    · exact hs.requestStop hstoppable hrequested hcallback
  | report =>
    simp only [State.step.eq_def, Option.ite_none_right_eq_some, Option.some.injEq] at hnext
    obtain ⟨⟨hidle, howned, hdestroyed⟩, rfl⟩ := hnext
    split_ifs with hwaker
    · exact hs.report_woken howned hwaker
    · exact hs.report
  | step agent started failed => exact hs.advance hgood hnext
  | destroy =>
    simp only [State.step.eq_def, Option.ite_none_right_eq_some, Option.some.injEq] at hnext
    obtain ⟨⟨hcompletions, hdestroyed⟩, rfl⟩ := hnext
    unfold State.close
    split_ifs with howned
    · exact hs.destroy_owned hcompletions howned
    · exact hs.destroy hcompletions howned

/-- What the invariant gives. -/
theorem Sound.contract (hs : Sound stoppable s) : s.Contract := by
  obtain ⟨hturns, howner, haccounts⟩ := hs
  refine ⟨fun h h' ↦ ?_, howner.noFault, hturns.once, fun hrest ↦ ?_, fun h ↦ ?_, fun h h' ↦ ?_,
    fun h ↦ (haccounts.pending h).2⟩
  · have howned := howner.owns h h'
    exact ⟨howned, (haccounts.owned howned).2.2⟩
  · obtain ⟨hstarter, hpoller, hstopper⟩ := hrest
    have honce := hturns.once
    rcases hturns.somebody hstarter with hdone | hwaker | hcompletes | hcompletes
    · exact .inl (by have := List.length_pos_iff.mpr hdone; omega)
    · refine .inr ⟨(hturns.queued hwaker).2.1, hwaker, ?_⟩
      by_contra hrequested
      have hstop : s.stopRequested = true := by simpa using hrequested
      have hcallback := howner.listened (howner.allowed (.inr hstop)) (.inr hwaker)
      grind -linarith [howner.heard hstop hcallback (.inr hwaker)]
    · grind -linarith
    · grind -linarith
  · have hout := haccounts.value.mp h
    exact ⟨(haccounts.handedOut hout).2, (haccounts.handedOut hout).1⟩
  · have hnot : s.stream ≠ .handedOut := fun hout ↦ h' (haccounts.value.mpr hout)
    obtain ⟨h1, h2, h3, h4, h5, h6⟩ := haccounts
    cases hstream : s.stream with
    | absent => grind -linarith
    | owned => grind -linarith
    | closed => grind -linarith
    | handedOut => exact absurd hstream hnot

end

/-- As long as no handshake fails while a stop callback exists, `async_connect` meets its contract
in every state, whatever the order of `start()`, the reports and the stop request. -/
theorem connect_contract (stoppable : Bool) (s : State)
    (hs : (system stoppable).ReachableUnder (fun s a ↦ s.handshakeHolds a = true) s) :
    s.Contract := by
  have hsound : Sound stoppable s := by
    refine hs.invariant (fun s hinit ↦ ?_) fun _ _ _ hsound hgood hnext ↦ hsound.step hgood hnext
    obtain rfl : s = initial := hinit
    exact sound_initial stoppable
  exact hsound.contract

/-- The next step of a thread whose connect is in progress. -/
def next (agent : Agent) : Action :=
  .step agent .inProgress false

/-- The connect is queued before the stop callback looks at the waiter, which takes it back. -/
def stoppedWhileQueued : State :=
  ((system true).runUnder State.handshakeHolds initial
    [.start, next .starter, next .starter, next .starter, .requestStop, next .starter,
      next .stopper, next .stopper, next .stopper, next .stopper, .destroy,
      next .stopper]).get (by decide)

theorem connect_contract_stoppedWhileQueued :
    stoppedWhileQueued.Contract ∧ stoppedWhileQueued.completions = [.stopped] ∧
      stoppedWhileQueued.closes = 1 :=
  ⟨connect_contract true stoppedWhileQueued
    (System.reachableUnder_of_run rfl (Option.some_get _).symm), by decide, by decide⟩

/-- The poller reports the descriptor, the handshake has failed, and the stream is reset; then stop
is requested, and the callback goes through the stream. -/
def stoppedAfterReset : State :=
  ((system true).run initial
    [.start, next .starter, next .starter, next .starter, next .starter, .report,
      .step .poller .inProgress true, next .poller, .requestStop, next .stopper]).get (by decide)

theorem reset_stream_under_callback :
    ¬ ∀ stoppable s, (system stoppable).Reachable s → s.Contract := by
  intro hcontract
  have hreach : (system true).Reachable stoppedAfterReset :=
    System.reachable_of_run rfl (Option.some_get _).symm
  have hfault := (hcontract true stoppedAfterReset hreach).noFault
  exact absurd hfault (by decide)

end Stackfull.Exec.Connect
