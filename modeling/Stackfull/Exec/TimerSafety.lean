import Stackfull.Exec.Timer

/-!
# A timer completes once

At any time one party may complete the operation: the starter until the entry is queued, then
whoever takes the entry out of its queue, the stop callback or the thread that fires it, and after
that the task (`Holder`). The others leave the operation alone, but for a stop callback that comes
too late; whoever completes waits for it.
-/

set_option autoImplicit false
set_option relaxedAutoImplicit false
set_option linter.dupNamespace false

namespace Stackfull.Exec.Timer

open Stackfull.Lib

/-- Whose turn it is: nobody's before `start()`, a thread's, that of whoever takes the entry out of
its queue, or the receiver's. -/
inductive Holder
  | nobody
  | agent (agent : Agent)
  | queue
  | receiver

/-- A thread at this point may complete the operation. -/
def Pc.hasTurn (agent : Agent) : Pc → Bool
  | .idle | .request | .returned => false
  | .cancel | .callbackDone => agent == .starter
  | _ => true

/-- The callback does not run and will not. -/
def State.Disarmed (s : State) : Prop :=
  s.callback = .absent ∨ s.callback = .destroyed

/-- What holds where a thread stands. -/
def State.Fits (stoppable : Bool) (s : State) (agent : Agent) : Pc → Prop
  | .idle => True
  | .request => agent = .stopper ∧ s.stopRequested = true
  | .begin | .listen => agent = .starter ∧ s.callback = .absent
  | .add => agent = .starter ∧ (stoppable = true → s.callback ≠ .absent)
  | .returned => agent = .starter
  | .cancel => (agent = .starter ∨ agent = .stopper) ∧ s.callback = .running agent
  | .callbackDone =>
    (agent = .starter ∨ agent = .stopper) ∧ s.callback = .running agent ∧ s.cancelled = true
  | .spawn => agent = .firer ∧ (s.expired = true ∨ s.stopping = true)
  | .run => agent = .task ∧ s.expired = true
  | .decide => agent = .task ∧ s.expired = true ∧ s.Disarmed
  | .stopListener ending => agent ≠ .task ∧ s.Justified ending
  | .complete ending => s.Justified ending ∧ s.Disarmed

/-- Whose turn it is, and what the others do meanwhile. -/
structure Turn (s : State) (holder : Holder) : Prop where
  agents : ∀ agent, (s.pc agent).hasTurn agent = true ↔ holder = .agent agent
  nobody : s.pc .starter = .idle ↔ holder = .nobody
  queue : s.queued = true ↔ holder = .queue
  pending : holder ≠ .receiver → s.completions = [] ∧ s.destroyed = false
  receiver : holder = .receiver →
    (∃ ending, s.completions = [ending] ∧ s.Justified ending) ∧ s.Disarmed

/-- The stop callback and what it leaves behind. -/
structure Heard (stoppable : Bool) (s : State) (holder : Holder) : Prop where
  fresh : holder = .nobody → s.callback = .absent
  allowed : s.stopRequested = true → stoppable = true
  cancelled : s.cancelled = true → s.stopRequested = true ∧ holder ≠ .queue
  closed : s.closed = true → s.stopping = true ∧ holder ≠ .queue
  armed : holder = .queue → stoppable = true → s.callback ≠ .absent
  registered : s.callback = .registered → s.stopRequested = true → s.pc .stopper = .request
  running : ∀ agent, s.callback = .running agent → s.stopRequested = true ∧
    (s.pc agent = .cancel ∨ s.pc agent = .callbackDone ∨
      agent = .stopper ∧ s.pc agent = .stopListener .stopped)
  ran : s.callback = .ran → s.cancelled = true
  disarmed : s.callback = .destroyed → holder = .receiver ∨
    ∃ agent, holder = .agent agent ∧
      (s.pc agent = .decide ∨ ∃ ending, s.pc agent = .complete ending)

/-- The invariant. -/
structure Sound (stoppable : Bool) (s : State) (holder : Holder) : Prop where
  fits : ∀ agent, s.Fits stoppable agent (s.pc agent)
  turn : Turn s holder
  heard : Heard stoppable s holder
  noFault : s.fault = false

section Frames

variable {stoppable : Bool} {s s' : State} {holder holder' : Holder} {agent other : Agent} {pc : Pc}

@[simp] theorem goto_pc_self : (s.goto agent pc).pc agent = pc :=
  Function.update_self ..

theorem goto_pc_of_ne (hne : other ≠ agent) : (s.goto agent pc).pc other = s.pc other :=
  Function.update_of_ne hne ..

/-- Nobody takes a request or a deadline back. -/
structure Later (s s' : State) : Prop where
  stopRequested : s.stopRequested = true → s'.stopRequested = true
  stopping : s.stopping = true → s'.stopping = true
  expired : s.expired = true → s'.expired = true
  cancelled : s.cancelled = true → s'.cancelled = true

theorem Later.justified (h : Later s s') {ending : Ending} (hs : s.Justified ending) :
    s'.Justified ending := by
  cases ending with
  | value => exact h.expired hs
  | error => exact h.expired hs
  | stopped => exact hs.imp h.stopRequested h.stopping

/-- The callback is as before. -/
theorem Later.fits (h : Later s s') (hcallback : s'.callback = s.callback)
    (hs : s.Fits stoppable agent pc) : s'.Fits stoppable agent pc := by
  have hdisarmed : s.Disarmed → s'.Disarmed := by
    unfold State.Disarmed
    rw [hcallback]
    exact id
  cases pc with
  | idle => trivial
  | request => exact ⟨hs.1, h.stopRequested hs.2⟩
  | begin | listen | add | cancel =>
    simp only [State.Fits, hcallback]
    exact hs
  | returned => exact hs
  | callbackDone =>
    simp only [State.Fits, hcallback]
    exact ⟨hs.1, hs.2.1, h.cancelled hs.2.2⟩
  | spawn => exact ⟨hs.1, hs.2.imp h.expired h.stopping⟩
  | run => exact ⟨hs.1, h.expired hs.2⟩
  | decide => exact ⟨hs.1, h.expired hs.2.1, hdisarmed hs.2.2⟩
  | stopListener ending => exact ⟨hs.1, h.justified hs.2⟩
  | complete ending => exact ⟨h.justified hs.1, hdisarmed hs.2⟩

/-- The callback starts or ends, but not in this thread, which is not past it either. -/
theorem Later.fits_of_armed (h : Later s s') (hother : s.callback ≠ .running agent)
    (harmed : ¬ s.Disarmed) (hpresent : s'.callback ≠ .absent) (hs : s.Fits stoppable agent pc) :
    s'.Fits stoppable agent pc := by
  cases pc with
  | idle => trivial
  | request => exact ⟨hs.1, h.stopRequested hs.2⟩
  | begin | listen => exact absurd (Or.inl hs.2) harmed
  | add => exact ⟨hs.1, fun _ ↦ hpresent⟩
  | returned => exact hs
  | cancel => exact absurd hs.2 hother
  | callbackDone => exact absurd hs.2.1 hother
  | spawn => exact ⟨hs.1, hs.2.imp h.expired h.stopping⟩
  | run => exact ⟨hs.1, h.expired hs.2⟩
  | decide => exact absurd hs.2.2 harmed
  | stopListener ending => exact ⟨hs.1, h.justified hs.2⟩
  | complete ending => exact absurd hs.2 harmed

/-- The callback changes while it is not this thread's turn. -/
theorem Later.fits_of_waiting (h : Later s s') (hother : s.callback ≠ .running agent)
    (hturn : pc.hasTurn agent = false) (hs : s.Fits stoppable agent pc) :
    s'.Fits stoppable agent pc := by
  cases pc with
  | idle => trivial
  | request => exact ⟨hs.1, h.stopRequested hs.2⟩
  | returned => exact hs
  | cancel => exact absurd hs.2 hother
  | callbackDone => exact absurd hs.2.1 hother
  | begin | listen | add | spawn | run | decide | stopListener | complete => cases hturn

/-- One thread goes on. -/
theorem fits_goto (hself : s'.Fits stoppable agent pc)
    (hothers : ∀ other, other ≠ agent → s'.Fits stoppable other (s.pc other)) :
    ∀ other, s'.Fits stoppable other ((s.goto agent pc).pc other) := by
  intro other
  rcases eq_or_ne other agent with rfl | hne
  · rw [goto_pc_self]
    exact hself
  · rw [goto_pc_of_ne hne]
    exact hothers other hne

theorem agents_goto (h : ∀ other, (s.pc other).hasTurn other = true ↔ holder = .agent other)
    (hself : pc.hasTurn agent = true ↔ holder' = .agent agent)
    (hothers : ∀ other, other ≠ agent → (holder' = .agent other ↔ holder = .agent other)) :
    ∀ other, ((s.goto agent pc).pc other).hasTurn other = true ↔ holder' = .agent other := by
  intro other
  rcases eq_or_ne other agent with rfl | hne
  · rw [goto_pc_self]
    exact hself
  · rw [goto_pc_of_ne hne, h other, hothers other hne]

theorem nobody_goto (h : s.pc .starter = .idle ↔ holder = .nobody)
    (hself : agent = .starter → (pc = .idle ↔ holder' = .nobody))
    (hother : agent ≠ .starter → (holder' = .nobody ↔ holder = .nobody)) :
    (s.goto agent pc).pc .starter = .idle ↔ holder' = .nobody := by
  rcases eq_or_ne Agent.starter agent with rfl | hne
  · rw [goto_pc_self]
    exact hself rfl
  · rw [goto_pc_of_ne hne, h, hother hne.symm]

end Frames

section Steps

variable {stoppable : Bool} {s s' : State} {holder holder' : Holder} {agent other : Agent} {pc : Pc}

/-- One thread goes on, and it is the turn of the same as before. -/
theorem Turn.goto (h : Turn s holder) (hturn : pc.hasTurn agent = (s.pc agent).hasTurn agent)
    (hidle : agent = .starter → (pc = .idle ↔ s.pc agent = .idle)) :
    Turn (s.goto agent pc) holder where
  agents := agents_goto h.agents (by rw [hturn, h.agents]) fun _ _ ↦ Iff.rfl
  nobody := by
    refine nobody_goto h.nobody (fun hstarter ↦ ?_) fun _ ↦ Iff.rfl
    rw [hidle hstarter, hstarter, h.nobody]
  queue := h.queue
  pending := h.pending
  receiver := h.receiver

/-- A request or a deadline comes. -/
theorem Turn.later (h : Turn s holder) (stopRequested stopping expired : Bool)
    (hlater : Later s { s with
      stopRequested := stopRequested, stopping := stopping, expired := expired }) :
    Turn { s with
      stopRequested := stopRequested, stopping := stopping, expired := expired } holder := by
  refine ⟨h.agents, h.nobody, h.queue, h.pending, fun hholder ↦ ?_⟩
  obtain ⟨⟨ending, hcompletions, hjustified⟩, hdisarmed⟩ := h.receiver hholder
  exact ⟨⟨ending, hcompletions, hlater.justified hjustified⟩, hdisarmed⟩

/-- The callback stays as it is, and whose turn it is; one thread goes on. -/
theorem Heard.goto (h : Heard stoppable s holder)
    (hrequest : s.pc agent = .request → s.callback ≠ .registered)
    (hrunning : s.callback = .running agent →
      pc = .callbackDone ∨ agent = .stopper ∧ pc = .stopListener .stopped)
    (hdisarmed : s.callback = .destroyed → holder = .agent agent →
      pc = .decide ∨ ∃ ending, pc = .complete ending) :
    Heard stoppable (s.goto agent pc) holder where
  fresh := h.fresh
  allowed := h.allowed
  cancelled := h.cancelled
  closed := h.closed
  armed := h.armed
  registered := by
    intro hcallback hstop
    have hpc := h.registered hcallback hstop
    have hne : Agent.stopper ≠ agent := by
      rintro rfl
      exact hrequest hpc hcallback
    exact (goto_pc_of_ne hne).trans hpc
  running := by
    intro other hcallback
    obtain ⟨hstop, hpc⟩ := h.running other hcallback
    refine ⟨hstop, ?_⟩
    rcases eq_or_ne other agent with rfl | hne
    · rw [goto_pc_self]
      exact Or.inr (hrunning hcallback)
    · rw [goto_pc_of_ne hne]
      exact hpc
  ran := h.ran
  disarmed := by
    intro hcallback
    refine (h.disarmed hcallback).imp_right fun ⟨other, hholder, hpc⟩ ↦ ⟨other, hholder, ?_⟩
    rcases eq_or_ne other agent with rfl | hne
    · rw [goto_pc_self]
      exact hdisarmed hcallback hholder
    · rw [goto_pc_of_ne hne]
      exact hpc

/-- It becomes the turn of another. -/
theorem Heard.pass (h : Heard stoppable s holder) (hnobody : holder' ≠ .nobody)
    (hqueue : holder' ≠ .queue) (hdestroyed : s.callback = .destroyed → holder' = .receiver) :
    Heard stoppable s holder' where
  fresh heq := absurd heq hnobody
  allowed := h.allowed
  cancelled hcancelled := ⟨(h.cancelled hcancelled).1, hqueue⟩
  closed hclosed := ⟨(h.closed hclosed).1, hqueue⟩
  armed heq := absurd heq hqueue
  registered := h.registered
  running := h.running
  ran := h.ran
  disarmed hcallback := Or.inl (hdestroyed hcallback)

/-! ### What a thread knows -/

theorem Sound.fits_at (h : Sound stoppable s holder) (hpc : s.pc agent = pc) :
    s.Fits stoppable agent pc :=
  hpc ▸ h.fits agent

theorem Sound.holder_eq (h : Sound stoppable s holder) (hpc : s.pc agent = pc)
    (hturn : pc.hasTurn agent = true) : holder = .agent agent :=
  (h.turn.agents agent).mp (hpc ▸ hturn)

/-- A callback runs where a thread runs it. -/
theorem Sound.not_running (h : Sound stoppable s holder) (hpc : s.pc agent = pc)
    (hcancel : pc ≠ .cancel) (hdone : pc ≠ .callbackDone) (hstop : pc ≠ .stopListener .stopped) :
    s.callback ≠ .running agent := by
  intro hcallback
  rcases (h.heard.running agent hcallback).2 with heq | heq | ⟨-, heq⟩
  · exact hcancel (hpc.symm.trans heq)
  · exact hdone (hpc.symm.trans heq)
  · exact hstop (hpc.symm.trans heq)

/-- Whoever is about to disarm the callback finds it there. -/
theorem Sound.not_destroyed (h : Sound stoppable s (.agent agent)) (hpc : s.pc agent = pc)
    (hdecide : pc ≠ .decide) (hcomplete : ∀ ending, pc ≠ .complete ending) :
    s.callback ≠ .destroyed := by
  intro hcallback
  rcases h.heard.disarmed hcallback with heq | ⟨other, heq, hother⟩
  · cases heq
  · cases heq
    rcases hother with hother | ⟨ending, hother⟩
    · exact hdecide (hpc.symm.trans hother)
    · exact hcomplete ending (hpc.symm.trans hother)

/-- Nobody is at an operation that the receiver may destroy. -/
theorem Sound.live (h : Sound stoppable s holder) (hpc : s.pc agent = pc) (hidle : pc ≠ .idle)
    (hreturned : pc ≠ .returned) (hrequest : pc ≠ .request) : s.destroyed = false := by
  by_cases hholder : holder = .receiver
  · exfalso
    have hfits := h.fits_at hpc
    have hdisarmed := (h.turn.receiver hholder).2
    have hrunning : s.callback ≠ .running agent := by
      intro hcallback
      rcases hdisarmed with heq | heq <;> rw [hcallback] at heq <;> cases heq
    have hturn : pc.hasTurn agent = true → False := by
      intro hturn
      have heq := h.holder_eq hpc hturn
      rw [hholder] at heq
      cases heq
    cases pc with
    | idle => exact hidle rfl
    | returned => exact hreturned rfl
    | request => exact hrequest rfl
    | cancel => exact hrunning hfits.2
    | callbackDone => exact hrunning hfits.2.1
    | begin | listen | add | spawn | run | decide | stopListener | complete => exact hturn rfl
  · exact (h.turn.pending hholder).2

/-- A thread whose turn it is goes on. -/
theorem Sound.goto (h : Sound stoppable s (.agent agent)) (hfits : s.Fits stoppable agent pc)
    (hturn : pc.hasTurn agent = true) (hidle : pc ≠ .idle)
    (hrunning : s.callback = .running agent → agent = .stopper ∧ pc = .stopListener .stopped)
    (hdisarmed : s.callback = .destroyed → pc = .decide ∨ ∃ ending, pc = .complete ending) :
    Sound stoppable (s.goto agent pc) (.agent agent) where
  fits := fits_goto hfits fun other _ ↦ h.fits other
  turn := by
    have hself := (h.turn.agents agent).mpr rfl
    refine h.turn.goto (hturn.trans hself.symm) fun _ ↦ ⟨fun heq ↦ absurd heq hidle, fun heq ↦ ?_⟩
    rw [heq] at hself
    cases hself
  heard := by
    refine h.heard.goto (fun hrequest ↦ ?_) (fun hcallback ↦ Or.inr (hrunning hcallback))
      fun hcallback _ ↦ hdisarmed hcallback
    have hself := (h.turn.agents agent).mpr rfl
    rw [hrequest] at hself
    cases hself
  noFault := h.noFault

/-! ### Requests -/

theorem Sound.start (h : Sound stoppable s holder) (hidle : s.pc .starter = .idle) :
    Sound stoppable (s.goto .starter .begin) (.agent .starter) := by
  obtain rfl := h.turn.nobody.mp hidle
  have hfresh := h.heard.fresh rfl
  have hheard : Heard stoppable s (.agent .starter) :=
    h.heard.pass nofun nofun (by simp [hfresh])
  refine ⟨fits_goto ⟨rfl, hfresh⟩ fun other _ ↦ h.fits other,
    ⟨agents_goto h.turn.agents (by simp [Pc.hasTurn]) fun other hne ↦ by simp [hne.symm],
      nobody_goto h.turn.nobody (by simp) fun hne ↦ absurd rfl hne, ?_,
      fun _ ↦ h.turn.pending nofun, nofun⟩,
    hheard.goto (by simp [hidle]) (by simp [hfresh]) (by simp [hfresh]), h.noFault⟩
  simpa [State.goto] using h.turn.queue

theorem Sound.requestStop (h : Sound stoppable s holder) (hstoppable : stoppable = true)
    (hidle : s.pc .stopper = .idle) :
    Sound stoppable ({ s with stopRequested := true }.goto .stopper .request) holder := by
  have hlater : Later s { s with stopRequested := true } := ⟨fun _ ↦ rfl, id, id, id⟩
  have hturn := h.turn.later true s.stopping s.expired hlater
  refine ⟨fits_goto ⟨rfl, rfl⟩ fun other _ ↦ hlater.fits rfl (h.fits other),
    hturn.goto (by rw [hidle]; rfl) nofun,
    ⟨h.heard.fresh, fun _ ↦ hstoppable, fun hcancelled ↦ ⟨rfl, (h.heard.cancelled hcancelled).2⟩,
      h.heard.closed, h.heard.armed, fun _ _ ↦ goto_pc_self, fun other hcallback ↦ ⟨rfl, ?_⟩,
      h.heard.ran, fun hcallback ↦ ?_⟩, h.noFault⟩
  · have hpc := (h.heard.running other hcallback).2
    have hne : other ≠ .stopper := by
      rintro rfl
      simp [hidle] at hpc
    rw [goto_pc_of_ne hne]
    exact hpc
  · refine (h.heard.disarmed hcallback).imp_right fun ⟨other, hholder, hpc⟩ ↦ ⟨other, hholder, ?_⟩
    have hne : other ≠ .stopper := by
      rintro rfl
      simp [hidle] at hpc
    rw [goto_pc_of_ne hne]
    exact hpc

/-- Time passes, and the scheduler begins to stop. -/
theorem Sound.later (h : Sound stoppable s holder) (stopping expired : Bool)
    (hstopping : s.stopping = true → stopping = true)
    (hexpired : s.expired = true → expired = true) :
    Sound stoppable { s with stopping := stopping, expired := expired } holder := by
  have hlater : Later s { s with stopping := stopping, expired := expired } :=
    ⟨id, hstopping, hexpired, id⟩
  refine ⟨fun other ↦ hlater.fits rfl (h.fits other),
    h.turn.later s.stopRequested stopping expired hlater, { h.heard with closed := ?_ }, h.noFault⟩
  exact fun hclosed ↦ (h.heard.closed hclosed).imp_left hstopping

/-- The entry is taken out of its queue, by a party that may complete now. -/
theorem Sound.take (h : Sound stoppable s .queue) (hstarter : agent ≠ .starter)
    (hturn : pc.hasTurn agent = true) (hfits : s.Fits stoppable agent pc)
    (hrequest : s.pc agent = .request → s.callback ≠ .registered)
    (hrunning : s.callback = .running agent → agent = .stopper ∧ pc = .stopListener .stopped) :
    Sound stoppable ({ s with queued := false }.goto agent pc) (.agent agent) := by
  have hlater : Later s ({ s with queued := false }.goto agent pc) := ⟨id, id, id, id⟩
  have hheard : Heard stoppable (s.goto agent pc) (.agent agent) := by
    refine (h.heard.goto hrequest (fun hcallback ↦ Or.inr (hrunning hcallback)) nofun).pass nofun
      nofun fun hcallback ↦ ?_
    rcases h.heard.disarmed hcallback with heq | ⟨other, heq, -⟩ <;> cases heq
  refine ⟨fits_goto (hlater.fits rfl hfits) fun other _ ↦ hlater.fits rfl (h.fits other),
    ⟨agents_goto h.turn.agents (by simp [hturn]) fun other hne ↦ by simp [hne.symm],
      nobody_goto h.turn.nobody (fun heq ↦ absurd heq hstarter) (by simp), by simp [State.goto],
      fun _ ↦ h.turn.pending nofun, nofun⟩, { hheard with }, h.noFault⟩

theorem touch_eq (hlive : s.destroyed = false) : s.touch = s := by
  have hfault : (s.fault || s.destroyed) = s.fault := by rw [hlive, Bool.or_false]
  rw [State.touch, hfault]

/-- Only `start()` and a stop request run the callback. -/
theorem Sound.agent_of_running (h : Sound stoppable s holder)
    (hcallback : s.callback = .running agent) : agent = .starter ∨ agent = .stopper := by
  rcases (h.heard.running agent hcallback).2 with hpc | hpc | ⟨rfl, -⟩
  · exact (h.fits_at hpc).1
  · exact (h.fits_at hpc).1
  · exact Or.inr rfl

theorem Sound.fire (h : Sound stoppable s holder) (hqueued : s.queued = true)
    (hdue : s.expired = true ∨ s.stopping = true) : Sound stoppable s.fire (.agent .firer) := by
  obtain rfl := h.turn.queue.mp hqueued
  rw [State.fire, touch_eq (h.turn.pending nofun).2]
  refine h.take nofun rfl ⟨rfl, hdue⟩ (fun hpc ↦ ?_) fun hcallback ↦ ?_
  · cases (h.fits_at hpc).1
  · rcases h.agent_of_running hcallback with heq | heq <;> cases heq

theorem Sound.close (h : Sound stoppable s holder) (hstopping : s.stopping = true)
    (hqueue : holder ≠ .queue) : Sound stoppable { s with closed := true } holder :=
  ⟨h.fits, { h.turn with }, { h.heard with closed := fun _ ↦ ⟨hstopping, hqueue⟩ }, h.noFault⟩

/-! ### The steps of the threads -/

theorem Sound.begin (h : Sound stoppable s holder) (hpc : s.pc agent = .begin) :
    Sound stoppable (s.goto agent (if s.isStopped then .complete .stopped else .listen))
      holder := by
  obtain rfl := h.holder_eq hpc rfl
  obtain ⟨rfl, hcallback⟩ := h.fits_at hpc
  have hnot : s.callback ≠ .running .starter := h.not_running hpc nofun nofun nofun
  have hpresent : s.callback ≠ .destroyed := h.not_destroyed hpc nofun nofun
  split_ifs with hstop
  · refine h.goto ⟨?_, Or.inl hcallback⟩ rfl nofun (fun heq ↦ absurd heq hnot)
      fun heq ↦ absurd heq hpresent
    simpa [State.isStopped, State.Justified] using hstop
  · exact h.goto ⟨rfl, hcallback⟩ rfl nofun (fun heq ↦ absurd heq hnot)
      fun heq ↦ absurd heq hpresent

/-- The callback is constructed. -/
theorem Sound.arm (h : Sound stoppable s (.agent .starter)) (hcallback : s.callback = .absent)
    {callback : Callback} (hdestroyed : callback ≠ .destroyed) (hran : callback ≠ .ran)
    (hregistered : callback = .registered → s.stopRequested = false)
    (hrunning : ∀ other, callback = .running other →
      other = .starter ∧ pc = .cancel ∧ s.stopRequested = true)
    (hfits : ({ s with callback := callback }).Fits stoppable .starter pc)
    (hturn : pc.hasTurn .starter = true) :
    Sound stoppable ({ s with callback := callback }.goto .starter pc) (.agent .starter) := by
  have hlater : Later s ({ s with callback := callback }.goto .starter pc) := ⟨id, id, id, id⟩
  have hself := (h.turn.agents .starter).mpr rfl
  have hturns : Turn { s with callback := callback } (.agent .starter) :=
    { h.turn with receiver := nofun }
  refine ⟨fits_goto hfits fun other hne ↦ hlater.fits_of_waiting (by simp [hcallback]) ?_
    (h.fits other), hturns.goto (hturn.trans hself.symm) fun _ ↦ ⟨fun heq ↦ ?_, fun heq ↦ ?_⟩,
    ⟨nofun, h.heard.allowed, h.heard.cancelled, h.heard.closed, nofun, fun heq hstop ↦ ?_,
      fun other heq ↦ ?_, fun heq ↦ absurd heq hran, fun heq ↦ absurd heq hdestroyed⟩, h.noFault⟩
  · rw [Bool.eq_false_iff]
    intro hother
    have heq := (h.turn.agents other).mp hother
    cases heq
    exact hne rfl
  · rw [heq] at hturn
    cases hturn
  · rw [show s.pc .starter = .idle from heq] at hself
    cases hself
  · have hnot := hregistered heq
    rw [show s.stopRequested = true from hstop] at hnot
    cases hnot
  · obtain ⟨rfl, rfl, hstop⟩ := hrunning other heq
    exact ⟨hstop, Or.inl goto_pc_self⟩

theorem Sound.listen (h : Sound stoppable s holder) (hpc : s.pc agent = .listen) :
    Sound stoppable (s.listen agent stoppable) holder := by
  obtain rfl := h.holder_eq hpc rfl
  obtain ⟨rfl, hcallback⟩ := h.fits_at hpc
  unfold State.listen
  split_ifs with hstoppable hstop
  · rw [Bool.not_eq_true'] at hstoppable
    refine h.goto ⟨rfl, fun htrue ↦ ?_⟩ rfl nofun (fun heq ↦ ?_) fun heq ↦ ?_
    · rw [hstoppable] at htrue
      cases htrue
    · rw [hcallback] at heq
      cases heq
    · rw [hcallback] at heq
      cases heq
  · refine h.arm hcallback nofun nofun nofun (fun other heq ↦ ?_) ⟨Or.inl rfl, rfl⟩ rfl
    cases heq
    exact ⟨rfl, rfl, hstop⟩
  · exact h.arm hcallback nofun nofun (fun _ ↦ by simpa using hstop) nofun ⟨rfl, fun _ ↦ nofun⟩ rfl

theorem Sound.add (h : Sound stoppable s holder) (hpc : s.pc agent = .add) :
    ∃ holder', Sound stoppable (s.add agent) holder' := by
  obtain rfl := h.holder_eq hpc rfl
  obtain ⟨rfl, harmed⟩ := h.fits_at hpc
  have hnot : s.callback ≠ .running .starter := h.not_running hpc nofun nofun nofun
  have hpresent : s.callback ≠ .destroyed := h.not_destroyed hpc nofun nofun
  unfold State.add
  split_ifs with hstop
  · refine ⟨_, h.goto ⟨nofun, ?_⟩ rfl nofun (fun heq ↦ absurd heq hnot)
      fun heq ↦ absurd heq hpresent⟩
    rw [Bool.or_eq_true] at hstop
    exact hstop.imp (fun hcancelled ↦ (h.heard.cancelled hcancelled).1)
      fun hclosed ↦ (h.heard.closed hclosed).1
  · rw [Bool.or_eq_true, not_or] at hstop
    have hlater : Later s ({ s with queued := true }.goto .starter .returned) := ⟨id, id, id, id⟩
    refine ⟨.queue, fits_goto rfl fun other _ ↦ hlater.fits rfl (h.fits other),
      ⟨agents_goto h.turn.agents (by simp [Pc.hasTurn]) ?_, nobody_goto h.turn.nobody (by simp) ?_,
        by simp [State.goto], fun _ ↦ h.turn.pending nofun, nofun⟩,
      ⟨nofun, h.heard.allowed, fun hcancelled ↦ absurd hcancelled hstop.1,
        fun hclosed ↦ absurd hclosed hstop.2, fun _ ↦ harmed, fun heq hrequest ↦ ?_,
        fun other heq ↦ ?_, h.heard.ran, fun heq ↦ absurd heq hpresent⟩, h.noFault⟩
    · intro other hne
      simp [hne.symm]
    · exact fun hne ↦ absurd rfl hne
    · exact (goto_pc_of_ne (by simp)).trans (h.heard.registered heq hrequest)
    · have hne : other ≠ .starter := by
        rintro rfl
        exact hnot heq
      rw [goto_pc_of_ne hne]
      exact h.heard.running other heq

/-- The callback begins or ends. -/
theorem Sound.setCallback (h : Sound stoppable s holder) (harmed : ¬ s.Disarmed)
    {callback : Callback} (hpresent : callback ≠ .absent) (hdestroyed : callback ≠ .destroyed)
    (hregistered : callback ≠ .registered) (hran : callback = .ran → s.cancelled = true)
    (hrunning : ∀ other, callback = .running other →
      other = agent ∧ pc = .cancel ∧ s.stopRequested = true)
    (hothers : ∀ other, other ≠ agent → s.callback ≠ .running other)
    (hfits : ({ s with callback := callback }).Fits stoppable agent pc)
    (hturn : pc.hasTurn agent = (s.pc agent).hasTurn agent)
    (hidle : agent = .starter → (pc = .idle ↔ s.pc agent = .idle)) :
    Sound stoppable ({ s with callback := callback }.goto agent pc) holder := by
  have hlater : Later s ({ s with callback := callback }.goto agent pc) := ⟨id, id, id, id⟩
  have hturns : Turn { s with callback := callback } holder :=
    { h.turn with receiver := fun hholder ↦ absurd (h.turn.receiver hholder).2 harmed }
  refine ⟨fits_goto hfits fun other hne ↦
    hlater.fits_of_armed (hothers other hne) harmed hpresent (h.fits other),
    hturns.goto hturn hidle,
    ⟨fun hholder ↦ absurd (Or.inl (h.heard.fresh hholder)) harmed, h.heard.allowed,
      h.heard.cancelled, h.heard.closed, fun _ _ ↦ hpresent, fun heq ↦ absurd heq hregistered,
      fun other heq ↦ ?_, hran, fun heq ↦ absurd heq hdestroyed⟩, h.noFault⟩
  obtain ⟨rfl, rfl, hstop⟩ := hrunning other heq
  exact ⟨hstop, Or.inl goto_pc_self⟩

theorem not_disarmed_of_running (hcallback : s.callback = .running agent) : ¬ s.Disarmed := by
  rintro (heq | heq) <;> rw [hcallback] at heq <;> cases heq

theorem Sound.request (h : Sound stoppable s holder) (hpc : s.pc agent = .request) :
    Sound stoppable (s.request agent) holder := by
  obtain ⟨rfl, hstop⟩ := h.fits_at hpc
  unfold State.request
  split_ifs with hcallback
  · refine h.setCallback ?_ nofun nofun nofun nofun (fun other heq ↦ ?_) (by simp [hcallback])
      ⟨Or.inr rfl, rfl⟩ (by rw [hpc]; rfl) nofun
    · rintro (heq | heq) <;> rw [hcallback] at heq <;> cases heq
    · cases heq
      exact ⟨rfl, rfl, hstop⟩
  · refine ⟨fits_goto trivial fun other _ ↦ h.fits other, h.turn.goto (by rw [hpc]; rfl) nofun,
      h.heard.goto (fun _ ↦ hcallback) (fun heq ↦ ?_) fun _ hholder ↦ ?_, h.noFault⟩
    · exact absurd heq (h.not_running hpc nofun nofun nofun)
    · have hself := (h.turn.agents .stopper).mpr hholder
      rw [hpc] at hself
      cases hself

theorem Sound.callbackReturns (h : Sound stoppable s holder) (hpc : s.pc agent = .callbackDone) :
    Sound stoppable (s.callbackReturns agent) holder := by
  obtain ⟨hagent, hcallback, hcancelled⟩ := h.fits_at hpc
  have hothers : ∀ other, other ≠ agent → s.callback ≠ .running other := by
    intro other hne heq
    rw [hcallback] at heq
    cases heq
    exact hne rfl
  refine h.setCallback (not_disarmed_of_running hcallback) nofun nofun nofun (fun _ ↦ hcancelled)
    nofun hothers ?_ ?_ ?_
  · rcases hagent with rfl | rfl
    · exact ⟨rfl, fun _ ↦ nofun⟩
    · trivial
  · rw [hpc]
    rcases hagent with rfl | rfl <;> rfl
  · rintro rfl
    simp [hpc]

theorem Sound.cancel (h : Sound stoppable s holder) (hpc : s.pc agent = .cancel) :
    ∃ holder', Sound stoppable (s.cancel agent) holder' := by
  obtain ⟨hagent, hcallback⟩ := h.fits_at hpc
  have hstop := (h.heard.running agent hcallback).1
  unfold State.cancel
  split_ifs with hqueued
  · obtain rfl := h.turn.queue.mp hqueued
    have hstarter : agent ≠ .starter := by
      rintro rfl
      cases h.holder_eq hpc rfl
    obtain rfl := hagent.resolve_left hstarter
    refine ⟨_, h.take nofun rfl ⟨nofun, Or.inl hstop⟩ (fun heq ↦ ?_) fun _ ↦ ⟨rfl, rfl⟩⟩
    rw [hpc] at heq
    cases heq
  · have hlater : Later s { s with cancelled := true } := ⟨id, id, id, fun _ ↦ rfl⟩
    have hqueue : holder ≠ .queue := fun heq ↦ hqueued (h.turn.queue.mpr heq)
    have hturn : Turn { s with cancelled := true } holder := { h.turn with }
    have hheard : Heard stoppable { s with cancelled := true } holder :=
      { h.heard with cancelled := fun _ ↦ ⟨hstop, hqueue⟩, ran := fun _ ↦ rfl }
    refine ⟨holder, fits_goto ⟨hagent, hcallback, rfl⟩ fun other _ ↦ hlater.fits rfl (h.fits other),
      hturn.goto (by rw [hpc]; rfl) (fun _ ↦ by simp [hpc]), hheard.goto (fun heq ↦ ?_)
      (fun _ ↦ Or.inl rfl) (fun heq ↦ ?_), h.noFault⟩
    · rw [show s.pc agent = .request from heq] at hpc
      cases hpc
    · exact absurd (Or.inr heq) (not_disarmed_of_running hcallback)

theorem Sound.spawn (h : Sound stoppable s holder) (hpc : s.pc agent = .spawn) (room : Bool) :
    ∃ holder', Sound stoppable (s.spawn agent room) holder' := by
  obtain rfl := h.holder_eq hpc rfl
  obtain ⟨rfl, hdue⟩ := h.fits_at hpc
  have hnot : s.callback ≠ .running .firer := h.not_running hpc nofun nofun nofun
  have hpresent : s.callback ≠ .destroyed := h.not_destroyed hpc nofun nofun
  unfold State.spawn
  split_ifs with hstopping hroom
  · exact ⟨_, h.goto ⟨nofun, Or.inr hstopping⟩ rfl nofun (fun heq ↦ absurd heq hnot)
      fun heq ↦ absurd heq hpresent⟩
  · have hexpired := hdue.resolve_right hstopping
    have hfits : ∀ other, s.Fits stoppable other ((s.goto .firer .idle).pc other) :=
      fits_goto trivial fun other _ ↦ h.fits other
    have hagents : ∀ other, ((s.goto .firer .idle).pc other).hasTurn other = true ↔
        Holder.queue = .agent other :=
      agents_goto h.turn.agents (by simp [Pc.hasTurn]) fun other hne ↦ by simp [hne.symm]
    have hnobody : (s.goto .firer .idle).pc .starter = .idle ↔ Holder.agent .firer = .nobody :=
      nobody_goto h.turn.nobody nofun fun _ ↦ Iff.rfl
    have hheard : Heard stoppable s (.agent .task) :=
      h.heard.pass nofun nofun fun heq ↦ absurd heq hpresent
    have hleft : Heard stoppable (s.goto .firer .idle) (.agent .task) :=
      hheard.goto (by simp [hpc]) (fun heq ↦ absurd heq hnot) nofun
    have htask : s.pc .task ≠ .request := fun heq ↦ by cases (h.fits_at heq).1
    refine ⟨.agent .task, fits_goto ⟨rfl, hexpired⟩ fun other _ ↦ hfits other,
      ⟨agents_goto hagents (by simp [Pc.hasTurn]) fun other hne ↦ by simp [hne.symm],
        nobody_goto hnobody nofun (by simp), ?_, fun _ ↦ h.turn.pending nofun, nofun⟩,
      hleft.goto (fun heq ↦ absurd ((goto_pc_of_ne (by simp)).symm.trans heq) htask)
        (fun heq ↦ ?_) fun heq ↦ absurd heq hpresent, h.noFault⟩
    · simpa [State.goto] using h.turn.queue
    · rcases h.agent_of_running heq with hagent | hagent <;> cases hagent
  · exact ⟨_, h.goto ⟨nofun, hdue.resolve_right hstopping⟩ rfl nofun (fun heq ↦ absurd heq hnot)
      fun heq ↦ absurd heq hpresent⟩

/-- `listener.stop()`. -/
theorem Sound.disarm (h : Sound stoppable s (.agent agent)) (hstop : s.stopListener agent = some s')
    (hpc : pc = .decide ∨ ∃ ending, pc = .complete ending)
    (hfits : Later s s' → s'.Disarmed → s'.Fits stoppable agent pc) :
    Sound stoppable (s'.goto agent pc) (.agent agent) := by
  have hturn : pc.hasTurn agent = true := by
    rcases hpc with rfl | ⟨ending, rfl⟩ <;> rfl
  have hidle : pc ≠ .idle := by
    rcases hpc with rfl | ⟨ending, rfl⟩ <;> simp
  by_cases hcallback : s.callback = .absent
  · have heq : s = s' := by simpa [State.stopListener, hcallback] using hstop
    subst heq
    exact h.goto (hfits ⟨id, id, id, id⟩ (Or.inl hcallback)) hturn hidle (by simp [hcallback])
      fun _ ↦ hpc
  · obtain ⟨hothers, rfl⟩ : (∀ other, other ≠ agent → s.callback ≠ .running other) ∧
        { s with callback := .destroyed } = s' := by
      unfold State.stopListener at hstop
      split at hstop
      case h_1 heq => exact absurd heq hcallback
      case h_2 other heq =>
        split_ifs at hstop with hagent
        subst hagent
        cases hstop
        refine ⟨fun other' hne heq' ↦ ?_, rfl⟩
        rw [heq] at heq'
        cases heq'
        exact hne rfl
      case h_3 hrunning =>
        cases hstop
        exact ⟨fun other _ heq ↦ hrunning other heq, rfl⟩
    have hlater : Later s { s with callback := .destroyed } := ⟨id, id, id, id⟩
    have hturns : Turn { s with callback := .destroyed } (.agent agent) :=
      { h.turn with receiver := nofun }
    have hself := (h.turn.agents agent).mpr rfl
    refine ⟨fits_goto (hfits hlater (Or.inr rfl)) fun other hne ↦
      hlater.fits_of_waiting (hothers other hne) ?_ (h.fits other),
      hturns.goto (hturn.trans hself.symm) fun _ ↦ ⟨fun heq ↦ absurd heq hidle, fun heq ↦ ?_⟩,
      ⟨nofun, h.heard.allowed, h.heard.cancelled, h.heard.closed, nofun, nofun, nofun, nofun,
        fun _ ↦ Or.inr ⟨agent, rfl, by rwa [goto_pc_self]⟩⟩, h.noFault⟩
    · rw [Bool.eq_false_iff]
      intro hother
      cases (h.turn.agents other).mp hother
      exact hne rfl
    · rw [show s.pc agent = .idle from heq] at hself
      cases hself

theorem Sound.decide (h : Sound stoppable s holder) (hpc : s.pc agent = .decide) :
    Sound stoppable (s.goto agent (.complete (if s.isStopped then .stopped else .value)))
      holder := by
  obtain rfl := h.holder_eq hpc rfl
  obtain ⟨-, hexpired, hdisarmed⟩ := h.fits_at hpc
  refine h.goto ⟨?_, hdisarmed⟩ rfl nofun (fun heq ↦ absurd hdisarmed (not_disarmed_of_running heq))
    fun _ ↦ Or.inr ⟨_, rfl⟩
  split_ifs with hstop
  · simpa [State.isStopped, State.Justified] using hstop
  · exact hexpired

theorem Sound.complete (h : Sound stoppable s holder) {ending : Ending}
    (hpc : s.pc agent = .complete ending) :
    Sound stoppable (s.complete agent ending) .receiver := by
  obtain rfl := h.holder_eq hpc rfl
  obtain ⟨hjustified, hdisarmed⟩ := h.fits_at hpc
  have hlater : Later s (s.complete agent ending) := ⟨id, id, id, id⟩
  have hheard : Heard stoppable s .receiver := h.heard.pass nofun nofun fun _ ↦ rfl
  refine ⟨fits_goto ?_ fun other _ ↦ hlater.fits rfl (h.fits other),
    ⟨agents_goto h.turn.agents ?_ fun other hne ↦ by simp [hne.symm],
      nobody_goto h.turn.nobody (fun heq ↦ by simp [heq]) (by simp), ?_, fun hne ↦ absurd rfl hne,
      fun _ ↦ ⟨⟨ending, ?_, hlater.justified hjustified⟩, hdisarmed⟩⟩,
    { hheard.goto (fun heq ↦ ?_) (fun heq ↦ ?_) nofun with }, h.noFault⟩
  · split_ifs with heq
    · exact heq
    · trivial
  · split_ifs <;> simp [Pc.hasTurn]
  · simpa [State.complete, State.goto] using h.turn.queue
  · show s.completions ++ [ending] = [ending]
    rw [(h.turn.pending nofun).1, List.nil_append]
  · rw [hpc] at heq
    cases heq
  · exact absurd hdisarmed (not_disarmed_of_running heq)

/-! ### Every step -/

/-- A thread that is at the operation. -/
theorem Sound.act (h : Sound stoppable s holder) {room : Bool}
    (hstep : s.act stoppable agent room (s.pc agent) = some s') :
    ∃ holder', Sound stoppable s' holder' := by
  cases hpc : s.pc agent with
  | idle | request | returned => simp [State.act, hpc] at hstep
  | begin =>
    rw [hpc] at hstep
    cases hstep
    exact ⟨holder, h.begin hpc⟩
  | listen =>
    rw [hpc] at hstep
    cases hstep
    exact ⟨holder, h.listen hpc⟩
  | add =>
    rw [hpc] at hstep
    cases hstep
    exact h.add hpc
  | cancel =>
    rw [hpc] at hstep
    cases hstep
    exact h.cancel hpc
  | callbackDone =>
    rw [hpc] at hstep
    cases hstep
    exact ⟨holder, h.callbackReturns hpc⟩
  | spawn =>
    rw [hpc] at hstep
    cases hstep
    exact h.spawn hpc room
  | run =>
    simp only [State.act, hpc, Option.map_eq_some_iff] at hstep
    obtain ⟨t, hstop, rfl⟩ := hstep
    obtain rfl := h.holder_eq hpc rfl
    obtain ⟨htask, hexpired⟩ := h.fits_at hpc
    exact ⟨_, h.disarm hstop (Or.inl rfl) fun hlater hdisarmed ↦
      ⟨htask, hlater.expired hexpired, hdisarmed⟩⟩
  | decide =>
    rw [hpc] at hstep
    cases hstep
    exact ⟨holder, h.decide hpc⟩
  | stopListener ending =>
    simp only [State.act, hpc, Option.map_eq_some_iff] at hstep
    obtain ⟨t, hstop, rfl⟩ := hstep
    obtain rfl := h.holder_eq hpc rfl
    have hjustified := (h.fits_at hpc).2
    exact ⟨_, h.disarm hstop (Or.inr ⟨ending, rfl⟩) fun hlater hdisarmed ↦
      ⟨hlater.justified hjustified, hdisarmed⟩⟩
  | complete ending =>
    rw [hpc] at hstep
    cases hstep
    exact ⟨.receiver, h.complete hpc⟩

theorem Sound.advance (h : Sound stoppable s holder) {room : Bool}
    (hstep : s.advance stoppable agent room = some s') :
    ∃ holder', Sound stoppable s' holder' := by
  unfold State.advance at hstep
  split_ifs at hstep with hrequest
  · cases hstep
    exact ⟨holder, h.request hrequest⟩
  · by_cases hidle : s.pc agent = .idle
    · simp [State.act, hidle] at hstep
    by_cases hreturned : s.pc agent = .returned
    · simp [State.act, hreturned] at hstep
    rw [touch_eq (h.live rfl hidle hreturned hrequest)] at hstep
    exact h.act hstep

/-- The receiver destroys the operation. -/
theorem Sound.destroy (h : Sound stoppable s holder) (hcompletions : s.completions ≠ []) :
    Sound stoppable { s with destroyed := true } holder := by
  have hholder : holder = .receiver := by
    by_contra hne
    exact hcompletions (h.turn.pending hne).1
  refine ⟨h.fits, { h.turn with pending := fun hne ↦ absurd hholder hne }, { h.heard with },
    h.noFault⟩

theorem Sound.step (h : Sound stoppable s holder) {a : Action}
    (hstep : s.step stoppable a = some s') : ∃ holder', Sound stoppable s' holder' := by
  cases a with
  | start =>
    obtain ⟨hidle, heq⟩ := Option.ite_none_right_eq_some.mp hstep
    cases heq
    exact ⟨_, h.start hidle⟩
  | requestStop =>
    obtain ⟨⟨hstoppable, -, hidle⟩, heq⟩ := Option.ite_none_right_eq_some.mp hstep
    cases heq
    exact ⟨holder, h.requestStop hstoppable hidle⟩
  | stop =>
    cases hstep
    exact ⟨holder, h.later true s.expired (fun _ ↦ rfl) id⟩
  | expire =>
    obtain ⟨hqueued, heq⟩ := Option.ite_none_right_eq_some.mp hstep
    cases heq
    exact ⟨_, (h.later s.stopping true id fun _ ↦ rfl).fire hqueued (Or.inl rfl)⟩
  | close =>
    obtain ⟨hstopping, heq⟩ := Option.ite_none_right_eq_some.mp hstep
    cases heq
    split_ifs with hqueued
    · have hfired := h.fire hqueued (Or.inr hstopping)
      exact ⟨_, hfired.close hstopping nofun⟩
    · exact ⟨holder, h.close hstopping fun heq ↦ hqueued (h.turn.queue.mpr heq)⟩
  | step agent room => exact h.advance hstep
  | destroy =>
    obtain ⟨⟨hcompletions, -⟩, heq⟩ := Option.ite_none_right_eq_some.mp hstep
    cases heq
    exact ⟨holder, h.destroy hcompletions⟩

theorem sound_initial (stoppable : Bool) : Sound stoppable initial .nobody where
  fits _ := trivial
  turn :=
    { agents _ := ⟨nofun, nofun⟩
      nobody := ⟨fun _ ↦ rfl, fun _ ↦ rfl⟩
      queue := ⟨nofun, nofun⟩
      pending _ := ⟨rfl, rfl⟩
      receiver := nofun }
  heard :=
    { fresh _ := rfl
      allowed := nofun
      cancelled := nofun
      closed := nofun
      armed := nofun
      registered := nofun
      running _ := nofun
      ran := nofun
      disarmed := nofun }
  noFault := rfl

/-! ### What the invariant says -/

/-- Nobody has a step to take, and the entry is queued: then nobody told the timer to stop. -/
theorem Sound.untouched (h : Sound stoppable s .queue) (hrest : s.AtRest) :
    s.stopRequested = false ∧ s.closed = false := by
  refine ⟨Bool.eq_false_iff.mpr fun hstop ↦ ?_,
    Bool.eq_false_iff.mpr fun hclosed ↦ (h.heard.closed hclosed).2 rfl⟩
  cases hcallback : s.callback with
  | absent => exact h.heard.armed rfl (h.heard.allowed hstop) hcallback
  | registered =>
    have hpc := h.heard.registered hcallback hstop
    rw [hrest.2 .stopper nofun] at hpc
    cases hpc
  | running agent =>
    have hpc := (h.heard.running agent hcallback).2
    rcases h.agent_of_running hcallback with rfl | rfl
    · simp [hrest.1] at hpc
    · simp [hrest.2] at hpc
  | ran => exact (h.heard.cancelled (h.heard.ran hcallback)).2 rfl
  | destroyed =>
    rcases h.heard.disarmed hcallback with heq | ⟨agent, heq, -⟩ <;> cases heq

/-- A thread that does not wait has a step to take. -/
theorem advance_isSome (hidle : s.pc agent ≠ .idle) (hreturned : s.pc agent ≠ .returned)
    (hfree : ∀ other, other ≠ agent → s.callback ≠ .running other) (room : Bool) :
    (s.advance stoppable agent room).isSome = true := by
  have hstop : (s.touch.stopListener agent).isSome = true := by
    unfold State.stopListener
    split
    case h_1 => rfl
    case h_2 other heq =>
      rw [if_pos]
      · rfl
      · by_contra hne
        exact hfree other hne heq
    case h_3 => rfl
  unfold State.advance
  split_ifs with hrequest
  · rfl
  · cases hpc : s.pc agent with
    | idle => exact absurd hpc hidle
    | request => exact absurd hpc hrequest
    | returned => exact absurd hpc hreturned
    | run | stopListener ending => simpa [State.act] using hstop
    | begin | listen | add | cancel | callbackDone | spawn | decide | complete ending => rfl

/-- A thread waits for a run of the callback only, and whoever runs it does not wait. -/
theorem Sound.progress (h : Sound stoppable s holder) (hidle : s.pc agent ≠ .idle)
    (hreturned : s.pc agent ≠ .returned) :
    ∃ other, ∀ stoppable room, (s.advance stoppable other room).isSome = true := by
  by_cases hfree : ∀ other, other ≠ agent → s.callback ≠ .running other
  · exact ⟨agent, fun _ room ↦ advance_isSome hidle hreturned hfree room⟩
  · push Not at hfree
    obtain ⟨other, -, hcallback⟩ := hfree
    have hpc := (h.heard.running other hcallback).2
    refine ⟨other, fun _ room ↦ advance_isSome ?_ ?_ (fun third hne heq ↦ ?_) room⟩
    · rintro heq
      simp [heq] at hpc
    · rintro heq
      simp [heq] at hpc
    · rw [hcallback] at heq
      cases heq
      exact hne rfl

theorem Sound.contract (h : Sound stoppable s holder) : s.Contract where
  noFault := h.noFault
  progress _ := h.progress
  once := by
    by_cases hholder : holder = .receiver
    · obtain ⟨⟨ending, hcompletions, -⟩, -⟩ := h.turn.receiver hholder
      simp [hcompletions]
    · simp [(h.turn.pending hholder).1]
  justified := by
    intro ending hmem
    by_cases hholder : holder = .receiver
    · obtain ⟨⟨only, hcompletions, hjustified⟩, -⟩ := h.turn.receiver hholder
      obtain rfl : ending = only := by simpa [hcompletions] using hmem
      exact hjustified
    · simp [(h.turn.pending hholder).1] at hmem
  completes := by
    intro hrest
    cases holder with
    | nobody =>
      have hidle := h.turn.nobody.mpr rfl
      rw [hrest.1] at hidle
      cases hidle
    | agent agent =>
      have hturn := (h.turn.agents agent).mpr rfl
      rcases eq_or_ne agent .starter with rfl | hne
      · rw [hrest.1] at hturn
        cases hturn
      · rw [hrest.2 agent hne] at hturn
        cases hturn
    | queue => exact Or.inr ⟨h.turn.queue.mpr rfl, h.untouched hrest⟩
    | receiver =>
      obtain ⟨⟨ending, hcompletions, -⟩, -⟩ := h.turn.receiver rfl
      exact Or.inl (by simp [hcompletions])

end Steps

/-- A timer meets its contract in every state, whatever the order of `start()`, the deadline, the
requests to stop and the steps of the threads. -/
theorem timer_contract (stoppable : Bool) (s : State) (hs : (system stoppable).Reachable s) :
    s.Contract := by
  have hsound : ∃ holder, Sound stoppable s holder := by
    refine hs.invariant (P := fun t ↦ ∃ holder, Sound stoppable t holder) (fun t hinit ↦ ?_)
      fun t a t' hsound hnext ↦ ?_
    · obtain rfl : t = initial := hinit
      exact ⟨.nobody, sound_initial stoppable⟩
    · obtain ⟨holder, h⟩ := hsound
      exact h.step hnext
  obtain ⟨holder, h⟩ := hsound
  exact h.contract

/-- Stop is requested while the entry is queued: the stop callback takes it back, and nothing is
left to fire. -/
def stoppedWhileQueued : State :=
  ((system true).run initial
    [.start, .step .starter true, .step .starter true, .step .starter true, .requestStop,
      .step .stopper true, .step .stopper true, .step .stopper true, .step .stopper true,
      .destroy, .stop, .close]).get (by decide)

theorem timer_contract_stoppedWhileQueued :
    stoppedWhileQueued.Contract ∧ stoppedWhileQueued.completions = [.stopped] :=
  ⟨timer_contract true stoppedWhileQueued
    (System.reachable_of_run rfl (Option.some_get _).symm), by decide⟩

end Stackfull.Exec.Timer
