import Stackfull.Sync.ChannelInvariant
import Mathlib.Data.Fintype.Basic

/-!
# What a channel guarantees

`ClosableFifo` says what a channel is for: a list of values that accepts at its end while it is
open and has room, gives from its front, and can be closed. Every step of the channel is a step of
that list or leaves it alone.

A state is quiescent when no call is in progress and every waiter that was notified has resumed.
Without forced unwinds no quiescent state leaves anyone queued that could proceed. With them it
holds as long as each `WaitGuard` destructor finds its waiter still on the list: the other branch
of the destructor drops the notification the waiter was taken off the list for, and
`stranded_after_unwind` is a run in which a receiver is left queued beside a buffered value.
-/

set_option autoImplicit false
set_option relaxedAutoImplicit false
set_option linter.dupNamespace false

namespace Stackfull.Sync.Channel

open Stackfull.Lib

universe u v

variable {ι : Type u} {T : Type v} [DecidableEq ι]

/-! ### The list a channel implements -/

/-- A list of values that can be closed. -/
structure ClosableFifo (T : Type v) where
  items : List (Option T)
  closed : Bool

/-- What can happen to the list in one step. -/
inductive ClosableFifo.Step (capacity : ℕ) : ClosableFifo T → ClosableFifo T → Prop
  | stay (f : ClosableFifo T) : Step capacity f f
  | accept {items : List (Option T)} (value : T) (hroom : items.length < capacity) :
      Step capacity ⟨items, false⟩ ⟨items ++ [some value], false⟩
  | take {items : List (Option T)} (value : T) (closed : Bool) :
      Step capacity ⟨some value :: items, closed⟩ ⟨items, closed⟩
  | close (items : List (Option T)) (closed : Bool) :
      Step capacity ⟨items, closed⟩ ⟨items, true⟩

/-- The list a state of the channel stands for. -/
def State.fifo (s : State ι T) : ClosableFifo T :=
  ⟨s.ring.contents, s.closed⟩

/-- Every step of the channel is a step of the list it stands for. -/
theorem fifo_step {c : Config ι} {s t : State ι T} {a : Action ι T} (hs : Buffer c s)
    (h : Step c s a t) : ClosableFifo.Step c.capacity s.fifo t.fifo := by
  cases h with
  | accept hpc hopen hroom =>
    have hlength : s.ring.contents.length < c.capacity := by
      rw [RingBuffer.length_contents, ← hs.capacity]
      exact hroom
    simpa [State.fifo, RingBuffer.contents_push hroom, hopen] using
      ClosableFifo.Step.accept _ hlength
  | @take p value taken rest hpc hcount hvalue =>
    have hcontents := RingBuffer.contents_pop hs.wellFormed hcount
    simp only [State.fifo, hcontents, hvalue]
    exact .take value _
  | close => exact .close _ _
  | _ => exact .stay _

/-! ### The invariants hold in every run -/

/-- The invariants that no forced unwind breaks. -/
structure Sound (c : Config ι) (s : State ι T) : Prop where
  buffer : Buffer c s
  links : Links c s
  log : Log s

theorem sound_step {c : Config ι} {s t : State ι T} {a : Action ι T} (hs : Sound c s)
    (h : Step c s a t) : Sound c t :=
  ⟨buffer_step hs.buffer h, links_step hs.links h, log_step hs.log hs.links h⟩

theorem sound_of_reachableUnder {c : Config ι} {good : State ι T → Action ι T → Prop}
    {s : State ι T} (hs : (system c).ReachableUnder good s) : Sound c s := by
  refine hs.invariant ?_ ?_
  · rintro s rfl
    exact ⟨buffer_initial c, links_initial c, log_initial c⟩
  · intro s a t hs _ hstep
    exact sound_step hs (step_of_eq hstep)

/-- The demand is matched in every run whose guards find their waiters linked. -/
theorem demandAt_of_reachableUnder {c : Config ι} {s : State ι T}
    (hs : (system c).ReachableUnder (fun s a ↦ guardFindsLinked s a = true) s) (side : Side) :
    DemandAt s side := by
  have hboth : Links c s ∧ DemandAt s side := by
    refine hs.invariant (P := fun s ↦ Links c s ∧ DemandAt s side) ?_ ?_
    · rintro s rfl
      exact ⟨links_initial c, demandAt_initial c side⟩
    · rintro s a t ⟨hlinks, hdemand⟩ hgood hstep
      have h := step_of_eq hstep
      exact ⟨links_step hlinks h, demandAt_step hdemand hlinks hgood h⟩
  exact hboth.2

/-- The step is not a forced unwind. -/
def noForcedUnwind (_ : State ι T) : Action ι T → Bool
  | .forcedUnwind _ => false
  | _ => true

/-- No party is in the destructor of a `WaitGuard`. -/
def NoGuard (s : State ι T) : Prop :=
  ∀ p side, s.pc p ≠ .unwinding side

theorem noGuard_step {c : Config ι} {s t : State ι T} {a : Action ι T} (hs : NoGuard s)
    (hgood : noForcedUnwind s a = true) (h : Step c s a t) : NoGuard t := by
  unfold NoGuard at hs ⊢
  cases h with
  | newWaiter => exact hs
  | @begin p call pc hfree hentry =>
    have hpc := (State.of_entry hentry).1
    intro q side
    by_cases hq : q = p
    · subst hq
      rintro heq
      simp only [State.setPc_pc, Function.update_self] at heq
      rw [heq] at hpc
      cases hpc
    · simpa [hq] using hs q side
  | unwind => cases hgood
  | _ => grind

/-- Without forced unwinds no `WaitGuard` destructor runs armed. -/
theorem guardFindsLinked_of_noForcedUnwind {c : Config ι} {s : State ι T}
    (hs : (system c).ReachableUnder (fun s a ↦ noForcedUnwind s a = true) s) :
    (system c).ReachableUnder (fun s a ↦ guardFindsLinked s a = true) s := by
  have hboth : (system c).ReachableUnder (fun s a ↦ guardFindsLinked s a = true) s ∧
      NoGuard s := by
    refine hs.invariant (P := fun s ↦
      (system c).ReachableUnder (fun s a ↦ guardFindsLinked s a = true) s ∧ NoGuard s) ?_ ?_
    · rintro s rfl
      exact ⟨.init rfl, fun p side ↦ by simp [initial]⟩
    · rintro s a t ⟨hreach, hguard⟩ hgood hstep
      refine ⟨.step hreach ?_ hstep, noGuard_step hguard hgood (step_of_eq hstep)⟩
      unfold guardFindsLinked
      split
      case h_1 p =>
        split
        case h_1 side hpc => exact absurd hpc (hguard p side)
        case h_2 => rfl
      case h_2 => rfl
  exact hboth.1

/-! ### Quiescent states -/

/-- The party is not inside a call, or it waits and was not notified. -/
def State.settled (s : State ι T) (p : ι) : Bool :=
  match s.pc p with
  | .idle => true
  | .returned _ => true
  | .waiting _ => !s.satisfied p
  | .enqueued _ => true
  | _ => false

/-- No call is in progress and every waiter that was notified has resumed. -/
def Quiescent (s : State ι T) : Prop :=
  ∀ p, s.settled p = true

instance [Fintype ι] (s : State ι T) : Decidable (Quiescent s) :=
  inferInstanceAs (Decidable (∀ p, s.settled p = true))

omit [DecidableEq ι] in
/-- In a quiescent state nobody has yet to try: whoever waits is queued. -/
theorem not_retrying_of_quiescent {c : Config ι} {s : State ι T} (hlinks : Links c s)
    (hquiet : Quiescent s) (side : Side) (p : ι) : ¬ s.Retrying side p := by
  have hchain : ∀ q, (s.pc q).chain = [] := by
    intro q
    have hq := hquiet q
    cases hpc : s.pc q <;> simp_all [State.settled, Pc.chain]
  have hp := hquiet p
  rintro (hretries | ⟨hwaits, hoff⟩)
  · cases hpc : s.pc p <;> simp_all [State.settled, Pc.retries]
  · rcases hlinks.covered p side hwaits with hlinked | ⟨hkind, hsatisfied⟩ | ⟨q, hq⟩
    · exact hoff hlinked
    · have hfits := hlinks.fits p
      cases hpc : s.pc p <;> simp_all [State.settled, Pc.waitsOn, Pc.Fits]
    · rw [hchain q] at hq
      cases hq

/-- A quiescent state leaves nobody queued at an end that has something to use. -/
theorem usable_of_quiescent {c : Config ι} {s : State ι T}
    (hs : (system c).ReachableUnder (fun s a ↦ guardFindsLinked s a = true) s)
    (hquiet : Quiescent s) {side : Side} (hqueue : s.queue side ≠ []) : s.usable side = 0 := by
  obtain ⟨parties, hcard, hparties⟩ := demandAt_of_reachableUnder hs side hqueue
  have hlinks := (sound_of_reachableUnder hs).links
  have hnone : parties = ∅ := Finset.eq_empty_of_forall_notMem fun p hp ↦
    not_retrying_of_quiescent hlinks hquiet side p (hparties p hp)
  rw [hnone, Finset.card_empty] at hcard
  exact Nat.le_zero.mp hcard

/-! ### After close -/

/-- A closed channel accepts nothing and stays closed. -/
theorem accepted_of_closed {c : Config ι} {s t : State ι T} {a : Action ι T}
    (hclosed : s.closed = true) (h : Step c s a t) :
    t.closed = true ∧ t.accepted = s.accepted := by
  cases h with
  | accept hpc hopen => exact absurd (hopen.symm.trans hclosed) (by decide)
  | close => exact ⟨rfl, rfl⟩
  | _ => exact ⟨hclosed, rfl⟩

omit [DecidableEq ι] in
/-- The first occupied slot holds a value. -/
theorem Buffer.pop_some {c : Config ι} {s : State ι T} (hs : Buffer c s)
    (hcount : s.ring.count ≠ 0) : ∃ value, s.ring.pop.1 = some value := by
  have hmem : s.ring.pop.1 ∈ s.accepted.map (fun entry ↦ some entry.2) := by
    rw [hs.history, RingBuffer.contents_pop hs.wellFormed hcount]
    simp
  obtain ⟨entry, -, hentry⟩ := List.mem_map.mp hmem
  exact ⟨entry.2, hentry.symm⟩

/-- Whoever is about to receive gets the first buffered value. -/
theorem recv_gets_first {c : Config ι} {s : State ι T} (hs : Buffer c s) {p : ι}
    (hpc : (s.pc p).attempt = some .recv) {value : T} {rest : List (Option T)}
    (hcontents : s.ring.contents = some value :: rest) :
    ∃ t, s.step c (.act p) = some t ∧ t.received = s.received ++ [(s.callOf p, value)] ∧
      t.ring.contents = rest := by
  have hcount : s.ring.count ≠ 0 := by
    rw [← RingBuffer.length_contents, hcontents]
    simp
  have hpop := RingBuffer.contents_pop hs.wellFormed hcount
  rw [hcontents, List.cons.injEq] at hpop
  obtain ⟨hvalue, hrest⟩ := hpop
  have hready : s.isReady (.recv : Transfer T) = true := by simpa [State.isReady] using hcount
  cases hp : s.pc p <;> rw [hp] at hpc <;> simp only [Pc.attempt, reduceCtorEq] at hpc <;>
    (obtain rfl := Option.some.inj hpc
     simp [State.step, State.act, hp, State.stepBlocking, State.stepTrying, State.stepOrEnqueue,
      hready, State.transferNow, State.popLocked, ← hvalue, ← hrest])

/-- One `tryRecv` on a closed channel that still holds values. -/
theorem tryRecv_of_closed {c : Config ι} {s : State ι T} (hs : Sound c s) {p : ι}
    (hclosed : s.closed = true) (hfree : s.isFree p = true) (hcount : s.ring.count ≠ 0) :
    ∃ t, (system c).runUnder noForcedUnwind s [.call p .tryRecv, .act p, .act p] = some t ∧
      t.closed = true ∧ t.isFree p = true ∧ t.ring.count + 1 = s.ring.count ∧
      t.accepted = s.accepted := by
  obtain ⟨value, hvalue⟩ := hs.buffer.pop_some hcount
  have hqueue := hs.links.closedEmpty hclosed .send
  let called : State ι T :=
    { s.setPc p (.trying .recv) with callCount := Function.update s.callCount p (s.callCount p + 1) }
  let taken : State ι T :=
    ((called.popped p value).setQueue .send []).setPc p (.notifying [] .transferred)
  have hcall : s.step c (.call p .tryRecv) = some called := by
    simp [State.step, State.begin, hfree, State.entry, called]
  have htake : called.step c (.act p) = some taken := by
    simp [State.step, State.act, State.stepTrying, State.isReady, hcount, State.transferNow,
      State.popLocked, hvalue, hqueue, WaitList.popFront, Transfer.side, Side.peer, called, taken]
  have hreturn : taken.step c (.act p) = some (taken.setPc p (.returned .transferred)) := by
    simp [State.step, State.act, taken]
  refine ⟨taken.setPc p (.returned .transferred), ?_, hclosed, by simp [State.isFree], ?_, rfl⟩
  · simp [System.runUnder, noForcedUnwind, system, hcall, htake, hreturn]
  · simp only [State.setPc_ring, State.setQueue_ring, State.popped_ring, RingBuffer.pop_count,
      taken, called]
    omega

/-- A free party can receive everything a closed channel still holds. -/
theorem drain_of_closed {c : Config ι} {s : State ι T} (hs : Sound c s) {p : ι}
    (hclosed : s.closed = true) (hfree : s.isFree p = true) :
    ∃ labels t, (system c).runUnder noForcedUnwind s labels = some t ∧
      t.received.map Prod.snd = s.accepted.map Prod.snd := by
  induction hcount : s.ring.count generalizing s with
  | zero =>
    have hcontents : s.ring.contents = [] :=
      List.length_eq_zero_iff.mp (by rw [RingBuffer.length_contents, hcount])
    have hhistory := hs.buffer.history
    rw [hcontents, List.append_nil] at hhistory
    refine ⟨[], s, rfl, ?_⟩
    have hsome : (s.received.map Prod.snd).map some = (s.accepted.map Prod.snd).map some := by
      simpa [List.map_map, Function.comp_def] using hhistory.symm
    exact List.map_injective_iff.mpr (Option.some_injective T) hsome
  | succ n ih =>
    obtain ⟨t, hrun, htclosed, htfree, htcount, haccepted⟩ :=
      tryRecv_of_closed hs hclosed hfree (by omega)
    have ht : Sound c t := System.runUnder_preserves (P := Sound c)
      (fun s a t hs hstep ↦ sound_step hs (step_of_eq hstep)) hs hrun
    obtain ⟨labels, last, hlast, hreceived⟩ := ih ht htclosed htfree (by omega)
    exact ⟨_, last, System.runUnder_append hrun hlast, by rw [hreceived, haccepted]⟩

/-! ### Without forced unwinds -/

/-- Somebody is queued who could proceed. -/
def State.Stranded (s : State ι T) : Prop :=
  (0 < s.ring.count ∧ s.queue .recv ≠ []) ∨
    (s.ring.count < s.ring.capacity ∧ s.queue .send ≠ []) ∨
    (s.closed = true ∧ ∃ side, s.queue side ≠ [])

/-- Without forced unwinds a channel is a closable bounded FIFO with no stranded waiter. The
buffer holds what was accepted and not received, in order; each step is a step of the list;
nothing is accepted after close; whoever receives gets the first value, and after close one party
can receive all of them; an operation that was stopped or cancelled moved nothing; and in a
quiescent state nobody is queued who could proceed. -/
theorem channel_refines_closable_fifo (c : Config ι) {s : State ι T}
    (hs : (system c).ReachableUnder (fun s a ↦ noForcedUnwind s a = true) s) :
    s.accepted.map (fun entry ↦ some entry.2) =
        s.received.map (fun entry ↦ some entry.2) ++ s.ring.contents ∧
      s.ring.contents.length ≤ c.capacity ∧
      (∀ a t, s.step c a = some t → ClosableFifo.Step c.capacity s.fifo t.fifo) ∧
      (s.closed = true → ∀ labels t, (system c).runUnder noForcedUnwind s labels = some t →
        t.accepted = s.accepted) ∧
      (∀ p value rest, (s.pc p).attempt = some .recv → s.ring.contents = some value :: rest →
        ∃ t, s.step c (.act p) = some t ∧ t.received = s.received ++ [(s.callOf p, value)] ∧
          t.ring.contents = rest) ∧
      (∀ p, s.closed = true → s.isFree p = true →
        ∃ labels t, (system c).runUnder noForcedUnwind s labels = some t ∧
          t.received.map Prod.snd = s.accepted.map Prod.snd) ∧
      (∀ p, s.pc p = .returned .stopped ∨ s.pc p = .returned .cancelled →
        s.callOf p ∉ s.logged) ∧
      (Quiescent s → ¬ s.Stranded) := by
  have hsound := sound_of_reachableUnder hs
  refine ⟨hsound.buffer.history, ?_, ?_, ?_, ?_, ?_, ?_, ?_⟩
  · rw [RingBuffer.length_contents, ← hsound.buffer.capacity]
    exact hsound.buffer.wellFormed.count_le
  · intro a t hstep
    exact fifo_step hsound.buffer (step_of_eq hstep)
  · intro hclosed labels t hrun
    have hkept := System.runUnder_preserves
      (P := fun t : State ι T ↦ t.closed = true ∧ t.accepted = s.accepted)
      (fun r a t hr hstep ↦ by
        obtain ⟨htclosed, haccepted⟩ := accepted_of_closed hr.1 (step_of_eq hstep)
        exact ⟨htclosed, haccepted.trans hr.2⟩) ⟨hclosed, rfl⟩ hrun
    exact hkept.2
  · intro p value rest hpc hcontents
    exact recv_gets_first hsound.buffer hpc hcontents
  · intro p hclosed hfree
    exact drain_of_closed hsound hclosed hfree
  · intro p hpc
    rw [hsound.log.moved p]
    rcases hpc with hpc | hpc <;> simp [hpc, Pc.hasMoved]
  · intro hquiet
    have hlinked := guardFindsLinked_of_noForcedUnwind hs
    rintro (⟨hcount, hqueue⟩ | ⟨hroom, hqueue⟩ | ⟨hclosed, side, hqueue⟩)
    · have husable := usable_of_quiescent hlinked hquiet hqueue
      simp only [State.usable] at husable
      omega
    · have husable := usable_of_quiescent hlinked hquiet hqueue
      simp only [State.usable] at husable
      omega
    · exact hqueue (hsound.links.closedEmpty hclosed side)

/-- A channel with room for one value, a task, a thread and an operation that receives with a
callback. -/
def oneSlot : Config (Fin 3) where
  capacity := 1
  capacity_pos := Nat.one_pos
  kind := fun p ↦ if p = 0 then .task else if p = 1 then .thread else .callback
  operationSide := fun _ ↦ .recv

/-- The receiver waits, a value is sent and received, a second one is sent and the channel is
closed over it. -/
def sendThenClose : List (Action (Fin 3) ℕ) :=
  [.call 0 .recv, .act 0, .call 1 (.send 7), .act 1, .act 1, .act 1, .act 0, .act 0, .act 0,
    .call 1 (.send 8), .act 1, .act 1, .call 2 .close, .act 2, .act 2]

theorem channel_refines_closable_fifo_sendThenClose :
    ∃ s : State (Fin 3) ℕ,
      (system oneSlot).ReachableUnder (fun s a ↦ noForcedUnwind s a = true) s ∧
      Quiescent s ∧ s.closed = true ∧ s.received.map Prod.snd = [7] ∧ ¬ s.Stranded := by
  let s := ((system oneSlot).runUnder noForcedUnwind (initial oneSlot) sendThenClose).get
    (by decide)
  have hs : (system oneSlot).ReachableUnder (fun s a ↦ noForcedUnwind s a = true) s :=
    System.reachableUnder_of_run rfl (Option.some_get _).symm
  have hquiet : Quiescent s := by decide
  obtain ⟨-, -, -, -, -, -, -, hstranded⟩ := channel_refines_closable_fifo oneSlot hs
  exact ⟨s, hs, hquiet, by decide, by decide, hstranded hquiet⟩

/-! ### With forced unwinds -/

/-- Somebody is queued at an end of the channel that has something for them. -/
def State.StrandedPeer (s : State ι T) : Prop :=
  (0 < s.ring.count ∧ s.queue .recv ≠ []) ∨
    (s.ring.count < s.ring.capacity ∧ s.closed = false ∧ s.queue .send ≠ [])

/-- Forced unwinds strand nobody in a run whose every `WaitGuard` destructor finds its waiter
still on the list. -/
theorem unwind_strands_no_peer (c : Config ι) {s : State ι T}
    (hs : (system c).ReachableUnder (fun s a ↦ guardFindsLinked s a = true) s)
    (hquiet : Quiescent s) : ¬ s.StrandedPeer := by
  rintro (⟨hcount, hqueue⟩ | ⟨hroom, -, hqueue⟩)
  · have husable := usable_of_quiescent hs hquiet hqueue
    simp only [State.usable] at husable
    omega
  · have husable := usable_of_quiescent hs hquiet hqueue
    simp only [State.usable] at husable
    omega

/-- Two tasks that receive and a thread that sends. -/
def twoReceivers : Config (Fin 3) where
  capacity := 1
  capacity_pos := Nat.one_pos
  kind := fun p ↦ if p = 2 then .thread else .task
  operationSide := fun _ ↦ .recv

/-- Both receivers wait, and the first is unwound while it is queued. -/
def unwindQueued : List (Action (Fin 3) ℕ) :=
  [.call 0 .recv, .act 0, .call 1 .recv, .act 1, .forcedUnwind 0, .act 0]

theorem unwind_strands_no_peer_unwindQueued :
    ∃ s : State (Fin 3) ℕ,
      (system twoReceivers).ReachableUnder (fun s a ↦ guardFindsLinked s a = true) s ∧
      Quiescent s ∧ s.queue .recv = [1] ∧ ¬ s.StrandedPeer := by
  let s := ((system twoReceivers).runUnder guardFindsLinked (initial twoReceivers)
    unwindQueued).get (by decide)
  have hs : (system twoReceivers).ReachableUnder (fun s a ↦ guardFindsLinked s a = true) s :=
    System.reachableUnder_of_run rfl (Option.some_get _).symm
  have hquiet : Quiescent s := by decide
  exact ⟨s, hs, hquiet, by decide, unwind_strands_no_peer twoReceivers hs hquiet⟩

/-- Both receivers wait. The sender takes the first off the list; before it is notified the
receiver is unwound and its guard finds it off the list, so it waits for the notification and
leaves. -/
def unwindTaken : List (Action (Fin 3) ℕ) :=
  [.call 0 .recv, .act 0, .call 1 .recv, .act 1, .call 2 (.send 7), .act 2, .forcedUnwind 0,
    .act 0, .act 2, .act 2, .act 0]

/-- The value stays buffered beside the second receiver, and no call is in progress. -/
theorem stranded_after_unwind :
    ¬ ∀ s : State (Fin 3) ℕ, (system twoReceivers).Reachable s → Quiescent s →
      ¬ s.StrandedPeer := by
  intro hclaim
  let s := ((system twoReceivers).run (initial twoReceivers) unwindTaken).get (by decide)
  have hs : (system twoReceivers).Reachable s :=
    System.reachable_of_run rfl (Option.some_get _).symm
  exact hclaim s hs (by decide) (.inl ⟨by decide, by decide⟩)

end Stackfull.Sync.Channel
