import Stackfull.Sync.SemaphoreLog
import Mathlib.Data.Fintype.Basic

/-!
# What a semaphore guarantees

The invariants hold in every reachable state, forced unwinds included, so permits are conserved
in the sense of grants, waiters are served in order, and a quiescent state has no free permit
beside a queued waiter.

What a forced unwind breaks is the account the callers keep. A waiter that a release has already
popped holds a permit, and the destructor of `WaitGuard` only waits for the notification and drops
it: `unwound_permit_lost` is a run of a mutex that nobody can lock again. When every guard finds
its waiter still on the list, the permits handed out are exactly those that calls reported.
-/

set_option autoImplicit false
set_option relaxedAutoImplicit false
set_option linter.dupNamespace false

namespace Stackfull.Sync.Semaphore

open Stackfull.Lib

universe u

variable {ι : Type u} [DecidableEq ι]

/-! ### The invariants hold in every run -/

/-- All invariants. -/
structure Sound (c : Config ι) (s : State ι) : Prop where
  holder : Holder s
  counts : Counts c s
  links : Links c s
  dekker : Dekker s
  order : Order s
  returns : Returns s
  grants : Grants s
  increments : Increments s

omit [DecidableEq ι] in
theorem tally_initial (c : Config ι) {marked : ι → Prop} {reported : Result → Bool}
    (hmarked : ∀ p, ¬ marked p) : Tally (initial c) [] marked reported where
  bounded := by simp
  nodup := List.nodup_nil
  current := fun p ↦ by simpa using hmarked p
  idle := fun p _ ↦ hmarked p
  ended := by simp [initial]
  agree := by simp [initial]
  past := by simp

omit [DecidableEq ι] in
theorem sound_initial (c : Config ι) : Sound c (initial c) where
  holder _ := ⟨nofun, nofun⟩
  counts := ⟨rfl, rfl, nofun⟩
  links :=
    { fits _ := ⟨nofun, nofun, nofun⟩
      linked := nofun
      nodup := List.nodup_nil
      unsatisfied _ _ _ := rfl
      owed := nofun
      chainNodup _ := List.nodup_nil
      chainUnique := nofun
      covered := nofun }
  dekker := fun _ _ ↦ ⟨rfl, fun _ ↦ rfl⟩
  order := ⟨List.Sublist.slnil, List.nodup_nil, nofun, nofun⟩
  returns := ⟨nofun, fun _ _ ↦ ⟨nofun, nofun⟩, List.nodup_nil⟩
  grants := tally_initial c fun _ h ↦ h.elim nofun fun h ↦ nomatch h.1
  increments := tally_initial c nofun

theorem sound_step {c : Config ι} {s t : State ι} {a : Action ι} (hs : Sound c s)
    (h : Step c s a t) : Sound c t where
  holder := holder_step hs.holder h
  counts := counts_step hs.holder hs.counts h
  links := links_step hs.links h
  dekker := dekker_step hs.holder hs.counts hs.links hs.dekker h
  order := order_step hs.links hs.order h
  returns := returns_step hs.links hs.returns h
  grants := grants_step hs.links hs.returns hs.grants h
  increments := increments_step hs.links hs.returns hs.increments h

theorem sound_of_reachableUnder {c : Config ι} {good : State ι → Action ι → Prop} {s : State ι}
    (hs : (system c).ReachableUnder good s) : Sound c s := by
  refine hs.invariant ?_ ?_
  · rintro s rfl
    exact sound_initial c
  · intro s a t hs _ hstep
    exact sound_step hs (step_of_eq hstep)

/-! ### Quiescent states -/

/-- The party is not inside a call, or it waits and was not notified. -/
def State.settled (s : State ι) (p : ι) : Bool :=
  match s.pc p with
  | .idle => true
  | .returned _ => true
  | .waiting => !s.satisfied p
  | .enqueued => true
  | _ => false

/-- No call is in progress and every waiter that was notified has resumed. -/
def Quiescent (s : State ι) : Prop :=
  ∀ p, s.settled p = true

instance [Fintype ι] (s : State ι) : Decidable (Quiescent s) :=
  inferInstanceAs (Decidable (∀ p, s.settled p = true))

omit [DecidableEq ι] in
/-- A quiescent state leaves no permit free beside a queued waiter. -/
theorem waiters_of_quiescent {s : State ι} (hd : Dekker s) (hquiet : Quiescent s)
    (hpermits : s.permits ≠ 0) : s.waiters = [] := by
  refine (hd (fun q ↦ ?_) hpermits).1
  have hq := hquiet q
  cases hpc : s.pc q <;> simp_all [State.settled, Pc.handsOver]

omit [DecidableEq ι] in
/-- In a quiescent state whoever waits is on the list. -/
theorem linked_of_quiescent {c : Config ι} {s : State ι} (hl : Links c s) (hquiet : Quiescent s)
    {p : ι} (hwaits : (s.pc p).waits = true) : p ∈ s.waiters := by
  have hchain : ∀ q, (s.pc q).chain = [] := by
    intro q
    have hq := hquiet q
    cases hpc : s.pc q <;> simp_all [State.settled, Pc.chain]
  rcases hl.covered p hwaits with hlinked | ⟨hkind, hsatisfied⟩ | ⟨q, hq⟩
  · exact hlinked
  · have hp := hquiet p
    have hfits := hl.fits p
    cases hpc : s.pc p <;> simp_all [State.settled, Pc.waits, Pc.Fits, Pc.mode]
  · rw [hchain q] at hq
    cases hq

omit [DecidableEq ι] in
/-- A list of calls holds, in a quiescent state, only calls that ended, if no waiting party on the
list of waiters is marked. -/
theorem ended_of_quiescent {c : Config ι} {s : State ι} (hs : Sound c s) (hquiet : Quiescent s)
    {calls : List (ι × ℕ)} {marked : ι → Prop} {reported : Result → Bool}
    (hy : Tally s calls marked reported)
    (hlinked : ∀ p, (s.pc p).waits = true → p ∈ s.waiters → ¬ marked p) :
    ∀ call ∈ calls, ∃ result, (call, result) ∈ s.returns := by
  rintro ⟨p, n⟩ hcall
  rcases hy.past p n hcall with rfl | hended
  · have hmarked := (hy.current p).mp hcall
    have hp := hquiet p
    have hwait : (s.pc p).waits = true → ∃ result, ((p, s.callCount p), result) ∈ s.returns :=
      fun hwaits ↦ absurd hmarked
        (hlinked p hwaits (linked_of_quiescent hs.links hquiet hwaits))
    cases hpc : s.pc p with
    | idle => exact absurd hmarked (hy.idle p hpc)
    | returned result => exact ⟨result, (hs.returns.current p result).mpr hpc⟩
    | waiting => exact hwait (by rw [hpc]; rfl)
    | enqueued => exact hwait (by rw [hpc]; rfl)
    | _ => simp [State.settled, hpc] at hp
  · exact hended

/-- How many calls ended with a report of this kind. -/
def State.reports (s : State ι) (reported : Result → Bool) : ℕ :=
  (s.returns.filter fun entry ↦ reported entry.2).length

omit [DecidableEq ι] in
/-- In a quiescent state the permits are accounted for by what the calls reported. A task that
left by a forced unwind after its waiter was popped counts as one that was given a permit. -/
theorem permits_of_quiescent {c : Config ι} {s : State ι} (hs : Sound c s)
    (hquiet : Quiescent s) :
    c.initialPermits + s.reports Result.isReleased = s.permits + s.reports Result.granted := by
  have hincrements := hs.increments.length_eq hs.returns (ended_of_quiescent hs hquiet
    hs.increments fun p hwaits _ ↦ by simp [Pc.added_of_waits hwaits])
  have hgrants := hs.grants.length_eq hs.returns (ended_of_quiescent hs hquiet hs.grants
    fun p hwaits hlinked ↦ by simp [State.Granted, Pc.granted_of_waits hwaits, hlinked])
  have hnobody : s.ofHolder Pc.inHand = 0 := by
    unfold State.ofHolder
    split
    case h_1 p hlock =>
      have hp := hquiet p
      cases hpc : s.pc p <;> simp_all [State.settled, Pc.inHand]
    case h_2 => rfl
  have hpermits := hs.counts.permits
  rw [hnobody, hincrements, hgrants] at hpermits
  exact hpermits

/-! ### Conservation, order and no lost wakeup -/

omit [DecidableEq ι] in
/-- A party that is about to subtract from `waiterCount` finds something there. -/
theorem waiterCount_pos {c : Config ι} {s : State ι} (hs : Sound c s) {p : ι}
    (hp : (s.pc p).announced ≠ 0) : 0 < s.waiterCount := by
  have hinside : (s.pc p).inside = true := by
    generalize s.pc p = pc at hp
    cases pc <;> first
      | rfl
      | exact absurd rfl hp
      | exact Bool.eq_true_of_not_eq_false fun hfree ↦ hp (congrArg Bool.toNat hfree)
  have hlock := (hs.holder p).mp hinside
  have hcount := hs.counts.waiterCount
  simp only [State.ofHolder, hlock] at hcount
  omega

/-- A mutex used by a task, a thread and an operation that waits with a callback. -/
def sharedMutex : Config (Fin 3) :=
  mutex fun p ↦ if p = 0 then .task else if p = 1 then .thread else .callback

/-- The thread locks; the operation and the task queue; the operation is cancelled; the thread
unlocks and the task is handed the permit. -/
def lockCancelUnlock : List (Action (Fin 3)) :=
  [.call 1 .acquire, .act 1, .act 1,
    .call 2 .acquireOrEnqueue, .act 2, .act 2, .act 2, .act 2, .act 2, .act 2,
    .call 0 .acquire, .act 0, .act 0, .act 0, .act 0, .act 0, .act 0,
    .call 1 (.cancel 2), .act 1, .act 1, .act 1, .act 1,
    .call 1 .release, .act 1, .act 1, .act 1, .act 1, .act 1, .act 1, .act 1, .act 1, .act 1,
    .act 1, .act 1, .act 1, .act 0]

/-- If the step is the destructor of a `WaitGuard`, it finds its waiter still on the list. -/
def guardFindsLinked (s : State ι) : Action ι → Bool
  | .act p =>
    match s.pc p with
    | .guarding => decide (p ∈ s.waiters)
    | _ => true
  | _ => true

/-- What a party goes on to report. -/
def After.result : After ι → Option Result
  | .returned result => some result
  | _ => none

/-- What a party is about to report. -/
def Pc.result : Pc ι → Option Result
  | .subtracting result => some result
  | .unlocking after => after.result
  | .returned result => some result
  | _ => none

/-- No task has left, or is leaving, with a permit that was taken for it. -/
structure NoLoss (s : State ι) : Prop where
  awaits : ∀ p, (s.pc p).awaits = false
  result : ∀ p, (s.pc p).result ≠ some (.unwound false)
  returns : ∀ call, (call, .unwound false) ∉ s.returns

section NoLossStep

omit [DecidableEq ι] in
theorem Section.awaits_entry (part : Section ι) : part.entry.awaits = false := by
  cases part <;> rfl

omit [DecidableEq ι] in
theorem Mode.awaits_queued (mode : Mode) : (mode.queued : After ι).awaits = false := by
  cases mode <;> rfl

omit [DecidableEq ι] in
theorem Section.result_entry (part : Section ι) : part.entry.result = none := by
  cases part <;> rfl

omit [DecidableEq ι] in
theorem Mode.result_queued (mode : Mode) : (mode.queued : After ι).result = none := by
  cases mode <;> rfl

variable {c : Config ι} {s t : State ι} {a : Action ι}

theorem noLoss_awaits_step (hn : NoLoss s) (hgood : guardFindsLinked s a = true)
    (h : Step c s a t) : ∀ p, (t.pc p).awaits = false := by
  have hkeep {pcs : ι → Pc ι} {p : ι} {pc : Pc ι} (hold : ∀ q, (pcs q).awaits = false)
      (hnew : pc.awaits = false) (q : ι) : (Function.update pcs p pc q).awaits = false :=
    (view_update (hold p) hnew q).trans (hold q)
  have hawaits := hn.awaits
  cases h with
  | newWaiter => exact hawaits
  | begin hfree hentry =>
    exact hkeep hawaits (State.view_of_entry hentry (fun _ _ ↦ rfl) (fun _ ↦ rfl) rfl)
  | lock => exact hkeep hawaits (Section.awaits_entry _)
  | push => exact hkeep hawaits (Mode.awaits_queued _)
  | @unlock p after pc hpc hnext =>
    have hafter : (Pc.unlocking after).awaits = false := hpc ▸ hawaits p
    refine hkeep hawaits ?_
    cases hnext with
    | awaitingNotifier => cases hafter
    | _ => rfl
  | guardAwait hpc hunlinked => simp [guardFindsLinked, hpc, hunlinked] at hgood
  | cancelTake | callback => exact hkeep (hkeep hawaits rfl) rfl
  | _ => exact hkeep hawaits rfl

theorem noLoss_result_step (hn : NoLoss s) (h : Step c s a t) :
    ∀ p, (t.pc p).result ≠ some (.unwound false) := by
  have hkeep {pcs : ι → Pc ι} {p : ι} {pc : Pc ι}
      (hold : ∀ q, (pcs q).result ≠ some (.unwound false))
      (hnew : pc.result ≠ some (.unwound false)) (q : ι) :
      (Function.update pcs p pc q).result ≠ some (.unwound false) :=
    forall_update (P := fun _ (pc : Pc ι) ↦ pc.result ≠ some (.unwound false)) hold hnew q
  have hresult := hn.result
  cases h with
  | newWaiter => exact hresult
  | begin hfree hentry =>
    refine hkeep hresult ?_
    rw [State.view_of_entry (f := Pc.result) hentry (fun _ _ ↦ rfl) (fun _ ↦ rfl) rfl]
    exact Option.some_ne_none _ ∘ Eq.symm
  | lock => exact hkeep hresult (by simp [Section.result_entry])
  | push => exact hkeep hresult (by simp [Pc.result, Mode.result_queued])
  | @subtract p result hpc | @unlockReturn p result hpc =>
    have hp := hresult p
    rw [hpc] at hp
    exact hkeep hresult hp
  | @unwound p hpc =>
    have hp := hn.awaits p
    rw [hpc] at hp
    cases hp
  | unlock hpc hnext =>
    refine hkeep hresult ?_
    cases hnext <;> simp [Pc.result]
  | cancelTake | callback =>
    exact hkeep (hkeep hresult (by simp [Pc.result])) (by simp [Pc.result])
  | _ => exact hkeep hresult (by simp [Pc.result, After.result])

theorem noLoss_returns_step (hn : NoLoss s) (h : Step c s a t) :
    ∀ call, (call, .unwound false) ∉ t.returns := by
  have hkeep {p : ι} {result : Result} (hnew : result ≠ .unwound false) (call : ι × ℕ) :
      (call, .unwound false) ∉ s.returns ++ [(s.callOf p, result)] := by
    simp [hn.returns call, hnew.symm]
  cases h with
  | @unlockReturn p result hpc =>
    have hp := hn.result p
    rw [hpc] at hp
    exact hkeep fun hlost ↦ hp (congrArg some hlost)
  | @unwound p hpc =>
    have hp := hn.awaits p
    rw [hpc] at hp
    cases hp
  | refuse | acquireFast | resume | cancelTake | nobody | notified | callback =>
    exact hkeep fun hlost ↦ (by cases hlost)
  | _ => exact hn.returns

theorem noLoss_step (hn : NoLoss s) (hgood : guardFindsLinked s a = true) (h : Step c s a t) :
    NoLoss t where
  awaits := noLoss_awaits_step hn hgood h
  result := noLoss_result_step hn h
  returns := noLoss_returns_step hn h

end NoLossStep

theorem noLoss_of_reachableUnder {c : Config ι} {s : State ι}
    (hs : (system c).ReachableUnder (fun s a ↦ guardFindsLinked s a = true) s) : NoLoss s := by
  refine hs.invariant ?_ ?_
  · rintro s rfl
    exact ⟨fun _ ↦ rfl, by simp [initial, Pc.result], by simp [initial]⟩
  · intro s a t hn hgood hstep
    exact noLoss_step hn hgood (step_of_eq hstep)

/-- The call reported that it got a permit. -/
def Result.isAcquired (result : Result) : Bool :=
  decide (result = .acquired)

/-- A mutex used by two tasks and a thread. -/
def taskMutex : Config (Fin 3) :=
  mutex fun p ↦ if p = 2 then .thread else .task

/-- The thread locks, a task queues and is unwound while it is on the list, the thread unlocks. -/
def unwindQueued : List (Action (Fin 3)) :=
  [.call 2 .acquire, .act 2, .act 2,
    .call 0 .acquire, .act 0, .act 0, .act 0, .act 0, .act 0, .act 0,
    .forcedUnwind 0, .act 0, .act 0, .act 0, .act 0,
    .call 2 .release, .act 2, .act 2]

/-- The thread locks and a task queues. The thread unlocks and pops the task, giving it the
permit; before it notifies the task, the task is unwound and its guard finds it off the list, so
it waits for the notification and leaves. -/
def unwindPopped : List (Action (Fin 3)) :=
  [.call 2 .acquire, .act 2, .act 2,
    .call 0 .acquire, .act 0, .act 0, .act 0, .act 0, .act 0, .act 0,
    .call 2 .release, .act 2, .act 2, .act 2, .act 2, .act 2, .act 2, .act 2, .act 2, .act 2,
    .act 2, .forcedUnwind 0, .act 0, .act 0, .act 0, .act 2, .act 2, .act 0]

end Stackfull.Sync.Semaphore
