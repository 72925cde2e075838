import Stackfull.Sync.Semaphore

/-!
# What a step of the semaphore can do

`Step` lists the effects a step of the semaphore can have, with the condition under which each
happens, and `step_of_eq` says that the list is complete.
-/

set_option autoImplicit false
set_option relaxedAutoImplicit false
set_option linter.dupNamespace false

namespace Stackfull.Sync.Semaphore

open Stackfull.Lib

universe u

variable {ι : Type u} [DecidableEq ι]

/-- `tryAcquire` runs under the lock. -/
def Site.locked : Site → Bool
  | .recheck _ => true
  | _ => false

/-- `tryAcquire` is about to read `permits`, by its load or by its compare-exchange. -/
def Pc.readsAt : Pc ι → Option Site
  | .loading site => some site
  | .swapping site _ => some site
  | _ => none

/-- The loop of `release` is about to read `permits`. -/
def Pc.readsFor : Pc ι → Option (List ι)
  | .loadingFor chain => some chain
  | .swappingFor chain _ => some chain
  | _ => none

/-- Where a party goes after its critical section, other than back to its caller. -/
inductive After.Continues : After ι → Pc ι → Prop
  | waiting : Continues .waiting .waiting
  | enqueued : Continues .enqueued .enqueued
  | notifying (chain : List ι) : Continues (.notifying chain) (.notifying chain)
  | awaitingNotifier : Continues .awaitingNotifier .awaitingNotifier

/-- Where a party goes after it queued its waiter. -/
def Mode.queued : Mode → After ι
  | .acquire => .waiting
  | .acquireOrEnqueue => .enqueued

/-- The effects of a step. -/
inductive Step (c : Config ι) (s : State ι) : Action ι → State ι → Prop
  | newWaiter {p : ι} (hfree : s.isFree p) :
      Step c s (.newWaiter p) { s with cancelled := Function.update s.cancelled p false }
  | begin {p : ι} {call : Call ι} {pc : Pc ι} (hfree : s.isFree p)
      (hentry : State.entry c p call = some pc) :
      Step c s (.call p call)
        { s.setPc p pc with callCount := Function.update s.callCount p (s.callCount p + 1) }
  | tryAgain {a : Action ι} {p : ι} {site : Site} {left : ℕ} (hpc : (s.pc p).readsAt = some site)
      (hpermits : s.permits = left + 1) : Step c s a (s.setPc p (.swapping site left))
  | refuse {a : Action ι} {p : ι} (hpc : (s.pc p).readsAt = some .tryAcquire)
      (hpermits : s.permits = 0) : Step c s a (s.finish p .refused)
  | makeWaiter {a : Action ι} {p : ι} (hpc : (s.pc p).readsAt = some (.fast .acquire))
      (hpermits : s.permits = 0) :
      Step c s a
        { s.setPc p (.locking (.enqueue .acquire)) with
          satisfied := Function.update s.satisfied p false }
  | useWaiter {a : Action ι} {p : ι} (hpc : (s.pc p).readsAt = some (.fast .acquireOrEnqueue))
      (hpermits : s.permits = 0) :
      Step c s a (s.setPc p (.locking (.enqueue .acquireOrEnqueue)))
  | recheckFails {a : Action ι} {p : ι} {mode : Mode}
      (hpc : (s.pc p).readsAt = some (.recheck mode)) (hpermits : s.permits = 0) :
      Step c s a (s.setPc p (.pushing mode))
  | acquireFast {p : ι} {site : Site} {left : ℕ} (hpc : s.pc p = .swapping site left)
      (hpermits : s.permits = left + 1) (hsite : site.locked = false) :
      Step c s (.act p) ((s.grant p left).finish p .acquired)
  | acquireLocked {p : ι} {mode : Mode} {left : ℕ} (hpc : s.pc p = .swapping (.recheck mode) left)
      (hpermits : s.permits = left + 1) :
      Step c s (.act p) ((s.grant p left).setPc p (.subtracting .acquired))
  | lock {p : ι} {part : Section ι} (hpc : s.pc p = .locking part) (hlock : s.lock = none) :
      Step c s (.act p) { s.setPc p part.entry with lock := some p }
  | refuseCancelled {p : ι} (hpc : s.pc p = .announcing .acquireOrEnqueue)
      (hcancelled : s.cancelled p = true) :
      Step c s (.act p) (s.setPc p (.unlocking (.returned .cancelled)))
  | announce {p : ι} {mode : Mode} (hpc : s.pc p = .announcing mode) :
      Step c s (.act p)
        { s.setPc p (.loading (.recheck mode)) with waiterCount := s.waiterCount + 1 }
  | push {p : ι} {mode : Mode} (hpc : s.pc p = .pushing mode) :
      Step c s (.act p) ((s.push p).setPc p (.unlocking mode.queued))
  | subtract {p : ι} {result : Result} (hpc : s.pc p = .subtracting result) :
      Step c s (.act p)
        { s.setPc p (.unlocking (.returned result)) with waiterCount := s.waiterCount - 1 }
  | unlockReturn {p : ι} {result : Result} (hpc : s.pc p = .unlocking (.returned result)) :
      Step c s (.act p) { s.finish p result with lock := none }
  | unlock {p : ι} {after : After ι} {pc : Pc ι} (hpc : s.pc p = .unlocking after)
      (hnext : after.Continues pc) : Step c s (.act p) { s.setPc p pc with lock := none }
  | resume {p : ι} (hpc : s.pc p = .waiting) (hsatisfied : s.satisfied p = true) :
      Step c s (.act p) (s.finish p .acquired)
  | cancelTake {p target : ι} (hpc : s.pc p = .cancelling target) (hlinked : target ∈ s.waiters) :
      Step c s (.act p)
        (((s.setWaiters (s.waiters.unlink target)).finish target .stopped).setPc p
          (.subtracting (.cancelReturned true)))
  | cancelMark {p target : ι} (hpc : s.pc p = .cancelling target)
      (hunlinked : target ∉ s.waiters) :
      Step c s (.act p)
        { s.setPc p (.unlocking (.returned (.cancelReturned false))) with
          cancelled := Function.update s.cancelled target true }
  | add {p : ι} (hpc : s.pc p = .adding) :
      Step c s (.act p)
        { s.setPc p .checking with
          permits := s.permits + 1
          increments := s.increments ++ [s.callOf p] }
  | nobody {p : ι} (hpc : s.pc p = .checking) (hcount : s.waiterCount = 0) :
      Step c s (.act p) (s.finish p .released)
  | somebody {p : ι} (hpc : s.pc p = .checking) (hcount : s.waiterCount ≠ 0) :
      Step c s (.act p) (s.setPc p (.locking .handOver))
  | handEmpty {p : ι} {chain : List ι} (hpc : s.pc p = .handing chain) (hempty : s.waiters = []) :
      Step c s (.act p) (s.setPc p (.unlocking (.notifying chain)))
  | handMore {p : ι} {chain : List ι} (hpc : s.pc p = .handing chain)
      (hwaiters : s.waiters ≠ []) : Step c s (.act p) (s.setPc p (.loadingFor chain))
  | handAgain {a : Action ι} {p : ι} {chain : List ι} {left : ℕ}
      (hpc : (s.pc p).readsFor = some chain) (hpermits : s.permits = left + 1) :
      Step c s a (s.setPc p (.swappingFor chain left))
  | handNone {a : Action ι} {p : ι} {chain : List ι} (hpc : (s.pc p).readsFor = some chain)
      (hpermits : s.permits = 0) : Step c s a (s.setPc p (.unlocking (.notifying chain)))
  | takeFor {p : ι} {chain : List ι} {left : ℕ} (hpc : s.pc p = .swappingFor chain left)
      (hpermits : s.permits = left + 1) :
      Step c s (.act p) { s.setPc p (.popping chain) with permits := left }
  | pop {p w : ι} {chain : List ι} {rest : WaitList ι} (hpc : s.pc p = .popping chain)
      (hwaiters : s.waiters = w :: rest) :
      Step c s (.act p) ((s.handTo w rest).setPc p (.fixing (chain ++ [w])))
  | fix {p : ι} {chain : List ι} (hpc : s.pc p = .fixing chain) :
      Step c s (.act p) { s.setPc p (.handing chain) with waiterCount := s.waiterCount - 1 }
  | notified {p : ι} (hpc : s.pc p = .notifying []) : Step c s (.act p) (s.finish p .released)
  | wake {p w : ι} {rest : List ι} (hpc : s.pc p = .notifying (w :: rest))
      (hkind : c.kind w ≠ .callback) :
      Step c s (.act p)
        { s.setPc p (.notifying rest) with satisfied := Function.update s.satisfied w true }
  | callback {p w : ι} {rest : List ι} (hpc : s.pc p = .notifying (w :: rest))
      (hkind : c.kind w = .callback) (hne : w ≠ p) (htarget : s.pc w = .enqueued) :
      Step c s (.act p) ((s.setPc p (.notifying rest)).finish w .acquired)
  | unwind {p : ι} (hkind : c.kind p = .task) (hpc : s.pc p = .waiting) :
      Step c s (.forcedUnwind p) (s.setPc p (.locking .guard))
  | guardUnlink {p : ι} (hpc : s.pc p = .guarding) (hlinked : p ∈ s.waiters) :
      Step c s (.act p)
        ((s.setWaiters (s.waiters.unlink p)).setPc p (.subtracting (.unwound true)))
  | guardAwait {p : ι} (hpc : s.pc p = .guarding) (hunlinked : p ∉ s.waiters) :
      Step c s (.act p) (s.setPc p (.unlocking .awaitingNotifier))
  | unwound {p : ι} (hpc : s.pc p = .awaitingNotifier) (hsatisfied : s.satisfied p = true) :
      Step c s (.act p) (s.finish p (.unwound false))

/-- A read of `permits` by `tryAcquire`. -/
theorem step_of_tryRead {c : Config ι} {s : State ι} {a : Action ι} {p : ι} {site : Site}
    (hpc : (s.pc p).readsAt = some site) : Step c s a (s.tryRead p site) := by
  unfold State.tryRead
  split
  case h_1 hpermits =>
    unfold State.tryFailed
    split
    case h_1 => exact .refuse hpc hpermits
    case h_2 => exact .makeWaiter hpc hpermits
    case h_3 => exact .useWaiter hpc hpermits
    case h_4 => exact .recheckFails hpc hpermits
  case h_2 left hpermits => exact .tryAgain hpc hpermits

/-- A read of `permits` by the loop of `release`. -/
theorem step_of_handRead {c : Config ι} {s : State ι} {a : Action ι} {p : ι} {chain : List ι}
    (hpc : (s.pc p).readsFor = some chain) : Step c s a (s.handRead p chain) := by
  unfold State.handRead
  split
  case h_1 hpermits => exact .handNone hpc hpermits
  case h_2 left hpermits => exact .handAgain hpc hpermits

/-- A compare-exchange of `tryAcquire` that succeeds. -/
theorem step_of_trySucceeded {c : Config ι} {s : State ι} {p : ι} {site : Site} {left : ℕ}
    (hpc : s.pc p = .swapping site left) (hpermits : s.permits = left + 1) :
    Step c s (.act p) (s.trySucceeded p left site) := by
  cases site with
  | recheck mode => exact .acquireLocked hpc hpermits
  | tryAcquire => exact .acquireFast hpc hpermits rfl
  | fast mode => exact .acquireFast hpc hpermits rfl

/-- The end of a critical section. -/
theorem step_of_unlock {c : Config ι} {s : State ι} {p : ι} {after : After ι}
    (hpc : s.pc p = .unlocking after) : Step c s (.act p) (s.unlock p after) := by
  unfold State.unlock
  cases after with
  | returned result => exact .unlockReturn hpc
  | waiting => exact .unlock hpc .waiting
  | enqueued => exact .unlock hpc .enqueued
  | notifying chain => exact .unlock hpc (.notifying chain)
  | awaitingNotifier => exact .unlock hpc .awaitingNotifier

/-- A notification. -/
theorem step_of_notify {c : Config ι} {s t : State ι} {p w : ι} {rest : List ι}
    (hpc : s.pc p = .notifying (w :: rest))
    (h : (s.setPc p (.notifying rest)).notify c w = some t) : Step c s (.act p) t := by
  unfold State.notify at h
  split at h
  case h_1 hkind =>
    split at h
    case h_1 htarget =>
      have hne : w ≠ p := by
        rintro rfl
        simp at htarget
      rw [State.setPc_pc, Function.update_of_ne hne] at htarget
      exact Option.some.inj h ▸ .callback hpc hkind hne htarget
    case h_2 => cases h
  case h_2 hkind => exact Option.some.inj h ▸ .wake hpc hkind

/-- A step inside a call has one of the listed effects. -/
theorem step_of_act {c : Config ι} {s t : State ι} {p : ι} (h : s.act c p = some t) :
    Step c s (.act p) t := by
  cases hpc : s.pc p <;> simp only [State.act, hpc] at h
  case idle | enqueued | returned => cases h
  case loading site => exact Option.some.inj h ▸ step_of_tryRead (by rw [hpc]; rfl)
  case swapping site left =>
    split_ifs at h with hpermits
    · exact Option.some.inj h ▸ step_of_trySucceeded hpc hpermits
    · exact Option.some.inj h ▸ step_of_tryRead (by rw [hpc]; rfl)
  case locking part =>
    split_ifs at h with hlock
    exact Option.some.inj h ▸ .lock hpc hlock
  case announcing mode =>
    obtain rfl := Option.some.inj h
    unfold State.announce
    split_ifs with hcancelled
    · exact .refuseCancelled (hcancelled.1 ▸ hpc) hcancelled.2
    · exact .announce hpc
  case pushing mode =>
    cases mode
    · exact Option.some.inj h ▸ .push hpc
    · exact Option.some.inj h ▸ .push hpc
  case subtracting result => exact Option.some.inj h ▸ .subtract hpc
  case unlocking after => exact Option.some.inj h ▸ step_of_unlock hpc
  case waiting =>
    split_ifs at h with hsatisfied
    exact Option.some.inj h ▸ .resume hpc hsatisfied
  case cancelling target =>
    obtain rfl := Option.some.inj h
    unfold State.stepCancelling
    split_ifs with hlinked
    · exact .cancelTake hpc hlinked
    · exact .cancelMark hpc hlinked
  case adding => exact Option.some.inj h ▸ .add hpc
  case checking =>
    split_ifs at h with hcount
    · exact Option.some.inj h ▸ .nobody hpc hcount
    · exact Option.some.inj h ▸ .somebody hpc hcount
  case handing chain =>
    split_ifs at h with hempty
    · exact Option.some.inj h ▸ .handEmpty hpc hempty
    · exact Option.some.inj h ▸ .handMore hpc hempty
  case loadingFor chain => exact Option.some.inj h ▸ step_of_handRead (by rw [hpc]; rfl)
  case swappingFor chain left =>
    split_ifs at h with hpermits
    · exact Option.some.inj h ▸ .takeFor hpc hpermits
    · exact Option.some.inj h ▸ step_of_handRead (by rw [hpc]; rfl)
  case popping chain =>
    split at h
    case h_1 => cases h
    case h_2 w rest hwaiters => exact Option.some.inj h ▸ .pop hpc hwaiters
  case fixing chain => exact Option.some.inj h ▸ .fix hpc
  case notifying chain =>
    cases chain with
    | nil => exact Option.some.inj h ▸ .notified hpc
    | cons w rest => exact step_of_notify hpc h
  case guarding =>
    obtain rfl := Option.some.inj h
    unfold State.stepGuarding
    split_ifs with hlinked
    · exact .guardUnlink hpc hlinked
    · exact .guardAwait hpc hlinked
  case awaitingNotifier =>
    split_ifs at h with hsatisfied
    exact Option.some.inj h ▸ .unwound hpc hsatisfied

/-- Every step has one of the listed effects. -/
theorem step_of_eq {c : Config ι} {s t : State ι} {a : Action ι} (h : s.step c a = some t) :
    Step c s a t := by
  cases a with
  | newWaiter p =>
    simp only [State.step.eq_def] at h
    split_ifs at h with hfree
    exact Option.some.inj h ▸ .newWaiter hfree
  | call p call =>
    simp only [State.step.eq_def, State.begin] at h
    split_ifs at h with hfree
    obtain ⟨pc, hentry, ht⟩ := Option.map_eq_some_iff.mp h
    exact ht ▸ .begin hfree hentry
  | act p => exact step_of_act h
  | spurious p =>
    simp only [State.step.eq_def, State.spurious] at h
    split at h
    case h_1 site left hpc => exact Option.some.inj h ▸ step_of_tryRead (by rw [hpc]; rfl)
    case h_2 chain left hpc => exact Option.some.inj h ▸ step_of_handRead (by rw [hpc]; rfl)
    case h_3 => cases h
  | forcedUnwind p =>
    simp only [State.step.eq_def, State.forcedUnwind] at h
    split at h
    case h_1 hkind hpc => exact Option.some.inj h ▸ .unwind hkind hpc
    case h_2 => cases h

end Stackfull.Sync.Semaphore
