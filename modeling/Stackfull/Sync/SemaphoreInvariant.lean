import Stackfull.Lib.Views
import Stackfull.Sync.SemaphoreStep

/-!
# The lock and the counters of the semaphore

`Holder` ties the lock to the one party inside a critical section. `Counts` are the two equations:
permits against grants, and `waiterCount` against the list, each with the part the party inside
has in hand. Every step preserves them, forced unwinds included.

An invariant reads the points of a call through a view, which most steps do not change: a step
moves one party, or two when a call completes the operation of another party, and the lemmas on
views say what follows for everybody.
-/

set_option autoImplicit false
set_option relaxedAutoImplicit false
set_option linter.dupNamespace false

namespace Stackfull.Sync.Semaphore

open Stackfull.Lib

universe u

variable {ι : Type u} [DecidableEq ι]

/-! ### What the points of a call say -/

/-- The party is inside a critical section. -/
def Pc.inside : Pc ι → Bool
  | .loading site => site.locked
  | .swapping site _ => site.locked
  | .announcing _ => true
  | .pushing _ => true
  | .subtracting _ => true
  | .unlocking _ => true
  | .cancelling _ => true
  | .handing _ => true
  | .loadingFor _ => true
  | .swappingFor _ _ => true
  | .popping _ => true
  | .fixing _ => true
  | .guarding => true
  | _ => false

/-- What the party inside has added to `waiterCount` beyond the list. -/
def Pc.announced : Pc ι → ℕ
  | .loading site => site.locked.toNat
  | .swapping site _ => site.locked.toNat
  | .pushing _ => 1
  | .subtracting _ => 1
  | .fixing _ => 1
  | _ => 0

/-- The permits a release has taken and not yet given to a waiter. -/
def Pc.inHand : Pc ι → ℕ
  | .popping _ => 1
  | _ => 0

/-- The release has seen a waiter on the list and still has the lock. -/
def Pc.sawWaiter : Pc ι → Bool
  | .loadingFor _ => true
  | .swappingFor _ _ => true
  | .popping _ => true
  | _ => false

/-- The party goes on to wait. -/
def After.waits : After ι → Bool
  | .waiting => true
  | .enqueued => true
  | _ => false

/-- The party goes on to wait for its notifier. -/
def After.awaits : After ι → Bool
  | .awaitingNotifier => true
  | _ => false

/-- The waiters a release goes on to notify. -/
def After.chain : After ι → List ι
  | .notifying chain => chain
  | _ => []

/-- The critical section is the one of `WaitGuard`. -/
def Section.isGuard : Section ι → Bool
  | .guard => true
  | _ => false

/-- The critical section is the one that queues a waiter. -/
def Section.isEnqueue : Section ι → Bool
  | .enqueue _ => true
  | _ => false

/-- The waiter of the party is in use: on the list, or taken off it and not yet back from its
wait. -/
def Pc.waits : Pc ι → Bool
  | .unlocking after => after.waits
  | .waiting => true
  | .enqueued => true
  | .locking part => part.isGuard
  | .guarding => true
  | _ => false

/-- The party left its wait with a notification under way that it has to wait for. -/
def Pc.awaits : Pc ι → Bool
  | .unlocking after => after.awaits
  | .awaitingNotifier => true
  | _ => false

/-- The party has made its waiter and not queued it. -/
def Pc.prepares : Pc ι → Bool
  | .locking part => part.isEnqueue
  | .announcing _ => true
  | .loading site => site.locked
  | .swapping site _ => site.locked
  | .pushing _ => true
  | _ => false

/-- The waiters a release took off the list and has not notified yet. -/
def Pc.chain : Pc ι → List ι
  | .handing chain => chain
  | .loadingFor chain => chain
  | .swappingFor chain _ => chain
  | .popping chain => chain
  | .fixing chain => chain
  | .unlocking after => after.chain
  | .notifying chain => chain
  | _ => []

/-- The way of waiting `tryAcquire` is part of. -/
def Site.mode : Site → Option Mode
  | .tryAcquire => none
  | .fast mode => some mode
  | .recheck mode => some mode

/-- The way of waiting a critical section is part of. -/
def Section.mode : Section ι → Option Mode
  | .enqueue mode => some mode
  | .guard => some .acquire
  | _ => none

/-- The way of waiting a party goes on with. -/
def After.mode : After ι → Option Mode
  | .waiting => some .acquire
  | .enqueued => some .acquireOrEnqueue
  | .awaitingNotifier => some .acquire
  | _ => none

/-- The way a party waits, or will if it has to. -/
def Pc.mode : Pc ι → Option Mode
  | .loading site => site.mode
  | .swapping site _ => site.mode
  | .locking part => part.mode
  | .announcing mode => some mode
  | .pushing mode => some mode
  | .unlocking after => after.mode
  | .waiting => some .acquire
  | .enqueued => some .acquireOrEnqueue
  | .guarding => some .acquire
  | .awaitingNotifier => some .acquire
  | _ => none

/-- The operation a critical section cancels. -/
def Section.target : Section ι → Option ι
  | .cancel target => some target
  | _ => none

/-- The operation a party cancels. -/
def Pc.target : Pc ι → Option ι
  | .locking part => part.target
  | .cancelling target => some target
  | _ => none

section Views

variable {β : Type*}

omit [DecidableEq ι] in
/-- What `tryAcquire` does not change between its load and its compare-exchange. -/
theorem Pc.view_of_readsAt {f : Pc ι → β} {b : β} {pc : Pc ι} {site : Site}
    (h : pc.readsAt = some site) (hload : f (.loading site) = b)
    (hswap : ∀ left, f (.swapping site left) = b) : f pc = b := by
  cases pc with
  | loading site' =>
    obtain rfl := Option.some.inj h
    exact hload
  | swapping site' left =>
    obtain rfl := Option.some.inj h
    exact hswap left
  | _ => cases h

omit [DecidableEq ι] in
/-- The same for the loop of `release`. -/
theorem Pc.view_of_readsFor {f : Pc ι → β} {b : β} {pc : Pc ι} {chain : List ι}
    (h : pc.readsFor = some chain) (hload : f (.loadingFor chain) = b)
    (hswap : ∀ left, f (.swappingFor chain left) = b) : f pc = b := by
  cases pc with
  | loadingFor chain' =>
    obtain rfl := Option.some.inj h
    exact hload
  | swappingFor chain' left =>
    obtain rfl := Option.some.inj h
    exact hswap left
  | _ => cases h

omit [DecidableEq ι] in
theorem State.of_isFree {s : State ι} {p : ι} (h : s.isFree p = true) :
    s.pc p = .idle ∨ ∃ result, s.pc p = .returned result := by
  cases hpc : s.pc p <;> simp_all [State.isFree]

omit [DecidableEq ι] in
/-- What is the same for a party that has begun no call and for one whose call has ended. -/
theorem State.view_of_isFree {f : Pc ι → β} {b : β} {s : State ι} {p : ι}
    (h : s.isFree p = true) (hidle : f .idle = b) (hreturned : ∀ result, f (.returned result) = b) :
    f (s.pc p) = b := by
  rcases State.of_isFree h with hpc | ⟨result, hpc⟩
  · rw [hpc]
    exact hidle
  · rw [hpc]
    exact hreturned result

/-- A call begins at the load of `tryAcquire`, with the addition of `release`, or at the lock of
`cancel`. -/
theorem State.of_entry {c : Config ι} {p : ι} {call : Call ι} {pc : Pc ι}
    (h : State.entry c p call = some pc) :
    (∃ site, pc = .loading site ∧ site.locked = false) ∨
      (∃ target, pc = .locking (.cancel target)) ∨ pc = .adding := by
  cases call <;> simp only [State.entry] at h
  case acquire =>
    split_ifs at h
    exact .inl ⟨_, (Option.some.inj h).symm, rfl⟩
  case tryAcquire => exact .inl ⟨_, (Option.some.inj h).symm, rfl⟩
  case acquireOrEnqueue =>
    split_ifs at h
    exact .inl ⟨_, (Option.some.inj h).symm, rfl⟩
  case cancel target =>
    split_ifs at h
    exact .inr (.inl ⟨target, (Option.some.inj h).symm⟩)
  case release => exact .inr (.inr (Option.some.inj h).symm)

/-- What is the same at every point a call begins at. -/
theorem State.view_of_entry {f : Pc ι → β} {b : β} {c : Config ι} {p : ι} {call : Call ι}
    {pc : Pc ι} (h : State.entry c p call = some pc)
    (hload : ∀ site, site.locked = false → f (.loading site) = b)
    (hcancel : ∀ target, f (.locking (.cancel target)) = b) (hadd : f .adding = b) :
    f pc = b := by
  rcases State.of_entry h with ⟨site, rfl, hsite⟩ | ⟨target, rfl⟩ | rfl
  · exact hload site hsite
  · exact hcancel target
  · exact hadd

end Views

omit [DecidableEq ι] in
theorem Pc.inside_of_sawWaiter {pc : Pc ι} (h : pc.sawWaiter = true) : pc.inside = true := by
  cases pc with
  | loadingFor | swappingFor | popping => rfl
  | _ => cases h

/-! ### The lock and the counters -/

/-- The party that holds the lock is the one inside a critical section. -/
def Holder (s : State ι) : Prop :=
  ∀ p, (s.pc p).inside = true ↔ s.lock = some p

/-- Reads a number off the point the holder of the lock stands at. -/
def State.ofHolder (s : State ι) (f : Pc ι → ℕ) : ℕ :=
  match s.lock with
  | some p => f (s.pc p)
  | none => 0

/-- The two equations of the semaphore, and that a release that saw a waiter still has one. -/
structure Counts (c : Config ι) (s : State ι) : Prop where
  permits : c.initialPermits + s.increments.length =
    s.permits + s.grants.length + s.ofHolder Pc.inHand
  waiterCount : s.waiterCount = s.waiters.length + s.ofHolder Pc.announced
  sawWaiter : ∀ p, (s.pc p).sawWaiter = true → s.waiters ≠ []

section Holders

variable {s t : State ι} {p q : ι} {pc : Pc ι} {f : Pc ι → ℕ}

omit [DecidableEq ι] in
/-- Nobody else is inside while a party is. -/
theorem Holder.outside (hs : Holder s) (hp : (s.pc p).inside = true) (hne : q ≠ p) :
    (s.pc q).inside = false := by
  by_contra hq
  have hlock := (hs q).mp (Bool.not_eq_false _ ▸ hq)
  rw [(hs p).mp hp] at hlock
  exact hne (Option.some.inj hlock).symm

omit [DecidableEq ι] in
/-- Nobody enters or leaves a critical section. -/
theorem Holder.same (hs : Holder s) (hlock : t.lock = s.lock)
    (hinside : ∀ q, (t.pc q).inside = (s.pc q).inside) : Holder t := by
  intro q
  rw [hinside q, hlock]
  exact hs q

/-- A party takes the free lock. -/
theorem Holder.enter (hs : Holder s) (hfree : s.lock = none) (hlock : t.lock = some p)
    (hpc : t.pc = Function.update s.pc p pc) (hnew : pc.inside = true) : Holder t := by
  intro q
  have hq := hs q
  rw [hpc, hlock]
  rcases eq_or_ne q p with rfl | hne
  · simp [hnew]
  · rw [hfree] at hq
    simpa [Function.update_of_ne hne, hne.symm] using hq

/-- The party inside gives the lock back. -/
theorem Holder.leave (hs : Holder s) (hold : (s.pc p).inside = true) (hlock : t.lock = none)
    (hpc : t.pc = Function.update s.pc p pc) (hnew : pc.inside = false) : Holder t := by
  intro q
  rw [hpc, hlock]
  rcases eq_or_ne q p with rfl | hne
  · simp [hnew]
  · simp [Function.update_of_ne hne, hs.outside hold hne]

omit [DecidableEq ι] in
theorem Holder.ofHolder_eq (hs : Holder s) (hpc : s.pc p = pc) (hin : pc.inside = true) :
    s.ofHolder f = f pc := by
  simp only [State.ofHolder, (hs p).mp (hpc ▸ hin), hpc]

omit [DecidableEq ι] in
/-- What the holder has in hand is the same when it is the same for everybody, even if the lock
changes hands, as long as only a party inside has anything in hand. -/
theorem Holder.ofHolder_same (hs : Holder s) (ht : Holder t)
    (hf : ∀ pc, pc.inside = false → f pc = 0) (hsame : ∀ q, f (t.pc q) = f (s.pc q)) :
    t.ofHolder f = s.ofHolder f := by
  have houtside {u : State ι} (hu : Holder u) (q : ι) (hq : u.lock ≠ some q) : f (u.pc q) = 0 :=
    hf _ (Bool.eq_false_iff.mpr fun hin ↦ hq ((hu q).mp hin))
  unfold State.ofHolder
  cases htlock : t.lock with
  | none =>
    have hnone (q : ι) : f (s.pc q) = 0 := (hsame q).symm.trans (houtside ht q (by simp [htlock]))
    cases s.lock with
    | none => rfl
    | some r => exact (hnone r).symm
  | some q =>
    cases hslock : s.lock with
    | none => exact (hsame q).trans (houtside hs q (by simp [hslock]))
    | some r =>
      rcases eq_or_ne q r with rfl | hne
      · exact hsame q
      · have hq := houtside hs q (by simpa [hslock] using hne.symm)
        have hr := houtside ht r (by simpa [htlock] using hne)
        exact ((hsame q).trans hq).trans (hr.symm.trans (hsame r))

omit [DecidableEq ι] in
theorem Pc.inHand_of_outside {pc : Pc ι} (h : pc.inside = false) : pc.inHand = 0 := by
  cases pc with
  | popping => cases h
  | _ => rfl

omit [DecidableEq ι] in
theorem Pc.announced_of_outside {pc : Pc ι} (h : pc.inside = false) : pc.announced = 0 := by
  cases pc with
  | loading site | swapping site => exact congrArg Bool.toNat h
  | pushing | subtracting | fixing => cases h
  | _ => rfl

end Holders

omit [DecidableEq ι] in
theorem Section.inside_entry (part : Section ι) : part.entry.inside = true := by
  cases part <;> rfl

omit [DecidableEq ι] in
theorem Section.announced_entry (part : Section ι) : part.entry.announced = 0 := by
  cases part <;> rfl

omit [DecidableEq ι] in
theorem Section.inHand_entry (part : Section ι) : part.entry.inHand = 0 := by
  cases part <;> rfl

omit [DecidableEq ι] in
theorem Section.sawWaiter_entry (part : Section ι) : part.entry.sawWaiter = false := by
  cases part <;> rfl

omit [DecidableEq ι] in
/-- What the points a party goes to after its critical section have in common. -/
theorem After.Continues.view {β : Type*} {f : Pc ι → β} {b : β} {after : After ι} {pc : Pc ι}
    (h : after.Continues pc) (hwaiting : f .waiting = b) (henqueued : f .enqueued = b)
    (hnotifying : ∀ chain, f (.notifying chain) = b) (hawaiting : f .awaitingNotifier = b) :
    f pc = b := by
  cases h with
  | waiting => exact hwaiting
  | enqueued => exact henqueued
  | notifying chain => exact hnotifying chain
  | awaitingNotifier => exact hawaiting

section CountsStep

variable {c : Config ι} {s t : State ι} {a : Action ι}

theorem holder_step (hs : Holder s) (h : Step c s a t) : Holder t := by
  cases h with
  | newWaiter => exact hs
  | begin hfree hentry =>
    exact hs.same rfl (view_update (State.view_of_isFree hfree rfl fun _ ↦ rfl)
      (State.view_of_entry hentry (fun _ hsite ↦ hsite) (fun _ ↦ rfl) rfl))
  | tryAgain hpc | refuse hpc | makeWaiter hpc | useWaiter hpc | recheckFails hpc =>
    exact hs.same rfl (view_update (Pc.view_of_readsAt hpc rfl fun _ ↦ rfl) rfl)
  | handAgain hpc | handNone hpc =>
    exact hs.same rfl (view_update (Pc.view_of_readsFor hpc rfl fun _ ↦ rfl) rfl)
  | acquireFast hpc hpermits hsite =>
    exact hs.same rfl (view_update ((congrArg Pc.inside hpc).trans hsite) rfl)
  | lock hpc hlock => exact hs.enter hlock rfl rfl (Section.inside_entry _)
  | unlockReturn hpc => exact hs.leave (congrArg Pc.inside hpc) rfl rfl rfl
  | unlock hpc hnext =>
    exact hs.leave (congrArg Pc.inside hpc) rfl rfl (hnext.view rfl rfl (fun _ ↦ rfl) rfl)
  | cancelTake hpc =>
    have hp := congrArg Pc.inside hpc
    exact hs.same rfl (view_update_pair hp rfl (hs.outside hp) rfl)
  | callback hpc hkind hne htarget =>
    exact hs.same rfl (view_update_pair (congrArg Pc.inside htarget) rfl
      (fun _ ↦ congrArg Pc.inside hpc) rfl)
  | acquireLocked hpc | refuseCancelled hpc | announce hpc | push hpc | subtract hpc | resume hpc
  | cancelMark hpc | add hpc | nobody hpc | somebody hpc | handEmpty hpc | handMore hpc
  | takeFor hpc | pop hpc | fix hpc | notified hpc | wake hpc | unwind _ hpc | guardUnlink hpc
  | guardAwait hpc | unwound hpc =>
    exact hs.same rfl (view_update (congrArg Pc.inside hpc) rfl)

theorem permits_step (hs : Holder s) (hc : Counts c s) (h : Step c s a t) :
    c.initialPermits + t.increments.length =
      t.permits + t.grants.length + t.ofHolder Pc.inHand := by
  have hpermits := hc.permits
  have ht := holder_step hs h
  have hsame := hs.ofHolder_same ht fun _ ↦ Pc.inHand_of_outside
  cases h with
  | newWaiter => exact hpermits
  | begin hfree hentry =>
    rw [hsame (view_update (State.view_of_isFree hfree rfl fun _ ↦ rfl)
      (State.view_of_entry hentry (fun _ _ ↦ rfl) (fun _ ↦ rfl) rfl))]
    exact hpermits
  | tryAgain hpc | refuse hpc | makeWaiter hpc | useWaiter hpc | recheckFails hpc =>
    rw [hsame (view_update (Pc.view_of_readsAt hpc rfl fun _ ↦ rfl) rfl)]
    exact hpermits
  | handAgain hpc | handNone hpc =>
    rw [hsame (view_update (Pc.view_of_readsFor hpc rfl fun _ ↦ rfl) rfl)]
    exact hpermits
  | acquireFast hpc hleft | acquireLocked hpc hleft =>
    rw [hsame (view_update (congrArg Pc.inHand hpc) rfl)]
    simp
    omega
  | add hpc =>
    rw [hsame (view_update (congrArg Pc.inHand hpc) rfl)]
    simp
    omega
  | takeFor hpc hleft =>
    rw [hs.ofHolder_eq hpc rfl] at hpermits
    rw [ht.ofHolder_eq (Function.update_self ..) rfl]
    simp only [Pc.inHand] at hpermits ⊢
    simp
    omega
  | pop hpc =>
    rw [hs.ofHolder_eq hpc rfl] at hpermits
    rw [ht.ofHolder_eq (Function.update_self ..) rfl]
    simp only [Pc.inHand] at hpermits ⊢
    simp
    omega
  | lock hpc =>
    rw [hsame (view_update (congrArg Pc.inHand hpc) (Section.inHand_entry _))]
    exact hpermits
  | unlock hpc hnext =>
    rw [hsame (view_update (congrArg Pc.inHand hpc)
      (hnext.view rfl rfl (fun _ ↦ rfl) rfl))]
    exact hpermits
  | cancelTake hpc =>
    rw [hsame (view_update_pair (congrArg Pc.inHand hpc) rfl
      (fun hne ↦ Pc.inHand_of_outside (hs.outside (congrArg Pc.inside hpc) hne)) rfl)]
    exact hpermits
  | callback hpc hkind hne htarget =>
    rw [hsame (view_update_pair (congrArg Pc.inHand htarget) rfl
      (fun _ ↦ congrArg Pc.inHand hpc) rfl)]
    exact hpermits
  | refuseCancelled hpc | announce hpc | push hpc | subtract hpc | unlockReturn hpc | resume hpc
  | cancelMark hpc | nobody hpc | somebody hpc | handEmpty hpc | handMore hpc | fix hpc
  | notified hpc | wake hpc | unwind _ hpc | guardUnlink hpc | guardAwait hpc | unwound hpc =>
    rw [hsame (view_update (congrArg Pc.inHand hpc) rfl)]
    exact hpermits

theorem waiterCount_step (hs : Holder s) (hc : Counts c s) (h : Step c s a t) :
    t.waiterCount = t.waiters.length + t.ofHolder Pc.announced := by
  have hcount := hc.waiterCount
  have ht := holder_step hs h
  have hsame := hs.ofHolder_same ht fun _ ↦ Pc.announced_of_outside
  cases h with
  | newWaiter => exact hcount
  | begin hfree hentry =>
    rw [hsame (view_update (State.view_of_isFree hfree rfl fun _ ↦ rfl)
      (State.view_of_entry hentry (fun _ hsite ↦ congrArg Bool.toNat hsite) (fun _ ↦ rfl) rfl))]
    exact hcount
  | tryAgain hpc | refuse hpc | makeWaiter hpc | useWaiter hpc | recheckFails hpc =>
    rw [hsame (view_update (Pc.view_of_readsAt hpc rfl fun _ ↦ rfl) rfl)]
    exact hcount
  | handAgain hpc | handNone hpc =>
    rw [hsame (view_update (Pc.view_of_readsFor hpc rfl fun _ ↦ rfl) rfl)]
    exact hcount
  | acquireFast hpc hpermits hsite =>
    rw [hsame (view_update ((congrArg Pc.announced hpc).trans (congrArg Bool.toNat hsite)) rfl)]
    exact hcount
  | lock hpc =>
    rw [hsame (view_update (congrArg Pc.announced hpc) (Section.announced_entry _))]
    exact hcount
  | unlock hpc hnext =>
    rw [hsame (view_update (congrArg Pc.announced hpc)
      (hnext.view rfl rfl (fun _ ↦ rfl) rfl))]
    exact hcount
  | cancelTake hpc hlinked | guardUnlink hpc hlinked =>
    -- the waiter leaves the list, and the party inside has it to subtract
    have hpos := List.length_pos_of_mem hlinked
    rw [hs.ofHolder_eq hpc rfl] at hcount
    rw [ht.ofHolder_eq (Function.update_self ..) rfl]
    simp only [Pc.announced] at hcount ⊢
    simp [WaitList.unlink, List.length_erase_of_mem hlinked]
    omega
  | callback hpc hkind hne htarget =>
    rw [hsame (view_update_pair (congrArg Pc.announced htarget) rfl
      (fun _ ↦ congrArg Pc.announced hpc) rfl)]
    exact hcount
  | pop hpc hwaiters =>
    rw [hs.ofHolder_eq hpc rfl, hwaiters] at hcount
    rw [ht.ofHolder_eq (Function.update_self ..) rfl]
    simp only [Pc.announced] at hcount ⊢
    simpa using hcount
  | announce hpc | push hpc | subtract hpc | fix hpc =>
    rw [hs.ofHolder_eq hpc rfl] at hcount
    rw [ht.ofHolder_eq (Function.update_self ..) rfl]
    simp only [Pc.announced] at hcount ⊢
    simp [WaitList.pushBack, Site.locked]
    omega
  | acquireLocked hpc | refuseCancelled hpc | unlockReturn hpc | resume hpc | cancelMark hpc
  | add hpc | nobody hpc | somebody hpc | handEmpty hpc | handMore hpc | takeFor hpc
  | notified hpc | wake hpc | unwind _ hpc | guardAwait hpc | unwound hpc =>
    rw [hsame (view_update (congrArg Pc.announced hpc) rfl)]
    exact hcount

/-- A release that saw a waiter still has one: nobody else changes the list meanwhile. -/
theorem sawWaiter_step (hs : Holder s) (hc : Counts c s) (h : Step c s a t) :
    ∀ p, (t.pc p).sawWaiter = true → t.waiters ≠ [] := by
  have hsaw := hc.sawWaiter
  have ht := holder_step hs h
  have hsame (hview : ∀ q, (t.pc q).sawWaiter = (s.pc q).sawWaiter)
      (hwaiters : t.waiters = s.waiters) (q : ι) (hq : (t.pc q).sawWaiter = true) :
      t.waiters ≠ [] := hwaiters ▸ hsaw q (hview q ▸ hq)
  -- the party inside is the only one that can have seen a waiter
  have honly {p : ι} {pc : Pc ι} (hpc : t.pc p = pc) (hin : pc.inside = true)
      (hnot : pc.sawWaiter = false) (q : ι) (hq : (t.pc q).sawWaiter = true) :
      t.waiters ≠ [] := by
    rcases eq_or_ne q p with rfl | hne
    · rw [hpc, hnot] at hq
      cases hq
    · have hout := ht.outside (hpc ▸ hin) hne
      rw [Pc.inside_of_sawWaiter hq] at hout
      cases hout
  cases h with
  | newWaiter => exact hsaw
  | begin hfree hentry =>
    exact hsame (view_update (State.view_of_isFree hfree rfl fun _ ↦ rfl)
      (State.view_of_entry hentry (fun _ _ ↦ rfl) (fun _ ↦ rfl) rfl)) rfl
  | tryAgain hpc | refuse hpc | makeWaiter hpc | useWaiter hpc | recheckFails hpc =>
    exact hsame (view_update (Pc.view_of_readsAt hpc rfl fun _ ↦ rfl) rfl) rfl
  | handAgain hpc =>
    exact hsame (view_update (Pc.view_of_readsFor hpc rfl fun _ ↦ rfl) rfl) rfl
  | lock hpc =>
    exact hsame (view_update (congrArg Pc.sawWaiter hpc) (Section.sawWaiter_entry _)) rfl
  | unlock hpc hnext =>
    exact hsame (view_update (congrArg Pc.sawWaiter hpc)
      (hnext.view rfl rfl (fun _ ↦ rfl) rfl)) rfl
  | callback hpc hkind hne htarget =>
    exact hsame (view_update_pair (congrArg Pc.sawWaiter htarget) rfl
      (fun _ ↦ congrArg Pc.sawWaiter hpc) rfl) rfl
  | handMore hpc hwaiters => exact fun _ _ ↦ hwaiters
  | push | cancelTake | pop | guardUnlink | handNone =>
    exact honly (Function.update_self ..) rfl rfl
  | acquireFast hpc | acquireLocked hpc | refuseCancelled hpc | announce hpc | subtract hpc
  | unlockReturn hpc | resume hpc | cancelMark hpc | add hpc | nobody hpc | somebody hpc
  | handEmpty hpc | takeFor hpc | fix hpc | notified hpc | wake hpc | unwind _ hpc
  | guardAwait hpc | unwound hpc =>
    exact hsame (view_update (congrArg Pc.sawWaiter hpc) rfl) rfl

theorem counts_step (hs : Holder s) (hc : Counts c s) (h : Step c s a t) : Counts c t where
  permits := permits_step hs hc h
  waiterCount := waiterCount_step hs hc h
  sawWaiter := sawWaiter_step hs hc h

end CountsStep

end Stackfull.Sync.Semaphore
