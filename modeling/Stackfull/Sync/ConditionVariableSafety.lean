import Stackfull.Lib.Detached
import Stackfull.Sync.ConditionVariable

/-!
# No notification is lost

`Owned` carries the mutual exclusion of the mutex over to `wait`. `Queued` says that a waiter which has
queued is in the queue, on the chain of one notifier, or satisfied, and what holds of the waiter in
each place. `Logged` and `Answered` compare the logs with the calls: which waits were notified, and by
which notification.
-/

set_option autoImplicit false
set_option relaxedAutoImplicit false
set_option linter.dupNamespace false

namespace Stackfull.Sync.ConditionVariable

open Stackfull.Lib
open Semaphore (Holds Disciplined)

universe u

variable {ι : Type u}

/-- The waiter has queued, and its wait has not ended. -/
def Pc.sleeps : Pc ι → Bool
  | .releasing | .unlocking | .waiting => true
  | _ => false

/-- The wait has not ended. -/
def Pc.unended : Pc ι → Bool
  | .enqueueing | .releasing | .unlocking | .waiting => true
  | _ => false

/-- The party was notified, and takes the mutex again. -/
def Pc.relocks : Pc ι → Bool
  | .relocking | .locking => true
  | _ => false

/-- The party is in `wait`. -/
def Pc.inWait (pc : Pc ι) : Bool :=
  pc.unended || pc.relocks

/-- The party holds the mutex, and is in no call of it. -/
def Pc.holds : Pc ι → Bool
  | .enqueueing | .releasing | .waited => true
  | _ => false

/-- The waiters that the party has taken and not yet notified. -/
def Pc.chain : Pc ι → List ι
  | .notifying _ chain => chain
  | _ => []

/-- What a notification that meets a queue is to notify, in this order. -/
def targets (all : Bool) (queue : List (ι × ℕ)) : List (ι × ℕ) :=
  if all then queue.reverse else queue.head?.toList

variable [DecidableEq ι]

/-- The waits that the current notification of a party has notified. -/
def State.entries (s : State ι) (p : ι) : List (ι × ℕ) :=
  (s.notified.filter fun entry ↦ decide (entry.1 = s.notifyOf p)).map Prod.snd

/-- The mutex is used with discipline, and held where `wait` needs it. -/
structure Owned (kind : ι → Kind) (s : State ι) : Prop where
  mutex : (Semaphore.system (Semaphore.mutex kind)).ReachableUnder
    (fun s a ↦ Disciplined s a = true) s.mutex
  holds : ∀ p, (s.pc p).holds = true → Holds s.mutex p ∧ s.mutex.isFree p = true

/-- Where the waiters are. -/
structure Queued (s : State ι) : Prop where
  apart : Apart s.waiters (Pc.chain ∘ s.pc)
  queued : ∀ w ∈ s.waiters, (s.pc w).sleeps = true ∧ s.satisfied w = false
  chained : ∀ p, ∀ w ∈ (s.pc p).chain, (s.pc w).sleeps = true ∧ s.satisfied w = false
  covered : ∀ w, (s.pc w).sleeps = true →
    w ∈ s.waiters ∨ (∃ p, w ∈ (s.pc p).chain) ∨ s.satisfied w = true
  woken : ∀ w, (s.pc w).relocks = true → s.satisfied w = true
  fresh : ∀ w, s.pc w = .enqueueing → s.satisfied w = false

/-- What the logs say of the waits. -/
structure Logged (s : State ι) : Prop where
  enqueued : ∀ x ∈ s.enqueued, x.2 ≤ s.waits x.1 ∧ (x.2 = s.waits x.1 → s.pc x.1 ≠ .enqueueing)
  nodup : s.enqueued.Nodup
  order : (s.waiters.map s.waitOf).Sublist s.enqueued
  notified : ∀ x ∈ s.notified, x.2.2 ≤ s.waits x.2.1 ∧
    (x.2.2 = s.waits x.2.1 → s.satisfied x.2.1 = true)
  satisfied : ∀ w, s.satisfied w = true → s.waitOf w ∈ s.notified.map Prod.snd
  once : (s.notified.map Prod.snd).Nodup
  ended : ∀ x ∈ s.ended, x ∈ s.notified.map Prod.snd ∧
    (x.2 = s.waits x.1 → (s.pc x.1).unended = false)
  endedOnce : s.ended.Nodup

/-- What the logs say of the notifications. -/
structure Answered (s : State ι) : Prop where
  bound : ∀ x ∈ s.notified, x.1.2 ≤ s.notifies x.1.1 ∧
    (x.1.2 = s.notifies x.1.1 → ∀ all, s.pc x.1.1 ≠ .popping all)
  notifying : ∀ p all chain, s.pc p = .notifying all chain →
    s.entries p ++ chain.map s.waitOf = targets all (s.found p)
  done : ∀ p all, s.pc p = .notified all → s.entries p = targets all (s.found p)
  found : ∀ p, (s.found p).Sublist s.enqueued

section Steps

variable {kind : ι → Kind} {s t : State ι} {p : ι} {pc : Pc ι}

/-! ### The mutex -/

theorem owned_initial : Owned kind (initial kind) :=
  ⟨.init rfl, nofun⟩

/-- A party that holds the mutex and is in no call of it does so after a step of somebody else. -/
theorem holds_step {a : Semaphore.Action ι} {m : Semaphore.State ι}
    (hp : Holds s.mutex p ∧ s.mutex.isFree p = true) (hcall : ∀ call, a ≠ .call p call)
    (h : s.mutex.step (Semaphore.mutex kind) a = some m) : Holds m p ∧ m.isFree p = true := by
  have hstep := Semaphore.step_of_eq h
  refine ⟨hp.1.step (fun hadding ↦ ?_) hstep, Semaphore.isFree_step hp.2 hcall hstep⟩
  have hfree := hp.2
  simp [Semaphore.State.isFree, hadding] at hfree

/-- The mutex takes a step that the discipline allows. -/
theorem Owned.step (ho : Owned kind s) {a : Semaphore.Action ι} {m : Semaphore.State ι}
    (hdisciplined : Disciplined s.mutex a = true)
    (h : s.mutex.step (Semaphore.mutex kind) a = some m) (hmutex : t.mutex = m)
    (hpc : ∀ q, (t.pc q).holds = true → (s.pc q).holds = true ∧ ∀ call, a ≠ .call q call) :
    Owned kind t := by
  subst hmutex
  exact ⟨ho.mutex.step hdisciplined h, fun q hq ↦
    holds_step (ho.holds q (hpc q hq).1) (hpc q hq).2 h⟩

/-- A party moves on, and the mutex does not. -/
theorem Owned.move (ho : Owned kind s) (hmutex : t.mutex = s.mutex)
    (hpc : t.pc = Function.update s.pc p pc)
    (hholds : pc.holds = true → Holds s.mutex p ∧ s.mutex.isFree p = true) : Owned kind t := by
  refine ⟨hmutex ▸ ho.mutex, fun q hq ↦ ?_⟩
  rw [hmutex]
  rw [hpc] at hq
  rcases eq_or_ne q p with rfl | hne
  · exact hholds (by rwa [Function.update_self] at hq)
  · exact ho.holds q (by rwa [Function.update_of_ne hne] at hq)

/-- A party moves on to where it does not hold the mutex. -/
theorem Owned.leave (ho : Owned kind s) (hmutex : t.mutex = s.mutex)
    (hpc : t.pc = Function.update s.pc p pc) (hholds : pc.holds = false) : Owned kind t :=
  ho.move hmutex hpc fun h ↦ absurd (hholds.symm.trans h) Bool.false_ne_true

/-- A call of `Mutex` from `wait`. -/
theorem Owned.begin (ho : Owned kind s) {call : Semaphore.Call ι}
    (hdisciplined : Disciplined s.mutex (.call p call) = true) (hholds : pc.holds = false)
    (h : s.begin kind p call pc = some t) : Owned kind t := by
  obtain ⟨m, hm, rfl⟩ := Option.map_eq_some_iff.mp h
  refine ho.step hdisciplined hm rfl fun q hq ↦ ?_
  have hne : q ≠ p := by
    rintro rfl
    simp [State.goto, hholds] at hq
  refine ⟨by simpa [State.goto, hne] using hq, fun call' heq ↦ ?_⟩
  cases heq
  exact hne rfl

theorem owned_act (ho : Owned kind s) (h : s.act kind p = some t) : Owned kind t := by
  unfold State.act at h
  split at h
  case h_1 hpc => exact Option.some.inj h ▸ ho.move rfl rfl fun _ ↦ ho.holds p (by rw [hpc]; rfl)
  case h_2 hpc =>
    have hholds := (ho.holds p (by rw [hpc]; rfl)).1
    have hdisciplined : Disciplined s.mutex (.call p .release) = true := decide_eq_true hholds
    exact ho.begin hdisciplined rfl h
  case h_3 hpc =>
    split at h
    · exact Option.some.inj h ▸ ho.leave rfl rfl rfl
    · cases h
  case h_4 hpc =>
    split_ifs at h
    exact Option.some.inj h ▸ ho.leave rfl rfl rfl
  case h_5 hpc => exact ho.begin rfl rfl h
  case h_6 hpc =>
    split at h
    case h_1 hacquired =>
      refine Option.some.inj h ▸ ho.move rfl rfl fun _ ↦ ⟨?_, ?_⟩
      · exact (Semaphore.accounts_of_reachableUnder ho.mutex).acquired p hacquired
      · simp [Semaphore.State.isFree, hacquired]
    case h_2 => cases h
  case h_7 => exact Option.some.inj h ▸ ho.leave rfl rfl rfl
  case h_8 => exact Option.some.inj h ▸ ho.leave rfl rfl rfl
  case h_9 => exact Option.some.inj h ▸ ho.leave rfl rfl rfl
  case h_10 => cases h

attribute [local simp] State.allows

theorem owned_step {a : Action ι} (ho : Owned kind s) (h : step kind s a = some t) :
    Owned kind t := by
  cases a with
  | mutex action =>
    simp only [step.eq_def] at h
    split_ifs at h with hallows
    obtain ⟨m, hm, rfl⟩ := Option.map_eq_some_iff.mp h
    refine ho.step ?_ hm rfl ?_
    · cases action with
      | call q call =>
        cases call with
        | release =>
          simp only [State.allows, Bool.and_eq_true] at hallows
          exact hallows.2
        | _ => rfl
      | _ => rfl
    · intro q hq
      cases action with
      | call r call =>
        have hne : q ≠ r := by
          rintro rfl
          simp [State.called, State.goto, Pc.holds] at hq
        refine ⟨by simpa [State.called, State.goto, hne] using hq, fun call' heq ↦ ?_⟩
        cases heq
        exact hne rfl
      | _ => exact ⟨hq, nofun⟩
  | wait q =>
    simp only [step.eq_def] at h
    split_ifs at h with hcond
    exact Option.some.inj h ▸ ho.move rfl rfl fun _ ↦ ⟨hcond.2.2.1, hcond.2.1⟩
  | notify all q =>
    simp only [step.eq_def] at h
    split_ifs at h with hcond
    exact Option.some.inj h ▸ ho.leave rfl rfl rfl
  | act q => exact owned_act ho h

/-! ### Where the waiters are -/

omit [DecidableEq ι] in
theorem queued_initial (kind : ι → Kind) : Queued (initial kind) where
  apart := .nil fun _ ↦ rfl
  queued := nofun
  chained := nofun
  covered := nofun
  woken := nofun
  fresh := nofun

/-- A party moves on, and no waiter does. -/
theorem Queued.pass (hq : Queued s) (hpc : t.pc = Function.update s.pc p pc)
    (hwaiters : t.waiters = s.waiters) (hsatisfied : t.satisfied = s.satisfied)
    (hchain : pc.chain = (s.pc p).chain) (hsleeps : pc.sleeps = (s.pc p).sleeps)
    (hrelocks : pc.relocks = true → (s.pc p).relocks = true) (hfresh : pc ≠ .enqueueing) :
    Queued t := by
  have hchains : ∀ q, (t.pc q).chain = (s.pc q).chain := fun q ↦ by
    rw [hpc]
    rcases eq_or_ne q p with rfl | hne
    · rw [Function.update_self, hchain]
    · rw [Function.update_of_ne hne]
  have hsleep : ∀ q, (t.pc q).sleeps = (s.pc q).sleeps := fun q ↦ by
    rw [hpc]
    rcases eq_or_ne q p with rfl | hne
    · rw [Function.update_self, hsleeps]
    · rw [Function.update_of_ne hne]
  have hsame : Pc.chain ∘ t.pc = Pc.chain ∘ s.pc := funext hchains
  refine ⟨by rw [hsame, hwaiters]; exact hq.apart, ?_, ?_, ?_, fun w hw ↦ ?_, fun w hw ↦ ?_⟩
  · simpa only [hwaiters, hsleep, hsatisfied] using hq.queued
  · simpa only [hchains, hsleep, hsatisfied] using hq.chained
  · simpa only [hwaiters, hchains, hsleep, hsatisfied] using hq.covered
  · rw [hsatisfied]
    rw [hpc] at hw
    rcases eq_or_ne w p with rfl | hne
    · rw [Function.update_self] at hw
      exact hq.woken w (hrelocks hw)
    · rw [Function.update_of_ne hne] at hw
      exact hq.woken w hw
  · rw [hsatisfied]
    rw [hpc] at hw
    rcases eq_or_ne w p with rfl | hne
    · rw [Function.update_self] at hw
      exact absurd hw hfresh
    · rw [Function.update_of_ne hne] at hw
      exact hq.fresh w hw

omit [DecidableEq ι] in
/-- A party that does not sleep stands nowhere. -/
theorem Queued.nowhere (hq : Queued s) (hsleeps : (s.pc p).sleeps = false) :
    p ∉ s.waiters ∧ ∀ q, p ∉ (s.pc q).chain := by
  refine ⟨fun hmem ↦ ?_, fun q hmem ↦ ?_⟩
  · exact absurd ((hq.queued p hmem).1.symm.trans hsleeps) (by decide)
  · exact absurd ((hq.chained q p hmem).1.symm.trans hsleeps) (by decide)

omit [DecidableEq ι] in
/-- Nor does one that is satisfied. -/
theorem Queued.nowhere_of_satisfied (hq : Queued s) (hsatisfied : s.satisfied p = true) :
    p ∉ s.waiters ∧ ∀ q, p ∉ (s.pc q).chain := by
  refine ⟨fun hmem ↦ ?_, fun q hmem ↦ ?_⟩
  · exact absurd ((hq.queued p hmem).2.symm.trans hsatisfied) (by decide)
  · exact absurd ((hq.chained q p hmem).2.symm.trans hsatisfied) (by decide)

/-- A party that stands nowhere begins or ends its wait. -/
theorem Queued.stray (hq : Queued s) (hpc : t.pc = Function.update s.pc p pc)
    (hwaiters : t.waiters = s.waiters) (hsatisfied : ∀ q, q ≠ p → t.satisfied q = s.satisfied q)
    (hnowhere : p ∉ s.waiters ∧ ∀ q, p ∉ (s.pc q).chain) (hchain : (s.pc p).chain = [])
    (hchain' : pc.chain = []) (hsleeps : pc.sleeps = false)
    (hrelocks : pc.relocks = true → t.satisfied p = true)
    (hfresh : pc = .enqueueing → t.satisfied p = false) : Queued t := by
  have hother : ∀ q, q ≠ p → t.pc q = s.pc q := fun q hne ↦ by rw [hpc, Function.update_of_ne hne]
  have hself : t.pc p = pc := by rw [hpc, Function.update_self]
  have hchains : ∀ q, (t.pc q).chain = (s.pc q).chain := fun q ↦ by
    rcases eq_or_ne q p with rfl | hne
    · rw [hself, hchain', hchain]
    · rw [hother q hne]
  have hsame : Pc.chain ∘ t.pc = Pc.chain ∘ s.pc := funext hchains
  refine ⟨by rw [hsame, hwaiters]; exact hq.apart, fun w hw ↦ ?_, fun q w hw ↦ ?_, fun w hw ↦ ?_,
    fun w hw ↦ ?_, fun w hw ↦ ?_⟩
  · rw [hwaiters] at hw
    have hne : w ≠ p := fun heq ↦ hnowhere.1 (heq ▸ hw)
    rw [hother w hne, hsatisfied w hne]
    exact hq.queued w hw
  · rw [hchains] at hw
    have hne : w ≠ p := fun heq ↦ hnowhere.2 q (heq ▸ hw)
    rw [hother w hne, hsatisfied w hne]
    exact hq.chained q w hw
  · have hne : w ≠ p := by
      rintro rfl
      rw [hself, hsleeps] at hw
      cases hw
    rw [hother w hne] at hw
    simpa only [hwaiters, hchains, hsatisfied w hne] using hq.covered w hw
  · rcases eq_or_ne w p with rfl | hne
    · exact hrelocks (by rwa [hself] at hw)
    · rw [hother w hne] at hw
      rw [hsatisfied w hne]
      exact hq.woken w hw
  · rcases eq_or_ne w p with rfl | hne
    · exact hfresh (by rwa [hself] at hw)
    · rw [hother w hne] at hw
      rw [hsatisfied w hne]
      exact hq.fresh w hw

/-- A waiter queues. -/
theorem queued_pushBack (hq : Queued s) (hpc : s.pc p = .enqueueing) : Queued (s.pushBack p) := by
  have hnowhere := hq.nowhere (p := p) (by rw [hpc]; rfl)
  have hother : ∀ q, q ≠ p → (s.pushBack p).pc q = s.pc q := fun q hne ↦ Function.update_of_ne hne ..
  have hself : (s.pushBack p).pc p = .releasing := Function.update_self ..
  have hchains : ∀ q, ((s.pushBack p).pc q).chain = (s.pc q).chain := fun q ↦ by
    rcases eq_or_ne q p with rfl | hne
    · rw [hself, hpc]
      rfl
    · rw [hother q hne]
  have hsame : Pc.chain ∘ (s.pushBack p).pc = Pc.chain ∘ s.pc := funext hchains
  refine ⟨by rw [hsame]; exact hq.apart.push hnowhere.1 hnowhere.2, fun w hw ↦ ?_, fun q w hw ↦ ?_,
    fun w hw ↦ ?_, fun w hw ↦ ?_, fun w hw ↦ ?_⟩
  · rcases List.mem_append.mp hw with hw | hw
    · have hne : w ≠ p := fun heq ↦ hnowhere.1 (heq ▸ hw)
      rw [hother w hne]
      exact hq.queued w hw
    · obtain rfl := List.mem_singleton.mp hw
      exact ⟨by rw [hself]; rfl, hq.fresh w hpc⟩
  · rw [hchains] at hw
    have hne : w ≠ p := fun heq ↦ hnowhere.2 q (heq ▸ hw)
    rw [hother w hne]
    exact hq.chained q w hw
  · rcases eq_or_ne w p with rfl | hne
    · exact Or.inl (List.mem_append_right _ (List.mem_singleton_self w))
    · rw [hother w hne] at hw
      refine (hq.covered w hw).imp (List.mem_append_left _) (Or.imp_left ?_)
      simpa only [hchains] using id
  · rcases eq_or_ne w p with rfl | hne
    · rw [hself] at hw
      cases hw
    · rw [hother w hne] at hw
      exact hq.woken w hw
  · rcases eq_or_ne w p with rfl | hne
    · rw [hself] at hw
      cases hw
    · rw [hother w hne] at hw
      exact hq.fresh w hw

omit [DecidableEq ι] in
/-- What a notification takes is the front of the queue. -/
theorem chain_append (s : State ι) (all : Bool) :
    ∃ taken, s.waiters = taken ++ (if all then [] else s.waiters.popFront.2) ∧
      (s.chain all).Perm taken := by
  cases all with
  | true => exact ⟨s.waiters, by simp, List.reverse_perm _⟩
  | false => exact ⟨_, s.waiters.popFront_append, .refl _⟩

/-- A notification takes its waiters out of the queue. -/
theorem queued_pop (hq : Queued s) {all : Bool} (hpc : s.pc p = .popping all) :
    Queued (s.pop p all) := by
  obtain ⟨taken, hwaiters, hperm⟩ := chain_append s all
  have hnowhere := hq.nowhere (p := p) (by rw [hpc]; rfl)
  have hother : ∀ q, q ≠ p → (s.pop p all).pc q = s.pc q := fun q hne ↦ Function.update_of_ne hne ..
  have hself : (s.pop p all).pc p = .notifying all (s.chain all) := Function.update_self ..
  have hsame : Pc.chain ∘ (s.pop p all).pc =
      Function.update (Pc.chain ∘ s.pc) p (s.chain all) := by
    funext q
    rcases eq_or_ne q p with rfl | hne
    · simp [hself, Pc.chain]
    · simp [hother q hne, Function.update_of_ne hne]
  have hmem : ∀ w ∈ s.chain all, w ∈ s.waiters := fun w hw ↦ by
    rw [hwaiters]
    exact List.mem_append_left _ (hperm.mem_iff.mp hw)
  have hrest : ∀ w ∈ (s.pop p all).waiters, w ∈ s.waiters := fun w hw ↦ by
    rw [hwaiters]
    exact List.mem_append_right _ hw
  have hsleeps : ∀ w, (s.pc w).sleeps = true → (s.pop p all).pc w = s.pc w := fun w hw ↦ by
    refine hother w ?_
    rintro rfl
    rw [hpc] at hw
    cases hw
  refine ⟨?_, fun w hw ↦ ?_, fun q w hw ↦ ?_, fun w hw ↦ ?_, fun w hw ↦ ?_, fun w hw ↦ ?_⟩
  · rw [hsame]
    exact (hwaiters ▸ hq.apart).detach hperm
  · obtain ⟨hw, hsatisfied⟩ := hq.queued w (hrest w hw)
    exact ⟨(hsleeps w hw).symm ▸ hw, hsatisfied⟩
  · have hold : (s.pc w).sleeps = true ∧ s.satisfied w = false := by
      rcases eq_or_ne q p with rfl | hne
      · rw [hself] at hw
        exact hq.queued w (hmem w hw)
      · rw [hother q hne] at hw
        exact hq.chained q w hw
    exact ⟨(hsleeps w hold.1).symm ▸ hold.1, hold.2⟩
  · have hne : w ≠ p := by
      rintro rfl
      rw [hself] at hw
      cases hw
    rw [hother w hne] at hw
    rcases hq.covered w hw with hw | ⟨q, hw⟩ | hw
    · rw [hwaiters] at hw
      rcases List.mem_append.mp hw with hw | hw
      · refine Or.inr (Or.inl ⟨p, ?_⟩)
        rw [hself]
        exact hperm.mem_iff.mpr hw
      · exact Or.inl hw
    · refine Or.inr (Or.inl ⟨q, ?_⟩)
      have hne : q ≠ p := by
        rintro rfl
        rw [hpc] at hw
        cases hw
      rwa [hother q hne]
    · exact Or.inr (Or.inr hw)
  · have hne : w ≠ p := by
      rintro rfl
      rw [hself] at hw
      cases hw
    rw [hother w hne] at hw
    exact hq.woken w hw
  · have hne : w ≠ p := by
      rintro rfl
      rw [hself] at hw
      cases hw
    rw [hother w hne] at hw
    exact hq.fresh w hw

/-- A waiter on a chain is notified. -/
theorem queued_notify (hq : Queued s) {all : Bool} {w : ι} {rest : List ι}
    (hpc : s.pc p = .notifying all (w :: rest)) : Queued (s.notify p all w rest) := by
  have hw := hq.chained p w (by rw [hpc]; exact List.mem_cons_self)
  have hother : ∀ q, q ≠ p → (s.notify p all w rest).pc q = s.pc q :=
    fun q hne ↦ Function.update_of_ne hne ..
  have hself : (s.notify p all w rest).pc p = .notifying all rest := Function.update_self ..
  have hsame : Pc.chain ∘ (s.notify p all w rest).pc =
      Function.update (Pc.chain ∘ s.pc) p rest := by
    funext q
    rcases eq_or_ne q p with rfl | hne
    · simp [hself, Pc.chain]
    · simp [hother q hne, Function.update_of_ne hne]
  have hchain : (Pc.chain ∘ s.pc) p = w :: rest := by simp [hpc, Pc.chain]
  have hgone := hq.apart.gone hchain
  have hoff := hq.apart.off p w (by rw [hchain]; exact List.mem_cons_self)
  have hsleeps : ∀ v, (s.pc v).sleeps = true → (s.notify p all w rest).pc v = s.pc v :=
    fun v hv ↦ by
    refine hother v ?_
    rintro rfl
    rw [hpc] at hv
    cases hv
  have hsatisfied : ∀ v, v ≠ w → (s.notify p all w rest).satisfied v = s.satisfied v :=
    fun v hne ↦ Function.update_of_ne hne ..
  refine ⟨by rw [hsame]; exact hq.apart.take hchain, fun v hv ↦ ?_, fun q v hv ↦ ?_, fun v hv ↦ ?_,
    fun v hv ↦ ?_, fun v hv ↦ ?_⟩
  · have hne : v ≠ w := fun heq ↦ hoff (heq ▸ hv)
    obtain ⟨hsleep, hunsatisfied⟩ := hq.queued v hv
    exact ⟨(hsleeps v hsleep).symm ▸ hsleep, (hsatisfied v hne).trans hunsatisfied⟩
  · have hmem : v ∈ Function.update (Pc.chain ∘ s.pc) p rest q := by
      rw [← hsame]
      exact hv
    have hne : v ≠ w := fun heq ↦ hgone q (heq ▸ hmem)
    have hold : v ∈ (s.pc q).chain := by
      rcases eq_or_ne q p with rfl | hqp
      · rw [Function.update_self] at hmem
        rw [hpc]
        exact List.mem_cons_of_mem w hmem
      · rwa [Function.update_of_ne hqp] at hmem
    obtain ⟨hsleep, hunsatisfied⟩ := hq.chained q v hold
    exact ⟨(hsleeps v hsleep).symm ▸ hsleep, (hsatisfied v hne).trans hunsatisfied⟩
  · rcases eq_or_ne v w with rfl | hne
    · exact Or.inr (Or.inr (Function.update_self ..))
    · have hvp : v ≠ p := by
        rintro rfl
        rw [hself] at hv
        cases hv
      rw [hother v hvp] at hv
      rw [hsatisfied v hne]
      refine (hq.covered v hv).imp_right (Or.imp_left ?_)
      rintro ⟨q, hmem⟩
      refine ⟨q, ?_⟩
      rcases eq_or_ne q p with rfl | hqp
      · rw [hpc] at hmem
        rw [hself]
        exact (List.mem_cons.mp hmem).resolve_left hne
      · rwa [hother q hqp]
  · have hvp : v ≠ p := by
      rintro rfl
      rw [hself] at hv
      cases hv
    rw [hother v hvp] at hv
    rcases eq_or_ne v w with rfl | hne
    · exact Function.update_self ..
    · rw [hsatisfied v hne]
      exact hq.woken v hv
  · have hvp : v ≠ p := by
      rintro rfl
      rw [hself] at hv
      cases hv
    rw [hother v hvp] at hv
    have hne : v ≠ w := by
      rintro rfl
      rw [hv] at hw
      cases hw.1
    rw [hsatisfied v hne]
    exact hq.fresh v hv

theorem queued_act (hq : Queued s) (h : s.act kind p = some t) : Queued t := by
  unfold State.act at h
  split at h
  case h_1 hpc => exact Option.some.inj h ▸ queued_pushBack hq hpc
  case h_2 hpc =>
    obtain ⟨m, -, rfl⟩ := Option.map_eq_some_iff.mp h
    exact hq.pass rfl rfl rfl (by rw [hpc]; rfl) (by rw [hpc]; rfl) nofun nofun
  case h_3 hpc =>
    split at h
    · cases h
      exact hq.pass rfl rfl rfl (by rw [hpc]; rfl) (by rw [hpc]; rfl) nofun nofun
    · cases h
  case h_4 hpc =>
    split_ifs at h with hsatisfied
    cases h
    exact hq.stray rfl rfl (fun _ _ ↦ rfl) (hq.nowhere_of_satisfied hsatisfied) (by rw [hpc]; rfl)
      rfl rfl (fun _ ↦ hsatisfied) nofun
  case h_5 hpc =>
    obtain ⟨m, -, rfl⟩ := Option.map_eq_some_iff.mp h
    exact hq.pass rfl rfl rfl (by rw [hpc]; rfl) (by rw [hpc]; rfl) (fun _ ↦ by rw [hpc]; rfl) nofun
  case h_6 hpc =>
    split at h
    · cases h
      exact hq.pass rfl rfl rfl (by rw [hpc]; rfl) (by rw [hpc]; rfl) nofun nofun
    · cases h
  case h_7 all hpc => exact Option.some.inj h ▸ queued_pop hq hpc
  case h_8 all w rest hpc => exact Option.some.inj h ▸ queued_notify hq hpc
  case h_9 all hpc =>
    cases h
    exact hq.pass rfl rfl rfl (by rw [hpc]; rfl) (by rw [hpc]; rfl) nofun nofun
  case h_10 => cases h

omit [DecidableEq ι] in
/-- A free party has no chain and does not sleep. -/
theorem Pc.of_isFree (hfree : pc.isFree = true) :
    pc.chain = [] ∧ pc.sleeps = false ∧ pc.unended = false := by
  cases pc <;> first | exact ⟨rfl, rfl, rfl⟩ | cases hfree

/-- What a step of the mutex leaves of the condition variable. -/
theorem called_frame {a : Semaphore.Action ι} (hallows : s.allows a = true) :
    s.called a = s ∨ ∃ q, (s.pc q).isFree = true ∧ s.called a = s.goto q .idle := by
  cases a with
  | call q call =>
    refine Or.inr ⟨q, ?_, rfl⟩
    cases call with
    | release =>
      simp only [State.allows, Bool.and_eq_true] at hallows
      exact hallows.1
    | _ => exact hallows
  | _ => exact Or.inl rfl

theorem queued_step {a : Action ι} (hq : Queued s) (h : step kind s a = some t) : Queued t := by
  cases a with
  | mutex action =>
    simp only [step.eq_def] at h
    split_ifs at h with hallows
    obtain ⟨m, -, rfl⟩ := Option.map_eq_some_iff.mp h
    rcases called_frame hallows with hcalled | ⟨q, hfree, hcalled⟩ <;> rw [hcalled]
    · exact ⟨hq.apart, hq.queued, hq.chained, hq.covered, hq.woken, hq.fresh⟩
    · obtain ⟨hchain, hsleeps, -⟩ := Pc.of_isFree hfree
      exact hq.pass rfl rfl rfl hchain.symm hsleeps.symm nofun nofun
  | wait q =>
    simp only [step.eq_def] at h
    split_ifs at h with hcond
    cases h
    obtain ⟨hchain, hsleeps, -⟩ := Pc.of_isFree hcond.1
    exact hq.stray rfl rfl (fun r hne ↦ Function.update_of_ne hne ..) (hq.nowhere hsleeps) hchain rfl rfl
      nofun fun _ ↦ Function.update_self ..
  | notify all q =>
    simp only [step.eq_def] at h
    split_ifs at h with hcond
    cases h
    obtain ⟨hchain, hsleeps, -⟩ := Pc.of_isFree hcond.1
    exact hq.pass rfl rfl rfl hchain.symm hsleeps.symm nofun nofun
  | act q => exact queued_act hq h

/-! ### The logs of the waits -/

omit [DecidableEq ι] in
theorem logged_initial (kind : ι → Kind) : Logged (initial kind) where
  enqueued := nofun
  nodup := List.nodup_nil
  order := .slnil
  notified := nofun
  satisfied := nofun
  once := List.nodup_nil
  ended := nofun
  endedOnce := List.nodup_nil

/-- A party moves on, and no log grows. -/
theorem Logged.pass (hl : Logged s) (hpc : t.pc = Function.update s.pc p pc)
    (hwaiters : t.waiters.Sublist s.waiters) (hsatisfied : t.satisfied = s.satisfied)
    (hwaits : t.waits = s.waits) (henqueued : t.enqueued = s.enqueued)
    (hnotified : t.notified = s.notified) (hended : t.ended = s.ended)
    (hfresh : pc ≠ .enqueueing) (hunended : pc.unended = true → (s.pc p).unended = true) :
    Logged t := by
  have hwaitOf : t.waitOf = s.waitOf := by
    funext q
    simp [State.waitOf, hwaits]
  refine ⟨fun x hx ↦ ?_, henqueued ▸ hl.nodup, ?_, ?_, ?_, hnotified ▸ hl.once, fun x hx ↦ ?_,
    hended ▸ hl.endedOnce⟩
  · rw [henqueued] at hx
    obtain ⟨hle, hne⟩ := hl.enqueued x hx
    rw [hwaits, hpc]
    refine ⟨hle, fun heq ↦ ?_⟩
    rcases eq_or_ne x.1 p with hxp | hxp
    · rwa [hxp, Function.update_self]
    · rw [Function.update_of_ne hxp]
      exact hne heq
  · rw [hwaitOf, henqueued]
    exact (hwaiters.map _).trans hl.order
  · rw [hnotified, hwaits, hsatisfied]
    exact hl.notified
  · rw [hnotified, hwaitOf, hsatisfied]
    exact hl.satisfied
  · rw [hended] at hx
    obtain ⟨hmem, hdone⟩ := hl.ended x hx
    rw [hnotified, hwaits, hpc]
    refine ⟨hmem, fun heq ↦ ?_⟩
    rcases eq_or_ne x.1 p with hxp | hxp
    · rw [hxp, Function.update_self]
      by_contra hpc'
      have hold := hunended (by simpa using hpc')
      rw [← hxp, hdone heq] at hold
      cases hold
    · rw [Function.update_of_ne hxp]
      exact hdone heq

/-- A party begins a new wait. -/
theorem logged_wait (hq : Queued s) (hl : Logged s) (hfree : (s.pc p).isFree = true) :
    Logged { s.goto p .enqueueing with
      satisfied := Function.update s.satisfied p false
      waits := Function.update s.waits p (s.waits p + 1) } := by
  obtain ⟨-, hsleeps, -⟩ := Pc.of_isFree hfree
  have hnowhere := (hq.nowhere hsleeps).1
  have hbound : ∀ {x : ι × ℕ}, x.2 ≤ s.waits x.1 →
      x.2 ≤ Function.update s.waits p (s.waits p + 1) x.1 ∧
        (x.2 = Function.update s.waits p (s.waits p + 1) x.1 →
          x.1 ≠ p ∧ x.2 = s.waits x.1) := fun {x} hle ↦ by
    rcases eq_or_ne x.1 p with hxp | hxp
    · rw [hxp, Function.update_self]
      rw [hxp] at hle
      exact ⟨by omega, fun heq ↦ by omega⟩
    · rw [Function.update_of_ne hxp]
      exact ⟨hle, fun heq ↦ ⟨hxp, heq⟩⟩
  refine ⟨fun x hx ↦ ?_, hl.nodup, ?_, fun x hx ↦ ?_, fun w hw ↦ ?_, hl.once, fun x hx ↦ ?_,
    hl.endedOnce⟩
  · obtain ⟨hle, hne⟩ := hl.enqueued x hx
    refine ⟨(hbound hle).1, fun heq ↦ ?_⟩
    obtain ⟨hxp, heq⟩ := (hbound hle).2 heq
    simpa [State.goto, Function.update_of_ne hxp] using hne heq
  · have hsame : s.waiters.map (fun q ↦ (q, Function.update s.waits p (s.waits p + 1) q)) =
        s.waiters.map s.waitOf := by
      refine List.map_congr_left fun q hq ↦ ?_
      have hne : q ≠ p := fun heq ↦ hnowhere (heq ▸ hq)
      simp [State.waitOf, Function.update_of_ne hne]
    exact (hsame ▸ hl.order :)
  · obtain ⟨hle, hsatisfied⟩ := hl.notified x hx
    refine ⟨(hbound hle).1, fun heq ↦ ?_⟩
    obtain ⟨hxp, heq⟩ := (hbound hle).2 heq
    simpa [Function.update_of_ne hxp] using hsatisfied heq
  · rcases eq_or_ne w p with rfl | hne
    · simp at hw
    · have hold := hl.satisfied w (by simpa [Function.update_of_ne hne] using hw)
      show (w, Function.update s.waits p (s.waits p + 1) w) ∈ s.notified.map Prod.snd
      rw [Function.update_of_ne hne]
      exact hold
  · obtain ⟨hmem, hdone⟩ := hl.ended x hx
    obtain ⟨entry, hentry, rfl⟩ := List.mem_map.mp hmem
    have hle := (hl.notified entry hentry).1
    refine ⟨hmem, fun heq ↦ ?_⟩
    obtain ⟨hxp, heq⟩ := (hbound hle).2 heq
    simpa [State.goto, Function.update_of_ne hxp] using hdone heq

theorem logged_pushBack (hl : Logged s) (hpc : s.pc p = .enqueueing) : Logged (s.pushBack p) := by
  have hnew : s.waitOf p ∉ s.enqueued := fun hmem ↦ (hl.enqueued _ hmem).2 rfl hpc
  refine ⟨fun x hx ↦ ?_, ?_, ?_, hl.notified, hl.satisfied, hl.once, fun x hx ↦ ?_, hl.endedOnce⟩
  · rcases List.mem_append.mp hx with hx | hx
    · obtain ⟨hle, hne⟩ := hl.enqueued x hx
      refine ⟨hle, fun heq ↦ ?_⟩
      rcases eq_or_ne x.1 p with hxp | hxp
      · simp [State.pushBack, State.goto, hxp]
      · simpa [State.pushBack, State.goto, Function.update_of_ne hxp] using hne heq
    · obtain rfl := List.mem_singleton.mp hx
      exact ⟨le_rfl, fun _ ↦ by simp [State.pushBack, State.goto, State.waitOf]⟩
  · exact hl.nodup.append (List.nodup_singleton _) (by simpa using hnew)
  · have happend : ((s.pushBack p).waiters.map s.waitOf) = s.waiters.map s.waitOf ++ [s.waitOf p] := by
      simp [State.pushBack, WaitList.pushBack]
    exact (happend ▸ hl.order.append (List.Sublist.refl [s.waitOf p]) :)
  · obtain ⟨hmem, hdone⟩ := hl.ended x hx
    refine ⟨hmem, fun heq ↦ ?_⟩
    rcases eq_or_ne x.1 p with hxp | hxp
    · have hold := hdone heq
      rw [hxp, hpc] at hold
      cases hold
    · simpa [State.pushBack, State.goto, Function.update_of_ne hxp] using hdone heq

/-- A wait that was notified ends. -/
theorem logged_end (hl : Logged s) (hpc : s.pc p = .waiting) (hsatisfied : s.satisfied p = true) :
    Logged { s.goto p .relocking with ended := s.ended ++ [s.waitOf p] } := by
  have hnew : s.waitOf p ∉ s.ended := fun hmem ↦ by
    have hdone := (hl.ended _ hmem).2 rfl
    rw [show s.pc (s.waitOf p).1 = .waiting from hpc] at hdone
    cases hdone
  have hpass : Logged (s.goto p .relocking) :=
    hl.pass rfl (List.Sublist.refl _) rfl rfl rfl rfl rfl nofun nofun
  refine ⟨hpass.enqueued, hpass.nodup, hpass.order, hpass.notified, hpass.satisfied, hpass.once,
    fun x hx ↦ ?_, hl.endedOnce.append (List.nodup_singleton _) (by simpa using hnew)⟩
  rcases List.mem_append.mp hx with hx | hx
  · exact hpass.ended x hx
  · obtain rfl := List.mem_singleton.mp hx
    exact ⟨hl.satisfied p hsatisfied, fun _ ↦ by simp [State.goto, State.waitOf, Pc.unended]⟩

theorem logged_notify (hq : Queued s) (hl : Logged s) {all : Bool} {w : ι} {rest : List ι}
    (hpc : s.pc p = .notifying all (w :: rest)) : Logged (s.notify p all w rest) := by
  obtain ⟨-, hunsatisfied⟩ := hq.chained p w (by rw [hpc]; exact List.mem_cons_self)
  have hnew : s.waitOf w ∉ s.notified.map Prod.snd := fun hmem ↦ by
    obtain ⟨entry, hentry, heq⟩ := List.mem_map.mp hmem
    have hsatisfied := (hl.notified entry hentry).2
    rw [heq] at hsatisfied
    exact absurd (hunsatisfied.symm.trans (hsatisfied rfl)) (by decide)
  have hpass : Logged (s.goto p (.notifying all rest)) :=
    hl.pass rfl (List.Sublist.refl _) rfl rfl rfl rfl rfl nofun nofun
  refine ⟨hpass.enqueued, hpass.nodup, hpass.order, fun x hx ↦ ?_, fun v hv ↦ ?_, ?_, fun x hx ↦ ?_,
    hpass.endedOnce⟩
  · rcases List.mem_append.mp hx with hx | hx
    · obtain ⟨hle, hsatisfied⟩ := hl.notified x hx
      refine ⟨hle, fun heq ↦ ?_⟩
      rcases eq_or_ne x.2.1 w with hxw | hxw
      · simp [State.notify, hxw]
      · simpa [State.notify, Function.update_of_ne hxw] using hsatisfied heq
    · obtain rfl := List.mem_singleton.mp hx
      exact ⟨le_rfl, fun _ ↦ by simp [State.notify, State.waitOf]⟩
  · have hmap : (s.notify p all w rest).notified.map Prod.snd =
        s.notified.map Prod.snd ++ [s.waitOf w] := by simp [State.notify]
    rw [hmap]
    rcases eq_or_ne v w with rfl | hne
    · exact List.mem_append_right _ (List.mem_singleton_self _)
    · exact List.mem_append_left _
        (hl.satisfied v (by simpa [State.notify, Function.update_of_ne hne] using hv))
  · have hmap : (s.notify p all w rest).notified.map Prod.snd =
        s.notified.map Prod.snd ++ [s.waitOf w] := by simp [State.notify]
    rw [hmap]
    exact hl.once.append (List.nodup_singleton _) (by simpa using hnew)
  · obtain ⟨hmem, hdone⟩ := hpass.ended x hx
    have hmap : (s.notify p all w rest).notified.map Prod.snd =
        s.notified.map Prod.snd ++ [s.waitOf w] := by simp [State.notify]
    exact ⟨hmap ▸ List.mem_append_left _ hmem, hdone⟩

theorem logged_act (hq : Queued s) (hl : Logged s) (h : s.act kind p = some t) : Logged t := by
  unfold State.act at h
  split at h
  case h_1 hpc => exact Option.some.inj h ▸ logged_pushBack hl hpc
  case h_2 hpc =>
    obtain ⟨m, -, rfl⟩ := Option.map_eq_some_iff.mp h
    exact hl.pass rfl (List.Sublist.refl _) rfl rfl rfl rfl rfl nofun fun _ ↦ by rw [hpc]; rfl
  case h_3 hpc =>
    split at h
    · cases h
      exact hl.pass rfl (List.Sublist.refl _) rfl rfl rfl rfl rfl nofun fun _ ↦ by rw [hpc]; rfl
    · cases h
  case h_4 hpc =>
    split_ifs at h with hsatisfied
    exact Option.some.inj h ▸ logged_end hl hpc hsatisfied
  case h_5 hpc =>
    obtain ⟨m, -, rfl⟩ := Option.map_eq_some_iff.mp h
    exact hl.pass rfl (List.Sublist.refl _) rfl rfl rfl rfl rfl nofun nofun
  case h_6 hpc =>
    split at h
    · cases h
      exact hl.pass rfl (List.Sublist.refl _) rfl rfl rfl rfl rfl nofun nofun
    · cases h
  case h_7 all hpc =>
    cases h
    obtain ⟨taken, hwaiters, -⟩ := chain_append s all
    refine hl.pass rfl ?_ rfl rfl rfl rfl rfl nofun nofun
    conv_rhs => rw [hwaiters]
    exact List.sublist_append_right _ _
  case h_8 all w rest hpc => exact Option.some.inj h ▸ logged_notify hq hl hpc
  case h_9 all hpc =>
    cases h
    exact hl.pass rfl (List.Sublist.refl _) rfl rfl rfl rfl rfl nofun nofun
  case h_10 => cases h

theorem logged_step {a : Action ι} (hq : Queued s) (hl : Logged s) (h : step kind s a = some t) :
    Logged t := by
  cases a with
  | mutex action =>
    simp only [step.eq_def] at h
    split_ifs at h with hallows
    obtain ⟨m, -, rfl⟩ := Option.map_eq_some_iff.mp h
    rcases called_frame hallows with hcalled | ⟨q, hfree, hcalled⟩ <;> rw [hcalled]
    · exact ⟨hl.enqueued, hl.nodup, hl.order, hl.notified, hl.satisfied, hl.once, hl.ended,
        hl.endedOnce⟩
    · exact hl.pass rfl (List.Sublist.refl _) rfl rfl rfl rfl rfl nofun nofun
  | wait q =>
    simp only [step.eq_def] at h
    split_ifs at h with hcond
    exact Option.some.inj h ▸ logged_wait hq hl hcond.1
  | notify all q =>
    simp only [step.eq_def] at h
    split_ifs at h with hcond
    cases h
    exact hl.pass rfl (List.Sublist.refl _) rfl rfl rfl rfl rfl nofun nofun
  | act q => exact logged_act hq hl h

/-! ### The logs of the notifications -/

theorem answered_initial (kind : ι → Kind) : Answered (initial kind) where
  bound := nofun
  notifying := nofun
  done := nofun
  found _ := .slnil

/-- A party moves on, and notifies nobody. -/
theorem Answered.pass (ha : Answered s) (hpc : t.pc = Function.update s.pc p pc)
    (hwaits : ∀ q, (s.pc q).chain.map t.waitOf = (s.pc q).chain.map s.waitOf)
    (hnotifies : t.notifies = s.notifies) (henqueued : s.enqueued.Sublist t.enqueued)
    (hnotified : t.notified = s.notified) (hfound : t.found = s.found)
    (hpopping : ∀ all, pc ≠ .popping all) (hnotifying : ∀ all chain, pc ≠ .notifying all chain)
    (hdone : ∀ all, pc = .notified all → s.entries p = targets all (s.found p)) : Answered t := by
  have hother : ∀ q, q ≠ p → t.pc q = s.pc q := fun q hne ↦ by rw [hpc, Function.update_of_ne hne]
  have hself : t.pc p = pc := by rw [hpc, Function.update_self]
  have hentries : t.entries = s.entries := by
    funext q
    have hsame : t.notifyOf q = s.notifyOf q := congrArg (fun n ↦ (q, n q)) hnotifies
    rw [State.entries, State.entries, hsame, hnotified]
  refine ⟨fun x hx ↦ ?_, fun q all chain hq ↦ ?_, fun q all hq ↦ ?_, fun q ↦ ?_⟩
  · rw [hnotified] at hx
    obtain ⟨hle, hne⟩ := ha.bound x hx
    rw [hnotifies]
    refine ⟨hle, fun heq all hq ↦ ?_⟩
    rcases eq_or_ne x.1.1 p with hxp | hxp
    · rw [hxp, hself] at hq
      exact hpopping all hq
    · rw [hother _ hxp] at hq
      exact hne heq all hq
  · have hne : q ≠ p := by
      rintro rfl
      rw [hself] at hq
      exact hnotifying all chain hq
    rw [hother q hne] at hq
    have hmap := hwaits q
    rw [hq] at hmap
    rw [hentries, hfound, ← ha.notifying q all chain hq]
    exact congrArg _ hmap
  · rw [hentries, hfound]
    rcases eq_or_ne q p with rfl | hne
    · exact hdone all (by rw [← hself, hq])
    · rw [hother q hne] at hq
      exact ha.done q all hq
  · rw [hfound]
    exact (ha.found q).trans henqueued

/-- A party begins a new notification. -/
theorem answered_begin (ha : Answered s) (all : Bool) :
    Answered { s.goto p (.popping all) with
      notifies := Function.update s.notifies p (s.notifies p + 1) } := by
  set t : State ι := { s.goto p (.popping all) with
    notifies := Function.update s.notifies p (s.notifies p + 1) } with ht
  have hother : ∀ q, q ≠ p → t.pc q = s.pc q ∧ t.notifies q = s.notifies q := fun q hne ↦
    ⟨Function.update_of_ne hne .., Function.update_of_ne hne ..⟩
  have hself : t.pc p = .popping all := Function.update_self ..
  have hentries : ∀ q, q ≠ p → t.entries q = s.entries q := fun q hne ↦ by
    simp only [State.entries, State.notifyOf, (hother q hne).2]
    rfl
  refine ⟨fun x hx ↦ ?_, fun q all' chain hq ↦ ?_, fun q all' hq ↦ ?_, ha.found⟩
  · obtain ⟨hle, hne⟩ := ha.bound x hx
    rcases eq_or_ne x.1.1 p with hxp | hxp
    · have hnext : t.notifies p = s.notifies p + 1 := Function.update_self ..
      rw [hxp, hnext]
      rw [hxp] at hle
      exact ⟨by omega, fun heq ↦ by omega⟩
    · rw [(hother _ hxp).1, (hother _ hxp).2]
      exact ⟨hle, hne⟩
  · have hne : q ≠ p := by
      rintro rfl
      rw [hself] at hq
      cases hq
    rw [(hother q hne).1] at hq
    rw [hentries q hne]
    exact ha.notifying q all' chain hq
  · have hne : q ≠ p := by
      rintro rfl
      rw [hself] at hq
      cases hq
    rw [(hother q hne).1] at hq
    rw [hentries q hne]
    exact ha.done q all' hq

/-- A notification takes its targets, and has notified none of them. -/
theorem answered_pop (hl : Logged s) (ha : Answered s) {all : Bool} (hpc : s.pc p = .popping all) :
    Answered (s.pop p all) := by
  have hother : ∀ q, q ≠ p → (s.pop p all).pc q = s.pc q ∧ (s.pop p all).found q = s.found q :=
    fun q hne ↦ ⟨Function.update_of_ne hne .., Function.update_of_ne hne ..⟩
  have hself : (s.pop p all).pc p = .notifying all (s.chain all) := Function.update_self ..
  have hfound : (s.pop p all).found p = s.waiters.map s.waitOf := Function.update_self ..
  refine ⟨fun x hx ↦ ?_, fun q all' chain hq ↦ ?_, fun q all' hq ↦ ?_, fun q ↦ ?_⟩
  · obtain ⟨hle, hne⟩ := ha.bound x hx
    refine ⟨hle, fun heq all' hq ↦ ?_⟩
    rcases eq_or_ne x.1.1 p with hxp | hxp
    · rw [hxp, hself] at hq
      cases hq
    · rw [(hother _ hxp).1] at hq
      exact hne heq all' hq
  · rcases eq_or_ne q p with rfl | hne
    · rw [hself] at hq
      cases hq
      have hnone : (s.pop q all).entries q = [] := by
        refine List.map_eq_nil_iff.mpr (List.filter_eq_nil_iff.mpr fun x hx heq ↦ ?_)
        have heq : x.1 = s.notifyOf q := of_decide_eq_true heq
        refine (ha.bound x hx).2 ?_ all ?_
        · rw [heq]
          rfl
        · rw [heq]
          exact hpc
      rw [hnone, hfound, List.nil_append]
      show (s.chain all).map s.waitOf = _
      cases all with
      | true => simp [State.chain, targets]
      | false =>
        cases hwaiters : s.waiters <;> simp [State.chain, targets, hwaiters, WaitList.popFront]
    · rw [(hother q hne).1] at hq
      rw [(hother q hne).2]
      exact ha.notifying q all' chain hq
  · rcases eq_or_ne q p with rfl | hne
    · rw [hself] at hq
      cases hq
    · rw [(hother q hne).1] at hq
      rw [(hother q hne).2]
      exact ha.done q all' hq
  · rcases eq_or_ne q p with rfl | hne
    · rw [hfound]
      exact hl.order
    · rw [(hother q hne).2]
      exact ha.found q

/-- A notification notifies the next of its targets. -/
theorem answered_notify (ha : Answered s) {all : Bool} {w : ι} {rest : List ι}
    (hpc : s.pc p = .notifying all (w :: rest)) : Answered (s.notify p all w rest) := by
  have hother : ∀ q, q ≠ p → (s.notify p all w rest).pc q = s.pc q :=
    fun q hne ↦ Function.update_of_ne hne ..
  have hself : (s.notify p all w rest).pc p = .notifying all rest := Function.update_self ..
  have hentries : ∀ q, (s.notify p all w rest).entries q =
      s.entries q ++ if q = p then [s.waitOf w] else [] := fun q ↦ by
    have hsame : (s.notify p all w rest).notifyOf q = s.notifyOf q := rfl
    have hlog : (s.notify p all w rest).notified =
        s.notified ++ [(s.notifyOf p, s.waitOf w)] := rfl
    rw [State.entries, hsame, hlog, List.filter_append, List.map_append]
    rcases eq_or_ne q p with rfl | hne
    · simp [State.entries]
    · have hdifferent : s.notifyOf p ≠ s.notifyOf q := fun heq ↦
        hne (congrArg Prod.fst heq).symm
      simp [State.entries, hne, hdifferent]
  refine ⟨fun x hx ↦ ?_, fun q all' chain hq ↦ ?_, fun q all' hq ↦ ?_, ha.found⟩
  · rcases List.mem_append.mp hx with hx | hx
    · obtain ⟨hle, hne⟩ := ha.bound x hx
      refine ⟨hle, fun heq all' hq ↦ ?_⟩
      rcases eq_or_ne x.1.1 p with hxp | hxp
      · rw [hxp, hself] at hq
        cases hq
      · rw [hother _ hxp] at hq
        exact hne heq all' hq
    · obtain rfl := List.mem_singleton.mp hx
      refine ⟨le_rfl, fun _ all' hq ↦ ?_⟩
      rw [show (s.notifyOf p, s.waitOf w).1.1 = p from rfl, hself] at hq
      cases hq
  · rw [hentries]
    rcases eq_or_ne q p with rfl | hne
    · rw [hself] at hq
      cases hq
      have hold := ha.notifying q all (w :: rest) hpc
      rw [if_pos rfl, List.append_assoc]
      exact hold
    · rw [hother q hne] at hq
      rw [if_neg hne, List.append_nil]
      exact ha.notifying q all' chain hq
  · rw [hentries]
    rcases eq_or_ne q p with rfl | hne
    · rw [hself] at hq
      cases hq
    · rw [hother q hne] at hq
      rw [if_neg hne, List.append_nil]
      exact ha.done q all' hq

theorem answered_act (hl : Logged s) (ha : Answered s) (h : s.act kind p = some t) :
    Answered t := by
  unfold State.act at h
  split at h
  case h_1 hpc =>
    exact Option.some.inj h ▸ ha.pass rfl (fun _ ↦ rfl) rfl (List.sublist_append_left _ _) rfl rfl
      nofun nofun nofun
  case h_2 hpc =>
    obtain ⟨m, -, rfl⟩ := Option.map_eq_some_iff.mp h
    exact ha.pass rfl (fun _ ↦ rfl) rfl (List.Sublist.refl _) rfl rfl nofun nofun nofun
  case h_3 hpc =>
    split at h
    · cases h
      exact ha.pass rfl (fun _ ↦ rfl) rfl (List.Sublist.refl _) rfl rfl nofun nofun nofun
    · cases h
  case h_4 hpc =>
    split_ifs at h
    exact Option.some.inj h ▸ ha.pass rfl (fun _ ↦ rfl) rfl (List.Sublist.refl _) rfl rfl nofun nofun
      nofun
  case h_5 hpc =>
    obtain ⟨m, -, rfl⟩ := Option.map_eq_some_iff.mp h
    exact ha.pass rfl (fun _ ↦ rfl) rfl (List.Sublist.refl _) rfl rfl nofun nofun nofun
  case h_6 hpc =>
    split at h
    · cases h
      exact ha.pass rfl (fun _ ↦ rfl) rfl (List.Sublist.refl _) rfl rfl nofun nofun nofun
    · cases h
  case h_7 all hpc => exact Option.some.inj h ▸ answered_pop hl ha hpc
  case h_8 all w rest hpc => exact Option.some.inj h ▸ answered_notify ha hpc
  case h_9 all hpc =>
    cases h
    refine ha.pass rfl (fun _ ↦ rfl) rfl (List.Sublist.refl _) rfl rfl nofun nofun fun all' heq ↦ ?_
    cases heq
    simpa using ha.notifying p all [] hpc
  case h_10 => cases h

theorem answered_step {a : Action ι} (hq : Queued s) (hl : Logged s) (ha : Answered s)
    (h : step kind s a = some t) : Answered t := by
  cases a with
  | mutex action =>
    simp only [step.eq_def] at h
    split_ifs at h with hallows
    obtain ⟨m, -, rfl⟩ := Option.map_eq_some_iff.mp h
    rcases called_frame hallows with hcalled | ⟨q, hfree, hcalled⟩ <;> rw [hcalled]
    · exact ⟨ha.bound, ha.notifying, ha.done, ha.found⟩
    · exact ha.pass rfl (fun _ ↦ rfl) rfl (List.Sublist.refl _) rfl rfl nofun nofun nofun
  | wait q =>
    simp only [step.eq_def] at h
    split_ifs at h with hcond
    cases h
    obtain ⟨-, hsleeps, -⟩ := Pc.of_isFree hcond.1
    refine ha.pass rfl (fun r ↦ List.map_congr_left fun v hv ↦ ?_) rfl (List.Sublist.refl _) rfl rfl
      nofun nofun nofun
    have hne : v ≠ q := by
      rintro rfl
      exact (hq.nowhere hsleeps).2 r hv
    simp [State.waitOf, Function.update_of_ne hne]
  | notify all q =>
    simp only [step.eq_def] at h
    split_ifs at h with hcond
    exact Option.some.inj h ▸ answered_begin ha all
  | act q => exact answered_act hl ha h

end Steps

/-! ### The contract -/

/-- What the parties rely on. Whoever holds the mutex finds every other party that is in `wait` queued,
taken by a notification, or notified; a notification notifies those of the queue it met that it is
for, and nothing stops it; a wait is notified once, and ends once and notified; and `wait` returns with
the mutex. -/
structure Contract (kind : ι → Kind) (s : State ι) : Prop where
  found : ∀ p w, p ≠ w → Holds s.mutex p → (s.pc w).inWait = true →
    w ∈ s.waiters ∨ (∃ q, w ∈ (s.pc q).chain) ∨ s.waitOf w ∈ s.notified.map Prod.snd
  order : s.enqueued.Nodup ∧ (s.waiters.map s.waitOf).Sublist s.enqueued
  met : ∀ p, (s.found p).Sublist s.enqueued
  notified : ∀ p all, s.pc p = .notified all → s.entries p = targets all (s.found p)
  alive : ∀ p, ∀ w ∈ (s.pc p).chain, (s.pc w).sleeps = true ∧ s.satisfied w = false
  unstopped : ∀ p all, (s.pc p = .popping all ∨ ∃ chain, s.pc p = .notifying all chain) →
    ∃ t, step kind s (.act p) = some t
  once : (s.notified.map Prod.snd).Nodup
  ended : s.ended.Nodup ∧ ∀ x ∈ s.ended, (s.notified.map Prod.snd).count x = 1
  held : ∀ w, s.pc w = .waited → Holds s.mutex w ∧ ∀ p, Holds s.mutex p → p = w

section Results

variable {kind : ι → Kind} {s : State ι}

theorem invariant_of_reachable (hs : (system kind).Reachable s) :
    Owned kind s ∧ Queued s ∧ Logged s ∧ Answered s := by
  refine System.Reachable.invariant (P := fun s ↦ Owned kind s ∧ Queued s ∧ Logged s ∧ Answered s)
    ?_ ?_ hs
  · rintro s rfl
    exact ⟨owned_initial, queued_initial kind, logged_initial kind, answered_initial kind⟩
  · rintro s a t ⟨ho, hq, hl, ha⟩ hstep
    exact ⟨owned_step ho hstep, queued_step hq hstep, logged_step hq hl hstep,
      answered_step hq hl ha hstep⟩

/-- Whoever holds the mutex finds a party that is in `wait` queued, taken or notified. -/
theorem found_of_holds (ho : Owned kind s) (hq : Queued s) (hl : Logged s) {p w : ι} (hne : p ≠ w)
    (hp : Holds s.mutex p) (hw : (s.pc w).inWait = true) :
    w ∈ s.waiters ∨ (∃ q, w ∈ (s.pc q).chain) ∨ s.waitOf w ∈ s.notified.map Prod.snd := by
  have hcases : s.pc w = .enqueueing ∨ (s.pc w).sleeps = true ∨ (s.pc w).relocks = true := by
    cases hpc : s.pc w <;> simp_all [Pc.inWait, Pc.unended, Pc.sleeps, Pc.relocks]
  rcases hcases with henqueueing | hsleeps | hrelocks
  · have hholds := (ho.holds w (by rw [henqueueing]; rfl)).1
    exact absurd (Semaphore.holds_unique ho.mutex hp hholds) hne
  · exact (hq.covered w hsleeps).imp_right (Or.imp_right (hl.satisfied w))
  · exact Or.inr (Or.inr (hl.satisfied w (hq.woken w hrelocks)))

/-- No notification is lost: in every reachable state the parties have what they rely on. -/
theorem loses_no_notification (hs : (system kind).Reachable s) : Contract kind s := by
  obtain ⟨ho, hq, hl, ha⟩ := invariant_of_reachable hs
  refine ⟨fun p w hne hp hw ↦ found_of_holds ho hq hl hne hp hw, ⟨hl.nodup, hl.order⟩, ha.found,
    ha.done, hq.chained, fun p all hpc ↦ ?_, hl.once, ⟨hl.endedOnce, fun x hx ↦ ?_⟩, fun w hw ↦ ?_⟩
  · rcases hpc with hpc | ⟨chain, hpc⟩
    · exact ⟨s.pop p all, by simp only [step.eq_def, State.act.eq_def, hpc]⟩
    · cases chain with
      | nil => exact ⟨s.goto p (.notified all), by simp only [step.eq_def, State.act.eq_def, hpc]⟩
      | cons w rest => exact ⟨s.notify p all w rest, by simp only [step.eq_def, State.act.eq_def, hpc]⟩
  · exact List.count_eq_one_of_mem hl.once (hl.ended x hx).1
  · obtain ⟨hholds, -⟩ := ho.holds w (by rw [hw]; rfl)
    exact ⟨hholds, fun p hp ↦ Semaphore.holds_unique ho.mutex hp hholds⟩

/-- The first party takes the mutex and waits; the second takes the mutex, notifies all, and unlocks
it; the first wakes and takes the mutex again. -/
def oneNotified : List (Action (Fin 2)) :=
  [.mutex (.call 0 .acquire), .mutex (.act 0), .mutex (.act 0), .wait 0, .act 0, .act 0,
    .mutex (.act 0), .mutex (.act 0), .act 0, .mutex (.call 1 .acquire), .mutex (.act 1),
    .mutex (.act 1), .notify true 1, .act 1, .act 1, .act 1, .mutex (.call 1 .release),
    .mutex (.act 1), .mutex (.act 1), .act 0, .act 0, .mutex (.act 0), .mutex (.act 0), .act 0]

theorem loses_no_notification_oneNotified :
    ∃ s, (system fun _ : Fin 2 ↦ .thread).Reachable s ∧ Contract (fun _ ↦ .thread) s ∧
      s.pc 0 = .waited ∧ s.notified = [((1, 1), (0, 1))] := by
  let s := ((system fun _ ↦ .thread).run (initial fun _ ↦ .thread) oneNotified).get
    (by decide +kernel)
  have hs : (system fun _ : Fin 2 ↦ .thread).Reachable s :=
    System.reachable_of_run rfl (Option.some_get _).symm
  exact ⟨s, hs, loses_no_notification hs, by rfl, by decide +kernel⟩

end Results

end Stackfull.Sync.ConditionVariable
