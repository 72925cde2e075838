import Stackfull.Sched.SlotCache
import Stackfull.Lib.Located

/-!
# Every slot is in one place

`contents` lists the slots of each place: the free list, a cache, the hand of a call, a task being
created, a task, a task that is being released. While a worker hands the older half of its full
cache back, what it has pushed already is no longer the cache's, although the array still has it.

Every step moves at most one slot from one place to another, so every slot is at one position of one
place (`slots_conserved`). That nobody else is at a cache while its owner moves the slots in it is
what its lock gives.
-/

set_option autoImplicit false
set_option relaxedAutoImplicit false
set_option linter.dupNamespace false

namespace Stackfull.Sched.SlotCache

open Stackfull.Lib
open Stackfull.Sched.Tasks (Agent)

universe u

variable {n m : ℕ} {κ : Type u}

/-! ### Places -/

namespace Pc

/-- The slot in the hand of a call that acquires or releases it. -/
def held : Pc n m → Option (Fin m)
  | .unlockOwn got | .raidUnlock _ _ got => got
  | .putLock slot _ | .putTest slot _ | .handBack _ slot _ | .putStore slot _ | .putFree slot _ =>
    some slot
  | _ => none

/-- The slot of the task being created. -/
def builds : Pc n m → Option (Fin m)
  | .allocate slot | .carve slot | .construct slot | .register slot | .countLoad slot
  | .countStore slot _ | .dropStack slot _ | .dropSlot slot _ => some slot
  | _ => none

/-- The slot of the task being released, up to `countFinished`. -/
def ends : Pc n m → Option (Fin m)
  | .clearTable slot | .freeStack slot | .finishLoad slot | .finishStore slot _ => some slot
  | _ => none

/-- How many slots of its full cache the worker has handed back. -/
def handed : Pc n m → ℕ
  | .handBack i _ _ => i
  | _ => 0

/-- The slot of the task that the thread creates or releases, while the task has a stack. -/
def stacked : Pc n m → Option (Fin m)
  | .carve slot | .construct slot | .register slot | .countLoad slot | .countStore slot _
  | .dropStack slot _ | .clearTable slot | .freeStack slot => some slot
  | _ => none

/-- The cache whose lock the thread holds. -/
def locks (a : Agent n κ) : Pc n m → Option (Fin n)
  | .testOwn | .refill | .takeOwn | .unlockOwn _ | .putTest _ _ | .handBack _ _ _ | .putStore _ _
  | .putUnlock _ =>
    match a with
    | .worker w => some w
    | .foreign _ => none
  | .raidTake victim _ | .raidUnlock victim _ _ => some victim
  | _ => none

/-- How long the cache of a worker is while the worker stands there. -/
def fits : Pc n m → ℕ → Prop
  | .refill, length => length < batch
  | .handBack i _ _, length => length = capacity ∧ i ≤ batch
  | .putStore _ _, length => length < capacity
  | _, length => length ≤ capacity

/-- The call may have written the slot table or a counter. -/
def mayWrite : Pc n m → Bool
  | .idle | .countLoad _ | .countStore _ _ | .clearTable _ | .freeStack _ | .finishLoad _
  | .finishStore _ _ | .putLock _ .released | .putTest _ .released | .handBack _ _ .released
  | .putStore _ .released | .putUnlock .released | .putFree _ .released | .checkStopping
  | .scanFinished _ _ .release | .scanFinished _ _ .count | .scanCreated _ _ _ .release
  | .scanCreated _ _ _ .count | .scanned _ .release | .scanned _ .count => true
  | _ => false

end Pc

/-- What a cache holds. -/
def State.cached (s : State n m κ) (w : Fin n) : List (Fin m) :=
  (s.cache w).drop (s.pc (.worker w)).handed

variable [DecidableEq κ]

/-- The slots of a place. -/
def State.contents (s : State n m κ) : Use n κ → List (Fin m)
  | .free => s.free
  | .cached w => s.cached w
  | .held a => (s.pc a).held.toList
  | .building a => (s.pc a).builds.toList
  | .live => (List.finRange m).filter fun i ↦ s.use i = .live
  | .ending a => (s.pc a).ends.toList

/-- Every slot is at one position of one place, no cache holds more than fits, a slot has a stack
only for a task, and a `createTask` that fails has written neither the slot table nor a counter and
has no slot any more. -/
structure Conserved (s : State n m κ) : Prop where
  place : ∀ i, ∃ p, ∀ q, (s.contents q).count i = if q = p then 1 else 0
  room : ∀ w, (s.cache w).length ≤ capacity
  stack : ∀ i, s.stack i = true → (s.use i).isUsed = true
  failure : ∀ a failure, s.pc a = .failed failure →
    s.wrote a = false ∧ ∀ i, s.use i ≠ .held a ∧ s.use i ≠ .building a

/-- What the slots, the locks, the caches and the stacks are like. -/
structure Ledger (s : State n m κ) : Prop where
  located : Located s.contents fun i ↦ some (s.use i)
  locks : ∀ a w, (s.pc a).locks a = some w → s.lock w = some a
  fits : ∀ w, (s.pc (.worker w)).fits (s.cache w).length
  stack : ∀ i, s.stack i = true → s.use i = .live ∨ ∃ a, (s.pc a).stacked = some i
  wrote : ∀ a, s.wrote a = true → (s.pc a).mayWrite = true

variable {s s' : State n m κ} {a : Agent n κ} {p : Pc n m}

/-! ### One slot moves -/

attribute [local simp] State.contents

/-- Places that a step does not touch. -/
theorem contents_frame (hpc : s'.pc = Function.update s.pc a p) {r : Use n κ}
    (hfree : r = .free → s'.free = s.free) (hcached : ∀ w, r = .cached w → s'.cached w = s.cached w)
    (hlive : r = .live → ∀ i, s'.use i = .live ↔ s.use i = .live)
    (hheld : r = .held a → p.held = (s.pc a).held)
    (hbuilds : r = .building a → p.builds = (s.pc a).builds)
    (hends : r = .ending a → p.ends = (s.pc a).ends) : s'.contents r = s.contents r := by
  have hother (b : Agent n κ) (hne : b ≠ a) : s'.pc b = s.pc b := by
    rw [hpc, Function.update_of_ne hne]
  have hself : s'.pc a = p := by
    rw [hpc, Function.update_self]
  cases r with
  | free => exact hfree rfl
  | cached w => exact hcached w rfl
  | live =>
    simp only [State.contents, hlive rfl]
  | held b =>
    simp only [State.contents]
    rcases eq_or_ne b a with rfl | hne
    · rw [hself, hheld rfl]
    · rw [hother b hne]
  | building b =>
    simp only [State.contents]
    rcases eq_or_ne b a with rfl | hne
    · rw [hself, hbuilds rfl]
    · rw [hother b hne]
  | ending b =>
    simp only [State.contents]
    rcases eq_or_ne b a with rfl | hne
    · rw [hself, hends rfl]
    · rw [hother b hne]

omit [DecidableEq κ] in
/-- A cache that a step does not touch. -/
theorem cached_frame {w : Fin n} (hcache : s'.cache w = s.cache w)
    (hhanded : (s'.pc (.worker w)).handed = (s.pc (.worker w)).handed) :
    s'.cached w = s.cached w := by
  rw [State.cached, State.cached, hcache, hhanded]

/-- How far a worker has handed its cache back, if another thread moves or the worker does not hand
anything back. -/
theorem handed_frame (hpc : s'.pc = Function.update s.pc a p) {w : Fin n}
    (hhanded : p.handed = (s.pc a).handed) :
    (s'.pc (.worker w)).handed = (s.pc (.worker w)).handed := by
  rw [hpc]
  rcases eq_or_ne (.worker w) a with rfl | hne
  · rw [Function.update_self, hhanded]
  · rw [Function.update_of_ne hne]

/-- No slot moves. -/
theorem Ledger.located_quiet (h : Ledger s) (hpc : s'.pc = Function.update s.pc a p)
    (hfree : s'.free = s.free) (hcache : s'.cache = s.cache) (huse : s'.use = s.use)
    (hheld : p.held = (s.pc a).held) (hbuilds : p.builds = (s.pc a).builds)
    (hends : p.ends = (s.pc a).ends) (hhanded : p.handed = (s.pc a).handed) :
    Located s'.contents fun i ↦ some (s'.use i) := by
  have hcontents : s'.contents = s.contents := by
    funext r
    refine contents_frame hpc (fun _ ↦ hfree) ?_ ?_ (fun _ ↦ hheld) (fun _ ↦ hbuilds) fun _ ↦ hends
    · exact fun w _ ↦ cached_frame (congrFun hcache w) (handed_frame hpc hhanded)
    · intro _ i
      rw [huse]
  rw [hcontents, huse]
  exact h.located

/-- A slot goes from its place to another. -/
theorem Ledger.located_moved (h : Ledger s) {x : Fin m} {old new : Use n κ} (hold : s.use x = old)
    (hne : old ≠ new) (huse : s'.use = Function.update s.use x new)
    (hout : (s.contents old).Perm (x :: s'.contents old))
    (hin : (s'.contents new).Perm (x :: s.contents new))
    (hrest : ∀ r, r ≠ old → r ≠ new → s'.contents r = s.contents r) :
    Located s'.contents fun i ↦ some (s'.use i) := by
  have hplace : (fun i ↦ some (s'.use i)) =
      Function.update (fun i ↦ some (s.use i)) x (some new) := by
    funext i
    rw [huse]
    rcases eq_or_ne i x with rfl | hi
    · rw [Function.update_self, Function.update_self]
    · rw [Function.update_of_ne hi, Function.update_of_ne hi]
  rw [hplace]
  exact h.located.transfer (by rw [hold]) hne hout hin hrest

/-- A new task among the others. -/
theorem live_perm {use : Fin m → Use n κ} {x : Fin m} (hx : use x ≠ .live) :
    ((List.finRange m).filter fun i ↦ Function.update use x .live i = .live).Perm
      (x :: (List.finRange m).filter fun i ↦ use i = .live) := by
  rw [List.perm_ext_iff_of_nodup]
  · intro y
    simp only [List.mem_filter, List.mem_finRange, true_and, decide_eq_true_eq, List.mem_cons]
    rcases eq_or_ne y x with rfl | hne
    · simp
    · simp [hne]
  · exact (List.nodup_finRange m).filter _
  · refine List.nodup_cons.mpr ⟨?_, (List.nodup_finRange m).filter _⟩
    simp [hx]

/-- Where the slots of a thread are. -/
theorem Ledger.use_of_held (h : Ledger s) {x : Fin m} (hx : (s.pc a).held = some x) :
    s.use x = .held a := by
  have hmem : x ∈ s.contents (.held a) := by
    simp [hx]
  exact Option.some.inj (h.located.mem_iff.mp hmem)

theorem Ledger.use_of_builds (h : Ledger s) {x : Fin m} (hx : (s.pc a).builds = some x) :
    s.use x = .building a := by
  have hmem : x ∈ s.contents (.building a) := by
    simp [hx]
  exact Option.some.inj (h.located.mem_iff.mp hmem)

theorem Ledger.use_of_ends (h : Ledger s) {x : Fin m} (hx : (s.pc a).ends = some x) :
    s.use x = .ending a := by
  have hmem : x ∈ s.contents (.ending a) := by
    simp [hx]
  exact Option.some.inj (h.located.mem_iff.mp hmem)

/-- The slot a thread has in a place, if it has none elsewhere. -/
def Pc.hasOnly (a : Agent n κ) (pc : Pc n m) (use : Use n κ) (x : Fin m) : Prop :=
  pc.held = (if use = .held a then some x else none) ∧
    pc.builds = (if use = .building a then some x else none) ∧
      pc.ends = (if use = .ending a then some x else none)

/-- A slot goes from one place to another, where the thread that moves it has it in its own hands or
in a list that the step changes accordingly. -/
theorem Ledger.located_passed (h : Ledger s) {x : Fin m} {old new : Use n κ}
    (hpc : s'.pc = Function.update s.pc a p) (huse : s'.use = Function.update s.use x new)
    (hold : s.use x = old) (hne : old ≠ new) (hfrom : (s.pc a).hasOnly a old x)
    (hto : p.hasOnly a new x)
    (hfree : old ≠ .free → new ≠ .free → s'.free = s.free)
    (hfreeOut : old = .free → (s.free).Perm (x :: s'.free))
    (hfreeIn : new = .free → (s'.free).Perm (x :: s.free))
    (hcached : ∀ w, old ≠ .cached w → new ≠ .cached w → s'.cached w = s.cached w)
    (hcachedOut : ∀ w, old = .cached w → (s.cached w).Perm (x :: s'.cached w))
    (hcachedIn : ∀ w, new = .cached w → (s'.cached w).Perm (x :: s.cached w))
    (hagentOld : ∀ b, b ≠ a → old ≠ .held b ∧ old ≠ .building b ∧ old ≠ .ending b)
    (hagentNew : ∀ b, b ≠ a → new ≠ .held b ∧ new ≠ .building b ∧ new ≠ .ending b) :
    Located s'.contents fun i ↦ some (s'.use i) := by
  obtain ⟨hheld, hbuilds, hends⟩ := hfrom
  obtain ⟨hheld', hbuilds', hends'⟩ := hto
  have hself : s'.pc a = p := by
    rw [hpc, Function.update_self]
  refine h.located_moved hold hne huse ?_ ?_ ?_
  · cases old with
    | free => exact hfreeOut rfl
    | cached w => exact hcachedOut w rfl
    | live =>
      have hback : s.use = Function.update s'.use x .live := by
        rw [huse, Function.update_idem, ← hold, Function.update_eq_self]
      simp only [State.contents]
      rw [hback]
      refine live_perm ?_
      rw [huse, Function.update_self]
      exact hne.symm
    | held b =>
      rcases eq_or_ne b a with rfl | hb
      · simp [hself, hheld, hheld', hne.symm]
      · exact absurd rfl (hagentOld b hb).1
    | building b =>
      rcases eq_or_ne b a with rfl | hb
      · simp [hself, hbuilds, hbuilds', hne.symm]
      · exact absurd rfl (hagentOld b hb).2.1
    | ending b =>
      rcases eq_or_ne b a with rfl | hb
      · simp [hself, hends, hends', hne.symm]
      · exact absurd rfl (hagentOld b hb).2.2
  · cases new with
    | free => exact hfreeIn rfl
    | cached w => exact hcachedIn w rfl
    | live =>
      simp only [State.contents]
      rw [huse]
      exact live_perm (by rw [hold]; exact hne)
    | held b =>
      rcases eq_or_ne b a with rfl | hb
      · simp [hself, hheld, hheld', hne]
      · exact absurd rfl (hagentNew b hb).1
    | building b =>
      rcases eq_or_ne b a with rfl | hb
      · simp [hself, hbuilds, hbuilds', hne]
      · exact absurd rfl (hagentNew b hb).2.1
    | ending b =>
      rcases eq_or_ne b a with rfl | hb
      · simp [hself, hends, hends', hne]
      · exact absurd rfl (hagentNew b hb).2.2
  · intro r hr hr'
    refine contents_frame hpc ?_ ?_ ?_ ?_ ?_ ?_
    · rintro rfl
      exact hfree hr.symm hr'.symm
    · rintro w rfl
      exact hcached w hr.symm hr'.symm
    · rintro rfl i
      rw [huse]
      rcases eq_or_ne i x with rfl | hi
      · simp [hold, hr.symm, hr'.symm]
      · rw [Function.update_of_ne hi]
    · rintro rfl
      rw [hheld, hheld', if_neg hr.symm, if_neg hr'.symm]
    · rintro rfl
      rw [hbuilds, hbuilds', if_neg hr.symm, if_neg hr'.symm]
    · rintro rfl
      rw [hends, hends', if_neg hr.symm, if_neg hr'.symm]

/-- A slot goes from a thread's hands, or from the tasks, to the thread's hands or the tasks. -/
theorem Ledger.located_own (h : Ledger s) {x : Fin m} {old new : Use n κ}
    (hpc : s'.pc = Function.update s.pc a p) (huse : s'.use = Function.update s.use x new)
    (hfree : s'.free = s.free) (hcache : s'.cache = s.cache) (hhanded : p.handed = (s.pc a).handed)
    (hold : s.use x = old) (hne : old ≠ new) (hfrom : (s.pc a).hasOnly a old x)
    (hto : p.hasOnly a new x)
    (holds : old = .held a ∨ old = .building a ∨ old = .ending a ∨ old = .live)
    (hnews : new = .held a ∨ new = .building a ∨ new = .ending a ∨ new = .live) :
    Located s'.contents fun i ↦ some (s'.use i) := by
  refine h.located_passed hpc huse hold hne hfrom hto (fun _ _ ↦ hfree) ?_ ?_ ?_ ?_ ?_ ?_ ?_
  · rintro rfl
    simp at holds
  · rintro rfl
    simp at hnews
  · exact fun w _ _ ↦ cached_frame (congrFun hcache w) (handed_frame hpc hhanded)
  · rintro w rfl
    simp at holds
  · rintro w rfl
    simp at hnews
  · intro b hb
    rcases holds with rfl | rfl | rfl | rfl <;> simp [hb.symm]
  · intro b hb
    rcases hnews with rfl | rfl | rfl | rfl <;> simp [hb.symm]

/-! ### Locks, caches and stacks -/

/-- The locks stay as they are. -/
theorem Ledger.locks_same (h : Ledger s) (hpc : s'.pc = Function.update s.pc a p)
    (hlock : s'.lock = s.lock) (hp : p.locks a = (s.pc a).locks a) :
    ∀ b w, (s'.pc b).locks b = some w → s'.lock w = some b := by
  intro b w hb
  rw [hpc] at hb
  rw [hlock]
  rcases eq_or_ne b a with rfl | hne
  · rw [Function.update_self, hp] at hb
    exact h.locks b w hb
  · rw [Function.update_of_ne hne] at hb
    exact h.locks b w hb

/-- A thread takes a lock. -/
theorem Ledger.locks_acquired (h : Ledger s) {v : Fin n} (hpc : s'.pc = Function.update s.pc a p)
    (hfree : s.lock v = none) (hlock : s'.lock = Function.update s.lock v (some a))
    (hp : p.locks a = some v) : ∀ b w, (s'.pc b).locks b = some w → s'.lock w = some b := by
  intro b w hb
  rw [hpc] at hb
  rw [hlock]
  rcases eq_or_ne b a with rfl | hne
  · rw [Function.update_self, hp] at hb
    cases hb
    rw [Function.update_self]
  · rw [Function.update_of_ne hne] at hb
    have hw := h.locks b w hb
    have hwv : w ≠ v := by
      rintro rfl
      rw [hfree] at hw
      nomatch hw
    rw [Function.update_of_ne hwv]
    exact hw

/-- A thread gives a lock back. -/
theorem Ledger.locks_released (h : Ledger s) {v : Fin n} (hpc : s'.pc = Function.update s.pc a p)
    (hheld : (s.pc a).locks a = some v) (hlock : s'.lock = Function.update s.lock v none)
    (hp : p.locks a = none) : ∀ b w, (s'.pc b).locks b = some w → s'.lock w = some b := by
  intro b w hb
  rw [hpc] at hb
  rw [hlock]
  rcases eq_or_ne b a with rfl | hne
  · rw [Function.update_self, hp] at hb
    nomatch hb
  · rw [Function.update_of_ne hne] at hb
    have hw := h.locks b w hb
    have hwv : w ≠ v := by
      rintro rfl
      rw [h.locks a w hheld] at hw
      exact hne (Option.some.inj hw).symm
    rw [Function.update_of_ne hwv]
    exact hw

/-- The caches stay as they are. -/
theorem Ledger.fits_same (h : Ledger s) (hpc : s'.pc = Function.update s.pc a p)
    (hcache : s'.cache = s.cache) (hp : ∀ w, a = .worker w → (s.pc a).fits (s.cache w).length →
      p.fits (s.cache w).length) : ∀ w, (s'.pc (.worker w)).fits (s'.cache w).length := by
  intro w
  rw [hpc, hcache]
  rcases eq_or_ne (.worker w) a with rfl | hne
  · rw [Function.update_self]
    exact hp w rfl (h.fits w)
  · rw [Function.update_of_ne hne]
    exact h.fits w

omit [DecidableEq κ] in
/-- What may be in a cache when its owner does not hold its lock. -/
theorem Pc.fits_of_length {q : Pc n m} {w : Fin n} (hq : q.locks (Agent.worker (κ := κ) w) ≠ some w)
    {length : ℕ} (hlength : length ≤ capacity) : q.fits length := by
  cases q <;> first | exact hlength | exact absurd rfl hq

/-- A thread that holds the lock of a cache changes it. -/
theorem Ledger.fits_changed (h : Ledger s) {v : Fin n} {slots : List (Fin m)}
    (hpc : s'.pc = Function.update s.pc a p) (hlocked : (s.pc a).locks a = some v)
    (hcache : s'.cache = Function.update s.cache v slots) (hlength : slots.length ≤ capacity)
    (hself : a = .worker v → p.fits slots.length)
    (hother : ∀ w, a = .worker w → w ≠ v → p.fits (s.cache w).length) :
    ∀ w, (s'.pc (.worker w)).fits (s'.cache w).length := by
  intro w
  rcases eq_or_ne w v with rfl | hw
  · have hnow : s'.cache w = slots := by
      rw [hcache, Function.update_self]
    rw [hnow, hpc]
    rcases eq_or_ne (.worker w) a with rfl | hne
    · rw [Function.update_self]
      exact hself rfl
    · rw [Function.update_of_ne hne]
      refine Pc.fits_of_length (κ := κ) (w := w) ?_ hlength
      intro howner
      have hlock := h.locks _ w howner
      rw [h.locks a w hlocked] at hlock
      exact hne (Option.some.inj hlock).symm
  · have hnow : s'.cache w = s.cache w := by
      rw [hcache, Function.update_of_ne hw]
    rw [hnow, hpc]
    rcases eq_or_ne (.worker w) a with rfl | hne
    · rw [Function.update_self]
      exact hother w rfl hw
    · rw [Function.update_of_ne hne]
      exact h.fits w

/-- The stacks, if the thread's own task keeps its stack or gives it back. -/
theorem Ledger.stack_of (h : Ledger s) (hpc : s'.pc = Function.update s.pc a p)
    (hnew : ∀ i, s'.stack i = true → s.stack i = true ∨ p.stacked = some i)
    (hlive : ∀ i, s.use i = .live → s'.stack i = true → s'.use i = .live ∨ p.stacked = some i)
    (hown : ∀ i, (s.pc a).stacked = some i → s'.stack i = true →
      s'.use i = .live ∨ p.stacked = some i) :
    ∀ i, s'.stack i = true → s'.use i = .live ∨ ∃ b, (s'.pc b).stacked = some i := by
  intro i hi
  have hself (hp : p.stacked = some i) : ∃ b, (s'.pc b).stacked = some i :=
    ⟨a, by rw [hpc, Function.update_self, hp]⟩
  rcases hnew i hi with hold | hp
  · rcases h.stack i hold with huse | ⟨b, hb⟩
    · exact (hlive i huse hi).imp_right hself
    · rcases eq_or_ne b a with rfl | hne
      · exact (hown i hb hi).imp_right hself
      · refine Or.inr ⟨b, ?_⟩
        rw [hpc, Function.update_of_ne hne]
        exact hb
  · exact Or.inr (hself hp)

/-- What the calls have written. -/
theorem Ledger.wrote_of (h : Ledger s) (hpc : s'.pc = Function.update s.pc a p)
    (hother : ∀ b, b ≠ a → s'.wrote b = s.wrote b) (hself : s'.wrote a = true → p.mayWrite = true) :
    ∀ b, s'.wrote b = true → (s'.pc b).mayWrite = true := by
  intro b hb
  rw [hpc]
  rcases eq_or_ne b a with rfl | hne
  · rw [Function.update_self]
    exact hself hb
  · rw [Function.update_of_ne hne]
    rw [hother b hne] at hb
    exact h.wrote b hb

/-! ### One step -/

/-- Two places of a thread that are alike for the slots, the locks and the stacks. -/
structure Pc.Like (a : Agent n κ) (old new : Pc n m) : Prop where
  held : new.held = old.held
  builds : new.builds = old.builds
  ends : new.ends = old.ends
  handed : new.handed = old.handed
  stacked : new.stacked = old.stacked
  locks : new.locks a = old.locks a
  mayWrite : old.mayWrite = true → new.mayWrite = true

/-- A thread moves, and nothing else. -/
theorem Ledger.quiet (h : Ledger s) {q : Pc n m} (hq : s.pc a = q) (hlike : Pc.Like a q p)
    (hfits : ∀ w, a = .worker w → q.fits (s.cache w).length → p.fits (s.cache w).length)
    (hpc : s'.pc = Function.update s.pc a p) (hfree : s'.free = s.free)
    (hcache : s'.cache = s.cache) (hlock : s'.lock = s.lock) (huse : s'.use = s.use)
    (hstack : s'.stack = s.stack) (hwrote : s'.wrote = s.wrote) : Ledger s' := by
  subst hq
  refine ⟨?_, ?_, ?_, ?_, ?_⟩
  · exact h.located_quiet hpc hfree hcache huse hlike.held hlike.builds hlike.ends hlike.handed
  · exact h.locks_same hpc hlock hlike.locks
  · exact h.fits_same hpc hcache hfits
  · refine h.stack_of hpc (fun i hi ↦ Or.inl (by rwa [hstack] at hi)) ?_ ?_
    · intro i hi _
      rw [huse]
      exact Or.inl hi
    · intro i hi _
      rw [hlike.stacked]
      exact Or.inr hi
  · refine h.wrote_of hpc (fun b _ ↦ by rw [hwrote]) fun hb ↦ ?_
    rw [hwrote] at hb
    exact hlike.mayWrite (h.wrote a hb)

/-- A thread takes a lock. -/
theorem Ledger.acquireLock (h : Ledger s) {q : Pc n m} (hq : s.pc a = q) {v : Fin n} (hstep : s.acquireLock a v p = some s')
    (hlocks : p.locks a = some v) (hheld : p.held = q.held)
    (hbuilds : p.builds = q.builds) (hends : p.ends = q.ends)
    (hhanded : p.handed = q.handed) (hstacked : p.stacked = q.stacked)
    (hfits : ∀ length, q.fits length → p.fits length)
    (hwrite : q.mayWrite = true → p.mayWrite = true) : Ledger s' := by
  subst hq
  unfold State.acquireLock at hstep
  split_ifs at hstep with hfree
  obtain rfl := Option.some.inj hstep
  refine ⟨?_, ?_, ?_, ?_, ?_⟩
  · exact h.located_quiet rfl rfl rfl rfl hheld hbuilds hends hhanded
  · exact h.locks_acquired rfl hfree rfl hlocks
  · exact h.fits_same rfl rfl fun w _ ↦ hfits _
  · refine h.stack_of rfl (fun i hi ↦ Or.inl hi) (fun i hi _ ↦ Or.inl hi) ?_
    intro i hi _
    rw [hstacked]
    exact Or.inr hi
  · exact h.wrote_of rfl (fun _ _ ↦ rfl) fun hb ↦ hwrite (h.wrote a hb)

omit [DecidableEq κ] in
/-- No cache holds more than fits. -/
theorem Pc.fits_le {q : Pc n m} {length : ℕ} (h : q.fits length) : length ≤ capacity := by
  cases q with
  | refill => exact (show length < batch from h).le.trans (by decide)
  | handBack i slot after => exact (show length = capacity ∧ i ≤ batch from h).1.le
  | putStore slot after => exact (show length < capacity from h).le
  | _ => exact h

/-- A slot goes from a thread's hands, or from the tasks, to the thread's hands or the tasks. -/
theorem Ledger.passes (h : Ledger s) {q : Pc n m} (hq : s.pc a = q) {x : Fin m} {old new : Use n κ}
    (hpc : s'.pc = Function.update s.pc a p) (huse : s'.use = Function.update s.use x new)
    (hfree : s'.free = s.free) (hcache : s'.cache = s.cache) (hstack : s'.stack = s.stack)
    (hold : s.use x = old) (hne : old ≠ new) (hfrom : q.hasOnly a old x)
    (hto : p.hasOnly a new x) (hhanded : p.handed = q.handed)
    (holds : old = .held a ∨ old = .building a ∨ old = .ending a ∨ old = .live)
    (hnews : new = .held a ∨ new = .building a ∨ new = .ending a ∨ new = .live)
    (hlocks : ∀ b w, (s'.pc b).locks b = some w → s'.lock w = some b)
    (hfits : ∀ length, length ≤ capacity → p.fits length)
    (hlive : old = .live → p.stacked = some x)
    (hown : ∀ i, q.stacked = some i → i = x ∧ new = .live)
    (hwrote : ∀ b, s'.wrote b = true → (s'.pc b).mayWrite = true) : Ledger s' := by
  subst hq
  refine ⟨?_, hlocks, ?_, ?_, hwrote⟩
  · exact h.located_own hpc huse hfree hcache hhanded hold hne hfrom hto holds hnews
  · exact h.fits_same hpc hcache fun w _ hw ↦ hfits _ (Pc.fits_le hw)
  · refine h.stack_of hpc (fun i hi ↦ Or.inl (by rwa [hstack] at hi)) ?_ ?_
    · intro i hi _
      rcases eq_or_ne i x with rfl | hix
      · exact Or.inr (hlive (hold.symm.trans hi))
      · left
        rw [huse, Function.update_of_ne hix]
        exact hi
    · intro i hi _
      obtain ⟨rfl, rfl⟩ := hown i hi
      left
      rw [huse, Function.update_self]

/-- A slot that is not a task's goes elsewhere, by a thread that has no stack. -/
theorem Ledger.moves (h : Ledger s) {x : Fin m} {new : Use n κ}
    (hpc : s'.pc = Function.update s.pc a p) (huse : s'.use = Function.update s.use x new)
    (hlive : s.use x ≠ .live) (hlocated : Located s'.contents fun i ↦ some (s'.use i))
    (hlocks : ∀ b w, (s'.pc b).locks b = some w → s'.lock w = some b)
    (hfits : ∀ w, (s'.pc (.worker w)).fits (s'.cache w).length) (hstack : s'.stack = s.stack)
    (hown : (s.pc a).stacked = none) (hwrote : s'.wrote = s.wrote)
    (hwrite : (s.pc a).mayWrite = true → p.mayWrite = true) : Ledger s' := by
  refine ⟨hlocated, hlocks, hfits, ?_, ?_⟩
  · refine h.stack_of hpc (fun i hi ↦ Or.inl (by rwa [hstack] at hi)) ?_ ?_
    · intro i hi _
      left
      have hix : i ≠ x := by
        rintro rfl
        exact hlive hi
      rw [huse, Function.update_of_ne hix]
      exact hi
    · intro i hi
      rw [hown] at hi
      nomatch hi
  · refine h.wrote_of hpc (fun b _ ↦ by rw [hwrote]) fun hb ↦ ?_
    rw [hwrote] at hb
    exact hwrite (h.wrote a hb)

/-- The first slot of the free list. -/
theorem Ledger.use_of_free (h : Ledger s) {x : Fin m} (hx : x ∈ s.free) : s.use x = .free :=
  Option.some.inj (h.located.mem_iff.mp (show x ∈ s.contents .free from hx))

/-- The slots of a cache. -/
theorem Ledger.use_of_cached (h : Ledger s) {x : Fin m} {w : Fin n} (hx : x ∈ s.cached w) :
    s.use x = .cached w :=
  Option.some.inj (h.located.mem_iff.mp (show x ∈ s.contents (.cached w) from hx))

attribute [local simp] Pc.hasOnly Pc.held Pc.builds Pc.ends Pc.handed Pc.stacked

/-- A slot goes from the free list to a thread that builds its task. -/
theorem Ledger.popped (h : Ledger s) {q : Pc n m} (hq : s.pc a = q) {x : Fin m} {rest : List (Fin m)} (hfree : s.free = x :: rest)
    (hfrom : q.held = none ∧ q.builds = none ∧ q.ends = none)
    (hhanded : q.handed = 0) (hstacked : q.stacked = none)
    (hlocks : q.locks a = none) (hwrite : q.mayWrite = false) :
    Ledger (State.acquired a x { s with free := rest }) := by
  subst hq
  have huse : s.use x = .free := h.use_of_free (by simp [hfree])
  refine h.moves (p := .allocate x) rfl rfl (by simp [huse]) ?_ ?_ ?_ rfl hstacked rfl
    (by simp [hwrite])
  · refine h.located_passed (p := .allocate x) rfl rfl huse (by simp) ?_ ?_ (by simp) ?_ (by simp)
      ?_ (by simp) (by simp) (by simp) ?_
    · simpa using hfrom
    · simp
    · intro _
      rw [hfree]
      exact List.Perm.refl _
    · exact fun w _ _ ↦ cached_frame rfl (handed_frame (p := .allocate x) rfl hhanded.symm)
    · exact fun b hb ↦ by simp [hb.symm]
  · exact h.locks_same (p := .allocate x) rfl rfl (by rw [hlocks]; rfl)
  · exact h.fits_same (p := .allocate x) rfl rfl fun w _ hw ↦ Pc.fits_le hw

/-- A worker that fills its cache takes a slot from the free list. -/
theorem Ledger.refilled (h : Ledger s) {w : Fin n} {x : Fin m} {rest : List (Fin m)}
    (hfree : s.free = x :: rest) (hpc : s.pc (.worker w) = .refill)
    (hp : p = if (s.cache w).length + 1 < batch then .refill else .takeOwn) :
    Ledger (({ s with free := rest }.cachePush w x).goto (.worker w) p) := by
  have huse : s.use x = .free := h.use_of_free (by simp [hfree])
  have hlength : (s.cache w).length < batch := by
    have := h.fits w
    rwa [hpc] at this
  have hnew : p.held = none ∧ p.builds = none ∧ p.ends = none ∧ p.handed = 0 ∧
      p.locks (Agent.worker (κ := κ) w) = some w ∧ p.mayWrite = false ∧
        p.fits ((s.cache w).length + 1) := by
    subst hp
    split_ifs with hroom
    · exact ⟨rfl, rfl, rfl, rfl, rfl, rfl, hroom⟩
    · exact ⟨rfl, rfl, rfl, rfl, rfl, rfl, (show _ ≤ batch from hlength).trans (by decide)⟩
  obtain ⟨hheld, hbuilds, hends, hhanded, hlocks, hwrite, hfits⟩ := hnew
  have hcached : ∀ v, v ≠ w →
      State.cached (({ s with free := rest }.cachePush w x).goto (.worker w) p) v = s.cached v := by
    intro v hv
    refine cached_frame ?_ (handed_frame (p := p) (a := .worker w) rfl (by rw [hpc, hhanded]; rfl))
    simp only [State.goto, State.cachePush, State.pass, Function.update_of_ne hv]
  refine h.moves (p := p) (a := .worker w) rfl rfl (by simp [huse]) ?_ ?_ ?_ rfl (by rw [hpc]; rfl)
    rfl (by rw [hpc]; exact nofun)
  · refine h.located_passed (p := p) (a := .worker w) rfl rfl huse (by simp) ?_ ?_ (by simp) ?_
      (by simp) ?_ (by simp) ?_ (by simp) (by simp)
    · simp [hpc]
    · exact ⟨hheld, hbuilds, hends⟩
    · intro _
      rw [hfree]
      exact List.Perm.refl _
    · intro v _ hv
      exact hcached v (by rintro rfl; exact hv rfl)
    · intro v hv
      obtain rfl : w = v := by simpa using hv
      simp only [State.cached, State.goto, State.cachePush, State.pass, Function.update_self, hpc,
        hhanded]
      simp only [Pc.handed, List.drop_zero]
      exact List.perm_append_singleton x (s.cache w)
  · exact h.locks_same (p := p) (a := .worker w) rfl rfl (by rw [hlocks, hpc]; rfl)
  · refine h.fits_changed (p := p) (a := .worker w) (v := w) rfl (by rw [hpc]; rfl) rfl ?_ ?_ ?_
    · simp only [List.length_append, List.length_singleton]
      exact (show _ ≤ batch from hlength).trans (by decide)
    · simp only [List.length_append, List.length_singleton]
      exact fun _ ↦ hfits
    · intro v hv hne
      exact absurd (by simpa using hv.symm) hne

/-- A cache whose lock a thread holds is whole, unless the thread hands it back itself. -/
theorem Ledger.handed_of_locks (h : Ledger s) {w : Fin n} (hlocked : (s.pc a).locks a = some w)
    (hhanded : (s.pc a).handed = 0) : (s.pc (.worker w)).handed = 0 := by
  rcases eq_or_ne (.worker w) a with rfl | hne
  · exact hhanded
  · have howner : (s.pc (.worker w)).locks (Agent.worker (κ := κ) w) ≠ some w := by
      intro howner
      have hlock := h.locks _ w howner
      rw [h.locks a w hlocked] at hlock
      exact hne (Option.some.inj hlock).symm
    cases hpc : s.pc (.worker w) with
    | handBack i slot after =>
      rw [hpc] at howner
      exact absurd rfl howner
    | _ => rfl

/-- A thread that holds the lock of a cache takes the slot at its end, if there is one. -/
theorem Ledger.cacheTake (h : Ledger s) {q : Pc n m} (hq : s.pc a = q) {w : Fin n} {next : Option (Fin m) → Pc n m}
    (hfrom : q.held = none ∧ q.builds = none ∧ q.ends = none)
    (hhanded : q.handed = 0) (hstacked : q.stacked = none)
    (hlocks : q.locks a = some w) (hwrite : q.mayWrite = false)
    (hnext : ∀ got, (next got).held = got ∧ (next got).builds = none ∧ (next got).ends = none ∧
      (next got).handed = 0 ∧ (next got).stacked = none ∧ (next got).locks a = some w ∧
        (∀ length, length ≤ capacity → (next got).fits length)) :
    Ledger (s.cacheTake a w next) := by
  subst hq
  unfold State.cacheTake
  cases hlast : (s.cache w).getLast? with
  | none =>
    obtain ⟨hheld', hbuilds', hends', hhanded', hstacked', hlocks', hfits'⟩ := hnext none
    refine h.quiet (p := next none) (a := a) rfl ⟨?_, ?_, ?_, ?_, ?_, ?_, ?_⟩ ?_ rfl rfl rfl rfl rfl rfl
      rfl
    · rw [hheld', hfrom.1]
    · rw [hbuilds', hfrom.2.1]
    · rw [hends', hfrom.2.2]
    · rw [hhanded', hhanded]
    · rw [hstacked', hstacked]
    · rw [hlocks', hlocks]
    · simp [hwrite]
    · exact fun v _ hv ↦ hfits' _ (Pc.fits_le hv)
  | some x =>
    obtain ⟨hheld', hbuilds', hends', hhanded', hstacked', hlocks', hfits'⟩ := hnext (some x)
    have hcache : (s.cache w).dropLast ++ [x] = s.cache w :=
      List.dropLast_append_getLast? x hlast
    have hwhole := h.handed_of_locks hlocks hhanded
    have hcached : s.cached w = s.cache w := by
      rw [State.cached, hwhole, List.drop_zero]
    have huse : s.use x = .cached w := by
      refine h.use_of_cached ?_
      rw [hcached, ← hcache]
      simp
    have hafter (v : Fin n) : (Function.update s.pc a (next (some x)) (.worker v)).handed =
        (s.pc (.worker v)).handed := by
      rcases eq_or_ne (.worker v) a with rfl | hne
      · rw [Function.update_self, hhanded', hhanded]
      · rw [Function.update_of_ne hne]
    refine h.moves (p := next (some x)) (a := a) rfl rfl (by simp [huse]) ?_ ?_ ?_ rfl hstacked rfl
      (by simp [hwrite])
    · refine h.located_passed (p := next (some x)) (a := a) rfl rfl huse (by simp) ?_ ?_
        (fun _ _ ↦ rfl) (by simp) (by simp) ?_ ?_ (by simp) (by simp) ?_
      · simpa using hfrom
      · exact ⟨hheld'.trans (if_pos rfl).symm, hbuilds', hends'⟩
      · intro v hv _
        refine cached_frame ?_ (hafter v)
        have hvw : v ≠ w := by
          rintro rfl
          exact hv rfl
        simp only [State.goto, State.pass, Function.update_of_ne hvw]
      · intro v hv
        obtain rfl : w = v := by simpa using hv
        have hnow : State.cached
            (({ s with cache := Function.update s.cache w (s.cache w).dropLast }.pass x
              (.held a)).goto a (next (some x))) w = (s.cache w).dropLast := by
          simp only [State.cached, State.goto, State.pass, Function.update_self]
          rw [hafter w, hwhole, List.drop_zero]
        rw [hnow, hcached]
        nth_rewrite 1 [← hcache]
        exact List.perm_append_singleton x _
      · exact fun b hb ↦ by simp [hb.symm]
    · exact h.locks_same (p := next (some x)) (a := a) rfl rfl (by rw [hlocks', hlocks])
    · have hlength : (s.cache w).dropLast.length ≤ capacity := by
        rw [List.length_dropLast]
        exact (Nat.sub_le _ _).trans (Pc.fits_le (h.fits w))
      refine h.fits_changed (p := next (some x)) (a := a) (v := w) rfl hlocks rfl hlength ?_ ?_
      · exact fun _ ↦ hfits' _ hlength
      · exact fun v _ _ ↦ hfits' _ (Pc.fits_le (h.fits v))

/-- A worker puts a slot into its cache. -/
theorem Ledger.putStore (h : Ledger s) {w : Fin n} {x : Fin m} {after : After}
    (hpc : s.pc (.worker w) = .putStore x after) :
    Ledger ((s.cachePush w x).goto (.worker w) (.putUnlock after)) := by
  have hheld : (s.pc (.worker w)).held = some x := by
    rw [hpc]
    rfl
  have huse := h.use_of_held hheld
  have hlength : (s.cache w).length < capacity := by
    have := h.fits w
    rwa [hpc] at this
  refine h.moves (p := .putUnlock after) (a := .worker w) rfl rfl (by simp [huse]) ?_ ?_ ?_ rfl
    (by rw [hpc]; rfl) rfl ?_
  · refine h.located_passed (p := .putUnlock after) (a := .worker w) rfl rfl huse (by simp) ?_ ?_
      (fun _ _ ↦ rfl) (by simp) (by simp) ?_ (by simp) ?_ ?_ (by simp)
    · simp [hpc]
    · simp
    · intro v _ hv
      refine cached_frame ?_ (handed_frame (p := .putUnlock after) (a := .worker w) rfl
        (by rw [hpc]; rfl))
      have hvw : v ≠ w := by
        rintro rfl
        exact hv rfl
      simp only [State.goto, State.cachePush, State.pass, Function.update_of_ne hvw]
    · intro v hv
      obtain rfl : w = v := by simpa using hv
      simp only [State.cached, State.goto, State.cachePush, State.pass, Function.update_self, hpc]
      simp only [Pc.handed, List.drop_zero]
      exact List.perm_append_singleton x (s.cache w)
    · exact fun b hb ↦ by simp [hb.symm]
  · exact h.locks_same (p := .putUnlock after) (a := .worker w) rfl rfl (by rw [hpc]; rfl)
  · have hnew : (s.cache w ++ [x]).length ≤ capacity := by
      simp only [List.length_append, List.length_singleton]
      exact hlength
    refine h.fits_changed (p := .putUnlock after) (a := .worker w) (v := w) rfl (by rw [hpc]; rfl)
      rfl hnew (fun _ ↦ hnew) ?_
    intro v hv hne
    exact absurd (by simpa using hv.symm) hne
  · rw [hpc]
    cases after <;> exact id

/-- A thread puts a slot into the free list. -/
theorem Ledger.putFree (h : Ledger s) {k : κ} {x : Fin m} {after : After}
    (hpc : s.pc (.foreign k) = .putFree x after) :
    Ledger ((s.freePush x).goto (.foreign k) after.pc) := by
  have hheld : (s.pc (.foreign k)).held = some x := by
    rw [hpc]
    rfl
  have huse := h.use_of_held hheld
  have hnew : (after.pc : Pc n m).held = none ∧ (after.pc : Pc n m).builds = none ∧
      (after.pc : Pc n m).ends = none ∧ (after.pc : Pc n m).handed = 0 := by
    cases after <;> exact ⟨rfl, rfl, rfl, rfl⟩
  refine h.moves (p := after.pc) (a := .foreign k) rfl rfl (by simp [huse]) ?_ ?_ ?_ rfl
    (by rw [hpc]; rfl) rfl ?_
  · refine h.located_passed (p := after.pc) (a := .foreign k) rfl rfl huse (by simp) ?_ ?_
      (by simp) (by simp) ?_ ?_ (by simp) (by simp) ?_ (by simp)
    · simp [hpc]
    · exact ⟨hnew.1, hnew.2.1, hnew.2.2.1⟩
    · intro _
      exact List.perm_append_singleton x s.free
    · intro v _ _
      exact cached_frame rfl (handed_frame (p := after.pc) (a := .foreign k) rfl
        (by rw [hpc, hnew.2.2.2]; rfl))
    · exact fun b hb ↦ by simp [hb.symm]
  · exact h.locks_same (p := after.pc) (a := .foreign k) rfl rfl (by rw [hpc]; cases after <;> rfl)
  · refine h.fits_same (p := after.pc) (a := .foreign k) rfl rfl fun w _ hw ↦ ?_
    cases after <;> exact Pc.fits_le hw
  · rw [hpc]
    cases after <;> exact id

/-- A worker hands one slot of its full cache back. -/
theorem Ledger.handBack (h : Ledger s) {w : Fin n} {i : ℕ} {x y : Fin m} {after : After}
    (hpc : s.pc (.worker w) = .handBack i x after) (hi : i < batch) (hy : (s.cache w)[i]? = some y) :
    Ledger ((s.freePush y).goto (.worker w) (.handBack (i + 1) x after)) := by
  have hfits := h.fits w
  rw [hpc] at hfits
  have hdrop : (s.cache w).drop i = y :: (s.cache w).drop (i + 1) := by
    obtain ⟨hlt, rfl⟩ := List.getElem?_eq_some_iff.mp hy
    exact List.drop_eq_getElem_cons hlt
  have hcached : s.cached w = y :: (s.cache w).drop (i + 1) := by
    rw [State.cached, hpc]
    exact hdrop
  have huse : s.use y = .cached w := h.use_of_cached (by rw [hcached]; simp)
  refine h.moves (p := .handBack (i + 1) x after) (a := .worker w) rfl rfl (by simp [huse]) ?_ ?_ ?_
    rfl (by rw [hpc]; rfl) rfl ?_
  · refine h.located_moved huse (by simp) rfl ?_ ?_ ?_
    · simp only [State.contents]
      rw [hcached]
      simp only [State.cached, State.freePush, State.pass, State.goto, Function.update_self]
      exact List.Perm.refl _
    · exact List.perm_append_singleton y s.free
    · intro r hr hr'
      refine contents_frame (p := .handBack (i + 1) x after) (a := .worker w) rfl ?_ ?_ ?_ ?_ ?_ ?_
      · exact fun hfree ↦ absurd hfree hr'
      · rintro v rfl
        have hvw : Agent.worker (κ := κ) v ≠ .worker w := by
          rintro hvw
          cases hvw
          exact hr rfl
        refine cached_frame rfl ?_
        simp only [State.freePush, State.pass, State.goto, Function.update_of_ne hvw]
      · rintro rfl j
        rcases eq_or_ne j y with rfl | hj
        · simp [State.freePush, State.pass, State.goto, huse]
        · simp only [State.freePush, State.pass, State.goto, Function.update_of_ne hj]
      · exact fun _ ↦ by rw [hpc]; rfl
      · exact fun _ ↦ by rw [hpc]; rfl
      · exact fun _ ↦ by rw [hpc]; rfl
  · exact h.locks_same (p := .handBack (i + 1) x after) (a := .worker w) rfl rfl (by rw [hpc]; rfl)
  · refine h.fits_same (p := .handBack (i + 1) x after) (a := .worker w) rfl rfl fun v _ hv ↦ ?_
    rw [hpc] at hv
    exact ⟨hv.1, hi⟩
  · rw [hpc]
    cases after <;> exact id

/-- A worker has handed half of its full cache back. -/
theorem Ledger.handedBack (h : Ledger s) {w : Fin n} {i : ℕ} {x : Fin m} {after : After}
    (hpc : s.pc (.worker w) = .handBack i x after) (hi : ¬ i < batch) :
    Ledger ({ s with cache := Function.update s.cache w ((s.cache w).drop batch) }.goto (.worker w)
      (.putStore x after)) := by
  have hfits := h.fits w
  rw [hpc] at hfits
  obtain ⟨hfull, hle⟩ := hfits
  obtain rfl : i = batch := le_antisymm hle (Nat.le_of_not_lt hi)
  have hcontents : State.contents ({ s with
      cache := Function.update s.cache w ((s.cache w).drop batch) }.goto (.worker w)
        (.putStore x after)) = s.contents := by
    funext r
    refine contents_frame (p := .putStore x after) (a := .worker w) rfl (fun _ ↦ rfl) ?_
      (fun _ _ ↦ Iff.rfl) ?_ ?_ ?_
    · intro v _
      rcases eq_or_ne v w with rfl | hv
      · simp only [State.cached, State.goto, Function.update_self, hpc, Pc.handed, List.drop_zero]
      · have hvw : Agent.worker (κ := κ) v ≠ .worker w := by simpa using hv
        simp only [State.cached, State.goto, Function.update_of_ne hv, Function.update_of_ne hvw]
    · exact fun _ ↦ by rw [hpc]; rfl
    · exact fun _ ↦ by rw [hpc]; rfl
    · exact fun _ ↦ by rw [hpc]; rfl
  have hlength : ((s.cache w).drop batch).length < capacity := by
    rw [List.length_drop, hfull]
    decide
  refine ⟨?_, ?_, ?_, ?_, ?_⟩
  · rw [hcontents]
    exact h.located
  · exact h.locks_same (p := .putStore x after) (a := .worker w) rfl rfl (by rw [hpc]; rfl)
  · refine h.fits_changed (p := .putStore x after) (a := .worker w) (v := w) rfl (by rw [hpc]; rfl)
      rfl hlength.le (fun _ ↦ hlength) ?_
    intro v hv hne
    exact absurd (by simpa using hv.symm) hne
  · refine h.stack_of (p := .putStore x after) (a := .worker w) rfl (fun i hi ↦ Or.inl hi)
      (fun i hi _ ↦ Or.inl hi) ?_
    intro i hi
    rw [hpc] at hi
    nomatch hi
  · refine h.wrote_of (p := .putStore x after) (a := .worker w) rfl (fun _ _ ↦ rfl) fun hb ↦ ?_
    have hwrite := h.wrote _ hb
    rw [hpc] at hwrite
    cases after <;> exact hwrite

/-- A thread that has found nothing in a cache, or put a slot into it, gives the lock back. -/
theorem Ledger.unlock (h : Ledger s) {q : Pc n m} (hq : s.pc a = q) {v : Fin n} (hlocks : q.locks a = some v)
    (hfrom : q.held = none ∧ q.builds = none ∧ q.ends = none ∧
      q.handed = 0 ∧ q.stacked = none)
    (hto : p.held = none ∧ p.builds = none ∧ p.ends = none ∧ p.handed = 0 ∧ p.locks a = none)
    (hfits : ∀ length, length ≤ capacity → p.fits length)
    (hwrite : q.mayWrite = true → p.mayWrite = true) : Ledger ((s.unlock v).goto a p) := by
  subst hq
  obtain ⟨hheld, hbuilds, hends, hhanded, hstacked⟩ := hfrom
  obtain ⟨hheld', hbuilds', hends', hhanded', hlocks'⟩ := hto
  refine ⟨?_, ?_, ?_, ?_, ?_⟩
  · exact h.located_quiet rfl rfl rfl rfl (by rw [hheld, hheld']) (by rw [hbuilds, hbuilds'])
      (by rw [hends, hends']) (by rw [hhanded, hhanded'])
  · exact h.locks_released rfl hlocks rfl hlocks'
  · exact h.fits_same rfl rfl fun w _ hw ↦ hfits _ (Pc.fits_le hw)
  · refine h.stack_of rfl (fun i hi ↦ Or.inl hi) (fun i hi _ ↦ Or.inl hi) ?_
    intro i hi
    rw [hstacked] at hi
    nomatch hi
  · exact h.wrote_of rfl (fun _ _ ↦ rfl) fun hb ↦ hwrite (h.wrote a hb)

/-- A thread that has found a slot in a cache gives the lock back and builds its task. -/
theorem Ledger.unlockAcquired (h : Ledger s) {q : Pc n m} (hq : s.pc a = q) {v : Fin n} {x : Fin m}
    (hlocks : q.locks a = some v) (hfrom : q.hasOnly a (.held a) x)
    (hhanded : q.handed = 0) (hstacked : q.stacked = none)
    (hwrite : q.mayWrite = false) : Ledger ((s.unlock v).acquired a x) := by
  subst hq
  have hheld : (s.pc a).held = some x := by
    rw [hfrom.1, if_pos rfl]
  refine h.passes (p := .allocate x) rfl rfl rfl rfl rfl rfl (h.use_of_held hheld) (by simp) hfrom ?_
    hhanded.symm (by simp) (by simp) ?_ (fun _ hl ↦ hl) (by simp) ?_ ?_
  · simp
  · exact h.locks_released rfl hlocks rfl rfl
  · intro i hi
    rw [hstacked] at hi
    nomatch hi
  · refine h.wrote_of (p := .allocate x) rfl (fun _ _ ↦ rfl) fun hb ↦ ?_
    rw [h.wrote a hb] at hwrite
    nomatch hwrite

/-- What a worker does inside the lock of its own cache, and around it. -/
theorem Ledger.actOwn (h : Ledger s) {w : Fin n} {flag : Bool}
    (hstep : s.actOwn w flag = some s') : Ledger s' := by
  unfold State.actOwn at hstep
  cases hpc : s.pc (.worker w) with
  | lockOwn =>
    simp only [hpc] at hstep
    exact h.acquireLock hpc hstep rfl rfl rfl rfl rfl rfl (fun _ hl ↦ hl) id
  | testOwn =>
    simp only [hpc, Option.some.injEq] at hstep
    subst hstep
    split_ifs with hempty
    · refine h.quiet (p := .refill) hpc ⟨rfl, rfl, rfl, rfl, rfl, rfl, id⟩ ?_ rfl rfl rfl rfl rfl
        rfl rfl
      intro v hv _
      cases hv
      simp [Pc.fits, hempty, batch]
    · exact h.quiet (p := .takeOwn) hpc ⟨rfl, rfl, rfl, rfl, rfl, rfl, id⟩ (fun _ _ hl ↦ hl) rfl rfl
        rfl rfl rfl rfl rfl
  | refill =>
    simp only [hpc, Option.some.injEq, State.popFree] at hstep
    subst hstep
    have hdone : Ledger (s.goto (.worker w) .takeOwn) :=
      h.quiet (p := .takeOwn) hpc ⟨rfl, rfl, rfl, rfl, rfl, rfl, id⟩ (fun _ _ hl ↦ Pc.fits_le hl) rfl
        rfl rfl rfl rfl rfl rfl
    split
    · exact hdone
    · rename_i x rest hfree
      split_ifs with _ hroom
      · exact hdone
      · exact h.refilled hfree hpc (if_pos hroom).symm
      · rename_i hroom
        exact h.refilled hfree hpc (if_neg hroom).symm
  | takeOwn =>
    simp only [hpc, Option.some.injEq] at hstep
    subst hstep
    refine h.cacheTake hpc ⟨rfl, rfl, rfl⟩ rfl rfl rfl rfl fun got ↦ ?_
    exact ⟨rfl, rfl, rfl, rfl, rfl, rfl, fun _ hl ↦ hl⟩
  | unlockOwn got =>
    cases got with
    | none =>
      simp only [hpc, Option.some.injEq] at hstep
      subst hstep
      exact h.unlock hpc rfl ⟨rfl, rfl, rfl, rfl, rfl⟩ ⟨rfl, rfl, rfl, rfl, rfl⟩ (fun _ hl ↦ hl) id
    | some x =>
      simp only [hpc, Option.some.injEq] at hstep
      subst hstep
      refine h.unlockAcquired hpc rfl ?_ rfl rfl rfl
      simp
  | countLoad slot =>
    simp only [hpc, Option.some.injEq] at hstep
    subst hstep
    exact h.quiet (p := .countStore slot (s.created (some w))) hpc
      ⟨rfl, rfl, rfl, rfl, rfl, rfl, id⟩ (fun _ _ hl ↦ hl) rfl rfl rfl rfl rfl rfl rfl
  | countStore slot value =>
    simp only [hpc, Option.some.injEq] at hstep
    subst hstep
    have huse : s.use slot = .building (.worker w) := h.use_of_builds (by rw [hpc]; rfl)
    refine h.passes (p := .idle) hpc rfl rfl rfl rfl rfl huse (by simp) ?_ ?_ rfl (by simp) (by simp)
      ?_ (fun _ hl ↦ hl) (by simp) ?_ ?_
    · simp
    · simp
    · exact h.locks_same (p := .idle) (a := .worker w) rfl rfl (by rw [hpc]; rfl)
    · simp [eq_comm]
    · exact h.wrote_of (p := .idle) (a := .worker w) rfl
        (fun b hb ↦ by simp [State.goto, State.pass, hb]) fun _ ↦ rfl
  | finishLoad slot =>
    simp only [hpc, Option.some.injEq] at hstep
    subst hstep
    exact h.quiet (p := .finishStore slot (s.finished (some w))) hpc
      ⟨rfl, rfl, rfl, rfl, rfl, rfl, id⟩ (fun _ _ hl ↦ hl) rfl rfl rfl rfl rfl rfl rfl
  | finishStore slot value =>
    simp only [hpc, Option.some.injEq] at hstep
    subst hstep
    have huse : s.use slot = .ending (.worker w) := h.use_of_ends (by rw [hpc]; rfl)
    refine h.passes (p := .putLock slot .released) hpc rfl rfl rfl rfl rfl huse (by simp) ?_ ?_ rfl
      (by simp) (by simp) ?_ (fun _ hl ↦ hl) (by simp) (by simp) ?_
    · simp
    · simp
    · exact h.locks_same (p := .putLock slot .released) (a := .worker w) rfl rfl (by rw [hpc]; rfl)
    · exact h.wrote_of (p := .putLock slot .released) (a := .worker w) rfl (fun _ _ ↦ rfl)
        fun _ ↦ rfl
  | putLock slot after =>
    simp only [hpc] at hstep
    refine h.acquireLock hpc hstep rfl rfl rfl rfl rfl rfl (fun _ hl ↦ hl) ?_
    cases after <;> exact id
  | putTest slot after =>
    simp only [hpc, Option.some.injEq] at hstep
    subst hstep
    split_ifs with hfull
    · refine h.quiet (p := .handBack 0 slot after) hpc ⟨rfl, rfl, rfl, rfl, rfl, rfl, ?_⟩ ?_ rfl rfl
        rfl rfl rfl rfl rfl
      · cases after <;> exact id
      · intro v hv _
        cases hv
        exact ⟨hfull, Nat.zero_le _⟩
    · refine h.quiet (p := .putStore slot after) hpc ⟨rfl, rfl, rfl, rfl, rfl, rfl, ?_⟩ ?_ rfl rfl
        rfl rfl rfl rfl rfl
      · cases after <;> exact id
      · intro v hv hl
        cases hv
        exact lt_of_le_of_ne hl hfull
  | handBack i slot after =>
    simp only [hpc] at hstep
    split_ifs at hstep with hi
    · obtain ⟨y, hy, rfl⟩ := Option.map_eq_some_iff.mp hstep
      exact h.handBack hpc hi hy
    · obtain rfl := Option.some.inj hstep
      exact h.handedBack hpc hi
  | putStore slot after =>
    simp only [hpc, Option.some.injEq] at hstep
    subst hstep
    exact h.putStore hpc
  | putUnlock after =>
    simp only [hpc, Option.some.injEq] at hstep
    subst hstep
    cases after
    all_goals
      exact h.unlock hpc rfl ⟨rfl, rfl, rfl, rfl, rfl⟩ ⟨rfl, rfl, rfl, rfl, rfl⟩ (fun _ hl ↦ hl) id
  | _ => simp only [hpc, reduceCtorEq] at hstep

/-- What only a thread that is not a worker does. -/
theorem Ledger.actForeign (h : Ledger s) {k : κ} {flag : Bool}
    (hstep : s.actForeign k flag = some s') : Ledger s' := by
  unfold State.actForeign at hstep
  cases hpc : s.pc (.foreign k) with
  | popFirst =>
    simp only [hpc, Option.some.injEq, State.popFree] at hstep
    subst hstep
    have hmissed : Ledger (s.goto (.foreign k) (.raidLock (List.finRange n))) :=
      h.quiet (p := .raidLock (List.finRange n)) hpc ⟨rfl, rfl, rfl, rfl, rfl, rfl, id⟩
        (fun _ _ hl ↦ hl) rfl rfl rfl rfl rfl rfl rfl
    split
    · exact hmissed
    · rename_i x rest hfree
      split_ifs
      · exact hmissed
      · exact h.popped hpc hfree ⟨rfl, rfl, rfl⟩ rfl rfl rfl rfl
  | countLoad slot =>
    simp only [hpc, Option.some.injEq] at hstep
    subst hstep
    have huse : s.use slot = .building (.foreign k) := h.use_of_builds (by rw [hpc]; rfl)
    refine h.passes (p := .idle) hpc rfl rfl rfl rfl rfl huse (by simp) ?_ ?_ rfl (by simp) (by simp)
      ?_ (fun _ hl ↦ hl) (by simp) ?_ ?_
    · simp
    · simp
    · exact h.locks_same (p := .idle) (a := .foreign k) rfl rfl (by rw [hpc]; rfl)
    · simp [eq_comm]
    · exact h.wrote_of (p := .idle) (a := .foreign k) rfl
        (fun b hb ↦ by simp [State.goto, State.pass, hb]) fun _ ↦ rfl
  | finishLoad slot =>
    simp only [hpc, Option.some.injEq] at hstep
    subst hstep
    have huse : s.use slot = .ending (.foreign k) := h.use_of_ends (by rw [hpc]; rfl)
    refine h.passes (p := .putFree slot .released) hpc rfl rfl rfl rfl rfl huse (by simp) ?_ ?_ rfl
      (by simp) (by simp) ?_ (fun _ hl ↦ hl) (by simp) (by simp) ?_
    · simp
    · simp
    · exact h.locks_same (p := .putFree slot .released) (a := .foreign k) rfl rfl (by rw [hpc]; rfl)
    · exact h.wrote_of (p := .putFree slot .released) (a := .foreign k) rfl (fun _ _ ↦ rfl)
        fun _ ↦ rfl
  | putFree slot after =>
    simp only [hpc, Option.some.injEq] at hstep
    subst hstep
    exact h.putFree hpc
  | _ => simp only [hpc, reduceCtorEq] at hstep

/-- A thread's stack or its entry in the slot table changes. -/
theorem Ledger.stackOrTable (h : Ledger s) {q : Pc n m} (hq : s.pc a = q) {x : Fin m}
    (hpc : s'.pc = Function.update s.pc a p) (hfree : s'.free = s.free)
    (hcache : s'.cache = s.cache) (hlock : s'.lock = s.lock) (huse : s'.use = s.use)
    (hheld : p.held = q.held) (hbuilds : p.builds = q.builds) (hends : p.ends = q.ends)
    (hhanded : p.handed = q.handed) (hlocks : p.locks a = q.locks a)
    (hfits : ∀ length, q.fits length → p.fits length)
    (hstack : ∀ i, i ≠ x → s'.stack i = s.stack i)
    (hown : s'.stack x = true → s.use x = .live ∨ p.stacked = some x)
    (hq' : ∀ i, q.stacked = some i → i = x)
    (hwrote : ∀ b, s'.wrote b = true → (s'.pc b).mayWrite = true) : Ledger s' := by
  subst hq
  refine ⟨?_, ?_, ?_, ?_, hwrote⟩
  · exact h.located_quiet hpc hfree hcache huse hheld hbuilds hends hhanded
  · exact h.locks_same hpc hlock hlocks
  · exact h.fits_same hpc hcache fun w _ ↦ hfits _
  · intro i hi
    rcases eq_or_ne i x with rfl | hix
    · rcases hown hi with hlive | hp
      · left
        rw [huse]
        exact hlive
      · exact Or.inr ⟨a, by rw [hpc, Function.update_self, hp]⟩
    · rw [hstack i hix] at hi
      rcases h.stack i hi with hlive | ⟨b, hb⟩
      · left
        rw [huse]
        exact hlive
      · refine Or.inr ⟨b, ?_⟩
        have hne : b ≠ a := by
          rintro rfl
          exact hix (hq' i hb)
        rw [hpc, Function.update_of_ne hne]
        exact hb

/-- The next step of a thread's call. -/
theorem Ledger.act (h : Ledger s) {flag : Bool} (hstep : s.act a flag = some s') : Ledger s' := by
  have hscan {q : Pc n m} (hpc : s.pc a = q) (purpose : Purpose)
      (hq : Pc.Like a q (.scanFinished (shards n) 0 purpose))
      (hfits : ∀ length, q.fits length → length ≤ capacity) : Ledger (s.startScan a purpose) :=
    h.quiet (p := .scanFinished (shards n) 0 purpose) hpc hq (fun _ _ hl ↦ hfits _ hl) rfl rfl rfl
      rfl rfl rfl rfl
  have hgoto {q p : Pc n m} (hpc : s.pc a = q) (hlike : Pc.Like a q p)
      (hfits : ∀ length, q.fits length → p.fits length) : Ledger (s.goto a p) :=
    h.quiet hpc hlike (fun _ _ hl ↦ hfits _ hl) rfl rfl rfl rfl rfl rfl rfl
  unfold State.act at hstep
  cases hpc : s.pc a with
  | checkStop =>
    simp only [hpc, Option.some.injEq] at hstep
    subst hstep
    split_ifs
    · exact hgoto hpc ⟨rfl, rfl, rfl, rfl, rfl, rfl, id⟩ fun _ hl ↦ hl
    · cases a with
      | worker w =>
        exact h.quiet (p := .lockOwn) hpc ⟨rfl, rfl, rfl, rfl, rfl, rfl, id⟩ (fun _ _ hl ↦ hl) rfl
          rfl rfl rfl rfl rfl rfl
      | foreign k =>
        exact h.quiet (p := .popFirst) hpc ⟨rfl, rfl, rfl, rfl, rfl, rfl, id⟩ (fun _ _ hl ↦ hl) rfl
          rfl rfl rfl rfl rfl rfl
  | raidLock todo =>
    cases todo with
    | nil =>
      simp only [hpc, Option.some.injEq] at hstep
      subst hstep
      exact hgoto hpc ⟨rfl, rfl, rfl, rfl, rfl, rfl, id⟩ fun _ hl ↦ hl
    | cons victim todo =>
      simp only [hpc] at hstep
      split_ifs at hstep
      · obtain rfl := Option.some.inj hstep
        exact hgoto hpc ⟨rfl, rfl, rfl, rfl, rfl, rfl, id⟩ fun _ hl ↦ hl
      · exact h.acquireLock hpc hstep rfl rfl rfl rfl rfl rfl (fun _ hl ↦ hl) id
  | raidTake victim todo =>
    simp only [hpc, Option.some.injEq] at hstep
    subst hstep
    refine h.cacheTake hpc ⟨rfl, rfl, rfl⟩ rfl rfl rfl rfl fun got ↦ ?_
    exact ⟨rfl, rfl, rfl, rfl, rfl, rfl, fun _ hl ↦ hl⟩
  | raidUnlock victim todo got =>
    cases got with
    | none =>
      simp only [hpc, Option.some.injEq] at hstep
      subst hstep
      exact h.unlock hpc rfl ⟨rfl, rfl, rfl, rfl, rfl⟩ ⟨rfl, rfl, rfl, rfl, rfl⟩ (fun _ hl ↦ hl) id
    | some x =>
      simp only [hpc, Option.some.injEq] at hstep
      subst hstep
      refine h.unlockAcquired hpc rfl ?_ rfl rfl rfl
      simp
  | popLast =>
    simp only [hpc, Option.some.injEq, State.popFree] at hstep
    subst hstep
    have hmissed := hscan hpc .acquire ⟨rfl, rfl, rfl, rfl, rfl, rfl, id⟩ fun _ hl ↦ hl
    split
    · exact hmissed
    · rename_i x rest hfree
      split_ifs
      · exact hmissed
      · exact h.popped hpc hfree ⟨rfl, rfl, rfl⟩ rfl rfl rfl rfl
  | scanFinished todo finished purpose =>
    cases todo <;> cases purpose <;> simp only [hpc, Option.some.injEq] at hstep <;> subst hstep <;>
      exact hgoto hpc ⟨rfl, rfl, rfl, rfl, rfl, rfl, id⟩ fun _ hl ↦ hl
  | scanCreated todo created finished purpose =>
    cases todo <;> cases purpose <;> simp only [hpc, Option.some.injEq] at hstep <;> subst hstep <;>
      exact hgoto hpc ⟨rfl, rfl, rfl, rfl, rfl, rfl, id⟩ fun _ hl ↦ hl
  | scanned result purpose =>
    cases purpose with
    | acquire =>
      simp only [hpc, Option.some.injEq] at hstep
      subst hstep
      split_ifs
      · exact hgoto hpc ⟨rfl, rfl, rfl, rfl, rfl, rfl, id⟩ fun _ hl ↦ hl
      · cases a <;> exact hgoto hpc ⟨rfl, rfl, rfl, rfl, rfl, rfl, id⟩ fun _ hl ↦ hl
    | release | count =>
      simp only [hpc, Option.some.injEq] at hstep
      subst hstep
      exact hgoto hpc ⟨rfl, rfl, rfl, rfl, rfl, rfl, id⟩ fun _ hl ↦ hl
  | allocate slot =>
    simp only [hpc, Option.some.injEq] at hstep
    subst hstep
    split_ifs
    · exact hgoto hpc ⟨rfl, rfl, rfl, rfl, rfl, rfl, id⟩ fun _ hl ↦ hl
    · refine h.stackOrTable (p := .carve slot) (x := slot) hpc rfl rfl rfl rfl rfl rfl rfl rfl rfl rfl
        (fun _ hl ↦ hl) ?_ (fun _ ↦ Or.inr rfl) (by simp) ?_
      · intro i hi
        simp [State.goto, hi]
      · refine h.wrote_of (p := .carve slot) rfl (fun _ _ ↦ rfl) fun hb ↦ ?_
        have hwrite := h.wrote a hb
        rwa [hpc] at hwrite
  | carve slot | construct slot =>
    simp only [hpc, Option.some.injEq] at hstep
    subst hstep
    split_ifs <;> exact hgoto hpc ⟨rfl, rfl, rfl, rfl, rfl, rfl, id⟩ fun _ hl ↦ hl
  | register slot =>
    simp only [hpc, Option.some.injEq] at hstep
    subst hstep
    refine h.stackOrTable (p := .countLoad slot) (x := slot) hpc rfl rfl rfl rfl rfl rfl rfl rfl rfl
      rfl (fun _ hl ↦ hl) (fun _ _ ↦ rfl) (fun _ ↦ Or.inr rfl) (by simp [eq_comm]) ?_
    exact h.wrote_of (p := .countLoad slot) rfl (fun b hb ↦ by simp [State.goto, hb]) fun _ ↦ rfl
  | dropStack slot failure =>
    simp only [hpc, Option.some.injEq] at hstep
    subst hstep
    refine h.stackOrTable (p := .dropSlot slot failure) (x := slot) hpc rfl rfl rfl rfl rfl rfl rfl
      rfl rfl rfl (fun _ hl ↦ hl) ?_ ?_ (by simp [eq_comm]) ?_
    · intro i hi
      simp [State.goto, hi]
    · simp [State.goto]
    · refine h.wrote_of (p := .dropSlot slot failure) rfl (fun _ _ ↦ rfl) fun hb ↦ ?_
      have hwrite := h.wrote a hb
      rwa [hpc] at hwrite
  | dropSlot slot failure =>
    simp only [hpc, Option.some.injEq] at hstep
    subst hstep
    have huse : s.use slot = .building a := h.use_of_builds (by rw [hpc]; rfl)
    have hwrote : s.wrote a = false := by
      by_contra hb
      rw [Bool.not_eq_false] at hb
      have hwrite := h.wrote a hb
      rw [hpc] at hwrite
      cases hwrite
    have hto : (releaseSlot slot (.failed failure) a : Pc n m).hasOnly a (.held a) slot ∧
        (releaseSlot slot (.failed failure) a : Pc n m).handed = 0 ∧
        (releaseSlot slot (.failed failure) a : Pc n m).locks a = none ∧
        (∀ length, length ≤ capacity →
          (releaseSlot slot (.failed failure) a : Pc n m).fits length) := by
      cases a <;> simp [releaseSlot, Pc.locks, Pc.fits]
    obtain ⟨hto, hhanded, hlocks, hfits⟩ := hto
    refine h.passes (p := releaseSlot slot (.failed failure) a) hpc rfl rfl rfl rfl rfl huse (by simp)
      ?_ hto hhanded (by simp) (by simp) ?_ hfits (by simp) (by simp) ?_
    · simp
    · exact h.locks_same (p := releaseSlot slot (.failed failure) a) rfl rfl
        (by rw [hpc, hlocks]; rfl)
    · refine h.wrote_of (p := releaseSlot slot (.failed failure) a) rfl (fun _ _ ↦ rfl) fun hb ↦ ?_
      exact absurd (show s.wrote a = true from hb) (by simp [hwrote])
  | failed failure =>
    simp only [hpc, Option.some.injEq] at hstep
    subst hstep
    exact hgoto hpc ⟨rfl, rfl, rfl, rfl, rfl, rfl, fun _ ↦ rfl⟩ fun _ hl ↦ hl
  | clearTable slot =>
    simp only [hpc, Option.some.injEq] at hstep
    subst hstep
    exact h.quiet (p := .freeStack slot) hpc ⟨rfl, rfl, rfl, rfl, rfl, rfl, id⟩ (fun _ _ hl ↦ hl) rfl
      rfl rfl rfl rfl rfl rfl
  | freeStack slot =>
    simp only [hpc, Option.some.injEq] at hstep
    subst hstep
    refine h.stackOrTable (p := .finishLoad slot) (x := slot) hpc rfl rfl rfl rfl rfl rfl rfl rfl rfl
      rfl (fun _ hl ↦ hl) ?_ ?_ (by simp [eq_comm]) ?_
    · intro i hi
      simp [State.goto, hi]
    · simp [State.goto]
    · exact h.wrote_of (p := .finishLoad slot) rfl (fun _ _ ↦ rfl) fun _ ↦ rfl
  | checkStopping =>
    simp only [hpc, Option.some.injEq] at hstep
    subst hstep
    split_ifs
    · exact hscan hpc .release ⟨rfl, rfl, rfl, rfl, rfl, rfl, fun _ ↦ rfl⟩ fun _ hl ↦ hl
    · exact hgoto hpc ⟨rfl, rfl, rfl, rfl, rfl, rfl, fun _ ↦ rfl⟩ fun _ hl ↦ hl
  | _ =>
    simp only [hpc] at hstep
    cases a with
    | worker w => exact h.actOwn hstep
    | foreign k => exact h.actForeign hstep

/-- One step, whatever the watches say. -/
theorem Ledger.move (h : Ledger s) {b : Action n m κ} (hstep : move s b = some s') : Ledger s' := by
  cases b with
  | stop =>
    obtain rfl := Option.some.inj hstep
    exact ⟨h.located, h.locks, h.fits, h.stack, h.wrote⟩
  | createTask a =>
    simp only [SlotCache.move] at hstep
    split_ifs at hstep with hidle
    obtain rfl := Option.some.inj hstep
    refine ⟨?_, ?_, ?_, ?_, ?_⟩
    · exact h.located_quiet (p := .checkStop) (a := a) rfl rfl rfl rfl (by rw [hidle]; rfl)
        (by rw [hidle]; rfl) (by rw [hidle]; rfl) (by rw [hidle]; rfl)
    · exact h.locks_same (p := .checkStop) (a := a) rfl rfl (by rw [hidle]; rfl)
    · refine h.fits_same (p := .checkStop) (a := a) rfl rfl fun w _ hl ↦ ?_
      rwa [hidle] at hl
    · refine h.stack_of (p := .checkStop) (a := a) rfl (fun i hi ↦ Or.inl hi)
        (fun i hi _ ↦ Or.inl hi) ?_
      intro i hi
      rw [hidle] at hi
      nomatch hi
    · refine h.wrote_of (p := .checkStop) (a := a) rfl (fun b hb ↦ by simp [State.goto, hb]) ?_
      simp [State.goto]
  | releaseTask a slot =>
    simp only [SlotCache.move] at hstep
    split_ifs at hstep with hidle
    obtain rfl := Option.some.inj hstep
    refine h.passes (p := .clearTable slot) hidle.1 rfl rfl rfl rfl rfl hidle.2 (by simp) ?_ ?_ rfl
      (by simp) (by simp) ?_ (fun _ hl ↦ hl) (fun _ ↦ rfl) (by simp) ?_
    · simp
    · simp
    · exact h.locks_same (p := .clearTable slot) (a := a) rfl rfl (by rw [hidle.1]; rfl)
    · exact h.wrote_of (p := .clearTable slot) (a := a) rfl (fun _ _ ↦ rfl) fun _ ↦ rfl
  | liveTasks a =>
    simp only [SlotCache.move] at hstep
    split_ifs at hstep with hidle
    obtain rfl := Option.some.inj hstep
    exact h.quiet (p := .scanFinished (shards n) 0 .count) hidle
      ⟨rfl, rfl, rfl, rfl, rfl, rfl, fun _ ↦ rfl⟩ (fun _ _ hl ↦ hl) rfl rfl rfl rfl rfl rfl rfl
  | act a flag => exact h.act hstep

/-- Every step keeps the ledger. -/
theorem Ledger.step (h : Ledger s) {b : Action n m κ} (hstep : step s b = some s') : Ledger s' := by
  obtain ⟨t, ht, rfl⟩ := Option.map_eq_some_iff.mp hstep
  have hmoved := h.move ht
  exact ⟨hmoved.located, hmoved.locks, hmoved.fits, hmoved.stack, hmoved.wrote⟩

/-- All slots are in the free list at first. -/
theorem Ledger.initial : Ledger (initial : State n m κ) where
  located q i := by
    cases q with
    | free =>
      simp only [State.contents, SlotCache.initial, if_true]
      exact List.count_eq_one_of_mem (List.nodup_finRange m) (List.mem_finRange i)
    | cached w => simp [State.cached, SlotCache.initial]
    | held a => simp [SlotCache.initial]
    | building a => simp [SlotCache.initial]
    | live => simp [SlotCache.initial]
    | ending a => simp [SlotCache.initial]
  locks a w h := nomatch h
  fits w := Nat.zero_le _
  stack i h := nomatch h
  wrote a h := nomatch h

/-- What the ledger says of the slots. -/
theorem Ledger.conserved (h : Ledger s) : Conserved s where
  place i := by
    refine ⟨s.use i, fun q ↦ ?_⟩
    rw [h.located q i]
    simp only [Option.some.injEq, eq_comm]
  room w := Pc.fits_le (h.fits w)
  stack i hi := by
    rcases h.stack i hi with hlive | ⟨a, ha⟩
    · rw [hlive]
      rfl
    · have hown : (s.pc a).builds = some i ∨ (s.pc a).ends = some i := by
        cases hpc : s.pc a <;> simp_all
      rcases hown with hown | hown
      · rw [h.use_of_builds hown]
        rfl
      · rw [h.use_of_ends hown]
        rfl
  failure a failure hpc := by
    refine ⟨?_, fun i ↦ ⟨fun hi ↦ ?_, fun hi ↦ ?_⟩⟩
    · by_contra hb
      rw [Bool.not_eq_false] at hb
      have hwrite := h.wrote a hb
      rw [hpc] at hwrite
      nomatch hwrite
    · have hmem : i ∈ s.contents (.held a) := h.located.mem_iff.mpr (congrArg some hi)
      simp [hpc] at hmem
    · have hmem : i ∈ s.contents (.building a) := h.located.mem_iff.mpr (congrArg some hi)
      simp [hpc] at hmem

/-- In every state reached, each slot is in one place, once; no cache holds more than fits; only a
task has a stack; and a `createTask` that fails has changed neither the slot table nor a counter,
and holds no slot. -/
theorem slots_conserved (hs : (system n m κ).Reachable s) : Conserved s := by
  have h : Ledger s := by
    refine System.Reachable.invariant ?_ (fun _ _ _ h hstep ↦ h.step hstep) hs
    rintro _ rfl
    exact Ledger.initial
  exact h.conserved

/-- A worker fills its cache from the free list and begins to create a task, whose constructor
throws; the stack is freed and the slot goes to the cache. -/
def constructorThrows : List (Action 1 3 Unit) :=
  [Action.createTask (.worker 0)] ++ List.replicate 9 (Action.act (.worker 0) false) ++
    [Action.act (.worker 0) false, .act (.worker 0) false, .act (.worker 0) true] ++
    List.replicate 6 (Action.act (.worker 0) false)

theorem slots_conserved_constructorThrows :
    ∃ s, (system 1 3 Unit).run initial constructorThrows = some s ∧
      (s.pc (.worker 0) = .failed .threw ∧ s.free = [] ∧ s.cache 0 = [0, 1, 2]) ∧ Conserved s :=
  ⟨((system 1 3 Unit).run initial constructorThrows).get (by decide +kernel),
    (Option.some_get _).symm, by decide +kernel,
    slots_conserved (System.reachable_of_run rfl (Option.some_get _).symm)⟩

end Stackfull.Sched.SlotCache
