import Mathlib
import Stackfull.Sched.Timekeeper

/-!
# A queued deadline is not overslept

Three invariants, one on top of the other. `Keeping`: whoever is in the role is the timekeeper, and
`keeperDeadline` is the greatest time while it scans and its own wake-up time while it sleeps.
`Queues`: the heaps are valid, and an entry that is not being added any more has its queue's bit in
the mask and a mirror that is not after it. `Covered`: a timekeeper on its way to sleep has not
looked at an entry's queue yet, or wakes up in time for the entry, or has a wake pending, or the
thread that adds the entry is still going to wake it.
-/

set_option autoImplicit false
set_option relaxedAutoImplicit false
set_option linter.dupNamespace false

namespace Stackfull.Sched.Timekeeper

open Stackfull.Lib
open Stackfull.Sched.Tasks (Agent)

universe u v w

variable {n : ℕ} {κ : Type u} {ε : Type v} {T : Type w}
variable [DecidableEq κ] [DecidableEq ε] [LinearOrder T] [OrderTop T]
variable {c : Config ε T} {s s' : State n κ ε T}

/-! ### What a step on a queue does -/

/-- A heap after an entry was added or one was taken out. -/
inductive Changed (c : Config ε T) (h : IntrusiveHeap ε) : IntrusiveHeap ε → Job ε → Prop
  | added (e : ε) (hnew : ¬ h.Mem e) : Changed c h (h.push c.deadline e) (.added e)
  | removed (i : ℕ) (hi : i < h.size) : Changed c h (h.removeAt c.deadline i) .removed

/-- The mirrors and the words of the handshake are as they were. -/
structure SameWords (s s' : State n κ ε T) : Prop where
  size : s'.size = s.size
  earliest : s'.earliest = s.earliest
  timerMask : s'.timerMask = s.timerMask
  timekeeper : s'.timekeeper = s.timekeeper
  keeperDeadline : s'.keeperDeadline = s.keeperDeadline
  driverWoken : s'.driverWoken = s.driverWoken
  token : s'.token = s.token

/-- A thread takes a queue's lock and changes its heap. -/
structure Changes (c : Config ε T) (s s' : State n κ ε T) (a : Agent n κ) (q : Fin n)
    (heap : IntrusiveHeap ε) (job : Job ε) : Prop where
  outside : s.pc a = .idle
  unlocked : s.lock q = none
  changed : Changed c (s.heap q) heap job
  heaps : s'.heap = Function.update s.heap q heap
  lock : s'.lock = Function.update s.lock q (some a)
  pc : s'.pc = Function.update s.pc a (.publishMask q job)

/-- An operation on a queue changes one heap and takes its lock, or touches neither. -/
def QueueStep (c : Config ε T) (s s' : State n κ ε T) : Prop :=
  SameWords s s' ∧ ((s'.heap = s.heap ∧ s'.lock = s.lock ∧ s'.pc = s.pc) ∨
    ∃ a q heap job, Changes c s s' a q heap job)

/-- The action is an operation on a queue. -/
def Action.onQueue : Action n κ ε T → Bool
  | .construct _ _ | .addTimer _ _ | .addCallbackTimer _ _ | .cancel _ _ | .fireExpired _ _ _
  | .fireCallbacksAndClose _ _ => true
  | _ => false

omit [OrderTop T] in
/-- A thread that may take the lock takes it. -/
theorem queueStep_change {a : Agent n κ} {q : Fin n} (hlock : s.canLock a q = true)
    {heap : IntrusiveHeap ε} {job : Job ε} (hchanged : Changed c (s.heap q) heap job)
    (queue : ε → Option (Fin n)) (closed : Fin n → Bool) :
    QueueStep c s ({ s with queue := queue, closed := closed }.change a q heap job) := by
  simp only [State.canLock, Bool.and_eq_true, decide_eq_true_eq] at hlock
  refine ⟨⟨rfl, rfl, rfl, rfl, rfl, rfl, rfl⟩, Or.inr ⟨a, q, heap, job, ?_⟩⟩
  exact ⟨hlock.1, hlock.2, hchanged, rfl, rfl, rfl⟩

omit [DecidableEq κ] [DecidableEq ε] [LinearOrder T] [OrderTop T] in
/-- The entry found is in the heap. -/
theorem firstCallback_lt {heap : IntrusiveHeap ε} {i : ℕ}
    (h : State.firstCallback c heap = some i) : i < heap.size :=
  List.mem_range.mp (List.mem_of_find?_eq_some h)

/-- What the operations on the queues do. -/
theorem queueStep_of_step (hindexed : ∀ q, (s.heap q).Indexed) {a : Action n κ ε T}
    (ha : a.onQueue = true) (hstep : step c s a = some s') : QueueStep c s s' := by
  have hsame : SameWords s s := ⟨rfl, rfl, rfl, rfl, rfl, rfl, rfl⟩
  have hnone {q : Fin n} {e : ε} (h : (s.heap q).index e = none) : ¬ (s.heap q).Mem e := by
    rintro ⟨i, hi⟩
    rw [h] at hi
    nomatch hi
  cases a with
  | work _ | becomeTimekeeper _ | maintain _ | wakeUp _ _ | rampUp _ | unparkOther _ | wakeDriver
  | consumeToken _ => nomatch ha
  | construct e q =>
    simp only [step.eq_def, State.construct] at hstep
    split_ifs at hstep
    obtain rfl := Option.some.inj hstep
    exact ⟨⟨rfl, rfl, rfl, rfl, rfl, rfl, rfl⟩, Or.inl ⟨rfl, rfl, rfl⟩⟩
  | addTimer x e =>
    simp only [step.eq_def, State.addTimer] at hstep
    split_ifs at hstep with hlock
    simp only [Bool.and_eq_true, decide_eq_true_eq] at hlock
    obtain rfl := Option.some.inj hstep
    exact queueStep_change hlock.1 (.added e (hnone hlock.2)) _ _
  | addCallbackTimer b e =>
    simp only [step.eq_def, State.addCallbackTimer] at hstep
    split at hstep
    · nomatch hstep
    · split_ifs at hstep with hlock
      · obtain rfl := Option.some.inj hstep
        exact ⟨hsame, Or.inl ⟨rfl, rfl, rfl⟩⟩
      · simp only [Bool.and_eq_true, decide_eq_true_eq] at hlock
        obtain rfl := Option.some.inj hstep
        exact queueStep_change hlock.1 (.added e (hnone hlock.2)) _ _
  | cancel b e =>
    simp only [step.eq_def, State.cancel] at hstep
    split at hstep
    · nomatch hstep
    · split_ifs at hstep with hlock
      obtain rfl := Option.some.inj hstep
      split
      · exact ⟨⟨rfl, rfl, rfl, rfl, rfl, rfl, rfl⟩, Or.inl ⟨rfl, rfl, rfl⟩⟩
      · rename_i i hi
        exact queueStep_change hlock (.removed i ((hindexed _).placed e i hi).1) _ _
  | fireExpired b q now =>
    simp only [step.eq_def, State.fireExpired] at hstep
    split_ifs at hstep with hlock hnot
    · obtain rfl := Option.some.inj hstep
      exact ⟨hsame, Or.inl ⟨rfl, rfl, rfl⟩⟩
    · obtain rfl := Option.some.inj hstep
      have hsize : 0 < (s.heap q).size := Nat.pos_of_ne_zero fun h ↦ hnot (Or.inl h)
      exact queueStep_change hlock (.removed 0 hsize) _ _
  | fireCallbacksAndClose b q =>
    simp only [step.eq_def, State.fireCallbacksAndClose] at hstep
    split_ifs at hstep with hlock
    obtain rfl := Option.some.inj hstep
    split
    · exact ⟨⟨rfl, rfl, rfl, rfl, rfl, rfl, rfl⟩, Or.inl ⟨rfl, rfl, rfl⟩⟩
    · rename_i i hi
      exact queueStep_change hlock (.removed i (firstCallback_lt hi)) _ _

/-! ### The role -/

/-- The thread has the role. -/
def Pc.inRole : Pc n ε T → Bool
  | .mark | .loadMask | .scan _ _ | .loadRampUp _ | .publish _ | .asleep _ | .poll | .release =>
    true
  | _ => false

/-- The thread has marked itself as scanning and not yet published when it wakes up. -/
def Pc.scans : Pc n ε T → Bool
  | .loadMask | .scan _ _ | .loadRampUp _ | .publish _ => true
  | _ => false

/-- Who is in the role is the timekeeper, and `keeperDeadline` tells what it is doing. -/
structure Keeping (s : State n κ ε T) : Prop where
  role : ∀ a, (s.pc a).inRole = true → ∃ w, a = .worker w ∧ s.timekeeper = some w
  scanning : ∀ a, (s.pc a).scans = true → s.keeperDeadline = ⊤
  sleeping : ∀ a wakeAt, s.pc a = .asleep wakeAt → s.keeperDeadline = wakeAt

omit [DecidableEq κ] [DecidableEq ε] in
/-- Two threads in the role are one. -/
theorem Keeping.unique (hs : Keeping s) {a b : Agent n κ} (ha : (s.pc a).inRole = true)
    (hb : (s.pc b).inRole = true) : a = b := by
  obtain ⟨w, rfl, hw⟩ := hs.role a ha
  obtain ⟨x, rfl, hx⟩ := hs.role b hb
  rw [hw] at hx
  rw [Option.some.inj hx]

omit [DecidableEq ε] in
/-- A thread goes on; the rest of the state does not concern the role. -/
theorem Keeping.goto (hs : Keeping s) {a : Agent n κ} {p : Pc n ε T}
    (hkeeper : s'.timekeeper = s.timekeeper) (hdeadline : s'.keeperDeadline = s.keeperDeadline)
    (hpc : s'.pc = Function.update s.pc a p) (hrole : p.inRole = true → (s.pc a).inRole = true)
    (hscans : p.scans = true → s.keeperDeadline = ⊤)
    (hasleep : ∀ wakeAt, p = .asleep wakeAt → s.keeperDeadline = wakeAt) : Keeping s' := by
  obtain ⟨hr, hsc, hsl⟩ := hs
  constructor
  · intro b hb
    rw [hpc] at hb
    rw [hkeeper]
    rcases eq_or_ne b a with rfl | hne
    · rw [Function.update_self] at hb
      exact hr b (hrole hb)
    · rw [Function.update_of_ne hne] at hb
      exact hr b hb
  · intro b hb
    rw [hpc] at hb
    rw [hdeadline]
    rcases eq_or_ne b a with rfl | hne
    · rw [Function.update_self] at hb
      exact hscans hb
    · rw [Function.update_of_ne hne] at hb
      exact hsc b hb
  · intro b wakeAt hb
    rw [hpc] at hb
    rw [hdeadline]
    rcases eq_or_ne b a with rfl | hne
    · rw [Function.update_self] at hb
      exact hasleep wakeAt hb
    · rw [Function.update_of_ne hne] at hb
      exact hsl b wakeAt hb

omit [DecidableEq ε] in
/-- The one in the role writes `keeperDeadline`. -/
theorem Keeping.write (hs : Keeping s) {a : Agent n κ} {p : Pc n ε T} {deadline : T}
    (ha : (s.pc a).inRole = true) (hscans : p.scans = true → deadline = ⊤)
    (hasleep : ∀ wakeAt, p = .asleep wakeAt → deadline = wakeAt) :
    Keeping ({ s with keeperDeadline := deadline }.goto a p) := by
  have hother (b : Agent n κ) (hb : b ≠ a) : (s.pc b).inRole ≠ true := fun h ↦ hb (hs.unique h ha)
  constructor
  · intro b hb
    rcases eq_or_ne b a with rfl | hne
    · exact hs.role b ha
    · simp only [State.goto, Function.update_of_ne hne] at hb
      exact hs.role b hb
  · intro b hb
    rcases eq_or_ne b a with rfl | hne
    · simp only [State.goto, Function.update_self] at hb
      exact hscans hb
    · simp only [State.goto, Function.update_of_ne hne] at hb
      refine absurd ?_ (hother b hne)
      cases hcase : s.pc b <;> simp_all only [Pc.scans, Pc.inRole, reduceCtorEq]
  · intro b wakeAt hb
    rcases eq_or_ne b a with rfl | hne
    · simp only [State.goto, Function.update_self] at hb
      exact hasleep wakeAt hb
    · simp only [State.goto, Function.update_of_ne hne] at hb
      exact absurd (by rw [hb]; rfl) (hother b hne)

omit [DecidableEq ε] in
/-- The role is given up. -/
theorem Keeping.release (hs : Keeping s) {a : Agent n κ} (ha : (s.pc a).inRole = true) :
    Keeping ({ s with
      timekeeper := if (s.timekeeper.map Agent.worker) = some a then none else s.timekeeper }.goto a
        .idle) := by
  have hother (b : Agent n κ) (hb : b ≠ a) : (s.pc b).inRole ≠ true := fun h ↦ hb (hs.unique h ha)
  constructor
  · intro b hb
    rcases eq_or_ne b a with rfl | hne
    · simp only [State.goto, Function.update_self] at hb
      nomatch hb
    · simp only [State.goto, Function.update_of_ne hne] at hb
      exact absurd hb (hother b hne)
  · intro b hb
    rcases eq_or_ne b a with rfl | hne
    · simp only [State.goto, Function.update_self] at hb
      nomatch hb
    · simp only [State.goto, Function.update_of_ne hne] at hb
      exact hs.scanning b hb
  · intro b wakeAt hb
    rcases eq_or_ne b a with rfl | hne
    · simp only [State.goto, Function.update_self, reduceCtorEq] at hb
    · simp only [State.goto, Function.update_of_ne hne] at hb
      exact hs.sleeping b wakeAt hb

/-- The role is taken. -/
theorem Keeping.claim (hs : Keeping s) {x : Fin n} {p : Pc n ε T}
    (hscans : p.scans = false) (hasleep : ∀ wakeAt, p ≠ .asleep wakeAt)
    (hstep : s.tryBecomeTimekeeper x p = some s') : Keeping s' := by
  unfold State.tryBecomeTimekeeper at hstep
  split_ifs at hstep with hfree
  obtain rfl := Option.some.inj hstep
  have hother (b : Agent n κ) : (s.pc b).inRole ≠ true := by
    intro hb
    obtain ⟨y, -, hy⟩ := hs.role b hb
    rw [hfree.2] at hy
    nomatch hy
  constructor
  · intro b hb
    rcases eq_or_ne b (.worker x) with rfl | hne
    · exact ⟨x, rfl, rfl⟩
    · simp only [State.goto, Function.update_of_ne hne] at hb
      exact absurd hb (hother b)
  · intro b hb
    rcases eq_or_ne b (.worker x) with rfl | hne
    · simp only [State.goto, Function.update_self, hscans, Bool.false_eq_true] at hb
    · simp only [State.goto, Function.update_of_ne hne] at hb
      exact hs.scanning b hb
  · intro b wakeAt hb
    rcases eq_or_ne b (.worker x) with rfl | hne
    · simp only [State.goto, Function.update_self] at hb
      exact absurd hb (hasleep wakeAt)
    · simp only [State.goto, Function.update_of_ne hne] at hb
      exact hs.sleeping b wakeAt hb

attribute [local grind] Pc.inRole Pc.scans

omit [DecidableEq ε] in
/-- Every step of a thread keeps the role. -/
theorem Keeping.work (hs : Keeping s) {a : Agent n κ} (hstep : s.work c a = some s') :
    Keeping s' := by
  unfold State.work at hstep
  cases hpc : s.pc a with
  | idle | asleep _ => simp only [hpc, reduceCtorEq] at hstep
  | publishMask q job | publishEarliest q job | loadKeeper e | loadDeadline e k | unparkWorker e k
  | wakeDriver e k | unpark e k | loadMask | loadRampUp t | poll =>
    simp only [hpc, Option.some.injEq] at hstep
    subst hstep
    refine hs.goto (a := a) (by rfl) (by rfl) (by rfl) ?_ ?_ ?_ <;> grind -linarith [Keeping.scanning]
  | unlock q job =>
    simp only [hpc, Option.some.injEq] at hstep
    subst hstep
    refine hs.goto (a := a) (by rfl) (by rfl) (by rfl) ?_ ?_ ?_ <;> grind -linarith
  | mark =>
    simp only [hpc, Option.some.injEq] at hstep
    subst hstep
    apply hs.write <;> grind -linarith
  | scan rest t =>
    cases rest with
    | nil =>
      simp only [hpc, Option.some.injEq] at hstep
      subst hstep
      refine hs.goto (a := a) (by rfl) (by rfl) (by rfl) ?_ ?_ ?_ <;> grind -linarith [Keeping.scanning]
    | cons q rest =>
      simp only [hpc, Option.some.injEq] at hstep
      subst hstep
      refine hs.goto (a := a) (by rfl) (by rfl) (by rfl) ?_ ?_ ?_ <;> grind -linarith [Keeping.scanning]
  | publish t =>
    simp only [hpc, Option.some.injEq] at hstep
    subst hstep
    apply hs.write <;> grind -linarith
  | release =>
    simp only [hpc, Option.some.injEq] at hstep
    subst hstep
    exact hs.release (by rw [hpc]; rfl)

/-- An operation on a queue keeps the role. -/
theorem Keeping.queueStep (hs : Keeping s) (hq : QueueStep c s s') : Keeping s' := by
  obtain ⟨hsame, ⟨-, -, hpc⟩ | ⟨a, q, heap, job, hchange⟩⟩ := hq
  · obtain ⟨hr, hsc, hsl⟩ := hs
    constructor
    · rw [hpc, hsame.timekeeper]
      exact hr
    · rw [hpc, hsame.keeperDeadline]
      exact hsc
    · rw [hpc, hsame.keeperDeadline]
      exact hsl
  · refine hs.goto hsame.timekeeper hsame.keeperDeadline hchange.pc ?_ ?_ ?_ <;> grind -linarith

/-- Every other step keeps the role. -/
theorem Keeping.step (hs : Keeping s) {a : Action n κ ε T} (ha : a.onQueue = false)
    (hstep : step c s a = some s') : Keeping s' := by
  cases a with
  | construct _ _ | addTimer _ _ | addCallbackTimer _ _ | cancel _ _ | fireExpired _ _ _
  | fireCallbacksAndClose _ _ => nomatch ha
  | work b => exact hs.work hstep
  | becomeTimekeeper x => exact hs.claim (by rfl) (by simp) hstep
  | maintain x =>
    simp only [Timekeeper.step.eq_def] at hstep
    split_ifs at hstep
    exact hs.claim (by rfl) (by simp) hstep
  | wakeUp x consumes =>
    simp only [Timekeeper.step.eq_def, State.wakeUp] at hstep
    split at hstep
    · rename_i hpc
      obtain rfl := Option.some.inj hstep
      refine hs.goto (by rfl) (by rfl) (by rfl) ?_ ?_ ?_ <;> grind -linarith
    · nomatch hstep
  | rampUp due | unparkOther x | wakeDriver =>
    obtain rfl := Option.some.inj hstep
    exact ⟨hs.role, hs.scanning, hs.sleeping⟩
  | consumeToken x =>
    simp only [Timekeeper.step.eq_def] at hstep
    split_ifs at hstep
    obtain rfl := Option.some.inj hstep
    exact ⟨hs.role, hs.scanning, hs.sleeping⟩

/-! ### The mirrors -/

/-- The queue whose lock the thread has. -/
def Pc.locks : Pc n ε T → Option (Fin n)
  | .publishMask q _ | .publishEarliest q _ | .unlock q _ => some q
  | _ => none

/-- The thread is adding the entry and has not published it. -/
def Pc.publishes (q : Fin n) (e : ε) : Pc n ε T → Prop
  | .publishMask r (.added f) | .publishEarliest r (.added f) => r = q ∧ f = e
  | _ => False

/-- The mask's bit of the queue is ahead of its size. -/
def Pc.masked (q : Fin n) : Pc n ε T → Prop
  | .publishEarliest r _ => r = q
  | _ => False

/-- The heaps are valid and the mirrors tell what is in them. -/
structure Queues (c : Config ε T) (s : State n κ ε T) : Prop where
  locked : ∀ a q, (s.pc a).locks = some q → s.lock q = some a
  valid : ∀ q, IntrusiveHeap.Valid c.deadline (s.heap q)
  mask : ∀ q, (∀ a, ¬ (s.pc a).masked q) → (s.timerMask q = true ↔ s.size q ≠ 0)
  maskNext : ∀ a q, (s.pc a).masked q → (s.timerMask q = true ↔ (s.heap q).size ≠ 0)
  published : ∀ q e, (s.heap q).Mem e →
    (∃ a, (s.pc a).publishes q e) ∨ (s.timerMask q = true ∧ s.earliest q ≤ c.deadline e)

attribute [local grind] Pc.locks Pc.publishes Pc.masked

omit [DecidableEq ε] [LinearOrder T] [OrderTop T] in
/-- Who is between the mask and the size has the lock. -/
@[local grind →] theorem Pc.locks_of_masked {p : Pc n ε T} {q : Fin n} (h : p.masked q) :
    p.locks = some q := by
  cases p <;> simp_all only [Pc.masked, Pc.locks]

omit [DecidableEq ε] [LinearOrder T] [OrderTop T] in
/-- Who has not published its entry has the lock. -/
@[local grind →] theorem Pc.locks_of_publishes {p : Pc n ε T} {q : Fin n} {e : ε}
    (h : p.publishes q e) : p.locks = some q := by
  unfold Pc.publishes at h
  split at h
  · rw [Pc.locks, h.1]
  · rw [Pc.locks, h.1]
  · exact h.elim

omit [DecidableEq κ] [DecidableEq ε] in
/-- Nothing is queued at first. -/
theorem Queues.initial [Inhabited ε] : Queues c (initial : State n κ ε T) where
  locked _ _ h := nomatch h
  valid _ := IntrusiveHeap.valid_empty
  mask q _ := by simp [Timekeeper.initial]
  maskNext _ _ h := h.elim
  published _ _ h := by
    obtain ⟨i, hi⟩ := h
    nomatch hi

omit [DecidableEq ε] [OrderTop T] in
/-- A thread goes on outside the queues. -/
theorem Queues.goto (hs : Queues c s) {a : Agent n κ} {p : Pc n ε T} (hheap : s'.heap = s.heap)
    (hlock : s'.lock = s.lock) (hsize : s'.size = s.size) (hearliest : s'.earliest = s.earliest)
    (hmask : s'.timerMask = s.timerMask) (hpc : s'.pc = Function.update s.pc a p)
    (hfrom : (s.pc a).locks = none) (hto : p.locks = none) : Queues c s' := by
  obtain ⟨h1, h2, h3, h4, h5⟩ := hs
  cases s'
  dsimp only at hheap hlock hsize hearliest hmask hpc
  subst hheap hlock hsize hearliest hmask hpc
  constructor
  · dsimp only
    grind -linarith
  · exact h2
  · dsimp only
    intro q h
    apply h3
    intro b hb
    specialize h b
    grind -linarith
  · dsimp only
    grind -linarith
  · dsimp only
    intro q e he
    rcases h5 q e he with ⟨b, hb⟩ | h
    · refine Or.inl ⟨b, ?_⟩
      grind -linarith
    · exact Or.inr h

omit [OrderTop T] in
/-- A heap changes under its lock. -/
theorem Queues.changes (hs : Queues c s) (hsame : SameWords s s') {a : Agent n κ} {q : Fin n}
    {heap : IntrusiveHeap ε} {job : Job ε} (hc : Changes c s s' a q heap job) : Queues c s' := by
  obtain ⟨h1, h2, h3, h4, h5⟩ := hs
  obtain ⟨hout, hfree, hchanged, hheap, hlock, hpc⟩ := hc
  obtain ⟨hsize, hearliest, hmask, -, -, -, -⟩ := hsame
  have hvalid : IntrusiveHeap.Valid c.deadline heap := by
    cases hchanged with
    | added e hnew => exact ((h2 q).push hnew).1
    | removed i hi => exact ((h2 q).removeAt hi).1
  have hmem (e : ε) (he : heap.Mem e) : job = .added e ∨ (s.heap q).Mem e := by
    cases hchanged with
    | added f hnew =>
      rcases (((h2 q).push hnew).2.2 e).mp he with rfl | h
      · exact Or.inl rfl
      · exact Or.inr h
    | removed i hi => exact Or.inr ((((h2 q).removeAt hi).2.2 e).mp he).1
  cases s'
  dsimp only at hheap hlock hsize hearliest hmask hpc
  subst hheap hlock hsize hearliest hmask hpc
  constructor
  · dsimp only
    grind -linarith
  · dsimp only
    grind -linarith
  · dsimp only
    intro r h
    apply h3
    intro b hb
    specialize h b
    grind -linarith
  · dsimp only
    grind -linarith
  · dsimp only
    intro r e he
    rcases eq_or_ne r q with rfl | hne
    · rw [Function.update_self] at he
      rcases hmem e he with rfl | hold
      · refine Or.inl ⟨a, ?_⟩
        rw [Function.update_self]
        exact ⟨rfl, rfl⟩
      · rcases h5 r e hold with ⟨b, hb⟩ | h
        · refine Or.inl ⟨b, ?_⟩
          grind -linarith
        · exact Or.inr h
    · rw [Function.update_of_ne hne] at he
      rcases h5 r e he with ⟨b, hb⟩ | h
      · refine Or.inl ⟨b, ?_⟩
        grind -linarith
      · exact Or.inr h

omit [DecidableEq κ] [DecidableEq ε] [OrderTop T] in
/-- The bit that is published is the one the heap asks for. -/
theorem Queues.nextMask_iff (hs : Queues c s) {a : Agent n κ} {q : Fin n} {job : Job ε}
    (hpc : s.pc a = .publishMask q job) : s.nextMask q = true ↔ (s.heap q).size ≠ 0 := by
  have hlock : s.lock q = some a := hs.locked a q (by rw [hpc]; rfl)
  have hmask : s.timerMask q = true ↔ s.size q ≠ 0 := by
    apply hs.mask
    intro b hb
    have hb' := hs.locked b q (Pc.locks_of_masked hb)
    rw [hlock] at hb'
    obtain rfl := Option.some.inj hb'
    rw [hpc] at hb
    exact hb
  unfold State.nextMask
  split_ifs with h1 h2
  · exact ⟨fun _ ↦ h1.2, fun _ ↦ rfl⟩
  · exact ⟨fun h ↦ absurd h (by decide), fun h ↦ absurd h2.2 h⟩
  · rw [hmask]
    tauto

omit [DecidableEq ε] [OrderTop T] in
/-- The mask's bit is published. -/
theorem Queues.publishMask (hs : Queues c s) {a : Agent n κ} {q : Fin n} {job : Job ε}
    (hpc : s.pc a = .publishMask q job) :
    Queues c ({ s with timerMask := Function.update s.timerMask q (s.nextMask q) }.goto a
      (.publishEarliest q job)) := by
  have hnext := hs.nextMask_iff hpc
  have hlock : s.lock q = some a := hs.locked a q (by rw [hpc]; rfl)
  obtain ⟨h1, h2, h3, h4, h5⟩ := hs
  simp only [State.goto]
  constructor
  · dsimp only
    grind -linarith
  · exact h2
  · dsimp only
    intro r h
    have hne : r ≠ q := by
      rintro rfl
      apply h a
      rw [Function.update_self]
      rfl
    rw [Function.update_of_ne hne]
    apply h3
    intro b hb
    specialize h b
    grind -linarith
  · dsimp only
    intro b r hb
    rcases eq_or_ne r q with rfl | hne
    · rw [Function.update_self]
      exact hnext
    · rw [Function.update_of_ne hne]
      apply h4 b
      grind -linarith
  · dsimp only
    intro r e he
    rcases eq_or_ne r q with rfl | hne
    · rcases h5 r e he with ⟨b, hb⟩ | h
      · have hba : b = a := by
          have hb' := h1 b r (Pc.locks_of_publishes hb)
          rw [hlock] at hb'
          exact (Option.some.inj hb').symm
        subst hba
        refine Or.inl ⟨b, ?_⟩
        rw [Function.update_self]
        rw [hpc] at hb
        cases job with
        | added f => exact hb
        | removed => exact hb
      · refine Or.inr ⟨?_, h.2⟩
        rw [Function.update_self]
        exact hnext.mpr (Nat.pos_iff_ne_zero.mp ((h2 r).indexed.size_pos he))
    · rcases h5 r e he with ⟨b, hb⟩ | h
      · refine Or.inl ⟨b, ?_⟩
        grind -linarith
      · refine Or.inr ?_
        rwa [Function.update_of_ne hne]

omit [DecidableEq ε] in
/-- The size and the earliest deadline are published. -/
theorem Queues.publishEarliest (hs : Queues c s) {a : Agent n κ} {q : Fin n} {job : Job ε}
    (hpc : s.pc a = .publishEarliest q job) :
    Queues c ({ s with
      size := Function.update s.size q (s.heap q).size
      earliest := Function.update s.earliest q (s.top c q) }.goto a (.unlock q job)) := by
  have hlock : s.lock q = some a := hs.locked a q (by rw [hpc]; rfl)
  have hmask : s.timerMask q = true ↔ (s.heap q).size ≠ 0 :=
    hs.maskNext a q (by rw [hpc]; rfl)
  have htop (e : ε) (he : (s.heap q).Mem e) : s.top c q ≤ c.deadline e := by
    rw [State.top, if_neg (Nat.pos_iff_ne_zero.mp ((hs.valid q).indexed.size_pos he))]
    exact (hs.valid q).top_le he
  obtain ⟨h1, h2, h3, h4, h5⟩ := hs
  simp only [State.goto]
  constructor
  · dsimp only
    grind -linarith
  · exact h2
  · dsimp only
    intro r h
    rcases eq_or_ne r q with rfl | hne
    · rw [Function.update_self]
      exact hmask
    · rw [Function.update_of_ne hne]
      apply h3
      intro b hb
      specialize h b
      grind -linarith
  · dsimp only
    intro b r hb
    apply h4 b
    grind -linarith
  · dsimp only
    intro r e he
    rcases eq_or_ne r q with rfl | hne
    · refine Or.inr ⟨?_, ?_⟩
      · exact hmask.mpr (Nat.pos_iff_ne_zero.mp ((h2 r).indexed.size_pos he))
      · rw [Function.update_self]
        exact htop e he
    · rcases h5 r e he with ⟨b, hb⟩ | h
      · refine Or.inl ⟨b, ?_⟩
        grind -linarith
      · refine Or.inr ?_
        rwa [Function.update_of_ne hne]

omit [DecidableEq ε] [OrderTop T] in
/-- The lock is given up. -/
theorem Queues.unlock (hs : Queues c s) {a : Agent n κ} {q : Fin n} {job : Job ε} {p : Pc n ε T}
    (hpc : s.pc a = .unlock q job) (hp : p.locks = none) :
    Queues c ({ s with lock := Function.update s.lock q none }.goto a p) := by
  have hlock : s.lock q = some a := hs.locked a q (by rw [hpc]; rfl)
  obtain ⟨h1, h2, h3, h4, h5⟩ := hs
  simp only [State.goto]
  constructor
  · dsimp only
    grind -linarith
  · exact h2
  · dsimp only
    intro r h
    apply h3
    intro b hb
    specialize h b
    grind -linarith
  · dsimp only
    grind -linarith
  · dsimp only
    intro r e he
    rcases h5 r e he with ⟨b, hb⟩ | h
    · refine Or.inl ⟨b, ?_⟩
      grind -linarith
    · exact Or.inr h

omit [DecidableEq ε] in
/-- Every step of a thread keeps the queues. -/
theorem Queues.work (hs : Queues c s) {a : Agent n κ} (hstep : s.work c a = some s') :
    Queues c s' := by
  unfold State.work at hstep
  cases hpc : s.pc a with
  | idle | asleep _ => simp only [hpc, reduceCtorEq] at hstep
  | publishMask q job =>
    simp only [hpc, Option.some.injEq] at hstep
    subst hstep
    exact hs.publishMask hpc
  | publishEarliest q job =>
    simp only [hpc, Option.some.injEq] at hstep
    subst hstep
    exact hs.publishEarliest hpc
  | unlock q job =>
    simp only [hpc, Option.some.injEq] at hstep
    subst hstep
    refine hs.unlock hpc ?_
    cases job <;> rfl
  | loadKeeper e | loadDeadline e k | unparkWorker e k =>
    simp only [hpc, Option.some.injEq] at hstep
    subst hstep
    refine hs.goto (a := a) (by rfl) (by rfl) (by rfl) (by rfl) (by rfl) (by rfl) ?_ ?_ <;> grind -linarith
  | wakeDriver e k | unpark e k | mark | loadMask | loadRampUp t | publish t | poll | release =>
    simp only [hpc, Option.some.injEq] at hstep
    subst hstep
    refine hs.goto (a := a) (by rfl) (by rfl) (by rfl) (by rfl) (by rfl) (by rfl) ?_ ?_ <;> grind -linarith
  | scan rest t =>
    cases rest <;>
    · simp only [hpc, Option.some.injEq] at hstep
      subst hstep
      refine hs.goto (a := a) (by rfl) (by rfl) (by rfl) (by rfl) (by rfl) (by rfl) ?_ ?_ <;> grind -linarith

omit [OrderTop T] in
/-- An operation on a queue keeps the queues. -/
theorem Queues.queueStep (hs : Queues c s) (hq : QueueStep c s s') : Queues c s' := by
  obtain ⟨hsame, ⟨hheap, hlock, hpc⟩ | ⟨a, q, heap, job, hchange⟩⟩ := hq
  · obtain ⟨h1, h2, h3, h4, h5⟩ := hs
    constructor
    · rwa [hlock, hpc]
    · rwa [hheap]
    · rwa [hpc, hsame.timerMask, hsame.size]
    · rwa [hpc, hsame.timerMask, hheap]
    · rwa [hheap, hpc, hsame.timerMask, hsame.earliest]
  · exact hs.changes hsame hchange

/-- Every other step keeps the queues. -/
theorem Queues.step (hs : Queues c s) {a : Action n κ ε T} (ha : a.onQueue = false)
    (hstep : step c s a = some s') : Queues c s' := by
  cases a with
  | construct _ _ | addTimer _ _ | addCallbackTimer _ _ | cancel _ _ | fireExpired _ _ _
  | fireCallbacksAndClose _ _ => nomatch ha
  | work b => exact hs.work hstep
  | becomeTimekeeper x =>
    simp only [Timekeeper.step.eq_def, State.tryBecomeTimekeeper] at hstep
    split_ifs at hstep
    obtain rfl := Option.some.inj hstep
    refine hs.goto (by rfl) (by rfl) (by rfl) (by rfl) (by rfl) (by rfl) ?_ ?_ <;> grind -linarith
  | maintain x =>
    simp only [Timekeeper.step.eq_def, State.tryBecomeTimekeeper] at hstep
    split_ifs at hstep
    obtain rfl := Option.some.inj hstep
    refine hs.goto (by rfl) (by rfl) (by rfl) (by rfl) (by rfl) (by rfl) ?_ ?_ <;> grind -linarith
  | wakeUp x consumes =>
    simp only [Timekeeper.step.eq_def, State.wakeUp] at hstep
    split at hstep
    · obtain rfl := Option.some.inj hstep
      refine hs.goto (by rfl) (by rfl) (by rfl) (by rfl) (by rfl) (by rfl) ?_ ?_ <;> grind -linarith
    · nomatch hstep
  | rampUp due | unparkOther x | wakeDriver =>
    obtain rfl := Option.some.inj hstep
    exact ⟨hs.locked, hs.valid, hs.mask, hs.maskNext, hs.published⟩
  | consumeToken x =>
    simp only [Timekeeper.step.eq_def] at hstep
    split_ifs at hstep
    obtain rfl := Option.some.inj hstep
    exact ⟨hs.locked, hs.valid, hs.mask, hs.maskNext, hs.published⟩

/-! ### The handshake -/

/-- The timekeeper has still to look at the queue, or will wake up in time for the deadline. -/
def Pc.clears (q : Fin n) (deadline : T) : Pc n ε T → Prop
  | .scan rest earliest => q ∈ rest ∨ earliest ≤ deadline
  | .loadRampUp earliest => earliest ≤ deadline
  | .publish wakeAt | .asleep wakeAt => wakeAt ≤ deadline
  | _ => True

/-- The thread adds the entry and has still to look for the timekeeper, or to wake it. -/
def Pc.carries (c : Config ε T) (e : ε) (w : Fin n) : Pc n ε T → Prop
  | .publishMask _ (.added f) | .publishEarliest _ (.added f) | .unlock _ (.added f)
  | .loadKeeper f => f = e
  | .loadDeadline f k | .unparkWorker f k => f = e ∧ k = w
  | .wakeDriver f k => f = e ∧ k = w ∧ c.hasDriver = true
  | .unpark f k => f = e ∧ k = w ∧ c.hasDriver = false
  | _ => False

/-- Every queued entry is taken care of, whoever goes to sleep with the role. -/
def Covered (c : Config ε T) (s : State n κ ε T) : Prop :=
  ∀ w q e, (s.heap q).Mem e → (s.pc (.worker w)).clears q (c.deadline e) ∨
    (∃ a, (s.pc a).carries c e w) ∨ s.woken c w = true

attribute [local grind] Pc.clears Pc.carries

omit [DecidableEq κ] [DecidableEq ε] [OrderTop T] in
/-- Only a worker in the role looks at the queues. -/
theorem Pc.clears_of_not_inRole {p : Pc n ε T} (h : p.inRole = false) (q : Fin n) (deadline : T) :
    p.clears q deadline := by
  cases p <;> first | exact trivial | nomatch h

omit [DecidableEq κ] [DecidableEq ε] [LinearOrder T] [OrderTop T] in
/-- Who has not published the entry still carries it. -/
theorem Pc.carries_of_publishes {p : Pc n ε T} {q : Fin n} {e : ε} (h : p.publishes q e)
    (w : Fin n) : p.carries c e w := by
  unfold Pc.publishes at h
  split at h
  · exact h.2
  · exact h.2
  · exact h.elim

omit [DecidableEq ε] [OrderTop T] in
/-- A thread outside the role goes on with what it carries. -/
theorem Covered.adder (hs : Covered c s) {a : Agent n κ} {p : Pc n ε T}
    (hpc : s'.pc = Function.update s.pc a p) (hp : p.inRole = false)
    (hnew : ∀ q e, (s'.heap q).Mem e → (s.heap q).Mem e ∨ ∀ w, p.carries c e w)
    (hwoken : ∀ w, s.woken c w = true → s'.woken c w = true)
    (hcarries : ∀ w q e, (s.pc a).carries c e w → p.carries c e w ∨ s'.woken c w = true ∨
      (s.pc (.worker w)).clears q (c.deadline e)) : Covered c s' := by
  intro w q e he
  rcases eq_or_ne (Agent.worker w) a with rfl | hne
  · left
    rw [hpc, Function.update_self]
    exact Pc.clears_of_not_inRole hp q _
  · have hsame : s'.pc (.worker w) = s.pc (.worker w) := by
      rw [hpc, Function.update_of_ne hne]
    have hself (h : p.carries c e w) : ∃ b, (s'.pc b).carries c e w :=
      ⟨a, by rwa [hpc, Function.update_self]⟩
    rw [hsame]
    rcases hnew q e he with hold | hcarried
    · rcases hs w q e hold with h | ⟨b, hb⟩ | h
      · exact Or.inl h
      · rcases eq_or_ne b a with rfl | hba
        · rcases hcarries w q e hb with h | h | h
          · exact Or.inr (Or.inl (hself h))
          · exact Or.inr (Or.inr h)
          · exact Or.inl h
        · exact Or.inr (Or.inl ⟨b, by rwa [hpc, Function.update_of_ne hba]⟩)
      · exact Or.inr (Or.inr (hwoken w h))
    · exact Or.inr (Or.inl (hself (hcarried w)))

omit [DecidableEq ε] [OrderTop T] in
/-- The timekeeper goes on. -/
theorem Covered.keeper (hs : Covered c s) {x : Fin n} {p : Pc n ε T} (hheap : s'.heap = s.heap)
    (hpc : s'.pc = Function.update s.pc (.worker x) p)
    (hcarries : ∀ e w, ¬ (s.pc (.worker x)).carries c e w)
    (hwoken : ∀ w, s.woken c w = true → s'.woken c w = true ∨ (s'.pc (.worker w)).inRole = false ∨
      (s'.pc (.worker w)) = .release)
    (hclears : ∀ q e, (s.heap q).Mem e → (s.pc (.worker x)).clears q (c.deadline e) →
      p.clears q (c.deadline e) ∨ ∃ b, (s.pc b).carries c e x) : Covered c s' := by
  intro w q e he
  rw [hheap] at he
  have hcarrier (y : Fin n) (h : ∃ b, (s.pc b).carries c e y) : ∃ b, (s'.pc b).carries c e y := by
    obtain ⟨b, hb⟩ := h
    refine ⟨b, ?_⟩
    rw [hpc, Function.update_of_ne]
    · exact hb
    · rintro rfl
      exact hcarries e y hb
  rcases hs w q e he with h | h | h
  · rcases eq_or_ne w x with rfl | hne
    · rcases hclears q e he h with h | h
      · exact Or.inl (by rwa [hpc, Function.update_self])
      · exact Or.inr (Or.inl (hcarrier w h))
    · have hne' : Agent.worker w ≠ (Agent.worker x : Agent n κ) := fun heq ↦ hne (Agent.worker.inj heq)
      exact Or.inl (by rwa [hpc, Function.update_of_ne hne'])
  · exact Or.inr (Or.inl (hcarrier w h))
  · rcases hwoken w h with h | h | h
    · exact Or.inr (Or.inr h)
    · exact Or.inl (Pc.clears_of_not_inRole h q _)
    · exact Or.inl (by rw [h]; exact trivial)

omit [DecidableEq κ] [DecidableEq ε] in
/-- Only the one in the role reads the queues for its sleep. -/
theorem Keeping.not_inRole (hs : Keeping s) {x : Fin n} (h : s.timekeeper ≠ some x) :
    (s.pc (.worker x)).inRole = false := by
  by_contra hrole
  rw [Bool.not_eq_false] at hrole
  obtain ⟨y, hy, hkeeper⟩ := hs.role _ hrole
  obtain rfl := Agent.worker.inj hy
  exact h hkeeper

omit [DecidableEq ε] in
/-- While one worker moves in the role, no other worker is in it. -/
theorem Keeping.not_inRole_update (hs : Keeping s) {x y : Fin n}
    (hx : (s.pc (.worker x)).inRole = true) (hne : y ≠ x) (p : Pc n ε T) :
    (Function.update s.pc (.worker x) p (.worker y)).inRole = false := by
  have hne' : Agent.worker y ≠ (Agent.worker x : Agent n κ) := fun heq ↦ hne (Agent.worker.inj heq)
  rw [Function.update_of_ne hne']
  by_contra hrole
  rw [Bool.not_eq_false] at hrole
  exact hne' (hs.unique hrole hx)

omit [DecidableEq κ] [DecidableEq ε] in
/-- A deadline that is not before `keeperDeadline` does not need a wake. -/
theorem Keeping.clears (hs : Keeping s) {x : Fin n} {q : Fin n} {deadline : T}
    (h : s.keeperDeadline ≤ deadline) : (s.pc (.worker x)).clears q deadline := by
  have htop (hscans : (s.pc (.worker x)).scans = true) : deadline = ⊤ := by
    rw [hs.scanning _ hscans] at h
    exact top_le_iff.mp h
  cases hpc : s.pc (.worker x) with
  | scan rest earliest =>
    rw [htop (by rw [hpc]; rfl)]
    exact Or.inr le_top
  | loadRampUp earliest =>
    rw [htop (by rw [hpc]; rfl)]
    exact le_top (a := earliest)
  | publish wakeAt =>
    rw [htop (by rw [hpc]; rfl)]
    exact le_top (a := wakeAt)
  | asleep wakeAt =>
    rw [hs.sleeping _ _ hpc] at h
    exact h
  | _ => exact trivial

omit [DecidableEq ε] in
/-- The steps of a thread in `publishLocked` and in the rest of `addTimer` keep the cover. -/
theorem Covered.add_work (hs : Covered c s) (hk : Keeping s) {a : Agent n κ}
    (ha : (s.pc a).inRole = false) (hstep : s.work c a = some s') : Covered c s' := by
  unfold State.work at hstep
  cases hpc : s.pc a with
  | idle | asleep _ => simp only [hpc, reduceCtorEq] at hstep
  | mark | loadMask | scan _ _ | loadRampUp _ | publish _ | poll | release =>
    rw [hpc] at ha
    nomatch ha
  | publishMask q job =>
    simp only [hpc, Option.some.injEq] at hstep
    subst hstep
    refine hs.adder (a := a) (by rfl) (by rfl) (fun _ _ h ↦ Or.inl h) (fun _ h ↦ h) ?_
    intro w r e h
    rw [hpc] at h
    cases job <;> exact Or.inl h
  | publishEarliest q job =>
    simp only [hpc, Option.some.injEq] at hstep
    subst hstep
    refine hs.adder (a := a) (by rfl) (by rfl) (fun _ _ h ↦ Or.inl h) (fun _ h ↦ h) ?_
    intro w r e h
    rw [hpc] at h
    cases job <;> exact Or.inl h
  | unlock q job =>
    simp only [hpc, Option.some.injEq] at hstep
    subst hstep
    cases job with
    | added f =>
      refine hs.adder (a := a) (by rfl) (by rfl) (fun _ _ h ↦ Or.inl h) (fun _ h ↦ h) ?_
      intro w r e h
      rw [hpc] at h
      exact Or.inl h
    | removed =>
      refine hs.adder (a := a) (by rfl) (by rfl) (fun _ _ h ↦ Or.inl h) (fun _ h ↦ h) ?_
      intro w r e h
      rw [hpc] at h
      exact h.elim
  | loadKeeper f =>
    simp only [hpc, Option.some.injEq] at hstep
    subst hstep
    cases hkeeper : s.timekeeper with
    | none =>
      refine hs.adder (a := a) (by rfl) (by rfl) (fun _ _ h ↦ Or.inl h) (fun _ h ↦ h) ?_
      intro w r e _
      have hout := hk.not_inRole (x := w) (by rw [hkeeper]; exact fun h ↦ nomatch h)
      exact Or.inr (Or.inr (Pc.clears_of_not_inRole hout r _))
    | some k =>
      refine hs.adder (a := a) (by rfl) (by rfl) (fun _ _ h ↦ Or.inl h) (fun _ h ↦ h) ?_
      intro w r e h
      rw [hpc] at h
      rcases eq_or_ne k w with rfl | hne
      · exact Or.inl ⟨h, rfl⟩
      · have hout := hk.not_inRole (x := w) (by rw [hkeeper]; exact fun h ↦ hne (Option.some.inj h))
        exact Or.inr (Or.inr (Pc.clears_of_not_inRole hout r _))
  | loadDeadline f k =>
    simp only [hpc, Option.some.injEq] at hstep
    subst hstep
    split_ifs with hlt
    · refine hs.adder (a := a) (by rfl) (by rfl) (fun _ _ h ↦ Or.inl h) (fun _ h ↦ h) ?_
      intro w r e h
      rw [hpc] at h
      exact Or.inl h
    · refine hs.adder (a := a) (by rfl) (by rfl) (fun _ _ h ↦ Or.inl h) (fun _ h ↦ h) ?_
      intro w r e h
      rw [hpc] at h
      obtain ⟨rfl, rfl⟩ := h
      exact Or.inr (Or.inr (hk.clears (not_lt.mp hlt)))
  | unparkWorker f k =>
    simp only [hpc, Option.some.injEq] at hstep
    subst hstep
    split_ifs with hdriver
    · simp only [Bool.and_eq_true, decide_eq_true_eq] at hdriver
      refine hs.adder (a := a) (by rfl) (by rfl) (fun _ _ h ↦ Or.inl h) (fun _ h ↦ h) ?_
      intro w r e h
      rw [hpc] at h
      exact Or.inl ⟨h.1, h.2, hdriver.1⟩
    · refine hs.adder (a := a) (by rfl) (by rfl) (fun _ _ h ↦ Or.inl h) (fun _ h ↦ h) ?_
      intro w r e h
      rw [hpc] at h
      obtain ⟨rfl, rfl⟩ := h
      by_cases hhas : c.hasDriver = true
      · have hkeeper : s.timekeeper ≠ some k := by
          intro heq
          simp only [hhas, heq, decide_true, Bool.and_true, not_true_eq_false] at hdriver
        exact Or.inr (Or.inr (Pc.clears_of_not_inRole (hk.not_inRole hkeeper) r _))
      · exact Or.inl ⟨rfl, rfl, Bool.eq_false_of_not_eq_true hhas⟩
  | wakeDriver f k =>
    simp only [hpc, Option.some.injEq] at hstep
    subst hstep
    refine hs.adder (a := a) (by rfl) (by rfl) (fun _ _ h ↦ Or.inl h) ?_ ?_
    · intro w h
      simp only [State.woken, State.goto] at h ⊢
      split_ifs at h ⊢
      · rfl
      · exact h
    · intro w r e h
      rw [hpc] at h
      refine Or.inr (Or.inl ?_)
      rw [State.woken, if_pos h.2.2]
      rfl
  | unpark f k =>
    simp only [hpc, Option.some.injEq] at hstep
    subst hstep
    refine hs.adder (a := a) (by rfl) (by rfl) (fun _ _ h ↦ Or.inl h) ?_ ?_
    · intro w h
      simp only [State.woken, State.goto, Function.update_apply] at h ⊢
      split_ifs at h ⊢
      · exact h
      · rfl
      · exact h
    · intro w r e h
      rw [hpc] at h
      obtain ⟨rfl, rfl, hnone⟩ := h
      refine Or.inr (Or.inl ?_)
      simp only [State.woken, State.goto, hnone, Bool.false_eq_true, if_false, Function.update_self]

omit [DecidableEq ε] in
/-- The steps of the timekeeper keep the cover. -/
theorem Covered.keeper_work (hs : Covered c s) (hq : Queues c s) (hk : Keeping s) {x : Fin n}
    (hx : (s.pc (.worker x)).inRole = true) (hstep : s.work c (.worker x) = some s') :
    Covered c s' := by
  unfold State.work at hstep
  cases hpc : s.pc (.worker x) with
  | idle | asleep _ => simp only [hpc, reduceCtorEq] at hstep
  | publishMask _ _ | publishEarliest _ _ | unlock _ _ | loadKeeper _ | loadDeadline _ _
  | unparkWorker _ _ | wakeDriver _ _ | unpark _ _ =>
    rw [hpc] at hx
    nomatch hx
  | mark =>
    simp only [hpc, Option.some.injEq] at hstep
    subst hstep
    refine hs.keeper (x := x) (by rfl) (by rfl) (by simp [hpc, Pc.carries])
      (fun _ h ↦ Or.inl h) ?_
    exact fun _ _ _ _ ↦ Or.inl trivial
  | loadMask =>
    simp only [hpc, Option.some.injEq] at hstep
    subst hstep
    refine hs.keeper (x := x) (by rfl) (by rfl) (by simp [hpc, Pc.carries])
      (fun _ h ↦ Or.inl h) ?_
    intro q e he _
    rcases hq.published q e he with ⟨b, hb⟩ | ⟨hmask, -⟩
    · exact Or.inr ⟨b, Pc.carries_of_publishes hb x⟩
    · exact Or.inl (Or.inl (List.mem_filter.mpr ⟨List.mem_finRange q, hmask⟩))
  | scan rest t =>
    cases rest with
    | nil =>
      simp only [hpc, Option.some.injEq] at hstep
      subst hstep
      refine hs.keeper (x := x) (by rfl) (by rfl) (by simp [hpc, Pc.carries])
        (fun _ h ↦ Or.inl h) ?_
      intro q e _ h
      rw [hpc] at h
      exact Or.inl (h.resolve_left List.not_mem_nil)
    | cons r rest =>
      simp only [hpc, Option.some.injEq] at hstep
      subst hstep
      refine hs.keeper (x := x) (by rfl) (by rfl) (by simp [hpc, Pc.carries])
        (fun _ h ↦ Or.inl h) ?_
      intro q e he h
      have hmin : (if s.earliest r < t then s.earliest r else t) ≤ s.earliest r ∧
          (if s.earliest r < t then s.earliest r else t) ≤ t := by
        split_ifs with hlt
        · exact ⟨le_rfl, hlt.le⟩
        · exact ⟨not_lt.mp hlt, le_rfl⟩
      rw [hpc] at h
      rcases h with h | h
      · rcases List.mem_cons.mp h with rfl | h
        · rcases hq.published q e he with ⟨b, hb⟩ | ⟨-, hearliest⟩
          · exact Or.inr ⟨b, Pc.carries_of_publishes hb x⟩
          · exact Or.inl (Or.inr (hmin.1.trans hearliest))
        · exact Or.inl (Or.inl h)
      · exact Or.inl (Or.inr (hmin.2.trans h))
  | loadRampUp t =>
    simp only [hpc, Option.some.injEq] at hstep
    subst hstep
    refine hs.keeper (x := x) (by rfl) (by rfl) (by simp [hpc, Pc.carries])
      (fun _ h ↦ Or.inl h) ?_
    intro q e _ h
    rw [hpc] at h
    refine Or.inl (le_trans ?_ h)
    split_ifs with hlt
    · exact hlt.le
    · exact le_rfl
  | publish t =>
    simp only [hpc, Option.some.injEq] at hstep
    subst hstep
    refine hs.keeper (x := x) (by rfl) (by rfl) (by simp [hpc, Pc.carries])
      (fun _ h ↦ Or.inl h) ?_
    intro q e _ h
    rw [hpc] at h
    exact Or.inl h
  | poll =>
    simp only [hpc, Option.some.injEq] at hstep
    subst hstep
    refine hs.keeper (x := x) (by rfl) (by rfl) (by simp [hpc, Pc.carries]) ?_ ?_
    · intro w _
      rcases eq_or_ne w x with rfl | hne
      · exact Or.inr (Or.inr (Function.update_self ..))
      · exact Or.inr (Or.inl (hk.not_inRole_update hx hne _))
    · exact fun _ _ _ _ ↦ Or.inl trivial
  | release =>
    simp only [hpc, Option.some.injEq] at hstep
    subst hstep
    refine hs.keeper (x := x) (by rfl) (by rfl) (by simp [hpc, Pc.carries])
      (fun _ h ↦ Or.inl h) ?_
    exact fun _ _ _ _ ↦ Or.inl trivial

omit [OrderTop T] in
/-- An operation on a queue keeps the cover: an entry it adds is carried by its thread. -/
theorem Covered.queueStep (hs : Covered c s) (hqueues : Queues c s) (hq : QueueStep c s s') :
    Covered c s' := by
  obtain ⟨hsame, ⟨hheap, -, hpc⟩ | ⟨a, q, heap, job, hchange⟩⟩ := hq
  · intro w q e he
    rw [hheap] at he
    have h := hs w q e he
    rwa [State.woken, hpc, hsame.driverWoken, hsame.token]
  · refine hs.adder hchange.pc rfl ?_ ?_ ?_
    · intro r e he
      rw [hchange.heaps] at he
      rcases eq_or_ne r q with rfl | hne
      · rw [Function.update_self] at he
        have hvalid := hqueues.valid r
        cases hchange.changed with
        | added f hnew =>
          rcases ((hvalid.push hnew).2.2 e).mp he with rfl | h
          · exact Or.inr fun _ ↦ rfl
          · exact Or.inl h
        | removed i hi => exact Or.inl (((hvalid.removeAt hi).2.2 e).mp he).1
      · rw [Function.update_of_ne hne] at he
        exact Or.inl he
    · intro w h
      rwa [State.woken, hsame.driverWoken, hsame.token]
    · intro w r e h
      rw [hchange.outside] at h
      exact h.elim

omit [OrderTop T] in
/-- Taking the role keeps the cover. -/
theorem Covered.claim (hs : Covered c s) {x : Fin n} {p : Pc n ε T}
    (hp : ∀ q deadline, p.clears q deadline) (hstep : s.tryBecomeTimekeeper x p = some s') :
    Covered c s' := by
  unfold State.tryBecomeTimekeeper at hstep
  split_ifs at hstep with hfree
  obtain rfl := Option.some.inj hstep
  refine hs.keeper (x := x) (by rfl) (by rfl) (by simp [hfree.1, Pc.carries])
    (fun _ h ↦ Or.inl h) ?_
  exact fun q e _ _ ↦ Or.inl (hp q _)

/-- Every other step keeps the cover. -/
theorem Covered.step (hs : Covered c s) (hq : Queues c s) (hk : Keeping s) {a : Action n κ ε T}
    (ha : a.onQueue = false) (hstep : step c s a = some s') : Covered c s' := by
  cases a with
  | construct _ _ | addTimer _ _ | addCallbackTimer _ _ | cancel _ _ | fireExpired _ _ _
  | fireCallbacksAndClose _ _ => nomatch ha
  | work b =>
    by_cases hrole : (s.pc b).inRole = true
    · obtain ⟨x, rfl, -⟩ := hk.role b hrole
      exact hs.keeper_work hq hk hrole hstep
    · exact hs.add_work hk (Bool.eq_false_of_not_eq_true hrole) hstep
  | becomeTimekeeper x => exact hs.claim (by intro _ _; trivial) hstep
  | maintain x =>
    simp only [Timekeeper.step.eq_def] at hstep
    split_ifs at hstep
    exact hs.claim (by intro _ _; trivial) hstep
  | wakeUp x consumes =>
    simp only [Timekeeper.step.eq_def, State.wakeUp] at hstep
    split at hstep
    · rename_i wakeAt hpc
      obtain rfl := Option.some.inj hstep
      refine hs.keeper (x := x) (by rfl) (by rfl) (by simp [hpc, Pc.carries]) ?_ ?_
      · intro w _
        rcases eq_or_ne w x with rfl | hne
        · exact Or.inr (Or.inr (Function.update_self ..))
        · exact Or.inr (Or.inl (hk.not_inRole_update (by rw [hpc]; rfl) hne _))
      · exact fun _ _ _ _ ↦ Or.inl trivial
    · nomatch hstep
  | rampUp due =>
    obtain rfl := Option.some.inj hstep
    exact hs
  | unparkOther x =>
    obtain rfl := Option.some.inj hstep
    intro w q e he
    refine (hs w q e he).imp_right (Or.imp_right fun h ↦ ?_)
    simp only [State.woken, Function.update_apply] at h ⊢
    split_ifs at h ⊢
    · exact h
    · rfl
    · exact h
  | wakeDriver =>
    obtain rfl := Option.some.inj hstep
    intro w q e he
    refine (hs w q e he).imp_right (Or.imp_right fun h ↦ ?_)
    simp only [State.woken] at h ⊢
    split_ifs at h ⊢
    · rfl
    · exact h
  | consumeToken x =>
    simp only [Timekeeper.step.eq_def] at hstep
    split_ifs at hstep with hidle
    obtain rfl := Option.some.inj hstep
    intro w q e he
    rcases eq_or_ne w x with rfl | hne
    · left
      dsimp only
      rw [hidle]
      trivial
    · refine (hs w q e he).imp_right (Or.imp_right fun h ↦ ?_)
      simpa only [State.woken, Function.update_of_ne hne] using h

/-! ### The contract -/

/-- The three invariants together. -/
structure Sound (c : Config ε T) (s : State n κ ε T) : Prop where
  keeping : Keeping s
  queues : Queues c s
  covered : Covered c s

/-- Every step keeps them. -/
theorem Sound.step (hs : Sound c s) {a : Action n κ ε T} (hstep : step c s a = some s') :
    Sound c s' := by
  by_cases ha : a.onQueue = true
  · have hq := queueStep_of_step (fun q ↦ (hs.queues.valid q).indexed) ha hstep
    exact ⟨hs.keeping.queueStep hq, hs.queues.queueStep hq, hs.covered.queueStep hs.queues hq⟩
  · have ha' : a.onQueue = false := Bool.eq_false_of_not_eq_true ha
    exact ⟨hs.keeping.step ha' hstep, hs.queues.step ha' hstep,
      hs.covered.step hs.queues hs.keeping ha' hstep⟩

/-- In every state reached, a timekeeper that sleeps while nobody is adding an entry wakes up in
time for every queued deadline, or has a wake pending. -/
theorem deadline_not_overslept [Inhabited ε] (c : Config ε T) {s : State n κ ε T}
    (hs : (system c).Reachable s) : Contract c s := by
  have hsound : Sound c s := by
    refine System.Reachable.invariant ?_ ?_ hs
    · intro s hinit
      obtain rfl : s = initial := hinit
      refine ⟨⟨?_, ?_, ?_⟩, Queues.initial, ?_⟩
      · exact fun _ h ↦ nomatch h
      · exact fun _ h ↦ nomatch h
      · exact fun _ _ h ↦ nomatch h
      · rintro w q e ⟨i, hi⟩
        nomatch hi
    · intro s a t hsound hstep
      exact hsound.step hstep
  intro w wakeAt hasleep hnobody q e he
  rcases hsound.covered w q e he with h | ⟨a, ha⟩ | h
  · rw [hasleep] at h
    exact Or.inl h
  · have hadds := hnobody a
    cases hpc : s.pc a with
    | publishMask _ job | publishEarliest _ job | unlock _ job =>
      rw [hpc] at ha hadds
      cases job with
      | added f => nomatch hadds
      | removed => exact ha.elim
    | loadKeeper _ | loadDeadline _ _ | unparkWorker _ _ | wakeDriver _ _ | unpark _ _ =>
      rw [hpc] at hadds
      nomatch hadds
    | _ =>
      rw [hpc] at ha
      exact ha.elim
  · exact Or.inr h

/-- Two workers and no driver; the entries are named by their deadlines. -/
def pairConfig : Config (Fin (2 ^ 32)) (Fin (2 ^ 32)) := ⟨false, id, fun _ ↦ false⟩

/-- One worker sleeps for the deadline 7 of its own queue when the other adds the deadline 3. -/
def earlierAdded : State 2 Unit (Fin (2 ^ 32)) (Fin (2 ^ 32)) :=
  ((system pairConfig).run initial
    ([Action.addTimer 0 7, .work (.worker 0), .work (.worker 0), .work (.worker 0),
      .work (.worker 0), .becomeTimekeeper 0] ++ List.replicate 6 (Action.work (.worker 0)) ++
      [Action.addTimer 1 3] ++ List.replicate 7 (Action.work (.worker 1)))).get (by decide +kernel)

theorem deadline_not_overslept_earlierAdded :
    (earlierAdded.pc (.worker 0) = .asleep 7 ∧ earlierAdded.woken pairConfig 0 = true) ∧
      Contract pairConfig earlierAdded :=
  ⟨by decide +kernel, deadline_not_overslept pairConfig
    (System.reachable_of_run rfl (Option.some_get _).symm)⟩

end Stackfull.Sched.Timekeeper
