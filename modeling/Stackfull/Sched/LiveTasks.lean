import Mathlib
import Stackfull.Sched.SlotCacheSafety

/-!
# What `liveTasks` counts

The counters add up to the number of tasks alive (`Counts`), and a scan reads them one by one, the
finished ones first. Whatever happens meanwhile, what it returns is not below the least number of
tasks alive since it began, and is exact if no task was created or finished (`liveTasks_bounds`).

It may be above the greatest number: a scan that has passed the counter of a task which then
finishes still counts the task, and also one created afterwards in its place. `acquireSlot` takes
such a result for "every slot is in use". Without such a creation its answer is right
(`slots_exhausted`); with it, it fails while a slot is on its way back (`spawn_fails_in_vain`).
-/

set_option autoImplicit false
set_option relaxedAutoImplicit false
set_option linter.dupNamespace false

namespace Stackfull.Sched.SlotCache

open Stackfull.Lib
open Stackfull.Sched.Tasks (Agent)

universe u

variable {n m : ℕ} {κ : Type u}

/-! ### The counters -/

/-- The sum of some counters. -/
def total (todo : List (Shard n)) (counter : Shard n → ℕ) : ℕ :=
  (todo.map counter).sum

/-- A counter is bumped. -/
theorem total_update {todo : List (Shard n)} (hnodup : todo.Nodup) (counter : Shard n → ℕ)
    (x : Shard n) :
    total todo (Function.update counter x (counter x + 1)) =
      total todo counter + if x ∈ todo then 1 else 0 := by
  induction todo with
  | nil => rfl
  | cons y todo ih =>
    obtain ⟨hy, htodo⟩ := List.nodup_cons.mp hnodup
    have hrest := ih htodo
    simp only [total, List.map_cons, List.sum_cons] at hrest ⊢
    rw [hrest]
    rcases eq_or_ne y x with rfl | hne
    · simp only [Function.update_self, List.mem_cons, true_or, if_true, if_neg hy]
      omega
    · simp only [Function.update_of_ne hne, List.mem_cons, hne.symm, false_or]
      omega

/-- The counters are read once each. -/
theorem nodup_shards : (shards n).Nodup := by
  refine List.nodup_cons.mpr ⟨by simp, ?_⟩
  exact (List.nodup_finRange n).map (Option.some_injective _)

/-- All counters are read. -/
theorem mem_shards (x : Shard n) : x ∈ shards n := by
  cases x <;> simp [shards]

variable [DecidableEq κ] {s s' : State n m κ} {a : Agent n κ} {p : Pc n m}

/-- The counters add up to the tasks alive, and a worker that is about to store a count has read the
latest one. -/
structure Counts (s : State n m κ) : Prop where
  ledger : Ledger s
  alive : total (shards n) s.created = total (shards n) s.finished + s.alive
  createStore : ∀ w slot value, s.pc (.worker w) = .countStore slot value →
    value = s.created (some w)
  finishStore : ∀ w slot value, s.pc (.worker w) = .finishStore slot value →
    value = s.finished (some w)

/-- The pair of counters a thread writes. -/
def shardOf : Agent n κ → Shard n
  | .worker w => some w
  | .foreign _ => none

/-- The thread is about to count its task as created. -/
def Pc.counts : Agent n κ → Pc n m → Bool
  | .worker _, .countStore _ _ | .foreign _, .countLoad _ => true
  | _, _ => false

/-- The thread is about to count its task as finished. -/
def Pc.finishes : Agent n κ → Pc n m → Bool
  | .worker _, .finishStore _ _ | .foreign _, .finishLoad _ => true
  | _, _ => false

/-- What a thread's step does to the counters and to the number of tasks alive. -/
inductive Tally (s s' : State n m κ) (a : Agent n κ) : Prop
  | quiet : s'.created = s.created → s'.finished = s.finished → s'.alive = s.alive → Tally s s' a
  | create : (s.pc a).counts a = true →
      s'.created = Function.update s.created (shardOf a) (s.created (shardOf a) + 1) →
      s'.finished = s.finished → s'.alive = s.alive + 1 → Tally s s' a
  | finish : (s.pc a).finishes a = true →
      s'.finished = Function.update s.finished (shardOf a) (s.finished (shardOf a) + 1) →
      s'.created = s.created → s'.alive + 1 = s.alive → Tally s s' a

omit [DecidableEq κ] in
/-- A slot that changes hands. -/
theorem alive_update (use : Fin m → Use n κ) (slot : Fin m) (new : Use n κ) :
    ∑ i, (Function.update use slot new i).isAlive.toNat + (use slot).isAlive.toNat =
      ∑ i, (use i).isAlive.toNat + new.isAlive.toNat := by
  have hrest : ∑ i ∈ Finset.univ.erase slot, (Function.update use slot new i).isAlive.toNat =
      ∑ i ∈ Finset.univ.erase slot, (use i).isAlive.toNat := by
    refine Finset.sum_congr rfl fun i hi ↦ ?_
    rw [Function.update_of_ne (Finset.ne_of_mem_erase hi)]
  have hold := Finset.add_sum_erase Finset.univ (fun i ↦ (use i).isAlive.toNat)
    (Finset.mem_univ slot)
  have hnew := Finset.add_sum_erase Finset.univ
    (fun i ↦ (Function.update use slot new i).isAlive.toNat) (Finset.mem_univ slot)
  simp only [Function.update_self] at hold hnew
  omega

omit [DecidableEq κ] in
/-- No task begins or ends to live. -/
theorem Tally.pass {slot : Fin m} {new : Use n κ} (hcreated : s'.created = s.created)
    (hfinished : s'.finished = s.finished) (huse : s'.use = Function.update s.use slot new)
    (h : (s.use slot).isAlive = new.isAlive) : Tally s s' a := by
  refine .quiet hcreated hfinished ?_
  have hpass := alive_update s.use slot new
  rw [h] at hpass
  rw [State.alive, State.alive, huse]
  omega

omit [DecidableEq κ] in
/-- A slot is of no task. -/
theorem Tally.same (hcreated : s'.created = s.created) (hfinished : s'.finished = s.finished)
    (huse : s'.use = s.use) : Tally s s' a := by
  refine .quiet hcreated hfinished ?_
  rw [State.alive, State.alive, huse]

/-- `popFreeSlot` is about no task. -/
theorem Tally.popFree (h : Ledger s) {empty : Bool} {found : Fin m → State n m κ → State n m κ}
    {missed : State n m κ} (hmissed : Tally s missed a)
    (hfound : ∀ slot rest, s.free = slot :: rest → s.use slot = .free →
      Tally s (found slot { s with free := rest }) a) : Tally s (s.popFree empty found missed) a := by
  unfold State.popFree
  split
  · exact hmissed
  · rename_i slot rest hfree
    split_ifs
    · exact hmissed
    · exact hfound slot rest hfree (h.use_of_free (by simp [hfree]))

/-- A slot taken from a cache is of no task. -/
theorem Tally.cacheTake (h : Ledger s) {w : Fin n} {next : Option (Fin m) → Pc n m}
    (hlocks : (s.pc a).locks a = some w) (hhanded : (s.pc a).handed = 0) :
    Tally s (s.cacheTake a w next) a := by
  unfold State.cacheTake
  split
  · exact .same rfl rfl rfl
  · rename_i slot hlast
    have hcached : s.cached w = s.cache w := by
      rw [State.cached, h.handed_of_locks hlocks hhanded, List.drop_zero]
    have huse : s.use slot = .cached w := by
      refine h.use_of_cached ?_
      rw [hcached]
      exact List.mem_of_getLast? hlast
    exact .pass rfl rfl rfl (by rw [huse]; rfl)

/-- What a worker's step does to the counters. -/
theorem Counts.tally_actOwn (h : Counts s) {w : Fin n} {flag : Bool}
    (hstep : s.actOwn w flag = some s') : Tally s s' (.worker w) := by
  have hlock {p : Pc n m} (hstep : s.acquireLock (.worker w) w p = some s') : Tally s s' (.worker w) := by
    unfold State.acquireLock at hstep
    split_ifs at hstep
    obtain rfl := Option.some.inj hstep
    exact .same rfl rfl rfl
  unfold State.actOwn at hstep
  cases hpc : s.pc (.worker w) with
  | lockOwn | putLock slot after =>
    simp only [hpc] at hstep
    exact hlock hstep
  | testOwn | countLoad slot | finishLoad slot | putTest slot after | putUnlock after =>
    simp only [hpc, Option.some.injEq] at hstep
    subst hstep
    exact .same rfl rfl rfl
  | refill =>
    simp only [hpc, Option.some.injEq] at hstep
    subst hstep
    refine .popFree h.ledger (.same rfl rfl rfl) fun slot rest _ huse ↦ ?_
    exact .pass rfl rfl rfl (by rw [huse]; rfl)
  | takeOwn =>
    simp only [hpc, Option.some.injEq] at hstep
    subst hstep
    exact .cacheTake h.ledger (by rw [hpc]; rfl) (by rw [hpc]; rfl)
  | unlockOwn got =>
    cases got with
    | none =>
      simp only [hpc, Option.some.injEq] at hstep
      subst hstep
      exact .same rfl rfl rfl
    | some slot =>
      simp only [hpc, Option.some.injEq] at hstep
      subst hstep
      have huse : s.use slot = .held (.worker w) := h.ledger.use_of_held (by rw [hpc]; rfl)
      exact .pass rfl rfl rfl (by rw [huse]; rfl)
  | countStore slot value =>
    simp only [hpc, Option.some.injEq] at hstep
    subst hstep
    have huse : s.use slot = .building (.worker w) := h.ledger.use_of_builds (by rw [hpc]; rfl)
    obtain rfl := h.createStore w slot value hpc
    refine .create (by rw [hpc]; rfl) ?_ rfl ?_
    · rfl
    · have hpass := alive_update s.use slot .live
      rw [huse] at hpass
      exact hpass
  | finishStore slot value =>
    simp only [hpc, Option.some.injEq] at hstep
    subst hstep
    have huse : s.use slot = .ending (.worker w) := h.ledger.use_of_ends (by rw [hpc]; rfl)
    obtain rfl := h.finishStore w slot value hpc
    refine .finish (by rw [hpc]; rfl) ?_ rfl ?_
    · rfl
    · have hpass := alive_update s.use slot (.held (.worker w))
      rw [huse] at hpass
      exact hpass
  | handBack i slot after =>
    simp only [hpc] at hstep
    split_ifs at hstep
    · obtain ⟨y, hy, rfl⟩ := Option.map_eq_some_iff.mp hstep
      have huse : s.use y = .cached w := by
        refine h.ledger.use_of_cached ?_
        rw [State.cached, hpc]
        obtain ⟨hlt, rfl⟩ := List.getElem?_eq_some_iff.mp hy
        rw [Pc.handed, List.drop_eq_getElem_cons hlt]
        exact List.mem_cons_self
      exact .pass rfl rfl rfl (by rw [huse]; rfl)
    · obtain rfl := Option.some.inj hstep
      exact .same rfl rfl rfl
  | putStore slot after =>
    simp only [hpc, Option.some.injEq] at hstep
    subst hstep
    have huse : s.use slot = .held (.worker w) := h.ledger.use_of_held (by rw [hpc]; rfl)
    exact .pass rfl rfl rfl (by rw [huse]; rfl)
  | _ => simp only [hpc, reduceCtorEq] at hstep

/-- What the step of another thread does to the counters. -/
theorem Counts.tally_actForeign (h : Counts s) {k : κ} {flag : Bool}
    (hstep : s.actForeign k flag = some s') : Tally s s' (.foreign k) := by
  unfold State.actForeign at hstep
  cases hpc : s.pc (.foreign k) with
  | popFirst =>
    simp only [hpc, Option.some.injEq] at hstep
    subst hstep
    refine .popFree h.ledger (.same rfl rfl rfl) fun slot rest _ huse ↦ ?_
    exact .pass rfl rfl rfl (by rw [huse]; rfl)
  | countLoad slot =>
    simp only [hpc, Option.some.injEq] at hstep
    subst hstep
    have huse : s.use slot = .building (.foreign k) := h.ledger.use_of_builds (by rw [hpc]; rfl)
    refine .create (by rw [hpc]; rfl) rfl rfl ?_
    have hpass := alive_update s.use slot .live
    rw [huse] at hpass
    exact hpass
  | finishLoad slot =>
    simp only [hpc, Option.some.injEq] at hstep
    subst hstep
    have huse : s.use slot = .ending (.foreign k) := h.ledger.use_of_ends (by rw [hpc]; rfl)
    refine .finish (by rw [hpc]; rfl) rfl rfl ?_
    have hpass := alive_update s.use slot (.held (.foreign k))
    rw [huse] at hpass
    exact hpass
  | putFree slot after =>
    simp only [hpc, Option.some.injEq] at hstep
    subst hstep
    have huse : s.use slot = .held (.foreign k) := h.ledger.use_of_held (by rw [hpc]; rfl)
    exact .pass rfl rfl rfl (by rw [huse]; rfl)
  | _ => simp only [hpc, reduceCtorEq] at hstep

/-- What a thread's step does to the counters. -/
theorem Counts.tally_act (h : Counts s) {flag : Bool} (hstep : s.act a flag = some s') :
    Tally s s' a := by
  unfold State.act at hstep
  cases hpc : s.pc a with
  | raidLock todo =>
    cases todo with
    | nil =>
      simp only [hpc, Option.some.injEq] at hstep
      subst hstep
      exact .same rfl rfl rfl
    | cons victim todo =>
      simp only [hpc, State.acquireLock] at hstep
      split_ifs at hstep
      all_goals
        obtain rfl := Option.some.inj hstep
        exact .same rfl rfl rfl
  | raidTake victim todo =>
    simp only [hpc, Option.some.injEq] at hstep
    subst hstep
    exact .cacheTake h.ledger (by rw [hpc]; rfl) (by rw [hpc]; rfl)
  | raidUnlock victim todo got =>
    cases got with
    | none =>
      simp only [hpc, Option.some.injEq] at hstep
      subst hstep
      exact .same rfl rfl rfl
    | some slot =>
      simp only [hpc, Option.some.injEq] at hstep
      subst hstep
      have huse : s.use slot = .held a := h.ledger.use_of_held (by rw [hpc]; rfl)
      exact .pass rfl rfl rfl (by rw [huse]; rfl)
  | popLast =>
    simp only [hpc, Option.some.injEq] at hstep
    subst hstep
    refine .popFree h.ledger (.same rfl rfl rfl) fun slot rest _ huse ↦ ?_
    exact .pass rfl rfl rfl (by rw [huse]; rfl)
  | scanFinished todo finished purpose | scanCreated todo created finished purpose =>
    cases todo <;> simp only [hpc, Option.some.injEq] at hstep <;> subst hstep <;>
      exact .same rfl rfl rfl
  | scanned result purpose =>
    cases purpose <;> simp only [hpc, Option.some.injEq] at hstep <;> subst hstep <;>
      exact .same rfl rfl rfl
  | checkStop | allocate slot | checkStopping =>
    simp only [hpc, Option.some.injEq] at hstep
    subst hstep
    split_ifs <;> exact .same rfl rfl rfl
  | carve slot | construct slot | register slot | dropStack slot failure | failed failure
  | clearTable slot | freeStack slot =>
    simp only [hpc, Option.some.injEq] at hstep
    subst hstep
    exact .same rfl rfl rfl
  | dropSlot slot failure =>
    simp only [hpc, Option.some.injEq] at hstep
    subst hstep
    have huse : s.use slot = .building a := h.ledger.use_of_builds (by rw [hpc]; rfl)
    exact .pass rfl rfl rfl (by rw [huse]; rfl)
  | _ =>
    simp only [hpc] at hstep
    cases a with
    | worker w => exact h.tally_actOwn hstep
    | foreign k => exact h.tally_actForeign hstep

/-! ### Where a thread goes -/

/-- The thread is in `liveTasks`. -/
def Pc.scans : Pc n m → Bool
  | .scanFinished _ _ _ | .scanCreated _ _ _ _ | .scanned _ _ => true
  | _ => false

/-- The thread is about to store a count. -/
def Pc.stores : Pc n m → Bool
  | .countStore _ _ | .finishStore _ _ => true
  | _ => false

/-- Why the thread's `createTask` fails. -/
def Pc.blames : Pc n m → Option Failure
  | .dropStack _ failure | .dropSlot _ failure | .failed failure => some failure
  | .putLock _ (.failed failure) | .putTest _ (.failed failure) | .handBack _ _ (.failed failure)
  | .putStore _ (.failed failure) | .putUnlock (.failed failure) | .putFree _ (.failed failure) =>
    some failure
  | _ => none

/-- Where a thread's step takes it, and what it does to its watch. -/
inductive Goes (s : State n m κ) (a : Agent n κ) (old : Pc n m) : Watch → Pc n m → Prop
  | plain {p : Pc n m} : p.scans = false → p.stores = false →
      (p.blames = some .unavailable → old.blames = some .unavailable) → Goes s a old (s.watch a) p
  | acquire : Goes s a old { s.watch a with most := 0 } (tryAcquireSlot a)
  | start (purpose : Purpose) : old.counts a = false →
      Goes s a old { s.watch a with least := s.alive, still := true }
        (.scanFinished (shards n) 0 purpose)
  | readFinished {x : Shard n} {todo : List (Shard n)} {finished : ℕ} {purpose : Purpose} :
      old = .scanFinished (x :: todo) finished purpose →
      Goes s a old (s.watch a) (.scanFinished todo (finished + s.finished x) purpose)
  | turn {finished : ℕ} {purpose : Purpose} : old = .scanFinished [] finished purpose →
      Goes s a old (s.watch a) (.scanCreated (shards n) 0 finished purpose)
  | readCreated {x : Shard n} {todo : List (Shard n)} {created finished : ℕ} {purpose : Purpose} :
      old = .scanCreated (x :: todo) created finished purpose →
      Goes s a old (s.watch a) (.scanCreated todo (created + s.created x) finished purpose)
  | ends {created finished : ℕ} {purpose : Purpose} :
      old = .scanCreated [] created finished purpose →
      Goes s a old (s.watch a) (.scanned ((created : ℤ) - finished) purpose)
  | exhausted {result : ℤ} : old = .scanned result .acquire → (m : ℤ) ≤ result →
      Goes s a old (s.watch a) (.failed .unavailable)
  | loadCreated {w : Fin n} {slot : Fin m} : a = .worker w → old = .countLoad slot →
      Goes s a old (s.watch a) (.countStore slot (s.created (some w)))
  | loadFinished {w : Fin n} {slot : Fin m} : a = .worker w → old = .finishLoad slot →
      Goes s a old (s.watch a) (.finishStore slot (s.finished (some w)))

/-- A thread's step moves the thread alone. -/
structure Alone (s s' : State n m κ) (a : Agent n κ) (p : Pc n m) : Prop where
  pc : s'.pc = Function.update s.pc a p
  watch : ∀ b, b ≠ a → s'.watch b = s.watch b
  goes : Goes s a (s.pc a) (s'.watch a) p

/-- A step that leaves the watches alone. -/
theorem Alone.plain (hpc : s'.pc = Function.update s.pc a p) (hwatch : s'.watch = s.watch)
    (hscans : p.scans = false) (hstores : p.stores = false)
    (hblames : p.blames = some .unavailable → (s.pc a).blames = some .unavailable) :
    Alone s s' a p := by
  refine ⟨hpc, fun _ _ ↦ by rw [hwatch], ?_⟩
  rw [hwatch]
  exact .plain hscans hstores hblames

/-- A thread takes a lock, alone. -/
theorem Alone.acquireLock {w : Fin n} (hstep : s.acquireLock a w p = some s')
    (hscans : p.scans = false) (hstores : p.stores = false)
    (hblames : p.blames = some .unavailable → (s.pc a).blames = some .unavailable) :
    Alone s s' a p := by
  unfold State.acquireLock at hstep
  split_ifs at hstep
  obtain rfl := Option.some.inj hstep
  exact .plain rfl rfl hscans hstores hblames

/-- A thread pops the free list, alone. -/
theorem Alone.popFree {empty : Bool} {found : Fin m → State n m κ → State n m κ}
    {missed : State n m κ} (hmissed : ∃ p, Alone s missed a p)
    (hfound : ∀ slot rest, ∃ p, Alone s (found slot { s with free := rest }) a p) :
    ∃ p, Alone s (s.popFree empty found missed) a p := by
  unfold State.popFree
  split
  · exact hmissed
  · split_ifs
    · exact hmissed
    · exact hfound _ _

/-- A thread takes a slot from a cache, alone. -/
theorem Alone.cacheTake {w : Fin n} {next : Option (Fin m) → Pc n m}
    (hnext : ∀ got, (next got).scans = false ∧ (next got).stores = false ∧
      (next got).blames = none) : ∃ p, Alone s (s.cacheTake a w next) a p := by
  unfold State.cacheTake
  split
  · exact ⟨next none, .plain rfl rfl (hnext _).1 (hnext _).2.1 (by simp [(hnext none).2.2])⟩
  · rename_i slot _
    exact ⟨next (some slot), .plain rfl rfl (hnext _).1 (hnext _).2.1
      (by simp [(hnext (some slot)).2.2])⟩

attribute [local simp] Pc.blames

/-- What a worker does inside the lock of its own cache, and around it, it does alone. -/
theorem actOwn_alone {w : Fin n} {flag : Bool} (hstep : s.actOwn w flag = some s') :
    ∃ p, Alone s s' (.worker w) p := by
  unfold State.actOwn at hstep
  cases hpc : s.pc (.worker w) with
  | lockOwn =>
    simp only [hpc] at hstep
    exact ⟨_, .acquireLock hstep rfl rfl (by simp)⟩
  | putLock slot after =>
    simp only [hpc] at hstep
    refine ⟨_, .acquireLock hstep rfl rfl ?_⟩
    rw [hpc]
    cases after <;> exact id
  | testOwn =>
    simp only [hpc, Option.some.injEq] at hstep
    subst hstep
    split_ifs
    · exact ⟨.refill, .plain rfl rfl rfl rfl (by simp)⟩
    · exact ⟨.takeOwn, .plain rfl rfl rfl rfl (by simp)⟩
  | refill =>
    simp only [hpc, Option.some.injEq] at hstep
    subst hstep
    refine Alone.popFree ⟨.takeOwn, .plain rfl rfl rfl rfl (by simp)⟩ fun slot rest ↦ ?_
    split_ifs
    · exact ⟨.refill, .plain rfl rfl rfl rfl (by simp)⟩
    · exact ⟨.takeOwn, .plain rfl rfl rfl rfl (by simp)⟩
  | takeOwn =>
    simp only [hpc, Option.some.injEq] at hstep
    subst hstep
    exact Alone.cacheTake fun _ ↦ ⟨rfl, rfl, rfl⟩
  | unlockOwn got =>
    cases got with
    | none =>
      simp only [hpc, Option.some.injEq] at hstep
      subst hstep
      exact ⟨.raidLock (List.finRange n), .plain rfl rfl rfl rfl (by simp)⟩
    | some slot =>
      simp only [hpc, Option.some.injEq] at hstep
      subst hstep
      exact ⟨.allocate slot, .plain rfl rfl rfl rfl (by simp)⟩
  | countLoad slot =>
    simp only [hpc, Option.some.injEq] at hstep
    subst hstep
    exact ⟨_, rfl, fun _ _ ↦ rfl, .loadCreated rfl hpc⟩
  | finishLoad slot =>
    simp only [hpc, Option.some.injEq] at hstep
    subst hstep
    exact ⟨_, rfl, fun _ _ ↦ rfl, .loadFinished rfl hpc⟩
  | countStore slot value =>
    simp only [hpc, Option.some.injEq] at hstep
    subst hstep
    exact ⟨.idle, .plain rfl rfl rfl rfl (by simp)⟩
  | finishStore slot value =>
    simp only [hpc, Option.some.injEq] at hstep
    subst hstep
    exact ⟨.putLock slot .released, .plain rfl rfl rfl rfl (by simp)⟩
  | putTest slot after =>
    simp only [hpc, Option.some.injEq] at hstep
    subst hstep
    split_ifs
    · refine ⟨.handBack 0 slot after, .plain rfl rfl rfl rfl ?_⟩
      rw [hpc]
      cases after <;> exact id
    · refine ⟨.putStore slot after, .plain rfl rfl rfl rfl ?_⟩
      rw [hpc]
      cases after <;> exact id
  | handBack i slot after =>
    simp only [hpc] at hstep
    split_ifs at hstep
    · obtain ⟨y, hy, rfl⟩ := Option.map_eq_some_iff.mp hstep
      refine ⟨.handBack (i + 1) slot after, .plain rfl rfl rfl rfl ?_⟩
      rw [hpc]
      cases after <;> exact id
    · obtain rfl := Option.some.inj hstep
      refine ⟨.putStore slot after, .plain rfl rfl rfl rfl ?_⟩
      rw [hpc]
      cases after <;> exact id
  | putStore slot after =>
    simp only [hpc, Option.some.injEq] at hstep
    subst hstep
    refine ⟨.putUnlock after, .plain rfl rfl rfl rfl ?_⟩
    rw [hpc]
    cases after <;> exact id
  | putUnlock after =>
    simp only [hpc, Option.some.injEq] at hstep
    subst hstep
    refine ⟨after.pc, ?_⟩
    cases after <;> refine .plain rfl rfl rfl rfl ?_ <;> rw [hpc] <;> exact id
  | _ => simp only [hpc, reduceCtorEq] at hstep

/-- What another thread does, it does alone. -/
theorem actForeign_alone {k : κ} {flag : Bool} (hstep : s.actForeign k flag = some s') :
    ∃ p, Alone s s' (.foreign k) p := by
  unfold State.actForeign at hstep
  cases hpc : s.pc (.foreign k) with
  | popFirst =>
    simp only [hpc, Option.some.injEq] at hstep
    subst hstep
    refine Alone.popFree ⟨.raidLock (List.finRange n), .plain rfl rfl rfl rfl (by simp)⟩
      fun slot rest ↦ ?_
    exact ⟨.allocate slot, .plain rfl rfl rfl rfl (by simp)⟩
  | countLoad slot =>
    simp only [hpc, Option.some.injEq] at hstep
    subst hstep
    exact ⟨.idle, .plain rfl rfl rfl rfl (by simp)⟩
  | finishLoad slot =>
    simp only [hpc, Option.some.injEq] at hstep
    subst hstep
    exact ⟨.putFree slot .released, .plain rfl rfl rfl rfl (by simp)⟩
  | putFree slot after =>
    simp only [hpc, Option.some.injEq] at hstep
    subst hstep
    refine ⟨after.pc, ?_⟩
    cases after <;> refine .plain rfl rfl rfl rfl ?_ <;> rw [hpc] <;> exact id
  | _ => simp only [hpc, reduceCtorEq] at hstep

/-- A thread's step moves the thread alone. -/
theorem act_alone {flag : Bool} (hstep : s.act a flag = some s') : ∃ p, Alone s s' a p := by
  have hscan (hcounts : (s.pc a).counts a = false) (purpose : Purpose) :
      ∃ p, Alone s (s.startScan a purpose) a p := by
    refine ⟨.scanFinished (shards n) 0 purpose, rfl, ?_, ?_⟩
    · intro b hb
      simp only [State.startScan, State.goto, Function.update_of_ne hb]
    · simp only [State.startScan, State.goto, Function.update_self]
      exact .start purpose hcounts
  have htry : ∃ p, Alone s (s.goto a (tryAcquireSlot a)) a p := by
    refine ⟨tryAcquireSlot a, ?_⟩
    cases a <;> exact .plain rfl rfl rfl rfl (by simp [tryAcquireSlot])
  unfold State.act at hstep
  cases hpc : s.pc a with
  | checkStop =>
    simp only [hpc, Option.some.injEq] at hstep
    subst hstep
    split_ifs
    · exact ⟨.failed .canceled, .plain rfl rfl rfl rfl (by simp)⟩
    · refine ⟨tryAcquireSlot a, rfl, ?_, ?_⟩
      · intro b hb
        simp only [State.startAcquire, State.goto, Function.update_of_ne hb]
      · simp only [State.startAcquire, State.goto, Function.update_self]
        exact .acquire
  | raidLock todo =>
    cases todo with
    | nil =>
      simp only [hpc, Option.some.injEq] at hstep
      subst hstep
      exact ⟨.popLast, .plain rfl rfl rfl rfl (by simp)⟩
    | cons victim todo =>
      simp only [hpc] at hstep
      split_ifs at hstep
      · obtain rfl := Option.some.inj hstep
        exact ⟨.raidLock todo, .plain rfl rfl rfl rfl (by simp)⟩
      · exact ⟨_, .acquireLock hstep rfl rfl (by simp)⟩
  | raidTake victim todo =>
    simp only [hpc, Option.some.injEq] at hstep
    subst hstep
    exact Alone.cacheTake fun _ ↦ ⟨rfl, rfl, rfl⟩
  | raidUnlock victim todo got =>
    cases got with
    | none =>
      simp only [hpc, Option.some.injEq] at hstep
      subst hstep
      exact ⟨.raidLock todo, .plain rfl rfl rfl rfl (by simp)⟩
    | some slot =>
      simp only [hpc, Option.some.injEq] at hstep
      subst hstep
      exact ⟨.allocate slot, .plain rfl rfl rfl rfl (by simp)⟩
  | popLast =>
    simp only [hpc, Option.some.injEq] at hstep
    subst hstep
    refine Alone.popFree (hscan (by rw [hpc]; cases a <;> rfl) .acquire) fun slot rest ↦ ?_
    exact ⟨.allocate slot, .plain rfl rfl rfl rfl (by simp)⟩
  | scanFinished todo finished purpose =>
    cases todo with
    | nil =>
      simp only [hpc, Option.some.injEq] at hstep
      subst hstep
      exact ⟨_, rfl, fun _ _ ↦ rfl, .turn hpc⟩
    | cons x todo =>
      simp only [hpc, Option.some.injEq] at hstep
      subst hstep
      exact ⟨_, rfl, fun _ _ ↦ rfl, .readFinished hpc⟩
  | scanCreated todo created finished purpose =>
    cases todo with
    | nil =>
      simp only [hpc, Option.some.injEq] at hstep
      subst hstep
      exact ⟨_, rfl, fun _ _ ↦ rfl, .ends hpc⟩
    | cons x todo =>
      simp only [hpc, Option.some.injEq] at hstep
      subst hstep
      exact ⟨_, rfl, fun _ _ ↦ rfl, .readCreated hpc⟩
  | scanned result purpose =>
    cases purpose with
    | acquire =>
      simp only [hpc, Option.some.injEq] at hstep
      subst hstep
      split_ifs with hfull
      · exact ⟨_, rfl, fun _ _ ↦ rfl, .exhausted hpc hfull⟩
      · exact htry
    | release | count =>
      simp only [hpc, Option.some.injEq] at hstep
      subst hstep
      exact ⟨.idle, .plain rfl rfl rfl rfl (by simp)⟩
  | allocate slot =>
    simp only [hpc, Option.some.injEq] at hstep
    subst hstep
    split_ifs
    · exact ⟨.dropSlot slot .noStack, .plain rfl rfl rfl rfl (by simp)⟩
    · exact ⟨.carve slot, .plain rfl rfl rfl rfl (by simp)⟩
  | carve slot =>
    simp only [hpc, Option.some.injEq] at hstep
    subst hstep
    split_ifs
    · exact ⟨.dropStack slot .invalid, .plain rfl rfl rfl rfl (by simp)⟩
    · exact ⟨.construct slot, .plain rfl rfl rfl rfl (by simp)⟩
  | construct slot =>
    simp only [hpc, Option.some.injEq] at hstep
    subst hstep
    split_ifs
    · exact ⟨.dropStack slot .threw, .plain rfl rfl rfl rfl (by simp)⟩
    · exact ⟨.register slot, .plain rfl rfl rfl rfl (by simp)⟩
  | register slot =>
    simp only [hpc, Option.some.injEq] at hstep
    subst hstep
    exact ⟨.countLoad slot, .plain rfl rfl rfl rfl (by simp)⟩
  | dropStack slot failure =>
    simp only [hpc, Option.some.injEq] at hstep
    subst hstep
    exact ⟨.dropSlot slot failure, .plain rfl rfl rfl rfl (by rw [hpc]; exact id)⟩
  | dropSlot slot failure =>
    simp only [hpc, Option.some.injEq] at hstep
    subst hstep
    refine ⟨releaseSlot slot (.failed failure) a, ?_⟩
    cases a <;> refine .plain rfl rfl rfl rfl ?_ <;> rw [hpc] <;> exact id
  | failed failure =>
    simp only [hpc, Option.some.injEq] at hstep
    subst hstep
    exact ⟨.idle, .plain rfl rfl rfl rfl (by simp)⟩
  | clearTable slot =>
    simp only [hpc, Option.some.injEq] at hstep
    subst hstep
    exact ⟨.freeStack slot, .plain rfl rfl rfl rfl (by simp)⟩
  | freeStack slot =>
    simp only [hpc, Option.some.injEq] at hstep
    subst hstep
    exact ⟨.finishLoad slot, .plain rfl rfl rfl rfl (by simp)⟩
  | checkStopping =>
    simp only [hpc, Option.some.injEq] at hstep
    subst hstep
    split_ifs
    · exact hscan (by rw [hpc]; cases a <;> rfl) .release
    · exact ⟨.idle, .plain rfl rfl rfl rfl (by simp)⟩
  | _ =>
    simp only [hpc] at hstep
    cases a with
    | worker w => exact actOwn_alone hstep
    | foreign k => exact actForeign_alone hstep

/-- A step that nobody notices. -/
structure Unnoticed (s s' : State n m κ) : Prop where
  pc : s'.pc = s.pc
  watch : s'.watch = s.watch
  created : s'.created = s.created
  finished : s'.finished = s.finished
  alive : s'.alive = s.alive

/-- A step moves one thread, or none. -/
theorem Counts.move_cases (h : Counts s) {b : Action n m κ} (hstep : move s b = some s') :
    Unnoticed s s' ∨ ∃ a p, Alone s s' a p ∧ Tally s s' a ∧
      ((s.pc a).counts a = true → ∃ flag, b = .act a flag) := by
  cases b with
  | stop =>
    obtain rfl := Option.some.inj hstep
    exact Or.inl ⟨rfl, rfl, rfl, rfl, rfl⟩
  | createTask a =>
    simp only [move] at hstep
    split_ifs at hstep with hidle
    obtain rfl := Option.some.inj hstep
    refine Or.inr ⟨a, .checkStop, .plain rfl rfl rfl rfl (by simp), .same rfl rfl rfl, ?_⟩
    rw [hidle]
    cases a <;> exact fun hc ↦ by cases hc
  | releaseTask a slot =>
    simp only [move] at hstep
    split_ifs at hstep with hidle
    obtain rfl := Option.some.inj hstep
    refine Or.inr ⟨a, .clearTable slot, .plain rfl rfl rfl rfl (by simp),
      .pass rfl rfl rfl (by rw [hidle.2]; rfl), ?_⟩
    rw [hidle.1]
    cases a <;> exact fun hc ↦ by cases hc
  | liveTasks a =>
    simp only [move] at hstep
    split_ifs at hstep with hidle
    obtain rfl := Option.some.inj hstep
    refine Or.inr ⟨a, .scanFinished (shards n) 0 .count, ⟨rfl, ?_, ?_⟩, .same rfl rfl rfl, ?_⟩
    · intro b hb
      simp only [State.startScan, State.goto, Function.update_of_ne hb]
    · simp only [State.startScan, State.goto, Function.update_self]
      exact .start .count (by rw [hidle]; cases a <;> rfl)
    · rw [hidle]
      cases a <;> exact fun hc ↦ by cases hc
  | act a flag =>
    obtain ⟨p, hp⟩ := act_alone hstep
    exact Or.inr ⟨a, p, hp, h.tally_act hstep, fun _ ↦ ⟨flag, rfl⟩⟩

/-- A worker that is about to store how many tasks it has created has read the counter just now, or
stands where it stood. -/
theorem Alone.countStore (h : Alone s s' a p) {w : Fin n} {slot : Fin m} {value : ℕ}
    (hpc : s'.pc (.worker w) = .countStore slot value) :
    (a = .worker w ∧ s.pc a = .countLoad slot ∧ value = s.created (some w)) ∨
      (a ≠ .worker w ∧ s.pc (.worker w) = .countStore slot value) := by
  rw [h.pc] at hpc
  rcases eq_or_ne (.worker w) a with rfl | hne
  · rw [Function.update_self] at hpc
    have hgoes := h.goes
    rw [hpc] at hgoes
    generalize s'.watch (.worker w) = watch at hgoes
    cases hgoes with
    | plain _ hstores _ => nomatch hstores
    | loadCreated ha hold =>
      obtain rfl := Agent.worker.inj ha
      exact Or.inl ⟨rfl, hold, rfl⟩
  · rw [Function.update_of_ne hne] at hpc
    exact Or.inr ⟨hne.symm, hpc⟩

/-- A worker that is about to store how many tasks it has finished has read the counter just now, or
stands where it stood. -/
theorem Alone.finishStore (h : Alone s s' a p) {w : Fin n} {slot : Fin m} {value : ℕ}
    (hpc : s'.pc (.worker w) = .finishStore slot value) :
    (a = .worker w ∧ s.pc a = .finishLoad slot ∧ value = s.finished (some w)) ∨
      (a ≠ .worker w ∧ s.pc (.worker w) = .finishStore slot value) := by
  rw [h.pc] at hpc
  rcases eq_or_ne (.worker w) a with rfl | hne
  · rw [Function.update_self] at hpc
    have hgoes := h.goes
    rw [hpc] at hgoes
    generalize s'.watch (.worker w) = watch at hgoes
    cases hgoes with
    | plain _ hstores _ => nomatch hstores
    | loadFinished ha hold =>
      obtain rfl := Agent.worker.inj ha
      exact Or.inl ⟨rfl, hold, rfl⟩
  · rw [Function.update_of_ne hne] at hpc
    exact Or.inr ⟨hne.symm, hpc⟩

omit [DecidableEq κ] in
/-- A worker's counters are written by the worker only. -/
theorem shardOf_eq_some {w : Fin n} (h : shardOf a = some w) : a = .worker w := by
  cases a with
  | worker v => rw [Option.some.inj h]
  | foreign k => nomatch h

omit [DecidableEq κ] in
/-- What a step leaves of a worker's count of the tasks it created. -/
theorem Tally.created_frame (h : Tally s s' a) {w : Fin n}
    (hcounts : a = .worker w → (s.pc a).counts a = false) :
    s'.created (some w) = s.created (some w) := by
  cases h with
  | quiet hcreated _ _ => rw [hcreated]
  | create hpc hcreated _ _ =>
    have hne : some w ≠ shardOf a := by
      intro hw
      rw [hcounts (shardOf_eq_some hw.symm)] at hpc
      nomatch hpc
    rw [hcreated, Function.update_of_ne hne]
  | finish _ _ hcreated _ => rw [hcreated]

omit [DecidableEq κ] in
/-- What a step leaves of a worker's count of the tasks it finished. -/
theorem Tally.finished_frame (h : Tally s s' a) {w : Fin n}
    (hfinishes : a = .worker w → (s.pc a).finishes a = false) :
    s'.finished (some w) = s.finished (some w) := by
  cases h with
  | quiet _ hfinished _ => rw [hfinished]
  | create _ _ hfinished _ => rw [hfinished]
  | finish hpc hfinished _ _ =>
    have hne : some w ≠ shardOf a := by
      intro hw
      rw [hfinishes (shardOf_eq_some hw.symm)] at hpc
      nomatch hpc
    rw [hfinished, Function.update_of_ne hne]

/-- Every step keeps the counters right. -/
theorem Counts.move (h : Counts s) {b : Action n m κ} (hstep : move s b = some s') : Counts s' := by
  have hledger := h.ledger.move hstep
  rcases h.move_cases hstep with hsame | ⟨a, p, halone, htally, -⟩
  · refine ⟨hledger, ?_, ?_, ?_⟩
    · rw [hsame.created, hsame.finished, hsame.alive]
      exact h.alive
    · rw [hsame.pc, hsame.created]
      exact h.createStore
    · rw [hsame.pc, hsame.finished]
      exact h.finishStore
  · refine ⟨hledger, ?_, ?_, ?_⟩
    · have hall := h.alive
      cases htally with
      | quiet hcreated hfinished halive =>
        rw [hcreated, hfinished, halive]
        exact hall
      | create _ hcreated hfinished halive =>
        rw [hcreated, hfinished, halive, total_update nodup_shards, if_pos (mem_shards _)]
        omega
      | finish _ hfinished hcreated halive =>
        rw [hcreated, hfinished, total_update nodup_shards, if_pos (mem_shards _)]
        omega
    · intro w slot value hpc
      rcases halone.countStore hpc with ⟨rfl, hold, rfl⟩ | ⟨hne, hold⟩
      · refine (htally.created_frame fun _ ↦ ?_).symm
        rw [hold]
        rfl
      · rw [htally.created_frame fun hw ↦ absurd hw hne]
        exact h.createStore w slot value hold
    · intro w slot value hpc
      rcases halone.finishStore hpc with ⟨rfl, hold, rfl⟩ | ⟨hne, hold⟩
      · refine (htally.finished_frame fun _ ↦ ?_).symm
        rw [hold]
        rfl
      · rw [htally.finished_frame fun hw ↦ absurd hw hne]
        exact h.finishStore w slot value hold

/-- Nothing but the watches changes when they are set. -/
theorem Counts.observe {old : State n m κ} (h : Counts s) :
    Counts (State.observe old s) where
  ledger := ⟨h.ledger.located, h.ledger.locks, h.ledger.fits, h.ledger.stack, h.ledger.wrote⟩
  alive := h.alive
  createStore := h.createStore
  finishStore := h.finishStore

/-- All counters are zero at first. -/
theorem Counts.initial : Counts (initial : State n m κ) where
  ledger := .initial
  alive := by
    simp [total, State.alive, SlotCache.initial, Use.isAlive]
  createStore _ _ _ h := nomatch h
  finishStore _ _ _ h := nomatch h

/-! ### What a scan has found -/

/-- What the watch of a thread is after a step. -/
def Watch.next (watch : Watch) (s s' : State n m κ) : Watch where
  least := min watch.least s'.alive
  most := max watch.most s'.used
  still := watch.still && decide (s'.alive = s.alive)

/-- What a scan has found so far: it may have missed tasks that have finished, and will see at least
the creation of every task it has not seen finish. -/
def Pc.Finds (s : State n m κ) (watch : Watch) : Pc n m → Prop
  | .scanFinished todo finished _ =>
    todo.Nodup ∧ finished + total todo s.finished ≤ total (shards n) s.finished ∧
      (watch.still = true → finished + total todo s.finished = total (shards n) s.finished)
  | .scanCreated todo created finished _ =>
    todo.Nodup ∧ watch.least + finished ≤ created + total todo s.created ∧
      created + total todo s.created ≤ total (shards n) s.created ∧
      (watch.still = true → created + total todo s.created = total (shards n) s.created ∧
        finished = total (shards n) s.finished)
  | .scanned result _ => (watch.least : ℤ) ≤ result ∧ (watch.still = true → result = s.alive)
  | _ => True

omit [DecidableEq κ] in
/-- A place outside `liveTasks`. -/
theorem Pc.finds_of_scans {watch : Watch} (h : p.scans = false) : p.Finds s watch := by
  cases p <;> trivial

/-- A thread that moves goes on with its scan. -/
theorem Counts.goes_finds (h : Counts s) (hleast : (s.watch a).least ≤ s.alive) {watch : Watch}
    (hold : (s.pc a).Finds s (s.watch a)) (hgoes : Goes s a (s.pc a) watch p) : p.Finds s watch := by
  have halive := h.alive
  cases hgoes with
  | plain hscans _ _ => exact Pc.finds_of_scans hscans
  | acquire => cases a <;> trivial
  | start purpose _ => exact ⟨nodup_shards, by omega, fun _ ↦ by omega⟩
  | readFinished hpc =>
    rw [hpc] at hold
    obtain ⟨hnodup, hle, hstill⟩ := hold
    simp only [total, List.map_cons, List.sum_cons] at hle hstill
    refine ⟨(List.nodup_cons.mp hnodup).2, ?_, fun hs ↦ ?_⟩
    · simp only [total]
      omega
    · have heq := hstill hs
      simp only [total]
      omega
  | turn hpc =>
    rw [hpc] at hold
    obtain ⟨-, hle, hstill⟩ := hold
    simp only [total, List.map_nil, List.sum_nil, add_zero] at hle hstill halive
    refine ⟨nodup_shards, ?_, ?_, fun hs ↦ ⟨?_, hstill hs⟩⟩
    · simp only [total]
      omega
    · omega
    · omega
  | readCreated hpc =>
    rw [hpc] at hold
    obtain ⟨hnodup, hle, hge, hstill⟩ := hold
    simp only [total, List.map_cons, List.sum_cons] at hle hge hstill
    refine ⟨(List.nodup_cons.mp hnodup).2, ?_, ?_, fun hs ↦ ⟨?_, (hstill hs).2⟩⟩
    · simp only [total]
      omega
    · simp only [total]
      omega
    · have heq := (hstill hs).1
      simp only [total]
      omega
  | ends hpc =>
    rw [hpc] at hold
    obtain ⟨-, hle, -, hstill⟩ := hold
    simp only [total, List.map_nil, List.sum_nil, add_zero] at hle hstill halive
    refine ⟨by omega, fun hs ↦ ?_⟩
    obtain ⟨hcreated, hfinished⟩ := hstill hs
    omega
  | exhausted _ _ => trivial
  | loadCreated _ _ => trivial
  | loadFinished _ _ => trivial

omit [DecidableEq κ] in
/-- A creation or an end of a task keeps what a scan has found. -/
theorem Pc.Finds.tally {watch : Watch} (hold : p.Finds s watch) (htally : Tally s s' a) :
    p.Finds s' (watch.next s s') := by
  have hstill : (watch.next s s').still = true → watch.still = true ∧ s'.alive = s.alive := by
    simp [Watch.next]
  have hleast : (watch.next s s').least ≤ watch.least := min_le_left _ _
  cases p with
  | scanFinished todo finished purpose =>
    obtain ⟨hnodup, hle, heq⟩ := hold
    cases htally with
    | quiet hcreated hfinished halive =>
      simp only [Pc.Finds, hfinished]
      exact ⟨hnodup, hle, fun hs ↦ heq (hstill hs).1⟩
    | create _ _ hfinished _ =>
      simp only [Pc.Finds, hfinished]
      exact ⟨hnodup, hle, fun hs ↦ heq (hstill hs).1⟩
    | finish _ hfinished _ halive =>
      simp only [Pc.Finds, hfinished, total_update hnodup, total_update nodup_shards,
        if_pos (mem_shards _)]
      refine ⟨hnodup, ?_, fun hs ↦ ?_⟩
      · split_ifs <;> omega
      · have := (hstill hs).2
        omega
  | scanCreated todo created finished purpose =>
    obtain ⟨hnodup, hle, hge, heq⟩ := hold
    cases htally with
    | quiet hcreated hfinished halive =>
      simp only [Pc.Finds, hcreated, hfinished]
      exact ⟨hnodup, by omega, hge, fun hs ↦ heq (hstill hs).1⟩
    | create _ hcreated _ halive =>
      simp only [Pc.Finds, hcreated, total_update hnodup, total_update nodup_shards,
        if_pos (mem_shards _)]
      refine ⟨hnodup, by omega, ?_, fun hs ↦ ?_⟩
      · split_ifs <;> omega
      · have := (hstill hs).2
        omega
    | finish _ _ hcreated halive =>
      simp only [Pc.Finds, hcreated]
      refine ⟨hnodup, by omega, hge, fun hs ↦ ?_⟩
      have := (hstill hs).2
      omega
  | scanned result purpose =>
    obtain ⟨hle, heq⟩ := hold
    refine ⟨by omega, fun hs ↦ ?_⟩
    rw [(hstill hs).2]
    exact heq (hstill hs).1
  | _ => trivial

/-- The counters are right, the watches have seen the present state, and every scan is as far as it
should be. -/
structure Scans (s : State n m κ) : Prop where
  counts : Counts s
  least : ∀ a, (s.watch a).least ≤ s.alive
  most : ∀ a, s.used ≤ (s.watch a).most
  finds : ∀ a, (s.pc a).Finds s (s.watch a)

omit [DecidableEq κ] in
/-- A step that nobody notices is one that changes no counter. -/
theorem Unnoticed.tally (h : Unnoticed s s') : Tally s s' a :=
  .quiet h.created h.finished h.alive

/-- Every step keeps the scans as they should be. -/
theorem Scans.step (h : Scans s) {b : Action n m κ} (hstep : step s b = some s') : Scans s' := by
  obtain ⟨t, ht, rfl⟩ := Option.map_eq_some_iff.mp hstep
  refine ⟨(h.counts.move ht).observe, fun a ↦ min_le_right _ _, fun a ↦ le_max_right _ _, fun c ↦ ?_⟩
  rcases h.counts.move_cases ht with hsame | ⟨a, p, halone, htally, -⟩
  · have hpc : t.pc c = s.pc c := by rw [hsame.pc]
    have hwatch : t.watch c = s.watch c := by rw [hsame.watch]
    have hfinds := (h.finds c).tally (a := c) hsame.tally
    rw [← hpc, ← hwatch] at hfinds
    exact hfinds
  · have hmoved : (t.pc c).Finds s (t.watch c) := by
      rw [halone.pc]
      rcases eq_or_ne c a with rfl | hne
      · rw [Function.update_self]
        exact h.counts.goes_finds (h.least c) (h.finds c) halone.goes
      · rw [Function.update_of_ne hne, halone.watch c hne]
        exact h.finds c
    have hfinds := hmoved.tally htally
    exact hfinds

/-- Nobody scans at first. -/
theorem Scans.initial : Scans (initial : State n m κ) where
  counts := .initial
  least _ := Nat.zero_le _
  most _ := by
    simp [State.used, SlotCache.initial, Use.isUsed]
  finds _ := trivial

/-- Every state reached has its scans right. -/
theorem Scans.of_reachable (hs : (system n m κ).Reachable s) : Scans s := by
  refine System.Reachable.invariant ?_ (fun _ _ _ h hstep ↦ h.step hstep) hs
  rintro _ rfl
  exact Scans.initial

/-- However a scan of `liveTasks` is interleaved with creations and ends of tasks, what it returns
is not below the least number of tasks alive since it began, and so not below zero, and is the
number of tasks alive if no task was created or finished since. -/
theorem liveTasks_bounds (hs : (system n m κ).Reachable s) {result : ℤ} {purpose : Purpose}
    (hpc : s.pc a = .scanned result purpose) :
    ((s.watch a).least : ℤ) ≤ result ∧ 0 ≤ result ∧
      ((s.watch a).still = true → result = s.alive) := by
  have hfinds := (Scans.of_reachable hs).finds a
  rw [hpc] at hfinds
  obtain ⟨hle, hstill⟩ := hfinds
  exact ⟨hle, by omega, hstill⟩

/-- Another thread creates a task while a worker counts: the worker has not read that counter of
created tasks yet, so it counts the task. -/
def createdMeanwhile : List (Action 1 2 Unit) :=
  [Action.liveTasks (.worker 0), .act (.worker 0) false, .createTask (.foreign ())] ++
    List.replicate 7 (Action.act (.foreign ()) false) ++
    List.replicate 5 (Action.act (.worker 0) false)

theorem liveTasks_bounds_createdMeanwhile :
    ∃ s, (system 1 2 Unit).run initial createdMeanwhile = some s ∧
      (s.pc (.worker 0) = .scanned 1 .count ∧ s.alive = 1 ∧ (s.watch (.worker 0)).least = 0) ∧
      ((s.watch (.worker 0)).least : ℤ) ≤ 1 ∧ (0 : ℤ) ≤ 1 ∧
        ((s.watch (.worker 0)).still = true → (1 : ℤ) = s.alive) :=
  ⟨((system 1 2 Unit).run initial createdMeanwhile).get (by decide +kernel),
    (Option.some_get _).symm, by decide +kernel,
    liveTasks_bounds (System.reachable_of_run rfl (Option.some_get _).symm)
      (show _ = Pc.scanned 1 .count by decide +kernel)⟩

/-! ### What `acquireSlot` takes the count for -/

/-- A task counted on a pair of counters that the scan of an `acquireSlot` has still to read is not
counted on top of a task that the scan has missed the end of. -/
def Pc.Exact (s : State n m κ) (x : Shard n) : Pc n m → Prop
  | .scanFinished todo finished .acquire =>
    finished + total todo s.finished = total (shards n) s.finished
  | .scanCreated todo _ finished .acquire => x ∈ todo → finished = total (shards n) s.finished
  | _ => True

instance (s : State n m κ) (x : Shard n) (pc : Pc n m) : Decidable (pc.Exact s x) := by
  unfold Pc.Exact
  split <;> infer_instance

/-- No task is counted as created while a scan of `acquireSlot` that has missed the end of a task
has still to read the counter. -/
def exactScan (s : State n m κ) : Action n m κ → Prop
  | .act a _ => (s.pc a).counts a = true → ∀ b, (s.pc b).Exact s (shardOf a)
  | _ => True

/-- What a scan of `acquireSlot` will find is not above the greatest number of tasks, and an
`acquireSlot` that has failed has seen every slot in use. -/
def Pc.Within (s : State n m κ) (watch : Watch) : Pc n m → Prop
  | .scanFinished todo finished .acquire =>
    total (shards n) s.created ≤ watch.most + finished + total todo s.finished
  | .scanCreated todo created finished .acquire =>
    created + total todo s.created ≤ watch.most + finished
  | .scanned result .acquire => result ≤ watch.most
  | pc => pc.blames = some .unavailable → m ≤ watch.most

omit [DecidableEq κ] in
/-- A task that is alive has its slot in use. -/
theorem State.alive_le_used (s : State n m κ) : s.alive ≤ s.used := by
  refine Finset.sum_le_sum fun i _ ↦ ?_
  cases s.use i <;> simp [Use.isAlive, Use.isUsed]

omit [DecidableEq κ] in
/-- A place outside `liveTasks`. -/
theorem Pc.within_of_scans {watch : Watch} (h : p.scans = false) :
    p.Within s watch ↔ (p.blames = some .unavailable → m ≤ watch.most) := by
  cases p <;> first | exact Iff.rfl | nomatch h

/-- A thread that moves goes on with its `acquireSlot`. -/
theorem Scans.goes_within (h : Scans s) {watch : Watch}
    (hold : (s.pc a).Within s (s.watch a)) (hgoes : Goes s a (s.pc a) watch p) :
    p.Within s watch := by
  have halive := h.counts.alive
  have hused := s.alive_le_used
  have hmost := h.most a
  cases hgoes with
  | plain hscans _ hblames =>
    rw [Pc.within_of_scans hscans]
    intro hp
    have hblame := hblames hp
    rw [Pc.within_of_scans] at hold
    · exact hold hblame
    · cases hpc : s.pc a <;> rw [hpc] at hblame <;> first | rfl | nomatch hblame
  | acquire =>
    cases a <;> exact fun hp ↦ nomatch hp
  | start purpose _ =>
    cases purpose with
    | acquire =>
      simp only [Pc.Within]
      omega
    | release | count => exact fun hp ↦ nomatch hp
  | @readFinished x todo finished purpose hpc =>
    rw [hpc] at hold
    cases purpose with
    | acquire =>
      simp only [Pc.Within, total, List.map_cons, List.sum_cons] at hold ⊢
      omega
    | release | count => exact fun hp ↦ nomatch hp
  | @turn finished purpose hpc =>
    rw [hpc] at hold
    cases purpose with
    | acquire =>
      simp only [Pc.Within, total, List.map_nil, List.sum_nil] at hold ⊢
      omega
    | release | count => exact fun hp ↦ nomatch hp
  | @readCreated x todo created finished purpose hpc =>
    rw [hpc] at hold
    cases purpose with
    | acquire =>
      simp only [Pc.Within, total, List.map_cons, List.sum_cons] at hold ⊢
      omega
    | release | count => exact fun hp ↦ nomatch hp
  | @ends created finished purpose hpc =>
    rw [hpc] at hold
    cases purpose with
    | acquire =>
      simp only [Pc.Within, total, List.map_nil, List.sum_nil] at hold ⊢
      omega
    | release | count => exact fun hp ↦ nomatch hp
  | exhausted hpc hfull =>
    rw [hpc] at hold
    simp only [Pc.Within] at hold ⊢
    intro _
    omega
  | loadCreated _ _ => exact fun hp ↦ nomatch hp
  | loadFinished _ _ => exact fun hp ↦ nomatch hp

/-- A creation or an end of a task keeps what a scan will find in its bounds, if the creation is not
counted on top of a task whose end the scan has missed. -/
theorem Pc.Within.tally {watch : Watch} (hcounts : Counts s') (hold : p.Within s watch)
    (hfinds : p.Finds s watch) (htally : Tally s s' a)
    (hexact : s'.alive ≠ s.alive → (s.pc a).counts a = true → p.Exact s (shardOf a)) :
    p.Within s' (watch.next s s') := by
  have halive := hcounts.alive
  have hused := s'.alive_le_used
  have hmost : watch.most ≤ (watch.next s s').most := le_max_left _ _
  have hnext : s'.used ≤ (watch.next s s').most := le_max_right _ _
  by_cases hscans : p.scans = false
  · rw [Pc.within_of_scans hscans] at hold ⊢
    exact fun hp ↦ (hold hp).trans hmost
  cases p with
  | scanFinished todo finished purpose =>
    cases purpose with
    | acquire =>
      obtain ⟨hnodup, -, -⟩ := hfinds
      simp only [Pc.Within] at hold ⊢
      cases htally with
      | quiet hcreated hfinished _ =>
        rw [hcreated, hfinished]
        omega
      | create hpc _ hfinished hgrows =>
        have heq : finished + total todo s.finished = total (shards n) s.finished :=
          hexact (by omega) hpc
        rw [hfinished] at halive ⊢
        omega
      | finish _ hfinished hcreated _ =>
        rw [hcreated, hfinished, total_update hnodup]
        omega
    | release | count => exact fun hp ↦ nomatch hp
  | scanCreated todo created finished purpose =>
    cases purpose with
    | acquire =>
      obtain ⟨hnodup, -, hge, -⟩ := hfinds
      simp only [Pc.Within] at hold ⊢
      cases htally with
      | quiet hcreated _ _ =>
        rw [hcreated]
        omega
      | create hpc hcreated hfinished hgrows =>
        have hexact : shardOf a ∈ todo → finished = total (shards n) s.finished :=
          hexact (by omega) hpc
        rw [hcreated, hfinished, total_update nodup_shards, if_pos (mem_shards _)] at halive
        rw [hcreated, total_update hnodup]
        split_ifs with hmem
        · have heq := hexact hmem
          omega
        · omega
      | finish _ _ hcreated _ =>
        rw [hcreated]
        omega
    | release | count => exact fun hp ↦ nomatch hp
  | scanned result purpose =>
    cases purpose with
    | acquire =>
      simp only [Pc.Within] at hold ⊢
      omega
    | release | count => exact fun hp ↦ nomatch hp
  | _ => exact absurd rfl hscans

omit [DecidableEq κ] in
/-- A thread that counts a task as created does not scan. -/
theorem Goes.exact {watch : Watch} {x : Shard n} (h : Goes s a (s.pc a) watch p)
    (hcount : (s.pc a).counts a = true) : p.Exact s x := by
  cases h with
  | plain hscans _ _ => cases p <;> trivial
  | acquire => cases a <;> trivial
  | start _ hnot => simp [hnot] at hcount
  | readFinished hpc | turn hpc | readCreated hpc | ends hpc | exhausted hpc _ =>
    rw [hpc] at hcount
    cases a <;> nomatch hcount
  | loadCreated _ _ => trivial
  | loadFinished _ _ => trivial

/-- Every scan of `acquireSlot` is within its bounds. -/
structure Bounded (s : State n m κ) : Prop where
  scans : Scans s
  within : ∀ a, (s.pc a).Within s (s.watch a)

/-- Every step that meets the condition keeps the bounds. -/
theorem Bounded.step (h : Bounded s) {b : Action n m κ} (hgood : exactScan s b)
    (hstep : step s b = some s') : Bounded s' := by
  refine ⟨h.scans.step hstep, fun c ↦ ?_⟩
  obtain ⟨t, ht, rfl⟩ := Option.map_eq_some_iff.mp hstep
  have hcounts := h.scans.counts.move ht
  rcases h.scans.counts.move_cases ht with hsame | ⟨a, p, halone, htally, hact⟩
  · have hpc : t.pc c = s.pc c := by rw [hsame.pc]
    have hwatch : t.watch c = s.watch c := by rw [hsame.watch]
    have hwithin := h.within c
    have hfinds := h.scans.finds c
    rw [← hpc, ← hwatch] at hwithin hfinds
    have hnext := hwithin.tally (a := c) hcounts hfinds hsame.tally fun hne ↦ absurd hsame.alive hne
    exact hnext
  · have hmoved : (t.pc c).Within s (t.watch c) ∧ (t.pc c).Finds s (t.watch c) := by
      rw [halone.pc]
      rcases eq_or_ne c a with rfl | hne
      · rw [Function.update_self]
        exact ⟨h.scans.goes_within (h.within c) halone.goes,
          h.scans.counts.goes_finds (h.scans.least c) (h.scans.finds c) halone.goes⟩
      · rw [Function.update_of_ne hne, halone.watch c hne]
        exact ⟨h.within c, h.scans.finds c⟩
    have hexact (hcount : (s.pc a).counts a = true) : (t.pc c).Exact s (shardOf a) := by
      obtain ⟨flag, rfl⟩ := hact hcount
      rw [halone.pc]
      rcases eq_or_ne c a with rfl | hne
      · rw [Function.update_self]
        exact halone.goes.exact hcount
      · rw [Function.update_of_ne hne]
        exact hgood hcount c
    have hnext := hmoved.1.tally hcounts hmoved.2 htally fun _ ↦ hexact
    exact hnext

/-- Nobody has failed at first. -/
theorem Bounded.initial : Bounded (initial : State n m κ) where
  scans := .initial
  within _ h := nomatch h

/-- In every run in which no task is counted as created on top of a task whose end a scan of
`acquireSlot` has missed, an `acquireSlot` fails for lack of slots only if at some instant since it
began as many tasks were alive or being created as there are slots. -/
theorem slots_exhausted (hs : (system n m κ).ReachableUnder exactScan s)
    (hpc : s.pc a = .failed .unavailable) : m ≤ (s.watch a).most := by
  have h : Bounded s := by
    refine System.ReachableUnder.invariant ?_ (fun _ _ _ h hgood hstep ↦ h.step hgood hstep) hs
    rintro _ rfl
    exact Bounded.initial
  have hwithin := h.within a
  rw [hpc] at hwithin
  exact hwithin rfl

instance [Fintype κ] (s : State n m κ) (b : Action n m κ) : Decidable (exactScan s b) :=
  match b with
  | .act a _ =>
    decidable_of_iff ((s.pc a).counts a = true →
      (∀ k, (s.pc (.foreign k)).Exact s (shardOf a)) ∧
        ∀ w, (s.pc (.worker w)).Exact s (shardOf a)) (by
      refine imp_congr_right fun _ ↦ ⟨?_, fun h ↦ ⟨fun k ↦ h _, fun w ↦ h _⟩⟩
      rintro ⟨hforeign, hworker⟩ (k | w)
      · exact hforeign k
      · exact hworker w)
  | .stop | .createTask _ | .releaseTask _ _ | .liveTasks _ => isTrue trivial

/-- The only slot is that of a task, and a thread creates another task. -/
def slotInUse : List (Action 1 1 Unit) :=
  [Action.createTask (.foreign ())] ++ List.replicate 7 (Action.act (.foreign ()) false) ++
    [Action.createTask (.foreign ())] ++ List.replicate 14 (Action.act (.foreign ()) false)

theorem slots_exhausted_slotInUse :
    ∃ s, (system 1 1 Unit).runUnder (fun s b ↦ decide (exactScan s b)) initial slotInUse = some s ∧
      s.pc (.foreign ()) = .failed .unavailable ∧ 1 ≤ (s.watch (.foreign ())).most :=
  ⟨((system 1 1 Unit).runUnder (fun s b ↦ decide (exactScan s b)) initial slotInUse).get
      (by decide +kernel), (Option.some_get _).symm, by decide +kernel,
    slots_exhausted ((System.reachableUnder_of_run rfl (Option.some_get _).symm).mono
      fun _ _ h ↦ of_decide_eq_true h) (by decide +kernel)⟩

/-- Two slots, two tasks. The first one is counted as finished, and its slot is on its way back; an
`acquireSlot` finds no slot and reads the counters of finished tasks. The second task finishes and
its slot is taken for a third one, whose creation the `acquireSlot` reads. -/
def endMissed : List (Action 2 2 Bool) :=
  [Action.createTask (.foreign true)] ++ List.replicate 7 (Action.act (.foreign true) false) ++
    [Action.createTask (.foreign true)] ++ List.replicate 7 (Action.act (.foreign true) false) ++
    [Action.releaseTask (.worker 0) 0] ++ List.replicate 4 (Action.act (.worker 0) false) ++
    [Action.createTask (.foreign false)] ++ List.replicate 13 (Action.act (.foreign false) false) ++
    [Action.releaseTask (.worker 1) 1] ++ List.replicate 8 (Action.act (.worker 1) false) ++
    [Action.createTask (.foreign true)] ++ List.replicate 13 (Action.act (.foreign true) false) ++
    List.replicate 6 (Action.act (.foreign false) false)

/-- An `acquireSlot` fails although there was never more than one task since it began, and there are
two slots. -/
theorem spawn_fails_in_vain :
    ∃ s, (system 2 2 Bool).Reachable s ∧ s.pc (.foreign false) = .failed .unavailable ∧
      (s.watch (.foreign false)).most = 1 :=
  ⟨((system 2 2 Bool).run initial endMissed).get (by decide +kernel),
    System.reachable_of_run rfl (Option.some_get _).symm, by decide +kernel⟩

end Stackfull.Sched.SlotCache
