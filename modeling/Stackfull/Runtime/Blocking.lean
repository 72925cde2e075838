import Stackfull.Runtime.BlockingPool

/-!
# Calls of `blocking()`

`blocking`, `BlockingJobImpl::run` and `runGuarded` (`runtime/Runtime.h`) with `Completion::get`
(`sync/Completion.h`) over the blocking pool. A task hands its body to the pool and waits in `get`
until the completion is ready; a plain thread runs the body itself. Between stop and its end the
scheduler may unwind a task that is parked. Where the pool would start a thread the creation may
fail; `submit` then throws with the job in the queue and the thread counted.

Each call has one body. `Sound` is the invariant, and `Contract` says what is known of a body once
its call has been left.
-/

set_option autoImplicit false
set_option relaxedAutoImplicit false
set_option linter.dupNamespace false

namespace Stackfull.Runtime.Blocking

open Stackfull.Lib

universe u

/-- How a body ends, and what `get` then hands to `unwrap`. -/
inductive Ending
  | value
  | exception
  deriving DecidableEq

/-- How `blocking()` is left. -/
inductive Leave
  | body (ending : Ending)
  | submitThrows
  | forcedUnwind
  deriving DecidableEq

/-- Where a call stands: in `get` before its test of `ready`, before `attach`, or parked; or, on a
plain thread, in the body. -/
inductive CallPc
  | idle
  | isReady
  | attach
  | parked
  | inline
  | left (how : Leave)
  deriving DecidableEq

/-- A body: not started, running, ended, or ended with a value that the completion has claimed but
could not store. -/
inductive BodyPc
  | pending
  | running
  | ended (ending : Ending)
  | lost
  deriving DecidableEq

/-- The pool, the scheduler's stop, and for each call its point, its body and its completion. -/
structure State (κ : Type u) where
  pool : BlockingPool κ
  stopping : Bool
  call : κ → CallPc
  body : κ → BodyPc
  ready : κ → Option Ending

/-- A step of a call, of a pool thread or of the scheduler. -/
inductive Action (κ : Type u)
  | submit (call : κ) (notified : ℕ) (late : Bool)
  | submitThrows (call : κ)
  | inline (call : κ)
  | inlineEnds (call : κ) (ending : Ending)
  | get (call : κ)
  | wake (call : κ)
  | lock (thread : ℕ)
  | leaveWait (thread : ℕ) (timedOut : Bool)
  | bodyEnds (thread : ℕ) (ending : Ending)
  | publish (thread : ℕ)
  | storeThrows (thread : ℕ)
  | finish (thread : ℕ)
  | stop
  | unwind (call : κ)

variable {κ : Type u}

/-- No calls. -/
def initial : State κ where
  pool := BlockingPool.empty
  stopping := false
  call := fun _ ↦ .idle
  body := fun _ ↦ .pending
  ready := fun _ ↦ none

/-- `submit` where the new thread cannot be created: the job is queued and the thread counted. -/
def counted (p : BlockingPool κ) (job : κ) : BlockingPool κ :=
  { p.enqueue job with threads := p.threads + 1 }

/-- The job that a pool thread takes once it has the mutex. -/
def taken (p : BlockingPool κ) (i : ℕ) : Option κ :=
  match p.crew[i]? with
  | some .top | some (.woken _) => p.jobs.head?
  | _ => none

/-- The job that a pool thread is running. -/
def jobOf (p : BlockingPool κ) (i : ℕ) : Option κ :=
  p.crew[i]?.bind ThreadPc.job?

namespace State

variable [DecidableEq κ]

/-- The call goes on. -/
def goto (s : State κ) (k : κ) (pc : CallPc) : State κ :=
  { s with call := Function.update s.call k pc }

/-- The body goes on. -/
def setBody (s : State κ) (k : κ) (pc : BodyPc) : State κ :=
  { s with body := Function.update s.body k pc }

/-- The next step of `Completion::get`. -/
def get (s : State κ) (k : κ) : Option (State κ) :=
  match s.call k, s.ready k with
  | .isReady, some ending => some (s.goto k (.left (.body ending)))
  | .isReady, none => some (s.goto k .attach)
  | .attach, some ending => some (s.goto k (.left (.body ending)))
  | .attach, none => some (s.goto k .parked)
  | _, _ => none

/-- A pool thread has the mutex; the body of a job that it takes starts. -/
def lock (s : State κ) (i : ℕ) : Option (State κ) :=
  (s.pool.lock i).map fun pool ↦
    match taken s.pool i with
    | some k => { s with pool := pool }.setBody k .running
    | none => { s with pool := pool }

/-- A pool thread goes on with its job. -/
def withJob (s : State κ) (i : ℕ) (f : κ → Option (State κ)) : Option (State κ) :=
  (jobOf s.pool i).bind f

/-- One step. -/
def step (s : State κ) : Action κ → Option (State κ)
  | .submit k i late =>
    if s.call k = .idle then
      (s.pool.submit k i late).map fun pool ↦ { s with pool := pool }.goto k .isReady
    else none
  | .submitThrows k =>
    if s.call k = .idle ∧ s.pool.adds then
      some ({ s with pool := counted s.pool k }.goto k (.left .submitThrows))
    else none
  | .inline k =>
    if s.call k = .idle then some ((s.goto k .inline).setBody k .running) else none
  | .inlineEnds k ending =>
    if s.call k = .inline then some ((s.goto k (.left (.body ending))).setBody k (.ended ending))
    else none
  | .get k => s.get k
  | .wake k => if s.call k = .parked then some (s.goto k .attach) else none
  | .lock i => s.lock i
  | .leaveWait i timedOut => (s.pool.leaveWait i timedOut).map fun pool ↦ { s with pool := pool }
  | .bodyEnds i ending => s.withJob i fun k ↦
    if s.body k = .running then some (s.setBody k (.ended ending)) else none
  | .publish i => s.withJob i fun k ↦
    match s.body k, s.ready k with
    | .ended ending, none => some { s with ready := Function.update s.ready k (some ending) }
    | _, _ => none
  | .storeThrows i => s.withJob i fun k ↦
    if s.body k = .ended .value ∧ s.ready k = none then some (s.setBody k .lost) else none
  | .finish i => s.withJob i fun k ↦
    if s.body k = .lost ∨ (s.ready k).isSome then
      (s.pool.finish i).map fun pool ↦ { s with pool := pool }
    else none
  | .stop => some { s with stopping := true }
  | .unwind k =>
    if s.stopping = true ∧ s.call k = .parked then some (s.goto k (.left .forcedUnwind)) else none

end State

/-- Calls of `blocking()` as a step system. -/
def system (κ : Type u) [DecidableEq κ] : System (State κ) (Action κ) where
  init := (· = initial)
  step := State.step

/-! ### What a pool step does with the jobs -/

section Pool

variable {p t : BlockingPool κ} {i : ℕ}

/-- The jobs stay where they are, but for some that have ended. -/
structure Same (p t : BlockingPool κ) : Prop where
  jobs : t.jobs = p.jobs
  submitted : t.submitted = p.submitted
  started : t.started = p.started
  running : ∀ k, .running k ∈ t.crew → .running k ∈ p.crew

/-- One more job is queued. -/
structure Queues (p t : BlockingPool κ) (k : κ) : Prop where
  jobs : t.jobs = p.jobs ++ [k]
  submitted : t.submitted = p.submitted ++ [k]
  started : t.started = p.started
  running : ∀ j, .running j ∈ t.crew → .running j ∈ p.crew

/-- The first job is taken. -/
structure Takes (p t : BlockingPool κ) (k : κ) : Prop where
  jobs : p.jobs = k :: t.jobs
  submitted : t.submitted = p.submitted
  started : t.started = p.started ++ [k]
  running : ∀ j, .running j ∈ t.crew → j = k ∨ .running j ∈ p.crew

/-- A thread that goes to a point outside jobs. -/
theorem running_of_set {crew : List (ThreadPc κ)} {new : ThreadPc κ} (hnew : new.job? = none)
    {k : κ} (h : .running k ∈ crew.set i new) : .running k ∈ crew := by
  rcases List.mem_or_eq_of_mem_set h with hold | rfl
  · exact hold
  · nomatch hnew

theorem queues_of_submit {k : κ} {late : Bool} (h : p.submit k i late = some t) : Queues p t k := by
  simp only [BlockingPool.submit, BlockingPool.notifyOne] at h
  split at h
  · obtain rfl := Option.some.inj h
    refine ⟨rfl, rfl, rfl, fun j hj ↦ ?_⟩
    rcases List.mem_append.mp hj with hold | hnew
    · exact hold
    · cases List.mem_singleton.mp hnew
  · split at h
    · split at h
      · obtain rfl := Option.some.inj h
        exact ⟨rfl, rfl, rfl, fun j hj ↦ running_of_set rfl hj⟩
      · cases h
    · obtain rfl := Option.some.inj h
      exact ⟨rfl, rfl, rfl, fun _ hj ↦ hj⟩

theorem queues_counted (k : κ) : Queues p (counted p k) k :=
  ⟨rfl, rfl, rfl, fun _ hj ↦ hj⟩

theorem same_of_leaveWait {timedOut : Bool} (h : p.leaveWait i timedOut = some t) : Same p t := by
  unfold BlockingPool.leaveWait at h
  split at h
  · obtain rfl := Option.some.inj h
    exact ⟨rfl, rfl, rfl, fun j hj ↦ running_of_set rfl hj⟩
  · nomatch h

theorem same_of_finish (h : p.finish i = some t) : Same p t := by
  unfold BlockingPool.finish at h
  split at h
  · obtain rfl := Option.some.inj h
    exact ⟨rfl, rfl, rfl, fun j hj ↦ running_of_set rfl hj⟩
  · nomatch h

/-- A thread that has the mutex takes the first job or leaves the jobs alone. -/
theorem lock_cases (h : p.lock i = some t) :
    (∃ k, taken p i = some k ∧ Takes p t k) ∨ (taken p i = none ∧ Same p t) := by
  have htake {job : κ} {rest : List κ} {idle : ℕ} (hjobs : p.jobs = job :: rest) :
      Takes p ({ p with idle := idle }.take i job rest) job := by
    refine ⟨hjobs, rfl, rfl, fun j hj ↦ ?_⟩
    rcases List.mem_or_eq_of_mem_set hj with hold | hnew
    · exact Or.inr hold
    · exact Or.inl (ThreadPc.running.inj hnew)
  unfold BlockingPool.lock at h
  split at h
  next hpc hjobs =>
    obtain rfl := Option.some.inj h
    exact Or.inr ⟨by simp [taken, hpc, hjobs], rfl, rfl, rfl, fun j hj ↦ running_of_set rfl hj⟩
  next job rest hpc hjobs =>
    obtain rfl := Option.some.inj h
    exact Or.inl ⟨job, by simp [taken, hpc, hjobs], htake hjobs⟩
  next hpc hjobs =>
    obtain rfl := Option.some.inj h
    exact Or.inr ⟨by simp [taken, hpc, hjobs], rfl, rfl, rfl, fun j hj ↦ running_of_set rfl hj⟩
  next hpc hjobs =>
    obtain rfl := Option.some.inj h
    exact Or.inr ⟨by simp [taken, hpc, hjobs], rfl, rfl, rfl,
      fun j hj ↦ List.mem_of_mem_eraseIdx hj⟩
  next job rest hpc hjobs =>
    obtain rfl := Option.some.inj h
    exact Or.inl ⟨job, by simp [taken, hpc, hjobs], htake hjobs⟩
  next => nomatch h

theorem running_of_jobOf {k : κ} (h : jobOf p i = some k) : .running k ∈ p.crew := by
  obtain ⟨pc, hpc, hjob⟩ := Option.bind_eq_some_iff.mp h
  cases pc with
  | running job =>
    obtain rfl := Option.some.inj hjob
    exact List.mem_of_getElem? hpc
  | top | waiting | woken => nomatch hjob

end Pool

/-! ### The invariant -/

section Sound

variable {s t : State κ}

/-- The call is waiting for its body, or was left without it. -/
def CallPc.handedOver : CallPc → Bool
  | .isReady | .attach | .parked | .left .submitThrows | .left .forcedUnwind => true
  | _ => false

/-- Each call's body is queued once, started once from the queue or inline, and what the call is
left with is how the body has ended. -/
structure Sound (s : State κ) : Prop where
  fifo : s.pool.submitted = s.pool.started ++ s.pool.jobs
  nodup : s.pool.submitted.Nodup
  idle : ∀ k, s.call k = .idle → k ∉ s.pool.submitted ∧ s.body k = .pending
  inline : ∀ k, s.call k = .inline → k ∉ s.pool.submitted ∧ s.body k = .running
  handedOver : ∀ k, (s.call k).handedOver = true → k ∈ s.pool.submitted
  queued : ∀ k ∈ s.pool.jobs, s.body k = .pending
  started : ∀ k ∈ s.pool.started, s.body k ≠ .pending
  running : ∀ k, .running k ∈ s.pool.crew → k ∈ s.pool.started
  ready : ∀ k ending, s.ready k = some ending → s.body k = .ended ending
  left : ∀ k ending, s.call k = .left (.body ending) →
    s.body k = .ended ending ∧ (s.ready k = some ending ∨ k ∉ s.pool.submitted)

theorem sound_initial : Sound (initial : State κ) where
  fifo := rfl
  nodup := List.nodup_nil
  idle _ _ := ⟨fun hin ↦ (nomatch hin), rfl⟩
  inline _ h := nomatch h
  handedOver _ h := nomatch h
  queued _ h := nomatch h
  started _ h := nomatch h
  running _ h := nomatch h
  ready _ _ h := nomatch h
  left _ _ h := nomatch h

/-- What has been started or is queued has been submitted. -/
theorem Sound.submitted_of_started (h : Sound s) {k : κ} (hk : k ∈ s.pool.started) :
    k ∈ s.pool.submitted := by
  rw [h.fifo]
  exact List.mem_append_left _ hk

theorem Sound.submitted_of_queued (h : Sound s) {k : κ} (hk : k ∈ s.pool.jobs) :
    k ∈ s.pool.submitted := by
  rw [h.fifo]
  exact List.mem_append_right _ hk

/-- Only the completion of a body that has ended is ready. -/
theorem Sound.ready_eq_none (h : Sound s) {k : κ} (hk : ∀ ending, s.body k ≠ .ended ending) :
    s.ready k = none := by
  cases hready : s.ready k with
  | none => rfl
  | some ending => exact absurd (h.ready k ending hready) (hk ending)

/-- The jobs of the pool stay where they are. -/
theorem Sound.same (h : Sound s) {pool : BlockingPool κ} (hpool : Same s.pool pool) :
    Sound { s with pool := pool } := by
  obtain ⟨hjobs, hsubmitted, hstarted, hrunning⟩ := hpool
  refine ⟨?_, ?_, ?_, ?_, ?_, ?_, ?_, ?_, h.ready, ?_⟩
  · simpa only [hjobs, hsubmitted, hstarted] using h.fifo
  · simpa only [hsubmitted] using h.nodup
  · simpa only [hsubmitted] using h.idle
  · simpa only [hsubmitted] using h.inline
  · simpa only [hsubmitted] using h.handedOver
  · simpa only [hjobs] using h.queued
  · simpa only [hstarted] using h.started
  · intro k hk
    simpa only [hstarted] using h.running k (hrunning k hk)
  · simpa only [hsubmitted] using h.left

variable [DecidableEq κ]

/-- The call's body is queued. -/
theorem Sound.queues (h : Sound s) {k : κ} (hidle : s.call k = .idle) {pool : BlockingPool κ}
    (hpool : Queues s.pool pool k) {pc : CallPc} (hpc : pc.handedOver = true) :
    Sound ({ s with pool := pool }.goto k pc) := by
  obtain ⟨hjobs, hsubmitted, hstarted, hrunning⟩ := hpool
  obtain ⟨hnew, hpending⟩ := h.idle k hidle
  have hother {j : κ} {other : CallPc} (hj : Function.update s.call k pc j = other)
      (hne : other.handedOver = false) : j ≠ k ∧ s.call j = other := by
    by_cases heq : j = k
    · subst heq
      rw [Function.update_self] at hj
      rw [hj, hne] at hpc
      nomatch hpc
    · rw [Function.update_of_ne heq] at hj
      exact ⟨heq, hj⟩
  have hkept {j : κ} (hne : j ≠ k) : j ∈ pool.submitted ↔ j ∈ s.pool.submitted := by
    rw [hsubmitted, List.mem_append, List.mem_singleton]
    exact or_iff_left hne
  refine ⟨?_, ?_, ?_, ?_, ?_, ?_, ?_, ?_, h.ready, ?_⟩
  · show pool.submitted = pool.started ++ pool.jobs
    rw [hsubmitted, hstarted, hjobs, h.fifo, List.append_assoc]
  · show pool.submitted.Nodup
    rw [hsubmitted]
    exact (List.perm_append_singleton k _).nodup_iff.mpr (List.nodup_cons.mpr ⟨hnew, h.nodup⟩)
  · intro j hj
    obtain ⟨hne, hj⟩ := hother hj rfl
    exact ⟨fun hin ↦ (h.idle j hj).1 ((hkept hne).mp hin), (h.idle j hj).2⟩
  · intro j hj
    obtain ⟨hne, hj⟩ := hother hj rfl
    exact ⟨fun hin ↦ (h.inline j hj).1 ((hkept hne).mp hin), (h.inline j hj).2⟩
  · intro j hj
    by_cases heq : j = k
    · show j ∈ pool.submitted
      rw [hsubmitted, heq]
      exact List.mem_append_right _ List.mem_cons_self
    · have hold : s.call j = Function.update s.call k pc j := (Function.update_of_ne heq ..).symm
      exact (hkept heq).mpr (h.handedOver j (hold ▸ hj))
  · intro j hj
    change j ∈ pool.jobs at hj
    rw [hjobs] at hj
    rcases List.mem_append.mp hj with hold | hlast
    · exact h.queued j hold
    · rw [List.mem_singleton.mp hlast]
      exact hpending
  · intro j hj
    exact h.started j (hstarted ▸ hj)
  · intro j hj
    show j ∈ pool.started
    rw [hstarted]
    exact h.running j (hrunning j hj)
  · intro j ending hj
    obtain ⟨hne, hj⟩ := hother hj rfl
    obtain ⟨hended, hhow⟩ := h.left j ending hj
    exact ⟨hended, hhow.imp id fun hout hin ↦ hout ((hkept hne).mp hin)⟩

/-- The first job is taken, and its body starts. -/
theorem Sound.takes (h : Sound s) {k : κ} {pool : BlockingPool κ} (hpool : Takes s.pool pool k) :
    Sound ({ s with pool := pool }.setBody k .running) := by
  obtain ⟨hjobs, hsubmitted, hstarted, hrunning⟩ := hpool
  have hqueued : k ∈ s.pool.jobs := hjobs ▸ List.mem_cons_self
  have hpending := h.queued k hqueued
  have hin := h.submitted_of_queued hqueued
  have hbody {j : κ} (hne : j ≠ k) :
      ({ s with pool := pool }.setBody k .running).body j = s.body j :=
    Function.update_of_ne hne ..
  have hne {j : κ} (hj : s.body j ≠ .pending) : j ≠ k := by
    rintro rfl
    exact hj hpending
  refine ⟨?_, ?_, ?_, ?_, ?_, ?_, ?_, ?_, ?_, ?_⟩
  · show pool.submitted = pool.started ++ pool.jobs
    rw [hsubmitted, hstarted, h.fifo, hjobs, List.append_assoc]
    rfl
  · show pool.submitted.Nodup
    rw [hsubmitted]
    exact h.nodup
  · intro j hj
    obtain ⟨hout, hold⟩ := h.idle j hj
    have hjk : j ≠ k := fun heq ↦ hout (heq ▸ hin)
    exact ⟨fun hnow ↦ hout (hsubmitted ▸ hnow), (hbody hjk).trans hold⟩
  · intro j hj
    obtain ⟨hout, hold⟩ := h.inline j hj
    have hjk : j ≠ k := fun heq ↦ hout (heq ▸ hin)
    exact ⟨fun hnow ↦ hout (hsubmitted ▸ hnow), (hbody hjk).trans hold⟩
  · intro j hj
    show j ∈ pool.submitted
    rw [hsubmitted]
    exact h.handedOver j hj
  · intro j hj
    have hnodup := h.nodup
    rw [h.fifo, hjobs] at hnodup
    have hjk : j ≠ k := by
      rintro rfl
      exact (List.nodup_cons.mp (List.nodup_append.mp hnodup).2.1).1 hj
    rw [hbody hjk]
    exact h.queued j (hjobs ▸ List.mem_cons_of_mem _ hj)
  · intro j hj
    change j ∈ pool.started at hj
    rw [hstarted] at hj
    by_cases hjk : j = k
    · subst hjk
      show Function.update s.body j .running j ≠ .pending
      rw [Function.update_self]
      exact nofun
    · rw [hbody hjk]
      refine h.started j ((List.mem_append.mp hj).resolve_right fun hlast ↦ ?_)
      exact hjk (List.mem_singleton.mp hlast)
  · intro j hj
    show j ∈ pool.started
    rw [hstarted]
    rcases hrunning j hj with rfl | hold
    · exact List.mem_append_right _ List.mem_cons_self
    · exact List.mem_append_left _ (h.running j hold)
  · intro j ending hj
    have hended := h.ready j ending hj
    rw [hbody (hne (by rw [hended]; exact nofun))]
    exact hended
  · intro j ending hj
    obtain ⟨hended, hhow⟩ := h.left j ending hj
    rw [hbody (hne (by rw [hended]; exact nofun))]
    exact ⟨hended, hhow.imp id fun hout hnow ↦ hout (hsubmitted ▸ hnow)⟩

/-- A call that waits for its body goes on waiting, or is left without it. -/
theorem Sound.goto (h : Sound s) {k : κ} (hold : (s.call k).handedOver = true) {pc : CallPc}
    (hpc : pc.handedOver = true) : Sound (s.goto k pc) := by
  have hother {j : κ} {other : CallPc} (hj : Function.update s.call k pc j = other)
      (hne : other.handedOver = false) : s.call j = other := by
    by_cases heq : j = k
    · subst heq
      rw [Function.update_self] at hj
      rw [hj, hne] at hpc
      nomatch hpc
    · rwa [Function.update_of_ne heq] at hj
  refine ⟨h.fifo, h.nodup, fun j hj ↦ h.idle j (hother hj rfl),
    fun j hj ↦ h.inline j (hother hj rfl), fun j hj ↦ ?_, h.queued, h.started, h.running, h.ready,
    fun j ending hj ↦ h.left j ending (hother hj rfl)⟩
  by_cases heq : j = k
  · exact heq ▸ h.handedOver k hold
  · have hkept : s.call j = Function.update s.call k pc j := (Function.update_of_ne heq ..).symm
    exact h.handedOver j (hkept ▸ hj)

/-- A call returns with the outcome of its body. -/
theorem Sound.returns (h : Sound s) {k : κ} {ending : Ending} (hready : s.ready k = some ending) :
    Sound (s.goto k (.left (.body ending))) := by
  have hother {j : κ} {other : CallPc}
      (hj : Function.update s.call k (.left (.body ending)) j = other)
      (hne : other ≠ .left (.body ending)) : s.call j = other := by
    by_cases heq : j = k
    · subst heq
      rw [Function.update_self] at hj
      exact absurd hj.symm hne
    · rwa [Function.update_of_ne heq] at hj
  refine ⟨h.fifo, h.nodup, fun j hj ↦ h.idle j (hother hj nofun),
    fun j hj ↦ h.inline j (hother hj nofun), fun j hj ↦ ?_, h.queued, h.started, h.running, h.ready,
    fun j other hj ↦ ?_⟩
  · by_cases heq : j = k
    · subst heq
      simp [State.goto, CallPc.handedOver] at hj
    · have hkept : s.call j = Function.update s.call k (.left (.body ending)) j :=
        (Function.update_of_ne heq ..).symm
      exact h.handedOver j (hkept ▸ hj)
  · by_cases heq : j = k
    · subst heq
      obtain rfl : ending = other := by simpa [State.goto] using hj
      exact ⟨h.ready j ending hready, Or.inl hready⟩
    · have hkept : s.call j = Function.update s.call k (.left (.body ending)) j :=
        (Function.update_of_ne heq ..).symm
      exact h.left j other (hkept.trans hj)

/-- A body that runs or has run on a pool thread ends, or its value is lost. -/
theorem Sound.ends (h : Sound s) {k : κ} (hin : k ∈ s.pool.started) (hready : s.ready k = none)
    {pc : BodyPc} (hpc : pc ≠ .pending) : Sound (s.setBody k pc) := by
  have hsubmitted := h.submitted_of_started hin
  have hbody {j : κ} (hne : j ≠ k) : (s.setBody k pc).body j = s.body j :=
    Function.update_of_ne hne ..
  refine ⟨h.fifo, h.nodup, fun j hj ↦ ?_, fun j hj ↦ ?_, h.handedOver, fun j hj ↦ ?_, fun j hj ↦ ?_,
    h.running, fun j ending hj ↦ ?_, fun j ending hj ↦ ?_⟩
  · obtain ⟨hout, hold⟩ := h.idle j hj
    refine ⟨hout, (hbody ?_).trans hold⟩
    rintro rfl
    exact hout hsubmitted
  · obtain ⟨hout, hold⟩ := h.inline j hj
    refine ⟨hout, (hbody ?_).trans hold⟩
    rintro rfl
    exact hout hsubmitted
  · have hpending := h.queued j hj
    refine (hbody ?_).trans hpending
    rintro rfl
    exact h.started j hin hpending
  · by_cases heq : j = k
    · subst heq
      show Function.update s.body j pc j ≠ .pending
      rwa [Function.update_self]
    · rw [hbody heq]
      exact h.started j hj
  · refine (hbody ?_).trans (h.ready j ending hj)
    rintro rfl
    exact nomatch hready.symm.trans hj
  · obtain ⟨hended, hhow⟩ := h.left j ending hj
    refine ⟨(hbody ?_).trans hended, hhow⟩
    rintro rfl
    rcases hhow with hset | hout
    · exact nomatch hready.symm.trans hset
    · exact hout hsubmitted

/-- The completion becomes ready. -/
theorem Sound.publishes (h : Sound s) {k : κ} {ending : Ending} (hended : s.body k = .ended ending)
    (hready : s.ready k = none) :
    Sound { s with ready := Function.update s.ready k (some ending) } := by
  refine ⟨h.fifo, h.nodup, h.idle, h.inline, h.handedOver, h.queued, h.started, h.running,
    fun j other hj ↦ ?_, fun j other hj ↦ ?_⟩
  · by_cases heq : j = k
    · subst heq
      obtain rfl : ending = other := by simpa using hj
      exact hended
    · have hkept : s.ready j = Function.update s.ready k (some ending) j :=
        (Function.update_of_ne heq ..).symm
      exact h.ready j other (hkept.trans hj)
  · obtain ⟨hbody, hhow⟩ := h.left j other hj
    refine ⟨hbody, hhow.imp_left fun hset ↦ ?_⟩
    have heq : j ≠ k := by
      rintro rfl
      exact nomatch hready.symm.trans hset
    exact (Function.update_of_ne heq ..).trans hset

/-- A plain thread runs the body, or returns from it. -/
theorem Sound.inlines (h : Sound s) {k : κ} {pc : CallPc} {body : BodyPc}
    (hold : k ∉ s.pool.submitted) (hout : s.ready k = none)
    (hpc : pc = .inline ∧ body = .running ∨
      ∃ ending, pc = .left (.body ending) ∧ body = .ended ending) :
    Sound ((s.goto k pc).setBody k body) := by
  have hcall {j : κ} (hne : j ≠ k) : ((s.goto k pc).setBody k body).call j = s.call j :=
    Function.update_of_ne hne ..
  have hbody {j : κ} (hne : j ≠ k) : ((s.goto k pc).setBody k body).body j = s.body j :=
    Function.update_of_ne hne ..
  have hself : ((s.goto k pc).setBody k body).call k = pc := Function.update_self ..
  have hself' : ((s.goto k pc).setBody k body).body k = body := Function.update_self ..
  have hne {j : κ} (hj : j ∈ s.pool.submitted) : j ≠ k := by
    rintro rfl
    exact hold hj
  refine ⟨h.fifo, h.nodup, fun j hj ↦ ?_, fun j hj ↦ ?_, fun j hj ↦ ?_, fun j hj ↦ ?_,
    fun j hj ↦ ?_, h.running, fun j ending hj ↦ ?_, fun j ending hj ↦ ?_⟩
  · by_cases heq : j = k
    · subst heq
      rw [hself] at hj
      obtain ⟨hpc, -⟩ | ⟨ending, hpc, -⟩ := hpc <;> nomatch hj.symm.trans hpc
    · rw [hcall heq] at hj
      rw [hbody heq]
      exact h.idle j hj
  · by_cases heq : j = k
    · subst heq
      rw [hself] at hj
      obtain ⟨-, hrun⟩ | ⟨ending, hpc, -⟩ := hpc
      · exact ⟨hold, hself'.trans hrun⟩
      · nomatch hj.symm.trans hpc
    · rw [hcall heq] at hj
      rw [hbody heq]
      exact h.inline j hj
  · by_cases heq : j = k
    · subst heq
      rw [hself] at hj
      obtain ⟨rfl, -⟩ | ⟨ending, rfl, -⟩ := hpc <;> nomatch hj
    · rw [hcall heq] at hj
      exact h.handedOver j hj
  · rw [hbody (hne (h.submitted_of_queued hj))]
    exact h.queued j hj
  · rw [hbody (hne (h.submitted_of_started hj))]
    exact h.started j hj
  · have heq : j ≠ k := by
      rintro rfl
      exact nomatch hout.symm.trans hj
    rw [hbody heq]
    exact h.ready j ending hj
  · by_cases heq : j = k
    · subst heq
      rw [hself] at hj
      obtain ⟨hpc, -⟩ | ⟨other, hpc, hend⟩ := hpc
      · nomatch hj.symm.trans hpc
      · obtain rfl : ending = other := by simpa using hj.symm.trans hpc
        exact ⟨hself'.trans hend, Or.inr hold⟩
    · rw [hcall heq] at hj
      rw [hbody heq]
      exact h.left j ending hj

omit [DecidableEq κ] in
/-- The job a pool thread works on has been started. -/
theorem Sound.started_of_jobOf (h : Sound s) {i : ℕ} {k : κ} (hjob : jobOf s.pool i = some k) :
    k ∈ s.pool.started :=
  h.running k (running_of_jobOf hjob)

/-- Every step keeps the invariant. -/
theorem Sound.step (h : Sound s) {a : Action κ} (hstep : s.step a = some t) : Sound t := by
  cases a with
  | submit k i late =>
    obtain ⟨hidle, hsome⟩ := Option.ite_none_right_eq_some.mp hstep
    obtain ⟨pool, hpool, rfl⟩ := Option.map_eq_some_iff.mp hsome
    exact h.queues hidle (queues_of_submit hpool) rfl
  | submitThrows k =>
    obtain ⟨⟨hidle, -⟩, heq⟩ := Option.ite_none_right_eq_some.mp hstep
    obtain rfl := Option.some.inj heq
    exact h.queues hidle (queues_counted k) rfl
  | inline k =>
    obtain ⟨hidle, heq⟩ := Option.ite_none_right_eq_some.mp hstep
    obtain rfl := Option.some.inj heq
    obtain ⟨hout, hpending⟩ := h.idle k hidle
    exact h.inlines hout (h.ready_eq_none (by rw [hpending]; exact nofun)) (Or.inl ⟨rfl, rfl⟩)
  | inlineEnds k ending =>
    obtain ⟨hinline, heq⟩ := Option.ite_none_right_eq_some.mp hstep
    obtain rfl := Option.some.inj heq
    obtain ⟨hout, hrunning⟩ := h.inline k hinline
    exact h.inlines hout (h.ready_eq_none (by rw [hrunning]; exact nofun))
      (Or.inr ⟨ending, rfl, rfl⟩)
  | get k =>
    simp only [State.step, State.get] at hstep
    split at hstep
    next ending hcall hready =>
      obtain rfl := Option.some.inj hstep
      exact h.returns hready
    next hcall hready =>
      obtain rfl := Option.some.inj hstep
      exact h.goto (by rw [hcall]; rfl) rfl
    next ending hcall hready =>
      obtain rfl := Option.some.inj hstep
      exact h.returns hready
    next hcall hready =>
      obtain rfl := Option.some.inj hstep
      exact h.goto (by rw [hcall]; rfl) rfl
    next => nomatch hstep
  | wake k =>
    obtain ⟨hcall, heq⟩ := Option.ite_none_right_eq_some.mp hstep
    obtain rfl := Option.some.inj heq
    exact h.goto (by rw [hcall]; rfl) rfl
  | lock i =>
    obtain ⟨pool, hpool, rfl⟩ := Option.map_eq_some_iff.mp hstep
    obtain ⟨k, htaken, hk⟩ | ⟨hnone, hsame⟩ := lock_cases hpool
    · rw [htaken]
      exact h.takes hk
    · rw [hnone]
      exact h.same hsame
  | leaveWait i timedOut =>
    obtain ⟨pool, hpool, rfl⟩ := Option.map_eq_some_iff.mp hstep
    exact h.same (same_of_leaveWait hpool)
  | bodyEnds i ending =>
    obtain ⟨k, hjob, hk⟩ := Option.bind_eq_some_iff.mp hstep
    obtain ⟨hrunning, heq⟩ := Option.ite_none_right_eq_some.mp hk
    obtain rfl := Option.some.inj heq
    exact h.ends (h.started_of_jobOf hjob) (h.ready_eq_none (by rw [hrunning]; exact nofun)) nofun
  | publish i =>
    obtain ⟨k, hjob, hk⟩ := Option.bind_eq_some_iff.mp hstep
    split at hk
    next ending hended hready =>
      obtain rfl := Option.some.inj hk
      exact h.publishes hended hready
    next => nomatch hk
  | storeThrows i =>
    obtain ⟨k, hjob, hk⟩ := Option.bind_eq_some_iff.mp hstep
    obtain ⟨⟨-, hready⟩, heq⟩ := Option.ite_none_right_eq_some.mp hk
    obtain rfl := Option.some.inj heq
    exact h.ends (h.started_of_jobOf hjob) hready nofun
  | finish i =>
    obtain ⟨k, hjob, hk⟩ := Option.bind_eq_some_iff.mp hstep
    obtain ⟨-, hsome⟩ := Option.ite_none_right_eq_some.mp hk
    obtain ⟨pool, hpool, rfl⟩ := Option.map_eq_some_iff.mp hsome
    exact h.same (same_of_finish hpool)
  | stop =>
    obtain rfl := Option.some.inj hstep
    exact ⟨h.fifo, h.nodup, h.idle, h.inline, h.handedOver, h.queued, h.started, h.running, h.ready,
      h.left⟩
  | unwind k =>
    obtain ⟨⟨-, hcall⟩, heq⟩ := Option.ite_none_right_eq_some.mp hstep
    obtain rfl := Option.some.inj heq
    exact h.goto (by rw [hcall]; rfl) rfl

/-- A call that has been left stays so. -/
theorem State.left_of_step {a : Action κ} (hstep : s.step a = some t) {k : κ} {how : Leave}
    (hk : s.call k = .left how) : t.call k = .left how := by
  have hgoto {j : κ} {pc : CallPc} (hj : s.call j ≠ .left how) :
      Function.update s.call j pc k = .left how := by
    have hne : k ≠ j := by
      rintro rfl
      exact hj hk
    exact (Function.update_of_ne hne ..).trans hk
  cases a with
  | submit j i late =>
    obtain ⟨hidle, hsome⟩ := Option.ite_none_right_eq_some.mp hstep
    obtain ⟨pool, -, rfl⟩ := Option.map_eq_some_iff.mp hsome
    exact hgoto (by rw [hidle]; exact nofun)
  | submitThrows j =>
    obtain ⟨⟨hidle, -⟩, heq⟩ := Option.ite_none_right_eq_some.mp hstep
    obtain rfl := Option.some.inj heq
    exact hgoto (by rw [hidle]; exact nofun)
  | inline j =>
    obtain ⟨hidle, heq⟩ := Option.ite_none_right_eq_some.mp hstep
    obtain rfl := Option.some.inj heq
    exact hgoto (by rw [hidle]; exact nofun)
  | inlineEnds j ending =>
    obtain ⟨hinline, heq⟩ := Option.ite_none_right_eq_some.mp hstep
    obtain rfl := Option.some.inj heq
    exact hgoto (by rw [hinline]; exact nofun)
  | get j =>
    simp only [State.step, State.get] at hstep
    split at hstep
    next ending hcall hready =>
      obtain rfl := Option.some.inj hstep
      exact hgoto (by rw [hcall]; exact nofun)
    next hcall hready =>
      obtain rfl := Option.some.inj hstep
      exact hgoto (by rw [hcall]; exact nofun)
    next ending hcall hready =>
      obtain rfl := Option.some.inj hstep
      exact hgoto (by rw [hcall]; exact nofun)
    next hcall hready =>
      obtain rfl := Option.some.inj hstep
      exact hgoto (by rw [hcall]; exact nofun)
    next => nomatch hstep
  | wake j =>
    obtain ⟨hcall, heq⟩ := Option.ite_none_right_eq_some.mp hstep
    obtain rfl := Option.some.inj heq
    exact hgoto (by rw [hcall]; exact nofun)
  | lock i =>
    obtain ⟨pool, -, rfl⟩ := Option.map_eq_some_iff.mp hstep
    split <;> exact hk
  | leaveWait i timedOut =>
    obtain ⟨pool, -, rfl⟩ := Option.map_eq_some_iff.mp hstep
    exact hk
  | bodyEnds i ending =>
    obtain ⟨j, -, hj⟩ := Option.bind_eq_some_iff.mp hstep
    obtain ⟨-, heq⟩ := Option.ite_none_right_eq_some.mp hj
    obtain rfl := Option.some.inj heq
    exact hk
  | publish i =>
    obtain ⟨j, -, hj⟩ := Option.bind_eq_some_iff.mp hstep
    split at hj
    · obtain rfl := Option.some.inj hj
      exact hk
    · nomatch hj
  | storeThrows i =>
    obtain ⟨j, -, hj⟩ := Option.bind_eq_some_iff.mp hstep
    obtain ⟨-, heq⟩ := Option.ite_none_right_eq_some.mp hj
    obtain rfl := Option.some.inj heq
    exact hk
  | finish i =>
    obtain ⟨j, -, hj⟩ := Option.bind_eq_some_iff.mp hstep
    obtain ⟨-, hsome⟩ := Option.ite_none_right_eq_some.mp hj
    obtain ⟨pool, -, rfl⟩ := Option.map_eq_some_iff.mp hsome
    exact hk
  | stop =>
    obtain rfl := Option.some.inj hstep
    exact hk
  | unwind j =>
    obtain ⟨⟨-, hcall⟩, heq⟩ := Option.ite_none_right_eq_some.mp hstep
    obtain rfl := Option.some.inj heq
    exact hgoto (by rw [hcall]; exact nofun)

/-! ### The contract -/

/-- What is known of the bodies. A call that returns or rethrows what its body threw has a body that
has ended so and does not start again, whatever step comes next. A body is started once at most,
also when its call was unwound: then it is the pool's. -/
structure Contract (s : State κ) : Prop where
  returned : ∀ k ending, s.call k = .left (.body ending) →
    s.body k = .ended ending ∧ k ∉ s.pool.jobs
  stays : ∀ k ending, s.call k = .left (.body ending) → ∀ a t, s.step a = some t →
    t.body k = .ended ending ∧ k ∉ t.pool.jobs
  once : s.pool.started.Nodup ∧ ∀ k ∈ s.pool.started, k ∉ s.pool.jobs
  unwound : ∀ k, s.call k = .left .forcedUnwind →
    k ∈ s.pool.started ∨ k ∈ s.pool.jobs ∧ s.body k = .pending

omit [DecidableEq κ] in
/-- What a call returns is how its body has ended. -/
theorem Sound.returned (h : Sound s) {k : κ} {ending : Ending}
    (hk : s.call k = .left (.body ending)) : s.body k = .ended ending ∧ k ∉ s.pool.jobs := by
  have hended := (h.left k ending hk).1
  refine ⟨hended, fun hqueued ↦ ?_⟩
  nomatch hended.symm.trans (h.queued k hqueued)

theorem Sound.contract (h : Sound s) : Contract s := by
  have hnodup := h.nodup
  rw [h.fifo] at hnodup
  obtain ⟨hstarted, -, hapart⟩ := List.nodup_append.mp hnodup
  refine ⟨fun k ending ↦ h.returned, fun k ending hk a t hstep ↦ ?_,
    ⟨hstarted, fun k hk hqueued ↦ hapart k hk k hqueued rfl⟩, fun k hk ↦ ?_⟩
  · exact (h.step hstep).returned (State.left_of_step hstep hk)
  · have hin := h.handedOver k (by rw [hk]; rfl)
    rw [h.fifo] at hin
    exact (List.mem_append.mp hin).imp id fun hqueued ↦ ⟨hqueued, h.queued k hqueued⟩

/-- For every interleaving of calls, pool threads, failing thread creations, stop and forced
unwinding. -/
theorem returns_after_body (hs : (system κ).Reachable s) : Contract s := by
  refine (System.Reachable.invariant (P := Sound) ?_ (fun _ _ _ h hnext ↦ h.step hnext) hs).contract
  rintro s rfl
  exact sound_initial

end Sound

/-- A call that returns and one whose body is running when its task is unwound. -/
def returnAndUnwind : List (Action ℕ) :=
  [.submit 0 0 false, .get 0, .get 0, .lock 0, .bodyEnds 0 .value, .publish 0, .wake 0, .get 0,
    .finish 0, .lock 0, .submit 1 0 false, .lock 0, .get 1, .get 1, .stop, .unwind 1]

theorem returns_after_body_returnAndUnwind :
    ∃ s, (system ℕ).run initial returnAndUnwind = some s ∧ s.call 0 = .left (.body .value) ∧
      Contract s :=
  ⟨((system ℕ).run initial returnAndUnwind).get (by decide), (Option.some_get _).symm, by decide,
    returns_after_body (System.reachable_of_run rfl (Option.some_get _).symm)⟩

/-- A body outlives the call of a task that is unwound. -/
theorem runs_after_unwind : ¬ ∀ s, (system ℕ).Reachable s → ∀ k how, s.call k = .left how →
    s.body k ≠ .running ∧ k ∉ s.pool.jobs := by
  intro h
  let s := ((system ℕ).run initial returnAndUnwind).get (by decide)
  have hs : (system ℕ).Reachable s := System.reachable_of_run rfl (Option.some_get _).symm
  have hrunning : s.body 1 = .running := by decide
  exact (h s hs 1 .forcedUnwind (by decide)).1 hrunning

end Stackfull.Runtime.Blocking
