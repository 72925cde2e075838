import Mathlib.Data.List.Perm.Basic
import Mathlib.Tactic.Common
import Stackfull.Lib.Transition

/-!
# The blocking pool

`BlockingPool` (`runtime/src/Blocking.cpp`). A submit queues a job and either starts a thread or
notifies one; a pool thread takes jobs until it has waited ten seconds for one. Everything but the
jobs themselves runs under the mutex, so a step is what one thread does while it holds it; leaving
the condition variable's wait, by a notification, by a timeout or for no reason, is a step of its
own, and so is the end of a job.

`submitted`, `started` and `ended` are history. `Sound` is the invariant: the counters are what they
count, and a pending job has a thread on its way to it unless all threads of a full pool are busy.
-/

set_option autoImplicit false
set_option relaxedAutoImplicit false
set_option linter.dupNamespace false

namespace Stackfull.Runtime

open Stackfull.Lib

universe u

/-- `kMaxThreads`. -/
def kMaxThreads : ℕ := 64

/-- Where a live thread of the pool stands: before it locks the mutex, blocked in the wait, out of
the wait but without the mutex, or in a job. -/
inductive ThreadPc (κ : Type u)
  | top
  | waiting
  | woken (timedOut : Bool)
  | running (job : κ)
  deriving DecidableEq

namespace ThreadPc

variable {κ : Type u}

/-- The thread is blocked in the wait. -/
def isWaiting : ThreadPc κ → Bool
  | .waiting => true
  | _ => false

/-- The thread is inside `wait_for`. -/
def inWait : ThreadPc κ → Bool
  | .waiting | .woken _ => true
  | _ => false

/-- The thread will look at the jobs next. -/
def onTheWay : ThreadPc κ → Bool
  | .top | .woken _ => true
  | _ => false

/-- The job the thread runs. -/
def job? : ThreadPc κ → Option κ
  | .running job => some job
  | _ => none

end ThreadPc

/-- The pool and its live threads. -/
structure BlockingPool (κ : Type u) where
  jobs : List κ
  threads : ℕ
  idle : ℕ
  crew : List (ThreadPc κ)
  submitted : List κ
  started : List κ
  ended : List κ

namespace BlockingPool

variable {κ : Type u}

/-- A step of a submitting thread or of the pool thread at an index. -/
inductive Action (κ : Type u)
  | submit (job : κ) (notified : ℕ) (late : Bool)
  | lock (thread : ℕ)
  | leaveWait (thread : ℕ) (timedOut : Bool)
  | finish (thread : ℕ)

/-- The pool before the first submit. -/
def empty : BlockingPool κ where
  jobs := []
  threads := 0
  idle := 0
  crew := []
  submitted := []
  started := []
  ended := []

/-- `submit` adds a thread. -/
def adds (p : BlockingPool κ) : Bool :=
  p.idle < p.jobs.length + 1 && p.threads < kMaxThreads

/-- The job is in the queue. -/
def enqueue (p : BlockingPool κ) (job : κ) : BlockingPool κ :=
  { p with jobs := p.jobs ++ [job], submitted := p.submitted ++ [job] }

/-- A new thread. -/
def addThread (p : BlockingPool κ) : BlockingPool κ :=
  { p with threads := p.threads + 1, crew := p.crew ++ [.top] }

/-- `ready.notify_one()`: one of the waiting threads, if there is one, leaves the wait. It may do so
as its timeout expires. -/
def notifyOne (p : BlockingPool κ) (i : ℕ) (late : Bool) : Option (BlockingPool κ) :=
  if p.crew.any ThreadPc.isWaiting then
    match p.crew[i]? with
    | some .waiting => some { p with crew := p.crew.set i (.woken late) }
    | _ => none
  else some p

/-- `submit`. -/
def submit (p : BlockingPool κ) (job : κ) (i : ℕ) (late : Bool) : Option (BlockingPool κ) :=
  if p.adds then some (p.enqueue job).addThread else (p.enqueue job).notifyOne i late

/-- A thread takes the first job and leaves the mutex to run it. -/
def take (p : BlockingPool κ) (i : ℕ) (job : κ) (rest : List κ) : BlockingPool κ :=
  { p with jobs := rest, crew := p.crew.set i (.running job), started := p.started ++ [job] }

/-- The thread has the mutex: it takes a job, waits, waits on or exits. -/
def lock (p : BlockingPool κ) (i : ℕ) : Option (BlockingPool κ) :=
  match p.crew[i]?, p.jobs with
  | some .top, [] => some { p with idle := p.idle + 1, crew := p.crew.set i .waiting }
  | some .top, job :: rest => some (p.take i job rest)
  | some (.woken false), [] => some { p with crew := p.crew.set i .waiting }
  | some (.woken true), [] =>
    some { p with idle := p.idle - 1, threads := p.threads - 1, crew := p.crew.eraseIdx i }
  | some (.woken _), job :: rest => some ({ p with idle := p.idle - 1 }.take i job rest)
  | _, _ => none

/-- The wait ends by its timeout or for no reason. -/
def leaveWait (p : BlockingPool κ) (i : ℕ) (timedOut : Bool) : Option (BlockingPool κ) :=
  match p.crew[i]? with
  | some .waiting => some { p with crew := p.crew.set i (.woken timedOut) }
  | _ => none

/-- The job has run and is destroyed. -/
def finish (p : BlockingPool κ) (i : ℕ) : Option (BlockingPool κ) :=
  match p.crew[i]? with
  | some (.running job) => some { p with crew := p.crew.set i .top, ended := p.ended ++ [job] }
  | _ => none

/-- One step. -/
def step (p : BlockingPool κ) : Action κ → Option (BlockingPool κ)
  | .submit job i late => p.submit job i late
  | .lock i => p.lock i
  | .leaveWait i timedOut => p.leaveWait i timedOut
  | .finish i => p.finish i

end BlockingPool

/-- The pool as a step system, with every thread creation succeeding. -/
def blockingPool (κ : Type u) : System (BlockingPool κ) (BlockingPool.Action κ) where
  init := (· = BlockingPool.empty)
  step := BlockingPool.step

namespace BlockingPool

variable {κ : Type u} {p t : BlockingPool κ} {i : ℕ}

/-! ### One thread moves -/

/-- The thread at an index and the others. -/
theorem exists_others {l : List (ThreadPc κ)} {pc : ThreadPc κ} (h : l[i]? = some pc) :
    ∃ others, l.Perm (pc :: others) ∧ (∀ new, (l.set i new).Perm (new :: others)) ∧
      l.eraseIdx i = others := by
  obtain ⟨hi, rfl⟩ := List.getElem?_eq_some_iff.mp h
  exact ⟨l.eraseIdx i, (List.getElem_cons_eraseIdx_perm hi).symm,
    fun new ↦ List.set_perm_cons_eraseIdx hi new, rfl⟩

/-- What is the case of the pool whatever the order of its threads. -/
structure Sound (p : BlockingPool κ) : Prop where
  fifo : p.submitted = p.started ++ p.jobs
  runs : p.started.Perm (p.ended ++ p.crew.filterMap ThreadPc.job?)
  threads : p.threads = p.crew.length
  cap : p.threads ≤ kMaxThreads
  idle : p.idle = p.crew.countP ThreadPc.inWait
  served : p.jobs.length ≤ p.crew.countP ThreadPc.onTheWay ∨
    p.crew.countP ThreadPc.isWaiting = 0 ∧ p.threads = kMaxThreads

theorem sound_empty : Sound (empty : BlockingPool κ) where
  fifo := rfl
  runs := List.Perm.refl []
  threads := rfl
  cap := Nat.zero_le _
  idle := rfl
  served := Or.inl (Nat.le_refl 0)

/-- The counts of the threads are those of one thread and of the others. -/
structure Split (crew : List (ThreadPc κ)) (pc : ThreadPc κ) (others : List (ThreadPc κ)) :
    Prop where
  length : crew.length = others.length + 1
  inWait : crew.countP ThreadPc.inWait =
    others.countP ThreadPc.inWait + if pc.inWait then 1 else 0
  onTheWay : crew.countP ThreadPc.onTheWay =
    others.countP ThreadPc.onTheWay + if pc.onTheWay then 1 else 0
  isWaiting : crew.countP ThreadPc.isWaiting =
    others.countP ThreadPc.isWaiting + if pc.isWaiting then 1 else 0
  jobs : (crew.filterMap ThreadPc.job?).Perm (pc.job?.toList ++ others.filterMap ThreadPc.job?)

theorem split_of_perm {crew others : List (ThreadPc κ)} {pc : ThreadPc κ}
    (h : crew.Perm (pc :: others)) : Split crew pc others where
  length := h.length_eq
  inWait := by rw [h.countP_eq, List.countP_cons]
  onTheWay := by rw [h.countP_eq, List.countP_cons]
  isWaiting := by rw [h.countP_eq, List.countP_cons]
  jobs := by
    refine (h.filterMap _).trans ?_
    rw [List.filterMap_cons]
    cases pc <;> exact List.Perm.refl _

/-- A thread that waits is blocked in the wait or will look at the jobs. -/
theorem inWait_le (crew : List (ThreadPc κ)) : crew.countP ThreadPc.inWait ≤
    crew.countP ThreadPc.onTheWay + crew.countP ThreadPc.isWaiting := by
  induction crew with
  | nil => exact Nat.le_refl 0
  | cons pc others ih =>
    simp only [List.countP_cons]
    cases pc <;> simp [ThreadPc.inWait, ThreadPc.onTheWay, ThreadPc.isWaiting] <;> omega

/-- Nobody waits. -/
theorem countP_isWaiting_eq_zero {crew : List (ThreadPc κ)}
    (h : ¬ crew.any ThreadPc.isWaiting = true) : crew.countP ThreadPc.isWaiting = 0 := by
  rw [List.countP_eq_zero]
  intro pc hpc hwaiting
  exact h (List.any_eq_true.mpr ⟨pc, hpc, hwaiting⟩)

/-! ### The steps -/

/-- A submit that starts a thread. -/
theorem Sound.addThread (h : Sound p) (hadds : p.adds = true) (job : κ) :
    Sound (p.enqueue job).addThread := by
  have hroom : p.threads < kMaxThreads := by
    simp only [adds, Bool.and_eq_true, decide_eq_true_eq] at hadds
    exact hadds.2
  have hsplit := split_of_perm (List.perm_append_singleton ThreadPc.top p.crew)
  refine ⟨?_, ?_, ?_, hroom, ?_, Or.inl ?_⟩
  · show p.submitted ++ [job] = p.started ++ (p.jobs ++ [job])
    rw [h.fifo, List.append_assoc]
  · exact h.runs.trans (hsplit.jobs.symm.append_left p.ended)
  · show p.threads + 1 = (p.crew ++ [ThreadPc.top]).length
    rw [hsplit.length, h.threads]
  · show p.idle = (p.crew ++ [ThreadPc.top]).countP _
    rw [hsplit.inWait, h.idle]
    rfl
  · show (p.jobs ++ [job]).length ≤ (p.crew ++ [ThreadPc.top]).countP _
    have hserved := h.served
    rw [hsplit.onTheWay, List.length_append]
    simp only [ThreadPc.onTheWay, if_true, List.length_singleton]
    omega

/-- A submit that notifies a thread, or finds nobody to notify. -/
theorem Sound.notifyOne (h : Sound p) (hadds : ¬ p.adds = true) {job : κ} {late : Bool}
    (hstep : (p.enqueue job).notifyOne i late = some t) : Sound t := by
  have hfifo : p.submitted ++ [job] = p.started ++ (p.jobs ++ [job]) := by
    rw [h.fifo, List.append_assoc]
  have hcrew : (p.enqueue job).crew = p.crew := rfl
  unfold BlockingPool.notifyOne at hstep
  rw [hcrew] at hstep
  split at hstep
  next hsome =>
    split at hstep
    next hwaiting =>
      obtain rfl := Option.some.inj hstep
      obtain ⟨others, hold, hnew, -⟩ := exists_others hwaiting
      have hbefore := split_of_perm hold
      have hafter := split_of_perm (hnew (.woken late))
      have hserved := h.served
      refine ⟨hfifo, ?_, ?_, h.cap, ?_, Or.inl ?_⟩
      · exact h.runs.trans ((hbefore.jobs.trans hafter.jobs.symm).append_left p.ended)
      · show p.threads = _
        rw [h.threads, hbefore.length]
        exact hafter.length.symm
      · show p.idle = _
        rw [h.idle, hbefore.inWait]
        exact hafter.inWait.symm
      · show (p.jobs ++ [job]).length ≤ _
        have hmore := hafter.onTheWay
        have hless := hbefore.onTheWay
        have hwaits := hbefore.isWaiting
        simp only [ThreadPc.onTheWay, ThreadPc.isWaiting, if_true, if_false, Bool.false_eq_true,
          List.length_append, List.length_singleton] at hmore hless hwaits ⊢
        omega
    · nomatch hstep
  next hnone =>
    obtain rfl := Option.some.inj hstep
    have hzero := countP_isWaiting_eq_zero hnone
    refine ⟨hfifo, h.runs, h.threads, h.cap, h.idle, ?_⟩
    have hle := inWait_le p.crew
    have hidle := h.idle
    have hcap := h.cap
    simp only [adds, Bool.and_eq_true, decide_eq_true_eq, not_and_or] at hadds
    simp only [BlockingPool.enqueue, List.length_append, List.length_singleton] at hzero hadds ⊢
    omega

/-- A thread takes a job. -/
theorem Sound.take (h : Sound p) {pc : ThreadPc κ} {job : κ} {rest : List κ}
    (hpc : p.crew[i]? = some pc) (hjobs : p.jobs = job :: rest) (hway : pc.onTheWay = true)
    (hidle : pc.job? = none) :
    Sound ({ p with idle := p.idle - if pc.inWait then 1 else 0 }.take i job rest) := by
  obtain ⟨others, hold, hnew, -⟩ := exists_others hpc
  have hbefore := split_of_perm hold
  have hafter := split_of_perm (hnew (.running job))
  have hwaiting : pc.isWaiting = false := by cases pc <;> first | rfl | nomatch hway
  refine ⟨?_, ?_, ?_, h.cap, ?_, ?_⟩
  · show p.submitted = (p.started ++ [job]) ++ rest
    rw [h.fifo, hjobs, List.append_assoc]
    rfl
  · show (p.started ++ [job]).Perm (p.ended ++ (p.crew.set i (.running job)).filterMap _)
    have hrunning := hbefore.jobs
    rw [hidle] at hrunning
    refine ((h.runs.trans (hrunning.append_left p.ended)).append_right [job]).trans ?_
    refine List.Perm.trans ?_ (hafter.jobs.symm.append_left p.ended)
    simp only [Option.toList, List.nil_append, List.append_assoc]
    exact (List.perm_append_comm).append_left p.ended
  · show p.threads = (p.crew.set i (.running job)).length
    rw [hafter.length, h.threads, hbefore.length]
  · show p.idle - _ = (p.crew.set i (.running job)).countP _
    rw [hafter.inWait, h.idle, hbefore.inWait]
    simp [ThreadPc.inWait]
  · have hserved := h.served
    have hmore := hafter.onTheWay
    have hless := hbefore.onTheWay
    have hwaits := hbefore.isWaiting
    have hwaits' := hafter.isWaiting
    rw [hjobs, List.length_cons] at hserved
    rw [if_pos hway] at hless
    rw [hwaiting] at hwaits
    simp only [ThreadPc.onTheWay, ThreadPc.isWaiting, Bool.false_eq_true, if_false]
      at hmore hwaits hwaits'
    simp only [BlockingPool.take]
    omega

/-- A thread goes on to a point of the same kind for the counters, with no job to take. -/
theorem Sound.idles (h : Sound p) (hjobs : p.jobs = []) {pc new : ThreadPc κ}
    (hpc : p.crew[i]? = some pc) (hold : pc.job? = none) (hnew : new.job? = none) {idle : ℕ}
    (hidle : idle + (if pc.inWait then 1 else 0) = p.idle + if new.inWait then 1 else 0) :
    Sound { p with idle := idle, crew := p.crew.set i new } := by
  obtain ⟨others, hperm, hset, -⟩ := exists_others hpc
  have hbefore := split_of_perm hperm
  have hafter := split_of_perm (hset new)
  refine ⟨h.fifo, ?_, ?_, h.cap, ?_, Or.inl ?_⟩
  · have hrunning := hbefore.jobs
    have hrunning' := hafter.jobs
    rw [hold] at hrunning
    rw [hnew] at hrunning'
    exact h.runs.trans ((hrunning.trans hrunning'.symm).append_left p.ended)
  · show p.threads = (p.crew.set i new).length
    rw [hafter.length, h.threads, hbefore.length]
  · show idle = (p.crew.set i new).countP _
    have hcount := h.idle
    rw [hbefore.inWait] at hcount
    rw [hafter.inWait]
    omega
  · show p.jobs.length ≤ _
    rw [hjobs]
    exact Nat.zero_le _

/-- A thread exits. -/
theorem Sound.exit (h : Sound p) (hjobs : p.jobs = [])
    (hpc : p.crew[i]? = some (.woken true)) :
    Sound { p with idle := p.idle - 1, threads := p.threads - 1, crew := p.crew.eraseIdx i } := by
  obtain ⟨others, hperm, -, rfl⟩ := exists_others hpc
  have hbefore := split_of_perm hperm
  have hcap := h.cap
  refine ⟨h.fifo, h.runs.trans (hbefore.jobs.append_left p.ended), ?_, ?_, ?_, Or.inl ?_⟩
  · show p.threads - 1 = (p.crew.eraseIdx i).length
    rw [h.threads, hbefore.length, Nat.add_sub_cancel]
  · show p.threads - 1 ≤ kMaxThreads
    omega
  · show p.idle - 1 = (p.crew.eraseIdx i).countP _
    rw [h.idle, hbefore.inWait]
    simp [ThreadPc.inWait]
  · show p.jobs.length ≤ _
    rw [hjobs]
    exact Nat.zero_le _

/-- The thread that has the mutex does what it can. -/
theorem Sound.lock (h : Sound p) (hstep : p.lock i = some t) : Sound t := by
  unfold BlockingPool.lock at hstep
  split at hstep
  next hpc hjobs =>
    obtain rfl := Option.some.inj hstep
    exact h.idles hjobs hpc rfl rfl rfl
  next job rest hpc hjobs =>
    obtain rfl := Option.some.inj hstep
    exact h.take hpc hjobs rfl rfl
  next hpc hjobs =>
    obtain rfl := Option.some.inj hstep
    exact h.idles hjobs hpc rfl rfl rfl
  next hpc hjobs =>
    obtain rfl := Option.some.inj hstep
    exact h.exit hjobs hpc
  next timedOut job rest hpc hjobs =>
    obtain rfl := Option.some.inj hstep
    exact h.take hpc hjobs rfl rfl
  next => nomatch hstep

/-- A wait ends without a notification. -/
theorem Sound.leaveWait (h : Sound p) {timedOut : Bool} (hstep : p.leaveWait i timedOut = some t) :
    Sound t := by
  unfold BlockingPool.leaveWait at hstep
  split at hstep
  next hpc =>
    obtain rfl := Option.some.inj hstep
    obtain ⟨others, hperm, hset, -⟩ := exists_others hpc
    have hbefore := split_of_perm hperm
    have hafter := split_of_perm (hset (.woken timedOut))
    refine ⟨h.fifo, ?_, ?_, h.cap, ?_, ?_⟩
    · exact h.runs.trans ((hbefore.jobs.trans hafter.jobs.symm).append_left p.ended)
    · show p.threads = (p.crew.set i _).length
      rw [hafter.length, h.threads, hbefore.length]
    · show p.idle = (p.crew.set i _).countP _
      rw [hafter.inWait, h.idle, hbefore.inWait]
      rfl
    · have hserved := h.served
      have hmore := hafter.onTheWay
      have hless := hbefore.onTheWay
      have hwaits := hbefore.isWaiting
      simp only [ThreadPc.onTheWay, ThreadPc.isWaiting, if_true, if_false, Bool.false_eq_true]
        at hmore hless hwaits
      simp only
      omega
  next => nomatch hstep

/-- A job ends. -/
theorem Sound.finish (h : Sound p) (hstep : p.finish i = some t) : Sound t := by
  unfold BlockingPool.finish at hstep
  split at hstep
  next job hpc =>
    obtain rfl := Option.some.inj hstep
    obtain ⟨others, hperm, hset, -⟩ := exists_others hpc
    have hbefore := split_of_perm hperm
    have hafter := split_of_perm (hset .top)
    refine ⟨h.fifo, ?_, ?_, h.cap, ?_, ?_⟩
    · show p.started.Perm ((p.ended ++ [job]) ++ (p.crew.set i .top).filterMap _)
      refine (h.runs.trans (hbefore.jobs.append_left p.ended)).trans ?_
      refine List.Perm.trans ?_ (hafter.jobs.symm.append_left (p.ended ++ [job]))
      simp [ThreadPc.job?]
    · show p.threads = (p.crew.set i _).length
      rw [hafter.length, h.threads, hbefore.length]
    · show p.idle = (p.crew.set i _).countP _
      rw [hafter.inWait, h.idle, hbefore.inWait]
      rfl
    · have hserved := h.served
      have hmore := hafter.onTheWay
      have hless := hbefore.onTheWay
      have hwaits := hbefore.isWaiting
      have hwaits' := hafter.isWaiting
      simp only [ThreadPc.onTheWay, ThreadPc.isWaiting, if_true, if_false, Bool.false_eq_true]
        at hmore hless hwaits hwaits'
      simp only
      omega
  next => nomatch hstep

/-- Every step keeps the invariant. -/
theorem Sound.step (h : Sound p) {a : Action κ} (hstep : p.step a = some t) : Sound t := by
  cases a with
  | submit job i late =>
    simp only [BlockingPool.step, BlockingPool.submit] at hstep
    split at hstep
    next hadds =>
      obtain rfl := Option.some.inj hstep
      exact h.addThread hadds job
    next hadds => exact h.notifyOne hadds hstep
  | lock i => exact h.lock hstep
  | leaveWait i timedOut => exact h.leaveWait hstep
  | finish i => exact h.finish hstep

/-! ### The contract -/

/-- What the pool promises in every state: jobs are taken in their order, each once, and those that
were taken have ended or are being run by one thread; the counters count; and pending jobs are never
left to threads that are all blocked in the wait. -/
structure Contract (p : BlockingPool κ) : Prop where
  fifo : p.submitted = p.started ++ p.jobs
  runs : p.started.Perm (p.ended ++ p.crew.filterMap ThreadPc.job?)
  cap : p.threads ≤ 64
  threads : p.threads = p.crew.length
  idle : p.idle = p.crew.countP ThreadPc.inWait
  awake : p.jobs ≠ [] → ∃ pc ∈ p.crew, pc ≠ .waiting
  served : p.jobs.length ≤ p.crew.countP ThreadPc.onTheWay ∨
    p.threads = 64 ∧ ∀ pc ∈ p.crew, pc ≠ .waiting

theorem Sound.contract (h : Sound p) : Contract p := by
  have hserved : p.jobs.length ≤ p.crew.countP ThreadPc.onTheWay ∨
      p.threads = 64 ∧ ∀ pc ∈ p.crew, pc ≠ .waiting := by
    refine h.served.imp id fun hfull ↦ ⟨hfull.2, fun pc hpc hwaiting ↦ ?_⟩
    have hnone := List.countP_eq_zero.mp hfull.1 pc hpc
    rw [hwaiting] at hnone
    exact hnone rfl
  refine ⟨h.fifo, h.runs, h.cap, h.threads, h.idle, fun hjobs ↦ ?_, hserved⟩
  rcases hserved with hway | ⟨hfull, hbusy⟩
  · have hpos : 0 < p.crew.countP ThreadPc.onTheWay :=
      Nat.lt_of_lt_of_le (List.length_pos_iff.mpr hjobs) hway
    obtain ⟨pc, hpc, hon⟩ := List.countP_pos_iff.mp hpos
    refine ⟨pc, hpc, ?_⟩
    rintro rfl
    nomatch hon
  · have hpos : 0 < p.crew.length := by rw [← h.threads, hfull]; decide
    exact ⟨p.crew[0], List.getElem_mem hpos, hbusy _ (List.getElem_mem hpos)⟩

/-- For every interleaving of submits, jobs, wake-ups and timeouts, with thread creation succeeding,
the pool strands no job. -/
theorem no_job_stranded (hp : (blockingPool κ).Reachable p) : Contract p := by
  refine (System.Reachable.invariant (P := Sound) ?_ (fun _ _ _ h hnext ↦ h.step hnext) hp).contract
  rintro p rfl
  exact sound_empty

/-- Two jobs for one thread: it is notified for the second while it is out of the wait for no
reason, and another submit finds it still counted as idle. -/
def notifiedLate : List (Action ℕ) :=
  [.submit 0 0 false, .lock 0, .finish 0, .lock 0, .leaveWait 0 true, .submit 1 0 false,
    .submit 2 0 false, .lock 0, .lock 1, .finish 0]

theorem no_job_stranded_notifiedLate :
    ∃ p, (blockingPool ℕ).run empty notifiedLate = some p ∧ p.threads = 2 ∧ p.ended = [0, 1] ∧
      Contract p :=
  ⟨((blockingPool ℕ).run empty notifiedLate).get (by decide), (Option.some_get _).symm, by decide,
    by decide, no_job_stranded (System.reachable_of_run rfl (Option.some_get _).symm)⟩

end BlockingPool

end Stackfull.Runtime
