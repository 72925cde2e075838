import Mathlib
import Stackfull.Sched.IdleInbox

/-!
# No lost wakeup

`Attended` and `Looked` are the two halves of the handshake between producers and workers that go
to sleep. A producer enqueues and then looks at the idle mask; a worker sets its bit and then looks
at the queues. So a task that a worker's last look missed belongs to a producer that has yet to
look at the mask, or has cleared a bit of it. With `Summoned` the worker whose bit was cleared is
woken, provided that every claim of the timekeeper role before a sleep in the driver meets
`WakeSeen`: the worker still has its bit, or a wake of the driver is there or on its way.
`injected_task_stranded` is the run that does not meet it.

`no_worker_stranded_at_stop` is the same argument for `stop`, with `stopping` in place of the bit.
-/

set_option autoImplicit false
set_option relaxedAutoImplicit false
set_option linter.dupNamespace false

namespace Stackfull.Sched.Idle

open Stackfull.Lib

universe u v

variable {n : ℕ} {κ : Type u} {τ : Type v} [DecidableEq κ] [DecidableEq τ]
variable {c : Config} {s t : State n κ τ} {action : Action n κ τ} {w : Fin n}

/-! ### The injection queue -/

/-- The worker may still look at the injection queue, or its bit was cleared. -/
def State.Attentive (s : State n κ τ) (w : Fin n) : Prop :=
  (s.pc w).committed = false ∨ w ∉ s.idleMask

/-- While a task is in the injection queue, a producer has yet to look at the idle mask or some
worker is attentive. -/
def Attended (s : State n κ τ) : Prop :=
  s.injection ≠ [] → (∃ a, (s.call a).notifying = true) ∨ ∃ w, s.Attentive w

omit [DecidableEq κ] [DecidableEq τ] in
theorem attended_initial : Attended (initial : State n κ τ) :=
  fun h ↦ absurd rfl h

omit [DecidableEq τ] in
@[grind →]
theorem WorkerPc.committed_of_isSearching {pc : WorkerPc τ} (h : pc.isSearching = true) :
    pc.committed = false := by
  cases pc <;> simp_all [isSearching, committed]

omit [DecidableEq τ] in
@[grind →]
theorem WorkerPc.marked_of_committed {pc : WorkerPc τ} (h : pc.committed = true) :
    pc.marked = true := by
  cases pc <;> simp_all [committed, marked, lookedInside]

/-- An attentive worker stays so, unless it finds the injection queue empty. -/
theorem attentive_step (hs : s.Attentive w) (hinjection : s.injection ≠ [])
    (h : Step c s action t) : t.Attentive w := by
  unfold State.Attentive at *
  cases h with
  | quiet => grind -linarith
  | _ => grind -linarith [WorkerPc.committed]

/-- A producer that has looked at the idle mask leaves an attentive worker behind. -/
theorem notifying_step [NeZero n] (hsearch : Searchers s) {a : Agent n κ}
    (hs : (s.call a).notifying = true) (h : Step c s action t) :
    (t.call a).notifying = true ∨ ∃ w, t.Attentive w := by
  cases h with
  | searcherSeen hpc hpos =>
    obtain ⟨w, hw⟩ := hsearch.exists_of_pos hpos
    exact .inr ⟨w, .inl (WorkerPc.committed_of_isSearching hw)⟩
  | nobodyIdle hpc hmask => exact .inr ⟨0, .inr (by simp [hmask])⟩
  | @claimIdle b _ target =>
    exact .inr ⟨target, .inr (by simp)⟩
  | counted hpc => have hnot := hpc.notifying; grind -linarith
  | _ => grind -linarith [CallPc.notifying]

theorem attended_step [NeZero n] (hsearch : Searchers s) (hs : Attended s)
    (h : Step c s action t) : Attended t := by
  intro hinjection
  by_cases hbefore : s.injection = []
  · left
    cases h with
    | @inject a => exact ⟨a, by simp [CallPc.notifying]⟩
    | pop hcons => simp [hbefore] at hcons
    | _ => exact absurd hbefore hinjection
  · rcases hs hbefore with ⟨a, ha⟩ | ⟨w, hw⟩
    · rcases notifying_step hsearch ha h with ha' | hattentive
      · exact .inl ⟨a, ha'⟩
      · exact .inr hattentive
    · exact .inr ⟨w, attentive_step hw hbefore h⟩

/-! ### The inboxes -/

/-- The worker's bit was cleared, or a producer that has put a task into its inbox has yet to look
at its bit. -/
def State.Alerted (s : State n κ τ) (w : Fin n) : Prop :=
  w ∉ s.idleMask ∨ ∃ a, (s.call a).delivers w = true

/-- What the worker's look into its inbox misses is announced to it. -/
structure Looked (s : State n κ τ) : Prop where
  inside : ∀ w, (s.pc w).lookedInside = true →
    (∀ task, ¬ (s.inbox w).Contains (.task task)) ∨ s.Alerted w
  behind : ∀ w front, s.pc w = .popInbox .park (.checkHead front) →
    (s.inbox w).next front = none ∨ s.Alerted w

omit [DecidableEq κ] [DecidableEq τ] in
theorem looked_initial : Looked (initial : State n κ τ) where
  inside := fun w h ↦ by simp [initial, WorkerPc.lookedInside, WorkerPc.committed] at h
  behind := fun w front h ↦ by simp [initial] at h

omit [DecidableEq τ] in
@[grind →]
theorem WorkerPc.of_lookedInside {pc : WorkerPc τ} (h : pc.lookedInside = true) :
    pc.marked = true ∧ pc.popping = none ∧ pc ≠ .marking := by
  cases pc <;> simp_all [marked, lookedInside, popping, committed]

omit [DecidableEq τ] in
@[grind →]
theorem CallPc.notifying_of_delivers {pc : CallPc n τ} (h : pc.delivers w = true) :
    pc.notifying = false := by
  cases pc <;> simp_all [delivers, notifying]

theorem alerted_step (hs : s.Alerted w) (hpc : s.pc w ≠ .marking) (h : Step c s action t) :
    t.Alerted w := by
  rcases hs with hmask | ⟨a, ha⟩
  · left
    cases h with
    | _ => grind -linarith
  · by_cases ha' : (t.call a).delivers w = true
    · exact .inr ⟨a, ha'⟩
    · left
      cases h with
      | counted hpc => have hnot := hpc.delivers w; grind -linarith
      | _ => grind -linarith [CallPc.delivers]

omit [DecidableEq κ] [DecidableEq τ] in
theorem State.Alerted.of_push {x y : Node τ} (h : s.pushes w x y) : s.Alerted w := by
  obtain ⟨a, task, hlinks, -⟩ := h
  refine .inr ⟨a, ?_⟩
  cases hpc : s.call a <;> simp only [hpc, CallPc.links] at hlinks
  case pushing target held push => cases push <;> simp_all [CallPc.delivers]

omit [DecidableEq κ] in
/-- A pop that finds nothing has missed only what is announced. -/
theorem Looked.of_pop_none (hs : Looked s) (hinbox : Inboxes s) {pop : PopPc τ} {q : MpscQueue τ}
    (hpc : s.pc w = .popInbox .park pop)
    (hpop : (s.inbox w).popStep pop = (q, .inr none)) :
    q = s.inbox w ∧ ((∀ task, ¬ (s.inbox w).Contains (.task task)) ∨ s.Alerted w) := by
  have hq := hinbox.at_pop hpc
  obtain ⟨hsame, -, hnone, hmissed⟩ := hq.popStep_none hpop
  refine ⟨hsame, ?_⟩
  have hnext : (s.inbox w).next (s.inbox w).tail = none ∨ s.Alerted w := by
    rcases hnone with hnone | ⟨front, rfl⟩
    · exact .inl hnone
    · have hfront : (s.inbox w).tail = front := hq.fits.1
      exact hfront ▸ hs.behind w front hpc
  rcases hnext with hnext | halerted
  · exact (hmissed hnext).imp_right fun ⟨y, hy⟩ ↦ .of_push hy
  · exact .inr halerted

/-- A task that gets into the inbox is announced. -/
theorem empty_step (hs : ∀ task, ¬ (s.inbox w).Contains (.task task))
    (hpop : (s.pc w).popping = none) (h : Step c s action t) :
    (∀ task, ¬ (t.inbox w).Contains (.task task)) ∨ t.Alerted w := by
  cases h with
  | @pushSwap a _ target task hpc =>
    by_cases htarget : w = target
    · exact .inr (.inr ⟨a, by simp [CallPc.delivers, htarget]⟩)
    · exact .inl (by grind -linarith)
  | _ => exact .inl (by grind -linarith [WorkerPc.popping])

theorem inside_step (hs : Looked s) (hinbox : Inboxes s) (h : Step c s action t) :
    ∀ w, (t.pc w).lookedInside = true →
      (∀ task, ¬ (t.inbox w).Contains (.task task)) ∨ t.Alerted w := by
  intro w hinside
  by_cases hbefore : (s.pc w).lookedInside = true
  · obtain ⟨-, hpop, hmarking⟩ := WorkerPc.of_lookedInside hbefore
    rcases hs.inside w hbefore with hempty | halerted
    · exact empty_step hempty hpop h
    · exact .inr (alerted_step halerted hmarking h)
  · cases h with
    | @inboxNone v flag site pop q hpc hpop =>
      obtain rfl : w = v := by
        by_contra hne
        grind -linarith
      obtain rfl : site = .park := by
        have hpark : site.isPark = true := by grind -linarith
        cases site <;> simp_all [Site.isPark]
      obtain ⟨rfl, hmissed⟩ := hs.of_pop_none hinbox hpc hpop
      simpa [State.Alerted] using hmissed
    | quiet => grind -linarith
    | _ => grind -linarith [WorkerPc.lookedInside, WorkerPc.committed]

theorem behind_step (hs : Looked s) (h : Step c s action t) :
    ∀ w front, t.pc w = .popInbox .park (.checkHead front) →
      (t.inbox w).next front = none ∨ t.Alerted w := by
  intro w front hfront
  have hpopping : (t.pc w).popping = some (.checkHead front) := by
    simp [hfront, WorkerPc.popping]
  by_cases hbefore : s.pc w = .popInbox .park (.checkHead front)
  · rcases hs.behind w front hbefore with hnext | halerted
    · cases h with
      | @pushLink a _ target task previous hpc =>
        by_cases htarget : w = target
        · exact .inr (.inr ⟨a, by simp [CallPc.delivers, htarget]⟩)
        · exact .inl (by grind -linarith)
      | inboxNext hpc hpop => exact .inl (by grind -linarith [MpscQueue.next_of_checkHead])
      | _ => exact .inl (by grind -linarith)
    · exact .inr (alerted_step halerted (by simp [hbefore]) h)
  · cases h with
    | inboxNext hpc hpop => exact .inl (by grind -linarith [MpscQueue.next_of_checkHead])
    | quiet hquiet =>
      have hstart := hquiet.to_pop
      grind -linarith
    | _ => grind -linarith [WorkerPc.popping]

theorem looked_step (hs : Looked s) (hinbox : Inboxes s) (h : Step c s action t) : Looked t where
  inside := inside_step hs hinbox h
  behind := behind_step hs h

/-! ### Blocked workers -/

/-- What holds in every reachable state. -/
structure Sound (c : Config) (s : State n κ τ) : Prop where
  role : Role s
  searchers : Searchers s
  driverExists : DriverExists c s
  inboxes : Inboxes s
  attended : Attended s
  looked : Looked s

omit [DecidableEq κ] [DecidableEq τ] in
theorem sound_initial : Sound c (initial : State n κ τ) :=
  ⟨role_initial, searchers_initial, driverExists_initial, inboxes_initial, attended_initial,
    looked_initial⟩

theorem sound_step [NeZero n] (hs : Sound c s) (h : Step c s action t) : Sound c t where
  role := role_step hs.role h
  searchers := searchers_step hs.searchers h
  driverExists := driverExists_step hs.driverExists h
  inboxes := inboxes_step hs.inboxes h
  attended := attended_step hs.searchers hs.attended h
  looked := looked_step hs.looked hs.inboxes h

/-- The worker is inside `Parker::park` or `Driver::wait`, and nothing is there that the sleep it
is in would observe. -/
def State.Blocked (s : State n κ τ) (w : Fin n) : Prop :=
  match s.pc w with
  | .parked _ => s.token w = false
  | .keeping _ => s.token w = false
  | .inDriver _ => s.driverWake = false
  | _ => False

instance (s : State n κ τ) (w : Fin n) : Decidable (s.Blocked w) := by
  unfold State.Blocked
  split <;> infer_instance

/-- The worker is blocked, and its sleep has no timeout. -/
def State.BlockedUntimed (s : State n κ τ) (w : Fin n) : Prop :=
  s.Blocked w ∧ (s.pc w).untimed = true

omit [DecidableEq κ] [DecidableEq τ] in
theorem State.Blocked.committed (h : s.Blocked w) : (s.pc w).committed = true := by
  unfold State.Blocked at h
  cases hpc : s.pc w <;> simp_all [WorkerPc.committed]

omit [DecidableEq κ] [DecidableEq τ] in
theorem State.Blocked.lookedInside (h : s.Blocked w) : (s.pc w).lookedInside = true := by
  unfold State.Blocked at h
  cases hpc : s.pc w <;> simp_all [WorkerPc.lookedInside, WorkerPc.committed]

omit [DecidableEq κ] [DecidableEq τ] in
/-- A wakeup that has arrived keeps the worker from being blocked. -/
theorem not_blocked_of_woken {stopOnly : Bool} (hs : Woken c s stopOnly w)
    (htoken : ∀ a, (s.call a).owesToken stopOnly w = false)
    (hwake : ∀ a, (s.call a).owesWake stopOnly w = false) : ¬ s.Blocked w := by
  intro hblocked
  unfold State.Blocked at hblocked
  cases hpc : s.pc w <;>
    simp_all [Woken, WorkerPc.driverBound, State.TokenComes, State.WakeComes]

/-! ### Enqueued tasks -/

/-- No lost wakeup: once every call has ended, a task in the injection queue finds a worker that
is not blocked, and a task in a worker's inbox finds that worker not blocked. -/
def NoLostWakeup (s : State n κ τ) : Prop :=
  (∀ a, s.call a = .idle) →
    (s.injection ≠ [] → ∃ w, ¬ s.Blocked w) ∧
      ∀ w task, (s.inbox w).Contains (.task task) → ¬ s.Blocked w

omit [DecidableEq κ] [DecidableEq τ] in
theorem not_blocked_of_cleared (hsummoned : Summoned c s) (hidle : ∀ a, s.call a = .idle)
    (hmask : w ∉ s.idleMask) : ¬ s.Blocked w := by
  intro hblocked
  have hmarked := WorkerPc.marked_of_committed hblocked.committed
  refine not_blocked_of_woken (hsummoned w hmarked hmask) ?_ ?_ hblocked
  · intro a
    simp [hidle a, CallPc.owesToken]
  · intro a
    simp [hidle a, CallPc.owesWake]

omit [DecidableEq κ] [DecidableEq τ] in
theorem noLostWakeup_of_sound (hs : Sound c s) (hsummoned : Summoned c s) : NoLostWakeup s := by
  intro hidle
  refine ⟨fun hinjection ↦ ?_, fun w task htask hblocked ↦ ?_⟩
  · rcases hs.attended hinjection with ⟨a, ha⟩ | ⟨w, hcommitted | hmask⟩
    · simp [hidle a, CallPc.notifying] at ha
    · refine ⟨w, fun hblocked ↦ ?_⟩
      rw [hblocked.committed] at hcommitted
      cases hcommitted
    · exact ⟨w, not_blocked_of_cleared hsummoned hidle hmask⟩
  · rcases hs.looked.inside w hblocked.lookedInside with hempty | hmask | ⟨a, ha⟩
    · exact hempty task htask
    · exact not_blocked_of_cleared hsummoned hidle hmask hblocked
    · simp [hidle a, CallPc.delivers] at ha

/-- No wakeup is lost in a run in which every worker that claims the timekeeper role before a sleep
in the driver still has its bit of the idle mask, or finds a wake of the driver there or on its
way. Without a driver every run is one. -/
theorem no_lost_wakeup [NeZero n] (c : Config) {s : State n κ τ}
    (hs : (system n κ τ c).ReachableUnder (WakeSeen c) s) : NoLostWakeup s := by
  have hinv : Sound c s ∧ Summoned c s := by
    refine System.ReachableUnder.invariant (P := fun s ↦ Sound c s ∧ Summoned c s) ?_ ?_ hs
    · rintro _ rfl
      exact ⟨sound_initial, summoned_initial⟩
    · rintro s action t ⟨hsound, hsummoned⟩ hseen h
      exact ⟨sound_step hsound (step_of_eq h),
        summoned_step hsound.role hsound.driverExists hsummoned hseen h⟩
  exact noLostWakeup_of_sound hinv.1 hinv.2

/-- A scheduler with a driver whose idle workers do not spin. -/
def withDriver : Config where
  hasDriver := true
  idleSpin := false

/-- The one worker goes from the top of its loop through the maintenance and the search to its last
look at the queues, finds nothing and is about to claim the timekeeper role. -/
def goIdle : List (Action 1 Unit Unit) :=
  List.replicate 24 (.work 0 false)

/-- The worker claims the role and goes to sleep in the driver. -/
def sleepInDriver : List (Action 1 Unit Unit) :=
  List.replicate 2 (.work 0 false)

/-- A producer outside the scheduler takes its next steps. -/
def produce (count : ℕ) : List (Action 1 Unit Unit) :=
  List.replicate count (.act (.foreign ()) false)

/-- The claims of the role are made with the bit set. -/
def claimsWithBit (s : State n κ τ) : Action n κ τ → Bool
  | .work w _ =>
    match s.pc w with
    | .sleepClaim _ => decide (w ∈ s.idleMask)
    | _ => true
  | _ => true

omit [DecidableEq κ] [DecidableEq τ] in
theorem wakeSeen_of_claimsWithBit (h : claimsWithBit s action = true) : WakeSeen c s action := by
  intro w hclaim
  cases action with
  | work v flag =>
    obtain ⟨rfl, -, -, stopping, hpc⟩ := hclaim
    left
    simpa [claimsWithBit, hpc] using h
  | call => exact hclaim.elim
  | act => exact hclaim.elim

/-- The worker sleeps in the driver before the producer comes, which wakes the driver. -/
theorem no_lost_wakeup_sleepsFirst :
    ∃ s : State 1 Unit Unit,
      (system 1 Unit Unit withDriver).ReachableUnder (WakeSeen withDriver) s ∧
      (∀ a, s.call a = .idle) ∧ s.injection = [()] ∧ s.idleMask = ∅ ∧ ∃ w, ¬ s.Blocked w := by
  let s := ((system 1 Unit Unit withDriver).runUnder claimsWithBit initial
    (goIdle ++ sleepInDriver ++ [Action.call (.foreign ()) (.inject [()])] ++
      produce 9)).get (by decide)
  have hs : (system 1 Unit Unit withDriver).ReachableUnder (WakeSeen withDriver) s :=
    (System.reachableUnder_of_run rfl (Option.some_get _).symm).mono
      fun _ _ h ↦ wakeSeen_of_claimsWithBit h
  have hidle : ∀ a, s.call a = .idle := by
    rintro (⟨⟩ | w)
    · rfl
    · rfl
  have hinjection : s.injection = [()] := by decide
  exact ⟨s, hs, hidle, hinjection, by decide,
    (no_lost_wakeup withDriver hs hidle).1 (by simp [hinjection])⟩

/-- The producer finds the worker's bit, clears it and looks at the timekeeper word before the
worker claims the role. The worker then sleeps in the driver, and the producer leaves a token. -/
theorem injected_task_stranded :
    ¬ ∀ s : State 1 Unit Unit, (system 1 Unit Unit withDriver).Reachable s → NoLostWakeup s := by
  intro hclaim
  let s := ((system 1 Unit Unit withDriver).run initial
    (goIdle ++ [Action.call (.foreign ()) (.inject [()])] ++ produce 7 ++ sleepInDriver ++
      produce 1)).get (by decide)
  have hs : (system 1 Unit Unit withDriver).Reachable s :=
    System.reachable_of_run rfl (Option.some_get _).symm
  have hidle : ∀ a, s.call a = .idle := by
    rintro (⟨⟩ | w)
    · rfl
    · rfl
  obtain ⟨w, hw⟩ := (hclaim s hs hidle).1 (by decide)
  obtain rfl : w = 0 := Subsingleton.elim w 0
  exact hw (by decide)

/-! ### The end of the scheduler -/

/-- The call is `stop`. -/
def CallPc.inStop : CallPc n τ → Bool
  | .stopSet => true
  | .stopWake => true
  | .stopWoken => true
  | .poke _ _ _ reason => decide (reason = .stop)
  | _ => false

/-- The call is `releaseTask`. -/
def CallPc.inRelease : CallPc n τ → Bool
  | .releaseCount => true
  | .releaseLoad => true
  | .releaseSwap => true
  | .releaseLive => true
  | .poke _ _ _ reason => decide (reason = .release)
  | _ => false

/-- Once `stop` has returned, no task lives and no `releaseTask` is in progress, no worker is
blocked without a timeout. -/
def NoneStrandedAtStop (s : State n κ τ) : Prop :=
  s.stopping = true → (∀ a, (s.call a).inStop = false) → s.liveTasks = 0 →
    (∀ a, (s.call a).inRelease = false) → ∀ w, ¬ s.BlockedUntimed w

omit [DecidableEq τ] in
theorem CallPc.owes_of_not_inStop {pc : CallPc n τ} (h : pc.inStop = false) :
    pc.owesToken true w = false ∧ pc.owesWake true w = false := by
  cases pc with
  | poke stage target rest reason =>
    cases reason <;> cases stage <;> simp_all [inStop, owesToken, owesWake, Reason.counts]
  | _ => simp_all [inStop, owesToken, owesWake]

/-- No worker is stranded in a run in which every worker that claims the timekeeper role before a
sleep in the driver without a timeout does so before the scheduler stops, or finds a wake of the
driver there or on its way. -/
theorem no_worker_stranded_at_stop (c : Config) {s : State n κ τ}
    (hs : (system n κ τ c).ReachableUnder (StopSeen c) s) : NoneStrandedAtStop s := by
  have hinv : Role s ∧ DriverExists c s ∧ Stopped c s := by
    refine System.ReachableUnder.invariant
      (P := fun s ↦ Role s ∧ DriverExists c s ∧ Stopped c s) ?_ ?_ hs
    · rintro _ rfl
      exact ⟨role_initial, driverExists_initial, stopped_initial⟩
    · rintro s action t ⟨hrole, hexists, hstopped⟩ hseen h
      exact ⟨role_step hrole (step_of_eq h), driverExists_step hexists (step_of_eq h),
        stopped_step hrole hexists hstopped hseen h⟩
  intro hstop hreturned _ _ w ⟨hblocked, huntimed⟩
  refine not_blocked_of_woken (hinv.2.2.woken hstop w huntimed) ?_ ?_ hblocked
  · exact fun a ↦ (CallPc.owes_of_not_inStop (hreturned a)).1
  · exact fun a ↦ (CallPc.owes_of_not_inStop (hreturned a)).2

/-- The claims of the role are made before the scheduler stops. -/
def claimsBeforeStop (s : State n κ τ) : Action n κ τ → Bool
  | .work w _ =>
    match s.pc w with
    | .sleepClaim _ => !s.stopping
    | _ => true
  | _ => true

omit [DecidableEq κ] [DecidableEq τ] in
theorem stopSeen_of_claimsBeforeStop (h : claimsBeforeStop s action = true) :
    StopSeen c s action := by
  intro w hclaim hstop
  cases action with
  | work v flag =>
    obtain ⟨rfl, -, -, stopping, hpc⟩ := hclaim
    simp [claimsBeforeStop, hpc, hstop] at h
  | call => exact hclaim.elim
  | act => exact hclaim.elim

/-- The worker sleeps in the driver before the scheduler is stopped. -/
theorem no_worker_stranded_at_stop_sleepsFirst :
    ∃ s : State 1 Unit Unit,
      (system 1 Unit Unit withDriver).ReachableUnder (StopSeen withDriver) s ∧
      s.stopping = true ∧ (∀ a, s.call a = .idle) ∧ s.liveTasks = 0 ∧ ¬ s.BlockedUntimed 0 := by
  let s := ((system 1 Unit Unit withDriver).runUnder claimsBeforeStop initial
    (goIdle ++ sleepInDriver ++ [Action.call (.foreign ()) .stop] ++ produce 6)).get (by decide)
  have hs : (system 1 Unit Unit withDriver).ReachableUnder (StopSeen withDriver) s :=
    (System.reachableUnder_of_run rfl (Option.some_get _).symm).mono
      fun _ _ h ↦ stopSeen_of_claimsBeforeStop h
  have hidle : ∀ a, s.call a = .idle := by
    rintro (⟨⟩ | w)
    · rfl
    · rfl
  have hstop : s.stopping = true := by decide
  have hlive : s.liveTasks = 0 := by decide
  exact ⟨s, hs, hstop, hidle, hlive, no_worker_stranded_at_stop withDriver hs hstop
    (fun a ↦ by rw [hidle a]; rfl) hlive (fun a ↦ by rw [hidle a]; rfl) 0⟩

/-- `stop` looks at the timekeeper word before the worker claims the role, and after the worker
found that the scheduler is not stopping. -/
theorem worker_stranded_at_stop :
    ¬ ∀ s : State 1 Unit Unit, (system 1 Unit Unit withDriver).Reachable s →
      NoneStrandedAtStop s := by
  intro hclaim
  let s := ((system 1 Unit Unit withDriver).run initial
    (goIdle ++ [Action.call (.foreign ()) .stop] ++ produce 4 ++ sleepInDriver ++ produce 1)).get
    (by decide)
  have hs : (system 1 Unit Unit withDriver).Reachable s :=
    System.reachable_of_run rfl (Option.some_get _).symm
  have hidle : ∀ a, s.call a = .idle := by
    rintro (⟨⟩ | w)
    · rfl
    · rfl
  exact hclaim s hs (by decide) (fun a ↦ by rw [hidle a]; rfl) (by decide)
    (fun a ↦ by rw [hidle a]; rfl) 0 ⟨by decide, by decide⟩

end Stackfull.Sched.Idle
