import Stackfull.Sched.KeeperInvariant

/-!
# Pending timers have a timekeeper, or somebody who will get one

While a timer is pending, a worker is idle and nobody has the role, somebody still sees to it that
the role is taken: a worker in its dispatcher, which sleeps with the role or passes
`ensureTimekeeper` before it runs a task; a task about to park with nothing else to run on its
worker; an agent on its way to wake an idle worker; or an idle worker with a wake pending
(`Guarded`). Three branches of the code end this without a successor, and `timersCheck` excludes
them.
-/

set_option autoImplicit false
set_option relaxedAutoImplicit false
set_option linter.dupNamespace false

namespace Stackfull.Sched.Keeper

open Stackfull.Lib
open Stackfull.Sched.Tasks (Agent)

universe u

variable {n : ℕ} {κ : Type u}

/-! ### What the scheduler promises -/

/-- The worker is blocked, on its `Parker` or with the role. -/
def WorkerPc.sleeps : WorkerPc → Bool
  | .parked | .asleep _ => true
  | _ => false

/-- The worker runs a task that is in no call. -/
def State.inBody (s : State n κ) (w : Fin n) : Prop :=
  s.pc w = .running ∧ s.call (.worker w) = .idle

/-- A blocked worker has a wake pending: its token, or the driver's wake if it has the role. -/
def State.wakePending (c : Config) (s : State n κ) (w : Fin n) : Prop :=
  (s.pc w).sleeps = true ∧ (s.token w = true ∨
    (c.hasDriver = true ∧ s.driverWake = true ∧ s.timekeeper = some w))

/-- Nobody sees to a pending timer: a worker is parked with its idle bit set and no sleeper has a
wake pending, there is no timekeeper, every worker that is awake is inside a task, and no call is in
progress. -/
structure Uncovered (c : Config) (s : State n κ) : Prop where
  timer : 0 < s.timers
  idle : ∃ w, s.pc w = .parked ∧ w ∈ s.idleMask
  keeper : s.timekeeper = none
  workers : ∀ w, (s.pc w).sleeps = true ∨ s.inBody w
  callers : ∀ k, s.call (.foreign k) = .idle
  wakes : ∀ w, ¬ s.wakePending c w

/-- A timer is pending, a worker is idle, and nobody has the role. -/
def State.exposed (s : State n κ) : Bool :=
  decide (s.timekeeper = none) && decide (0 < s.timers) && decide s.idleMask.Nonempty

/-- In a state where a timekeeper is needed: `ensureTimekeeper` is not held back by its rate limit,
a running task that adds a callback timer has other work on its worker, and a task that relies on
reaching the dispatcher when it parks finds no work there. -/
def timersCheck (c : Config) (s : State n κ) : Action n κ → Bool
  | .act a _ =>
    match s.call a with
    | .ensureLimit => !(s.exposed && s.limited c)
    | .ensureSwap last _ => !(s.exposed && decide (s.lastKeeperWake ≠ last))
    | .addLocal =>
      match a with
      | .worker w => !(s.exposed && decide (s.pc w = .running) && !s.hasLocalWork w)
      | .foreign _ => true
    | _ => true
  | .work w _ => !(s.exposed && decide (s.pc w = .sleepTimer true) && s.hasLocalWork w)
  | _ => true

/-! ### Who sees to it -/

variable [DecidableEq κ] {c : Config} {s s' : State n κ} {w : Fin n}

/-- The worker is in its dispatcher, or will be when its task parks. -/
def WorkerPc.guards : WorkerPc → Bool
  | .running | .sleepTimer false | .parked => false
  | _ => true

/-- The call is on its way to wake an idle worker. -/
def CallPc.brings (pc : Fin n → WorkerPc) : CallPc n → Prop
  | .inject _ | .notifySearching | .notifyMask | .notifyKeeper _ | .notifySwap _ _ | .ensureKeeper
  | .ensureIdle | .ensureTimers | .ensureLimit | .ensureSwap _ _ | .addLoad _ | .addLocal => True
  | .pokeLoad target | .pokeDriver target | .pokeToken target => pc target = .parked
  | _ => False

/-- Somebody sees to it that the role is taken. -/
def Guarded (s : State n κ) : Prop :=
  (∃ x, (s.pc x).guards = true) ∨ (∃ a, (s.call a).brings s.pc) ∨
    ∃ x, s.token x = true ∧ s.pc x = .parked

/-- The words are right, calls pick idle workers and are not made by parked ones, and an exposed
timer is guarded. -/
structure Timers (s : State n κ) : Prop where
  base : Base s
  picked : ∀ a mask index, s.call a = .notifySwap mask index → index ∈ mask
  parked : ∀ x, s.pc x = .parked → s.call (.worker x) = .idle
  guarded : s.exposed = true → Guarded s

attribute [local grind] WorkerPc.guards CallPc.brings

omit [DecidableEq κ] in
/-- A searcher is in its dispatcher. -/
theorem WorkerPc.guards_of_searches {p : WorkerPc} (h : p.searches = true) : p.guards = true := by
  cases p <;> first | rfl | (simp [WorkerPc.searches] at h)

omit [DecidableEq κ] in
/-- An idle worker is in its dispatcher unless it is parked. -/
theorem WorkerPc.guards_of_idles {p : WorkerPc} (h : p.idles = true) (hne : p ≠ .parked) :
    p.guards = true := by
  cases p <;> first | rfl | exact absurd rfl hne | (simp [WorkerPc.idles] at h)

omit [DecidableEq κ] in
/-- Who sees to it goes on doing so. -/
theorem Guarded.transfer (h : Guarded s)
    (hpc : ∀ x, (s.pc x).guards = true ∨ s.pc x = .parked → s'.pc x = s.pc x)
    (hcall : ∀ a, (s.call a).brings s.pc → s'.call a = s.call a ∨ Guarded s')
    (htoken : ∀ x, s.pc x = .parked → s.token x = true → s'.token x = true) : Guarded s' := by
  rcases h with ⟨x, hx⟩ | ⟨a, ha⟩ | ⟨x, htok, hx⟩
  · refine Or.inl ⟨x, ?_⟩
    rw [hpc x (Or.inl hx)]
    exact hx
  · rcases hcall a ha with hsame | hdone
    · refine Or.inr (Or.inl ⟨a, ?_⟩)
      rw [hsame]
      have hparked (target : Fin n) (hp : s.pc target = .parked) : s'.pc target = .parked := by
        rw [hpc target (Or.inr hp)]
        exact hp
      cases hcase : s.call a <;> rw [hcase] at ha <;> first | exact trivial | exact ha.elim |
        exact hparked _ ha
    · exact hdone
  · refine Or.inr (Or.inr ⟨x, htoken x hx htok, ?_⟩)
    rw [hpc x (Or.inr hx)]
    exact hx

/-- A worker's step leaves it in its dispatcher, unless it starts a task, finds a timekeeper before
its sleep, or runs a task that parks. -/
theorem guards_work {flag : Bool} (hstep : s.work c w flag = some s') :
    (s'.pc w).guards = true ∨ s.pc w = .starting ∨ s.pc w = .sleepClaim ∨
      ∃ relies, s.pc w = .sleepTimer relies := by
  unfold State.work at hstep
  cases hpc : s.pc w with
  | starting => exact Or.inr (Or.inl rfl)
  | sleepClaim => exact Or.inr (Or.inr (Or.inl rfl))
  | sleepTimer relies => exact Or.inr (Or.inr (Or.inr ⟨relies, rfl⟩))
  | running | scan => simp only [hpc, reduceCtorEq] at hstep
  | searchPop b | searchEnd b | spinEnd b =>
    left
    cases b <;> simp only [hpc, Option.some.injEq] at hstep <;> subst hstep <;>
      simp only [pc_popInjection, pc_leaveSearch] <;> grind -linarith
  | asleep t =>
    left
    simp only [hpc, State.wakeUp] at hstep
    split_ifs at hstep <;> obtain rfl := Option.some.inj hstep <;> rw [pc_goto] <;> rfl
  | parked =>
    left
    simp only [hpc] at hstep
    split_ifs at hstep
    obtain rfl := Option.some.inj hstep
    rw [pc_goto]
    rfl
  | maintainClaim | leftovers | spinLook | searchSwap current | spinSwap current =>
    left
    simp only [hpc, Option.some.injEq] at hstep
    subst hstep
    split_ifs <;> simp only [State.requestRampUp, pc_setCall, pc_goto, pc_enterSearch,
      pc_searchRead, pc_spinRead, pc_takeLocal, pc_popInjection] <;> grind -linarith
  | _ =>
    left
    simp only [hpc, Option.some.injEq] at hstep
    subst hstep
    simp only [pc_goto, pc_takeLocal, pc_popInjection, pc_searchRead, pc_spinRead,
      pc_releaseTimekeeper, pc_placeMaintained, pc_placeKeeping]
    grind -linarith

/-! ### One step -/

omit [DecidableEq κ] in
/-- A timekeeper is needed. -/
theorem exposed_iff :
    s.exposed = true ↔ s.timekeeper = none ∧ 0 < s.timers ∧ s.idleMask.Nonempty := by
  simp [State.exposed, and_assoc]

omit [DecidableEq κ] in
/-- `takeLocal` is about no timer, role or idle bit. -/
theorem exposed_takeLocal {found missed : WorkerPc} :
    (s.takeLocal w found missed).exposed = s.exposed := by
  unfold State.takeLocal
  split_ifs <;> rfl

omit [DecidableEq κ] in
/-- An agent in a call is not a parked worker. -/
theorem Timers.not_parked (ht : Timers s) {a : Agent n κ} (hcall : s.call a ≠ .idle) {x : Fin n}
    (ha : a = .worker x) : s.pc x ≠ .parked := by
  intro hp
  subst ha
  exact hcall (ht.parked x hp)

/-- An agent's call goes on. -/
theorem Timers.call (ht : Timers s) (hb : Base s') {a : Agent n κ} {q : CallPc n}
    (hpc : s'.pc = s.pc) (hcall : s'.call = Function.update s.call a q)
    (htoken : ∀ x, s.token x = true → s'.token x = true)
    (hpicked : ∀ mask index, q = .notifySwap mask index → index ∈ mask)
    (hfree : ∀ x, a = .worker x → s.pc x ≠ .parked)
    (hgo : s'.exposed = true → q.brings s.pc ∨ (s.exposed = true ∧ ¬ (s.call a).brings s.pc) ∨
      Guarded s') : Timers s' := by
  refine ⟨hb, ?_, ?_, ?_⟩
  · intro b mask index hb
    rw [hcall] at hb
    rcases eq_or_ne b a with rfl | hne
    · rw [Function.update_self] at hb
      exact hpicked mask index hb
    · rw [Function.update_of_ne hne] at hb
      exact ht.picked b mask index hb
  · intro x hx
    rw [hpc] at hx
    have hne : Agent.worker x ≠ a := fun h ↦ hfree x h.symm hx
    rw [hcall, Function.update_of_ne hne]
    exact ht.parked x hx
  · intro hexp
    rcases hgo hexp with hbrings | ⟨hold, hnot⟩ | hdone
    · refine Or.inr (Or.inl ⟨a, ?_⟩)
      rw [hcall, Function.update_self, hpc]
      exact hbrings
    · refine (ht.guarded hold).transfer (fun x _ ↦ congrFun hpc x) ?_ fun x _ ↦ htoken x
      intro b hbring
      have hne : b ≠ a := fun h ↦ hnot (h ▸ hbring)
      left
      rw [hcall, Function.update_of_ne hne]
    · exact hdone

omit [DecidableEq κ] in
/-- A worker goes on. -/
theorem Timers.loop (ht : Timers s) (hb : Base s') (haside : Aside s s' w)
    (hparked : s'.pc w = .parked → s'.call (.worker w) = .idle)
    (hgo : s'.exposed = true → (s'.pc w).guards = true ∨ (s'.call (.worker w)).brings s'.pc ∨
      (s.exposed = true ∧ s.call (.worker w) = .idle ∧ (s.pc w).guards = false ∧
        s.pc w ≠ .parked)) : Timers s' := by
  refine ⟨hb, ?_, ?_, ?_⟩
  · intro a mask index ha
    rcases eq_or_ne a (.worker w) with rfl | hne
    · rcases haside.own with hsame | hopens
      · rw [hsame] at ha
        exact ht.picked _ mask index ha
      · rw [ha] at hopens
        exact absurd hopens (by simp [CallPc.opens])
    · rw [haside.call a hne] at ha
      exact ht.picked a mask index ha
  · intro x hx
    rcases eq_or_ne x w with rfl | hne
    · exact hparked hx
    · rw [haside.pc x hne] at hx
      rw [haside.call _ (by simpa using hne)]
      exact ht.parked x hx
  · intro hexp
    rcases hgo hexp with hguard | hbrings | ⟨hold, hidle, hnot, hnotParked⟩
    · exact Or.inl ⟨w, hguard⟩
    · exact Or.inr (Or.inl ⟨_, hbrings⟩)
    · have hother (x : Fin n) (hx : (s.pc x).guards = true ∨ s.pc x = .parked) : x ≠ w := by
        rintro rfl
        rcases hx with hx | hx
        · exact absurd hx (by rw [hnot]; exact Bool.false_ne_true)
        · exact hnotParked hx
      refine (ht.guarded hold).transfer (fun x hx ↦ haside.pc x (hother x hx)) ?_ ?_
      · intro a ha
        have hne : a ≠ .worker w := by
          rintro rfl
          rw [hidle] at ha
          exact ha
        exact Or.inl (haside.call a hne)
      · intro x hx htok
        rw [haside.token x (hother x (Or.inr hx))]
        exact htok

/-- A worker's loop goes on. -/
theorem Timers.work (ht : Timers s) {flag : Bool} (hb : Base s')
    (hidle : s.call (.worker w) = .idle) (hcheck : timersCheck c s (.work w flag) = true)
    (hstep : s.work c w flag = some s') : Timers s' := by
  rcases guards_work hstep with hguard | hpc | hpc | ⟨relies, hpc⟩
  · refine ht.loop hb (work_aside hstep) ?_ fun _ ↦ Or.inl hguard
    intro hparked
    rw [hparked] at hguard
    exact absurd hguard (by simp [WorkerPc.guards])
  · refine ht.loop hb (work_aside hstep) ?_ ?_
    all_goals
      simp only [State.work, hpc, Option.some.injEq] at hstep
      subst hstep
      split_ifs with hkeeper
    · simp
    · simp
    · intro _
      right; left
      simp only [State.setCall, Function.update_self]
      trivial
    · intro hexp
      exact absurd (exposed_iff.mp hexp).1 hkeeper
  · refine ht.loop hb (work_aside hstep) ?_ ?_
    all_goals
      simp only [State.work, hpc, Option.some.injEq] at hstep
      subst hstep
      split_ifs with hkeeper
    · exact fun _ ↦ hidle
    · exact fun _ ↦ hidle
    · intro _
      left
      rw [pc_goto]
      rfl
    · intro hexp
      exact absurd (exposed_iff.mp hexp).1 hkeeper
  · have hs' : s' = s.takeLocal w .running .top := by
      simp only [State.work, hpc, Option.some.injEq] at hstep
      exact hstep.symm
    have hpc' : s'.pc w = if s.hasLocalWork w then .running else .top := by
      rw [hs', pc_takeLocal]
    have hexp : s'.exposed = s.exposed := by
      rw [hs', exposed_takeLocal]
    refine ht.loop hb (work_aside hstep) ?_ ?_
    · intro hparked
      rw [hpc'] at hparked
      split_ifs at hparked
    · intro hexp'
      rw [hexp] at hexp'
      cases hlocal : s.hasLocalWork w with
      | false =>
        left
        rw [hpc', hlocal]
        rfl
      | true =>
        cases relies with
        | false =>
          right; right
          rw [hpc]
          exact ⟨hexp', hidle, rfl, by simp⟩
        | true => simp [timersCheck, hexp', hpc, hlocal] at hcheck

/-- What a running task does. -/
theorem Timers.task {op : TaskOp} (ht : Timers s) (hb : Base (s.task w op)) (hidle : s.call (.worker w) = .idle)
    (hpc : s.pc w = .running) : Timers (s.task w op) := by
  have hrunning : (s.pc w).guards = false ∧ s.pc w ≠ .parked := by
    rw [hpc]
    exact ⟨rfl, by simp⟩
  have hself {t : State n κ} (h : t.pc = s.pc) (hcall : t.call = s.call)
      (htoken : t.token = s.token) : Aside s t w :=
    Aside.of_eq h hcall fun _ _ ↦ congrFun htoken _
  have hnext {t : State n κ} (h : t.pc = s.pc) (hcall : t.call = s.call)
      (htoken : t.token = s.token) (hexp : t.exposed = s.exposed)
      (htb : Base (t.takeLocal w .running .top)) : Timers (t.takeLocal w .running .top) := by
    refine ht.loop htb (hself h hcall htoken).takeLocal ?_ ?_
    · rw [pc_takeLocal]
      split_ifs <;> simp
    · intro hnew
      rw [exposed_takeLocal, hexp] at hnew
      exact Or.inr (Or.inr ⟨hnew, hidle, hrunning⟩)
  cases op with
  | leave => exact hnext rfl rfl rfl rfl hb
  | yield => exact hnext rfl rfl rfl rfl hb
  | pull =>
    simp only [State.task] at hb ⊢
    split_ifs at hb ⊢
    · refine ht.loop hb (hself rfl rfl rfl) (fun _ ↦ hidle) fun hexp ↦ ?_
      exact Or.inr (Or.inr ⟨hexp, hidle, hrunning⟩)
    · exact ht
  | schedule =>
    simp only [State.task] at hb ⊢
    split_ifs at hb ⊢
    · refine ht.loop hb ((hself rfl rfl rfl).setCall rfl) ?_ fun _ ↦ ?_
      · exact fun hparked ↦ absurd hparked hrunning.2
      · right; left
        simp only [State.setCall, Function.update_self]
        trivial
    · refine ht.loop hb (hself rfl rfl rfl) (fun _ ↦ hidle) fun hexp ↦ ?_
      exact Or.inr (Or.inr ⟨hexp, hidle, hrunning⟩)
  | sleep deadline =>
    have haside : Aside s ({ s with timers := s.timers + 1 }.goto w (.sleepTimer false)) w := by
      refine Aside.goto ?_
      exact hself rfl rfl rfl
    refine ht.loop hb (haside.setCall rfl) ?_ fun _ ↦ ?_
    · intro hparked
      simp only [State.task, pc_setCall, pc_goto, reduceCtorEq] at hparked
    · right; left
      simp only [State.task, State.setCall, Function.update_self]
      trivial

omit [DecidableEq κ] in
/-- `notifyIdleWorker` picks from its mask. -/
theorem candidates_subset {mask : Finset (Fin n)} {keeper : Option (Fin n)} :
    State.candidates mask keeper ⊆ mask := by
  unfold State.candidates
  split
  · split_ifs
    · exact Finset.erase_subset _ _
    · exact Finset.Subset.refl _
  · exact Finset.Subset.refl _

/-- A worker that adds a timer while nobody has the role and it has nothing else to do leaves it to
its own way to sleep. -/
theorem Timers.addLocal (ht : Timers s) {flag : Bool} (hb : Base (s.addLocal (.worker w)))
    (hcall : s.call (.worker w) = .addLocal)
    (hcheck : timersCheck c s (.act (.worker w) flag) = true) :
    Timers (s.addLocal (.worker w)) := by
  have hfree : s.pc w ≠ .parked := ht.not_parked (by simp [hcall]) rfl
  have hleave {p : WorkerPc} (hbp : Base ((s.setCall (.worker w) .idle).goto w p))
      (hp : p ≠ .parked) (hguard : s.exposed = true → p.guards = true) :
      Timers ((s.setCall (.worker w) .idle).goto w p) := by
    refine ⟨hbp, ?_, ?_, ?_⟩
    · intro a mask index ha
      rcases eq_or_ne a (.worker w) with rfl | hne
      · simp [State.goto, State.setCall] at ha
      · simp only [State.goto, State.setCall, Function.update_of_ne hne] at ha
        exact ht.picked a mask index ha
    · intro x hx
      rcases eq_or_ne x w with rfl | hne
      · simp only [State.goto, State.setCall, Function.update_self]
      · simp only [State.goto, State.setCall, Function.update_of_ne hne] at hx
        have hcall' : Agent.worker (κ := κ) x ≠ .worker w := by simpa using hne
        simp only [State.goto, State.setCall, Function.update_of_ne hcall']
        exact ht.parked x hx
    · intro hexp
      refine Or.inl ⟨w, ?_⟩
      rw [pc_goto]
      exact hguard hexp
  simp only [State.addLocal] at hb ⊢
  split_ifs at hb ⊢ with hlocal hsleep
  · exact ht.call hb rfl rfl (fun _ h ↦ h) (by simp) (fun x hx ↦ by cases hx; exact hfree)
      fun _ ↦ Or.inl trivial
  · exact hleave hb (by simp) fun _ ↦ rfl
  · refine hleave hb hfree fun hexp ↦ ?_
    have hrunning : s.pc w ≠ .running := by
      simpa [timersCheck, hcall, hexp, hlocal] using hcheck
    cases hpc : s.pc w with
    | running => exact absurd hpc hrunning
    | parked => exact absurd hpc hfree
    | sleepTimer relies =>
      cases relies with
      | false => exact absurd hpc hsleep
      | true => rfl
    | _ => rfl

/-- A call that was to bring a wake goes on. -/
theorem Timers.act (ht : Timers s) {a : Agent n κ} {flag : Bool} (hb : Base s')
    (hcheck : timersCheck c s (.act a flag) = true) (hstep : s.act c a flag = some s') :
    Timers s' := by
  have hgo {t : State n κ} {q : CallPc n} (hbt : Base (t.setCall a q)) (hcall : s.call a ≠ .idle)
      (hpc : t.pc = s.pc) (htcall : t.call = s.call)
      (htoken : ∀ x, s.token x = true → t.token x = true)
      (hpicked : ∀ mask index, q = .notifySwap mask index → index ∈ mask)
      (hexp : t.exposed = true → q.brings s.pc ∨
        (s.exposed = true ∧ ¬ (s.call a).brings s.pc) ∨ Guarded (t.setCall a q)) :
      Timers (t.setCall a q) :=
    ht.call hbt hpc (by rw [State.setCall, htcall]) htoken hpicked (fun x ↦ ht.not_parked hcall) hexp
  have hread (hbt : Base (s.maskRead a)) (hcall : s.call a ≠ .idle) : Timers (s.maskRead a) := by
    unfold State.maskRead at hbt ⊢
    refine hgo hbt hcall rfl rfl (fun _ h ↦ h) (by split_ifs <;> simp) fun hexp ↦ Or.inl ?_
    rw [if_neg (exposed_iff.mp hexp).2.2.ne_empty]
    trivial
  unfold State.act at hstep
  cases hcall : s.call a with
  | idle => simp only [hcall, reduceCtorEq] at hstep
  | inject count =>
    cases count <;>
    · simp only [hcall, Option.some.injEq] at hstep
      subst hstep
      exact hgo hb (by simp [hcall]) rfl rfl (fun _ h ↦ h) (by simp) fun _ ↦ Or.inl trivial
  | notifySearching =>
    simp only [hcall, Option.some.injEq] at hstep
    subst hstep
    refine hgo hb (by simp [hcall]) rfl rfl (fun _ h ↦ h) (by split_ifs <;> simp) fun _ ↦ ?_
    by_cases hsearching : 0 < s.searching
    · obtain ⟨x, hx⟩ := ht.base.exists_searches hsearching
      exact Or.inr (Or.inr (Or.inl ⟨x, WorkerPc.guards_of_searches hx⟩))
    · rw [if_neg hsearching]
      exact Or.inl trivial
  | notifyMask =>
    simp only [hcall, Option.some.injEq] at hstep
    subst hstep
    exact hread hb (by simp [hcall])
  | notifyKeeper mask =>
    simp only [hcall] at hstep
    split_ifs at hstep with hne
    obtain rfl := Option.some.inj hstep
    refine hgo hb (by simp [hcall]) rfl rfl (fun _ h ↦ h) ?_ fun _ ↦ Or.inl trivial
    rintro _ _ ⟨rfl, rfl⟩
    exact candidates_subset (Finset.min'_mem _ hne)
  | notifySwap mask index =>
    simp only [hcall, Option.some.injEq] at hstep
    subst hstep
    split_ifs at hb ⊢ with hswap
    · refine hgo hb (by simp [hcall]) rfl rfl (fun _ h ↦ h) (by simp) fun _ ↦ ?_
      have hidles := ht.base.idle index (hswap.1 ▸ ht.picked a mask index hcall)
      by_cases hparked : s.pc index = .parked
      · exact Or.inl hparked
      · exact Or.inr (Or.inr (Or.inl ⟨index, WorkerPc.guards_of_idles hidles hparked⟩))
    · exact hread hb (by simp [hcall])
  | pokeLoad target =>
    simp only [hcall, Option.some.injEq] at hstep
    subst hstep
    refine hgo hb (by simp [hcall]) rfl rfl (fun _ h ↦ h) (by split_ifs <;> simp) fun hexp ↦ ?_
    by_cases hparked : s.pc target = .parked
    · left
      split_ifs <;> exact hparked
    · rw [hcall]
      exact Or.inr (Or.inl ⟨hexp, hparked⟩)
  | pokeDriver target =>
    simp only [hcall, Option.some.injEq] at hstep
    subst hstep
    refine hgo hb (by simp [hcall]) rfl rfl (fun _ h ↦ h) (by simp) fun hexp ↦ ?_
    by_cases hparked : s.pc target = .parked
    · exact Or.inl hparked
    · rw [hcall]
      exact Or.inr (Or.inl ⟨hexp, hparked⟩)
  | pokeToken target =>
    simp only [hcall, Option.some.injEq] at hstep
    subst hstep
    have htoken (x : Fin n) (hx : s.token x = true) :
        Function.update s.token target true x = true := by
      grind -linarith
    refine hgo hb (by simp [hcall]) rfl rfl htoken (by simp) fun hexp ↦ ?_
    by_cases hparked : s.pc target = .parked
    · refine Or.inr (Or.inr (Or.inr (Or.inr ⟨target, ?_, hparked⟩)))
      exact Function.update_self target true s.token
    · rw [hcall]
      exact Or.inr (Or.inl ⟨hexp, hparked⟩)
  | ensureKeeper =>
    simp only [hcall, Option.some.injEq] at hstep
    subst hstep
    refine hgo hb (by simp [hcall]) rfl rfl (fun _ h ↦ h) (by split_ifs <;> simp) fun hexp ↦ ?_
    rw [if_pos (exposed_iff.mp hexp).1]
    exact Or.inl trivial
  | ensureIdle =>
    simp only [hcall, Option.some.injEq] at hstep
    subst hstep
    refine hgo hb (by simp [hcall]) rfl rfl (fun _ h ↦ h) (by split_ifs <;> simp) fun hexp ↦ ?_
    rw [if_neg (exposed_iff.mp hexp).2.2.ne_empty]
    exact Or.inl trivial
  | ensureTimers =>
    simp only [hcall, Option.some.injEq] at hstep
    subst hstep
    refine hgo hb (by simp [hcall]) rfl rfl (fun _ h ↦ h) (by split_ifs <;> simp) fun hexp ↦ ?_
    rw [if_neg (exposed_iff.mp hexp).2.1.ne']
    left
    split_ifs <;> trivial
  | ensureLimit =>
    simp only [hcall, Option.some.injEq] at hstep
    subst hstep
    refine hgo hb (by simp [hcall]) rfl rfl (fun _ h ↦ h) (by split_ifs <;> simp) fun hexp ↦ ?_
    simp only [timersCheck, hcall, hexp, Bool.true_and, Bool.not_eq_true'] at hcheck
    rw [hcheck]
    exact Or.inl trivial
  | ensureSwap last now =>
    simp only [hcall, Option.some.injEq] at hstep
    subst hstep
    have hwon (hexp : s.exposed = true) : s.lastKeeperWake = last := by
      simpa [timersCheck, hcall, hexp] using hcheck
    split_ifs at hb ⊢ with hlast
    · exact hgo hb (by simp [hcall]) rfl rfl (fun _ h ↦ h) (by simp) fun _ ↦ Or.inl trivial
    · exact hgo hb (by simp [hcall]) rfl rfl (fun _ h ↦ h) (by simp)
        fun hexp ↦ absurd (hwon hexp) hlast
  | addLoad deadline =>
    simp only [hcall, Option.some.injEq] at hstep
    subst hstep
    refine hgo hb (by simp [hcall]) rfl rfl (fun _ h ↦ h) (by split <;> simp) fun hexp ↦ ?_
    rw [(exposed_iff.mp hexp).1]
    exact Or.inl trivial
  | addLocal =>
    simp only [hcall, Option.some.injEq] at hstep
    subst hstep
    cases a with
    | foreign k =>
      exact hgo hb (by simp [hcall]) rfl rfl (fun _ h ↦ h) (by simp) fun _ ↦ Or.inl trivial
    | worker x => exact ht.addLocal hb hcall hcheck
  | rampSwap due current =>
    simp only [hcall, Option.some.injEq] at hstep
    subst hstep
    have hnot : ¬ (s.call a).brings s.pc := by
      rw [hcall]
      exact id
    unfold State.rampRead at hb ⊢
    split_ifs at hb ⊢ <;>
      exact hgo hb (by simp [hcall]) rfl rfl (fun _ h ↦ h) (by simp)
        fun hexp ↦ Or.inr (Or.inl ⟨hexp, hnot⟩)
  | notifyWorker target =>
    simp only [hcall, Option.some.injEq] at hstep
    subst hstep
    have hnot : ¬ (s.call a).brings s.pc := by
      rw [hcall]
      exact id
    split_ifs at hb ⊢
    · refine hgo hb (by simp [hcall]) rfl rfl (fun _ h ↦ h) (by simp) fun hexp ↦ ?_
      obtain ⟨hkeeper, htimer, hmask⟩ := exposed_iff.mp hexp
      refine Or.inr (Or.inl ⟨exposed_iff.mpr ⟨hkeeper, htimer, ?_⟩, hnot⟩)
      exact hmask.mono (Finset.erase_subset _ _)
    · exact hgo hb (by simp [hcall]) rfl rfl (fun _ h ↦ h) (by simp)
        fun hexp ↦ Or.inr (Or.inl ⟨hexp, hnot⟩)
  | _ =>
    simp only [hcall, Option.some.injEq] at hstep
    subst hstep
    have hnot : ¬ (s.call a).brings s.pc := by
      rw [hcall]
      exact id
    refine hgo hb (by simp [hcall]) rfl rfl (fun _ h ↦ h) ?_
      fun hexp ↦ Or.inr (Or.inl ⟨hexp, hnot⟩)
    first | split_ifs | split
    all_goals simp

/-- Every step keeps an exposed timer guarded. -/
theorem Timers.step (ht : Timers s) {a : Action n κ} (hcheck : timersCheck c s a = true)
    (hstep : step c s a = some s') : Timers s' := by
  have hb := ht.base.step hstep
  have hsame {t : State n κ} (hbt : Base t) (hpc : t.pc = s.pc) (hcall : t.call = s.call)
      (htoken : t.token = s.token) (hexp : t.exposed = true → s.exposed = true) : Timers t := by
    refine ⟨hbt, ?_, ?_, ?_⟩
    · rw [hcall]
      exact ht.picked
    · rw [hpc, hcall]
      exact ht.parked
    · intro h
      refine (ht.guarded (hexp h)).transfer (fun x _ ↦ congrFun hpc x) ?_ ?_
      · exact fun b _ ↦ Or.inl (congrFun hcall b)
      · intro x _ htok
        rw [htoken]
        exact htok
  have hgo {x : Fin n} {t : State n κ} {p : WorkerPc} (hbt : Base (t.goto x p))
      (hpc : t.pc = s.pc) (hcall : t.call = s.call) (htoken : t.token = s.token)
      (hp : p.guards = true) : Timers (t.goto x p) := by
    refine ht.loop hbt (Aside.of_eq hpc hcall fun _ _ ↦ congrFun htoken _).goto ?_ ?_
    · intro hparked
      rw [pc_goto] at hparked
      exact absurd (hparked ▸ hp) (by simp [WorkerPc.guards])
    · rw [pc_goto]
      exact fun _ ↦ Or.inl hp
  cases a with
  | tick elapsed =>
    obtain rfl := Option.some.inj hstep
    exact hsame hb rfl rfl rfl id
  | expire =>
    obtain rfl := Option.some.inj hstep
    refine hsame hb rfl rfl rfl fun hexp ↦ ?_
    obtain ⟨hkeeper, htimer, hmask⟩ := exposed_iff.mp hexp
    exact exposed_iff.mpr ⟨hkeeper, lt_of_lt_of_le htimer (Nat.sub_le _ _), hmask⟩
  | gather x =>
    simp only [Keeper.step.eq_def] at hstep
    split_ifs at hstep
    obtain rfl := Option.some.inj hstep
    exact hsame hb rfl rfl rfl id
  | steal x victim count =>
    simp only [Keeper.step.eq_def, State.steal] at hstep
    split_ifs at hstep
    split at hstep
    · obtain rfl := Option.some.inj hstep
      exact hgo hb rfl rfl rfl rfl
    · obtain rfl := Option.some.inj hstep
      exact hgo hb rfl rfl rfl rfl
    · cases hstep
  | scanned x earliest =>
    simp only [Keeper.step.eq_def] at hstep
    split_ifs at hstep
    obtain rfl := Option.some.inj hstep
    exact hgo hb rfl rfl rfl rfl
  | work x flag =>
    simp only [Keeper.step.eq_def] at hstep
    split_ifs at hstep with hidle
    exact ht.work hb hidle hcheck hstep
  | task x op =>
    simp only [Keeper.step.eq_def] at hstep
    split_ifs at hstep with hrun
    obtain rfl := Option.some.inj hstep
    exact ht.task hb hrun.1 hrun.2
  | call b call =>
    simp only [Keeper.step.eq_def] at hstep
    split_ifs at hstep with hfree
    obtain rfl := Option.some.inj hstep
    simp only [State.isFree, Bool.and_eq_true, decide_eq_true_eq] at hfree
    have hnot : ¬ (s.call b).brings s.pc := by
      rw [hfree.1]
      exact id
    have hawake (x : Fin n) (hx : b = .worker x) : s.pc x ≠ .parked := by
      rintro hparked
      subst hx
      have hmay : (s.pc x).mayCall = true := hfree.2
      rw [hparked] at hmay
      exact absurd hmay (by decide)
    cases call with
    | inject =>
      exact ht.call hb rfl rfl (fun _ h ↦ h) (by simp) hawake fun _ ↦ Or.inl trivial
    | pin target =>
      exact ht.call hb rfl rfl (fun _ h ↦ h) (by simp) hawake
        fun hexp ↦ Or.inr (Or.inl ⟨hexp, hnot⟩)
    | addCallbackTimer deadline =>
      exact ht.call hb rfl rfl (fun _ h ↦ h) (by simp) hawake fun _ ↦ Or.inl trivial
  | act b flag => exact ht.act hb hcheck hstep

/-! ### Every run -/

omit [DecidableEq κ] in
/-- A guarded timer is not left alone. -/
theorem Timers.not_uncovered (ht : Timers s) : ¬ Uncovered c s := by
  intro hu
  obtain ⟨idler, hidler, hbit⟩ := hu.idle
  have hguarded := ht.guarded (exposed_iff.mpr ⟨hu.keeper, hu.timer, idler, hbit⟩)
  have hcases (x : Fin n) : s.pc x = .parked ∨ s.inBody x := by
    rcases hu.workers x with hsleeps | hbody
    · cases hpc : s.pc x with
      | parked => exact Or.inl rfl
      | asleep wakeAt =>
        have hrole := (ht.base.role x).mpr (by rw [hpc]; rfl)
        rw [hu.keeper] at hrole
        exact absurd hrole (by simp)
      | _ => simp [hpc, WorkerPc.sleeps] at hsleeps
    · exact Or.inr hbody
  have hcalls (a : Agent n κ) : s.call a = .idle := by
    cases a with
    | foreign k => exact hu.callers k
    | worker x =>
      rcases hcases x with hparked | hbody
      · exact ht.parked x hparked
      · exact hbody.2
  rcases hguarded with ⟨x, hx⟩ | ⟨a, ha⟩ | ⟨x, htok, hx⟩
  · rcases hcases x with hparked | hbody
    · rw [hparked] at hx
      exact absurd hx (by simp [WorkerPc.guards])
    · rw [hbody.1] at hx
      exact absurd hx (by simp [WorkerPc.guards])
  · rw [hcalls a] at ha
    exact ha
  · refine hu.wakes x ⟨?_, Or.inl htok⟩
    rw [hx]
    rfl

/-- In every run in which `ensureTimekeeper` is not held back where a timekeeper is needed, and no
task keeps its worker from the dispatcher on which a timer just added relies, a pending timer is
never left alone. -/
theorem timers_stay_covered
    (hs : (system n κ c).ReachableUnder (fun s a ↦ timersCheck c s a = true) s) :
    ¬ Uncovered c s := by
  have ht : Timers s := by
    refine hs.invariant ?_ fun _ _ _ ht hcheck hstep ↦ ht.step hcheck hstep
    rintro _ rfl
    refine ⟨Base.initial, ?_, fun _ _ ↦ rfl, ?_⟩
    · intro a mask index h
      simp [initial] at h
    · intro hexp
      exact absurd (exposed_iff.mp hexp).2.1 (by simp [initial])
  exact ht.not_uncovered

/-- Two workers, no driver, and a delay of 50. -/
def pairConfig : Config := ⟨false, false, 50⟩

/-- A worker goes from the top of its loop to its sleep, if it finds nothing. -/
def untilSleep (w : Fin 2) : List (Action 2 Unit) :=
  List.replicate 13 (.work w false)

/-- The first worker runs a task that sleeps until 1 and waits for that deadline as the timekeeper;
the second parks. The first wakes up in time and runs the task again, which adds a callback timer;
there is no timekeeper. -/
def callbackAdded : List (Action 2 Unit) :=
  [Action.call (.foreign ()) .inject] ++ List.replicate 4 (Action.act (.foreign ()) false) ++
    List.replicate 8 (Action.work 0 false) ++ List.replicate 2 (Action.act (.worker 0) false) ++
    [Action.task 0 (.sleep 1)] ++ List.replicate 2 (Action.act (.worker 0) false) ++
    [Action.work 0 false] ++ untilSleep 0 ++
    [Action.work 0 false, .scanned 0 (1 : ℤ), .work 0 false, .work 0 false] ++ untilSleep 1 ++
    [Action.tick 1, .work 0 true, .work 0 false, .expire, .gather 0] ++
    List.replicate 5 (Action.work 0 false) ++ List.replicate 3 (Action.act (.worker 0) false) ++
    [Action.call (.worker 0) (.addCallbackTimer 5), .act (.worker 0) false]

theorem timers_stay_covered_callbackAdded :
    ∃ s, (system 2 Unit pairConfig).runUnder (timersCheck pairConfig) initial callbackAdded =
        some s ∧ (s.timers = 1 ∧ s.timekeeper = none ∧ s.pc 1 = .parked ∧ 1 ∈ s.idleMask) ∧
      ¬ Uncovered pairConfig s :=
  ⟨((system 2 Unit pairConfig).runUnder (timersCheck pairConfig) initial callbackAdded).get
      (by decide +kernel), (Option.some_get _).symm, by decide +kernel,
    timers_stay_covered (System.reachableUnder_of_run rfl (Option.some_get _).symm)⟩

/-- The task goes on after the call, which relied on its worker's way to sleep. -/
theorem timer_left_to_running_task :
    ∃ s, (system 2 Unit pairConfig).Reachable s ∧ Uncovered pairConfig s := by
  refine ⟨((system 2 Unit pairConfig).run initial
    (callbackAdded ++ [Action.act (.worker 0) false])).get (by decide +kernel),
    System.reachable_of_run rfl (Option.some_get _).symm, ?_⟩
  constructor
  · decide +kernel
  · exact ⟨1, by decide +kernel⟩
  · decide +kernel
  · unfold State.inBody
    decide +kernel
  · decide +kernel
  · unfold State.wakePending
    decide +kernel

end Stackfull.Sched.Keeper
