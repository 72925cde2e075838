import Stackfull.Sched.IdleStep
import Mathlib.Data.Finset.Card

/-!
# The invariants behind the wakeups

`Role` ties the timekeeper word to the worker that holds the role, and `Searchers` the count of
searchers to the workers that search.

`Woken` is the wakeup that a worker is owed once it was taken off the idle mask, or once the
scheduler stops: a token or a wake of the driver that is already there, or a poke on its way.
`woken_step` keeps it over every step but one, the claim of the timekeeper role before a sleep in
the driver: a poke that looked at the timekeeper word before the claim leaves a token, and that
sleep does not look at tokens.
-/

set_option autoImplicit false
set_option relaxedAutoImplicit false
set_option linter.dupNamespace false

namespace Stackfull.Sched.Idle

open Stackfull.Lib

universe u v

variable {n : ℕ} {κ : Type u} {τ : Type v} [DecidableEq κ] [DecidableEq τ]
variable {c : Config} {s t : State n κ τ} {action : Action n κ τ} {w : Fin n}

/-! ### Where a look at the worker's own queues leads -/

section Sites

omit [DecidableEq τ]

@[grind =]
theorem Site.keeps_missed (site : Site) :
    (site.missed : WorkerPc τ).keeps = false := by
  cases site <;> rfl

@[grind =]
theorem Site.keeps_found (site : Site) :
    (site.found : WorkerPc τ).keeps = false := by
  rcases site with _ | _ | (_ | _) | _ | _ <;> rfl

@[grind =]
theorem Site.isSearching_missed (site : Site) :
    (site.missed : WorkerPc τ).isSearching = site.isSpin := by
  cases site <;> rfl

@[grind =]
theorem Site.isSearching_found (site : Site) :
    (site.found : WorkerPc τ).isSearching = site.isSpin := by
  rcases site with _ | _ | (_ | _) | _ | _ <;> rfl

@[grind =]
theorem Site.committed_missed (site : Site) :
    (site.missed : WorkerPc τ).committed = false := by
  cases site <;> rfl

@[grind =]
theorem Site.committed_found (site : Site) :
    (site.found : WorkerPc τ).committed = false := by
  rcases site with _ | _ | (_ | _) | _ | _ <;> rfl

@[grind =]
theorem Site.lookedInside_missed (site : Site) :
    (site.missed : WorkerPc τ).lookedInside = site.isPark := by
  cases site <;> rfl

@[grind =]
theorem Site.lookedInside_found (site : Site) :
    (site.found : WorkerPc τ).lookedInside = false := by
  rcases site with _ | _ | (_ | _) | _ | _ <;> rfl

@[grind =]
theorem Site.marked_missed (site : Site) :
    (site.missed : WorkerPc τ).marked = site.isPark := by
  cases site <;> rfl

@[grind =]
theorem Site.marked_found (site : Site) :
    (site.found : WorkerPc τ).marked = false := by
  rcases site with _ | _ | (_ | _) | _ | _ <;> rfl

@[grind =]
theorem Site.driverBound_missed (site : Site) :
    (site.missed : WorkerPc τ).driverBound c = false := by
  cases site <;> rfl

@[grind =]
theorem Site.driverBound_found (site : Site) :
    (site.found : WorkerPc τ).driverBound c = false := by
  rcases site with _ | _ | (_ | _) | _ | _ <;> rfl

@[grind =]
theorem Site.untimed_missed (site : Site) :
    (site.missed : WorkerPc τ).untimed = false := by
  cases site <;> rfl

@[grind =]
theorem Site.untimed_found (site : Site) :
    (site.found : WorkerPc τ).untimed = false := by
  rcases site with _ | _ | (_ | _) | _ | _ <;> rfl

@[grind =]
theorem Site.popping_missed (site : Site) :
    (site.missed : WorkerPc τ).popping = none := by
  cases site <;> rfl

@[grind =]
theorem Site.popping_found (site : Site) :
    (site.found : WorkerPc τ).popping = none := by
  rcases site with _ | _ | (_ | _) | _ | _ <;> rfl

end Sites

/-! ### The timekeeper role -/

/-- The worker at a point that holds the role is the one in the timekeeper word. -/
def Role (s : State n κ τ) : Prop :=
  ∀ w, (s.pc w).keeps = true ↔ s.timekeeper = some w

omit [DecidableEq κ] [DecidableEq τ] in
theorem role_initial : Role (initial : State n κ τ) := by
  intro w
  simp [initial, WorkerPc.keeps]

theorem role_step (hs : Role s) (h : Step c s action t) : Role t := by
  intro v
  have hv := hs v
  cases h with
  | quiet => grind -linarith
  | _ => grind -linarith [WorkerPc.keeps]

omit [DecidableEq κ] [DecidableEq τ] in
theorem Role.eq_of_keeps (hs : Role s) {v : Fin n} (hw : (s.pc w).keeps = true)
    (hv : (s.pc v).keeps = true) : v = w := by
  have h := (hs v).mp hv
  rw [(hs w).mp hw] at h
  exact (Option.some.inj h).symm

/-! ### The searchers -/

/-- The workers that count as searchers. -/
def State.searchers (s : State n κ τ) : Finset (Fin n) :=
  Finset.univ.filter fun w ↦ (s.pc w).isSearching = true

/-- The count of searchers is right. -/
def Searchers (s : State n κ τ) : Prop :=
  s.searching = s.searchers.card

omit [DecidableEq κ] [DecidableEq τ] in
theorem searchers_initial : Searchers (initial : State n κ τ) := by
  simp [Searchers, State.searchers, initial, WorkerPc.isSearching]

omit [DecidableEq κ] [DecidableEq τ] in
/-- A step that leaves everybody's count alone. -/
theorem Searchers.keep (hs : Searchers s) (hcount : t.searching = s.searching)
    (hpc : ∀ w, (t.pc w).isSearching = (s.pc w).isSearching) : Searchers t := by
  unfold Searchers State.searchers at *
  simp only [hcount, hs, hpc]

theorem searchers_step (hs : Searchers s) (h : Step c s action t) : Searchers t := by
  cases h with
  | @enterSearch w _ pc' _ hbefore hafter =>
    have hset : (s.enterSearch w pc').searchers = insert w s.searchers := by
      ext v
      by_cases hv : v = w <;> simp [State.searchers, hv, hafter]
    have hnot : w ∉ s.searchers := by simp [State.searchers, hbefore]
    unfold Searchers at *
    rw [hset, Finset.card_insert_of_notMem hnot, State.enterSearch_searching, hs]
  | @leaveSearch w _ pc' _ hbefore hafter =>
    have hset : (s.leaveSearch w pc').searchers = s.searchers.erase w := by
      ext v
      by_cases hv : v = w <;> simp [State.searchers, hv, hafter]
    have hmem : w ∈ s.searchers := by simp [State.searchers, hbefore]
    unfold Searchers at *
    rw [hset, Finset.card_erase_of_mem hmem, State.leaveSearch_searching, hs]
  | quiet => exact hs.keep (by grind -linarith) (by grind -linarith)
  | _ => exact hs.keep (by grind -linarith) (by grind -linarith [WorkerPc.isSearching, Site.isSpin])

omit [DecidableEq κ] [DecidableEq τ] in
theorem Searchers.exists_of_pos (hs : Searchers s) (hpos : 0 < s.searching) :
    ∃ w, (s.pc w).isSearching = true := by
  rw [hs, Finset.card_pos] at hpos
  obtain ⟨w, hw⟩ := hpos
  exact ⟨w, (Finset.mem_filter.mp hw).2⟩

/-! ### The wakeup a worker is owed -/

omit [DecidableEq τ] in
@[grind →]
theorem WorkerPc.of_driverBound {pc : WorkerPc τ} (h : pc.driverBound c = true) :
    pc.keeps = true ∧ pc.marked = true := by
  cases pc <;> simp_all [driverBound, keeps, marked, lookedInside, committed]

omit [DecidableEq τ] in
@[grind →]
theorem WorkerPc.marked_of_untimed {pc : WorkerPc τ} (h : pc.untimed = true) :
    pc.marked = true := by
  cases pc <;> simp_all [untimed, marked, lookedInside, committed]

omit [DecidableEq τ] in
@[grind →]
theorem CallPc.notifying_of_owesToken {pc : CallPc n τ} {stopOnly : Bool}
    (h : pc.owesToken stopOnly w = true) : pc.notifying = false := by
  cases pc <;> simp_all [notifying, owesToken]

omit [DecidableEq τ] in
@[grind →]
theorem CallPc.notifying_of_owesWake {pc : CallPc n τ} {stopOnly : Bool}
    (h : pc.owesWake stopOnly w = true) : pc.notifying = false := by
  cases pc <;> simp_all [notifying, owesWake]

omit [DecidableEq τ] in
theorem Plain.owes {pc : CallPc n τ} (h : Plain pc) :
    ∀ stopOnly w, pc.owesToken stopOnly w = false ∧ pc.owesWake stopOnly w = false := by
  intro stopOnly w
  cases stopOnly
  · exact ⟨h.owesAnyToken w, h.owesAnyWake w⟩
  · exact ⟨h.owesToken w, h.owesWake w⟩

omit [DecidableEq τ] in
@[grind =]
theorem owesToken_pokeAll (workers : List (Fin n)) (reason : Reason) (stopOnly : Bool) :
    (pokeAll workers reason : CallPc n τ).owesToken stopOnly w =
      (reason.counts stopOnly && decide (w ∈ workers)) := by
  cases workers <;> simp [pokeAll, CallPc.owesToken]

omit [DecidableEq τ] in
@[grind =]
theorem owesWake_pokeAll (workers : List (Fin n)) (reason : Reason) (stopOnly : Bool) :
    (pokeAll workers reason : CallPc n τ).owesWake stopOnly w =
      (reason.counts stopOnly && decide (w ∈ workers)) := by
  cases workers <;> simp [pokeAll, CallPc.owesWake]

/-- The worker's token is there or on its way. -/
def State.TokenComes (s : State n κ τ) (stopOnly : Bool) (w : Fin n) : Prop :=
  s.token w = true ∨ ∃ a, (s.call a).owesToken stopOnly w = true

/-- A wake of the driver is there or on its way. -/
def State.WakeComes (s : State n κ τ) (stopOnly : Bool) (w : Fin n) : Prop :=
  s.driverWake = true ∨ ∃ a, (s.call a).owesWake stopOnly w = true

/-- The sleep the worker is bound for will end. -/
def Woken (c : Config) (s : State n κ τ) (stopOnly : Bool) (w : Fin n) : Prop :=
  if (s.pc w).driverBound c = true then s.WakeComes stopOnly w else s.TokenComes stopOnly w

attribute [local grind] CallPc.owesToken CallPc.owesWake Reason.counts

/-- A call that owes the token keeps owing it until it leaves it. -/
theorem owesToken_kept {stopOnly : Bool} {a : Agent n κ}
    (howes : (s.call a).owesToken stopOnly w = true) (h : Step c s action t) :
    t.token w = true ∨ (t.call a).owesToken stopOnly w = true := by
  cases h with
  | counted hpc => have hplain := hpc.owes stopOnly w; grind -linarith
  | _ => grind -linarith

/-- A call that owes the wake keeps owing it until it leaves it: it finds the worker in the
timekeeper word. -/
theorem owesWake_kept {stopOnly : Bool} {a : Agent n κ} (hdriver : c.hasDriver = true)
    (hkeeper : s.timekeeper = some w) (howes : (s.call a).owesWake stopOnly w = true)
    (h : Step c s action t) :
    t.driverWake = true ∨ (t.call a).owesWake stopOnly w = true := by
  cases h with
  | counted hpc => have hplain := hpc.owes stopOnly w; grind -linarith
  | _ => grind -linarith

theorem tokenComes_step {stopOnly : Bool} (hs : s.TokenComes stopOnly w)
    (hmarked : (t.pc w).marked = true) (h : Step c s action t) : t.TokenComes stopOnly w := by
  rcases hs with htoken | ⟨a, howes⟩
  · left
    cases h with
    | takeToken _ hawake' => have hnot := hawake'.marked; grind -linarith
    | _ => grind -linarith
  · rcases owesToken_kept howes h with htoken | howes'
    · exact .inl htoken
    · exact .inr ⟨a, howes'⟩

theorem wakeComes_step {stopOnly : Bool} (hrole : Role s) (hdriver : c.hasDriver = true)
    (hbound : (s.pc w).driverBound c = true) (hs : s.WakeComes stopOnly w)
    (hmarked : (t.pc w).marked = true) (h : Step c s action t) : t.WakeComes stopOnly w := by
  have hkeeps := (WorkerPc.of_driverBound hbound).1
  rcases hs with hwake | ⟨a, howes⟩
  · left
    cases h with
    | @leaveDriver v _ _ _ hkeeps' hawake' =>
      -- only the timekeeper waits in the driver, so the wake was taken by the worker itself
      obtain rfl := hrole.eq_of_keeps hkeeps hkeeps'
      have hnot := hawake'.marked
      grind -linarith
    | _ => grind -linarith
  · rcases owesWake_kept hdriver ((hrole w).mp hkeeps) howes h with hwake | howes'
    · exact .inl hwake
    · exact .inr ⟨a, howes'⟩

/-- The claim of the role that turns a sleep in the worker's own `Parker` into one in the
driver. -/
def ClaimsDriver (c : Config) (s : State n κ τ) (w : Fin n) : Action n κ τ → Prop
  | .work v _ => v = w ∧ c.hasDriver = true ∧ s.timekeeper = none ∧
      ∃ stopping, s.pc w = .sleepClaim stopping
  | _ => False

/-- Unless the worker claims the role, the sleep it is bound for stays the same. -/
theorem driverBound_step (hclaim : ¬ ClaimsDriver c s w action)
    (hmarked : (t.pc w).marked = true) (h : Step c s action t) :
    (t.pc w).driverBound c = (s.pc w).driverBound c := by
  cases h with
  | quiet => grind -linarith
  | sleepClaim => grind -linarith [WorkerPc.driverBound, ClaimsDriver]
  | _ => grind -linarith [WorkerPc.driverBound]

/-- A worker that is bound for the driver has one. -/
def DriverExists (c : Config) (s : State n κ τ) : Prop :=
  ∀ w, (s.pc w).driverBound c = true → c.hasDriver = true

omit [DecidableEq κ] [DecidableEq τ] in
theorem driverExists_initial : DriverExists c (initial : State n κ τ) := by
  intro w h
  simp [initial, WorkerPc.driverBound] at h

theorem driverExists_step (hs : DriverExists c s) (h : Step c s action t) : DriverExists c t := by
  intro w hbound
  by_cases hclaim : ClaimsDriver c s w action
  · cases action with
    | work v flag => exact hclaim.2.1
    | call => exact hclaim.elim
    | act => exact hclaim.elim
  · rw [driverBound_step hclaim (WorkerPc.of_driverBound hbound).2 h] at hbound
    exact hs w hbound

/-- A wakeup on its way stays so, unless the worker claims the role. -/
theorem woken_step {stopOnly : Bool} (hrole : Role s) (hexists : DriverExists c s)
    (hclaim : ¬ ClaimsDriver c s w action) (hs : Woken c s stopOnly w)
    (hmarked : (t.pc w).marked = true) (h : Step c s action t) : Woken c t stopOnly w := by
  have hsame := driverBound_step hclaim hmarked h
  unfold Woken at *
  rw [hsame]
  split_ifs at hs ⊢ with hbound
  · exact wakeComes_step hrole (hexists w hbound) hbound hs hmarked h
  · exact tokenComes_step hs hmarked h

/-- A worker that claims the role while a wake of the driver is there or on its way is woken. -/
theorem woken_of_claim {stopOnly : Bool} (hclaim : ClaimsDriver c s w action)
    (hs : s.WakeComes stopOnly w) (h : s.step c action = some t) : Woken c t stopOnly w := by
  cases action with
  | work v flag =>
    obtain ⟨rfl, hdriver, hfree, stopping, hpc⟩ := hclaim
    have hstate : t = s.claim v (.scanning stopping) := by
      simp only [State.step, State.work, hpc, hfree, if_true] at h
      split_ifs at h
      exact (Option.some.inj h).symm
    subst hstate
    simpa [Woken, WorkerPc.driverBound, hdriver, State.WakeComes] using hs
  | call => exact hclaim.elim
  | act => exact hclaim.elim

/-! ### Workers that were taken off the mask, and the end of the scheduler -/

/-- A marked worker whose bit is cleared is woken. -/
def Summoned (c : Config) (s : State n κ τ) : Prop :=
  ∀ w, (s.pc w).marked = true → w ∉ s.idleMask → Woken c s false w

omit [DecidableEq κ] [DecidableEq τ] in
theorem summoned_initial : Summoned c (initial : State n κ τ) := by
  intro w hmarked
  simp [initial, WorkerPc.marked, WorkerPc.lookedInside, WorkerPc.committed] at hmarked

/-- A worker is marked only with its bit set, and its bit is cleared only by a call that goes on
to poke it. -/
theorem summoned_before (hmarked : (t.pc w).marked = true) (hmask : w ∉ t.idleMask)
    (h : Step c s action t) :
    ((s.pc w).marked = true ∧ w ∉ s.idleMask) ∨
      ∃ a, (t.call a) = .poke .load w [] .handOff := by
  cases h with
  | @claimIdle a =>
    by_cases hin : w ∈ s.idleMask
    · right
      exact ⟨a, by grind -linarith⟩
    · grind -linarith
  | quiet => grind -linarith
  | _ =>
    left
    grind -linarith [WorkerPc.marked, WorkerPc.lookedInside, WorkerPc.committed]

/-- A worker that claims the role before it sleeps still has its bit, or a wake of the driver is
there or on its way. -/
def WakeSeen (c : Config) (s : State n κ τ) (action : Action n κ τ) : Prop :=
  ∀ w, ClaimsDriver c s w action → w ∈ s.idleMask ∨ s.WakeComes false w

theorem summoned_step (hrole : Role s) (hexists : DriverExists c s) (hs : Summoned c s)
    (hseen : WakeSeen c s action) (h : s.step c action = some t) : Summoned c t := by
  intro w hmarked hmask
  have hstep := step_of_eq h
  rcases summoned_before hmarked hmask hstep with ⟨hmarked₀, hmask₀⟩ | ⟨a, ha⟩
  · by_cases hclaim : ClaimsDriver c s w action
    · rcases hseen w hclaim with hin | hwake
      · exact absurd hin hmask₀
      · exact woken_of_claim hclaim hwake h
    · exact woken_step hrole hexists hclaim (hs w hmarked₀ hmask₀) hmarked hstep
  · unfold Woken
    split_ifs
    · exact .inr ⟨a, by simp [ha, CallPc.owesWake, Reason.counts]⟩
    · exact .inr ⟨a, by simp [ha, CallPc.owesToken, Reason.counts]⟩

/-- Once the scheduler is stopping, a worker that sleeps without a timeout is woken by `stop`. -/
structure Stopped (c : Config) (s : State n κ τ) : Prop where
  woken : s.stopping = true → ∀ w, (s.pc w).untimed = true → Woken c s true w
  saw : ∀ a, (s.call a).sawStopping = true → s.stopping = true

omit [DecidableEq κ] [DecidableEq τ] in
theorem stopped_initial : Stopped c (initial : State n κ τ) where
  woken := fun h ↦ by simp [initial] at h
  saw := fun a h ↦ by simp [initial, CallPc.sawStopping] at h

/-- A worker that claims the role before a sleep without a timeout does so before `stop` began, or
while a wake of the driver is there or on its way. -/
def StopSeen (c : Config) (s : State n κ τ) (action : Action n κ τ) : Prop :=
  ∀ w, ClaimsDriver c s w action → s.stopping = true → (s.pc w).untimed = true →
    s.WakeComes true w

theorem stopping_step (hsaw : ∀ a, (s.call a).sawStopping = true → s.stopping = true)
    (hstop : t.stopping = true) (h : Step c s action t) :
    s.stopping = true ∨ ∃ a, t.call a = .stopWake := by
  cases h with
  | @stopFirst a => exact .inr ⟨a, by grind -linarith⟩
  | @releaseSwap a _ hpc => exact .inl (hsaw a (by simp [hpc, CallPc.sawStopping]))
  | _ => exact .inl (by grind -linarith)

theorem untimed_step (hstop : s.stopping = true) (huntimed : (t.pc w).untimed = true)
    (h : Step c s action t) : (s.pc w).untimed = true := by
  cases h with
  | quiet => grind -linarith
  | _ => grind -linarith [WorkerPc.untimed]

theorem saw_step (hs : ∀ a, (s.call a).sawStopping = true → s.stopping = true)
    (h : Step c s action t) : ∀ a, (t.call a).sawStopping = true → t.stopping = true := by
  intro a
  have ha := hs a
  cases h with
  | notifyNext hpc hpc' => grind -linarith [CallPc.sawStopping, CallPc.notifying]
  | _ => grind -linarith [CallPc.sawStopping, sawStopping_pokeAll]

theorem stopped_step (hrole : Role s) (hexists : DriverExists c s) (hs : Stopped c s)
    (hseen : StopSeen c s action) (h : s.step c action = some t) : Stopped c t := by
  have hstep := step_of_eq h
  refine ⟨fun hstop w huntimed ↦ ?_, saw_step hs.saw hstep⟩
  rcases stopping_step hs.saw hstop hstep with hstop₀ | ⟨a, ha⟩
  · have huntimed₀ := untimed_step hstop₀ huntimed hstep
    by_cases hclaim : ClaimsDriver c s w action
    · exact woken_of_claim hclaim (hseen w hclaim hstop₀ huntimed₀) h
    · exact woken_step hrole hexists hclaim (hs.woken hstop₀ w huntimed₀)
        (WorkerPc.marked_of_untimed huntimed) hstep
  · unfold Woken
    split_ifs
    · exact .inr ⟨a, by simp [ha, CallPc.owesWake]⟩
    · exact .inr ⟨a, by simp [ha, CallPc.owesToken]⟩

end Stackfull.Sched.Idle
