import Stackfull.Io.Readiness

/-!
# No readiness is lost

With an edge-triggered poller, whatever is there in a direction has a report on the way, or the
count has moved past the one the party relies on (`Edge.held`), or past the one of the last short
transfer (`Edge.exhausted`). A direction that has ended is the exception the flag `closed` is for:
its report may be spent, but then the flag is set and no transfer is skipped (`Edge.ended`).

With `poll`, a party past its `arm` has its bit set until the report that clears the bit is counted
(`Level.armed`), and no transfer is ever skipped.
-/

set_option autoImplicit false
set_option relaxedAutoImplicit false
set_option linter.dupNamespace false

namespace Stackfull.Io.Readiness

open Stackfull.Lib

variable {c : Config} {s s' : State} {d : Interest}

/-! ### What a party's steps do -/

/-- The count after a `wouldBlock`, until the party tries again. -/
def Pc.holds : Pc → Option ℕ
  | .blocked seen | .skipped seen | .waitLock seen | .waitArm seen | .waiting seen
  | .detaching seen | .watchArm seen | .watchLock seen | .watching seen => some seen
  | .idle | .counted _ | .calling _ | .noting _ _ _ => none

/-- The count of a party that has armed its bit of `poll`'s table. -/
def Pc.armedFor : Pc → Option ℕ
  | .waiting seen | .detaching seen | .watchLock seen | .watching seen => some seen
  | _ => none

/-- The direction whose party moves, if the step is none of `tryCall`. -/
def Action.party : Action → Option Interest
  | .count d _ | .waitFor d | .watch d | .work d | .wakeUp d | .leave d | .unwatch d => some d
  | .arrive _ | .enter | .report _ | .giveUp | .collect | .attempt _ | .call _ _
  | .noteTransfer _ => none

/-- A step of a party outside `tryCall`: it goes to `p` with the count it has, and leaves the
kernel, the counts and the poller as they are. -/
structure Proceeds (c : Config) (s s' : State) (d : Interest) (p : Pc) : Prop where
  kernel : s'.kernel = s.kernel
  pending : s'.pending = s.pending
  events : s'.events = s.events
  closed : s'.closed = s.closed
  exhausted : s'.exhausted = s.exhausted
  exhaustedAt : s'.exhaustedAt = s.exhaustedAt
  poller : s'.poller = s.poller
  armed : ∀ e, s.armed e = true → s'.armed e = true
  pc : s'.pc = Function.update s.pc d p
  holds : ∀ seen, p.holds = some seen → (s.pc d).holds = some seen
  noting : ∀ seen bytes asked, p = .noting seen bytes asked → s.pc d = .noting seen bytes asked
  skipped : ∀ seen, p = .skipped seen → s.pc d = .skipped seen
  arms : c.everyArrivalReported = false → ∀ seen, p.armedFor = some seen →
    s'.armed d = true ∨ (s.pc d).armedFor = some seen

attribute [local simp] Pc.holds Pc.armedFor

/-- A party changes its place, its waker and its flag. -/
theorem Proceeds.goto {waker cancelled : Interest → Bool} {p : Pc}
    (hholds : ∀ seen, p.holds = some seen → (s.pc d).holds = some seen)
    (hnoting : ∀ seen bytes asked, p ≠ .noting seen bytes asked)
    (hskipped : ∀ seen, p ≠ .skipped seen)
    (harms : c.everyArrivalReported = false → ∀ seen, p.armedFor = some seen →
      (s.pc d).armedFor = some seen) :
    Proceeds c s ({ s with waker := waker, cancelled := cancelled }.goto d p) d p where
  kernel := rfl
  pending := rfl
  events := rfl
  closed := rfl
  exhausted := rfl
  exhaustedAt := rfl
  poller := rfl
  armed _ h := h
  pc := rfl
  holds := hholds
  noting _ _ _ h := absurd h (hnoting _ _ _)
  skipped _ h := absurd h (hskipped _)
  arms hpoll seen h := Or.inr (harms hpoll seen h)

/-- A party arms its bit. -/
theorem Proceeds.arm {p : Pc} (hholds : ∀ seen, p.holds = some seen → (s.pc d).holds = some seen)
    (hnoting : ∀ seen bytes asked, p ≠ .noting seen bytes asked)
    (hskipped : ∀ seen, p ≠ .skipped seen) :
    Proceeds c s ({ s with armed := Function.update s.armed d true }.goto d p) d p where
  kernel := rfl
  pending := rfl
  events := rfl
  closed := rfl
  exhausted := rfl
  exhaustedAt := rfl
  poller := rfl
  armed e h := by
    simp only [State.goto, Function.update_apply]
    split_ifs
    · rfl
    · exact h
  pc := rfl
  holds := hholds
  noting _ _ _ h := absurd h (hnoting _ _ _)
  skipped _ h := absurd h (hskipped _)
  arms _ _ _ := by
    left
    simp only [State.goto, Function.update_self]

/-- `unwatch` comes too early or too late. -/
theorem Proceeds.flag (cancelled : Interest → Bool) :
    Proceeds c s { s with cancelled := cancelled } d (s.pc d) where
  kernel := rfl
  pending := rfl
  events := rfl
  closed := rfl
  exhausted := rfl
  exhaustedAt := rfl
  poller := rfl
  armed _ h := h
  pc := (Function.update_eq_self d s.pc).symm
  holds _ h := h
  noting _ _ _ h := h
  skipped _ h := h
  arms _ _ h := Or.inr h

/-- The critical sections of a party. -/
theorem work_proceeds (hstep : s.work c d = some s') : ∃ p, Proceeds c s s' d p := by
  unfold State.work at hstep
  split at hstep
  · nomatch hstep
  cases hpc : s.pc d with
  | waitLock seen =>
    simp only [hpc, Option.some.injEq] at hstep
    subst hstep
    split_ifs with hsame hevery
    · exact ⟨.waiting seen, .goto (by simp [hpc]) (by simp) (by simp) (by simp [hevery])⟩
    · exact ⟨.waitArm seen, .goto (by simp [hpc]) (by simp) (by simp) (by simp)⟩
    · exact ⟨.idle, .goto (by simp) (by simp) (by simp) (by simp)⟩
  | waitArm seen =>
    simp only [hpc, Option.some.injEq] at hstep
    subst hstep
    exact ⟨.waiting seen, .arm (by simp [hpc]) (by simp) (by simp)⟩
  | detaching seen =>
    simp only [hpc, Option.some.injEq] at hstep
    subst hstep
    exact ⟨.idle, .goto (by simp) (by simp) (by simp) (by simp)⟩
  | watchArm seen =>
    simp only [hpc, Option.some.injEq] at hstep
    subst hstep
    exact ⟨.watchLock seen, .arm (by simp [hpc]) (by simp) (by simp)⟩
  | watchLock seen =>
    simp only [hpc, Option.some.injEq] at hstep
    subst hstep
    split_ifs
    · exact ⟨.idle, .goto (by simp) (by simp) (by simp) (by simp)⟩
    · exact ⟨.watching seen, .goto (by simp [hpc]) (by simp) (by simp) (by simp [hpc])⟩
    · exact ⟨.idle, .goto (by simp) (by simp) (by simp) (by simp)⟩
  | idle | counted _ | calling _ | noting _ _ _ | blocked _ | skipped _ | waiting _ | watching _ =>
    simp only [hpc, reduceCtorEq] at hstep

/-- `waitFor` and `watch` start with the count of the attempt. -/
theorem await_proceeds (hstep : s.waitFor d = some s' ∨ s.watch c d = some s') :
    ∃ p, Proceeds c s s' d p := by
  rcases hstep with hstep | hstep
  · unfold State.waitFor at hstep
    split at hstep
    case h_3 => nomatch hstep
    all_goals
      rename_i seen hpc
      obtain rfl := Option.some.inj hstep
      split_ifs
      · exact ⟨.waitLock seen, .goto (by simp [hpc]) (by simp) (by simp) (by simp)⟩
      · exact ⟨.idle, .goto (by simp) (by simp) (by simp) (by simp)⟩
  · unfold State.watch at hstep
    split at hstep
    case h_3 => nomatch hstep
    all_goals
      rename_i seen hpc
      obtain rfl := Option.some.inj hstep
      split_ifs with hevery
      · exact ⟨.watchLock seen, .goto (by simp [hpc]) (by simp) (by simp) (by simp [hevery])⟩
      · exact ⟨.watchArm seen, .goto (by simp [hpc]) (by simp) (by simp) (by simp)⟩

/-- What a party does outside `tryCall`. -/
theorem party_proceeds {a : Action} (ha : a.party = some d) (hstep : step c s a = some s') :
    ∃ p, Proceeds c s s' d p := by
  cases a with
  | arrive _ | enter | report _ | giveUp | collect | attempt _ | call _ _ | noteTransfer _ =>
    nomatch ha
  | count e fresh =>
    obtain rfl := Option.some.inj ha
    simp only [step.eq_def, State.count] at hstep
    split at hstep
    case h_3 => nomatch hstep
    all_goals
      obtain rfl := Option.some.inj hstep
      exact ⟨.counted (s.events e), .goto (by simp) (by simp) (by simp) (by simp)⟩
  | waitFor e =>
    obtain rfl := Option.some.inj ha
    exact await_proceeds (Or.inl hstep)
  | watch e =>
    obtain rfl := Option.some.inj ha
    exact await_proceeds (Or.inr hstep)
  | work e =>
    obtain rfl := Option.some.inj ha
    exact work_proceeds hstep
  | wakeUp e =>
    obtain rfl := Option.some.inj ha
    simp only [step.eq_def, State.wakeUp] at hstep
    split at hstep
    case h_3 => nomatch hstep
    all_goals
      split_ifs at hstep
      obtain rfl := Option.some.inj hstep
      exact ⟨.idle, .goto (by simp) (by simp) (by simp) (by simp)⟩
  | leave e =>
    obtain rfl := Option.some.inj ha
    simp only [step.eq_def, State.leave] at hstep
    split at hstep
    case h_2 => nomatch hstep
    case h_1 seen hpc =>
      obtain rfl := Option.some.inj hstep
      exact ⟨.detaching seen, .goto (by simp [hpc]) (by simp) (by simp) (by simp [hpc])⟩
  | unwatch e =>
    obtain rfl := Option.some.inj ha
    simp only [step.eq_def, State.unwatch] at hstep
    split at hstep
    · nomatch hstep
    split at hstep
    · obtain rfl := Option.some.inj hstep
      split_ifs
      · exact ⟨.idle, .goto (by simp) (by simp) (by simp) (by simp)⟩
      · exact ⟨s.pc e, .flag _⟩
    · obtain rfl := Option.some.inj hstep
      exact ⟨s.pc e, .flag _⟩

/-! ### Counting a report -/

/-- The poller counts its report for one direction and goes on. -/
inductive Counts : PollerPc → (Interest → Bool) → Interest → PollerPc → Prop
  | read (ready : Interest → Bool) :
      Counts (.countRead ready) ready .readable (.countWrite ready)
  | write (ready : Interest → Bool) : Counts (.countWrite ready) ready .writable .idle

/-- What a report delivers, it delivers to a direction that is ready. -/
theorem Counts.ready {q p : PollerPc} {ready : Interest → Bool} (hc : Counts q ready d p)
    (h : q.delivers c d = true) : ready d = true := by
  cases hc with
  | read => exact h
  | write => simpa only [PollerPc.delivers, decide_true, Bool.true_and] using h

/-- The other direction's report stays on its way. -/
theorem Counts.other {q p : PollerPc} {ready : Interest → Bool} (hc : Counts q ready d p)
    {e : Interest} (hne : e ≠ d) (h : q.delivers c e = true) : p.delivers c e = true := by
  cases hc with
  | read =>
    cases e with
    | readable => exact absurd rfl hne
    | writable => simpa only [PollerPc.delivers, decide_true, Bool.true_and] using h
  | write =>
    cases e with
    | readable =>
      simp only [PollerPc.delivers, reduceCtorEq, decide_false, Bool.false_and,
        Bool.false_eq_true] at h
    | writable => exact absurd rfl hne

/-- A party whose count is not the one the report brings stays ahead of it. -/
theorem Counts.moves {p : PollerPc} {ready : Interest → Bool} (hc : Counts s.poller ready d p)
    {e : Interest} {seen : ℕ} (h : s.poller.delivers c e = true ∨ s.events e ≠ seen)
    (hseen : e = d → ready d = true → (s.events d + 1) % countModulus ≠ seen) :
    p.delivers c e = true ∨ (s.bump ready d).events e ≠ seen := by
  rcases eq_or_ne e d with rfl | hne
  · by_cases hr : ready e = true
    · right
      simpa only [State.bump, hr, if_true, Function.update_self] using hseen rfl hr
    · right
      rw [State.bump, if_neg hr]
      exact h.resolve_left fun hd ↦ hr (hc.ready hd)
  · refine h.imp (hc.other hne) fun hevents ↦ ?_
    unfold State.bump
    split_ifs
    · simpa only [Function.update_of_ne hne] using hevents
    · exact hevents

/-- The count a party relies on is not the one the report brings. -/
theorem State.ne_of_fresh {seen : ℕ} (h : s.fresh d = true) (hpc : (s.pc d).relies = some seen) :
    (s.events d + 1) % countModulus ≠ seen := by
  rintro rfl
  simp only [State.fresh, hpc, ne_eq, not_true_eq_false, decide_false, Bool.false_and,
    Bool.false_eq_true] at h

/-- Nor is the count of the last short transfer. -/
theorem State.ne_exhaustedAt_of_fresh (h : s.fresh d = true) (hex : s.exhausted d = true) :
    (s.events d + 1) % countModulus ≠ s.exhaustedAt d := by
  intro heq
  simp only [State.fresh, hex, heq, decide_true, Bool.and_true, Bool.not_true, Bool.and_false,
    Bool.false_eq_true] at h

/-- Counting a report changes the count and the waker. -/
theorem State.bump_frame (s : State) (ready : Interest → Bool) (d : Interest) :
    (s.bump ready d).pc = s.pc ∧ (s.bump ready d).kernel = s.kernel ∧
      (s.bump ready d).closed = s.closed ∧ (s.bump ready d).exhausted = s.exhausted ∧
      (s.bump ready d).exhaustedAt = s.exhaustedAt ∧ (s.bump ready d).pending = s.pending ∧
      (s.bump ready d).armed = s.armed := by
  unfold State.bump
  split_ifs <;> exact ⟨rfl, rfl, rfl, rfl, rfl, rfl, rfl⟩

/-- What the poller does in `collect`. -/
theorem collect_cases (hwrap : noWrap s .collect = true) (hstep : s.collect c = some s') :
    (∃ e, s.poller = .reported e ∧ s' = (if c.everyArrivalReported then
      { s with poller := .closing e.epollReady e.epollClosed } else s.collectLocked e)) ∨
    (∃ ready closed, s.poller = .closing ready closed ∧
      s' = { s with closed := fun d ↦ s.closed d || closed d, poller := .countRead ready }) ∨
    (∃ ready d p, Counts s.poller ready d p ∧ (ready d = true → s.fresh d = true) ∧
      s' = { s.bump ready d with poller := p }) := by
  unfold State.collect at hstep
  cases hpoller : s.poller with
  | idle => simp only [hpoller, reduceCtorEq] at hstep
  | polling snapshot => simp only [hpoller, reduceCtorEq] at hstep
  | reported e =>
    simp only [hpoller, Option.some.injEq] at hstep
    exact Or.inl ⟨e, rfl, hstep.symm⟩
  | closing ready closed =>
    simp only [hpoller, Option.some.injEq] at hstep
    exact Or.inr (Or.inl ⟨ready, closed, rfl, hstep.symm⟩)
  | countRead ready =>
    simp only [hpoller, Option.some.injEq] at hstep
    refine Or.inr (Or.inr ⟨ready, .readable, .countWrite ready, .read ready, ?_, hstep.symm⟩)
    intro hr
    simpa only [noWrap, hpoller, hr, Bool.not_true, Bool.false_or] using hwrap
  | countWrite ready =>
    simp only [hpoller, Option.some.injEq] at hstep
    refine Or.inr (Or.inr ⟨ready, .writable, .idle, .write ready, ?_, hstep.symm⟩)
    intro hr
    simpa only [noWrap, hpoller, hr, Bool.not_true, Bool.false_or] using hwrap

/-! ### Edge-triggered reports -/

/-- The poller has a report that the direction is over, and has not marked it. -/
def PollerPc.closes : PollerPc → Interest → Bool
  | .reported events, d => events.epollClosed d
  | .closing _ closed, d => closed d
  | _, _ => false

/-- Something newer than `seen` is counted, or will be. -/
def State.newer (c : Config) (s : State) (d : Interest) (seen : ℕ) : Prop :=
  s.pending = true ∨ s.poller.delivers c d = true ∨ s.events d ≠ seen

/-- What holds between the kernel, the counts and the parties with an edge-triggered poller. -/
structure Edge (c : Config) (s : State) : Prop where
  held : ∀ d seen, (s.pc d).holds = some seen → s.available d = true → s.newer c d seen
  short : ∀ d seen bytes asked, s.pc d = .noting seen bytes asked → c.kind.isStream = true →
    bytes ≠ 0 → bytes < asked → s.available d = true → s.newer c d seen ∨ s.closed d = true
  exhausted : ∀ d, s.exhausted d = true → s.available d = true →
    s.newer c d (s.exhaustedAt d) ∨ s.closed d = true
  ended : ∀ d, s.kernel.ended d = true →
    s.closed d = true ∨ s.pending = true ∨ s.poller.closes d = true
  closedReady : ∀ ready closed, s.poller = .closing ready closed →
    ∀ d, closed d = true → ready d = true

/-- Epoll takes a direction for ready when it takes it for closed. -/
theorem Events.epollReady_of_epollClosed {e : Events} (h : e.epollClosed d = true) :
    e.epollReady d = true := by
  cases d <;> simp only [Events.epollClosed, Events.epollReady, Bool.or_eq_true] at h ⊢ <;> tauto

/-- An epoll report names a direction with something to return. -/
theorem Events.epollReady_of_available {e : Events} {k : Kernel} (hcover : e.coversEpoll k = true)
    (h : k.available d = true) : e.epollReady d = true := by
  cases d <;> simp only [Events.coversEpoll, Kernel.available, Kernel.ended, Events.epollReady,
    Bool.and_eq_true, Bool.or_eq_true, decide_eq_true_eq] at hcover h ⊢ <;> tauto

/-- An epoll report names a direction that is over. -/
theorem Events.epollClosed_of_ended {e : Events} {k : Kernel} (hcover : e.coversEpoll k = true)
    (h : k.ended d = true) : e.epollClosed d = true := by
  cases d <;> simp only [Events.coversEpoll, Kernel.ended, Events.epollClosed,
    Bool.and_eq_true, Bool.or_eq_true, decide_eq_true_eq] at hcover h ⊢ <;> tauto

/-- A registration starts sound. -/
theorem Edge.initial (hevery : c.everyArrivalReported = true) (kernel : Kernel)
    (connecting : Bool) : Edge c (initial c kernel connecting) where
  held _ _ _ _ := Or.inl hevery
  short _ _ _ _ _ _ _ _ _ := Or.inl (Or.inl hevery)
  exhausted _ _ _ := Or.inl (Or.inl hevery)
  ended _ _ := Or.inr (Or.inl hevery)
  closedReady _ _ h := nomatch h

/-- While the descriptor is on the ready list, the rest is free. -/
theorem Edge.pending (hs : Edge c s) (hpoller : s'.poller = s.poller) (hpending : s'.pending = true) :
    Edge c s' where
  held _ _ _ _ := Or.inl hpending
  short _ _ _ _ _ _ _ _ _ := Or.inl (Or.inl hpending)
  exhausted _ _ _ := Or.inl (Or.inl hpending)
  ended _ _ := Or.inr (Or.inl hpending)
  closedReady ready closed h := hs.closedReady ready closed (hpoller ▸ h)

/-- A poller that comes or goes with no report changes nothing. -/
theorem Edge.poller (hs : Edge c s) {p : PollerPc}
    (hdelivers : ∀ d, p.delivers c d = s.poller.delivers c d)
    (hcloses : ∀ d, p.closes d = s.poller.closes d)
    (hready : ∀ ready closed, p = .closing ready closed → ∀ d, closed d = true → ready d = true) :
    Edge c { s with poller := p } where
  held d seen hpc havail := by
    have h := hs.held d seen hpc havail
    simpa only [State.newer, hdelivers] using h
  short d seen bytes asked hpc hstream hbytes hshort havail := by
    have h := hs.short d seen bytes asked hpc hstream hbytes hshort havail
    simpa only [State.newer, hdelivers] using h
  exhausted d hex havail := by
    have h := hs.exhausted d hex havail
    simpa only [State.newer, hdelivers] using h
  ended d hended := by
    have h := hs.ended d hended
    simpa only [hcloses] using h
  closedReady := hready

/-- The kernel hands over all it has. -/
theorem Edge.report (hevery : c.everyArrivalReported = true) {e : Events}
    (hcover : e.coversEpoll s.kernel = true) :
    Edge c { s with pending := false, poller := .reported e } := by
  have hready (d : Interest) (havail : s.kernel.available d = true) :
      (PollerPc.reported e).delivers c d = true := by
    simp only [PollerPc.delivers, hevery, Bool.true_and]
    exact Events.epollReady_of_available hcover havail
  exact {
    held := fun d seen _ havail ↦ Or.inr (Or.inl (hready d havail))
    short := fun d _ _ _ _ _ _ _ havail ↦ Or.inl (Or.inr (Or.inl (hready d havail)))
    exhausted := fun d _ havail ↦ Or.inl (Or.inr (Or.inl (hready d havail)))
    ended := fun d hended ↦ Or.inr (Or.inr (Events.epollClosed_of_ended hcover hended))
    closedReady := fun _ _ h ↦ nomatch h }

/-- `collect` starts. -/
theorem Edge.collect (hs : Edge c s) (hevery : c.everyArrivalReported = true) {e : Events}
    (hpoller : s.poller = .reported e) :
    Edge c { s with poller := .closing e.epollReady e.epollClosed } := by
  apply hs.poller
  · intro d
    simp only [hpoller, PollerPc.delivers, hevery, Bool.true_and]
  · intro d
    simp only [hpoller, PollerPc.closes]
  · intro ready closed h d hclosed
    obtain ⟨rfl, rfl⟩ := PollerPc.closing.inj h
    exact Events.epollReady_of_epollClosed hclosed

/-- `collect` marks the directions that are over. -/
theorem Edge.mark (hs : Edge c s) {ready closed : Interest → Bool}
    (hpoller : s.poller = .closing ready closed) :
    Edge c { s with closed := fun d ↦ s.closed d || closed d, poller := .countRead ready } := by
  have hnewer (d : Interest) (seen : ℕ) (h : s.newer c d seen) :
      State.newer c { s with
        closed := fun d ↦ s.closed d || closed d, poller := .countRead ready } d seen := by
    simpa only [State.newer, hpoller, PollerPc.delivers] using h
  have hkept (d : Interest) (h : s.closed d = true) : (s.closed d || closed d) = true := by
    simp only [h, Bool.true_or]
  exact {
    held := fun d seen hpc havail ↦ hnewer d seen (hs.held d seen hpc havail)
    short := fun d seen bytes asked hpc h1 h2 h3 havail ↦
      (hs.short d seen bytes asked hpc h1 h2 h3 havail).imp (hnewer d seen) (hkept d)
    exhausted := fun d hex havail ↦ (hs.exhausted d hex havail).imp (hnewer d _) (hkept d)
    ended := by
      intro d hended
      rcases hs.ended d hended with h | h | h
      · exact Or.inl (hkept d h)
      · exact Or.inr (Or.inl h)
      · rw [hpoller] at h
        exact Or.inl (by simp only [show closed d = true from h, Bool.or_true])
    closedReady := fun _ _ h ↦ nomatch h }

/-- A report that is counted brings the count to a value nobody relies on. -/
theorem Edge.bump (hs : Edge c s) {ready : Interest → Bool} {p : PollerPc}
    (hc : Counts s.poller ready d p) (hfresh : ready d = true → s.fresh d = true) :
    Edge c { s.bump ready d with poller := p } := by
  obtain ⟨hpc, hkernel, hclosed, hexhausted, hat, hpending, -⟩ := s.bump_frame ready d
  have hkept (e : Interest) (seen : ℕ) (h : s.newer c e seen)
      (hseen : e = d → ready d = true → (s.events d + 1) % countModulus ≠ seen) :
      State.newer c { s.bump ready d with poller := p } e seen := by
    refine h.imp (fun h ↦ ?_) fun h ↦ hc.moves h hseen
    rw [← hpending] at h
    exact h
  constructor
  · intro e seen h havail
    simp only [State.available, hkernel, hpc] at h havail
    refine hkept e seen (hs.held e seen h havail) ?_
    rintro rfl hr
    apply State.ne_of_fresh (hfresh hr)
    cases hcase : s.pc e <;> simp_all only [Pc.holds, Pc.relies, reduceCtorEq]
  · intro e seen bytes asked h hstream hbytes hlt havail
    simp only [State.available, hkernel, hpc] at h havail
    simp only [hclosed]
    refine (hs.short e seen bytes asked h hstream hbytes hlt havail).imp_left fun hn ↦ ?_
    refine hkept e seen hn ?_
    rintro rfl hr
    exact State.ne_of_fresh (hfresh hr) (by rw [h, Pc.relies])
  · intro e h havail
    simp only [State.available, hkernel, hexhausted] at h havail
    simp only [hclosed, hat]
    refine (hs.exhausted e h havail).imp_left fun hn ↦ ?_
    refine hkept e _ hn ?_
    rintro rfl hr
    exact State.ne_exhaustedAt_of_fresh (hfresh hr) h
  · intro e h
    simp only [hkernel] at h
    simp only [hclosed, hpending]
    rcases hs.ended e h with hmarked | hlisted | hcloses
    · exact Or.inl hmarked
    · exact Or.inr (Or.inl hlisted)
    · cases hpoller : s.poller <;> rw [hpoller] at hc hcloses <;> cases hc <;> nomatch hcloses
  · intro ready' closed' h
    cases hpoller : s.poller <;> rw [hpoller] at hc <;> cases hc <;> nomatch h

/-- Less on the descriptor asks for less. -/
theorem Edge.shrink (hs : Edge c s) {k : Kernel}
    (havail : ∀ d, k.available d = true → s.kernel.available d = true)
    (hended : ∀ d, k.ended d = true → s.kernel.ended d = true) :
    Edge c { s with kernel := k } where
  held d seen hpc h := hs.held d seen hpc (havail d h)
  short d seen bytes asked hpc h1 h2 h3 h := hs.short d seen bytes asked hpc h1 h2 h3 (havail d h)
  exhausted d hex h := hs.exhausted d hex (havail d h)
  ended d h := hs.ended d (hended d h)
  closedReady := hs.closedReady

/-- A party goes where what it relies on holds. -/
theorem Edge.goto (hs : Edge c s) {p : Pc}
    (hheld : ∀ seen, p.holds = some seen → s.available d = true → s.newer c d seen)
    (hshort : ∀ seen bytes asked, p = .noting seen bytes asked → c.kind.isStream = true →
      bytes ≠ 0 → bytes < asked → s.available d = true → s.newer c d seen ∨ s.closed d = true) :
    Edge c (s.goto d p) := by
  constructor
  · intro e seen hpc havail
    rcases eq_or_ne e d with rfl | hne
    · simp only [State.goto, Function.update_self] at hpc
      exact hheld seen hpc havail
    · simp only [State.goto, Function.update_of_ne hne] at hpc
      exact hs.held e seen hpc havail
  · intro e seen bytes asked hpc h1 h2 h3 havail
    rcases eq_or_ne e d with rfl | hne
    · simp only [State.goto, Function.update_self] at hpc
      exact hshort seen bytes asked hpc h1 h2 h3 havail
    · simp only [State.goto, Function.update_of_ne hne] at hpc
      exact hs.short e seen bytes asked hpc h1 h2 h3 havail
  · exact hs.exhausted
  · exact hs.ended
  · exact hs.closedReady

/-- A party goes on with the count it holds, or with none. -/
theorem Edge.keep (hs : Edge c s) {p : Pc}
    (hheld : ∀ seen, p.holds = some seen → (s.pc d).holds = some seen)
    (hshort : ∀ seen bytes asked, p ≠ .noting seen bytes asked) : Edge c (s.goto d p) :=
  hs.goto (fun seen h havail ↦ hs.held d seen (hheld seen h) havail)
    (fun seen bytes asked h ↦ absurd h (hshort seen bytes asked))

/-- A party goes on outside `tryCall`. -/
theorem Edge.proceeds (hs : Edge c s) {p : Pc} (hp : Proceeds c s s' d p) : Edge c s' := by
  have hgoto : Edge c (s.goto d p) :=
    hs.goto (fun seen h ↦ hs.held d seen (hp.holds seen h))
      (fun seen bytes asked h ↦ hs.short d seen bytes asked (hp.noting seen bytes asked h))
  obtain ⟨hkernel, hpending, hevents, hclosed, hexhausted, hat, hpoller, -, hpc, -⟩ := hp
  cases s'
  dsimp only at hkernel hpending hevents hclosed hexhausted hat hpoller hpc
  subst hkernel hpending hevents hclosed hexhausted hat hpoller hpc
  exact ⟨hgoto.held, hgoto.short, hgoto.exhausted, hgoto.ended, hgoto.closedReady⟩

/-- The poller's steps in `collect` keep the edge-triggered invariant. -/
theorem Edge.collect_step (hs : Edge c s) (hevery : c.everyArrivalReported = true)
    (hwrap : noWrap s .collect = true) (hstep : s.collect c = some s') : Edge c s' := by
  rcases collect_cases hwrap hstep with ⟨e, hpoller, rfl⟩ | ⟨ready, closed, hpoller, rfl⟩ |
    ⟨ready, d, p, hc, hfresh, rfl⟩
  · rw [if_pos hevery]
    exact hs.collect hevery hpoller
  · exact hs.mark hpoller
  · exact hs.bump hc hfresh

/-- What the poller will mark it also counts. -/
theorem Edge.delivers_of_closes (hs : Edge c s) (hevery : c.everyArrivalReported = true)
    (h : s.poller.closes d = true) : s.poller.delivers c d = true := by
  cases hpoller : s.poller with
  | reported e =>
    rw [hpoller] at h
    simp only [PollerPc.delivers, hevery, Bool.true_and]
    exact Events.epollReady_of_epollClosed h
  | closing ready closed =>
    rw [hpoller] at h
    exact hs.closedReady ready closed hpoller d h
  | idle | polling snapshot | countRead ready | countWrite ready =>
    rw [hpoller] at h
    nomatch h

/-- A system call keeps it: a short transfer of a byte stream leaves only an end behind, and
`wouldBlock` leaves nothing. -/
theorem Edge.call_step (hs : Edge c s) (hevery : c.everyArrivalReported = true)
    {outcome : Outcome} (hstep : s.call c d outcome = some s') : Edge c s' := by
  unfold State.call at hstep
  split at hstep
  case h_1 seen bytes asked left hpc =>
    obtain ⟨k, hk, rfl⟩ := Option.map_eq_some_iff.mp hstep
    unfold State.transfer at hk
    split_ifs at hk with hmoves
    obtain ⟨-, -, hleft, hstream⟩ := hmoves
    obtain rfl := (Option.some.inj hk).symm
    have havail (e : Interest)
        (h : Kernel.available { s.kernel with data := Function.update s.kernel.data d left } e = true) :
        s.kernel.available e = true := by
      simp only [Kernel.available, Bool.or_eq_true] at h ⊢
      rcases h with h | h
      · left
        rcases eq_or_ne e d with rfl | hne
        · exact hleft (by simpa only [Function.update_self] using h)
        · simpa only [Function.update_of_ne hne] using h
      · exact Or.inr (by cases e <;> exact h)
    have hended (e : Interest)
        (h : Kernel.ended { s.kernel with data := Function.update s.kernel.data d left } e = true) :
        s.kernel.ended e = true := by cases e <;> exact h
    have hshrunk := hs.shrink havail hended
    apply hshrunk.goto
    · intro seen h
      nomatch h
    · intro seen' bytes' asked' h hkind hbytes hlt hav
      obtain ⟨rfl, rfl, rfl⟩ := Pc.noting.inj h
      have hgone := hstream hkind hbytes hlt
      have hend : s.kernel.ended d = true := by
        simp only [State.available, Kernel.available, Function.update_self, hgone,
          Bool.false_or] at hav
        exact hended d (by simpa only [hgone] using hav)
      rcases hs.ended d hend with h | h | h
      · exact Or.inr h
      · exact Or.inl (Or.inl h)
      · exact Or.inl (Or.inr (Or.inl (hs.delivers_of_closes hevery h)))
  case h_2 seen clears hpc =>
    obtain rfl := Option.some.inj hstep
    have hended (e : Interest)
        (h : Kernel.ended { s.kernel with error := s.kernel.error && !clears } e = true) :
        s.kernel.ended e = true := by
      cases e <;> simp only [Kernel.ended, Bool.or_eq_true, Bool.and_eq_true] at h ⊢ <;> tauto
    have havail (e : Interest)
        (h : Kernel.available { s.kernel with error := s.kernel.error && !clears } e = true) :
        s.kernel.available e = true := by
      simp only [Kernel.available, Bool.or_eq_true] at h ⊢
      exact h.imp_right (hended e)
    have hshrunk := hs.shrink havail hended
    apply hshrunk.goto
    · intro seen' h
      nomatch h
    · intro _ _ _ h
      nomatch h
  case h_3 seen hpc =>
    split_ifs at hstep with hav
    obtain rfl := Option.some.inj hstep
    apply hs.goto
    · intro seen' _ h
      exact absurd h hav
    · intro _ _ _ h
      nomatch h
  case h_4 =>
    obtain rfl := Option.some.inj hstep
    exact hs
  case h_5 => nomatch hstep

/-- A short transfer is noted with what made it short. -/
theorem Edge.note_step (hs : Edge c s) (hstep : s.noteTransfer c d = some s') : Edge c s' := by
  unfold State.noteTransfer at hstep
  split at hstep
  case h_1 seen bytes asked hpc =>
    obtain rfl := Option.some.inj hstep
    constructor
    · intro e seen' h havail
      rcases eq_or_ne e d with rfl | hne
      · simp only [State.goto, Function.update_self] at h
        nomatch h
      · simp only [State.goto, Function.update_of_ne hne] at h
        exact hs.held e seen' h havail
    · intro e seen' bytes' asked' h h1 h2 h3 havail
      rcases eq_or_ne e d with rfl | hne
      · simp only [State.goto, Function.update_self, reduceCtorEq] at h
      · simp only [State.goto, Function.update_of_ne hne] at h
        exact hs.short e seen' bytes' asked' h h1 h2 h3 havail
    · intro e h havail
      rcases eq_or_ne e d with rfl | hne
      · simp only [State.goto, Function.update_self, Config.byteStream, Bool.and_eq_true,
          decide_eq_true_eq] at h ⊢
        obtain ⟨⟨⟨hkind, -⟩, hbytes⟩, hlt⟩ := h
        exact hs.short e seen bytes asked hpc hkind hbytes hlt havail
      · simp only [State.goto, Function.update_of_ne hne] at h ⊢
        exact hs.exhausted e h havail
    · exact hs.ended
    · exact hs.closedReady
  case h_2 => nomatch hstep

/-- A transfer is skipped only where a newer report is due. -/
theorem Edge.attempt_step (hs : Edge c s) (hstep : s.attempt d = some s') : Edge c s' := by
  unfold State.attempt at hstep
  split at hstep
  case h_1 seen hpc =>
    obtain rfl := Option.some.inj hstep
    split_ifs with hex
    · simp only [State.isExhausted, Bool.and_eq_true, decide_eq_true_eq, Bool.not_eq_true'] at hex
      obtain ⟨⟨hex, rfl⟩, hclosed⟩ := hex
      apply hs.goto
      · intro seen h havail
        obtain rfl := Option.some.inj h
        refine (hs.exhausted d hex havail).resolve_right ?_
        rw [hclosed]
        exact Bool.false_ne_true
      · intro _ _ _ h
        nomatch h
    · apply hs.keep
      · intro _ h
        nomatch h
      · intro _ _ _ h
        nomatch h
  case h_2 => nomatch hstep

/-- Every step that brings no count round keeps the edge-triggered invariant. -/
theorem Edge.step (hevery : c.everyArrivalReported = true) (hs : Edge c s) {a : Action}
    (hwrap : noWrap s a = true) (hstep : step c s a = some s') : Edge c s' := by
  cases a with
  | arrive arrival =>
    obtain rfl := Option.some.inj hstep
    exact hs.pending rfl (by simp only [State.arrive, hevery, Bool.or_true])
  | enter =>
    simp only [Readiness.step.eq_def, State.enter] at hstep
    split at hstep
    · rename_i hpoller
      obtain rfl := Option.some.inj hstep
      apply hs.poller <;> simp [hpoller, PollerPc.delivers, PollerPc.closes]
    · nomatch hstep
  | report events =>
    simp only [Readiness.step.eq_def, State.report] at hstep
    split at hstep
    · split_ifs at hstep with hcover
      obtain rfl := Option.some.inj hstep
      exact Edge.report hevery hcover
    · nomatch hstep
  | giveUp =>
    simp only [Readiness.step.eq_def, State.giveUp] at hstep
    split at hstep
    · rename_i hpoller
      obtain rfl := Option.some.inj hstep
      apply hs.poller <;> simp [hpoller, PollerPc.delivers, PollerPc.closes]
    · nomatch hstep
  | collect => exact hs.collect_step hevery hwrap hstep
  | attempt d => exact hs.attempt_step hstep
  | call d outcome => exact hs.call_step hevery hstep
  | noteTransfer d => exact hs.note_step hstep
  | count _ _ | waitFor _ | watch _ | work _ | wakeUp _ | leave _ | unwatch _ =>
    obtain ⟨p, hp⟩ := party_proceeds rfl hstep
    exact hs.proceeds hp

/-! ### Level-triggered reports with one-shot interest -/

/-- What holds between the table of `poll`, the counts and the parties. -/
structure Level (c : Config) (s : State) : Prop where
  armed : ∀ d seen, (s.pc d).armedFor = some seen →
    s.armed d = true ∨ s.poller.delivers c d = true ∨ s.events d ≠ seen
  notExhausted : ∀ d, s.exhausted d = false
  notSkipped : ∀ d seen, s.pc d ≠ .skipped seen

/-- A registration starts sound. -/
theorem Level.initial (kernel : Kernel) (connecting : Bool) :
    Level c (initial c kernel connecting) := by
  refine ⟨?_, fun _ ↦ rfl, ?_⟩
  · intro d seen h
    cases d <;> cases connecting <;> nomatch h
  · intro d seen h
    cases d <;> cases connecting <;> nomatch h

/-- A party goes on. -/
theorem Level.goto (hs : Level c s) {p : Pc}
    (harmed : ∀ seen, p.armedFor = some seen →
      s.armed d = true ∨ s.poller.delivers c d = true ∨ s.events d ≠ seen)
    (hskipped : ∀ seen, p ≠ .skipped seen) : Level c (s.goto d p) := by
  refine ⟨?_, hs.notExhausted, ?_⟩
  · intro e seen h
    rcases eq_or_ne e d with rfl | hne
    · simp only [State.goto, Function.update_self] at h
      exact harmed seen h
    · simp only [State.goto, Function.update_of_ne hne] at h
      exact hs.armed e seen h
  · intro e seen h
    rcases eq_or_ne e d with rfl | hne
    · simp only [State.goto, Function.update_self] at h
      exact hskipped seen h
    · simp only [State.goto, Function.update_of_ne hne] at h
      exact hs.notSkipped e seen h

/-- A party goes on outside `tryCall`. -/
theorem Level.proceeds (hs : Level c s) (hpoll : c.everyArrivalReported = false) {p : Pc}
    (hp : Proceeds c s s' d p) : Level c s' := by
  refine ⟨?_, ?_, ?_⟩
  · intro e seen h
    rw [hp.pc] at h
    rw [hp.poller, hp.events]
    rcases eq_or_ne e d with rfl | hne
    · rw [Function.update_self] at h
      rcases hp.arms hpoll seen h with h | h
      · exact Or.inl h
      · exact (hs.armed e seen h).imp_left (hp.armed e)
    · rw [Function.update_of_ne hne] at h
      exact (hs.armed e seen h).imp_left (hp.armed e)
  · intro e
    rw [hp.exhausted]
    exact hs.notExhausted e
  · intro e seen h
    rw [hp.pc] at h
    rcases eq_or_ne e d with rfl | hne
    · rw [Function.update_self] at h
      exact hs.notSkipped e seen (hp.skipped seen h)
    · rw [Function.update_of_ne hne] at h
      exact hs.notSkipped e seen h

/-- A report that is taken up clears the bits of what it counts. -/
theorem Level.collectLocked (hs : Level c s) {e : Events} (hpoll : c.everyArrivalReported = false)
    (hpoller : s.poller = .reported e) : Level c (s.collectLocked e) := by
  refine ⟨?_, hs.notExhausted, hs.notSkipped⟩
  intro d seen h
  rcases hs.armed d seen h with harmed | hdelivers | hevents
  · have hwatched : (s.armed .readable || s.armed .writable) = true := by
      cases d <;> simp only [harmed, Bool.true_or, Bool.or_true]
    by_cases hready : e.pollReady d = true
    · refine Or.inr (Or.inl ?_)
      simpa only [State.collectLocked, hwatched, if_true, PollerPc.delivers] using hready
    · exact Or.inl (by simp only [State.collectLocked, harmed, hready, Bool.not_false, Bool.and_true])
  · simp only [hpoller, PollerPc.delivers, hpoll, Bool.false_and, Bool.false_eq_true] at hdelivers
  · exact Or.inr (Or.inr hevents)

/-- The poller's steps in `collect` keep the invariant of `poll`. -/
theorem Level.collect_step (hs : Level c s) (hpoll : c.everyArrivalReported = false)
    (hwrap : noWrap s .collect = true) (hstep : s.collect c = some s') : Level c s' := by
  rcases collect_cases hwrap hstep with ⟨e, hpoller, rfl⟩ | ⟨ready, closed, hpoller, rfl⟩ |
    ⟨ready, d, p, hc, hfresh, rfl⟩
  · rw [hpoll]
    exact hs.collectLocked hpoll hpoller
  · refine ⟨?_, hs.notExhausted, hs.notSkipped⟩
    intro d seen h
    have := hs.armed d seen h
    simpa only [hpoller, PollerPc.delivers] using this
  · obtain ⟨hpc, -, -, hexhausted, -, -, harmed⟩ := s.bump_frame ready d
    refine ⟨?_, ?_, ?_⟩
    · intro e seen h
      simp only [hpc] at h
      simp only [harmed]
      refine (hs.armed e seen h).imp_right fun h' ↦ hc.moves h' ?_
      rintro rfl hr
      apply State.ne_of_fresh (hfresh hr)
      cases hcase : s.pc e <;> simp_all only [Pc.armedFor, Pc.relies, reduceCtorEq]
    · intro e
      simp only [hexhausted, hs.notExhausted]
    · intro e seen
      simp only [hpc]
      exact hs.notSkipped e seen

/-- `tryCall` never skips its system call with `poll`. -/
theorem Level.tryCall_step (hs : Level c s) (hpoll : c.everyArrivalReported = false)
    (outcome : Outcome) (hstep : s.attempt d = some s' ∨ s.call c d outcome = some s' ∨
      s.noteTransfer c d = some s') : Level c s' := by
  rcases hstep with hstep | hstep | hstep
  · unfold State.attempt at hstep
    split at hstep
    · obtain rfl := Option.some.inj hstep
      simp only [State.isExhausted, hs.notExhausted, Bool.false_and, Bool.false_eq_true, if_false]
      exact hs.goto (by simp) (by simp)
    · nomatch hstep
  · unfold State.call at hstep
    split at hstep
    · obtain ⟨k, -, rfl⟩ := Option.map_eq_some_iff.mp hstep
      have hk : Level c { s with kernel := k } := ⟨hs.armed, hs.notExhausted, hs.notSkipped⟩
      exact hk.goto (by simp) (by simp)
    · obtain rfl := Option.some.inj hstep
      rename_i clears _
      have hk : Level c { s with
          kernel := { s.kernel with error := s.kernel.error && !clears } } :=
        ⟨hs.armed, hs.notExhausted, hs.notSkipped⟩
      exact hk.goto (by simp) (by simp)
    · split_ifs at hstep
      obtain rfl := Option.some.inj hstep
      exact hs.goto (by simp) (by simp)
    · obtain rfl := Option.some.inj hstep
      exact hs
    · nomatch hstep
  · unfold State.noteTransfer at hstep
    split at hstep
    · obtain rfl := Option.some.inj hstep
      rename_i seen bytes asked _
      have hk : Level c { s with
          exhausted := Function.update s.exhausted d
            (c.byteStream && decide (bytes ≠ 0) && decide (bytes < asked))
          exhaustedAt := Function.update s.exhaustedAt d seen } := by
        refine ⟨hs.armed, ?_, hs.notSkipped⟩
        intro e
        simp only [Config.byteStream, hpoll, Bool.and_false, Bool.false_and, Function.update_apply]
        split_ifs
        · rfl
        · exact hs.notExhausted e
      exact hk.goto (by simp) (by simp)
    · nomatch hstep

/-- Every step that brings no count round keeps the invariant of `poll`. -/
theorem Level.step (hpoll : c.everyArrivalReported = false) (hs : Level c s) {a : Action}
    (hwrap : noWrap s a = true) (hstep : step c s a = some s') : Level c s' := by
  cases a with
  | arrive arrival =>
    obtain rfl := Option.some.inj hstep
    exact ⟨hs.armed, hs.notExhausted, hs.notSkipped⟩
  | enter =>
    simp only [Readiness.step.eq_def, State.enter] at hstep
    split at hstep
    · rename_i hpoller
      obtain rfl := Option.some.inj hstep
      refine ⟨?_, hs.notExhausted, hs.notSkipped⟩
      simpa only [hpoller, PollerPc.delivers] using hs.armed
    · nomatch hstep
  | report events =>
    simp only [Readiness.step.eq_def, State.report] at hstep
    split at hstep
    · rename_i hpoller
      rw [hpoll] at hstep
      simp only [Bool.false_eq_true, if_false] at hstep
      split_ifs at hstep
      obtain rfl := Option.some.inj hstep
      refine ⟨?_, hs.notExhausted, hs.notSkipped⟩
      simpa only [hpoller, PollerPc.delivers, hpoll, Bool.false_and] using hs.armed
    · nomatch hstep
  | giveUp =>
    simp only [Readiness.step.eq_def, State.giveUp] at hstep
    split at hstep
    · rename_i hpoller
      obtain rfl := Option.some.inj hstep
      refine ⟨?_, hs.notExhausted, hs.notSkipped⟩
      simpa only [hpoller, PollerPc.delivers] using hs.armed
    · nomatch hstep
  | collect => exact hs.collect_step hpoll hwrap hstep
  | attempt d => exact hs.tryCall_step hpoll .wouldBlock (Or.inl hstep)
  | call d outcome => exact hs.tryCall_step hpoll outcome (Or.inr (Or.inl hstep))
  | noteTransfer d =>
    exact hs.tryCall_step hpoll .wouldBlock (Or.inr (Or.inr hstep))
  | count _ _ | waitFor _ | watch _ | work _ | wakeUp _ | leave _ | unwatch _ =>
    obtain ⟨p, hp⟩ := party_proceeds rfl hstep
    exact hs.proceeds hpoll hp

/-! ### The contract -/

/-- An edge-triggered poller meets the contract. -/
theorem Edge.contract (hevery : c.everyArrivalReported = true) (hs : Edge c s) : Contract c s := by
  have hcoming (d : Interest) (seen : ℕ) (hholds : (s.pc d).holds = some seen)
      (hevents : s.events d = seen) (havail : s.available d = true) : s.coming c d := by
    rcases hs.held d seen hholds havail with h | h | h
    · exact Or.inr (by rw [if_pos hevery]; exact h)
    · exact Or.inl h
    · exact absurd hevents h
  constructor
  · intro d seen hpc _ hevents havail
    refine hcoming d seen ?_ hevents havail
    cases hcase : s.pc d <;> simp_all only [Pc.awaits, Pc.holds, reduceCtorEq]
  · intro d seen hpc hevents havail
    exact hcoming d seen (by rw [hpc, Pc.holds]) hevents havail

/-- `poll` meets the contract. -/
theorem Level.contract (hpoll : c.everyArrivalReported = false) (hs : Level c s) :
    Contract c s := by
  constructor
  · intro d seen hpc _ hevents _
    by_cases harm : s.pc d = .waitArm seen
    · exact Or.inr (by simp only [hpoll]; exact Or.inr ⟨seen, harm⟩)
    · have harmed : (s.pc d).armedFor = some seen := by
        cases hcase : s.pc d <;>
          simp_all only [Pc.awaits, Pc.armedFor, reduceCtorEq, Option.some.injEq, not_true_eq_false]
      rcases hs.armed d seen harmed with h | h | h
      · exact Or.inr (by simp only [hpoll]; exact Or.inl h)
      · exact Or.inl h
      · exact absurd hevents h
  · intro d seen hpc
    exact absurd hpc (hs.notSkipped d seen)

/-- With either poller and for every kind of descriptor, as long as no event count comes round to a
value still in use, nobody waits and no transfer is skipped while something is there and no report
is coming. -/
theorem readiness_not_lost (c : Config) {s : State}
    (hs : (system c).ReachableUnder (fun s a ↦ noWrap s a = true) s) : Contract c s := by
  by_cases hevery : c.everyArrivalReported = true
  · have hedge : Edge c s := by
      refine System.ReachableUnder.invariant ?_ ?_ hs
      · rintro s ⟨kernel, connecting, rfl⟩
        exact Edge.initial hevery kernel connecting
      · intro s a t hsound hwrap hstep
        exact hsound.step hevery hwrap hstep
    exact hedge.contract hevery
  · have hpoll : c.everyArrivalReported = false := by
      rwa [Bool.not_eq_true] at hevery
    have hlevel : Level c s := by
      refine System.ReachableUnder.invariant ?_ ?_ hs
      · rintro s ⟨kernel, connecting, rfl⟩
        exact Level.initial kernel connecting
      · intro s a t hsound hwrap hstep
        exact hsound.step hpoll hwrap hstep
    exact hlevel.contract hpoll

/-- A reader of a datagram socket under `poll` waits with its bit set while a datagram comes in. -/
def pollWaiting : State :=
  ((system ⟨false, .datagramSocket⟩).runUnder noWrap
    (initial ⟨false, .datagramSocket⟩ ⟨fun _ ↦ false, false, false, false⟩ false)
    [.count .readable true, .attempt .readable, .call .readable .wouldBlock, .waitFor .readable,
      .work .readable, .work .readable, .arrive (.data .readable)]).get (by decide)

theorem readiness_not_lost_pollWaiting :
    (pollWaiting.pc .readable = .waiting 0 ∧ pollWaiting.available .readable = true) ∧
      Contract ⟨false, .datagramSocket⟩ pollWaiting :=
  ⟨by decide, readiness_not_lost _
    (System.reachableUnder_of_run ⟨_, false, rfl⟩ (Option.some_get _).symm)⟩

/-! ### A count that comes round -/

/-- A stream socket with an edge-triggered poller. -/
def streamConfig : Config := ⟨true, .streamSocket⟩

/-- Nothing is on the descriptor. -/
def nothing : Kernel := ⟨fun _ ↦ false, false, false, false⟩

/-- The reader took one byte of the two it asked for when the count was 0; bytes have come since,
with one report each, and are not read. -/
def unread (reports : ℕ) : State where
  kernel := { nothing with data := Function.update nothing.data .readable true }
  pending := false
  armed := fun _ ↦ false
  events := Function.update (fun _ ↦ 0) .readable (reports % countModulus)
  waker := fun _ ↦ false
  cancelled := fun _ ↦ false
  closed := fun _ ↦ false
  exhausted := Function.update (fun _ ↦ false) .readable true
  exhaustedAt := fun _ ↦ 0
  poller := .idle
  pc := Function.update (fun _ ↦ .idle) .readable (.counted 0)

/-- Bytes arrive and are reported. -/
def arrivalReported : List Action :=
  [.arrive (.data .readable), .enter, .report ⟨true, false, false, false, false, false⟩,
    .collect, .collect, .collect, .collect]

/-- One more report. -/
theorem run_unread (reports : ℕ) :
    (system streamConfig).run (unread reports) arrivalReported = some (unread (reports + 1)) := by
  have hcount : (reports % countModulus + 1) % countModulus = (reports + 1) % countModulus := by
    rw [Nat.mod_add_mod]
  simp [System.run, System.runUnder, system, arrivalReported, step.eq_def, State.arrive, State.enter,
    State.report, State.collect, State.bump, streamConfig, Kernel.arrive, Events.coversEpoll,
    Events.epollReady, Events.epollClosed, unread, nothing, hcount]
  funext d
  cases d <;> rfl

/-- The reader takes one byte of the two it asks for. -/
theorem run_shortRead :
    (system streamConfig).run (initial streamConfig nothing false)
      [.count .readable true, .attempt .readable, .arrive (.data .readable),
        .call .readable (.transferred 1 2 false), .noteTransfer .readable] =
      some { unread 0 with kernel := nothing, pending := true } := by
  simp [System.run, System.runUnder, system, step.eq_def, State.arrive, streamConfig, Kernel.arrive,
    unread, nothing, State.count, State.attempt, State.call, State.transfer, State.noteTransfer,
    State.goto, initial, State.isExhausted, Config.byteStream, Kind.isStream]

/-- The first report after the short read. -/
theorem run_firstReport :
    (system streamConfig).run { unread 0 with kernel := nothing, pending := true }
      arrivalReported = some (unread 1) := by
  have harrive : (system streamConfig).step { unread 0 with kernel := nothing, pending := true }
      (.arrive (.data .readable)) = (system streamConfig).step (unread 0)
        (.arrive (.data .readable)) := by
    simp [system, step.eq_def, State.arrive, Kernel.arrive, unread, streamConfig]
  have hrun := run_unread 0
  simp only [System.run, System.runUnder, arrivalReported] at hrun ⊢
  rwa [harrive]

/-- Any number of reports can come before the reader tries again. -/
theorem reachable_unread (reports : ℕ) :
    (system streamConfig).Reachable (unread (reports + 1)) := by
  induction reports with
  | zero =>
    exact System.reachable_of_run ⟨nothing, false, rfl⟩
      (System.runUnder_append run_shortRead run_firstReport)
  | succ n ih =>
    have hrun := run_unread (n + 1)
    exact (System.ReachableUnder.runUnder (ih.mono fun _ _ _ ↦ rfl) hrun).reachable

/-- The reader tries again and waits, with the count where it was at its short read. -/
def lapped : State :=
  ((system streamConfig).run (unread 0)
    [.count .readable true, .attempt .readable, .waitFor .readable, .work .readable]).get
    (by decide)

/-- The counts are 32 bits wide. -/
theorem reachable_lapped : (system streamConfig).Reachable lapped := by
  have hround : unread (2 ^ 32 - 1 + 1) = unread 0 := by
    simp only [unread, countModulus, Nat.reducePow, Nat.reduceSub, Nat.reduceAdd, Nat.reduceMod]
  have hreach : (system streamConfig).Reachable (unread 0) := hround ▸ reachable_unread (2 ^ 32 - 1)
  have hrun := (Option.some_get (show ((system streamConfig).run (unread 0)
    [.count .readable true, .attempt .readable, .waitFor .readable, .work .readable]).isSome by
      decide)).symm
  exact (System.ReachableUnder.runUnder (hreach.mono fun _ _ _ ↦ rfl) hrun).reachable

/-- After 2^32 reports the reader finds the count of its short read, skips the system call, and
waits with bytes to read and no report to come. -/
theorem readiness_lost_after_wrap :
    (system streamConfig).Reachable lapped ∧ lapped.pc .readable = .waiting 0 ∧
      lapped.available .readable = true ∧ ¬ Contract streamConfig lapped := by
  refine ⟨reachable_lapped, by decide, by decide, ?_⟩
  intro hcontract
  have hcoming := hcontract.waiting .readable 0 (by decide) (by decide) (by decide) (by decide)
  rcases hcoming with h | h
  · exact absurd h (by decide)
  · have hpending : lapped.pending = true := h
    exact absurd hpending (by decide)

end Stackfull.Io.Readiness
