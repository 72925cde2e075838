import Stackfull.Sched.Keeper
import Mathlib.Algebra.BigOperators.Group.Finset.Basic
import Mathlib.Algebra.Order.BigOperators.Group.Finset

/-!
# Searchers, idle bits and the role

What the words `searching`, `idleMask` and `timekeeper` say of the workers: `searching` counts the
workers that search, a set idle bit belongs to a worker between `markIdle` and `clearIdle`, and the
timekeeper is the one worker that has the role, for a sleep or in `maintain`.
-/

set_option autoImplicit false
set_option relaxedAutoImplicit false
set_option linter.dupNamespace false

namespace Stackfull.Sched.Keeper

open Stackfull.Lib
open Stackfull.Sched.Tasks (Agent)

universe u

variable {n : ℕ} {κ : Type u} [DecidableEq κ]
variable {c : Config} {s s' : State n κ} {w : Fin n}

/-! ### Where a worker's step takes it -/

section Places

variable {found missed p : WorkerPc}

omit [DecidableEq κ] in
@[simp]
theorem pc_goto : (s.goto w p).pc w = p := by
  simp [State.goto]

omit [DecidableEq κ] in
@[simp]
theorem pc_enterSearch : (s.enterSearch w p).pc w = p := by
  simp [State.enterSearch]

omit [DecidableEq κ] in
@[simp]
theorem pc_leaveSearch : (s.leaveSearch w p).pc w = p := by
  simp [State.leaveSearch]

omit [DecidableEq κ] in
@[simp]
theorem pc_releaseTimekeeper : (s.releaseTimekeeper w p).pc w = p := by
  simp [State.releaseTimekeeper]

omit [DecidableEq κ] in
@[simp]
theorem pc_takeLocal :
    (s.takeLocal w found missed).pc w = if s.hasLocalWork w then found else missed := by
  unfold State.takeLocal State.hasLocalWork
  split_ifs <;> simp_all

omit [DecidableEq κ] in
@[simp]
theorem pc_popInjection :
    (s.popInjection w found missed).pc w = if 0 < s.injection then found else missed := by
  unfold State.popInjection
  split_ifs <;> simp

omit [DecidableEq κ] in
@[simp]
theorem pc_searchRead :
    (s.searchRead w).pc w =
      if s.searching < s.searchLimit then .searchSwap s.searching else .searchPop false := by
  unfold State.searchRead
  split_ifs <;> simp

omit [DecidableEq κ] in
@[simp]
theorem pc_spinRead :
    (s.spinRead w).pc w = if maxSpinners ≤ s.searching then .marking else .spinSwap s.searching := by
  unfold State.spinRead
  split_ifs <;> simp

@[simp]
theorem pc_setCall {a : Agent n κ} {q : CallPc n} : (s.setCall a q).pc = s.pc := rfl

@[simp]
theorem pc_placeRest {count : ℕ} : (s.placeRest w count p).pc w = p := by
  unfold State.placeRest
  split_ifs <;> simp

@[simp]
theorem pc_placeMaintained : (s.placeMaintained w).pc w = .popTop := by
  unfold State.placeMaintained
  split_ifs <;> simp

@[simp]
theorem pc_placeKeeping :
    (s.placeKeeping w).pc w = if s.gathered w = 0 then .top else .starting := by
  unfold State.placeKeeping
  split_ifs <;> simp_all

end Places

/-! ### The three words -/

/-- The worker counts in `searching`. -/
def WorkerPc.searches : WorkerPc → Bool
  | .searchPop true | .searchSteal | .searchPopAgain | .searchEnd _ | .spinLook | .spinTime
  | .spinEnd _ => true
  | _ => false

/-- The worker is between `markIdle` and `clearIdle`. -/
def WorkerPc.idles : WorkerPc → Bool
  | .parkTake | .parkPop | .parkClear | .sleepClaim | .parked | .mark | .scan | .loadRampUp _
  | .publish _ | .asleep _ | .release | .fire | .answer | .answerSwap _ | .clearing => true
  | _ => false

/-- The worker has the role for a sleep. -/
def WorkerPc.keeps : WorkerPc → Bool
  | .mark | .scan | .loadRampUp _ | .publish _ | .asleep _ | .release => true
  | _ => false

/-- The worker has the role in `maintain`. -/
def WorkerPc.maintains : WorkerPc → Bool
  | .maintainPoll | .maintainRelease => true
  | _ => false

/-- The worker has the role. -/
def WorkerPc.inRole (pc : WorkerPc) : Bool :=
  pc.keeps || pc.maintains

/-- What the three words say of the workers. -/
structure Base (s : State n κ) : Prop where
  searching : s.searching = ∑ x, (s.pc x).searches.toNat
  idle : ∀ x, x ∈ s.idleMask → (s.pc x).idles = true
  role : ∀ x, s.timekeeper = some x ↔ (s.pc x).inRole = true

/-- What one step of a worker does to them. -/
structure Loop (s s' : State n κ) (w : Fin n) (p : WorkerPc) : Prop where
  pc : s'.pc = Function.update s.pc w p
  searching : s'.searching + (s.pc w).searches.toNat = s.searching + p.searches.toNat
  idle : ∀ x, x ∈ s'.idleMask → x ≠ w → x ∈ s.idleMask
  idleSelf : w ∈ s'.idleMask → p.idles = true
  role : s'.timekeeper = some w ↔ p.inRole = true
  roleOther : ∀ x, x ≠ w → (s'.timekeeper = some x ↔ s.timekeeper = some x)

omit [DecidableEq κ] in
/-- A step of a worker keeps the words right. -/
theorem Base.loop (hb : Base s) {p : WorkerPc} (hl : Loop s s' w p) : Base s' := by
  constructor
  · have hrest : ∑ x ∈ Finset.univ.erase w, (Function.update s.pc w p x).searches.toNat =
        ∑ x ∈ Finset.univ.erase w, (s.pc x).searches.toNat := by
      apply Finset.sum_congr rfl
      intro x hx
      rw [Function.update_of_ne (Finset.ne_of_mem_erase hx)]
    have hold := Finset.add_sum_erase Finset.univ (fun x ↦ (s.pc x).searches.toNat)
      (Finset.mem_univ w)
    have hnew := Finset.add_sum_erase Finset.univ
      (fun x ↦ (Function.update s.pc w p x).searches.toNat) (Finset.mem_univ w)
    have hcount := hl.searching
    have hsearching := hb.searching
    simp only [Function.update_self] at hold hnew
    rw [hl.pc]
    omega
  · intro x hx
    rw [hl.pc]
    rcases eq_or_ne x w with rfl | hne
    · rw [Function.update_self]
      exact hl.idleSelf hx
    · rw [Function.update_of_ne hne]
      exact hb.idle x (hl.idle x hx hne)
  · intro x
    rw [hl.pc]
    rcases eq_or_ne x w with rfl | hne
    · rw [Function.update_self]
      exact hl.role
    · rw [Function.update_of_ne hne, hl.roleOther x hne]
      exact hb.role x

omit [DecidableEq κ] in
/-- Somebody searches if `searching` is not 0. -/
theorem Base.exists_searches (hb : Base s) (h : 0 < s.searching) :
    ∃ x, (s.pc x).searches = true := by
  rw [hb.searching] at h
  obtain ⟨x, -, hx⟩ := Finset.exists_ne_zero_of_sum_ne_zero (Nat.pos_iff_ne_zero.mp h)
  refine ⟨x, ?_⟩
  cases hcase : (s.pc x).searches with
  | false => exact absurd (by rw [hcase]; rfl) hx
  | true => rfl

omit [DecidableEq κ] in
/-- A searcher is counted. -/
theorem Base.searching_pos (hb : Base s) (h : (s.pc w).searches = true) : 0 < s.searching := by
  rw [hb.searching]
  have hle := Finset.single_le_sum (f := fun x ↦ (s.pc x).searches.toNat)
    (fun _ _ ↦ Nat.zero_le _) (Finset.mem_univ w)
  simp only [h] at hle
  exact hle

/-- A move from one place to another that leaves the three words right. -/
structure WorkerPc.Same (p q : WorkerPc) : Prop where
  searches : q.searches = p.searches
  idles : p.idles = true → q.idles = true
  inRole : q.inRole = p.inRole

theorem WorkerPc.Same.of_eq {p q : WorkerPc}
    (h : (q.searches, p.idles && !q.idles, q.inRole) = (p.searches, false, p.inRole)) :
    p.Same q := by
  simp only [Prod.mk.injEq, Bool.and_eq_false_iff, Bool.not_eq_false'] at h
  obtain ⟨hsearches, hidles, hrole⟩ := h
  exact ⟨hsearches, fun hp ↦ hidles.resolve_left (by simp [hp]), hrole⟩

theorem WorkerPc.Same.of_pc {pc p q : WorkerPc} (hpc : pc = p)
    (h : (q.searches, p.idles && !q.idles, q.inRole) = (p.searches, false, p.inRole)) :
    pc.Same q :=
  hpc ▸ .of_eq h

theorem WorkerPc.Same.trans {p q r : WorkerPc} (hpq : p.Same q) (hqr : q.Same r) : p.Same r :=
  ⟨hqr.searches.trans hpq.searches, fun hp ↦ hqr.idles (hpq.idles hp),
    hqr.inRole.trans hpq.inRole⟩

theorem WorkerPc.Same.ite {p q r : WorkerPc} {b : Prop} [Decidable b] (hp : r.Same p)
    (hq : r.Same q) : r.Same (if b then p else q) := by
  split_ifs
  · exact hp
  · exact hq

omit [DecidableEq κ] in
/-- A step that leaves the three words alone. -/
theorem Base.quiet (hb : Base s) {p : WorkerPc} (hpc : s'.pc = Function.update s.pc w p)
    (hsearching : s'.searching = s.searching) (hmask : s'.idleMask = s.idleMask)
    (hkeeper : s'.timekeeper = s.timekeeper) (hsame : (s.pc w).Same p) : Loop s s' w p := by
  obtain ⟨hsearches, hidles, hrole⟩ := hsame
  refine ⟨hpc, ?_, ?_, ?_, ?_, ?_⟩
  · rw [hsearching, hsearches]
  · intro x hx _
    rwa [hmask] at hx
  · intro hw
    rw [hmask] at hw
    exact hidles (hb.idle w hw)
  · rw [hkeeper, hrole]
    exact hb.role w
  · intro x _
    rw [hkeeper]

omit [DecidableEq κ] in
/-- `takeLocal` from one place to another. -/
theorem Base.takeLocal (hb : Base s) {found missed : WorkerPc} (hfound : (s.pc w).Same found)
    (hmissed : (s.pc w).Same missed) :
    ∃ p, Loop s (s.takeLocal w found missed) w p := by
  unfold State.takeLocal
  split_ifs
  · exact ⟨found, hb.quiet rfl rfl rfl rfl hfound⟩
  · exact ⟨found, hb.quiet rfl rfl rfl rfl hfound⟩
  · exact ⟨missed, hb.quiet rfl rfl rfl rfl hmissed⟩

omit [DecidableEq κ] in
/-- `popInjection` from one place to another. -/
theorem Base.popInjection (hb : Base s) {found missed : WorkerPc} (hfound : (s.pc w).Same found)
    (hmissed : (s.pc w).Same missed) :
    ∃ p, Loop s (s.popInjection w found missed) w p := by
  unfold State.popInjection
  split_ifs
  · exact ⟨found, hb.quiet rfl rfl rfl rfl hfound⟩
  · exact ⟨missed, hb.quiet rfl rfl rfl rfl hmissed⟩

omit [DecidableEq κ] in
/-- The role changes hands. -/
theorem Base.handRole (hb : Base s) {p : WorkerPc} (hpc : s'.pc = Function.update s.pc w p)
    (hsearching : s'.searching = s.searching) (hmask : s'.idleMask = s.idleMask)
    (hsearches : p.searches = (s.pc w).searches)
    (hidles : (s.pc w).idles = true → p.idles = true)
    (hkeeper : (s.timekeeper = none ∧ s'.timekeeper = some w ∧ p.inRole = true) ∨
      (s.timekeeper = some w ∧ s'.timekeeper = none ∧ p.inRole = false)) : Loop s s' w p := by
  refine ⟨hpc, ?_, ?_, ?_, ?_, ?_⟩
  · rw [hsearching, hsearches]
  · intro x hx _
    rwa [hmask] at hx
  · intro hw
    rw [hmask] at hw
    exact hidles (hb.idle w hw)
  · grind -linarith
  · grind -linarith

omit [DecidableEq κ] in
/-- The role is given up. -/
theorem Base.releaseTimekeeper (hb : Base s) {p : WorkerPc} (hrole : (s.pc w).inRole = true)
    (hsearches : p.searches = (s.pc w).searches)
    (hidles : (s.pc w).idles = true → p.idles = true) (hp : p.inRole = false) :
    Loop s (s.releaseTimekeeper w p) w p := by
  have hkeeper : s.timekeeper = some w := (hb.role w).mpr hrole
  refine hb.handRole rfl rfl rfl hsearches hidles (Or.inr ⟨hkeeper, ?_, hp⟩)
  simp only [State.releaseTimekeeper, State.goto, hkeeper, if_true]

omit [DecidableEq κ] in
/-- A worker becomes a searcher. -/
theorem Base.enterSearch (hb : Base s) {p : WorkerPc} (hfrom : (s.pc w).searches = false)
    (hp : p.searches = true) (hidles : (s.pc w).idles = true → p.idles = true)
    (hrole : p.inRole = (s.pc w).inRole) : Loop s (s.enterSearch w p) w p := by
  refine ⟨rfl, ?_, fun _ hx _ ↦ hx, fun hw ↦ hidles (hb.idle w hw), ?_, fun _ _ ↦ Iff.rfl⟩
  · rw [hfrom, hp]
    rfl
  · rw [hrole]
    exact hb.role w

omit [DecidableEq κ] in
/-- A worker ceases to be a searcher. -/
theorem Base.leaveSearch (hb : Base s) {p : WorkerPc} (hfrom : (s.pc w).searches = true)
    (hp : p.searches = false) (hidles : (s.pc w).idles = true → p.idles = true)
    (hrole : p.inRole = (s.pc w).inRole) : Loop s (s.leaveSearch w p) w p := by
  have hpos := hb.searching_pos hfrom
  refine ⟨rfl, ?_, fun _ hx _ ↦ hx, fun hw ↦ hidles (hb.idle w hw), ?_, fun _ _ ↦ Iff.rfl⟩
  · rw [hfrom, hp]
    simp only [State.leaveSearch, State.goto, Bool.toNat_true, Bool.toNat_false]
    omega
  · rw [hrole]
    exact hb.role w

omit [DecidableEq κ] in
/-- A worker clears its idle bit. -/
theorem Base.eraseIdle (hb : Base s) {p : WorkerPc} (hpc : s'.pc = Function.update s.pc w p)
    (hsearching : s'.searching = s.searching) (hmask : s'.idleMask = s.idleMask.erase w)
    (hkeeper : s'.timekeeper = s.timekeeper) (hsearches : p.searches = (s.pc w).searches)
    (hrole : p.inRole = (s.pc w).inRole) : Loop s s' w p := by
  refine ⟨hpc, ?_, ?_, ?_, ?_, ?_⟩
  · rw [hsearching, hsearches]
  · intro x hx _
    rw [hmask] at hx
    exact Finset.mem_of_mem_erase hx
  · intro hw
    rw [hmask] at hw
    exact absurd rfl (Finset.ne_of_mem_erase hw)
  · rw [hkeeper, hrole]
    exact hb.role w
  · intro x _
    rw [hkeeper]

omit [DecidableEq κ] in
/-- The worker's next attempt to become a searcher. -/
theorem Base.searchRead (hb : Base s) (hsame : (s.pc w).Same .searchLoad) :
    ∃ p, Loop s (s.searchRead w) w p := by
  unfold State.searchRead
  split_ifs
  · exact ⟨_, hb.quiet rfl rfl rfl rfl (hsame.trans (.of_eq rfl))⟩
  · exact ⟨_, hb.quiet rfl rfl rfl rfl (hsame.trans (.of_eq rfl))⟩

omit [DecidableEq κ] in
/-- The worker's next attempt to spin. -/
theorem Base.spinRead (hb : Base s) (hsame : (s.pc w).Same .spinLoad) :
    ∃ p, Loop s (s.spinRead w) w p := by
  unfold State.spinRead
  split_ifs
  · exact ⟨_, hb.quiet rfl rfl rfl rfl (hsame.trans (.of_eq rfl))⟩
  · exact ⟨_, hb.quiet rfl rfl rfl rfl (hsame.trans (.of_eq rfl))⟩

/-- A batch is placed. -/
theorem Base.placeRest (hb : Base s) {count : ℕ} {p : WorkerPc} (hsame : (s.pc w).Same p) :
    Loop s (s.placeRest w count p) w p := by
  unfold State.placeRest
  split_ifs
  · exact hb.quiet rfl rfl rfl rfl hsame
  · exact hb.quiet rfl rfl rfl rfl hsame

/-- What a worker's loop does to the three words. -/
theorem Base.work (hb : Base s) {flag : Bool} (hstep : s.work c w flag = some s') :
    ∃ p, Loop s s' w p := by
  unfold State.work at hstep
  cases hpc : s.pc w with
  | running | scan => simp only [hpc, reduceCtorEq] at hstep
  | top | maintaining | parkStart | spinTime | answer =>
    simp only [hpc, Option.some.injEq] at hstep
    subst hstep
    exact ⟨_, hb.quiet rfl rfl rfl rfl (.ite (.of_pc hpc rfl) (.of_pc hpc rfl))⟩
  | searchSteal | fire | loadRampUp t =>
    simp only [hpc, Option.some.injEq] at hstep
    subst hstep
    exact ⟨_, hb.quiet rfl rfl rfl rfl (.of_pc hpc rfl)⟩
  | maintainPoll | mark | publish t | answerSwap t | parkDrain =>
    simp only [hpc, Option.some.injEq] at hstep
    subst hstep
    exact ⟨_, hb.quiet rfl rfl rfl rfl (.of_pc hpc rfl)⟩
  | maintainClaim =>
    simp only [hpc, Option.some.injEq] at hstep
    subst hstep
    split_ifs with hfree
    · exact ⟨_, hb.handRole rfl rfl rfl (by rw [hpc]; rfl) (by simp [hpc, WorkerPc.idles])
        (Or.inl ⟨hfree, rfl, rfl⟩)⟩
    · exact ⟨_, hb.quiet rfl rfl rfl rfl (.of_pc hpc rfl)⟩
  | sleepClaim =>
    simp only [hpc, Option.some.injEq] at hstep
    subst hstep
    split_ifs with hfree
    · exact ⟨_, hb.handRole rfl rfl rfl (by rw [hpc]; rfl) (by simp [hpc, WorkerPc.idles])
        (Or.inl ⟨hfree, rfl, rfl⟩)⟩
    · exact ⟨_, hb.quiet rfl rfl rfl rfl (.of_pc hpc rfl)⟩
  | maintainRelease | release =>
    simp only [hpc, Option.some.injEq] at hstep
    subst hstep
    exact ⟨_, hb.releaseTimekeeper (by rw [hpc]; rfl) (by rw [hpc]; rfl)
      (by simp [hpc, WorkerPc.idles]) rfl⟩
  | maintainPlace =>
    simp only [hpc, Option.some.injEq] at hstep
    subst hstep
    unfold State.placeMaintained
    split_ifs
    · exact ⟨_, hb.quiet rfl rfl rfl rfl (.of_pc hpc rfl)⟩
    · exact ⟨_, hb.quiet rfl rfl rfl rfl (.of_pc hpc rfl)⟩
    · exact ⟨_, hb.placeRest (.of_pc hpc rfl)⟩
  | placing =>
    simp only [hpc, Option.some.injEq] at hstep
    subst hstep
    unfold State.placeKeeping
    split_ifs
    · exact ⟨_, hb.quiet rfl rfl rfl rfl (.of_pc hpc rfl)⟩
    · exact ⟨_, hb.quiet rfl rfl rfl rfl (.of_pc hpc rfl)⟩
    · exact ⟨_, hb.placeRest (.of_pc hpc rfl)⟩
  | popTop | searchPopAgain | parkPop =>
    simp only [hpc, Option.some.injEq] at hstep
    subst hstep
    exact hb.popInjection (.of_pc hpc rfl) (.of_pc hpc rfl)
  | takeLocal | parkTake =>
    simp only [hpc, Option.some.injEq] at hstep
    subst hstep
    exact hb.takeLocal (.of_pc hpc rfl) (.of_pc hpc rfl)
  | sleepTimer relies =>
    simp only [hpc, Option.some.injEq] at hstep
    subst hstep
    exact hb.takeLocal (.of_pc hpc rfl) (.of_pc hpc rfl)
  | searchLoad =>
    simp only [hpc, Option.some.injEq] at hstep
    subst hstep
    exact hb.searchRead (.of_pc hpc rfl)
  | spinLoad =>
    simp only [hpc, Option.some.injEq] at hstep
    subst hstep
    exact hb.spinRead (.of_pc hpc rfl)
  | searchSwap current =>
    simp only [hpc, Option.some.injEq] at hstep
    subst hstep
    split_ifs
    · exact ⟨_, hb.enterSearch (by rw [hpc]; rfl) rfl (by simp [hpc, WorkerPc.idles])
        (by rw [hpc]; rfl)⟩
    · exact hb.searchRead (.of_pc hpc rfl)
  | spinSwap current =>
    simp only [hpc, Option.some.injEq] at hstep
    subst hstep
    split_ifs
    · exact ⟨_, hb.enterSearch (by rw [hpc]; rfl) rfl (by simp [hpc, WorkerPc.idles])
        (by rw [hpc]; rfl)⟩
    · exact hb.spinRead (.of_pc hpc rfl)
  | searchPop searcher =>
    cases searcher
    all_goals
      simp only [hpc, Option.some.injEq] at hstep
      subst hstep
      exact hb.popInjection (.of_pc hpc rfl) (.of_pc hpc rfl)
  | searchEnd found | spinEnd found =>
    cases found with
    | false =>
      simp only [hpc, Option.some.injEq] at hstep
      subst hstep
      exact ⟨_, hb.leaveSearch (by rw [hpc]; rfl) rfl (by simp [hpc, WorkerPc.idles])
        (by rw [hpc]; rfl)⟩
    | true =>
      simp only [hpc, Option.some.injEq] at hstep
      subst hstep
      exact ⟨_, hb.leaveSearch (by rw [hpc]; rfl) (by split_ifs <;> rfl)
        (by simp [hpc, WorkerPc.idles]) (by rw [hpc]; split_ifs <;> rfl)⟩
  | leftovers =>
    simp only [hpc, Option.some.injEq] at hstep
    subst hstep
    split_ifs
    · exact ⟨_, hb.quiet rfl rfl rfl rfl (.of_pc hpc rfl)⟩
    · exact ⟨_, hb.quiet rfl rfl rfl rfl (.of_pc hpc rfl)⟩
  | starting =>
    simp only [hpc, Option.some.injEq] at hstep
    subst hstep
    split_ifs
    · exact ⟨_, hb.quiet rfl rfl rfl rfl (.of_pc hpc rfl)⟩
    · exact ⟨_, hb.quiet rfl rfl rfl rfl (.of_pc hpc rfl)⟩
  | spinLook =>
    simp only [hpc, Option.some.injEq] at hstep
    subst hstep
    split_ifs
    · exact hb.takeLocal (.of_pc hpc rfl) (.of_pc hpc rfl)
    · exact hb.popInjection (.of_pc hpc rfl) (.of_pc hpc rfl)
  | spinLeave wasLast =>
    simp only [hpc, Option.some.injEq] at hstep
    subst hstep
    exact hb.takeLocal (.ite (.of_pc hpc rfl) (.of_pc hpc rfl)) (.of_pc hpc rfl)
  | spinLeavePop wasLast =>
    simp only [hpc, Option.some.injEq] at hstep
    subst hstep
    exact hb.popInjection (.ite (.of_pc hpc rfl) (.of_pc hpc rfl)) (.of_pc hpc rfl)
  | marking =>
    simp only [hpc, Option.some.injEq] at hstep
    subst hstep
    refine ⟨.parkTake, ⟨rfl, ?_, ?_, ?_, ?_, ?_⟩⟩
    · rw [hpc]
      rfl
    · intro x hx hne
      exact Finset.mem_of_mem_insert_of_ne hx hne
    · exact fun _ ↦ rfl
    · have := hb.role w
      rw [hpc] at this
      exact this
    · exact fun _ _ ↦ Iff.rfl
  | parkClear =>
    simp only [hpc, Option.some.injEq] at hstep
    subst hstep
    exact ⟨_, hb.eraseIdle rfl rfl rfl rfl (by rw [hpc]; split_ifs <;> rfl)
      (by rw [hpc]; split_ifs <;> rfl)⟩
  | clearing =>
    simp only [hpc, Option.some.injEq] at hstep
    subst hstep
    exact ⟨_, hb.eraseIdle rfl rfl rfl rfl (by rw [hpc]; rfl) (by rw [hpc]; rfl)⟩
  | parked =>
    simp only [hpc] at hstep
    split_ifs at hstep
    obtain rfl := Option.some.inj hstep
    exact ⟨_, hb.quiet rfl rfl rfl rfl (.of_pc hpc rfl)⟩
  | asleep wakeAt =>
    simp only [hpc, State.wakeUp] at hstep
    split_ifs at hstep
    all_goals
      obtain rfl := Option.some.inj hstep
      exact ⟨_, hb.quiet rfl rfl rfl rfl (.of_pc hpc rfl)⟩

/-- Where the calls of a worker's loop begin, and those with which a task yields or sleeps. -/
def CallPc.opens : CallPc n → Bool
  | .inject _ | .ensureKeeper | .notifySearching | .rampIdle | .addLoad _ => true
  | _ => false

/-- What a worker's step leaves alone. -/
structure Aside (s s' : State n κ) (w : Fin n) : Prop where
  pc : ∀ x, x ≠ w → s'.pc x = s.pc x
  call : ∀ a, a ≠ .worker w → s'.call a = s.call a
  own : s'.call (.worker w) = s.call (.worker w) ∨ (s'.call (.worker w)).opens = true
  token : ∀ x, x ≠ w → s'.token x = s.token x

omit [DecidableEq κ] in
/-- A worker moves. -/
theorem Aside.goto {t : State n κ} {p : WorkerPc} (h : Aside s t w) : Aside s (t.goto w p) w where
  pc x hx := by
    simp only [State.goto, Function.update_of_ne hx]
    exact h.pc x hx
  call := h.call
  own := h.own
  token := h.token

/-- A worker begins a call. -/
theorem Aside.setCall {t : State n κ} {q : CallPc n} (hq : q.opens = true) (h : Aside s t w) :
    Aside s (t.setCall (.worker w) q) w where
  pc := h.pc
  call a ha := by
    simp only [State.setCall, Function.update_of_ne ha]
    exact h.call a ha
  own := by
    right
    simp only [State.setCall, Function.update_self]
    exact hq
  token := h.token

omit [DecidableEq κ] in
/-- Words that no other worker depends on change. -/
theorem Aside.of_eq (hpc : s'.pc = s.pc) (hcall : s'.call = s.call)
    (htoken : ∀ x, x ≠ w → s'.token x = s.token x) : Aside s s' w where
  pc _ _ := congrFun hpc _
  call _ _ := congrFun hcall _
  own := Or.inl (congrFun hcall _)
  token := htoken

omit [DecidableEq κ] in
/-- A worker moves with or without a task of its own. -/
theorem Aside.takeLocal {t : State n κ} {found missed : WorkerPc} (h : Aside s t w) :
    Aside s (t.takeLocal w found missed) w := by
  unfold State.takeLocal
  split_ifs
  · exact Aside.goto ⟨h.pc, h.call, h.own, h.token⟩
  · exact Aside.goto ⟨h.pc, h.call, h.own, h.token⟩
  · exact h.goto

/-- A worker's step leaves the other workers and the calls of the others alone. -/
theorem work_aside {flag : Bool} (hstep : s.work c w flag = some s') : Aside s s' w := by
  have hgo {t : State n κ} {p : WorkerPc} (hpc : t.pc = s.pc) (hcall : t.call = s.call)
      (htoken : t.token = s.token) : Aside s (t.goto w p) w :=
    (Aside.of_eq hpc hcall fun _ _ ↦ congrFun htoken _).goto
  have htake {found missed : WorkerPc} : Aside s (s.takeLocal w found missed) w :=
    (Aside.of_eq rfl rfl fun _ _ ↦ rfl).takeLocal
  have hpop {found missed : WorkerPc} : Aside s (s.popInjection w found missed) w := by
    unfold State.popInjection
    split_ifs <;> exact hgo rfl rfl rfl
  have hsearch : Aside s (s.searchRead w) w := by
    unfold State.searchRead
    split_ifs <;> exact hgo rfl rfl rfl
  have hspin : Aside s (s.spinRead w) w := by
    unfold State.spinRead
    split_ifs <;> exact hgo rfl rfl rfl
  have hrest {count : ℕ} {p : WorkerPc} : Aside s (s.placeRest w count p) w := by
    unfold State.placeRest
    split_ifs
    · refine Aside.setCall rfl ?_
      exact hgo rfl rfl rfl
    · exact hgo rfl rfl rfl
  have hdrain {t : State n κ} {p : WorkerPc} (hpc : t.pc = s.pc) (hcall : t.call = s.call)
      (htoken : t.token = Function.update s.token w false) :
      Aside s (t.goto w p) w := by
    refine (Aside.of_eq hpc hcall ?_).goto
    intro x hx
    rw [htoken, Function.update_of_ne hx]
  unfold State.work at hstep
  cases hpc : s.pc w with
  | running | scan => simp only [hpc, reduceCtorEq] at hstep
  | searchPop b =>
    cases b <;> simp only [hpc, Option.some.injEq] at hstep <;> subst hstep <;> exact hpop
  | searchEnd b | spinEnd b =>
    cases b <;> simp only [hpc, Option.some.injEq] at hstep <;> subst hstep <;>
      exact hgo rfl rfl rfl
  | popTop | searchPopAgain | parkPop | spinLeavePop wasLast =>
    simp only [hpc, Option.some.injEq] at hstep
    subst hstep
    exact hpop
  | takeLocal | parkTake | sleepTimer relies | spinLeave wasLast =>
    simp only [hpc, Option.some.injEq] at hstep
    subst hstep
    exact htake
  | searchLoad =>
    simp only [hpc, Option.some.injEq] at hstep
    subst hstep
    exact hsearch
  | spinLoad =>
    simp only [hpc, Option.some.injEq] at hstep
    subst hstep
    exact hspin
  | searchSwap current =>
    simp only [hpc, Option.some.injEq] at hstep
    subst hstep
    split_ifs
    · exact hgo rfl rfl rfl
    · exact hsearch
  | spinSwap current =>
    simp only [hpc, Option.some.injEq] at hstep
    subst hstep
    split_ifs
    · exact hgo rfl rfl rfl
    · exact hspin
  | spinLook =>
    simp only [hpc, Option.some.injEq] at hstep
    subst hstep
    split_ifs
    · exact htake
    · exact hpop
  | maintainPlace =>
    simp only [hpc, Option.some.injEq, State.placeMaintained] at hstep
    subst hstep
    split_ifs
    · exact hgo rfl rfl rfl
    · exact hgo rfl rfl rfl
    · exact hrest
  | placing =>
    simp only [hpc, Option.some.injEq, State.placeKeeping] at hstep
    subst hstep
    split_ifs
    · exact hgo rfl rfl rfl
    · exact hgo rfl rfl rfl
    · exact hrest
  | starting =>
    simp only [hpc, Option.some.injEq] at hstep
    subst hstep
    split_ifs
    · exact (hgo rfl rfl rfl).setCall rfl
    · exact hgo rfl rfl rfl
  | leftovers =>
    simp only [hpc, Option.some.injEq, State.requestRampUp] at hstep
    subst hstep
    split_ifs
    · exact (hgo rfl rfl rfl).setCall rfl
    · exact (hgo rfl rfl rfl).setCall rfl
    · exact hgo rfl rfl rfl
  | maintainClaim | sleepClaim =>
    simp only [hpc, Option.some.injEq] at hstep
    subst hstep
    split_ifs <;> exact hgo rfl rfl rfl
  | parkDrain =>
    simp only [hpc, Option.some.injEq] at hstep
    subst hstep
    exact hdrain rfl rfl rfl
  | parked =>
    simp only [hpc] at hstep
    split_ifs at hstep
    obtain rfl := Option.some.inj hstep
    exact hdrain rfl rfl rfl
  | asleep wakeAt =>
    simp only [hpc, State.wakeUp] at hstep
    split_ifs at hstep <;> obtain rfl := Option.some.inj hstep
    · exact hgo rfl rfl rfl
    · exact hdrain rfl rfl rfl
    · exact hgo rfl rfl rfl
  | _ =>
    simp only [hpc, Option.some.injEq] at hstep
    subst hstep
    exact hgo rfl rfl rfl

omit [DecidableEq κ] in
/-- Nothing that the three words are about changes. -/
theorem Base.frame (hb : Base s) (hpc : s'.pc = s.pc) (hsearching : s'.searching = s.searching)
    (hmask : s'.idleMask ⊆ s.idleMask) (hkeeper : s'.timekeeper = s.timekeeper) : Base s' := by
  constructor
  · rw [hsearching, hpc]
    exact hb.searching
  · intro x hx
    rw [hpc]
    exact hb.idle x (hmask hx)
  · rw [hpc, hkeeper]
    exact hb.role

/-- What a running task does to the three words. -/
theorem Base.task (hb : Base s) (hpc : s.pc w = .running) (op : TaskOp) : Base (s.task w op) := by
  have hnext {t : State n κ} (ht : Base t) (htpc : t.pc w = .running) :
      Base (t.takeLocal w .running .top) := by
    obtain ⟨p, hl⟩ := ht.takeLocal (w := w) (.of_pc htpc (q := .running) rfl)
      (.of_pc htpc (q := .top) rfl)
    exact ht.loop hl
  cases op with
  | leave => exact hnext hb hpc
  | yield =>
    refine hnext ?_ hpc
    exact hb.frame rfl rfl (Finset.Subset.refl _) rfl
  | pull =>
    simp only [State.task]
    split_ifs
    · exact hb.frame rfl rfl (Finset.Subset.refl _) rfl
    · exact hb
  | schedule =>
    simp only [State.task]
    split_ifs
    · exact hb.frame rfl rfl (Finset.Subset.refl _) rfl
    · exact hb.frame rfl rfl (Finset.Subset.refl _) rfl
  | sleep deadline =>
    have hl : Loop s (s.task w (.sleep deadline)) w (.sleepTimer false) :=
      hb.quiet rfl rfl rfl rfl (.of_pc hpc rfl)
    exact hb.loop hl

/-- A step of a call changes no more than an idle bit, or the place of a task about to park. -/
theorem act_cases {a : Agent n κ} {flag : Bool} (hstep : s.act c a flag = some s') :
    (s'.pc = s.pc ∧ s'.searching = s.searching ∧ s'.idleMask ⊆ s.idleMask ∧
      s'.timekeeper = s.timekeeper) ∨
    (∃ x, a = .worker x ∧ s.call a = .addLocal ∧ s' = s.addLocal a) := by
  have hsub (x : Fin n) : s.idleMask.erase x ⊆ s.idleMask := Finset.erase_subset x _
  unfold State.act at hstep
  cases hcall : s.call a with
  | idle => simp only [hcall, reduceCtorEq] at hstep
  | addLocal =>
    simp only [hcall, Option.some.injEq] at hstep
    cases a with
    | foreign k =>
      subst hstep
      exact Or.inl ⟨rfl, rfl, Finset.Subset.refl _, rfl⟩
    | worker x => exact Or.inr ⟨x, rfl, rfl, hstep.symm⟩
  | notifyKeeper mask =>
    simp only [hcall] at hstep
    split_ifs at hstep
    obtain rfl := Option.some.inj hstep
    exact Or.inl ⟨rfl, rfl, Finset.Subset.refl _, rfl⟩
  | inject count =>
    cases count <;>
    · simp only [hcall, Option.some.injEq] at hstep
      subst hstep
      exact Or.inl ⟨rfl, rfl, Finset.Subset.refl _, rfl⟩
  | notifySwap mask index =>
    simp only [hcall, Option.some.injEq] at hstep
    subst hstep
    split_ifs
    · exact Or.inl ⟨rfl, rfl, hsub index, rfl⟩
    · exact Or.inl ⟨rfl, rfl, Finset.Subset.refl _, rfl⟩
  | notifyWorker target =>
    simp only [hcall, Option.some.injEq] at hstep
    subst hstep
    split_ifs
    · exact Or.inl ⟨rfl, rfl, hsub target, rfl⟩
    · exact Or.inl ⟨rfl, rfl, Finset.Subset.refl _, rfl⟩
  | rampSwap due current =>
    simp only [hcall, Option.some.injEq] at hstep
    subst hstep
    split_ifs
    · exact Or.inl ⟨rfl, rfl, Finset.Subset.refl _, rfl⟩
    · exact Or.inl ⟨rfl, rfl, Finset.Subset.refl _, rfl⟩
  | ensureSwap last now =>
    simp only [hcall, Option.some.injEq] at hstep
    subst hstep
    split_ifs
    · exact Or.inl ⟨rfl, rfl, Finset.Subset.refl _, rfl⟩
    · exact Or.inl ⟨rfl, rfl, Finset.Subset.refl _, rfl⟩
  | _ =>
    simp only [hcall, Option.some.injEq] at hstep
    subst hstep
    exact Or.inl ⟨rfl, rfl, Finset.Subset.refl _, rfl⟩

/-- Every step keeps the three words right. -/
theorem Base.step (hb : Base s) {a : Action n κ} (hstep : step c s a = some s') : Base s' := by
  cases a with
  | tick elapsed | expire =>
    obtain rfl := Option.some.inj hstep
    exact hb.frame rfl rfl (Finset.Subset.refl _) rfl
  | gather x =>
    simp only [Keeper.step.eq_def] at hstep
    split_ifs at hstep
    obtain rfl := Option.some.inj hstep
    exact hb.frame rfl rfl (Finset.Subset.refl _) rfl
  | steal x victim count =>
    simp only [Keeper.step.eq_def, State.steal] at hstep
    split_ifs at hstep
    split at hstep
    case h_1 hpc =>
      obtain rfl := Option.some.inj hstep
      exact hb.loop (hb.quiet (w := x) rfl rfl rfl rfl (.of_pc hpc rfl))
    case h_2 hpc =>
      obtain rfl := Option.some.inj hstep
      exact hb.loop (hb.quiet (w := x) rfl rfl rfl rfl (.of_pc hpc rfl))
    case h_3 => nomatch hstep
  | scanned x earliest =>
    simp only [Keeper.step.eq_def] at hstep
    split_ifs at hstep with hpc
    obtain rfl := Option.some.inj hstep
    exact hb.loop (hb.quiet (w := x) rfl rfl rfl rfl (.of_pc hpc rfl))
  | work x flag =>
    simp only [Keeper.step.eq_def] at hstep
    split_ifs at hstep
    obtain ⟨p, hl⟩ := hb.work hstep
    exact hb.loop hl
  | task x op =>
    simp only [Keeper.step.eq_def] at hstep
    split_ifs at hstep with hrun
    obtain rfl := Option.some.inj hstep
    exact hb.task hrun.2 op
  | call b call =>
    simp only [Keeper.step.eq_def] at hstep
    split_ifs at hstep
    obtain rfl := Option.some.inj hstep
    cases call <;> exact hb.frame rfl rfl (Finset.Subset.refl _) rfl
  | act b flag =>
    rcases act_cases hstep with ⟨hpc, hsearching, hmask, hkeeper⟩ | ⟨x, rfl, -, rfl⟩
    · exact hb.frame hpc hsearching hmask hkeeper
    · simp only [State.addLocal]
      split_ifs with hlocal hpc
      · exact hb.frame rfl rfl (Finset.Subset.refl _) rfl
      · exact hb.loop (hb.quiet (w := x) rfl rfl rfl rfl (.of_pc hpc rfl))
      · exact hb.loop (hb.quiet (w := x) rfl rfl rfl rfl ⟨rfl, id, rfl⟩)

omit [DecidableEq κ] in
/-- The words are right at first. -/
theorem Base.initial : Base (initial : State n κ) where
  searching := by simp [Keeper.initial, WorkerPc.searches]
  idle x hx := absurd hx (Finset.notMem_empty x)
  role x := by simp [Keeper.initial, WorkerPc.inRole, WorkerPc.keeps, WorkerPc.maintains]

end Stackfull.Sched.Keeper
