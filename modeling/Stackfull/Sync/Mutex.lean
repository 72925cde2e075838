import Mathlib.Algebra.Order.Group.Multiset
import Stackfull.Sync.SemaphoreSafety

/-!
# Who holds a mutex

`Mutex` (`sync/Mutex.h`) is a semaphore with one permit, and knows no owner. A party holds it from
the end of a call that acquired until it adds the permit of its release (`Holds`). As long as only
a party that holds it releases it, at most one does (`holds_unique`).
-/

set_option autoImplicit false
set_option relaxedAutoImplicit false
set_option linter.dupNamespace false

namespace Stackfull.Sync.Semaphore

open Stackfull.Lib

universe u

variable {ι : Type u} [DecidableEq ι]

/-- The parties of the calls that acquired. -/
def State.acquirers (s : State ι) : List ι :=
  (s.returns.filter fun entry ↦ decide (entry.2 = .acquired)).map fun entry ↦ entry.1.1

omit [DecidableEq ι] in
/-- The parties of the calls that added a permit. -/
def State.releasers (s : State ι) : List ι :=
  s.increments.map Prod.fst

/-- The party has acquired more often than it has released. -/
def Holds (s : State ι) (p : ι) : Prop :=
  s.releasers.count p < s.acquirers.count p

instance (s : State ι) (p : ι) : Decidable (Holds s p) :=
  inferInstanceAs (Decidable (s.releasers.count p < s.acquirers.count p))

/-- Only a party that holds the mutex releases it. -/
def Disciplined (s : State ι) : Action ι → Bool
  | .call p .release => decide (Holds s p)
  | _ => true

/-- Nobody has released more often than acquired. -/
structure Accounts (s : State ι) : Prop where
  le : ∀ p, s.releasers.count p ≤ s.acquirers.count p
  adding : ∀ p, s.pc p = .adding → Holds s p
  acquired : ∀ p, s.pc p = .returned .acquired → Holds s p

/-! ### What a step does to the accounts -/

section Steps

variable {c : Config ι} {s t : State ι} {a : Action ι}

omit [DecidableEq ι] in
theorem Section.entry_ne_adding (part : Section ι) : part.entry ≠ .adding := by
  cases part <;> simp [Section.entry]

omit [DecidableEq ι] in
theorem Section.entry_ne_returned (part : Section ι) (result : Result) :
    part.entry ≠ .returned result := by
  cases part <;> simp [Section.entry]

/-- A step ends no call, or it ends one. -/
theorem step_returns (h : Step c s a t) :
    (t.returns = s.returns ∧ ∀ p, t.pc p = .returned .acquired → s.pc p = .returned .acquired) ∨
      ∃ q result, t.returns = s.returns ++ [(s.callOf q, result)] ∧
        ∀ p, t.pc p = .returned .acquired →
          s.pc p = .returned .acquired ∨ p = q ∧ result = .acquired := by
  -- the party whose call ended is the only one that may have come to report an acquisition
  have hended {pcs : ι → Pc ι} {p q : ι} {result : Result}
      (hpcs : pcs p = .returned .acquired → s.pc p = .returned .acquired)
      (hp : Function.update pcs q (.returned result) p = .returned .acquired) :
      s.pc p = .returned .acquired ∨ p = q ∧ result = .acquired := by
    rcases eq_or_ne p q with rfl | hne
    · rw [Function.update_self] at hp
      cases hp
      exact Or.inr ⟨rfl, rfl⟩
    · rw [Function.update_of_ne hne] at hp
      exact Or.inl (hpcs hp)
  cases h with
  | newWaiter => exact Or.inl ⟨rfl, fun _ ↦ id⟩
  | begin hfree hentry =>
    refine Or.inl ⟨rfl, fun q hq ↦ eq_of_update ?_ hq⟩
    rcases State.of_entry hentry with ⟨site, rfl, -⟩ | ⟨target, rfl⟩ | rfl <;> simp
  | @lock p part =>
    exact Or.inl ⟨rfl, fun q hq ↦ eq_of_update (part.entry_ne_returned _) hq⟩
  | unlock hpc hnext =>
    refine Or.inl ⟨rfl, fun q hq ↦ eq_of_update ?_ hq⟩
    cases hnext <;> simp
  | refuse | acquireFast | unlockReturn | resume | nobody | notified | unwound =>
    exact Or.inr ⟨_, _, rfl, fun _ ↦ hended id⟩
  | cancelTake => exact Or.inr ⟨_, _, rfl, fun _ hp ↦ hended id (eq_of_update (by simp) hp)⟩
  | callback =>
    exact Or.inr ⟨_, _, rfl, fun _ ↦ hended (eq_of_update (by simp))⟩
  | _ => exact Or.inl ⟨rfl, fun _ hq ↦ eq_of_update (by simp) hq⟩

/-- A step adds no permit, or the party adds it that was about to. -/
theorem step_increments (h : Step c s a t) :
    (t.increments = s.increments ∧
        ∀ p, t.pc p = .adding → s.pc p = .adding ∨ a = .call p .release) ∨
      ∃ q, s.pc q = .adding ∧ t.pc q = .checking ∧ t.increments = s.increments ++ [s.callOf q] ∧
        ∀ p, t.pc p = .adding → s.pc p = .adding := by
  cases h with
  | newWaiter => exact Or.inl ⟨rfl, fun _ ↦ Or.inl⟩
  | @begin p call pc hfree hentry =>
    refine Or.inl ⟨rfl, fun q hq ↦ ?_⟩
    cases call with
    | release =>
      rcases eq_or_ne q p with rfl | hne
      · exact Or.inr rfl
      · exact Or.inl ((Function.update_of_ne hne ..).symm.trans hq)
    | _ =>
      refine Or.inl (eq_of_update (fun hpc ↦ ?_) hq)
      rw [hpc] at hentry
      simp [State.entry] at hentry
  | @lock p part => exact Or.inl ⟨rfl, fun q hq ↦ Or.inl (eq_of_update part.entry_ne_adding hq)⟩
  | unlock hpc hnext =>
    refine Or.inl ⟨rfl, fun q hq ↦ Or.inl (eq_of_update ?_ hq)⟩
    cases hnext <;> simp
  | @add p hpc =>
    exact Or.inr ⟨p, hpc, by simp, rfl, fun q hq ↦ eq_of_update (by simp) hq⟩
  | cancelTake | callback =>
    exact Or.inl ⟨rfl, fun q hq ↦ Or.inl (eq_of_update (by simp) (eq_of_update (by simp) hq))⟩
  | _ => exact Or.inl ⟨rfl, fun q hq ↦ Or.inl (eq_of_update (by simp) hq)⟩

/-- The point is outside of any call. -/
def Pc.isFree : Pc ι → Bool
  | .idle => true
  | .returned _ => true
  | _ => false

omit [DecidableEq ι] in
theorem State.isFree_eq (s : State ι) (p : ι) : s.isFree p = (s.pc p).isFree := by
  unfold State.isFree Pc.isFree
  cases s.pc p <;> rfl

/-- Nobody else ends the freedom of a party. -/
theorem isFree_step {p : ι} (hfree : s.isFree p = true) (hcall : ∀ call, a ≠ .call p call)
    (h : Step c s a t) : t.isFree p = true := by
  rw [State.isFree_eq] at hfree ⊢
  have hother {pcs : ι → Pc ι} {q : ι} {pc : Pc ι} (hbusy : (s.pc q).isFree = false)
      (hpcs : (pcs p).isFree = true) : (Function.update pcs q pc p).isFree = true := by
    have hne : p ≠ q := by
      rintro rfl
      rw [hfree] at hbusy
      cases hbusy
    rwa [Function.update_of_ne hne]
  cases h with
  | newWaiter => exact hfree
  | @begin q call pc =>
    have hne : p ≠ q := by
      rintro rfl
      exact hcall call rfl
    exact (congrArg Pc.isFree (Function.update_of_ne hne ..)).trans hfree
  | tryAgain hpc | refuse hpc | makeWaiter hpc | useWaiter hpc | recheckFails hpc =>
    exact hother (Pc.view_of_readsAt hpc rfl fun _ ↦ rfl) hfree
  | handAgain hpc | handNone hpc => exact hother (Pc.view_of_readsFor hpc rfl fun _ ↦ rfl) hfree
  | @cancelTake q target hpc =>
    refine hother (congrArg Pc.isFree hpc) ?_
    rcases eq_or_ne p target with rfl | hne
    · exact congrArg Pc.isFree (Function.update_self p (Pc.returned Result.stopped) s.pc)
    · exact (congrArg Pc.isFree (Function.update_of_ne hne ..)).trans hfree
  | callback hpc hkind hne htarget =>
    exact hother (congrArg Pc.isFree htarget) (hother (congrArg Pc.isFree hpc) hfree)
  | acquireFast hpc | acquireLocked hpc | lock hpc | refuseCancelled hpc | announce hpc | push hpc
  | subtract hpc | unlockReturn hpc | unlock hpc | resume hpc | cancelMark hpc | add hpc
  | nobody hpc | somebody hpc | handEmpty hpc | handMore hpc | takeFor hpc | pop hpc | fix hpc
  | notified hpc | wake hpc | unwind _ hpc | guardUnlink hpc | guardAwait hpc | unwound hpc =>
    exact hother (congrArg Pc.isFree hpc) hfree

/-- The acquisitions of a party after a step. -/
theorem acquirers_step (h : Step c s a t) (p : ι) :
    s.acquirers.count p ≤ t.acquirers.count p ∧
      (t.pc p = .returned .acquired → s.pc p = .returned .acquired ∨
        s.acquirers.count p < t.acquirers.count p) := by
  rcases step_returns h with ⟨hreturns, hpc⟩ | ⟨q, result, hreturns, hpc⟩
  · simp only [State.acquirers, hreturns]
    exact ⟨le_rfl, fun hp ↦ Or.inl (hpc p hp)⟩
  · simp only [State.acquirers, hreturns, List.filter_append, List.map_append, List.count_append]
    refine ⟨Nat.le_add_right _ _, fun hp ↦ (hpc p hp).imp_right ?_⟩
    rintro ⟨rfl, rfl⟩
    simp [State.callOf]

/-- The releases of a party after a step. -/
theorem releasers_step (h : Step c s a t) (p : ι) :
    t.releasers.count p = s.releasers.count p ∨
      s.pc p = .adding ∧ t.pc p = .checking ∧
        t.releasers.count p = s.releasers.count p + 1 := by
  rcases step_increments h with ⟨hincrements, -⟩ | ⟨q, hq, hchecking, hincrements, -⟩
  · exact Or.inl (by simp only [State.releasers, hincrements])
  · simp only [State.releasers, hincrements, List.map_append, List.count_append]
    rcases eq_or_ne p q with rfl | hne
    · exact Or.inr ⟨hq, hchecking, by simp [State.callOf]⟩
    · exact Or.inl (by simp [State.callOf, hne.symm])

/-- A party that is about to add a permit was, or begins its release. -/
theorem adding_step (h : Step c s a t) {p : ι} (hp : t.pc p = .adding) :
    s.pc p = .adding ∨ a = .call p .release := by
  rcases step_increments h with ⟨-, hpc⟩ | ⟨-, -, -, -, hpc⟩
  · exact hpc p hp
  · exact Or.inl (hpc p hp)

/-- Whoever holds the mutex, and does not add its permit now, goes on to hold it. -/
theorem Holds.step {p : ι} (hp : Holds s p) (hchecking : s.pc p = .adding → t.pc p ≠ .checking)
    (h : Step c s a t) : Holds t p := by
  have hacquirers := (acquirers_step h p).1
  rcases releasers_step h p with hreleasers | ⟨hadding, hpc, -⟩
  · exact hreleasers.trans_lt (hp.trans_le hacquirers)
  · exact absurd hpc (hchecking hadding)

theorem accounts_step (hs : Accounts s) (hdisciplined : Disciplined s a = true)
    (h : Step c s a t) : Accounts t := by
  refine ⟨fun p ↦ ?_, fun p hp ↦ ?_, fun p hp ↦ ?_⟩
  · have hacquirers := (acquirers_step h p).1
    rcases releasers_step h p with hreleasers | ⟨hpc, -, hreleasers⟩
    · exact hreleasers.trans_le ((hs.le p).trans hacquirers)
    · exact hreleasers.trans_le ((Nat.succ_le_of_lt (hs.adding p hpc)).trans hacquirers)
  · have hnot : t.pc p ≠ .checking := by rw [hp]; nofun
    rcases adding_step h hp with hadding | rfl
    · exact (hs.adding p hadding).step (fun _ ↦ hnot) h
    · exact (of_decide_eq_true hdisciplined : Holds s p).step (fun _ ↦ hnot) h
  · have hnot : t.pc p ≠ .checking := by rw [hp]; nofun
    rcases (acquirers_step h p).2 hp with hacquired | hlt
    · exact (hs.acquired p hacquired).step (fun _ ↦ hnot) h
    · rcases releasers_step h p with hreleasers | ⟨-, hchecking, -⟩
      · exact hreleasers.trans_lt ((hs.le p).trans_lt hlt)
      · exact absurd hchecking hnot

end Steps

theorem accounts_of_reachableUnder {c : Config ι} {s : State ι}
    (hs : (system c).ReachableUnder (fun s a ↦ Disciplined s a = true) s) : Accounts s := by
  refine hs.invariant ?_ ?_
  · rintro s rfl
    exact ⟨fun _ ↦ le_rfl, nofun, nofun⟩
  · exact fun s a t hs hdisciplined hstep ↦ accounts_step hs hdisciplined (step_of_eq hstep)

omit [DecidableEq ι] in
/-- Every call that acquired was granted a permit, and no two were granted one together. -/
theorem length_acquirers_le {c : Config ι} {s : State ι} (hs : Sound c s) :
    s.acquirers.length ≤ s.grants.length := by
  have hnodup : ((s.returns.filter fun entry ↦ decide (entry.2 = .acquired)).map Prod.fst).Nodup :=
    hs.returns.nodup.sublist (List.filter_sublist.map _)
  have hgranted : ((s.returns.filter fun entry ↦ decide (entry.2 = .acquired)).map Prod.fst) ⊆
      s.grants := by
    intro call hcall
    obtain ⟨⟨call, result⟩, hentry, rfl⟩ := List.mem_map.mp hcall
    obtain ⟨hmem, hresult⟩ := List.mem_filter.mp hentry
    obtain rfl := of_decide_eq_true hresult
    exact (hs.grants.agree _ _ hmem).mpr rfl
  simpa [State.acquirers] using (hnodup.subperm hgranted).length_le

/-- Mutual exclusion: at most one party holds a mutex that only its holder releases. -/
theorem holds_unique {kind : ι → Kind} {s : State ι}
    (hs : (system (mutex kind)).ReachableUnder (fun s a ↦ Disciplined s a = true) s) {p q : ι}
    (hp : Holds s p) (hq : Holds s q) : p = q := by
  by_contra hne
  have hsound := sound_of_reachableUnder hs
  have hle := (accounts_of_reachableUnder hs).le
  -- the releases and one more of each holder are among the acquisitions
  have hsub : ((p :: q :: s.releasers : List ι) : Multiset ι) ≤ (s.acquirers : Multiset ι) := by
    refine Multiset.le_iff_count.mpr fun r ↦ ?_
    simp only [Multiset.coe_count, List.count_cons, beq_iff_eq]
    have hr := hle r
    unfold Holds at hp hq
    split_ifs with hqr hpr hpr
    · exact absurd (hpr.trans hqr.symm) hne
    · subst hqr
      omega
    · subst hpr
      omega
    · omega
  have hcard := Multiset.card_le_card hsub
  have hacquirers := length_acquirers_le hsound
  have hpermits := hsound.counts.permits
  have hreleasers : s.releasers.length = s.increments.length := List.length_map _
  simp only [Multiset.coe_card, List.length_cons] at hcard
  simp only [mutex] at hpermits
  omega

end Stackfull.Sync.Semaphore
