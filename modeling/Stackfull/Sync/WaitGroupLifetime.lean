import Stackfull.Sync.WaitGroupSafety
import Mathlib.Data.Fintype.Card

/-!
# When a wait group may be destroyed

After `add(n)`, `n` parties call `done` once each and one more party calls `wait` once: the protocol
in which the group may live in the frame of the party that waits. A `done` that has brought the
count to zero still has to take the lock, empty the list and release the lock. A `wait` that is
queued returns after that; a `wait` that reads the zero itself, on its fast path or under the lock,
may return before.
-/

set_option autoImplicit false
set_option relaxedAutoImplicit false
set_option linter.dupNamespace false

namespace Stackfull.Sync.WaitGroup

open Stackfull.Lib

universe u

variable {κ : Type u} [DecidableEq κ]

/-- The party has not begun a call. -/
def Pc.isIdle {ι : Type u} : Pc ι → Bool
  | .idle => true
  | _ => false

/-- Everybody makes one call; `none` is the party that waits. -/
def allowed (s : State (Option κ)) : Action (Option κ) → Bool
  | .call none .wait => (s.pc none).isIdle
  | .call (some i) .done => (s.pc (some i)).isIdle
  | .act _ => true
  | .forcedUnwind _ => true
  | _ => false

/-- The protocol after `add(n)`. -/
def protocol [Fintype κ] (kind : Option κ → Kind) : System (State (Option κ)) (Action (Option κ))
    where
  init s := s = initial (Option κ) (Fintype.card κ)
  step s a := if allowed s a = true then s.step kind a else none

/-- A `done` that has its decrement before it. -/
def Pc.counts {ι : Type u} : Pc ι → Bool
  | .idle | .subtracting => true
  | _ => false

/-- A `done` between its decrement to zero and the release of the lock. -/
def Pc.lingers {ι : Type u} : Pc ι → Bool
  | .locking .release | .popping _ | .unlocking (.notifying _) => true
  | _ => false

/-- A `done` that has an access to the count, the lock or the list before it. -/
def Pc.touches {ι : Type u} (pc : Pc ι) : Bool := pc.counts || pc.lingers

/-- The party is about to read the count. -/
def Pc.loads {ι : Type u} : Pc ι → Bool
  | .loading _ => true
  | _ => false

/-- The condition on a step: the party that waits does not read a count of zero while a `done` is
between its decrement and the release of the lock. -/
def ReadsLate (s : State (Option κ)) : Action (Option κ) → Prop
  | .act none => (s.pc none).loads = true → s.pending = 0 → ∀ i, (s.pc (some i)).lingers = false
  | _ => True

instance [Fintype κ] (s : State (Option κ)) : (a : Action (Option κ)) → Decidable (ReadsLate s a)
  | .act none => inferInstanceAs (Decidable (_ → _))
  | .act (some _) => isTrue trivial
  | .newWaiter _ => isTrue trivial
  | .call _ _ => isTrue trivial
  | .forcedUnwind _ => isTrue trivial

/-- Where a `done` may stand. -/
def Pc.isDone {ι : Type u} : Pc ι → Bool
  | .idle | .subtracting | .locking .release | .popping _ | .unlocking (.notifying _) | .notifying _
  | .returned _ => true
  | _ => false

/-- A point of `wait`. -/
def Pc.isWait {ι : Type u} : Pc ι → Bool
  | .idle | .loading (.fast .wait) | .locking (.enqueue .wait) | .loading (.recheck .wait)
  | .pushing .wait | .unlocking (.returned _) | .unlocking .waiting | .unlocking .awaitingNotifier
  | .waiting | .locking .guard | .guarding | .awaitingNotifier | .returned _ => true
  | _ => false

/-- Nobody has an access to the group before them. -/
def Settled (s : State (Option κ)) : Prop :=
  ∀ i, (s.pc (some i)).touches = false

/-- The call of `wait` is over, or about to be. -/
def Pc.ends {ι : Type u} : Pc ι → Bool
  | .unlocking (.returned .completed) | .returned .completed => true
  | _ => false

/-- How the count and the parties stand to each other. -/
structure Settling [Fintype κ] (s : State (Option κ)) : Prop where
  count : s.pending = (Finset.univ.filter fun i ↦ (s.pc (some i)).counts = true).card
  done : ∀ i, (s.pc (some i)).isDone = true
  wait : (s.pc none).isWait = true
  zero : ∀ i, (s.pc (some i)).lingers = true → s.pending = 0
  alone : ∀ i j, (s.pc (some i)).lingers = true → (s.pc (some j)).lingers = true → i = j
  notifying : ∀ i chain, s.pc (some i) = .notifying chain → Settled s
  notified : s.satisfied none = true → Settled s
  ended : (s.pc none).ends = true → Settled s

section Steps

variable [Fintype κ] {kind : Option κ → Kind} {s t : State (Option κ)}

omit [DecidableEq κ] in
theorem settling_initial : Settling (initial (Option κ) (Fintype.card κ)) where
  count := by simp [initial, Pc.counts]
  done _ := rfl
  wait := rfl
  zero _ h := nomatch h
  alone _ _ h := nomatch h
  notifying _ _ h := nomatch h
  notified h := nomatch h
  ended h := nomatch h

/-- The party that waits moves on. -/
theorem Settling.waiter (hs : Settling s) {pc : Pc (Option κ)}
    (hpc : t.pc = Function.update s.pc none pc) (hpending : t.pending = s.pending)
    (hwait : pc.isWait = true) (hsatisfied : t.satisfied none = true → s.satisfied none = true)
    (hends : pc.ends = true → Settled s) : Settling t := by
  have hsame : ∀ i, t.pc (some i) = s.pc (some i) := fun i ↦ by
    rw [hpc, Function.update_of_ne (by simp)]
  have hself : t.pc none = pc := by rw [hpc, Function.update_self]
  have hsettled : Settled s → Settled t := fun h i ↦ by rw [hsame i]; exact h i
  obtain ⟨h1, h2, h3, h4, h5, h6, h7, h8⟩ := hs
  refine ⟨?_, ?_, ?_, ?_, ?_, ?_, ?_, ?_⟩
  · simpa only [hpending, hsame] using h1
  · simpa only [hsame] using h2
  · rwa [hself]
  · simpa only [hpending, hsame] using h4
  · simpa only [hsame] using h5
  · exact fun i chain hi ↦ hsettled (h6 i chain (hsame i ▸ hi))
  · exact fun h ↦ hsettled (h7 (hsatisfied h))
  · exact fun h ↦ hsettled (hends (hself ▸ h))

/-- A party with its `done` moves on, and stands for the count as before. -/
theorem Settling.done_goto (hs : Settling s) {i : κ} {pc : Pc (Option κ)}
    (hpc : t.pc = Function.update s.pc (some i) pc) (hpending : t.pending = s.pending)
    (hsatisfied : t.satisfied none = true → s.satisfied none = true)
    (hcounts : pc.counts = (s.pc (some i)).counts) (hdone : pc.isDone = true)
    (hlingers : pc.lingers = true → (s.pc (some i)).lingers = true)
    (hnotifying : ∀ chain, pc = .notifying chain → Settled t) : Settling t := by
  have hat := at_update hpc
  have hnone : t.pc none = s.pc none := by rw [hpc, Function.update_of_ne (by simp)]
  have hcount : ∀ j, (t.pc (some j)).counts = (s.pc (some j)).counts := fun j ↦ by
    rw [hat]
    split_ifs with h
    · rw [hcounts, h]
    · rfl
  have hlinger : ∀ j, (t.pc (some j)).lingers = true → (s.pc (some j)).lingers = true := fun j hj ↦
    by
    rw [hat] at hj
    split_ifs at hj with h
    · exact h ▸ hlingers hj
    · exact hj
  have hsettled : Settled s → Settled t := fun h j ↦ by
    have hj := h j
    rw [Pc.touches, Bool.or_eq_false_iff] at hj ⊢
    exact ⟨(hcount j).trans hj.1, by simpa [hj.2] using mt (hlinger j)⟩
  obtain ⟨h1, h2, h3, h4, h5, h6, h7, h8⟩ := hs
  refine ⟨?_, ?_, ?_, ?_, ?_, ?_, ?_, ?_⟩
  · simpa only [hpending, hcount] using h1
  · intro j
    rw [hat]
    split_ifs
    · exact hdone
    · exact h2 j
  · rwa [hnone]
  · exact fun j hj ↦ hpending.trans (h4 j (hlinger j hj))
  · exact fun j k hj hk ↦ h5 j k (hlinger j hj) (hlinger k hk)
  · intro j chain hj
    rw [hat] at hj
    split_ifs at hj
    · exact hnotifying chain hj
    · exact hsettled (h6 j chain hj)
  · exact fun h ↦ hsettled (h7 (hsatisfied h))
  · exact fun h ↦ hsettled (h8 (hnone ▸ h))

omit [DecidableEq κ] in
/-- A count of zero means that every `done` has decremented. -/
theorem Settling.counted (hs : Settling s) (hpending : s.pending = 0) (i : κ) :
    (s.pc (some i)).counts = false := by
  have hempty := Finset.card_eq_zero.mp (hs.count.symm.trans hpending)
  have hi := Finset.filter_eq_empty_iff.mp hempty (Finset.mem_univ i)
  simpa using hi

omit [DecidableEq κ] in
/-- With a count of zero, nobody has an access left once nobody lingers. -/
theorem Settling.settled (hs : Settling s) (hpending : s.pending = 0)
    (hlingers : ∀ i, (s.pc (some i)).lingers = false) : Settled s := fun i ↦ by
  rw [Pc.touches, hs.counted hpending i, hlingers i]
  rfl

/-- The last decrement, or another one. -/
theorem Settling.subtract (hs : Settling s) {i : κ} {pc : Pc (Option κ)} {left : ℕ}
    (hold : s.pc (some i) = .subtracting) (hpending : s.pending = left + 1)
    (hpc : t.pc = Function.update s.pc (some i) pc) (hleft : t.pending = left)
    (hsatisfied : t.satisfied = s.satisfied) (hcounts : pc.counts = false)
    (hdone : pc.isDone = true)
    (hlingers : pc.lingers = true → left = 0) (hnotifying : ∀ chain, pc ≠ .notifying chain) :
    Settling t := by
  have hat := at_update hpc
  have hnone : t.pc none = s.pc none := by rw [hpc, Function.update_of_ne (by simp)]
  have htouches : ¬Settled s := fun h ↦ by
    have hi := h i
    rw [hold] at hi
    exact nomatch hi
  -- Nobody lingers while the count is not zero.
  have hnobody : ∀ j, (s.pc (some j)).lingers = false := fun j ↦ by
    by_contra hj
    have hzero := hs.zero j (by simpa using hj)
    omega
  have honly : ∀ j, (t.pc (some j)).lingers = true → j = i := fun j hj ↦ by
    by_contra hne
    rw [hat, if_neg (by simpa using hne), hnobody j] at hj
    exact nomatch hj
  have hcount : (Finset.univ.filter fun j ↦ (t.pc (some j)).counts = true) =
      (Finset.univ.filter fun j ↦ (s.pc (some j)).counts = true).erase i := by
    ext j
    simp only [Finset.mem_filter, Finset.mem_univ, true_and, Finset.mem_erase, hat,
      Option.some.injEq]
    split_ifs with h
    · simp [h, hcounts]
    · simp [h]
  refine ⟨?_, fun j ↦ ?_, ?_, fun j hj ↦ ?_, fun j k hj hk ↦ (honly j hj).trans (honly k hk).symm,
    fun j chain hj ↦ ?_, fun h ↦ ?_, fun h ↦ ?_⟩
  · have hmem : i ∈ Finset.univ.filter fun j ↦ (s.pc (some j)).counts = true :=
      Finset.mem_filter.mpr ⟨Finset.mem_univ i, by rw [hold]; rfl⟩
    rw [hcount, Finset.card_erase_of_mem hmem, ← hs.count, hpending, hleft, Nat.add_sub_cancel]
  · rw [hat]
    split_ifs
    · exact hdone
    · exact hs.done j
  · rw [hnone]
    exact hs.wait
  · rw [hleft]
    refine hlingers ?_
    rwa [honly j hj, hat, if_pos rfl] at hj
  · rw [hat] at hj
    split_ifs at hj
    · exact absurd hj (hnotifying chain)
    · exact absurd (hs.notifying j chain hj) htouches
  · exact absurd (hs.notified (hsatisfied ▸ h)) htouches
  · exact absurd (hs.ended (hnone ▸ h)) htouches

omit [Fintype κ] in
/-- Once nobody has an access left, a `done` that moves on has none either. -/
theorem Settled.goto (h : Settled s) {p : Option κ} {pc : Pc (Option κ)}
    (hpc : t.pc = Function.update s.pc p pc) (htouches : pc.touches = false) : Settled t := fun i ↦
    by
  rw [at_update hpc]
  split_ifs
  · exact htouches
  · exact h i

theorem settling_notify (hs : Settling s) {i : κ} {w : Option κ} {rest : List (Option κ)}
    (hpc : s.pc (some i) = .notifying (w :: rest))
    (h : (s.setPc (some i) (.notifying rest)).notify kind w = some t) : Settling t := by
  have hsettled : Settled (s.setPc (some i) (.notifying rest)) :=
    (hs.notifying i _ hpc).goto rfl rfl
  have hdrop : Settling (s.setPc (some i) (.notifying rest)) :=
    hs.done_goto rfl rfl id (by rw [hpc]; rfl) rfl nofun fun _ _ ↦ hsettled
  unfold State.notify at h
  split at h
  · split at h
    · rename_i henqueued
      cases w with
      | none => exact absurd hdrop.wait (by rw [henqueued]; nofun)
      | some j => exact absurd (hdrop.done j) (by rw [henqueued]; nofun)
    · cases h
  · cases h
    exact ⟨hdrop.count, hdrop.done, hdrop.wait, hdrop.zero, hdrop.alone, hdrop.notifying,
      fun _ ↦ hsettled, hdrop.ended⟩

theorem settling_done (hs : Settling s) {i : κ} (h : s.act kind (some i) = some t) : Settling t :=
    by
  have hdone := hs.done i
  unfold State.act at h
  split at h
  case h_1 => cases h
  case h_3 part hpc =>
    split_ifs at h
    cases h
    rw [hpc] at hdone
    cases part with
    | release =>
      exact hs.done_goto rfl rfl id (by rw [hpc]; rfl) rfl (fun _ ↦ by rw [hpc]; rfl) nofun
    | _ => cases hdone
  case h_5 chain hpc =>
    cases h
    unfold State.stepPopping
    split
    · exact hs.done_goto rfl rfl id (by rw [hpc]; rfl) rfl (fun _ ↦ by rw [hpc]; rfl) nofun
    · exact hs.done_goto rfl rfl id (by rw [hpc]; rfl) rfl (fun _ ↦ by rw [hpc]; rfl) nofun
  case h_8 after hpc =>
    cases h
    rw [hpc] at hdone
    cases after with
    | notifying chain =>
      refine hs.done_goto rfl rfl id (by rw [hpc]; rfl) rfl nofun fun _ _ ↦ ?_
      have hzero := hs.zero i (by rw [hpc]; rfl)
      intro j
      simp only [State.unlock, State.setPc_pc]
      rcases eq_or_ne j i with rfl | hne
      · rw [Function.update_self]
        rfl
      · rw [Function.update_of_ne (by simpa using hne), Pc.touches, hs.counted hzero j,
          Bool.false_or]
        by_contra hj
        exact hne (hs.alone j i (by simpa using hj) (by rw [hpc]; rfl))
    | _ => cases hdone
  case h_12 hpc =>
    split at h <;> cases h
    · rename_i hone
      exact hs.subtract hpc hone rfl rfl rfl rfl rfl (fun _ ↦ rfl) nofun
    · rename_i left hmore
      exact hs.subtract hpc hmore rfl rfl rfl rfl rfl nofun nofun
  case h_13 hpc =>
    cases h
    exact hs.done_goto rfl rfl id (by rw [hpc]; rfl) rfl nofun nofun
  case h_14 w rest hpc => exact settling_notify hs hpc h
  case h_16 => cases h
  all_goals
    rename_i hpc
    rw [hpc] at hdone
    cases hdone

theorem settling_load (hs : Settling s) (hlate : ReadsLate s (.act none)) {site : Site}
    (hpc : s.pc none = .loading site) : Settling (s.load none site) := by
  have hwait := hs.wait
  rw [hpc] at hwait
  have hsettled : s.pending = 0 → Settled s := fun hzero ↦ 
    hs.settled hzero (hlate (by rw [hpc]; rfl) hzero)
  cases site with
  | ready => cases hwait
  | fast mode =>
    cases mode with
    | waitOrEnqueue => cases hwait
    | wait =>
      simp only [State.load]
      split_ifs with hzero
      · exact hs.waiter rfl rfl rfl id fun _ ↦ hsettled hzero
      · refine hs.waiter rfl rfl rfl ?_ fun h ↦ by cases h
        simp
  | recheck mode =>
    cases mode with
    | waitOrEnqueue => cases hwait
    | wait =>
      simp only [State.load, reduceCtorEq, false_and, if_false]
      split_ifs with hzero
      · exact hs.waiter rfl rfl rfl id fun _ ↦ hsettled hzero
      · exact hs.waiter rfl rfl rfl id fun h ↦ by cases h

theorem settling_wait (hs : Settling s) (hlate : ReadsLate s (.act none))
    (h : s.act kind none = some t) : Settling t := by
  have hwait := hs.wait
  unfold State.act at h
  split at h
  case h_2 site hpc => exact Option.some.inj h ▸ settling_load hs hlate hpc
  case h_3 part hpc =>
    split_ifs at h
    cases h
    rw [hpc] at hwait
    cases part with
    | enqueue mode =>
      cases mode with
      | wait => exact hs.waiter rfl rfl rfl id nofun
      | waitOrEnqueue => cases hwait
    | guard => exact hs.waiter rfl rfl rfl id nofun
    | release => cases hwait
    | cancel target => cases hwait
  case h_4 mode hpc =>
    cases h
    rw [hpc] at hwait
    cases mode with
    | wait => exact hs.waiter rfl rfl rfl id nofun
    | waitOrEnqueue => cases hwait
  case h_7 hpc =>
    cases h
    unfold State.stepGuarding
    split_ifs
    · exact hs.waiter rfl rfl rfl id nofun
    · exact hs.waiter rfl rfl rfl id nofun
  case h_8 after hpc =>
    cases h
    rw [hpc] at hwait
    cases after with
    | returned result =>
      refine hs.waiter rfl rfl rfl id fun hends ↦ hs.ended ?_
      rw [hpc]
      cases result <;> first | rfl | cases hends
    | waiting => exact hs.waiter rfl rfl rfl id nofun
    | awaitingNotifier => exact hs.waiter rfl rfl rfl id nofun
    | enqueued => cases hwait
    | notifying chain => cases hwait
  case h_9 hpc =>
    split_ifs at h with hsatisfied
    cases h
    exact hs.waiter rfl rfl rfl id fun _ ↦ hs.notified hsatisfied
  case h_15 hpc =>
    split_ifs at h
    cases h
    exact hs.waiter rfl rfl rfl id nofun
  all_goals
    first
    | cases h; done
    | rename_i hpc
      rw [hpc] at hwait
      cases hwait

/-- Every step of the protocol that reads late keeps the invariant. -/
theorem settling_step {a : Action (Option κ)} (hs : Settling s) (hlate : ReadsLate s a)
    (h : (protocol kind).step s a = some t) : Settling t := by
  simp only [protocol] at h
  split_ifs at h with hallowed
  obtain ⟨mid, hmove, rfl⟩ := Option.map_eq_some_iff.mp h
  suffices hmid : Settling mid from
    ⟨hmid.count, hmid.done, hmid.wait, hmid.zero, hmid.alone, hmid.notifying, hmid.notified,
      hmid.ended⟩
  cases a with
  | newWaiter p => cases hallowed
  | call p call =>
    simp only [State.move, State.begin] at hmove
    split_ifs at hmove
    obtain ⟨pc, hentry, rfl⟩ := Option.map_eq_some_iff.mp hmove
    cases p with
    | none =>
      cases call with
      | wait =>
        simp only [State.entry, Option.ite_none_left_eq_some, Option.some.injEq] at hentry
        obtain ⟨-, rfl⟩ := hentry
        exact hs.waiter rfl rfl rfl id (fun h ↦ by cases h)
      | _ => cases hallowed
    | some i =>
      cases call with
      | done =>
        cases hentry
        refine hs.done_goto rfl rfl id ?_ rfl (fun h ↦ by cases h) (fun _ h ↦ by cases h)
        simp only [allowed] at hallowed
        cases hpc : s.pc (some i) <;> rw [hpc] at hallowed <;> first | rfl | cases hallowed
      | _ => cases hallowed
  | act p =>
    cases p with
    | none => exact settling_wait hs hlate hmove
    | some i => exact settling_done hs hmove
  | forcedUnwind p =>
    simp only [State.move, State.forcedUnwind] at hmove
    split at hmove
    · rename_i hpc
      cases hmove
      cases p with
      | none => exact hs.waiter rfl rfl rfl id (fun h ↦ by cases h)
      | some i => exact absurd (hs.done i) (by rw [hpc]; intro h; cases h)
    · cases hmove

omit [DecidableEq κ] [Fintype κ] in
/-- A `done` that has no access left has its notifications before it, or nothing. -/
theorem Pc.of_not_touches {pc : Pc (Option κ)} (htouches : pc.touches = false)
    (hdone : pc.isDone = true) :
    (∃ chain, pc = .notifying chain) ∨ ∃ result, pc = .returned result := by
  revert htouches
  fun_cases Pc.isDone pc <;>
    simp_all [Pc.touches, Pc.counts, Pc.lingers, Pc.isDone]

omit [Fintype κ] in
/-- A `done` that has no access left leaves the count, the lock and the list alone. -/
theorem frame_of_not_touches {i : κ} (htouches : (s.pc (some i)).touches = false)
    (hdone : (s.pc (some i)).isDone = true) (h : s.act kind (some i) = some t) :
    t.pending = s.pending ∧ t.lock = s.lock ∧ t.waiters = s.waiters := by
  rcases Pc.of_not_touches htouches hdone with ⟨chain, hpc⟩ | ⟨result, hpc⟩
  · cases chain with
    | nil =>
      simp only [State.act, hpc, Option.some.injEq] at h
      exact h ▸ ⟨rfl, rfl, rfl⟩
    | cons w rest =>
      simp only [State.act, hpc] at h
      unfold State.notify at h
      split at h
      · split at h <;> cases h
        exact ⟨rfl, rfl, rfl⟩
      · exact Option.some.inj h ▸ ⟨rfl, rfl, rfl⟩
  · simp [State.act, hpc] at h

end Steps

/-! ### The results -/

/-- In every run of the protocol in which the waiting party reads no zero while a `done` is between
its decrement and the release of the lock: once `wait` has returned, no `done` has an access to the
count, the lock or the list before it, and the steps they still take leave all three alone. -/
theorem wait_outlasts_done [Fintype κ] {kind : Option κ → Kind} {s : State (Option κ)}
    (hs : (protocol kind).ReachableUnder ReadsLate s) (hreturned : s.pc none = .returned .completed)
    :
    ∀ i, (s.pc (some i)).touches = false ∧
      ∀ t, s.act kind (some i) = some t →
        t.pending = s.pending ∧ t.lock = s.lock ∧ t.waiters = s.waiters := by
  have hsettling : Settling s := by
    refine System.ReachableUnder.invariant ?_ (fun _ _ _ ↦ settling_step) hs
    rintro _ rfl
    exact settling_initial
  intro i
  have htouches := hsettling.ended (by rw [hreturned]; rfl) i
  exact ⟨htouches, fun t ↦ frame_of_not_touches htouches (hsettling.done i)⟩

/-- Two parties with a `done` each and one that waits, is queued, and is notified by the second. -/
def parkedWait : List (Action (Option (Fin 2))) :=
  [.call none .wait, .act none, .act none, .act none, .act none, .act none, .call (some 0) .done,
    .act (some 0), .call (some 1) .done, .act (some 1), .act (some 1), .act (some 1), .act (some 1),
    .act (some 1), .act (some 1), .act none]

theorem wait_outlasts_done_parkedWait :
    ∃ s, (protocol fun _ : Option (Fin 2) ↦ .thread).ReachableUnder ReadsLate s ∧
      s.pc none = .returned .completed ∧ (s.pc (some 0)).touches = false ∧
      (s.pc (some 1)).touches = false := by
  let check : State (Option (Fin 2)) → Action (Option (Fin 2)) → Bool :=
    fun s a ↦ decide (ReadsLate s a)
  let s := ((protocol fun _ ↦ .thread).runUnder check (initial _ 2) parkedWait).get
    (by decide +kernel)
  have hs : (protocol fun _ ↦ .thread).ReachableUnder ReadsLate s :=
    (System.reachableUnder_of_run rfl (Option.some_get _).symm).mono fun _ _ ↦ of_decide_eq_true
  have hreturned : s.pc none = .returned .completed := rfl
  exact ⟨s, hs, hreturned, (wait_outlasts_done hs hreturned 0).1,
    (wait_outlasts_done hs hreturned 1).1⟩

/-- The only party with a `done` brings the count to zero; before it takes the lock, `wait` reads
the zero and returns. -/
def fastWait : List (Action (Option (Fin 1))) :=
  [.call (some 0) .done, .act (some 0), .call none .wait, .act none]

/-- Without the condition, `wait` returns while a `done` still has to lock the group, empty its list
and unlock it. -/
theorem wait_returns_before_done :
    ¬∀ s, (protocol fun _ : Option (Fin 1) ↦ .thread).Reachable s →
      s.pc none = .returned .completed →
      ∀ i, (s.pc (some i)).touches = false ∧
        ∀ t, s.act (fun _ ↦ .thread) (some i) = some t →
          t.pending = s.pending ∧ t.lock = s.lock ∧ t.waiters = s.waiters := by
  intro h
  let s := ((protocol fun _ ↦ .thread).run (initial (Option (Fin 1)) 1) fastWait).get
    (by decide +kernel)
  have hs : (protocol fun _ ↦ .thread).Reachable s :=
    System.reachable_of_run rfl (Option.some_get _).symm
  exact absurd (h s hs rfl 0).1 (by decide +kernel)

end Stackfull.Sync.WaitGroup
