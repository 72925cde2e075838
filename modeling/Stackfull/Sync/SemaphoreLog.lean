import Stackfull.Sync.SemaphoreWaiters
import Mathlib.Data.List.Nodup
import Mathlib.Data.List.Perm.Basic

/-!
# The history of the semaphore

`Order` says that permits are handed over in the order of the queue, `Grants` which calls have
been given a permit, `Increments` which releases have added one, and `Returns` how calls ended. The
two lists of calls are kept in the same way, as a `Tally`: once all its calls have ended, such a
list is as long as there are reports of its kind. Every step preserves all of it, forced unwinds
included.
-/

set_option autoImplicit false
set_option relaxedAutoImplicit false
set_option linter.dupNamespace false

namespace Stackfull.Sync.Semaphore

open Stackfull.Lib

universe u

variable {ι : Type u} [DecidableEq ι]

/-! ### The order of the queue -/

/-- The call of the party may already have queued its waiter. -/
def Pc.mayHaveQueued : Pc ι → Bool
  | .loading _ => false
  | .swapping _ _ => false
  | .locking part => !part.isEnqueue
  | .announcing _ => false
  | .pushing _ => false
  | _ => true

/-- Permits are handed over in the order of the queue, at most one to a call. -/
structure Order (s : State ι) : Prop where
  sublist : (s.handed ++ s.waiters.map s.callOf).Sublist s.enqueued
  nodup : s.enqueued.Nodup
  bounded : ∀ p n, (p, n) ∈ s.enqueued → n ≤ s.callCount p
  queued : ∀ p, s.callOf p ∈ s.enqueued → (s.pc p).mayHaveQueued = true

section OrderStep

variable {c : Config ι} {s t : State ι} {a : Action ι}

omit [DecidableEq ι] in
theorem Section.mayHaveQueued_entry (part : Section ι) :
    part.entry.mayHaveQueued = !part.isEnqueue := by
  cases part <;> rfl

/-- Unlinking a waiter keeps the order of the others. -/
theorem unlink_sublist (target : ι)
    (hsublist : (s.handed ++ s.waiters.map s.callOf).Sublist s.enqueued) :
    (s.handed ++ (s.waiters.unlink target).map s.callOf).Sublist s.enqueued :=
  ((List.erase_sublist.map s.callOf).append_left s.handed).trans hsublist

omit [DecidableEq ι] in
/-- A call that is about to queue its waiter has not done so. -/
theorem Order.not_queued (ho : Order s) {p : ι} {mode : Mode} (hpc : s.pc p = .pushing mode) :
    s.callOf p ∉ s.enqueued := by
  intro hmem
  have hpast := ho.queued p hmem
  rw [hpc] at hpast
  cases hpast

theorem sublist_step (hl : Links c s) (ho : Order s) (h : Step c s a t) :
    (t.handed ++ t.waiters.map t.callOf).Sublist t.enqueued := by
  have hsublist := ho.sublist
  cases h with
  | @begin p call pc hfree hentry =>
    have hsame : s.waiters.map (fun w ↦ (w, Function.update s.callCount p (s.callCount p + 1) w)) =
        s.waiters.map s.callOf := by
      refine List.map_congr_left fun w hw ↦ ?_
      have hwaits := hl.linked w hw
      have hne : w ≠ p := by
        rintro rfl
        rw [State.view_of_isFree (f := Pc.waits) hfree rfl fun _ ↦ rfl] at hwaits
        cases hwaits
      simp [State.callOf, hne]
    show (s.handed ++ s.waiters.map (fun w ↦
      (w, Function.update s.callCount p (s.callCount p + 1) w))).Sublist s.enqueued
    rw [hsame]
    exact hsublist
  | @push p mode hpc =>
    show (s.handed ++ (s.waiters ++ [p]).map s.callOf).Sublist (s.enqueued ++ [s.callOf p])
    rw [List.map_append, ← List.append_assoc]
    exact hsublist.append (List.Sublist.refl [s.callOf p])
  | @cancelTake p target => exact unlink_sublist target hsublist
  | @guardUnlink p => exact unlink_sublist p hsublist
  | @pop p w chain rest hpc hwaiters =>
    rw [hwaiters, List.map_cons] at hsublist
    show ((s.handed ++ [s.callOf w]) ++ rest.map s.callOf).Sublist s.enqueued
    rw [List.append_assoc]
    exact hsublist
  | _ => exact hsublist

theorem enqueuedNodup_step (ho : Order s) (h : Step c s a t) : t.enqueued.Nodup := by
  have hnodup := ho.nodup
  cases h with
  | push hpc =>
    exact hnodup.append (List.nodup_singleton _)
      (List.disjoint_singleton.mpr (ho.not_queued hpc))
  | _ => exact hnodup

omit [DecidableEq ι] in
/-- The call a party begins has queued nothing. -/
theorem Order.next_notMem (ho : Order s) (p : ι) : (p, s.callCount p + 1) ∉ s.enqueued := by
  intro hmem
  have hle := ho.bounded _ _ hmem
  omega

/-- A number that is at most the one of the last call stays so. -/
theorem le_callCount {count : ι → ℕ} {p q : ι} {n : ℕ} (hn : n ≤ count q) :
    n ≤ Function.update count p (count p + 1) q := by
  rcases eq_or_ne q p with rfl | hne
  · rw [Function.update_self]
    exact Nat.le_succ_of_le hn
  · rwa [Function.update_of_ne hne]

theorem bounded_step (ho : Order s) (h : Step c s a t) :
    ∀ p n, (p, n) ∈ t.enqueued → n ≤ t.callCount p := by
  have hbounded := ho.bounded
  cases h with
  | begin => exact fun q n hmem ↦ le_callCount (hbounded q n hmem)
  | @push p =>
    intro q n hmem
    rcases List.mem_append.mp hmem with hold | hnew
    · exact hbounded q n hold
    · obtain ⟨rfl, rfl⟩ := Prod.mk.inj (List.mem_singleton.mp hnew)
      exact Nat.le_refl _
  | _ => exact hbounded

/-- A move of another party, or to a point that may follow the queueing, keeps what is said about
the calls that queued. -/
theorem mayHaveQueued_update {pcs : ι → Pc ι} {p q : ι} {pc : Pc ι}
    (hnew : (pcs p).mayHaveQueued = true → pc.mayHaveQueued = true)
    (hq : (pcs q).mayHaveQueued = true) :
    (Function.update pcs p pc q).mayHaveQueued = true := by
  rcases eq_or_ne q p with rfl | hne
  · rw [Function.update_self]
    exact hnew hq
  · rwa [Function.update_of_ne hne]

theorem queued_step (ho : Order s) (h : Step c s a t) :
    ∀ p, t.callOf p ∈ t.enqueued → (t.pc p).mayHaveQueued = true := by
  have hqueued := ho.queued
  cases h with
  | newWaiter => exact hqueued
  | @begin p call pc hfree hentry =>
    intro q hmem
    rcases eq_or_ne q p with rfl | hne
    · simp only [State.callOf, Function.update_self] at hmem
      exact absurd hmem (ho.next_notMem q)
    · simp only [State.callOf, Function.update_of_ne hne] at hmem
      simpa [hne] using hqueued q hmem
  | tryAgain hpc | makeWaiter hpc | useWaiter hpc | recheckFails hpc =>
    refine fun q hmem ↦ mayHaveQueued_update (fun hold ↦ ?_) (hqueued q hmem)
    rw [Pc.view_of_readsAt (f := Pc.mayHaveQueued) hpc rfl fun _ ↦ rfl] at hold
    cases hold
  | lock hpc =>
    exact fun q hmem ↦ mayHaveQueued_update (fun hold ↦ (Section.mayHaveQueued_entry _).trans
      ((congrArg Pc.mayHaveQueued hpc).symm.trans hold)) (hqueued q hmem)
  | unlock hpc hnext =>
    refine fun q hmem ↦ mayHaveQueued_update (fun _ ↦ ?_) (hqueued q hmem)
    cases hnext <;> rfl
  | announce hpc =>
    refine fun q hmem ↦ mayHaveQueued_update (fun hold ↦ ?_) (hqueued q hmem)
    rw [hpc] at hold
    cases hold
  | @push p mode hpc =>
    intro q hmem
    rcases List.mem_append.mp hmem with hold | hnew
    · exact mayHaveQueued_update (fun _ ↦ rfl) (hqueued q hold)
    · have hq : q = p := congrArg Prod.fst (List.mem_singleton.mp hnew)
      simp [hq, Pc.mayHaveQueued]
  | cancelTake | callback =>
    exact fun q hmem ↦ mayHaveQueued_update (fun _ ↦ rfl)
      (mayHaveQueued_update (fun _ ↦ rfl) (hqueued q hmem))
  | _ => exact fun q hmem ↦ mayHaveQueued_update (fun _ ↦ rfl) (hqueued q hmem)

theorem order_step (hl : Links c s) (ho : Order s) (h : Step c s a t) : Order t where
  sublist := sublist_step hl ho h
  nodup := enqueuedNodup_step ho h
  bounded := bounded_step ho h
  queued := queued_step ho h

end OrderStep

/-! ### How calls end -/

/-- What the call of the party reported, if it has ended. -/
def Pc.ended : Pc ι → Option Result
  | .returned result => some result
  | _ => none

omit [DecidableEq ι] in
theorem Pc.ended_eq_some {pc : Pc ι} {result : Result} :
    pc.ended = some result ↔ pc = .returned result := by
  cases pc <;> simp [Pc.ended]

omit [DecidableEq ι] in
theorem Pc.ended_of_waits {pc : Pc ι} (h : pc.waits = true) : pc.ended = none := by
  cases pc with
  | returned => cases h
  | _ => rfl

omit [DecidableEq ι] in
theorem Section.ended_entry (part : Section ι) : part.entry.ended = none := by
  cases part <;> rfl

/-- The calls that ended are listed once, with what they reported. -/
structure Returns (s : State ι) : Prop where
  bounded : ∀ p n result, ((p, n), result) ∈ s.returns → n ≤ s.callCount p
  current : ∀ p result, (s.callOf p, result) ∈ s.returns ↔ s.pc p = .returned result
  nodup : (s.returns.map Prod.fst).Nodup

/-- What a step does to the calls that ended: nothing, it ends one, or a party begins the next. -/
inductive Ends (s t : State ι) : Prop
  | nothing (hcount : t.callCount = s.callCount) (hreturns : t.returns = s.returns)
      (hended : ∀ q, (t.pc q).ended = (s.pc q).ended)
  | one {p : ι} {result : Result} (hpc : (s.pc p).ended = none) (hcount : t.callCount = s.callCount)
      (hreturns : t.returns = s.returns ++ [(s.callOf p, result)])
      (hended : ∀ q, (t.pc q).ended = Function.update (fun q ↦ (s.pc q).ended) p (some result) q)
  | begins {p : ι} (hfree : s.isFree p = true)
      (hcount : t.callCount = Function.update s.callCount p (s.callCount p + 1))
      (hreturns : t.returns = s.returns)
      (hended : ∀ q, (t.pc q).ended = Function.update (fun q ↦ (s.pc q).ended) p none q)

section ReturnsStep

variable {c : Config ι} {s t : State ι} {a : Action ι}

theorem ends_step (hl : Links c s) (h : Step c s a t) : Ends s t := by
  have hkeep {p : ι} {pc pc' : Pc ι} (hpc : s.pc p = pc) (hold : pc.ended = none)
      (hnew : pc'.ended = none) (q : ι) :
      (Function.update s.pc p pc' q).ended = (s.pc q).ended :=
    view_update ((congrArg Pc.ended hpc).trans hold) hnew q
  have hend {p : ι} {result : Result} (q : ι) :
      (Function.update s.pc p (.returned result) q).ended =
        Function.update (fun q ↦ (s.pc q).ended) p (some result) q :=
    view_move (fun _ ↦ rfl) rfl q
  cases h with
  | newWaiter => exact .nothing rfl rfl fun _ ↦ rfl
  | begin hfree hentry =>
    exact .begins hfree rfl rfl (view_move (fun _ ↦ rfl)
      (State.view_of_entry hentry (fun _ _ ↦ rfl) (fun _ ↦ rfl) rfl))
  | refuse hpc => exact .one (Pc.view_of_readsAt hpc rfl fun _ ↦ rfl) rfl rfl hend
  | acquireFast hpc | unlockReturn hpc | resume hpc | nobody hpc | notified hpc | unwound hpc =>
    exact .one (congrArg Pc.ended hpc) rfl rfl hend
  | tryAgain hpc | makeWaiter hpc | useWaiter hpc | recheckFails hpc =>
    exact .nothing rfl rfl (view_update (Pc.view_of_readsAt hpc rfl fun _ ↦ rfl) rfl)
  | handAgain hpc | handNone hpc =>
    exact .nothing rfl rfl (view_update (Pc.view_of_readsFor hpc rfl fun _ ↦ rfl) rfl)
  | lock hpc => exact .nothing rfl rfl (hkeep hpc rfl (Section.ended_entry _))
  | unlock hpc hnext =>
    exact .nothing rfl rfl (hkeep hpc rfl (hnext.view rfl rfl (fun _ ↦ rfl) rfl))
  | @cancelTake p target hpc hlinked =>
    have hne := ((hl.fits p).2.2 target (congrArg Pc.target hpc)).2
    refine .one (Pc.ended_of_waits (hl.linked target hlinked)) rfl rfl fun q ↦ ?_
    refine (congrArg (fun pcs ↦ (pcs q).ended) (Function.update_comm hne _ _ s.pc)).trans ?_
    exact view_move (hkeep hpc rfl rfl) rfl q
  | callback hpc hkind hne htarget =>
    exact .one (congrArg Pc.ended htarget) rfl rfl (view_move (hkeep hpc rfl rfl) rfl)
  | acquireLocked hpc | refuseCancelled hpc | announce hpc | push hpc | subtract hpc
  | cancelMark hpc | add hpc | somebody hpc | handEmpty hpc | handMore hpc | takeFor hpc | pop hpc
  | fix hpc | wake hpc | unwind _ hpc | guardUnlink hpc | guardAwait hpc =>
    exact .nothing rfl rfl (hkeep hpc rfl rfl)

theorem returns_bounded_step (hr : Returns s) (he : Ends s t) :
    ∀ p n result, ((p, n), result) ∈ t.returns → n ≤ t.callCount p := by
  have hbounded := hr.bounded
  cases he with
  | nothing hcount hreturns => rwa [hcount, hreturns]
  | @one p result hpc hcount hreturns =>
    rw [hcount, hreturns]
    intro q n result' hmem
    rcases List.mem_append.mp hmem with hold | hnew
    · exact hbounded q n result' hold
    · have hcall := congrArg Prod.fst (List.mem_singleton.mp hnew)
      obtain ⟨rfl, rfl⟩ := Prod.mk.inj hcall
      exact Nat.le_refl _
  | begins hfree hcount hreturns =>
    rw [hcount, hreturns]
    exact fun q n result hmem ↦ le_callCount (hbounded q n result hmem)

omit [DecidableEq ι] in
theorem Returns.ended_iff (hr : Returns s) (p : ι) (result : Result) :
    (s.callOf p, result) ∈ s.returns ↔ (s.pc p).ended = some result :=
  (hr.current p result).trans Pc.ended_eq_some.symm

theorem returns_current_step (hr : Returns s) (he : Ends s t) :
    ∀ p result, (t.callOf p, result) ∈ t.returns ↔ t.pc p = .returned result := by
  intro q result
  refine Iff.trans ?_ Pc.ended_eq_some
  cases he with
  | nothing hcount hreturns hended =>
    rw [State.callOf, hcount, hreturns, hended q]
    exact hr.ended_iff q result
  | @one p result' hpc hcount hreturns hended =>
    rw [State.callOf, hcount, hreturns, hended q, List.mem_append, List.mem_singleton]
    rcases eq_or_ne q p with rfl | hne
    · have hnot : (s.callOf q, result) ∉ s.returns := fun hmem ↦ by
        rw [hr.ended_iff, hpc] at hmem
        cases hmem
      simp only [State.callOf] at hnot
      simp [hnot, State.callOf, eq_comm]
    · simpa [State.callOf, hne] using hr.ended_iff q result
  | @begins p hfree hcount hreturns hended =>
    rw [State.callOf, hcount, hreturns, hended q]
    rcases eq_or_ne q p with rfl | hne
    · have hnew : ((q, s.callCount q + 1), result) ∉ s.returns := fun hmem ↦ by
        have hle := hr.bounded _ _ _ hmem
        omega
      simp [hnew]
    · simpa [State.callOf, hne] using hr.ended_iff q result

omit [DecidableEq ι] in
/-- A call still under way is not among those that ended. -/
theorem Returns.not_ended (hr : Returns s) {p : ι} (hpc : (s.pc p).ended = none) :
    s.callOf p ∉ s.returns.map Prod.fst := by
  intro hmem
  obtain ⟨⟨call, result⟩, hentry, hcall⟩ := List.mem_map.mp hmem
  simp only at hcall
  rw [hcall, hr.ended_iff, hpc] at hentry
  cases hentry

theorem returns_nodup_step (hr : Returns s) (he : Ends s t) : (t.returns.map Prod.fst).Nodup := by
  have hnodup := hr.nodup
  cases he with
  | nothing _ hreturns | begins _ _ hreturns => rwa [hreturns]
  | one hpc hcount hreturns =>
    rw [hreturns, List.map_append]
    exact hnodup.append (List.nodup_singleton _) (List.disjoint_singleton.mpr (hr.not_ended hpc))

theorem returns_step (hl : Links c s) (hr : Returns s) (h : Step c s a t) : Returns t where
  bounded := returns_bounded_step hr (ends_step hl h)
  current := returns_current_step hr (ends_step hl h)
  nodup := returns_nodup_step hr (ends_step hl h)

/-- How a call ended that is not the current one of its party stays as it is. -/
theorem Ends.returns_of_past (he : Ends s t) {p : ι} {n : ℕ} (hn : n ≠ t.callCount p)
    (result : Result) : ((p, n), result) ∈ t.returns ↔ ((p, n), result) ∈ s.returns := by
  cases he with
  | nothing _ hreturns | begins _ _ hreturns => rw [hreturns]
  | @one q _ hpc hcount hreturns =>
    rw [hreturns, List.mem_append, List.mem_singleton]
    refine or_iff_left fun hnew ↦ hn ?_
    have hcall : (p, n) = s.callOf q := congrArg Prod.fst hnew
    obtain ⟨rfl, rfl⟩ := Prod.mk.inj hcall
    rw [hcount]

/-- A party's call number changes only when it begins a call. -/
theorem Ends.isFree_of_callCount_ne (he : Ends s t) {p : ι}
    (hne : t.callCount p ≠ s.callCount p) : s.isFree p = true := by
  cases he with
  | nothing hcount | one _ hcount => exact absurd (congrFun hcount p) hne
  | @begins q hfree hcount =>
    rcases eq_or_ne p q with rfl | hpq
    · exact hfree
    · rw [hcount, Function.update_of_ne hpq] at hne
      exact absurd rfl hne

end ReturnsStep

/-! ### Lists of calls -/

/-- A list of calls agrees with the points the parties stand at and with how calls ended: it lists
a call once, the current call of a party when its point is `marked`, and a call that ended when
what it reported says so. -/
structure Tally (s : State ι) (calls : List (ι × ℕ)) (marked : ι → Prop)
    (reported : Result → Bool) : Prop where
  bounded : ∀ p n, (p, n) ∈ calls → n ≤ s.callCount p
  nodup : calls.Nodup
  current : ∀ p, s.callOf p ∈ calls ↔ marked p
  idle : ∀ p, s.pc p = .idle → ¬ marked p
  ended : ∀ p result, s.pc p = .returned result → (marked p ↔ reported result = true)
  agree : ∀ call result, (call, result) ∈ s.returns → (call ∈ calls ↔ reported result = true)
  past : ∀ p n, (p, n) ∈ calls → n = s.callCount p ∨ ∃ result, ((p, n), result) ∈ s.returns

/-- What a step does to such a list: nothing, it adds the current call of a party that becomes
marked, or a party begins a call, which is not marked. -/
inductive Marks (s t : State ι) (calls calls' : List (ι × ℕ)) (marked marked' : ι → Prop) : Prop
  | nothing (hcount : t.callCount = s.callCount) (hcalls : calls' = calls)
      (hmarked : ∀ q, marked' q ↔ marked q)
  | one {p : ι} (hcount : t.callCount = s.callCount) (hcalls : calls' = calls ++ [s.callOf p])
      (hnew : ¬ marked p) (hmarked : ∀ q, marked' q ↔ marked q ∨ q = p)
  | begins {p : ι} (hcount : t.callCount = Function.update s.callCount p (s.callCount p + 1))
      (hcalls : calls' = calls) (hmarked : ∀ q, marked' q ↔ marked q ∧ q ≠ p)

section TallyStep

variable {c : Config ι} {s t : State ι} {a : Action ι} {calls calls' : List (ι × ℕ)}
  {marked marked' : ι → Prop} {reported : Result → Bool}

theorem tally_bounded_step (hy : Tally s calls marked reported)
    (hm : Marks s t calls calls' marked marked') :
    ∀ p n, (p, n) ∈ calls' → n ≤ t.callCount p := by
  have hbounded := hy.bounded
  cases hm with
  | nothing hcount hcalls => rwa [hcount, hcalls]
  | one hcount hcalls =>
    rw [hcount, hcalls]
    intro q n hmem
    rcases List.mem_append.mp hmem with hold | hnew
    · exact hbounded q n hold
    · obtain ⟨rfl, rfl⟩ := Prod.mk.inj (List.mem_singleton.mp hnew)
      exact Nat.le_refl _
  | begins hcount hcalls =>
    rw [hcount, hcalls]
    exact fun q n hmem ↦ le_callCount (hbounded q n hmem)

theorem tally_nodup_step (hy : Tally s calls marked reported)
    (hm : Marks s t calls calls' marked marked') : calls'.Nodup := by
  have hnodup := hy.nodup
  cases hm with
  | nothing _ hcalls | begins _ hcalls => rwa [hcalls]
  | @one p hcount hcalls hnew =>
    rw [hcalls]
    exact hnodup.append (List.nodup_singleton _)
      (List.disjoint_singleton.mpr fun hmem ↦ hnew ((hy.current p).mp hmem))

theorem tally_current_step (hy : Tally s calls marked reported)
    (hm : Marks s t calls calls' marked marked') : ∀ p, t.callOf p ∈ calls' ↔ marked' p := by
  intro q
  have hcurrent := hy.current q
  cases hm with
  | nothing hcount hcalls hmarked =>
    rw [State.callOf, hcount, hcalls, hmarked]
    exact hcurrent
  | @one p hcount hcalls hnew hmarked =>
    rw [State.callOf, hcount, hcalls, hmarked, List.mem_append, List.mem_singleton]
    rcases eq_or_ne q p with rfl | hne
    · simp [State.callOf]
    · simpa [State.callOf, hne] using hcurrent
  | @begins p hcount hcalls hmarked =>
    rw [State.callOf, hcount, hcalls, hmarked]
    rcases eq_or_ne q p with rfl | hne
    · have hnew : (q, s.callCount q + 1) ∉ calls := fun hmem ↦ by
        have hle := hy.bounded _ _ hmem
        omega
      simp [hnew]
    · simpa [State.callOf, hne] using hcurrent

/-- What such a list says about a call that is not the current one of its party stays as it is. -/
theorem Marks.calls_of_past (hm : Marks s t calls calls' marked marked') {p : ι} {n : ℕ}
    (hn : n ≠ t.callCount p) : (p, n) ∈ calls' ↔ (p, n) ∈ calls := by
  cases hm with
  | nothing _ hcalls | begins _ hcalls => rw [hcalls]
  | one hcount hcalls =>
    rw [hcalls, List.mem_append, List.mem_singleton]
    refine or_iff_left fun hnew ↦ hn ?_
    obtain ⟨rfl, rfl⟩ := Prod.mk.inj hnew
    rw [hcount]

/-- A step keeps the agreement of a list of calls if it keeps it for the current calls. -/
theorem Tally.step (hl : Links c s) (hr : Returns s) (hy : Tally s calls marked reported)
    (h : Step c s a t) (hm : Marks s t calls calls' marked marked')
    (hidle : ∀ p, t.pc p = .idle → ¬ marked' p)
    (hended : ∀ p result, t.pc p = .returned result → (marked' p ↔ reported result = true)) :
    Tally t calls' marked' reported := by
  have he := ends_step hl h
  have hcurrent := tally_current_step hy hm
  refine ⟨tally_bounded_step hy hm, tally_nodup_step hy hm, hcurrent, hidle, hended, ?_, ?_⟩
  · rintro ⟨p, n⟩ result hmem
    by_cases hn : n = t.callCount p
    · subst hn
      exact (hcurrent p).trans (hended p result ((returns_current_step hr he p result).mp hmem))
    · rw [hm.calls_of_past hn]
      exact hy.agree _ _ ((he.returns_of_past hn result).mp hmem)
  · intro p n hmem
    by_cases hn : n = t.callCount p
    · exact .inl hn
    · have hreturns := he.returns_of_past hn
      have hold := (hm.calls_of_past hn).mp hmem
      rcases hy.past p n hold with rfl | ⟨result, hresult⟩
      · rcases State.of_isFree (he.isFree_of_callCount_ne (Ne.symm hn)) with hfree | ⟨result, hpc⟩
        · exact absurd ((hy.current p).mp hold) (hy.idle p hfree)
        · exact .inr ⟨result, (hreturns result).mpr ((hr.current p result).mpr hpc)⟩
      · exact .inr ⟨result, (hreturns result).mpr hresult⟩

omit [DecidableEq ι] in
/-- Once every listed call has ended, the list is as long as there are such reports. -/
theorem Tally.length_eq (hy : Tally s calls marked reported) (hr : Returns s)
    (hall : ∀ call ∈ calls, ∃ result, (call, result) ∈ s.returns) :
    calls.length = (s.returns.filter fun entry ↦ reported entry.2).length := by
  have hnodup : ((s.returns.filter fun entry ↦ reported entry.2).map Prod.fst).Nodup :=
    hr.nodup.sublist (List.filter_sublist.map Prod.fst)
  have hsame : calls.Perm ((s.returns.filter fun entry ↦ reported entry.2).map Prod.fst) := by
    refine (List.perm_ext_iff_of_nodup hy.nodup hnodup).mpr fun call ↦ ?_
    constructor
    · intro hcall
      obtain ⟨result, hresult⟩ := hall call hcall
      have hreported := (hy.agree call result hresult).mp hcall
      exact List.mem_map.mpr ⟨(call, result), List.mem_filter.mpr ⟨hresult, hreported⟩, rfl⟩
    · intro hcall
      obtain ⟨⟨call', result⟩, hmem, rfl⟩ := List.mem_map.mp hcall
      obtain ⟨hresult, hreported⟩ := List.mem_filter.mp hmem
      exact (hy.agree call' result hresult).mpr hreported
  rw [hsame.length_eq, List.length_map]

end TallyStep

/-! ### The calls that were given a permit -/

/-- The call that ends this way was given a permit. -/
def Result.granted : Result → Bool
  | .acquired => true
  | .unwound wasLinked => !wasLinked
  | _ => false

/-- The party goes on with a permit taken for it. -/
def After.granted : After ι → Bool
  | .returned result => result.granted
  | .awaitingNotifier => true
  | _ => false

/-- The point says that the call was given a permit. -/
def Pc.granted : Pc ι → Bool
  | .subtracting result => result.granted
  | .unlocking after => after.granted
  | .awaitingNotifier => true
  | .returned result => result.granted
  | _ => false

/-- The call of the party was given a permit: the point says so, or its waiter was taken off the
list. -/
def State.Granted (s : State ι) (p : ι) : Prop :=
  (s.pc p).granted = true ∨ ((s.pc p).waits = true ∧ p ∉ s.waiters)

omit [DecidableEq ι] in
theorem Pc.granted_of_waits {pc : Pc ι} (h : pc.waits = true) : pc.granted = false := by
  cases pc with
  | unlocking after => cases after <;> first | rfl | cases h
  | locking | waiting | enqueued | guarding => rfl
  | _ => cases h

/-- What a point says about a permit: the call was given one, or its waiter is in use. -/
def Pc.account (pc : Pc ι) : Bool × Bool :=
  (pc.granted, pc.waits)

omit [DecidableEq ι] in
theorem Section.account_entry (part : Section ι) : part.entry.account = (false, part.isGuard) := by
  cases part <;> rfl

/-- Each call that was given a permit was given one. -/
def Grants (s : State ι) : Prop :=
  Tally s s.grants s.Granted Result.granted

section GrantsStep

variable {c : Config ι} {s t : State ι} {a : Action ι}

omit [DecidableEq ι] in
/-- Whether a call was given a permit depends on what its point says and on the list. -/
theorem granted_congr {q : ι} (hpc : (t.pc q).account = (s.pc q).account)
    (hlinked : q ∈ t.waiters ↔ q ∈ s.waiters) : t.Granted q ↔ s.Granted q := by
  obtain ⟨hgranted, hwaits⟩ := Prod.mk.inj hpc
  rw [State.Granted, State.Granted, hgranted, hwaits, hlinked]

omit [DecidableEq ι] in
/-- A waiter on the list was given nothing yet. -/
theorem not_granted_of_linked {q : ι} (hwaits : (s.pc q).waits = true) (hlinked : q ∈ s.waiters) :
    ¬ s.Granted q := by
  simp [State.Granted, Pc.granted_of_waits hwaits, hlinked]

theorem grants_marks (hl : Links c s) (h : Step c s a t) :
    Marks s t s.grants t.grants s.Granted t.Granted := by
  have hview {pc : Pc ι} {p : ι} {account : Bool × Bool}
      (hpc : t.pc = Function.update s.pc p pc) (hwaiters : t.waiters = s.waiters)
      (hold : (s.pc p).account = account) (hnew : pc.account = account) (q : ι) :
      t.Granted q ↔ s.Granted q := by
    refine granted_congr ?_ (by rw [hwaiters])
    rw [hpc]
    exact view_update hold hnew q
  -- a call that had no permit and whose party gets one, or the other way round
  have hmove {pc : Pc ι} {p : ι} (hpc : t.pc = Function.update s.pc p pc)
      (hp : t.Granted p ↔ s.Granted p) (hlinked : ∀ q, q ≠ p → (q ∈ t.waiters ↔ q ∈ s.waiters))
      (q : ι) : t.Granted q ↔ s.Granted q := by
    rcases eq_or_ne q p with rfl | hne
    · exact hp
    · exact granted_congr (by rw [hpc, Function.update_of_ne hne]) (hlinked q hne)
  cases h with
  | newWaiter => exact .nothing rfl rfl fun _ ↦ Iff.rfl
  | @begin p call pc hfree hentry =>
    refine .begins rfl rfl fun q ↦ ?_
    rcases eq_or_ne q p with rfl | hne
    · have hnew : pc.account = (false, false) :=
        State.view_of_entry hentry (fun _ _ ↦ rfl) (fun _ ↦ rfl) rfl
      obtain ⟨hgranted, hwaits⟩ := Prod.mk.inj hnew
      simp [State.Granted, hgranted, hwaits]
    · simp [State.Granted, hne]
  | tryAgain hpc | refuse hpc | makeWaiter hpc | useWaiter hpc | recheckFails hpc =>
    exact .nothing rfl rfl (hview rfl rfl (Pc.view_of_readsAt hpc rfl fun _ ↦ rfl) rfl)
  | handAgain hpc | handNone hpc =>
    exact .nothing rfl rfl (hview rfl rfl (Pc.view_of_readsFor hpc rfl fun _ ↦ rfl) rfl)
  | @acquireFast p site left hpc | @acquireLocked p mode left hpc =>
    refine .one rfl rfl ?_ fun q ↦ ?_
    · simp [State.Granted, hpc, Pc.granted, Pc.waits]
    · rcases eq_or_ne q p with rfl | hne
      · simp [State.Granted, Pc.granted, Result.granted]
      · simp [State.Granted, hne]
  | lock hpc =>
    exact .nothing rfl rfl (hview rfl rfl (congrArg Pc.account hpc) (Section.account_entry _))
  | unlock hpc hnext =>
    refine .nothing rfl rfl (hview rfl rfl (congrArg Pc.account hpc) ?_)
    cases hnext <;> rfl
  | @push p mode hpc =>
    refine .nothing rfl rfl (hmove rfl ?_ fun q hne ↦ ?_)
    · cases mode <;> simp [State.Granted, hpc, Pc.granted, After.granted, Pc.waits, Mode.queued,
        WaitList.pushBack]
    · simp [WaitList.pushBack, hne]
  | @resume p hpc hsatisfied =>
    have hoff := hl.not_mem_of_satisfied hpc hsatisfied
    refine .nothing rfl rfl (hmove rfl ?_ fun _ _ ↦ Iff.rfl)
    simp [State.Granted, hpc, hoff, Pc.granted, Result.granted, Pc.waits]
  | @cancelTake p target hpc hlinked =>
    refine .nothing rfl rfl fun q ↦ ?_
    rcases eq_or_ne q p with rfl | hne
    · simp [State.Granted, hpc, Pc.granted, Result.granted, Pc.waits]
    · rcases eq_or_ne q target with rfl | hq
      · refine iff_of_false ?_ (not_granted_of_linked (hl.linked q hlinked) hlinked)
        simp [State.Granted, hne, Pc.granted, Result.granted, Pc.waits]
      · exact granted_congr (by simp [hne, hq]) (List.mem_erase_of_ne hq)
  | @guardUnlink p hpc hlinked =>
    refine .nothing rfl rfl (hmove rfl ?_ fun q hne ↦ ?_)
    · simp [State.Granted, hpc, hlinked, Pc.granted, Result.granted, Pc.waits]
    · exact List.mem_erase_of_ne hne
  | @guardAwait p hpc hunlinked =>
    refine .nothing rfl rfl (hmove rfl ?_ fun _ _ ↦ Iff.rfl)
    simp [State.Granted, hpc, hunlinked, Pc.granted, After.granted, Pc.waits]
  | @pop p w chain rest hpc hwaiters =>
    have hlinked : w ∈ s.waiters := hwaiters ▸ List.mem_cons_self
    have hwaits := hl.linked w hlinked
    have hoff : w ∉ rest := (List.nodup_cons.mp (hwaiters ▸ hl.nodup)).1
    have hsame := view_update (f := Pc.account) (congrArg Pc.account hpc)
      (rfl : (Pc.fixing (chain ++ [w])).account = (false, false))
    refine .one rfl rfl (not_granted_of_linked hwaits hlinked) fun q ↦ ?_
    rcases eq_or_ne q w with rfl | hne
    · exact iff_of_true (.inr ⟨(congrArg Prod.snd (hsame q)).trans hwaits, hoff⟩) (.inr rfl)
    · refine (granted_congr (hsame q) ?_).trans (or_iff_left hne).symm
      simp [hwaiters, hne]
  | @callback p w rest hpc hkind hne htarget =>
    have hoff := (hl.owed_head hpc).2.1
    refine .nothing rfl rfl fun q ↦ ?_
    rcases eq_or_ne q w with rfl | hq
    · simp [State.Granted, htarget, hoff, Pc.granted, Result.granted, Pc.waits]
    · have hsame := view_update (f := Pc.account) (congrArg Pc.account hpc)
        (rfl : (Pc.notifying rest).account = (false, false))
      exact granted_congr ((congrArg Pc.account (Function.update_of_ne hq _ _)).trans (hsame q))
        Iff.rfl
  | refuseCancelled hpc | announce hpc | subtract hpc | unlockReturn hpc | cancelMark hpc
  | add hpc | nobody hpc | somebody hpc | handEmpty hpc | handMore hpc | takeFor hpc
  | fix hpc | notified hpc | wake hpc | unwind _ hpc | unwound hpc =>
    exact .nothing rfl rfl (hview rfl rfl (congrArg Pc.account hpc) rfl)

theorem grants_step (hl : Links c s) (hr : Returns s) (hg : Grants s) (h : Step c s a t) :
    Grants t := by
  refine Tally.step hl hr hg h (grants_marks hl h) ?_ ?_
  · intro p hpc
    simp [State.Granted, hpc, Pc.granted, Pc.waits]
  · intro p result hpc
    simp [State.Granted, hpc, Pc.granted, Pc.waits]

end GrantsStep

/-! ### The releases that added their permit -/

/-- The call is a `release`. -/
def Result.isReleased : Result → Bool
  | .released => true
  | _ => false

/-- The party goes on with a `release`. -/
def After.added : After ι → Bool
  | .returned result => result.isReleased
  | .notifying _ => true
  | _ => false

/-- The party is in a `release` that has added its permit. -/
def Pc.added : Pc ι → Bool
  | .checking => true
  | .locking part => part.isHandOver
  | .handing _ => true
  | .loadingFor _ => true
  | .swappingFor _ _ => true
  | .popping _ => true
  | .fixing _ => true
  | .subtracting result => result.isReleased
  | .unlocking after => after.added
  | .notifying _ => true
  | .returned result => result.isReleased
  | _ => false

/-- Each release adds one permit. -/
def Increments (s : State ι) : Prop :=
  Tally s s.increments (fun p ↦ (s.pc p).added = true) Result.isReleased

omit [DecidableEq ι] in
theorem Section.added_entry (part : Section ι) : part.entry.added = part.isHandOver := by
  cases part <;> rfl

omit [DecidableEq ι] in
theorem Mode.added_queued (mode : Mode) : (mode.queued : After ι).added = false := by
  cases mode <;> rfl

omit [DecidableEq ι] in
theorem Pc.added_of_waits {pc : Pc ι} (h : pc.waits = true) : pc.added = false := by
  cases pc with
  | unlocking after => cases after <;> first | rfl | cases h
  | locking part => cases part <;> first | rfl | cases h
  | waiting | enqueued | guarding => rfl
  | _ => cases h

section IncrementsStep

variable {c : Config ι} {s t : State ι} {a : Action ι}

theorem increments_marks (hl : Links c s) (h : Step c s a t) :
    Marks s t s.increments t.increments (fun p ↦ (s.pc p).added = true)
      (fun p ↦ (t.pc p).added = true) := by
  have hsame (hview : ∀ q, (t.pc q).added = (s.pc q).added) (q : ι) :
      (t.pc q).added = true ↔ (s.pc q).added = true := by rw [hview]
  cases h with
  | newWaiter => exact .nothing rfl rfl fun _ ↦ Iff.rfl
  | @begin p call pc hfree hentry =>
    refine .begins rfl rfl fun q ↦ ?_
    rcases eq_or_ne q p with rfl | hne
    · have hnew : pc.added = false :=
        State.view_of_entry hentry (fun _ _ ↦ rfl) (fun _ ↦ rfl) rfl
      simp [hnew]
    · simp [hne]
  | @add p hpc =>
    refine .one (p := p) rfl rfl ?_ fun q ↦ ?_
    · simp [hpc, Pc.added]
    · rcases eq_or_ne q p with rfl | hne
      · simp [Pc.added]
      · simp [hne]
  | tryAgain hpc | refuse hpc | makeWaiter hpc | useWaiter hpc | recheckFails hpc =>
    exact .nothing rfl rfl (hsame (view_update (Pc.view_of_readsAt hpc rfl fun _ ↦ rfl) rfl))
  | handAgain hpc | handNone hpc =>
    exact .nothing rfl rfl (hsame (view_update (Pc.view_of_readsFor hpc rfl fun _ ↦ rfl) rfl))
  | lock hpc =>
    exact .nothing rfl rfl (hsame (view_update (congrArg Pc.added hpc) (Section.added_entry _)))
  | unlock hpc hnext =>
    refine .nothing rfl rfl (hsame (view_update (congrArg Pc.added hpc) ?_))
    cases hnext <;> rfl
  | push hpc =>
    exact .nothing rfl rfl (hsame (view_update (congrArg Pc.added hpc) (Mode.added_queued _)))
  | cancelTake hpc hlinked =>
    exact .nothing rfl rfl (hsame (view_update_pair (congrArg Pc.added hpc) rfl
      (fun _ ↦ Pc.added_of_waits (hl.linked _ hlinked)) rfl))
  | callback hpc hkind hne htarget =>
    exact .nothing rfl rfl (hsame (view_update_pair (congrArg Pc.added htarget) rfl
      (fun _ ↦ congrArg Pc.added hpc) rfl))
  | acquireFast hpc | acquireLocked hpc | refuseCancelled hpc | announce hpc | subtract hpc
  | unlockReturn hpc | resume hpc | cancelMark hpc | nobody hpc | somebody hpc | handEmpty hpc
  | handMore hpc | takeFor hpc | pop hpc | fix hpc | notified hpc | wake hpc | unwind _ hpc
  | guardUnlink hpc | guardAwait hpc | unwound hpc =>
    exact .nothing rfl rfl (hsame (view_update (congrArg Pc.added hpc) rfl))

theorem increments_step (hl : Links c s) (hr : Returns s) (hi : Increments s)
    (h : Step c s a t) : Increments t := by
  refine Tally.step hl hr hi h (increments_marks hl h) ?_ ?_
  · intro p hpc
    simp [hpc, Pc.added]
  · intro p result hpc
    simp [hpc, Pc.added]

end IncrementsStep

end Stackfull.Sync.Semaphore
