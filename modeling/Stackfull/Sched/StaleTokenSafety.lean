import Stackfull.Sched.StaleToken

/-!
# When a stale token hides a wake

While the waiter is committed to parking (it has read `satisfied` as false and has not seen a token
since), a notifier that has stored `satisfied` still has the word to read, or the word holds a token
that the waiter will find (`Task.Safe.heard`, `Futex.Safe.heard`). The one step that breaks this is
a notifier's access of the word between the waiter's test of `satisfied` and the moment its
consuming store reaches memory; without such a step no wake is lost
(`stale_token_hides_no_wake`), and with one it is (`wake_lost_behind_stale_token`).
-/

set_option autoImplicit false
set_option relaxedAutoImplicit false
set_option linter.dupNamespace false

namespace Stackfull.Sched.StaleToken

open Stackfull.Lib
open Stackfull.Sched.Tasks (TaskState)

universe u

variable {ι : Type u} [DecidableEq ι]

section Steps

variable {τ π ν : Type}

omit [DecidableEq ι] in
/-- A read-modify-write of a state: on an empty buffer, and only memory changes. -/
theorem State.modify_eq_some_iff {s t : State ι τ π ν} {thread : Thread ι}
    {f : Memory τ → Memory τ} :
    s.modify thread f = some t ↔
      s.tso.buffer thread = [] ∧
        t = { s with tso := { s.tso with memory := f s.tso.memory } } := by
  rw [State.modify, Option.map_eq_some_iff]
  constructor
  · rintro ⟨tso, htso, rfl⟩
    obtain ⟨hempty, rfl⟩ := Tso.modify_eq_some_iff.mp htso
    exact ⟨hempty, rfl⟩
  · rintro ⟨hempty, rfl⟩
    exact ⟨_, Tso.modify_eq_some_iff.mpr ⟨hempty, rfl⟩, rfl⟩

/-- The oldest store of a thread reaches memory. -/
theorem State.drain_eq_some_iff {s t : State ι τ π ν} {thread : Thread ι} :
    s.drain thread = some t ↔
      ∃ w rest, s.tso.buffer thread = w :: rest ∧
        t = { s with tso := ⟨w.apply s.tso.memory, Function.update s.tso.buffer thread rest⟩ } := by
  simp only [State.drain, Option.map_eq_some_iff, Tso.drain_eq_some_iff]
  constructor
  · rintro ⟨_, ⟨w, rest, hbuffer, rfl⟩, rfl⟩
    exact ⟨w, rest, hbuffer, rfl⟩
  · rintro ⟨w, rest, hbuffer, rfl⟩
    exact ⟨_, ⟨w, rest, hbuffer, rfl⟩, rfl⟩

end Steps

/-! ### A task as the waiter -/

namespace Task

/-- The waiter has found `satisfied` false and goes on to park. -/
def WaiterPc.Committed (pc : WaiterPc) : Prop :=
  pc = .load ∨ pc = .swap ∨ pc = .parked

/-- The notifier has stored `satisfied` and has the word still to read. -/
def NotifierPc.WillRead : NotifierPc → Prop
  | .pin => True
  | .load => True
  | .swap _ => True
  | _ => False

/-- The notifier has taken the waiter out of `Parked` and has not scheduled it yet. -/
def NotifierPc.Wakes (pc : NotifierPc) : Prop :=
  pc = .store ∨ pc = .schedule

/-- What holds in every state. -/
structure Safe (s : TaskWait ι) : Prop where
  consumes : ∀ w ∈ s.pending, w = .word .running
  tells : ∀ i, s.tso.buffer (.notifier i) = [] ∨
    s.notifier i = .pin ∧ s.tso.buffer (.notifier i) = [.satisfied] ∨
    s.notifier i = .schedule ∧ s.tso.buffer (.notifier i) = [.word .running]
  settled : s.waiter = .parked → s.pending = []
  live : s.tso.memory.word ≠ .done
  asleep : s.tso.memory.word = .parked →
    s.waiter = .parked ∧ ∀ i, ¬(s.notifier i).Wakes
  waking : ∀ i, (s.notifier i).Wakes → s.waiter = .parked
  alone : ∀ i j, (s.notifier i).Wakes → (s.notifier j).Wakes → i = j
  heard : s.tso.memory.satisfied = true → s.waiter.Committed →
    (∃ i, (s.notifier i).WillRead) ∨ (s.tso.memory.word = .notified ∧ s.pending = []) ∨
      ∃ i, (s.notifier i).Wakes

attribute [local grind] WaiterPc.Committed NotifierPc.WillRead NotifierPc.Wakes State.pending
  State.gotoWaiter State.goto State.store Tso.store Store.apply afterRead parkSwap

omit [DecidableEq ι] in
/-- Nothing is amiss at the start. -/
theorem safe_start (word : TaskState) (hword : word = .running ∨ word = .notified) :
    Safe (State.start word .test .begin : TaskWait ι) := by
  constructor <;> first | assumption | grind -linarith [State.start]

omit [DecidableEq ι] in
/-- The waiter's own stores do not touch `satisfied`. -/
theorem Safe.satisfied_view {s : TaskWait ι} (hs : Safe s) :
    (s.view .waiter).satisfied = s.tso.memory.satisfied := by
  refine Tso.view_field Store.apply Memory.satisfied s.tso .waiter fun w hw memory ↦ ?_
  rw [hs.consumes w hw]
  rfl

theorem safe_waiter {s t : TaskWait ι} (hs : Safe s) (h : waiterStep s = some t) : Safe t := by
  have hview := hs.satisfied_view
  obtain ⟨h1, h2, h3, h4, h5, h6, h7, h8⟩ := hs
  cases hpc : s.waiter <;> simp only [waiterStep, hpc, Option.some.injEq, Option.map_eq_some_iff,
    State.modify_eq_some_iff, reduceCtorEq, State.gotoWaiter, State.store, Tso.store] at h
  · subst h
    constructor <;> dsimp only [State.pending] at * <;> first | assumption | grind -linarith
  · subst h
    constructor <;> dsimp only [State.pending] at * <;> first | assumption | grind -linarith
  · subst h
    constructor <;> dsimp only [State.pending] at * <;> first | assumption | grind -linarith
  · obtain ⟨_, ⟨hempty, rfl⟩, rfl⟩ := h
    constructor <;> dsimp only [State.pending] at * <;> first | assumption | grind -linarith
  · subst h
    constructor <;> dsimp only [State.pending] at * <;> first | assumption | grind -linarith

omit [DecidableEq ι] in
/-- A notifier that has not issued a store sees memory. -/
theorem view_notifier {s : TaskWait ι} {i : ι} (hempty : s.tso.buffer (.notifier i) = []) :
    s.view (.notifier i) = s.tso.memory :=
  Tso.view_of_empty Store.apply hempty

omit [DecidableEq ι] in
/-- A committed waiter that did not test too early has nothing pending. -/
theorem Safe.pending_eq_nil {s : TaskWait ι} (hs : Safe s) (hcommitted : s.waiter.Committed)
    (hlate : retestedEarly s = false) : s.pending = [] := by
  rcases hcommitted with hpc | hpc | hpc
  · simpa [retestedEarly, hpc] using hlate
  · simpa [retestedEarly, hpc] using hlate
  · exact hs.settled hpc

omit [DecidableEq ι] in
/-- A notifier that has nothing left to do after its read has read a token. -/
theorem willRead_afterRead {word : TaskState} (hlive : word ≠ .done) (hword : word ≠ .notified) :
    (afterRead word).WillRead := by
  cases word with
  | running => trivial
  | parked => trivial
  | notified => exact absurd rfl hword
  | done => exact absurd rfl hlive

theorem heard_afterRead {s : TaskWait ι} {i : ι} (hs : Safe s) (hlate : retestedEarly s = false)
    (hcommitted : s.waiter.Committed) :
    (∃ j, (Function.update s.notifier i (afterRead s.tso.memory.word) j).WillRead) ∨
      (s.tso.memory.word = .notified ∧ s.pending = []) := by
  by_cases hword : s.tso.memory.word = .notified
  · exact Or.inr ⟨hword, hs.pending_eq_nil hcommitted hlate⟩
  · exact Or.inl (exists_update_self (willRead_afterRead hs.live hword))

theorem safe_notifier {s t : TaskWait ι} {i : ι} {spurious : Bool} (hs : Safe s)
    (hsees : seesConsumption s (.notifier i spurious) = true)
    (h : notifierStep s i spurious = some t) : Safe t := by
  have hview := fun hempty ↦ view_notifier (s := s) (i := i) hempty
  have hread := heard_afterRead (s := s) (i := i) hs
  have hpending := fun hcommitted ↦ hs.pending_eq_nil hcommitted
  obtain ⟨h1, h2, h3, h4, h5, h6, h7, h8⟩ := hs
  cases hpc : s.notifier i with
  | begin =>
    simp only [notifierStep, hpc, Option.some.injEq] at h
    subst h
    refine ⟨?_, ?_, ?_, ?_, ?_, ?_, ?_, fun _ _ ↦ Or.inl (exists_update_self trivial)⟩ <;>
      dsimp only [State.pending, State.goto, State.store, Tso.store] at * <;> grind -linarith
  | pin =>
    simp only [notifierStep, hpc, Option.map_eq_some_iff, State.modify_eq_some_iff] at h
    obtain ⟨_, ⟨hempty, rfl⟩, rfl⟩ := h
    refine ⟨?_, ?_, ?_, ?_, ?_, ?_, ?_, fun _ _ ↦ Or.inl (exists_update_self trivial)⟩ <;>
      dsimp only [State.pending, State.goto] at * <;> grind -linarith
  | load =>
    have hempty : s.tso.buffer (.notifier i) = [] := by grind -linarith
    simp only [notifierStep, hpc, Option.some.injEq, hview hempty] at h
    subst h
    refine ⟨?_, ?_, ?_, ?_, ?_, ?_, ?_, fun hS hcommitted ↦ ?_⟩
    case refine_8 =>
      have hlate : retestedEarly s = false := by simpa [seesConsumption, hpc] using hsees
      exact (hread hlate hcommitted).imp_right Or.inl
    all_goals
      dsimp only [State.pending, State.goto] at *
      grind -linarith
  | swap seen =>
    have hlate : retestedEarly s = false := by simpa [seesConsumption, hpc] using hsees
    simp only [notifierStep, hpc] at h
    by_cases hword : s.tso.memory.word = seen ∧ spurious = false
    · simp only [if_pos hword, Option.map_eq_some_iff, State.modify_eq_some_iff] at h
      obtain ⟨_, ⟨hempty, rfl⟩, rfl⟩ := h
      refine ⟨?_, ?_, ?_, ?_, ?_, ?_, ?_, fun hS hcommitted ↦ ?_⟩
      case refine_8 => exact Or.inr (Or.inl ⟨rfl, hpending hcommitted hlate⟩)
      all_goals
      dsimp only [State.pending, State.goto] at *
      grind -linarith
    · simp only [if_neg hword, Option.map_eq_some_iff, State.modify_eq_some_iff] at h
      obtain ⟨_, ⟨hempty, rfl⟩, rfl⟩ := h
      refine ⟨?_, ?_, ?_, ?_, ?_, ?_, ?_, fun hS hcommitted ↦ ?_⟩
      case refine_8 => exact (hread hlate hcommitted).imp_right Or.inl
      all_goals
      dsimp only [State.pending, State.goto] at *
      grind -linarith
  | store =>
    simp only [notifierStep, hpc, Option.some.injEq] at h
    subst h
    refine ⟨?_, ?_, ?_, ?_, ?_, ?_, ?_,
      fun _ _ ↦ Or.inr (Or.inr (exists_update_self (Or.inr rfl)))⟩ <;>
      dsimp only [State.pending, State.goto, State.store, Tso.store] at * <;> grind -linarith
  | schedule =>
    simp only [notifierStep, hpc, Option.map_eq_some_iff, State.modify_eq_some_iff] at h
    obtain ⟨_, ⟨hempty, rfl⟩, rfl⟩ := h
    constructor <;> dsimp only [State.pending, State.goto, State.gotoWaiter] at * <;>
      first | assumption | grind -linarith
  | unpin =>
    simp only [notifierStep, hpc, Option.map_eq_some_iff, State.modify_eq_some_iff] at h
    obtain ⟨_, ⟨hempty, rfl⟩, rfl⟩ := h
    refine ⟨?_, ?_, ?_, ?_, ?_, ?_, ?_, fun hS hcommitted ↦ ?_⟩
    case refine_8 =>
      refine (h8 hS hcommitted).imp (exists_update fun hi ↦ ?_)
        (Or.imp_right (exists_update fun hi ↦ ?_))
      · rw [hpc] at hi
        exact hi.elim
      · rw [hpc] at hi
        grind -linarith
    all_goals
      dsimp only [State.pending, State.goto] at *
      grind -linarith
  | finished => simp [notifierStep, hpc] at h

theorem safe_drain {s t : TaskWait ι} {thread : Thread ι} (hs : Safe s)
    (h : s.drain thread = some t) : Safe t := by
  obtain ⟨w, rest, hbuffer, rfl⟩ := State.drain_eq_some_iff.mp h
  obtain ⟨h1, h2, h3, h4, h5, h6, h7, h8⟩ := hs
  cases thread with
  | waiter =>
    have hw : w = .word .running := h1 w (by rw [State.pending, hbuffer]; exact List.mem_cons_self)
    subst hw
    constructor <;> dsimp only [State.pending] at * <;> first | assumption | grind -linarith
  | notifier i =>
    constructor <;> dsimp only [State.pending] at * <;> first | assumption | grind -linarith

/-- Every step keeps the invariant, if it sees the consumption of the token. -/
theorem safe_step {s t : TaskWait ι} {a : Action ι} (hs : Safe s)
    (hsees : seesConsumption s a = true) (h : step s a = some t) : Safe t := by
  cases a with
  | waiter => exact safe_waiter hs h
  | notifier i spurious => exact safe_notifier hs hsees h
  | drain thread => exact safe_drain hs h
  | interrupt => simp [step] at h

omit [DecidableEq ι] in
/-- No wake is lost in a safe state. -/
theorem Safe.not_lost {s : TaskWait ι} (hs : Safe s) : ¬Lost s := by
  rintro ⟨hfinished, -, hparked, hword, hsatisfied⟩
  rcases hs.heard hsatisfied (Or.inr (Or.inr hparked)) with ⟨i, hi⟩ | ⟨htoken, -⟩ | ⟨i, hi⟩
  · rw [hfinished i] at hi
    exact hi
  · rw [hword] at htoken
    exact absurd htoken (by decide)
  · exact (hs.asleep hword).2 i hi

theorem not_lost_of_reachableUnder {s : TaskWait ι}
    (hs : (system ι).ReachableUnder (fun s a ↦ seesConsumption s a = true) s) : ¬Lost s := by
  refine Safe.not_lost (System.ReachableUnder.invariant (P := Safe) ?_ ?_ hs)
  · rintro _ (rfl | rfl)
    · exact safe_start _ (Or.inl rfl)
    · exact safe_start _ (Or.inr rfl)
  · intro s a t hsafe hsees hnext
    exact safe_step hsafe hsees hnext

end Task

/-! ### A thread as the waiter -/

namespace Futex

/-- The waiter has found `satisfied` false and goes on to block. -/
def WaiterPc.Committed (pc : WaiterPc) : Prop :=
  pc = .swap ∨ pc = .load ∨ pc = .wait ∨ pc = .asleep

/-- What holds in every state. -/
structure Safe (s : ThreadWait ι) : Prop where
  consumes : ∀ w ∈ s.pending, w = .word .empty
  tells : ∀ i, s.tso.buffer (.notifier i) = [] ∨
    s.notifier i = .exchange ∧ s.tso.buffer (.notifier i) = [.satisfied]
  settled : s.waiter.Committed → s.waiter ≠ .swap → s.pending = []
  heard : s.tso.memory.satisfied = true → s.waiter.Committed →
    (∃ i, s.notifier i = .exchange) ∨ (s.tso.memory.word = .notified ∧ s.pending = [])

attribute [local grind] WaiterPc.Committed State.pending State.gotoWaiter State.goto State.store
  Tso.store Store.apply parkSwap

omit [DecidableEq ι] in
/-- Nothing is amiss at the start. -/
theorem safe_start (word : ParkerState) : Safe (State.start word .test .begin : ThreadWait ι) := by
  constructor <;> first | assumption | grind -linarith [State.start]

omit [DecidableEq ι] in
/-- The waiter's own stores do not touch `satisfied`. -/
theorem Safe.satisfied_view {s : ThreadWait ι} (hs : Safe s) :
    (s.view .waiter).satisfied = s.tso.memory.satisfied := by
  refine Tso.view_field Store.apply Memory.satisfied s.tso .waiter fun w hw memory ↦ ?_
  rw [hs.consumes w hw]
  rfl

theorem safe_waiter {s t : ThreadWait ι} (hs : Safe s) (h : waiterStep s = some t) : Safe t := by
  have hview := hs.satisfied_view
  have hmemory : s.pending = [] → s.view .waiter = s.tso.memory := Tso.view_of_empty Store.apply
  obtain ⟨h1, h2, h3, h4⟩ := hs
  cases hpc : s.waiter <;> simp only [waiterStep, hpc, Option.some.injEq, Option.map_eq_some_iff,
    State.modify_eq_some_iff, reduceCtorEq, State.gotoWaiter, State.store, Tso.store] at h
  · subst h
    constructor <;> dsimp only [State.pending] at * <;> first | assumption | grind -linarith
  · obtain ⟨_, ⟨hempty, rfl⟩, rfl⟩ := h
    constructor <;> dsimp only [State.pending] at * <;> first | assumption | grind -linarith
  · subst h
    constructor <;> dsimp only [State.pending] at * <;> first | assumption | grind -linarith
  · obtain ⟨_, ⟨hempty, rfl⟩, rfl⟩ := h
    constructor <;> dsimp only [State.pending] at * <;> first | assumption | grind -linarith
  · subst h
    constructor <;> dsimp only [State.pending] at * <;> first | assumption | grind -linarith

theorem safe_notifier {s t : ThreadWait ι} {i : ι} {spurious : Bool} (hs : Safe s)
    (hsees : seesConsumption s (.notifier i spurious) = true)
    (h : notifierStep s i = some t) : Safe t := by
  obtain ⟨h1, h2, h3, h4⟩ := hs
  cases hpc : s.notifier i with
  | begin =>
    simp only [notifierStep, hpc, Option.some.injEq] at h
    subst h
    refine ⟨?_, ?_, ?_, fun _ _ ↦ Or.inl (exists_update_self (P := (· = NotifierPc.exchange)) rfl)⟩ <;>
      dsimp only [State.pending, State.goto, State.store, Tso.store] at * <;> grind -linarith
  | exchange =>
    have hlate : retestedEarly s = false := by simpa [seesConsumption, hpc] using hsees
    simp only [notifierStep, hpc, Option.map_eq_some_iff, State.modify_eq_some_iff] at h
    obtain ⟨_, ⟨hempty, rfl⟩, rfl⟩ := h
    refine ⟨?_, ?_, ?_, fun hS hcommitted ↦ Or.inr ⟨rfl, ?_⟩⟩
    case refine_4 =>
      show s.pending = []
      by_cases hswap : s.waiter = .swap
      · simpa [retestedEarly, hswap] using hlate
      · exact h3 hcommitted hswap
    all_goals
      dsimp only [State.pending, State.goto] at *
      grind -linarith
  | wake =>
    simp only [notifierStep, hpc, Option.some.injEq] at h
    subst h
    refine ⟨?_, ?_, ?_, fun hS hcommitted ↦ ?_⟩
    case refine_4 =>
      have hbefore : s.waiter.Committed := by
        dsimp only [State.goto, State.gotoWaiter] at hcommitted
        grind -linarith
      refine (h4 hS hbefore).imp (exists_update (P := (· = NotifierPc.exchange)) fun hi ↦ ?_) id
      have hexchange : s.notifier i = .exchange := hi
      rw [hpc] at hexchange
      exact absurd hexchange (by decide)
    all_goals
      dsimp only [State.pending, State.goto, State.gotoWaiter] at *
      grind -linarith
  | finished => simp [notifierStep, hpc] at h

theorem safe_drain {s t : ThreadWait ι} {thread : Thread ι} (hs : Safe s)
    (h : s.drain thread = some t) : Safe t := by
  obtain ⟨w, rest, hbuffer, rfl⟩ := State.drain_eq_some_iff.mp h
  obtain ⟨h1, h2, h3, h4⟩ := hs
  cases thread with
  | waiter =>
    have hw : w = .word .empty := h1 w (by rw [State.pending, hbuffer]; exact List.mem_cons_self)
    subst hw
    constructor <;> dsimp only [State.pending] at * <;> first | assumption | grind -linarith
  | notifier i =>
    constructor <;> dsimp only [State.pending] at * <;> first | assumption | grind -linarith

/-- Every step keeps the invariant, if it sees the consumption of the token. -/
theorem safe_step {s t : ThreadWait ι} {a : Action ι} (hs : Safe s)
    (hsees : seesConsumption s a = true) (h : step s a = some t) : Safe t := by
  cases a with
  | waiter => exact safe_waiter hs h
  | notifier i spurious => exact safe_notifier hs hsees h
  | drain thread => exact safe_drain hs h
  | interrupt =>
    obtain ⟨h1, h2, h3, h4⟩ := hs
    simp only [step] at h
    split_ifs at h with hasleep
    cases h
    constructor <;> dsimp only [State.pending, State.gotoWaiter] at * <;>
      first | assumption | grind -linarith

omit [DecidableEq ι] in
/-- No wake is lost in a safe state. -/
theorem Safe.not_lost {s : ThreadWait ι} (hs : Safe s) : ¬Lost s := by
  rintro ⟨hfinished, -, hasleep, hword, hsatisfied⟩
  rcases hs.heard hsatisfied (Or.inr (Or.inr (Or.inr hasleep))) with ⟨i, hi⟩ | ⟨htoken, -⟩
  · rw [hfinished i] at hi
    exact absurd hi (by decide)
  · rw [hword] at htoken
    exact absurd htoken (by decide)

theorem not_lost_of_reachableUnder {s : ThreadWait ι}
    (hs : (system ι).ReachableUnder (fun s a ↦ seesConsumption s a = true) s) : ¬Lost s := by
  refine Safe.not_lost (System.ReachableUnder.invariant (P := Safe) ?_ ?_ hs)
  · rintro _ (rfl | rfl)
    · exact safe_start _
    · exact safe_start _
  · intro s a t hsafe hsees hnext
    exact safe_step hsafe hsees hnext

end Futex

/-! ### The results -/

/-- In every run in which no notifier reads the word between a test of `satisfied` that comes too
early and the moment the consuming store reaches memory, no wake is lost, whichever way the waiter
parks and however many notifiers there are. -/
theorem stale_token_hides_no_wake (ι : Type u) [DecidableEq ι] :
    (∀ s, (Task.system ι).ReachableUnder (fun s a ↦ Task.seesConsumption s a = true) s →
      ¬Task.Lost s) ∧
    (∀ s, (Futex.system ι).ReachableUnder (fun s a ↦ Futex.seesConsumption s a = true) s →
      ¬Futex.Lost s) :=
  ⟨fun _ hs ↦ Task.not_lost_of_reachableUnder hs, fun _ hs ↦ Futex.not_lost_of_reachableUnder hs⟩

/-- A stale token is consumed, and the notifier comes once the consuming store has reached
memory: it finds the waiter parked and wakes it. -/
def Task.consumedInTime : List (Action Unit) :=
  [.waiter, .waiter, .waiter, .drain .waiter, .waiter, .waiter, .waiter, .notifier () false,
    .drain (.notifier ()), .notifier () false, .notifier () false, .notifier () false]

/-- The same with a thread: the notifier finds it blocked. -/
def Futex.consumedInTime : List (Action Unit) :=
  [.waiter, .waiter, .waiter, .drain .waiter, .waiter, .waiter, .waiter, .waiter,
    .notifier () false, .drain (.notifier ()), .notifier () false]

theorem stale_token_hides_no_wake_consumedInTime :
    (∃ s, ((Task.system Unit).runUnder Task.seesConsumption (State.start .notified .test .begin)
        Task.consumedInTime = some s) ∧ s.waiter = .parked ∧ s.notifier () = .store ∧
        ¬Task.Lost s) ∧
    (∃ s, ((Futex.system Unit).runUnder Futex.seesConsumption (State.start .notified .test .begin)
        Futex.consumedInTime = some s) ∧ s.waiter = .asleep ∧ s.notifier () = .wake ∧
        ¬Futex.Lost s) := by
  refine ⟨⟨((Task.system Unit).runUnder Task.seesConsumption _ Task.consumedInTime).get (by decide),
    (Option.some_get _).symm, by decide, by decide, ?_⟩,
    ⟨((Futex.system Unit).runUnder Futex.seesConsumption _ Futex.consumedInTime).get (by decide),
    (Option.some_get _).symm, by decide, by decide, ?_⟩⟩
  · exact (stale_token_hides_no_wake Unit).1 _
      (System.reachableUnder_of_run (Or.inr rfl) (Option.some_get _).symm)
  · exact (stale_token_hides_no_wake Unit).2 _
      (System.reachableUnder_of_run (Or.inr rfl) (Option.some_get _).symm)

/-- The waiter consumes the stale token and tests `satisfied` again while its store is pending; the
notifier runs from its first to its last access and finds the token; then the store reaches memory
and the waiter parks. -/
def Task.consumedTooLate : List (Action Unit) :=
  [.waiter, .waiter, .waiter, .waiter, .notifier () false, .drain (.notifier ()),
    .notifier () false, .notifier () false, .notifier () false, .waiter, .drain .waiter, .waiter]

/-- The same with a thread: the pending store overwrites the token of the notifier. -/
def Futex.consumedTooLate : List (Action Unit) :=
  [.waiter, .waiter, .waiter, .waiter, .notifier () false, .drain (.notifier ()),
    .notifier () false, .drain .waiter, .waiter, .waiter, .waiter]

/-- With the notifier in between, the wake is lost, for a task and for a thread. -/
theorem wake_lost_behind_stale_token :
    (∃ s, (Task.system Unit).Reachable s ∧ Task.Lost s) ∧
    (∃ s, (Futex.system Unit).Reachable s ∧ Futex.Lost s) := by
  refine ⟨⟨((Task.system Unit).run (State.start .notified .test .begin) Task.consumedTooLate).get
      (by decide), System.reachable_of_run (Or.inr rfl) (Option.some_get _).symm, ?_⟩,
    ⟨((Futex.system Unit).run (State.start .notified .test .begin) Futex.consumedTooLate).get
      (by decide), System.reachable_of_run (Or.inr rfl) (Option.some_get _).symm, ?_⟩⟩
  · refine ⟨by decide, fun t ↦ ?_, by decide, by decide, by decide⟩
    cases t with
    | waiter => rfl
    | notifier i => rfl
  · refine ⟨by decide, fun t ↦ ?_, by decide, by decide, by decide⟩
    cases t with
    | waiter => rfl
    | notifier i => rfl

end Stackfull.Sched.StaleToken
