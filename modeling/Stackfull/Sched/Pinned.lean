import Stackfull.Sched.TasksSafety

/-!
# Pinned tasks stay with their worker

`pinToCurrentWorker` and `unpin` (`ThisTask.h`) and all places that move a runnable task: `schedule`
and the post-switch hooks (`Runtime.h`), the queues, stealing, gathering and `reapParkedTasks`
(`Worker.cpp`).

A task that is `loose` is in a container that several workers look into, or on its way to one; it
must not be pinned. A task that is `upcoming` is about to be switched to by the agent that has it.
`Home` says that loose tasks are not pinned, and that a task runs, waits or is upcoming where it is
pinned to. Every step keeps it (`pinned_tasks_stay`), except for `reapParkedTasks`, which switches
to a parked task to unwind it on whichever worker finds it (`pinned_task_unwound_elsewhere`).
-/

set_option autoImplicit false
set_option relaxedAutoImplicit false
set_option linter.dupNamespace false

namespace Stackfull.Sched.Tasks

open Stackfull.Lib

universe u v

variable {n : ℕ} {κ : Type u} {τ : Type v}

/-! ### Where a pinned task may be -/

/-- The tasks an operation is about to put where several workers look. -/
def Op.loose : Op τ → List τ
  | .pushLifo task => [task]
  | .pushFifo task slot | .overflow task slot => task :: slot.toList
  | .inject tasks slot => tasks ++ slot.toList
  | .restock tasks => tasks
  | _ => []

/-- The task an operation is about to switch to. -/
def Op.upcoming : Op τ → List τ
  | .found task => [task]
  | .switch _ next => next.toList
  | _ => []

/-- The tasks an agent will put where several workers look. -/
def After.loose : After τ → List τ
  | .place tasks _ kept => tasks ++ kept.toList
  | _ => []

/-- The task an agent will switch to. -/
def After.upcoming : After τ → List τ
  | .found task => [task]
  | .releasing _ next => next.toList
  | _ => []

/-- The agent may switch to the task. -/
def Fits (pinnedTo : τ → Option (Fin n)) (a : Agent n κ) (x : τ) : Prop :=
  pinnedTo x = none ∨ ∃ w, a = .worker w ∧ pinnedTo x = some w

/-- What an agent has in its hands. -/
structure Hands (pinnedTo : τ → Option (Fin n)) (a : Agent n κ) (op : Op τ) (after : After τ) :
    Prop where
  loose : ∀ x ∈ op.loose, pinnedTo x = none
  upcoming : ∀ x ∈ op.upcoming, Fits pinnedTo a x
  looseAfter : ∀ x ∈ after.loose, pinnedTo x = none
  upcomingAfter : ∀ x ∈ after.upcoming, Fits pinnedTo a x

/-- Loose tasks are not pinned, and pinned tasks are with their workers. -/
structure Home (s : State n κ τ) : Prop where
  running : ∀ w x, s.current w = some x → Fits s.pinnedTo (.worker w : Agent n κ) x
  lifoSlot : ∀ w x, s.lifoSlot w = some x → s.pinnedTo x = none
  queue : ∀ w, ∀ x ∈ s.queue w, s.pinnedTo x = none
  inbox : ∀ w, ∀ x ∈ s.inbox w, s.pinnedTo x = some w
  gathered : ∀ w, ∀ x ∈ s.gathered w, s.pinnedTo x = none
  injection : ∀ x ∈ s.injection, s.pinnedTo x = none
  hands : ∀ a, Hands s.pinnedTo a (s.op a) (s.after a)

/-- No task is pinned at first. -/
theorem Home.initial : Home (initial : State n κ τ) where
  running _ _ h := nomatch h
  lifoSlot _ _ h := nomatch h
  queue _ _ h := nomatch h
  inbox _ _ h := nomatch h
  gathered _ _ h := nomatch h
  injection _ h := nomatch h
  hands _ := ⟨nofun, nofun, nofun, nofun⟩

variable {s t : State n κ τ} {a : Agent n κ} {w : Fin n} {x : τ}

/-! ### What an agent goes on with -/

theorem Op.loose_moving {op : Op τ} (hx : x ∈ op.loose) : x ∈ op.moving := by
  cases op <;> first | exact hx | nomatch hx

theorem Op.upcoming_moving {op : Op τ} (hx : x ∈ op.upcoming) : x ∈ op.moving := by
  cases op <;> first | exact hx | nomatch hx

theorem After.loose_moving {after : After τ} (hx : x ∈ after.loose) : x ∈ after.moving := by
  cases after <;> first | exact hx | nomatch hx

theorem After.upcoming_moving {after : After τ} (hx : x ∈ after.upcoming) : x ∈ after.moving := by
  cases after <;> first | exact hx | nomatch hx

/-- The agent goes on with what it has for afterwards. -/
theorem Hands.ended {pinnedTo : τ → Option (Fin n)} {op : Op τ} {after : After τ}
    (h : Hands pinnedTo a op after) : Hands pinnedTo a after.next after.rest := by
  obtain ⟨-, -, hloose, hupcoming⟩ := h
  cases after with
  | none | yielding => exact ⟨List.forall_mem_nil _, List.forall_mem_nil _, List.forall_mem_nil _,
        List.forall_mem_nil _⟩
  | found task => exact ⟨List.forall_mem_nil _, hupcoming, List.forall_mem_nil _,
        List.forall_mem_nil _⟩
  | place tasks feedPeers kept =>
    cases tasks with
    | nil =>
      cases kept with
      | none => exact ⟨List.forall_mem_nil _, List.forall_mem_nil _, List.forall_mem_nil _,
            List.forall_mem_nil _⟩
      | some kept =>
        refine ⟨List.forall_mem_nil _, fun x hx ↦ Or.inl (hloose x ?_), List.forall_mem_nil _,
          List.forall_mem_nil _⟩
        simpa [After.loose, After.next, Op.upcoming] using hx
    | cons task tasks =>
      have htask : pinnedTo task = none := hloose task (by simp [After.loose])
      have hrest : ∀ x ∈ (After.place tasks feedPeers kept).loose, pinnedTo x = none :=
        fun x hx ↦ hloose x (by simp [After.loose] at hx ⊢; tauto)
      cases feedPeers <;>
        exact ⟨by simpa [After.next, Op.loose] using htask, List.forall_mem_nil _, hrest,
          List.forall_mem_nil _⟩
  | releasing task next =>
    cases next with
    | none => exact ⟨List.forall_mem_nil _, List.forall_mem_nil _, List.forall_mem_nil _,
          List.forall_mem_nil _⟩
    | some next => exact ⟨List.forall_mem_nil _, List.forall_mem_nil _, List.forall_mem_nil _,
          hupcoming⟩

/-- What holds of the items of all lists, after one list has changed. -/
theorem forall_mem_update {f : Fin n → List τ} {P : Fin n → τ → Prop} (h : ∀ v, ∀ y ∈ f v, P v y)
    {new : List τ} (hnew : ∀ y ∈ new, P w y) (v : Fin n) (y : τ)
    (hy : y ∈ Function.update f w new v) : P v y := by
  rcases eq_or_ne v w with rfl | hne
  · rw [Function.update_self] at hy
    exact hnew y hy
  · rw [Function.update_of_ne hne] at hy
    exact h v y hy

/-- What holds of the items of all slots, after one slot has changed. -/
theorem forall_eq_update {f : Fin n → Option τ} {P : Fin n → τ → Prop}
    (h : ∀ v y, f v = some y → P v y) {new : Option τ} (hnew : ∀ y, new = some y → P w y)
    (v : Fin n)
    (y : τ) (hy : Function.update f w new v = some y) : P v y := by
  rcases eq_or_ne v w with rfl | hne
  · rw [Function.update_self] at hy
    exact hnew y hy
  · rw [Function.update_of_ne hne] at hy
    exact h v y hy

/-- A list with one more item. -/
theorem forall_mem_concat {tasks : List τ} {P : τ → Prop} (h : ∀ y ∈ tasks, P y) (hx : P x) :
    ∀ y ∈ tasks ++ [x], P y := by
  intro y hy
  rcases List.mem_append.mp hy with hold | hnew
  · exact h y hold
  · rwa [List.mem_singleton.mp hnew]

/-- What is recorded of a task does not matter. -/
theorem Home.record (h : Home s) {f : History τ → History τ} : Home (s.record f) :=
  ⟨h.running, h.lifoSlot, h.queue, h.inbox, h.gathered, h.injection, h.hands⟩

variable [DecidableEq κ]

/-- One agent goes on with something else. -/
theorem Home.hands_update (h : Home s) {op : Op τ} {after : After τ}
    (hnew : Hands s.pinnedTo a op after) (b : Agent n κ) :
    Hands s.pinnedTo b (Function.update s.op a op b) (Function.update s.after a after b) := by
  rcases eq_or_ne b a with rfl | hne
  · rwa [Function.update_self, Function.update_self]
  · rw [Function.update_of_ne hne, Function.update_of_ne hne]
    exact h.hands b

/-- One agent goes on with its operation. -/
theorem Home.hands_goto (h : Home s) {op : Op τ} (hloose : ∀ x ∈ op.loose, s.pinnedTo x = none)
    (hupcoming : ∀ x ∈ op.upcoming, Fits s.pinnedTo a x) (b : Agent n κ) :
    Hands s.pinnedTo b (Function.update s.op a op b) (s.after b) := by
  rcases eq_or_ne b a with rfl | hne
  · rw [Function.update_self]
    exact ⟨hloose, hupcoming, (h.hands b).looseAfter, (h.hands b).upcomingAfter⟩
  · rw [Function.update_of_ne hne]
    exact h.hands b

/-- One agent's operation has ended. -/
theorem Home.hands_ended (h : Home s) (a b : Agent n κ) :
    Hands s.pinnedTo b (Function.update s.op a (s.after a).next b)
      (Function.update s.after a (s.after a).rest b) :=
  h.hands_update (h.hands a).ended b

/-- An operation has ended and has changed nothing. -/
theorem Home.ended (h : Home s) : Home (s.ended a) :=
  ⟨h.running, h.lifoSlot, h.queue, h.inbox, h.gathered, h.injection, h.hands_ended a⟩

/-- An agent goes on with its operation and has changed nothing. -/
theorem Home.goto (h : Home s) {op : Op τ} (hloose : ∀ x ∈ op.loose, s.pinnedTo x = none)
    (hupcoming : ∀ x ∈ op.upcoming, Fits s.pinnedTo a x) : Home (s.goto a op) :=
  ⟨h.running, h.lifoSlot, h.queue, h.inbox, h.gathered, h.injection, h.hands_goto hloose hupcoming⟩

/-! ### Containers -/

theorem home_schedule (h : Home s) {hasIdleWorkers : Bool} :
    Home (s.schedule a x hasIdleWorkers) := by
  have hinject (hpin : s.pinnedTo x = none) : Home (s.goto a (.inject [x] none)) :=
    h.goto (by simpa [Op.loose] using hpin) nofun
  unfold State.schedule
  split
  · rename_i target hpin
    refine ⟨h.running, h.lifoSlot, h.queue, ?_, h.gathered, h.injection, h.hands_ended _⟩
    exact forall_mem_update h.inbox (forall_mem_concat (h.inbox target) hpin)
  · rename_i hpin
    exact hinject hpin
  · rename_i v hpin
    split_ifs
    · refine ⟨h.running, h.lifoSlot, h.queue, h.inbox, ?_, h.injection, h.hands_ended _⟩
      exact forall_mem_update h.gathered (forall_mem_concat (h.gathered v) hpin)
    · exact hinject hpin
    · exact h.goto (by simpa [Op.loose] using hpin) nofun

theorem home_pushLifo (h : Home s) (hop : s.op (.worker w) = .pushLifo x) :
    Home (s.pushLifo w x) := by
  have hx : s.pinnedTo x = none := (h.hands (.worker w)).loose x (by simp [hop, Op.loose])
  unfold State.pushLifo
  split
  · rename_i occupant hslot
    refine ⟨h.running, forall_eq_update h.lifoSlot nofun, h.queue, h.inbox, h.gathered, h.injection,
      h.hands_goto ?_ nofun⟩
    simpa [Op.loose] using ⟨h.lifoSlot w occupant hslot, hx⟩
  · refine ⟨h.running, forall_eq_update h.lifoSlot ?_, h.queue, h.inbox, h.gathered, h.injection,
      h.hands_ended _⟩
    rintro y ⟨⟩
    exact hx

theorem home_pushFifo (h : Home s) {slot : Option τ} {pushed : Bool}
    (hop : s.op (.worker w) = .pushFifo x slot) : Home (s.pushFifo w x slot pushed) := by
  have hloose : ∀ y ∈ x :: slot.toList, s.pinnedTo y = none := fun y hy ↦
    (h.hands (.worker w)).loose y (by rw [hop]; exact hy)
  unfold State.pushFifo
  split_ifs
  · refine ⟨h.running, h.lifoSlot, forall_mem_update h.queue ?_, h.inbox, h.gathered, h.injection,
      h.hands_goto (fun y hy ↦ hloose y (List.mem_cons_of_mem x hy)) nofun⟩
    exact forall_mem_concat (h.queue w) (hloose x List.mem_cons_self)
  · exact h.goto hloose nofun

theorem home_overflow (h : Home s) {slot : Option τ} {hasActiveStealers : Bool} {count : ℕ}
    (hop : s.op (.worker w) = .overflow x slot) :
    Home (s.overflow w x slot hasActiveStealers count) := by
  have hloose : ∀ y ∈ x :: slot.toList, s.pinnedTo y = none := fun y hy ↦
    (h.hands (.worker w)).loose y (by rw [hop]; exact hy)
  unfold State.overflow
  split_ifs
  · exact h.goto hloose nofun
  · refine ⟨h.running, h.lifoSlot, forall_mem_update h.queue ?_, h.inbox, h.gathered, h.injection,
      h.hands_goto ?_ nofun⟩
    · exact fun y hy ↦ h.queue w y (List.mem_of_mem_drop hy)
    · intro y hy
      rw [Op.loose, List.append_assoc] at hy
      rcases List.mem_append.mp hy with htake | hrest
      · exact h.queue w y (List.mem_of_mem_take htake)
      · exact hloose y hrest

theorem home_inject (h : Home s) {tasks : List τ} {slot : Option τ}
    (hop : s.op a = .inject tasks slot) : Home (s.inject a tasks slot) := by
  have hloose : ∀ y ∈ tasks ++ slot.toList, s.pinnedTo y = none := fun y hy ↦
    (h.hands a).loose y (by rw [hop]; exact hy)
  unfold State.inject
  split
  · rename_i task rest
    refine ⟨h.running, h.lifoSlot, h.queue, h.inbox, h.gathered, ?_,
      h.hands_goto (fun y hy ↦ hloose y (List.mem_cons_of_mem task hy)) nofun⟩
    exact forall_mem_concat h.injection (hloose task List.mem_cons_self)
  · rename_i task v
    refine ⟨h.running, forall_eq_update h.lifoSlot ?_, h.queue, h.inbox, h.gathered, h.injection,
      h.hands_ended _⟩
    rintro y ⟨⟩
    exact hloose task (by simp)
  · exact h.ended

theorem home_restock (h : Home s) {tasks : List τ} {count : ℕ}
    (hop : s.op (.worker w) = .restock tasks) : Home (s.restock w tasks count) := by
  have hloose : ∀ y ∈ tasks, s.pinnedTo y = none := fun y hy ↦
    (h.hands (.worker w)).loose y (by rw [hop]; exact hy)
  refine ⟨h.running, h.lifoSlot, forall_mem_update h.queue ?_, h.inbox, h.gathered, h.injection,
    h.hands_goto ?_ nofun⟩
  · intro y hy
    rcases List.mem_append.mp hy with hold | hnew
    · exact h.queue w y hold
    · exact hloose y (List.mem_of_mem_take hnew)
  · intro y hy
    rw [Op.loose, Option.toList_none, List.append_nil] at hy
    exact hloose y (List.mem_of_mem_drop hy)

omit [DecidableEq κ] in
/-- What a worker takes from its own containers it may switch to. -/
theorem home_takeLocal (h : Home s) {choice : Choice} {task : Option τ}
    (htake : s.takeLocal w choice = (task, t)) :
    Home t ∧ t.pinnedTo = s.pinnedTo ∧
      ∀ y, task = some y → Fits s.pinnedTo (.worker w : Agent n κ) y := by
  unfold State.takeLocal at htake
  split at htake
  · rename_i hslot _
    obtain ⟨rfl, rfl⟩ := Prod.mk.inj htake
    refine ⟨⟨h.running, forall_eq_update h.lifoSlot nofun, h.queue, h.inbox, h.gathered,
      h.injection,
      h.hands⟩, rfl, ?_⟩
    rintro _ ⟨⟩
    exact Or.inl (h.lifoSlot w _ hslot)
  · split at htake
    · rename_i hqueue
      obtain ⟨rfl, rfl⟩ := Prod.mk.inj htake
      refine ⟨⟨h.running, h.lifoSlot, forall_mem_update h.queue ?_, h.inbox, h.gathered,
        h.injection,
        h.hands⟩, rfl, ?_⟩
      · exact fun z hz ↦ h.queue w z (by rw [hqueue]; exact List.mem_cons_of_mem _ hz)
      · rintro _ ⟨⟩
        exact Or.inl (h.queue w _ (by rw [hqueue]; exact List.mem_cons_self))
    · split at htake
      · rename_i hinbox
        obtain ⟨rfl, rfl⟩ := Prod.mk.inj htake
        refine ⟨⟨h.running, h.lifoSlot, h.queue, forall_mem_update h.inbox ?_, h.gathered,
          h.injection, h.hands⟩, rfl, ?_⟩
        · exact fun z hz ↦ h.inbox w z (by rw [hinbox]; exact List.mem_cons_of_mem _ hz)
        · rintro _ ⟨⟩
          exact Or.inr ⟨w, rfl, h.inbox w _ (by rw [hinbox]; exact List.mem_cons_self)⟩
      · obtain ⟨rfl, rfl⟩ := Prod.mk.inj htake
        refine ⟨⟨h.running, forall_eq_update h.lifoSlot nofun, h.queue, h.inbox, h.gathered,
          h.injection, h.hands⟩, rfl, ?_⟩
        exact fun y hy ↦ Or.inl (h.lifoSlot w y hy)

variable [DecidableEq τ]

/-! ### The word of a task -/

omit [DecidableEq κ] in
/-- The word of a task does not matter. -/
theorem Home.setParkState (h : Home s) {state : TaskState} : Home (s.setParkState x state) :=
  ⟨h.running, h.lifoSlot, h.queue, h.inbox, h.gathered, h.injection, h.hands⟩

theorem home_wakeRead (h : Home s) : Home (s.wakeRead a x) := by
  unfold State.wakeRead
  split
  · exact h.record.ended
  · exact h.ended
  · exact h.goto (List.forall_mem_nil _) (List.forall_mem_nil _)

theorem home_wakeSwap (h : Home s) {seen : TaskState} {spurious : Bool} :
    Home (s.wakeSwap a x seen spurious) := by
  unfold State.wakeSwap
  split_ifs
  · exact h.setParkState.record.goto nofun nofun
  · exact h.setParkState.record.ended
  · exact home_wakeRead h

theorem home_reapPutBack (h : Home s) : Home (s.reapPutBack w x) := by
  unfold State.reapPutBack
  split_ifs
  · exact h.setParkState.ended
  · exact h.record.goto nofun nofun

theorem home_reapClaim (h : Home s) : Home (s.reapClaim w x) := by
  unfold State.reapClaim
  split_ifs
  · exact h.setParkState.goto nofun nofun
  · exact h.ended

theorem home_parkStore (h : Home s) (hstep : s.parkStore w = some t) : Home t := by
  unfold State.parkStore at hstep
  split at hstep
  · obtain rfl := Option.some.inj hstep
    exact h.setParkState.record.ended
  · cases hstep

/-! ### Switches -/

omit [DecidableEq τ] in
theorem home_leave (h : Home s) {hook : Hook} {fairnessTick : Bool} {choice : Choice} :
    Home (s.leave w hook fairnessTick choice) := by
  unfold State.leave
  split
  · rename_i next taken htake
    obtain ⟨htaken, hpinned, hfits⟩ := home_takeLocal h htake
    refine htaken.goto nofun ?_
    rw [hpinned]
    simpa [Op.upcoming] using hfits next rfl
  · rename_i taken htake
    obtain ⟨htaken, -, -⟩ := home_takeLocal h htake
    split_ifs <;> exact htaken.goto nofun nofun

omit [DecidableEq τ] in
theorem home_yieldPop (h : Home s) {fairnessTick popped : Bool} :
    Home (s.yieldPop w fairnessTick popped) := by
  unfold State.yieldPop
  split
  · rename_i next rest hinjection
    refine ⟨h.running, h.lifoSlot, h.queue, h.inbox, h.gathered, ?_, h.hands_goto nofun ?_⟩
    · exact fun y hy ↦ h.injection y (by rw [hinjection]; exact List.mem_cons_of_mem _ hy)
    · have hnext := h.injection next (by rw [hinjection]; exact List.mem_cons_self)
      simpa [Op.upcoming, Fits] using Or.inl hnext
  · split_ifs
    · exact h.goto nofun nofun
    · exact h.ended

theorem home_switchTo (h : Home s) (hop : s.op (.worker w) = .found x) : Home (s.switchTo w x) := by
  refine ⟨forall_eq_update h.running ?_, h.lifoSlot, h.queue, h.inbox, h.gathered, h.injection,
    h.hands_ended _⟩
  rintro y ⟨⟩
  exact (h.hands (.worker w)).upcoming x (by simp [hop, Op.upcoming])

theorem home_switchOut (h : Home s) {hook : Hook} {next : Option τ}
    (hop : s.op (.worker w) = .switch hook next) (hstep : s.switchOut w hook next = some t) :
    Home t := by
  unfold State.switchOut at hstep
  split at hstep
  · obtain rfl := Option.some.inj hstep
    refine ⟨forall_eq_update h.running nofun, h.lifoSlot, h.queue, h.inbox, h.gathered, h.injection,
      h.hands_update ?_⟩
    have hnext := (h.hands (.worker w)).upcoming
    rw [hop] at hnext
    cases next with
    | none => exact ⟨nofun, nofun, nofun, nofun⟩
    | some next => exact ⟨nofun, nofun, nofun, hnext⟩
  · cases hstep

theorem home_arrived (h : Home s) {hook : Hook} : Home (s.arrived w x hook) := by
  cases hook with
  | parked =>
    simp only [State.arrived]
    split_ifs
    · exact h.setParkState.ended
    · exact h.record.goto (List.forall_mem_nil _) (List.forall_mem_nil _)
  | yielded =>
    simp only [State.arrived]
    split
    · rename_i target hpin
      refine ⟨h.running, h.lifoSlot, h.queue, ?_, h.gathered, h.injection, h.hands_ended _⟩
      exact forall_mem_update h.inbox (forall_mem_concat (h.inbox target) hpin)
    · rename_i hpin
      exact h.record.goto (by simpa [Op.loose] using hpin) (List.forall_mem_nil _)
  | finished => exact h.goto (List.forall_mem_nil _) (List.forall_mem_nil _)

theorem home_reapShields (h : Home s) {c : Config}
    (hfits : c.hasExceptions = true → s.forcedStopShields x = 0 →
      Fits s.pinnedTo (.worker w : Agent n κ) x) : Home (s.reapShields c w x) := by
  unfold State.reapShields
  split_ifs with hshields hexceptions
  · exact h.goto nofun nofun
  · refine ⟨forall_eq_update h.running ?_, h.lifoSlot, h.queue, h.inbox, h.gathered, h.injection,
      h.hands_ended _⟩
    rintro y ⟨⟩
    exact hfits hexceptions (not_not.mp hshields)
  · exact ⟨h.running, h.lifoSlot, h.queue, h.inbox, h.gathered, h.injection,
      h.hands_goto nofun nofun⟩

theorem home_release (h : Home s) : Home (s.release a x) :=
  ⟨h.running, h.lifoSlot, h.queue, h.inbox, h.gathered, h.injection, h.hands_ended _⟩

/-! ### Calls -/

omit [DecidableEq τ] in
theorem home_enter (h : Home s) {op : Op τ} (hloose : op.loose = []) (hupcoming : op.upcoming = [])
    (hstep : s.enter a op = some t) : Home t := by
  unfold State.enter at hstep
  split at hstep
  · obtain rfl := Option.some.inj hstep
    exact h.goto (by simp [hloose]) (by simp [hupcoming])
  · obtain rfl := Option.some.inj hstep
    exact ⟨h.running, h.lifoSlot, h.queue, h.inbox, h.gathered, h.injection,
      h.hands_update ⟨by simp [hloose], by simp [hupcoming], nofun, nofun⟩⟩
  · rename_i next _ hafter
    obtain rfl := Option.some.inj hstep
    have hnext := (h.hands a).upcomingAfter
    rw [hafter] at hnext
    exact ⟨h.running, h.lifoSlot, h.queue, h.inbox, h.gathered, h.injection,
      h.hands_update ⟨by simp [hloose], by simp [hupcoming], nofun, hnext⟩⟩
  · cases hstep

omit [DecidableEq τ] in
theorem home_placeGathered (h : Home s) {keepFirst feedPeers hasLocalWork : Bool} :
    Home (s.placeGathered w keepFirst feedPeers hasLocalWork) := by
  have hcleared : ∀ v, ∀ y ∈ Function.update s.gathered w [] v, s.pinnedTo y = none :=
    forall_mem_update h.gathered (List.forall_mem_nil _)
  have hplace {after : After τ} (hloose : ∀ y ∈ after.loose, y ∈ s.gathered w)
      (hupcoming : after.upcoming = []) : Home ({ s with
        gathered := Function.update s.gathered w []
        after := Function.update s.after (.worker w) after }.ended (.worker w)) := by
    have hhands : Hands s.pinnedTo (.worker w : Agent n κ) .idle after :=
      ⟨List.forall_mem_nil _, List.forall_mem_nil _, fun y hy ↦ h.gathered w y (hloose y hy), by
        simp [hupcoming]⟩
    refine ⟨h.running, h.lifoSlot, h.queue, h.inbox, hcleared, h.injection, fun b ↦ ?_⟩
    simp only [State.ended, State.gotoThen, Function.update_self, Function.update_idem]
    exact h.hands_update hhands.ended b
  unfold State.placeGathered
  dsimp only
  split
  · exact h
  · rename_i first rest hgathered
    refine hplace ?_ rfl
    intro y hy
    rw [hgathered]
    simpa [After.loose, or_comm] using hy
  · rename_i task hgathered
    refine ⟨h.running, h.lifoSlot, h.queue, h.inbox, hcleared, h.injection, h.hands_goto ?_
      (List.forall_mem_nil _)⟩
    have htask := h.gathered w task (by rw [hgathered]; exact List.mem_cons_self)
    simpa [Op.loose] using htask
  · refine hplace ?_ rfl
    simp [After.loose]

omit [DecidableEq τ] in
theorem home_yield (h : Home s) {fairnessTick : Bool} : Home (s.yield w fairnessTick) := by
  unfold State.yield
  split
  · rename_i injected rest hinjection
    have hmem : ∀ y ∈ injected :: rest, s.pinnedTo y = none := by
      rw [← hinjection]
      exact h.injection
    refine ⟨h.running, h.lifoSlot, h.queue, h.inbox, h.gathered, ?_, h.hands_update ?_⟩
    · exact fun y hy ↦ hmem y (List.mem_cons_of_mem _ hy)
    · refine ⟨?_, nofun, nofun, nofun⟩
      simpa [Op.loose] using hmem injected List.mem_cons_self
  · exact h.goto nofun nofun

omit [DecidableEq κ] [DecidableEq τ] in
theorem home_steal (h : Home s) {victim : Fin n} {start : ℕ} {rest : List τ}
    (hdrop : (s.queue victim).drop start = x :: rest) (count : ℕ) :
    (∀ v, ∀ y ∈ Function.update s.queue victim ((s.queue victim).take start ++ rest.drop count) v,
      s.pinnedTo y = none) ∧ ∀ y ∈ x :: rest, s.pinnedTo y = none := by
  have hmem : ∀ y ∈ x :: rest, s.pinnedTo y = none := by
    rw [← hdrop]
    exact fun y hy ↦ h.queue victim y (List.mem_of_mem_drop hy)
  refine ⟨forall_mem_update h.queue fun y hy ↦ ?_, hmem⟩
  rcases List.mem_append.mp hy with htake | hrest
  · exact h.queue victim y (List.mem_of_mem_take htake)
  · exact hmem y (List.mem_cons_of_mem _ (List.mem_of_mem_drop hrest))

/-- The pin of a task changes that is nowhere but on the worker it is pinned to. -/
theorem Home.pin (h : Home s) {place : τ → Option (Place n κ)} (hlocated : Located s.contents place)
    {pin : Option (Fin n)}
    (hplace : ∀ p, place x = some p → ∃ w, p = .running w ∧ (pin = none ∨ pin = some w)) :
    Home { s with pinnedTo := Function.update s.pinnedTo x pin } := by
  have hne {p : Place n κ} {y : τ} (hy : y ∈ s.contents p) (hp : ∀ w, p ≠ .running w) : y ≠ x := by
    rintro rfl
    obtain ⟨w, hw, -⟩ := hplace p (hlocated.mem_iff.mp hy)
    exact hp w hw
  have hsame {y : τ} (hy : y ≠ x) : Function.update s.pinnedTo x pin y = s.pinnedTo y :=
    Function.update_of_ne hy _ _
  have hfits {b : Agent n κ} {y : τ} (hy : y ≠ x) (hold : Fits s.pinnedTo b y) :
      Fits (Function.update s.pinnedTo x pin) b y := by
    rwa [Fits, hsame hy]
  refine ⟨fun v y hy ↦ ?_, fun v y hy ↦ ?_, fun v y hy ↦ ?_, fun v y hy ↦ ?_, fun v y hy ↦ ?_,
    fun y hy ↦ ?_, fun b ↦ ⟨fun y hy ↦ ?_, fun y hy ↦ ?_, fun y hy ↦ ?_, fun y hy ↦ ?_⟩⟩
  · rcases eq_or_ne y x with rfl | hyx
    · have hcontents : y ∈ s.contents (.running v) := Option.mem_toList.mpr hy
      obtain ⟨w, hw, hpin⟩ := hplace _ (hlocated.mem_iff.mp hcontents)
      obtain rfl := Place.running.inj hw
      simpa [Fits] using hpin
    · exact hfits hyx (h.running v y hy)
  · have hcontents : y ∈ s.contents (.lifoSlot v) := Option.mem_toList.mpr hy
    exact (hsame (hne hcontents nofun)).trans (h.lifoSlot v y hy)
  · have hcontents : y ∈ s.contents (.queue v) := hy
    exact (hsame (hne hcontents nofun)).trans (h.queue v y hy)
  · have hcontents : y ∈ s.contents (.inbox v) := hy
    exact (hsame (hne hcontents nofun)).trans (h.inbox v y hy)
  · have hcontents : y ∈ s.contents (.gathered v) := hy
    exact (hsame (hne hcontents nofun)).trans (h.gathered v y hy)
  · have hcontents : y ∈ s.contents .injection := hy
    exact (hsame (hne hcontents nofun)).trans (h.injection y hy)
  · have hcontents : y ∈ s.contents (.moving b) := List.mem_append_left _ (Op.loose_moving hy)
    exact (hsame (hne hcontents nofun)).trans ((h.hands b).loose y hy)
  · have hcontents : y ∈ s.contents (.moving b) := List.mem_append_left _ (Op.upcoming_moving hy)
    exact hfits (hne hcontents nofun) ((h.hands b).upcoming y hy)
  · have hcontents : y ∈ s.contents (.moving b) := List.mem_append_right _ (After.loose_moving hy)
    exact (hsame (hne hcontents nofun)).trans ((h.hands b).looseAfter y hy)
  · have hcontents : y ∈ s.contents (.moving b) :=
      List.mem_append_right _ (After.upcoming_moving hy)
    exact hfits (hne hcontents nofun) ((h.hands b).upcomingAfter y hy)

/-! ### Every step -/

/-- `reapParkedTasks` does not unwind a task on a worker it is not pinned to. -/
def unwindsAtHome (c : Config) (s : State n κ τ) : Action n κ τ → Bool
  | .advance (.worker w) _ =>
    match s.op (.worker w) with
    | .reapShields x =>
      decide (c.hasExceptions = true → s.forcedStopShields x = 0 →
        s.pinnedTo x = none ∨ s.pinnedTo x = some w)
    | _ => true
  | _ => true

theorem home_advance {c : Config} {choice : Choice} (h : Home s)
    (hgood : unwindsAtHome c s (.advance a choice) = true) (hstep : s.advance c a choice = some t) :
    Home t := by
  unfold State.advance at hstep
  split at hstep
  case h_1 => cases hstep
  case h_2 => exact Option.some.inj hstep ▸ home_schedule h.record
  case h_3 hop => exact Option.some.inj hstep ▸ home_inject h hop
  case h_4 => exact Option.some.inj hstep ▸ home_wakeRead h
  case h_5 => exact Option.some.inj hstep ▸ home_wakeSwap h
  case h_6 | h_7 | h_8 => exact Option.some.inj hstep ▸ h.setParkState.goto nofun nofun
  case h_9 => exact Option.some.inj hstep ▸ home_release h
  case h_10 hop => exact Option.some.inj hstep ▸ home_pushLifo h hop
  case h_11 hop => exact Option.some.inj hstep ▸ home_pushFifo h hop
  case h_12 hop => exact Option.some.inj hstep ▸ home_overflow h hop
  case h_13 hop => exact Option.some.inj hstep ▸ home_restock h hop
  case h_14 hop => exact Option.some.inj hstep ▸ home_switchTo h hop
  case h_15 => exact home_parkStore h hstep
  case h_16 => exact Option.some.inj hstep ▸ home_leave h
  case h_17 => exact Option.some.inj hstep ▸ home_yieldPop h
  case h_18 hop => exact home_switchOut h hop hstep
  case h_19 => exact Option.some.inj hstep ▸ home_arrived h
  case h_20 => exact Option.some.inj hstep ▸ home_reapClaim h
  case h_21 x w hop =>
    refine Option.some.inj hstep ▸ home_reapShields h fun hexceptions hshields ↦ ?_
    simp only [unwindsAtHome, hop, decide_eq_true_eq] at hgood
    exact (hgood hexceptions hshields).imp_right fun hw ↦ ⟨w, rfl, hw⟩
  case h_22 => exact Option.some.inj hstep ▸ home_reapPutBack h
  case h_23 => cases hstep

theorem home_step {c : Config} {action : Action n κ τ} (h : Home s) (hsound : Sound s)
    (hgood : unwindsAtHome c s action = true) (hstep : s.step c action = some t) : Home t := by
  obtain ⟨-, place, hlocated, hok⟩ := hsound
  have hrunning {w : Fin n} {x : τ} (hx : s.runningTask w = some x) :
      ∀ p, place x = some p → p = .running w := by
    have hcontents : x ∈ s.contents (.running w) :=
      Option.mem_toList.mpr (State.of_runningTask hx).2
    intro p hp
    rw [hlocated.mem_iff.mp hcontents] at hp
    exact (Option.some.inj hp).symm
  cases action with
  | wake a x =>
    simp only [State.step.eq_def] at hstep
    split_ifs at hstep
    exact home_enter h rfl rfl hstep
  | spawn a x =>
    simp only [State.step.eq_def] at hstep
    split_ifs at hstep with hnew
    have hnone : place x = none := by
      have hdead := (hok x).dead hnew.1
      simpa [State.view] using hdead
    have hpin : Home { s with pinnedTo := Function.update s.pinnedTo x none } :=
      h.pin hlocated (by simp [hnone])
    refine home_enter ?_ rfl rfl hstep
    exact ⟨hpin.running, hpin.lifoSlot, hpin.queue, hpin.inbox, hpin.gathered, hpin.injection,
      hpin.hands⟩
  | shield w | unshield w =>
    obtain ⟨x, -, rfl⟩ := Option.map_eq_some_iff.mp hstep
    exact ⟨h.running, h.lifoSlot, h.queue, h.inbox, h.gathered, h.injection, h.hands⟩
  | pinToCurrentWorker w =>
    obtain ⟨x, hx, rfl⟩ := Option.map_eq_some_iff.mp hstep
    exact h.pin hlocated fun p hp ↦ ⟨w, hrunning hx p hp, Or.inr rfl⟩
  | unpin w =>
    obtain ⟨x, hx, rfl⟩ := Option.map_eq_some_iff.mp hstep
    exact h.pin hlocated fun p hp ↦ ⟨w, hrunning hx p hp, Or.inl rfl⟩
  | park w =>
    obtain ⟨x, -, rfl⟩ := Option.map_eq_some_iff.mp hstep
    unfold State.park
    split_ifs <;> exact h.goto (List.forall_mem_nil _) (List.forall_mem_nil _)
  | yield w fairnessTick =>
    obtain ⟨x, -, rfl⟩ := Option.map_eq_some_iff.mp hstep
    exact home_yield h
  | finish w =>
    obtain ⟨x, -, rfl⟩ := Option.map_eq_some_iff.mp hstep
    exact h.goto (List.forall_mem_nil _) (List.forall_mem_nil _)
  | takeLocal w choice =>
    simp only [State.step.eq_def] at hstep
    split_ifs at hstep
    split at hstep
    case h_1 x taken htake =>
      obtain rfl := Option.some.inj hstep
      obtain ⟨htaken, hpinned, hfits⟩ := home_takeLocal h htake
      refine htaken.goto (List.forall_mem_nil _) ?_
      rw [hpinned]
      simpa [Op.upcoming] using hfits x rfl
    case h_2 taken htake =>
      obtain rfl := Option.some.inj hstep
      exact (home_takeLocal h htake).1.goto (List.forall_mem_nil _) (List.forall_mem_nil _)
  | popInjection w =>
    simp only [State.step.eq_def] at hstep
    split_ifs at hstep
    split at hstep
    case h_1 => cases hstep
    case h_2 x rest hinjection =>
      obtain rfl := Option.some.inj hstep
      refine ⟨h.running, h.lifoSlot, h.queue, h.inbox, h.gathered, ?_, h.hands_goto
        (List.forall_mem_nil _) ?_⟩
      · exact fun y hy ↦ h.injection y (by rw [hinjection]; exact List.mem_cons_of_mem _ hy)
      · have hx := h.injection x (by rw [hinjection]; exact List.mem_cons_self)
        simpa [Op.upcoming, Fits] using Or.inl hx
  | steal w victim start =>
    simp only [State.step.eq_def] at hstep
    split_ifs at hstep
    split at hstep
    case h_1 => cases hstep
    case h_2 x rest hdrop =>
      obtain rfl := Option.some.inj hstep
      obtain ⟨hqueue, hmem⟩ := home_steal h hdrop 0
      refine ⟨h.running, h.lifoSlot, hqueue, h.inbox, h.gathered, h.injection, h.hands_goto
        (List.forall_mem_nil _) ?_⟩
      simpa [Op.upcoming, Fits] using Or.inl (hmem x List.mem_cons_self)
  | stealBlock w victim start count =>
    simp only [State.step.eq_def] at hstep
    split_ifs at hstep
    split at hstep
    case h_1 => cases hstep
    case h_2 x rest hdrop =>
      obtain rfl := Option.some.inj hstep
      obtain ⟨hqueue, hmem⟩ := home_steal h hdrop count
      refine ⟨h.running, h.lifoSlot, hqueue, h.inbox, h.gathered, h.injection,
        h.hands_update ⟨?_, List.forall_mem_nil _, List.forall_mem_nil _, ?_⟩⟩
      · exact fun y hy ↦ hmem y (List.mem_cons_of_mem _ (List.mem_of_mem_take hy))
      · simpa [After.upcoming, Fits] using Or.inl (hmem x List.mem_cons_self)
  | setGathering w gathering =>
    simp only [State.step.eq_def] at hstep
    split_ifs at hstep
    obtain rfl := Option.some.inj hstep
    exact ⟨h.running, h.lifoSlot, h.queue, h.inbox, h.gathered, h.injection, h.hands⟩
  | placeGathered w keepFirst feedPeers hasLocalWork =>
    simp only [State.step.eq_def] at hstep
    split_ifs at hstep
    exact Option.some.inj hstep ▸ home_placeGathered h
  | reap w x =>
    simp only [State.step.eq_def] at hstep
    split_ifs at hstep
    exact Option.some.inj hstep ▸ h.goto (List.forall_mem_nil _) (List.forall_mem_nil _)
  | advance a choice => exact home_advance h hgood hstep

/-! ### The contract -/

/-- A worker runs, or is about to switch to, only tasks that are not pinned elsewhere; a pinned task
waits only in its worker's inbox. -/
structure StaysWith (s : State n κ τ) (x : τ) (w : Fin n) : Prop where
  running : ∀ v, s.current v = some x → v = w
  upcoming : ∀ v, x ∈ (s.op (.worker v)).upcoming → v = w
  inbox : ∀ v, x ∈ s.inbox v → v = w
  lifoSlot : ∀ v, s.lifoSlot v ≠ some x
  queue : ∀ v, x ∉ s.queue v
  gathered : ∀ v, x ∉ s.gathered v
  injection : x ∉ s.injection

omit [DecidableEq κ] [DecidableEq τ] in
/-- What is at home stays with its worker. -/
theorem Home.staysWith (h : Home s) (hx : s.pinnedTo x = some w) : StaysWith s x w := by
  have hfits {v : Fin n} (hv : Fits s.pinnedTo (.worker v : Agent n κ) x) : v = w := by
    rcases hv with hnone | ⟨u, hu, hsome⟩
    · rw [hx] at hnone
      nomatch hnone
    · rw [hx] at hsome
      rw [Agent.worker.inj hu, Option.some.inj hsome]
  have hpinned (hnone : s.pinnedTo x = none) : False := by
    rw [hx] at hnone
    nomatch hnone
  refine ⟨fun v hv ↦ hfits (h.running v x hv), fun v hv ↦ hfits ((h.hands _).upcoming x hv), ?_,
    fun v hv ↦ hpinned (h.lifoSlot v x hv), fun v hv ↦ hpinned (h.queue v x hv),
    fun v hv ↦ hpinned (h.gathered v x hv), fun hv ↦ hpinned (h.injection x hv)⟩
  intro v hv
  have hinbox := h.inbox v x hv
  rw [hx] at hinbox
  exact (Option.some.inj hinbox).symm

/-- In every run in which `reapParkedTasks` unwinds no task on a worker it is not pinned to, a
pinned task is switched to by its worker only, waits only in its worker's inbox, and is in no
container that another worker looks into. -/
theorem pinned_tasks_stay (c : Config)
    (hs : (system n κ τ c).ReachableUnder (fun s a ↦ unwindsAtHome c s a = true) s)
    (hx : s.pinnedTo x = some w) : StaysWith s x w := by
  have h := System.ReachableUnder.invariant (P := fun s ↦ Home s ∧ Sound s) ?_ ?_ hs
  · exact h.1.staysWith hx
  · rintro _ rfl
    exact ⟨Home.initial, sound_initial⟩
  · rintro s action t ⟨hhome, hsound⟩ hgood hstep
    exact ⟨home_step hhome hsound hgood hstep, sound_step hsound hstep⟩

/-- A task pins itself to worker 0 and parks. It is woken, and parks again. -/
def pinAndPark : List (Action 2 Unit Unit) :=
  [.spawn (.foreign ()) (), .advance (.foreign ()) plain, .advance (.foreign ()) plain,
    .advance (.foreign ()) plain, .popInjection 0, .advance (.worker 0) plain,
    .pinToCurrentWorker 0, .park 0, .advance (.worker 0) plain, .advance (.worker 0) plain,
    .advance (.worker 0) plain, .wake (.foreign ()) (), .advance (.foreign ()) plain,
    .advance (.foreign ()) plain, .advance (.foreign ()) plain, .advance (.foreign ()) plain,
    .takeLocal 0 plain, .advance (.worker 0) plain, .park 0, .advance (.worker 0) plain,
    .advance (.worker 0) plain, .advance (.worker 0) plain]

/-- The reaper of a worker unwinds the task. -/
def reapBy (w : Fin 2) : List (Action 2 Unit Unit) :=
  [.reap w (), .advance (.worker w) plain, .advance (.worker w) plain]

theorem pinned_tasks_stay_reapByOwn :
    ∃ s, (system 2 Unit Unit ⟨true⟩).runUnder (unwindsAtHome ⟨true⟩) initial
        (pinAndPark ++ reapBy 0) = some s ∧
      (s.pinnedTo () = some 0 ∧ s.history.unwound = [((), 0)]) ∧ StaysWith s () 0 :=
  ⟨((system 2 Unit Unit ⟨true⟩).runUnder (unwindsAtHome ⟨true⟩) initial
      (pinAndPark ++ reapBy 0)).get (by decide), (Option.some_get _).symm, by decide,
    pinned_tasks_stay ⟨true⟩ (System.reachableUnder_of_run rfl (Option.some_get _).symm)
      (by decide)⟩

/-- Another worker's reaper switches to the pinned task, to unwind it. -/
theorem pinned_task_unwound_elsewhere :
    ∃ s, (system 2 Unit Unit ⟨true⟩).Reachable s ∧ s.pinnedTo () = some 0 ∧ s.current 1 = some () ∧
      ¬ StaysWith s () 0 :=
  ⟨((system 2 Unit Unit ⟨true⟩).run initial (pinAndPark ++ reapBy 1)).get (by decide),
    System.reachable_of_run rfl (Option.some_get _).symm, by decide, by decide,
    fun h ↦ absurd (h.running 1 (by decide)) (by decide)⟩

end Stackfull.Sched.Tasks
