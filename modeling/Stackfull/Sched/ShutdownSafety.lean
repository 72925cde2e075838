import Stackfull.Sched.Shutdown
import Mathlib.Algebra.BigOperators.Fin
import Mathlib.Data.Finset.Card

/-!
# When no spawned task is left behind

The counters add up to the live tasks (`Counts`). A worker that has read all finished counters has
read at most what is finished when it reads `foreignCreated`, and what it adds up from there on is
at least what is created by then; so if it leaves, no task that was counted at that moment is alive,
and a task that is alive was counted later. A worker does not count tasks in its own scan, so a task
that is alive when all workers have left was counted by another thread (`Scans`).
-/

set_option autoImplicit false
set_option relaxedAutoImplicit false
set_option linter.dupNamespace false

namespace Stackfull.Sched.Shutdown

open Stackfull.Lib
open Stackfull.Sched.Tasks (Agent)

universe u v

variable {n : ℕ} {κ : Type u} {τ : Type v}

/-! ### The invariant -/

/-- The task is counted as created and not as finished. -/
def Phase.Live : Phase n κ → Prop
  | .absent => False
  | .creating _ => False
  | .released => False
  | _ => True

/-- Who has which task. -/
structure Places (s : State n κ τ) : Prop where
  creating : ∀ a task, s.call a = .build task ∨ s.call a = .count task →
    s.phase task = .creating a
  counted : ∀ a task, s.call a = .schedule task → s.phase task = .counted a
  host : ∀ w task, s.host w = some task → s.phase task = .running w
  releasing : ∀ w task, s.worker w = .finishJoin task ∨ s.worker w = .countFinished task →
    s.phase task = .releasing w
  calls : ∀ w, s.call (.worker w) ≠ .idle → s.worker w = .dispatch
  creator : ∀ task, (s.phase task).Live → s.creator task ≠ none
  creates : ∀ task a, s.phase task = .creating a → s.creator task = some a
  reported : ∀ task, s.reported task = true → (s.phase task).Live ∨ s.phase task = .released
  joins : ∀ w task, s.worker w = .countFinished task → s.joinable task = true →
    s.joinDone task = true
  joined : ∀ task, s.phase task = .released → s.joinable task = true → s.joinDone task = true

/-- The counters add up to the live tasks. -/
def Counts (s : State n κ τ) : Prop :=
  ∃ live : Finset τ, (∀ task, task ∈ live ↔ (s.phase task).Live) ∧
    s.foreignCreated + ∑ w, s.tasksCreated w =
      s.foreignFinished + ∑ w, s.tasksFinished w + live.card

/-- What the scans of the workers have seen. -/
structure Scans (s : State n κ τ) : Prop where
  finished : ∀ w rest finished, s.worker w = .scanFinished rest finished →
    ∃ done, done ++ rest = List.finRange n ∧
      finished ≤ s.foreignFinished + (done.map s.tasksFinished).sum
  turn : ∀ w finished, s.worker w = .scanForeignCreated finished →
    finished ≤ s.foreignFinished + ∑ w, s.tasksFinished w
  created : ∀ w rest finished foreign created,
    s.worker w = .scanCreated rest finished foreign created → foreign ≤ s.foreignCreated ∧
      ∃ old : Finset τ, old.card + finished ≤ created + (rest.map s.tasksCreated).sum ∧
        ∀ task, (s.phase task).Live → task ∈ old ∨ s.creator task ≠ some (.worker w) ∧
          ∀ k, s.creator task = some (.foreign k) → foreign < s.foreignCreated
  left : ∀ w, s.worker w = .left → ∀ task, (s.phase task).Live →
    s.creator task ≠ some (.worker w)
  allLeft : (∀ w, s.worker w = .left) → ∀ task, (s.phase task).Live → ∀ k,
    s.creator task ≠ some (.foreign k)

/-- The invariant of the shutdown. -/
structure Sound (s : State n κ τ) : Prop where
  places : Places s
  counts : Counts s
  scans : Scans s

attribute [local grind] Phase.Live

theorem sound_initial : Sound (initial : State n κ τ) := by
  refine ⟨?_, ⟨∅, ?_, ?_⟩, ?_⟩
  · constructor <;> first | assumption | grind -linarith [initial]
  · simp [initial, Phase.Live]
  · simp [initial]
  · constructor <;> first | assumption | grind -linarith [initial]

/-! ### The counters -/

/-- One counter of a family grows by one. -/
theorem sum_update_succ (f : Fin n → ℕ) (w : Fin n) :
    ∑ v, Function.update f w (f w + 1) v = ∑ v, f v + 1 := by
  rw [Finset.sum_update_of_mem (Finset.mem_univ w), ← Finset.add_sum_erase _ _ (Finset.mem_univ w),
    Finset.erase_eq]
  omega

/-- A sum over a list of counters does not shrink when one grows. -/
theorem sum_map_le_update (f : Fin n → ℕ) (w : Fin n) (list : List (Fin n)) :
    (list.map f).sum ≤ (list.map (Function.update f w (f w + 1))).sum := by
  induction list with
  | nil => exact le_rfl
  | cons v rest ih =>
    have hv : f v ≤ Function.update f w (f w + 1) v := by
      rcases eq_or_ne v w with rfl | hne
      · rw [Function.update_self]
        omega
      · rw [Function.update_of_ne hne]
    simp only [List.map_cons, List.sum_cons]
    omega

/-! ### Steps that count nothing -/

/-- The worker is not in a scan and has not left. -/
def WorkerPc.Works : WorkerPc n τ → Prop
  | .scanFinished _ _ => False
  | .scanForeignCreated _ => False
  | .scanCreated _ _ _ _ => False
  | .left => False
  | _ => True

attribute [local grind] WorkerPc.Works

section
variable {s s' : State n κ τ}

/-- What was seen stays true while the counters grow and no task becomes alive. -/
theorem Scans.mono (hs : Scans s)
    (hworker : ∀ w, s'.worker w = s.worker w ∨ (s'.worker w).Works)
    (hforeignFinished : s'.foreignFinished = s.foreignFinished)
    (hfinished : ∀ list : List (Fin n),
      (list.map s.tasksFinished).sum ≤ (list.map s'.tasksFinished).sum)
    (hforeignCreated : s'.foreignCreated = s.foreignCreated)
    (hcreated : s'.tasksCreated = s.tasksCreated)
    (hlive : ∀ task, (s'.phase task).Live → (s.phase task).Live ∧ s'.creator task = s.creator task) :
    Scans s' := by
  refine ⟨fun w rest finished hpc ↦ ?_, fun w finished hpc ↦ ?_,
    fun w rest finished foreign created hpc ↦ ?_, fun w hpc task htask ↦ ?_,
    fun hall task htask k ↦ ?_⟩
  · obtain ⟨done, hdone, hle⟩ := hs.finished w rest finished (by grind -linarith)
    exact ⟨done, hdone, by have := hfinished done; omega⟩
  · have hle := hs.turn w finished (by grind -linarith)
    have hgrows := hfinished (List.finRange n)
    rw [← Fin.sum_univ_def, ← Fin.sum_univ_def] at hgrows
    omega
  · obtain ⟨hforeign, old, hcard, hold⟩ := hs.created w rest finished foreign created (by grind -linarith)
    refine ⟨by omega, old, by rwa [hcreated], fun task htask ↦ ?_⟩
    obtain ⟨hbefore, hcreator⟩ := hlive task htask
    rw [hcreator, hforeignCreated]
    exact hold task hbefore
  · obtain ⟨hbefore, hcreator⟩ := hlive task htask
    rw [hcreator]
    exact hs.left w (by grind -linarith) task hbefore
  · obtain ⟨hbefore, hcreator⟩ := hlive task htask
    rw [hcreator]
    exact hs.allLeft (by grind -linarith) task hbefore k

/-- The live tasks are the same. -/
theorem Counts.congr (hs : Counts s) (hforeignCreated : s'.foreignCreated = s.foreignCreated)
    (hcreated : s'.tasksCreated = s.tasksCreated)
    (hforeignFinished : s'.foreignFinished = s.foreignFinished)
    (hfinished : s'.tasksFinished = s.tasksFinished)
    (hlive : ∀ task, (s'.phase task).Live ↔ (s.phase task).Live) : Counts s' := by
  obtain ⟨live, hmem, hcount⟩ := hs
  refine ⟨live, fun task ↦ (hmem task).trans (hlive task).symm, ?_⟩
  rw [hforeignCreated, hcreated, hforeignFinished, hfinished]
  exact hcount

/-- A step that moves tasks between the phases of their lives, and counts nothing. -/
theorem Sound.shift (hs : Sound s) (hplaces : Places s')
    (hworker : ∀ w, s'.worker w = s.worker w ∨ (s'.worker w).Works)
    (hforeignFinished : s'.foreignFinished = s.foreignFinished)
    (hfinished : s'.tasksFinished = s.tasksFinished)
    (hforeignCreated : s'.foreignCreated = s.foreignCreated)
    (hcreated : s'.tasksCreated = s.tasksCreated)
    (hlive : ∀ task, (s'.phase task).Live ↔ (s.phase task).Live)
    (hcreator : ∀ task, (s.phase task).Live → s'.creator task = s.creator task) : Sound s' :=
  ⟨hplaces, hs.counts.congr hforeignCreated hcreated hforeignFinished hfinished hlive,
    hs.scans.mono hworker hforeignFinished (fun _ ↦ by rw [hfinished]) hforeignCreated hcreated
      fun task htask ↦ ⟨(hlive task).mp htask, hcreator task ((hlive task).mp htask)⟩⟩

theorem Sound.enter {w : Fin n} (hs : Sound s) : Sound (s.goto w .dispatch) := by
  refine hs.shift ?_ ?_ rfl rfl rfl rfl ?_ ?_ <;> dsimp only [State.goto]
  · obtain ⟨h1, h2, h3, h4, h5, h6, h7, h8, h9, h10⟩ := hs.places
    constructor <;> dsimp only at * <;> first | assumption | grind -linarith
  all_goals grind -linarith

variable [DecidableEq τ]

theorem Sound.wake {task : τ} (hs : Sound s) (hparked : s.phase task = .parked) :
    Sound (s.setPhase task .queued) := by
  refine hs.shift ?_ (fun w ↦ .inl rfl) rfl rfl rfl rfl ?_ ?_ <;> dsimp only [State.setPhase]
  · obtain ⟨h1, h2, h3, h4, h5, h6, h7, h8, h9, h10⟩ := hs.places
    constructor <;> dsimp only at * <;> first | assumption | grind -linarith
  · grind -linarith
  · grind -linarith

/-- A worker takes a task that is queued or, as the reaper, parked. -/
theorem Sound.take {w : Fin n} {task : τ} (hs : Sound s)
    (hphase : s.phase task = .queued ∨ s.phase task = .parked) :
    Sound { s.setPhase task (.running w) with host := Function.update s.host w (some task) } := by
  refine hs.shift ?_ (fun w ↦ .inl rfl) rfl rfl rfl rfl ?_ ?_ <;> dsimp only [State.setPhase]
  · obtain ⟨h1, h2, h3, h4, h5, h6, h7, h8, h9, h10⟩ := hs.places
    constructor <;> dsimp only at * <;> first | assumption | grind -linarith
  · grind -linarith
  · grind -linarith

/-- The running task leaves its worker, alive. -/
theorem Sound.leave {w : Fin n} {task : τ} {phase : Phase n κ} {pc : WorkerPc n τ} (hs : Sound s)
    (hcall : s.call (.worker w) = .idle) (hhost : s.host w = some task)
    (hnext : pc = .dispatch ∧ (phase = .queued ∨ phase = .parked) ∨
      pc = .finishJoin task ∧ phase = .releasing w) :
    Sound ({ s.setPhase task phase with host := Function.update s.host w none }.goto w pc) := by
  have hphase := hs.places.host w task hhost
  refine hs.shift ?_ ?_ rfl rfl rfl rfl ?_ ?_ <;> dsimp only [State.goto, State.setPhase]
  · obtain ⟨h1, h2, h3, h4, h5, h6, h7, h8, h9, h10⟩ := hs.places
    constructor <;> dsimp only at * <;> first | assumption | grind -linarith
  all_goals grind -linarith

/-- The reaper drops a parked task. -/
theorem Sound.drop {w : Fin n} {task : τ} (hs : Sound s) (hcall : s.call (.worker w) = .idle)
    (hphase : s.phase task = .parked) :
    Sound ((s.setPhase task (.releasing w)).goto w (.finishJoin task)) := by
  refine hs.shift ?_ ?_ rfl rfl rfl rfl ?_ ?_ <;> dsimp only [State.goto, State.setPhase]
  · obtain ⟨h1, h2, h3, h4, h5, h6, h7, h8, h9, h10⟩ := hs.places
    constructor <;> dsimp only at * <;> first | assumption | grind -linarith
  all_goals grind -linarith

theorem Sound.finishJoin {w : Fin n} {task : τ} (hs : Sound s)
    (hpc : s.worker w = .finishJoin task) :
    Sound ({ s with joinDone := Function.update s.joinDone task (s.joinable task) }.goto w
      (.countFinished task)) := by
  have hphase := hs.places.releasing w task (.inl hpc)
  refine hs.shift ?_ ?_ rfl rfl rfl rfl ?_ ?_ <;> dsimp only [State.goto]
  · obtain ⟨h1, h2, h3, h4, h5, h6, h7, h8, h9, h10⟩ := hs.places
    constructor <;> dsimp only at * <;> first | assumption | grind -linarith
  all_goals grind -linarith

/-! ### Counting -/

/-- A task is counted as finished. -/
theorem Sound.countFinished {w : Fin n} {task : τ} (hs : Sound s)
    (hpc : s.worker w = .countFinished task) :
    Sound ({ s.setPhase task .released with
      tasksFinished := Function.update s.tasksFinished w (s.tasksFinished w + 1) }.goto w
        .dispatch) := by
  have hphase := hs.places.releasing w task (.inr hpc)
  refine ⟨?_, ?_, hs.scans.mono ?_ rfl (sum_map_le_update s.tasksFinished w) rfl rfl ?_⟩ <;>
    dsimp only [State.goto, State.setPhase]
  · obtain ⟨h1, h2, h3, h4, h5, h6, h7, h8, h9, h10⟩ := hs.places
    constructor <;> dsimp only at * <;> first | assumption | grind -linarith
  · obtain ⟨live, hmem, hcount⟩ := hs.counts
    have htask : task ∈ live := (hmem task).mpr (by rw [hphase]; trivial)
    refine ⟨live.erase task, fun other ↦ ?_, ?_⟩ <;> dsimp only
    · rw [Finset.mem_erase, hmem other]
      grind -linarith
    · have hcard := Finset.card_erase_add_one htask
      rw [sum_update_succ]
      omega
  · grind -linarith
  · grind -linarith

/-! ### The scan -/

omit [DecidableEq τ] in
/-- A worker inside its scan moves on. -/
theorem Places.scan {w : Fin n} {pc : WorkerPc n τ} (hs : Places s)
    (hidle : s.call (.worker w) = .idle)
    (hpc : ∀ task, pc ≠ .finishJoin task ∧ pc ≠ .countFinished task) : Places (s.goto w pc) := by
  obtain ⟨h1, h2, h3, h4, h5, h6, h7, h8, h9, h10⟩ := hs
  constructor <;> dsimp only [State.goto] at * <;> first | assumption | grind -linarith

omit [DecidableEq τ] in
theorem Counts.scan {w : Fin n} {pc : WorkerPc n τ} (hs : Counts s) : Counts (s.goto w pc) :=
  hs.congr rfl rfl rfl rfl fun _ ↦ Iff.rfl

omit [DecidableEq τ] in
/-- Every worker but one keeps what it has seen. -/
theorem Scans.scan {w : Fin n} {pc : WorkerPc n τ} (hs : Scans s)
    (hfinished : ∀ rest finished, pc = .scanFinished rest finished →
      ∃ done, done ++ rest = List.finRange n ∧
        finished ≤ s.foreignFinished + (done.map s.tasksFinished).sum)
    (hturn : ∀ finished, pc = .scanForeignCreated finished →
      finished ≤ s.foreignFinished + ∑ w, s.tasksFinished w)
    (hcreated : ∀ rest finished foreign created,
      pc = .scanCreated rest finished foreign created → foreign ≤ s.foreignCreated ∧
        ∃ old : Finset τ, old.card + finished ≤ created + (rest.map s.tasksCreated).sum ∧
          ∀ task, (s.phase task).Live → task ∈ old ∨ s.creator task ≠ some (.worker w) ∧
            ∀ k, s.creator task = some (.foreign k) → foreign < s.foreignCreated)
    (hleft : pc = .left → (∀ task, (s.phase task).Live → s.creator task ≠ some (.worker w)) ∧
      ((∀ v, v ≠ w → s.worker v = .left) → ∀ task, (s.phase task).Live → ∀ k,
        s.creator task ≠ some (.foreign k))) : Scans (s.goto w pc) := by
  obtain ⟨h1, h2, h3, h4, h5⟩ := hs
  refine ⟨fun v rest finished h ↦ ?_, fun v finished h ↦ ?_,
    fun v rest finished foreign created h ↦ ?_, fun v h ↦ ?_, fun h ↦ ?_⟩ <;>
    dsimp only [State.goto] at *
  · rcases eq_or_ne v w with rfl | hne
    · exact hfinished rest finished (by simpa using h)
    · exact h1 v rest finished (by simpa [hne] using h)
  · rcases eq_or_ne v w with rfl | hne
    · exact hturn finished (by simpa using h)
    · exact h2 v finished (by simpa [hne] using h)
  · rcases eq_or_ne v w with rfl | hne
    · exact hcreated rest finished foreign created (by simpa using h)
    · exact h3 v rest finished foreign created (by simpa [hne] using h)
  · rcases eq_or_ne v w with rfl | hne
    · exact (hleft (by simpa using h)).1
    · exact h4 v (by simpa [hne] using h)
  · refine (hleft (by simpa using h w)).2 fun v hne ↦ ?_
    simpa [hne] using h v

/-- A worker moves on inside its scan, or out of it. -/
theorem Sound.scan {w : Fin n} {pc pc' : WorkerPc n τ} (hs : Sound s) (hbefore : s.worker w = pc')
    (hwork : pc' ≠ .dispatch) (hpc : ∀ task, pc ≠ .finishJoin task ∧ pc ≠ .countFinished task)
    (hscans : Scans (s.goto w pc)) : Sound (s.goto w pc) := by
  refine ⟨hs.places.scan ?_ hpc, hs.counts.scan, hscans⟩
  by_contra hcall
  exact hwork (hbefore.symm.trans (hs.places.calls w hcall))

theorem Sound.scanFinished {w v : Fin n} {rest : List (Fin n)} {finished : ℕ} (hs : Sound s)
    (hpc : s.worker w = .scanFinished (v :: rest) finished) :
    Sound (s.goto w (.scanFinished rest (finished + s.tasksFinished v))) := by
  refine hs.scan hpc (by simp) (by simp) (hs.scans.scan ?_ (by simp) (by simp) (by simp))
  rintro rest' finished' ⟨⟩
  obtain ⟨done, hdone, hle⟩ := hs.scans.finished w _ _ hpc
  refine ⟨done ++ [v], by simpa using hdone, ?_⟩
  simp only [List.map_append, List.map_cons, List.map_nil, List.sum_append, List.sum_cons,
    List.sum_nil]
  omega

theorem Sound.scanTurn {w : Fin n} {finished : ℕ} (hs : Sound s)
    (hpc : s.worker w = .scanFinished [] finished) : Sound (s.goto w (.scanForeignCreated finished)) := by
  refine hs.scan hpc (by simp) (by simp) (hs.scans.scan (by simp) ?_ (by simp) (by simp))
  rintro finished' ⟨⟩
  obtain ⟨done, hdone, hle⟩ := hs.scans.finished w _ _ hpc
  rw [List.append_nil] at hdone
  rw [Fin.sum_univ_def, ← hdone]
  exact hle

/-- The turn of the scan: what it goes on to add up is at least what is created now, and what it has
added up is at most what is finished now. -/
theorem Sound.scanForeignCreated {w : Fin n} {finished : ℕ} (hs : Sound s)
    (hpc : s.worker w = .scanForeignCreated finished) :
    Sound (s.goto w (.scanCreated (List.finRange n) finished s.foreignCreated
      s.foreignCreated)) := by
  refine hs.scan hpc (by simp) (by simp) (hs.scans.scan (by simp) (by simp) ?_ (by simp))
  rintro rest finished' foreign created ⟨⟩
  obtain ⟨live, hmem, hcount⟩ := hs.counts
  have hle := hs.scans.turn w finished hpc
  refine ⟨le_rfl, live, ?_, fun task htask ↦ .inl ((hmem task).mpr htask)⟩
  rw [← Fin.sum_univ_def]
  omega

theorem Sound.scanCreated {w v : Fin n} {rest : List (Fin n)} {finished foreign created : ℕ}
    (hs : Sound s) (hpc : s.worker w = .scanCreated (v :: rest) finished foreign created) :
    Sound (s.goto w (.scanCreated rest finished foreign (created + s.tasksCreated v))) := by
  refine hs.scan hpc (by simp) (by simp) (hs.scans.scan (by simp) (by simp) ?_ (by simp))
  rintro rest' finished' foreign' created' ⟨⟩
  obtain ⟨hforeign, old, hcard, hold⟩ := hs.scans.created w _ _ _ _ hpc
  refine ⟨hforeign, old, ?_, hold⟩
  simp only [List.map_cons, List.sum_cons] at hcard
  omega

/-- The worker leaves, or the scan has found a live task. -/
theorem Sound.scanEnd {w : Fin n} {finished foreign created : ℕ} (hs : Sound s)
    (hpc : s.worker w = .scanCreated [] finished foreign created)
    (hlast : created = finished → (∀ v, v ≠ w → s.worker v = .left) → s.foreignCreated = foreign) :
    Sound (s.goto w (if created = finished then .left else .dispatch)) := by
  split_ifs with hzero
  · refine hs.scan hpc (by simp) (by simp) (hs.scans.scan (by simp) (by simp) (by simp) fun _ ↦ ?_)
    obtain ⟨hforeign, old, hcard, hold⟩ := hs.scans.created w _ _ _ _ hpc
    simp only [List.map_nil, List.sum_nil] at hcard
    have hempty : old = ∅ := Finset.card_eq_zero.mp (by omega)
    subst hempty
    refine ⟨fun task htask ↦ ?_, fun hothers task htask k hcreator ↦ ?_⟩
    · exact ((hold task htask).resolve_left (Finset.notMem_empty task)).1
    · have hlater := ((hold task htask).resolve_left (Finset.notMem_empty task)).2 k hcreator
      have hsame := hlast hzero hothers
      omega
  · exact hs.scan hpc (by simp) (by simp) (hs.scans.scan (by simp) (by simp) (by simp) (by simp))

variable [DecidableEq κ]

theorem Sound.spawn {a : Agent n κ} {task : τ} {joinable : Bool} (hs : Sound s)
    (hmay : s.mayCall a = true) (hidle : s.call a = .idle) (habsent : s.phase task = .absent) :
    Sound (s.spawn a task joinable) := by
  unfold State.spawn
  split_ifs
  · exact hs
  · refine hs.shift ?_ (fun w ↦ .inl rfl) rfl rfl rfl rfl ?_ ?_ <;>
      dsimp only [State.gotoCall, State.setPhase]
    · obtain ⟨h1, h2, h3, h4, h5, h6, h7, h8, h9, h10⟩ := hs.places
      have hcounting := fun w task h ↦ h4 w task (.inr h)
      constructor <;> dsimp only at * <;> cases a <;>
        first | assumption | grind -linarith [State.mayCall]
    · grind -linarith
    · grind -linarith

/-- `createTask` gets its slot and its stack, or fails. -/
theorem Sound.build {a : Agent n κ} {task : τ} {succeeds : Bool} (hs : Sound s)
    (hcall : s.call a = .build task) :
    Sound (if succeeds then s.gotoCall a (.count task)
      else (s.setPhase task .absent).gotoCall a .idle) := by
  have hphase := hs.places.creating a task (.inl hcall)
  have hcreating := hs.places.creating
  split_ifs
  · refine hs.shift ?_ (fun w ↦ .inl rfl) rfl rfl rfl rfl ?_ ?_ <;>
      dsimp only [State.gotoCall, State.setPhase]
    · obtain ⟨h1, h2, h3, h4, h5, h6, h7, h8, h9, h10⟩ := hs.places
      constructor <;> dsimp only at * <;> first | assumption | grind -linarith
    · grind -linarith
    · grind -linarith
  · refine hs.shift ?_ (fun w ↦ .inl rfl) rfl rfl rfl rfl ?_ ?_ <;>
      dsimp only [State.gotoCall, State.setPhase]
    · obtain ⟨h1, h2, h3, h4, h5, h6, h7, h8, h9, h10⟩ := hs.places
      constructor <;> dsimp only at * <;> first | assumption | grind -linarith
    · grind -linarith
    · grind -linarith

/-- The task goes to a queue, and its spawn returns. -/
theorem Sound.schedule {a : Agent n κ} {task : τ} (hs : Sound s)
    (hcall : s.call a = .schedule task) :
    Sound ({ s.setPhase task .queued with
      reported := Function.update s.reported task true }.gotoCall a .idle) := by
  have hphase := hs.places.counted a task hcall
  refine hs.shift ?_ (fun w ↦ .inl rfl) rfl rfl rfl rfl ?_ ?_ <;>
    dsimp only [State.gotoCall, State.setPhase]
  · obtain ⟨h1, h2, h3, h4, h5, h6, h7, h8, h9, h10⟩ := hs.places
    constructor <;> dsimp only at * <;> first | assumption | grind -linarith
  · grind -linarith
  · grind -linarith

omit [DecidableEq κ] in
/-- The live tasks after one more is counted. -/
theorem Counts.insert {task : τ} {a : Agent n κ} (hs : Counts s)
    (hphase : s.phase task = .creating a)
    (hcreated : s'.foreignCreated + ∑ w, s'.tasksCreated w =
      s.foreignCreated + ∑ w, s.tasksCreated w + 1)
    (hforeignFinished : s'.foreignFinished = s.foreignFinished)
    (hfinished : s'.tasksFinished = s.tasksFinished)
    (hnext : s'.phase = Function.update s.phase task (.counted a)) : Counts s' := by
  obtain ⟨live, hmem, hcount⟩ := hs
  have htask : task ∉ live := by
    rw [hmem, hphase]
    exact id
  refine ⟨Insert.insert task live, fun other ↦ ?_, ?_⟩
  · rw [Finset.mem_insert, hmem other, hnext]
    grind -linarith
  · rw [Finset.card_insert_of_notMem htask, hcreated, hforeignFinished, hfinished]
    omega

theorem Places.count {a : Agent n κ} {task : τ} (hs : Places s) (hcall : s.call a = .count task)
    (foreignCreated : ℕ) (tasksCreated : Fin n → ℕ) :
    Places (({ s with
      foreignCreated := foreignCreated
      tasksCreated := tasksCreated }.setPhase task (.counted a)).gotoCall a (.schedule task)) := by
  have hcreating := hs.creating a task (.inr hcall)
  obtain ⟨h1, h2, h3, h4, h5, h6, h7, h8, h9, h10⟩ := hs
  constructor <;> dsimp only [State.setPhase, State.gotoCall] <;>
    first | assumption | grind -linarith

/-- A worker counts its task. Its own scan is still ahead. -/
theorem Sound.count_worker {w : Fin n} {task : τ} (hs : Sound s)
    (hcall : s.call (.worker w) = .count task) :
    Sound (((s.countCreated (.worker w)).setPhase task (.counted (.worker w))).gotoCall (.worker w)
      (.schedule task)) := by
  have hphase := hs.places.creating _ task (.inr hcall)
  have hcreator := hs.places.creates task _ hphase
  have hpc := hs.places.calls w (by simp [hcall])
  refine ⟨hs.places.count hcall _ _, hs.counts.insert hphase ?_ rfl rfl rfl, ?_⟩
  · dsimp only [State.countCreated, State.setPhase, State.gotoCall]
    rw [sum_update_succ]
    omega
  obtain ⟨h1, h2, h3, h4, h5⟩ := hs.scans
  refine ⟨h1, h2, fun v rest finished foreign created hscan ↦ ?_, ?_, ?_⟩ <;>
    dsimp only [State.countCreated, State.setPhase, State.gotoCall] at *
  · obtain ⟨hforeign, old, hcard, hold⟩ := h3 v rest finished foreign created hscan
    have hgrows := sum_map_le_update s.tasksCreated w rest
    exact ⟨hforeign, old, by omega, by grind -linarith⟩
  · grind -linarith
  · grind -linarith

/-- A thread outside the scheduler counts its task while some worker is in `run`. -/
theorem Sound.count_foreign {k : κ} {task : τ} (hs : Sound s)
    (hcall : s.call (.foreign k) = .count task) (hstays : ∃ w, s.worker w ≠ .left) :
    Sound (((s.countCreated (.foreign k)).setPhase task (.counted (.foreign k))).gotoCall
      (.foreign k) (.schedule task)) := by
  have hphase := hs.places.creating _ task (.inr hcall)
  have hcreator := hs.places.creates task _ hphase
  refine ⟨hs.places.count hcall _ _, hs.counts.insert hphase ?_ rfl rfl rfl, ?_⟩
  · dsimp only [State.countCreated, State.setPhase, State.gotoCall]
    omega
  obtain ⟨h1, h2, h3, h4, h5⟩ := hs.scans
  refine ⟨h1, h2, fun v rest finished foreign created hscan ↦ ?_, ?_, ?_⟩ <;>
    dsimp only [State.countCreated, State.setPhase, State.gotoCall] at *
  · obtain ⟨hforeign, old, hcard, hold⟩ := h3 v rest finished foreign created hscan
    refine ⟨by omega, old, hcard, fun other hother ↦ ?_⟩
    rcases eq_or_ne other task with rfl | hne
    · exact .inr ⟨by simp [hcreator], fun _ _ ↦ by omega⟩
    · rw [Function.update_of_ne hne] at hother
      refine (hold other hother).imp id fun h ↦ ⟨h.1, fun j hj ↦ ?_⟩
      have hseen := h.2 j hj
      omega
  · grind -linarith
  · grind -linarith

/-! ### The runs -/

omit [DecidableEq κ] in
theorem Sound.work {w : Fin n} (hs : Sound s) (hgood : s.countsInTime (.work w) = true)
    (hnext : s.work w = some s') : Sound s' := by
  unfold State.work at hnext
  split at hnext
  case h_1 | h_2 | h_11 => exact absurd hnext (by simp)
  all_goals obtain rfl := Option.some.inj hnext
  case h_3 task hpc => exact hs.finishJoin hpc
  case h_4 task hpc => exact hs.countFinished hpc
  case h_5 hpc =>
    refine hs.scan hpc (by simp) (by simp) (hs.scans.scan ?_ (by simp) (by simp) (by simp))
    rintro rest finished ⟨⟩
    exact ⟨[], rfl, by simp⟩
  case h_6 v rest finished hpc => exact hs.scanFinished hpc
  case h_7 finished hpc => exact hs.scanTurn hpc
  case h_8 finished hpc => exact hs.scanForeignCreated hpc
  case h_9 v rest finished foreign created hpc => exact hs.scanCreated hpc
  case h_10 finished foreign created hpc =>
    refine hs.scanEnd hpc ?_
    simp only [State.countsInTime, hpc, decide_eq_true_eq] at hgood
    exact hgood

theorem Sound.advance {a : Agent n κ} {succeeds : Bool} (hs : Sound s)
    (hgood : s.countsInTime (.advance a succeeds) = true)
    (hnext : s.advance a succeeds = some s') : Sound s' := by
  unfold State.advance at hnext
  split at hnext
  case h_1 => exact absurd hnext (by simp)
  all_goals obtain rfl := Option.some.inj hnext
  case h_2 task hcall => exact hs.build hcall
  case h_3 task hcall =>
    cases a with
    | foreign k => exact hs.count_foreign hcall (by simpa [State.countsInTime, hcall] using hgood)
    | worker w => exact hs.count_worker hcall
  case h_4 task hcall => exact hs.schedule hcall

/-- Every step that counts in time keeps the invariant. -/
theorem Sound.step {c : Config} {a : Action n κ τ} (hs : Sound s)
    (hgood : s.countsInTime a = true) (hnext : s.step c a = some s') : Sound s' := by
  cases a with
  | spawn a task joinable =>
    simp only [State.step.eq_def, Option.ite_none_right_eq_some, Option.some.injEq] at hnext
    obtain ⟨⟨hmay, hidle, habsent⟩, rfl⟩ := hnext
    exact hs.spawn hmay hidle habsent
  | advance a succeeds => exact hs.advance hgood hnext
  | stop =>
    obtain rfl := Option.some.inj hnext
    obtain ⟨⟨h1, h2, h3, h4, h5, h6, h7, h8, h9, h10⟩, hcounts, ⟨g1, g2, g3, g4, g5⟩⟩ := hs
    exact ⟨⟨h1, h2, h3, h4, h5, h6, h7, h8, h9, h10⟩, hcounts, ⟨g1, g2, g3, g4, g5⟩⟩
  | parkedWoken =>
    simp only [State.step.eq_def, Option.ite_none_right_eq_some, Option.some.injEq] at hnext
    obtain ⟨-, rfl⟩ := hnext
    obtain ⟨⟨h1, h2, h3, h4, h5, h6, h7, h8, h9, h10⟩, hcounts, ⟨g1, g2, g3, g4, g5⟩⟩ := hs
    exact ⟨⟨h1, h2, h3, h4, h5, h6, h7, h8, h9, h10⟩, hcounts, ⟨g1, g2, g3, g4, g5⟩⟩
  | wake task =>
    simp only [State.step.eq_def, Option.ite_none_right_eq_some, Option.some.injEq] at hnext
    obtain ⟨hparked, rfl⟩ := hnext
    exact hs.wake hparked
  | enter w =>
    simp only [State.step.eq_def, Option.ite_none_right_eq_some, Option.some.injEq] at hnext
    obtain ⟨-, rfl⟩ := hnext
    exact hs.enter
  | resume w task =>
    simp only [State.step.eq_def, Option.ite_none_right_eq_some, Option.some.injEq] at hnext
    obtain ⟨⟨-, -, hqueued⟩, rfl⟩ := hnext
    exact hs.take (.inl hqueued)
  | yield w =>
    simp only [State.step.eq_def, State.leave, State.atWork, Option.ite_none_right_eq_some,
      Bool.and_eq_true, decide_eq_true_eq] at hnext
    obtain ⟨⟨-, hidle⟩, hnext⟩ := hnext
    split at hnext
    · obtain rfl := Option.some.inj hnext
      exact hs.leave hidle ‹_› (by simp)
    · exact absurd hnext (by simp)
  | park w =>
    simp only [State.step.eq_def, State.leave, State.atWork, Option.ite_none_right_eq_some,
      Bool.and_eq_true, decide_eq_true_eq] at hnext
    obtain ⟨⟨-, hidle⟩, hnext⟩ := hnext
    split at hnext
    · obtain rfl := Option.some.inj hnext
      exact hs.leave hidle ‹_› (by simp)
    · exact absurd hnext (by simp)
  | finish w =>
    simp only [State.step.eq_def, State.leave, State.atWork, Option.ite_none_right_eq_some,
      Bool.and_eq_true, decide_eq_true_eq] at hnext
    obtain ⟨⟨-, hidle⟩, hnext⟩ := hnext
    split at hnext
    · obtain rfl := Option.some.inj hnext
      exact hs.leave hidle ‹_› (by simp)
    · exact absurd hnext (by simp)
  | reap w task =>
    simp only [State.step.eq_def, State.reap, State.atWork, Option.ite_none_right_eq_some,
      Option.some.injEq, Bool.and_eq_true, decide_eq_true_eq] at hnext
    obtain ⟨⟨⟨-, hidle⟩, -, -, -, hparked⟩, rfl⟩ := hnext
    split_ifs
    · exact hs.take (.inr hparked)
    · exact hs.drop hidle hparked
  | look w =>
    simp only [State.step.eq_def, State.atWork, Option.ite_none_right_eq_some, Option.some.injEq,
      Bool.and_eq_true, decide_eq_true_eq] at hnext
    obtain ⟨⟨⟨-, hidle⟩, -, -⟩, rfl⟩ := hnext
    exact ⟨hs.places.scan hidle (by simp), hs.counts.scan,
      hs.scans.scan (by simp) (by simp) (by simp) (by simp)⟩
  | work w => exact hs.work hgood hnext

omit [DecidableEq τ] [DecidableEq κ] in
/-- Once all workers have left, no task is alive. -/
theorem Sound.settled (hs : Sound s) : s.Settled := by
  intro hleft hreturned task hreported
  have hdead : ¬ (s.phase task).Live := by
    intro hlive
    obtain ⟨a, hcreator⟩ := Option.ne_none_iff_exists'.mp (hs.places.creator task hlive)
    cases a with
    | foreign k => exact hs.scans.allLeft hleft task hlive k hcreator
    | worker w => exact hs.scans.left w (hleft w) task hlive hcreator
  have hreleased := (hs.places.reported task hreported).resolve_left hdead
  exact ⟨hreleased, hs.places.joined task hreleased⟩

end

/-- If threads outside the scheduler count their tasks in time, no task whose spawn succeeded is
left behind when the workers are gone. -/
theorem stop_loses_no_spawn [DecidableEq κ] [DecidableEq τ] (c : Config) (s : State n κ τ)
    (hs : (system c).ReachableUnder (fun s a ↦ s.countsInTime a = true) s) : s.Settled := by
  have hsound : Sound s := by
    refine hs.invariant (fun s hinit ↦ ?_) fun _ _ _ hsound hgood hnext ↦ hsound.step hgood hnext
    obtain rfl : s = initial := hinit
    exact sound_initial
  exact hsound.settled

/-- A foreign thread spawns a task while the only worker is in its scan, and the worker runs it. -/
def ranBeforeExit : State 1 Unit Unit :=
  ((system ⟨true⟩).runUnder State.countsInTime initial
    ([Action.enter 0, .spawn (.foreign ()) () true, .stop, .look 0, .work 0, .work 0,
      .advance (.foreign ()) true, .advance (.foreign ()) true, .work 0, .work 0, .work 0, .work 0,
      .advance (.foreign ()) true, .resume 0 (), .finish 0, .work 0, .work 0, .look 0] ++
      List.replicate 6 (Action.work 0))).get (by decide)

theorem stop_loses_no_spawn_ranBeforeExit :
    ranBeforeExit.Settled ∧ ranBeforeExit.worker 0 = .left ∧
      ranBeforeExit.phase () = .released :=
  ⟨stop_loses_no_spawn ⟨true⟩ ranBeforeExit
    (System.reachableUnder_of_run rfl (Option.some_get _).symm), by decide, by decide⟩

/-- A foreign thread has passed the test of `stopping` when the only worker finds no live task and
leaves; then it counts and schedules its task. -/
def spawnedTooLate : State 1 Unit Unit :=
  ((system ⟨true⟩).run initial
    ([Action.enter 0, .spawn (.foreign ()) () false, .stop, .look 0] ++
      List.replicate 6 (Action.work 0) ++
      List.replicate 3 (Action.advance (.foreign ()) true))).get (by decide)

theorem spawn_lost_behind_exit :
    ¬ ∀ s : State 1 Unit Unit, (system ⟨true⟩).Reachable s → s.Settled := by
  intro hsettled
  have hreach : (system ⟨true⟩).Reachable spawnedTooLate :=
    System.reachable_of_run rfl (Option.some_get _).symm
  have hreleased := hsettled spawnedTooLate hreach (by decide) (by rintro (_ | _) <;> decide +revert)
    () (by decide)
  exact absurd hreleased.1 (by decide)

end Stackfull.Sched.Shutdown
